import NetProbe.AnalysisSession
import NetProbe.FlowRuns
import NetProbe.FlowKeys
import NetProbe.FlowLoss
import NetProbe.FlowTraffic
import NetProbe.FlowTiming
import NetProbe.FlowHandshake
import NetProbe.FlowRtt
import NetProbe.FlowConnections
import NetProbe.Descent
import NetProbe.ClientHello
import NetProbe.DnsMessages
import NetProbe.DnsLimits
import NetProbe.ReverseNames
import NetProbe.QuicReassembly
import NetProbe.QuicFrames
import NetProbe.QuicProtection
import NetProbe.ParserSafety
import NetProbe.Tunnels
import NetProbe.Carriers
import NetProbe.Encapsulations
import NetProbe.Nesting
import NetProbe.QuicBuffers
import NetProbe.QuicRuns
import NetProbe.QuicStates
import NetProbe.Lifetimes
import NetProbe.TlsRuns
import NetProbe.TlsStreams
import NetProbe.TlsStates
import NetProbe.HelloReaders
import NetProbe.JsonStrings
import NetProbe.JsonValues
import NetProbe.SessionExport
import NetProbe.SessionRuns
import NetProbe.ServiceLabels
import NetProbe.ServiceNames
import NetProbe.HttpHost
import NetProbe.Hostnames
import NetProbe.AnswerOrder
import NetProbe.NameSources
import NetProbe.HostnameSources
import NetProbe.SnapLength
import NetProbe.Fragments
import NetProbe.Visits
import NetProbe.Relocation
import NetProbe.Prefixes
import NetProbe.Reversal
import NetProbe.Directions
import NetProbe.ProcessResolver
import NetProbe.Recency
import NetProbe.GeoIPResolver
import NetProbe.Comparators
import NetProbe.FlowsView
import NetProbe.PacketQueue
import NetProbe.LiveCapture
import NetProbe.LiveRuns
import NetProbe.Serial
import NetProbe.Csv
import NetProbe.FlowExporter
import NetProbe.JsonExport
import NetProbe.CommandRuns
import NetProbe.ViewRows
import NetProbe.ViewFlows
import NetProbe.DesktopReplay
import NetProbe.ProcNet

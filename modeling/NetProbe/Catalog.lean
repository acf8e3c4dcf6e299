/-
# Service labels

The tables that turn a name or a port into a service label: the catalog of
`ProtocolParser::identifyService`, the port tables of `classifyTcpPort` and
`classifyUdpPort`, and the names of IP protocols and EtherTypes.
-/
import NetProbe.Packet

namespace NetProbe

/-- `std::string::find(needle) != npos`. -/
def contains (needle hay : List Char) : Bool := hay.tails.any needle.isPrefixOf

/-- Lower-case copy for case-insensitive substring matches. -/
def toLowerCopy (s : String) : String := String.ofList (s.toList.map Char.toLower)

/-- The catalog of `identifyService`: needle and label, the first match wins. -/
def catalog : List (String × String) := [
  ("mozilla.cloudflare-dns.com", "DNS-over-HTTPS"),
  ("cloudflare-dns.com", "DNS-over-HTTPS"),
  ("one.one.one.one", "DNS-over-HTTPS"),
  ("dns.google", "DNS-over-HTTPS"),
  ("dns.quad9.net", "DNS-over-HTTPS"),
  ("doh.opendns.com", "DNS-over-HTTPS"),
  ("dns.nextdns.io", "DNS-over-HTTPS"),
  ("doh.cleanbrowsing.org", "DNS-over-HTTPS"),
  ("dns.adguard", "DNS-over-HTTPS"),
  ("doh.dns.sb", "DNS-over-HTTPS"),
  ("youtube", "YouTube"),
  ("googlevideo", "YouTube"),
  ("ytimg", "YouTube"),
  ("gstatic", "Google"),
  ("googleusercontent", "Google"),
  ("googleapis", "Google"),
  ("google.", "Google"),
  ("doubleclick", "Google Ads"),
  ("netflix", "Netflix"),
  ("nflxvideo", "Netflix"),
  ("twitch", "Twitch"),
  ("ttvnw", "Twitch"),
  ("spotify", "Spotify"),
  ("scdn.co", "Spotify"),
  ("hulu", "Hulu"),
  ("disney", "Disney+"),
  ("primevideo", "Prime Video"),
  ("discord", "Discord"),
  ("discordapp", "Discord"),
  ("slack.com", "Slack"),
  ("slack-edge", "Slack"),
  ("telegram", "Telegram"),
  ("whatsapp", "WhatsApp"),
  ("facebook", "Facebook"),
  ("fbcdn", "Facebook"),
  ("instagram", "Instagram"),
  ("cdninstagram", "Instagram"),
  ("twitter", "X (Twitter)"),
  ("twimg", "X (Twitter)"),
  ("x.com", "X (Twitter)"),
  ("tiktok", "TikTok"),
  ("tiktokcdn", "TikTok"),
  ("reddit", "Reddit"),
  ("redditstatic", "Reddit"),
  ("linkedin", "LinkedIn"),
  ("signal.org", "Signal"),
  ("github", "GitHub"),
  ("githubusercontent", "GitHub"),
  ("gitlab", "GitLab"),
  ("bitbucket", "Bitbucket"),
  ("npmjs", "npm"),
  ("jsdelivr", "jsDelivr"),
  ("cloudflare", "Cloudflare"),
  ("akamai", "Akamai"),
  ("fastly", "Fastly"),
  ("amazonaws", "AWS"),
  ("awsstatic", "AWS"),
  ("azureedge", "Azure"),
  ("windows.net", "Azure"),
  ("azure.com", "Azure"),
  ("digitalocean", "DigitalOcean"),
  ("vercel", "Vercel"),
  ("netlify", "Netlify"),
  ("anthropic", "Anthropic"),
  ("openai", "OpenAI"),
  ("microsoft", "Microsoft"),
  ("msftncsi", "Microsoft"),
  ("office.com", "Microsoft 365"),
  ("office365", "Microsoft 365"),
  ("outlook", "Outlook"),
  ("live.com", "Microsoft"),
  ("bing.com", "Bing"),
  ("xboxlive", "Xbox Live"),
  ("xbox.com", "Xbox Live"),
  ("skype", "Skype"),
  ("teams.microsoft", "Microsoft Teams"),
  ("apple.com", "Apple"),
  ("icloud", "iCloud"),
  ("itunes.apple", "iTunes"),
  ("mzstatic", "Apple"),
  ("steampowered", "Steam"),
  ("steamstatic", "Steam"),
  ("steamcommunity", "Steam"),
  ("epicgames", "Epic Games"),
  ("riotgames", "Riot Games"),
  ("battle.net", "Battle.net"),
  ("playstation", "PlayStation"),
  ("nintendo", "Nintendo"),
  ("amazon", "Amazon"),
  ("ebay", "eBay"),
  ("shopify", "Shopify"),
  ("zoom.us", "Zoom"),
  ("zoomgov", "Zoom"),
  ("webex", "Webex"),
  ("meet.google", "Google Meet"),
  ("wikipedia", "Wikipedia"),
  ("wikimedia", "Wikipedia"),
  ("mozilla", "Mozilla"),
  ("firefox", "Firefox"),
  ("duckduckgo", "DuckDuckGo"),
  ("protonmail", "Proton"),
  ("proton.me", "Proton")]

/-- The service a host name belongs to, empty when no needle occurs in it. -/
def identifyService (hostname : String) : String :=
  let lower := toLowerCopy hostname
  match catalog.find? fun pat => contains pat.1.toList lower.toList with
  | some pat => pat.2
  | none => ""

/-- The `switch` of `classifyTcpPort`. -/
def tcpPortService : ℕ → Option String
  | 21 => some "FTP"
  | 22 => some "SSH"
  | 23 => some "Telnet"
  | 25 => some "SMTP"
  | 53 => some "DNS (TCP)"
  | 80 => some "HTTP"
  | 110 => some "POP3"
  | 143 => some "IMAP"
  | 179 => some "BGP"
  | 389 => some "LDAP"
  | 443 => some "HTTPS"
  | 445 => some "SMB"
  | 465 | 587 => some "SMTP+TLS"
  | 514 => some "Syslog"
  | 636 => some "LDAPS"
  | 853 => some "DNS-over-TLS"
  | 993 => some "IMAP+TLS"
  | 995 => some "POP3+TLS"
  | 1433 => some "MSSQL"
  | 1883 => some "MQTT"
  | 3306 => some "MySQL"
  | 3389 => some "RDP"
  | 5060 | 5061 => some "SIP"
  | 5222 => some "XMPP"
  | 5432 => some "PostgreSQL"
  | 5900 => some "VNC"
  | 6379 => some "Redis"
  | 6443 => some "Kubernetes API"
  | 6667 => some "IRC"
  | 8000 | 8080 | 8888 => some "HTTP (alt)"
  | 8443 => some "HTTPS (alt)"
  | 9092 => some "Kafka"
  | 9200 => some "Elasticsearch"
  | 9418 => some "Git"
  | 25565 => some "Minecraft"
  | 27017 => some "MongoDB"
  | _ => none

/-- The `switch` of `classifyUdpPort`. -/
def udpPortService : ℕ → Option String
  | 53 => some "DNS"
  | 67 | 68 => some "DHCP"
  | 69 => some "TFTP"
  | 123 => some "NTP"
  | 137 | 138 | 139 => some "NetBIOS"
  | 161 | 162 => some "SNMP"
  | 443 => some "QUIC"
  | 500 | 4500 => some "IPsec"
  | 514 => some "Syslog"
  | 546 | 547 => some "DHCPv6"
  | 784 | 8853 => some "DNS-over-QUIC"
  | 853 => some "DNS-over-QUIC"
  | 1194 => some "OpenVPN"
  | 1900 => some "SSDP"
  | 3478 | 3479 | 5349 => some "STUN/TURN"
  | 4789 => some "VXLAN"
  | 5353 => some "mDNS"
  | 5355 => some "LLMNR"
  | 6081 => some "GENEVE"
  | 51820 => some "WireGuard"
  | _ => none

/-- A packet without a label takes the one of `port`. -/
def classifyPort (table : ℕ → Option String) (port : ℕ) (p : ParsedPacket) : ParsedPacket :=
  if p.service ≠ "" then p
  else match table port with
    | some label => { p with service := label }
    | none => p

def classifyTcpPort (port : ℕ) (p : ParsedPacket) : ParsedPacket := classifyPort tcpPortService port p

def classifyUdpPort (port : ℕ) (p : ParsedPacket) : ParsedPacket := classifyPort udpPortService port p

/-- The label of an IP protocol the decoder does not look into. -/
def ipProtocolName : ℕ → Option String
  | 2 => some "IGMP"
  | 33 => some "DCCP"
  | 50 => some "ESP"
  | 51 => some "AH"
  | 89 => some "OSPF"
  | 103 => some "PIM"
  | 112 => some "VRRP"
  | 132 => some "SCTP"
  | _ => none

/-- The name of an EtherType that never carries IP. -/
def etherTypeName : ℕ → Option String
  | 0x88CC => some "LLDP"
  | 0x888E => some "EAPOL"
  | 0x8863 => some "PPPoE Discovery"
  | 0x8100 | 0x88A8 | 0x9100 => some "VLAN"
  | 0x8137 => some "IPX"
  | 0x88F7 => some "PTP"
  | 0x22EA => some "SRP"
  | 0x8035 => some "RARP"
  | 0x9000 => some "Ethernet Loopback"
  | 0x88A4 => some "EtherCAT"
  | 0x8892 => some "PROFINET"
  | _ => none

end NetProbe

import Up2date.Cxx.Strings
import Up2date.Cxx.Multimap
import Up2date.Cxx.Effects
import Up2date.Cxx.Interactions
import Up2date.Cxx.Logs
import Up2date.Cxx.Runs
import Up2date.Cxx.InStreams
import Up2date.Modules.UriParse
import Up2date.Modules.HttpClient
import Up2date.Json.Value
import Up2date.Json.Text
import Up2date.Ddi.Exceptions
import Up2date.Ddi.Actions
import Up2date.Ddi.PayloadShape
import Up2date.Ddi.RoundTrip
import Up2date.Ddi.Client
import Up2date.Ddi.Credentials
import Up2date.Ddi.World
import Up2date.Ddi.Requests
import Up2date.Ddi.Downloads
import Up2date.Ddi.Poll
import Up2date.Ddi.Attempts
import Up2date.Ddi.Rules
import Up2date.Ddi.Run
import Up2date.Ddi.Stopping
import Up2date.Ddi.Sleeping
import Up2date.Ddi.Endpoint
import Up2date.Cxx.Machines
import Up2date.Ddi.Protocol
import Up2date.Ddi.Conversation
import Up2date.Ddi.Dialogue
import Up2date.Ddi.Delivery
import Up2date.Ddi.Feedback
import Up2date.Cxx.Scanning
import Up2date.Modules.UriGrammar
import Up2date.Modules.UriLaws
import Up2date.Ddi.Addresses
import Up2date.Ddi.Links
import Up2date.Ddi.SleepTime
import Up2date.Modules.WinHttp
import Up2date.Cxx.Coupling
import Up2date.Ddi.Fetching
import Up2date.Modules.WinHosts
import Up2date.Ddi.DownloadPaths
import Up2date.Ddi.FileDownloads
import Up2date.Ddi.Retrying
import Up2date.Ddi.IgnoreSleep
import Up2date.Ddi.StartUp
import Up2date.Ddi.FeedbackPaths
import Up2date.Dps.Classification
import Up2date.Cxx.Contracts
import Up2date.Modules.WinReading
import Up2date.Cxx.Ownership
import Up2date.Cxx.Searching
import Up2date.Modules.WinMtls
import Up2date.Modules.WinSteps
import Up2date.Modules.WinStore
import Up2date.Modules.WinChain
import Up2date.Modules.WinOwnership
import Up2date.Modules.UriAuthority
import Up2date.Modules.UnixClient
import Up2date.Ddi.UnixClients
import Up2date.Httplib.Lines
import Up2date.Httplib.Headers
import Up2date.Httplib.Content
import Up2date.Httplib.Arrivals
import Up2date.Httplib.Chunked
import Up2date.Httplib.Responses
import Up2date.Httplib.Heads
import Up2date.Httplib.Framing
import Up2date.Httplib.Wires
import Up2date.Httplib.Requests
import Up2date.Httplib.Exchanges
import Up2date.Httplib.HostNames
import Up2date.Cxx.Indeterminate
import Up2date.Httplib.Certificates
import Up2date.Ddi.UnixDownloads
import Up2date.Ddi.Sessions
import Up2date.Ddi.RunParts
import Up2date.Ddi.RunRules
import Up2date.Ddi.RunSettings
import Up2date.Ddi.Documents
import Up2date.Ddi.OverBytes
import Up2date.Ddi.TlsServers
import Up2date.Ddi.Builders
import Up2date.Example.BasicHandler
import Up2date.Example.Installations
import Up2date.Example.Reloading
import Up2date.Example.SecureClient

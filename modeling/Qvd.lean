import Qvd.ForwarderDelivery
import Qvd.RoleGraph
import Qvd.VmRuntimeRow
import Qvd.SessionTakeover
import Qvd.SessionExclusion
import Qvd.NodeFence
import Qvd.PlacementClients
import Qvd.VmPlacement
import Qvd.StartDispatch
import Qvd.LxcRelease
import Qvd.RestFilter
import Qvd.RestTables
import Qvd.RestModel
import Qvd.Checks
import Qvd.RequestChecks
import Qvd.RequestBuild
import Qvd.FilterPaths
import Qvd.ElementAcls
import Qvd.FilterContext
import Qvd.RequestedFilters
import Qvd.FilterRewrite
import Qvd.RawKeys
import Qvd.FilterSanitation
import Qvd.AbortProtocol
import Qvd.L7rAuthenticator
import Qvd.L7rRequests
import Qvd.TokenLifecycle
import Qvd.TokenScope
import Qvd.AclViews
import Qvd.RoleAcls
import Qvd.DiskImages
import Qvd.TagRows
import Qvd.TagLookups
import Qvd.TagUniqueness
import Qvd.HeavySemaphore
import Qvd.AgendaChart
import Qvd.ParseTrees
import Qvd.TreeGrower
import Qvd.ChartCompleteness
import Qvd.PortalWorkspaces
import Qvd.LineText
import Qvd.HttpHeads
import Qvd.UriText
import Qvd.HttpResponses
import Qvd.HttpdRequests
import Qvd.RpcParameters
import Qvd.RowWriters
import Qvd.AgentActions
import Qvd.AgentReports
import Qvd.Interpolation
import Qvd.ConfigResolvers
import Qvd.DelimitedText
import Qvd.DumpMarks
import Qvd.DatabaseDump
import Qvd.DumpRoundTrip
import Qvd.ForwarderPasses
import Qvd.SslRetries
import Qvd.ForwarderProgress
import Qvd.HttpcReads
import Qvd.VmaMonitoring
import Qvd.AgentRpcs
import Qvd.VhciHubs
import Qvd.CpuSets
import Qvd.EscapedFields
import Qvd.Mountinfo
import Qvd.BreadthFirst
import Qvd.LxcUnmount
import Qvd.HandlerTimers
import Qvd.LxcKiller
import Qvd.TcpPorts
import Qvd.ConnectRefusals
import Qvd.AuthenticatorCalls
import Qvd.LdapValues
import Qvd.LdapPlugin
import Qvd.LoginNames
import Qvd.ObjectDeletion
import Qvd.SlaveServer
import Qvd.CertExceptions
import Qvd.KeyedRows
import Qvd.DumpUpgrade
import Qvd.AdminTokenizer
import Qvd.PrefixMasks
import Qvd.NetworkRanges
import Qvd.FreeAddresses
import Qvd.FixedDigits
import Qvd.Hotp
import Qvd.TotpPlugin
import Qvd.PerlNumbers
import Qvd.PortalParameters
import Qvd.Statements
import Qvd.PortalSettings
import Qvd.LikePatterns
import Qvd.Verdicts
import Qvd.FilterGrep
import Qvd.PropertyTables
import Qvd.RequestUpdate
import Qvd.Occurrences
import Qvd.FilterNodes
import Qvd.FilterPlaces
import Qvd.FilterListing
import Qvd.FilterWalks
import Qvd.PathTree
import Qvd.ConfigTree
import Qvd.PropertyMigration
import Qvd.HkdTable
import Qvd.HkdShutdown
import Qvd.BaseImages
import Qvd.AdminGrammar
import Qvd.AdminMeanings
import Qvd.SpanTables
import Qvd.QuotedWords
import Qvd.QuotedCommands
import Qvd.QuotedValues
import Qvd.ResponseReads
import Qvd.ConnectAnswers
import Qvd.KvmRelease
import Qvd.LoadBalancer
import Qvd.GreedyCaptures
import Qvd.StableSort
import Qvd.RequestRouting
import Qvd.OwnedItems
import Qvd.Firewall
import Qvd.NamedChains
import Qvd.BridgeFilter

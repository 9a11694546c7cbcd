import Helmoci.AcceptedArchives
import Helmoci.AcceptedRanges
import Helmoci.AliasOrder
import Helmoci.AliasRequests
import Helmoci.ArchiveMeaning
import Helmoci.BearerChallenges
import Helmoci.BlobStorage
import Helmoci.CallBudgets
import Helmoci.CallRecords
import Helmoci.ChargedMembers
import Helmoci.ChartBuild
import Helmoci.ChartFrames
import Helmoci.ChartIndex
import Helmoci.ClassicHandler
import Helmoci.ClassicUpstream
import Helmoci.ConfigExpansion
import Helmoci.Configuration
import Helmoci.ContentAddresses
import Helmoci.DependencyRewriting
import Helmoci.DroppedEntries
import Helmoci.EffectPrograms
import Helmoci.ExpansionBudget
import Helmoci.FormEncoding
import Helmoci.HandlerCalls
import Helmoci.HandlerFetches
import Helmoci.HeadRequests
import Helmoci.HostPaths
import Helmoci.InterleavedPrograms
import Helmoci.JsonDocuments
import Helmoci.JsonNumbers
import Helmoci.JsonText
import Helmoci.JsonValues
import Helmoci.LinkFields
import Helmoci.LinkPositions
import Helmoci.ListedTags
import Helmoci.ManifestCourses
import Helmoci.ManifestMediaTypes
import Helmoci.MediaTypeGrammar
import Helmoci.NameGrammar
import Helmoci.NameResolver
import Helmoci.NextPages
import Helmoci.OciDigest
import Helmoci.OciPaths
import Helmoci.PackedNames
import Helmoci.PassthroughHandler
import Helmoci.PaxEncoding
import Helmoci.PaxRecords
import Helmoci.PercentEscapes
import Helmoci.PlainCrates
import Helmoci.PlainUrls
import Helmoci.ProxiedBlobs
import Helmoci.ProxyHostGrammar
import Helmoci.ProxyHosts
import Helmoci.PublicAddresses
import Helmoci.PullAuth
import Helmoci.QuotedText
import Helmoci.ReadBack
import Helmoci.RegistryResponses
import Helmoci.RegistryTokens
import Helmoci.RelativeRedirects
import Helmoci.RelayedTags
import Helmoci.ReliableReads
import Helmoci.RepeatedManifests
import Helmoci.RewrittenCharts
import Helmoci.RootCharts
import Helmoci.Router
import Helmoci.Routes
import Helmoci.RustText
import Helmoci.SegmentedText
import Helmoci.ServedContent
import Helmoci.ServerErrors
import Helmoci.ServerOperations
import Helmoci.ServerState
import Helmoci.ShellExpansion
import Helmoci.Slices
import Helmoci.SortedMembers
import Helmoci.StorageHistories
import Helmoci.StorageKeys
import Helmoci.StorageOutages
import Helmoci.StoreWorlds
import Helmoci.StoredEntries
import Helmoci.StoredPointers
import Helmoci.TagPages
import Helmoci.TagProvenance
import Helmoci.TarPacking
import Helmoci.TarUnpacking
import Helmoci.TokenOrigins
import Helmoci.TwoReaders
import Helmoci.UpstreamPaths
import Helmoci.UpstreamRequests
import Helmoci.UrlInterface
import Helmoci.Utf8
import Helmoci.VerifiedStreams
import Helmoci.WriteOnce

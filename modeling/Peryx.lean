import Peryx.Oci.TokenScope
import Peryx.Oci.DigestIsolation
import Peryx.Oci.PushMembership
import Peryx.Oci.DanglingTags
import Peryx.Storage.QuotaSettling
import Peryx.Replication.Convergence
import Peryx.Replication.HostilePages
import Peryx.Pypi.Name
import Peryx.Library.WildcardPrefix
import Peryx.Identity.TrustedPublisher
import Peryx.Pypi.Mutations
import Peryx.Pypi.MutationAccess
import Peryx.Pypi.TrustedWrites
import Peryx.Core.Chars
import Peryx.Library.Regex
import Peryx.Search.Access
import Peryx.Pypi.Filename
import Peryx.Pypi.Policy
import Peryx.Library.CallTree
import Peryx.Pypi.Resolve
import Peryx.Index.Build
import Peryx.Pypi.Nesting
import Peryx.Pypi.Download
import Peryx.Pypi.DownloadPolicy
import Peryx.Core.Utf8
import Peryx.Pypi.Store
import Peryx.Pypi.Ingest
import Peryx.Pypi.Siblings
import Peryx.Pypi.SiblingRows
import Peryx.Pypi.SiblingIntegrity
import Peryx.Jobs.Scheduler
import Peryx.Jobs.Bounds
import Peryx.Library.FileTree
import Peryx.Operator.Manifest
import Peryx.Operator.Backup
import Peryx.Operator.Verify
import Peryx.Operator.Restored
import Peryx.Operator.BlobIndex
import Peryx.Operator.Created
import Peryx.Operator.BackupIntegrity
import Peryx.Storage.Transaction
import Peryx.Pypi.HostedMutations
import Peryx.Pypi.HostedChanges
import Peryx.Pypi.HostedJournal
import Peryx.Library.TextCodec
import Peryx.Pypi.UploadText
import Peryx.Pypi.HostedDetail
import Peryx.Pypi.HostedServed
import Peryx.Library.Confined
import Peryx.Storage.StoreCalls
import Peryx.Pypi.Generations
import Peryx.Pypi.PageRows
import Peryx.Pypi.PageText
import Peryx.Pypi.KeyIsolation
import Peryx.Storage.BlobFiles
import Peryx.Storage.BlobWrites
import Peryx.Pypi.Downloads
import Peryx.Pypi.DownloadStreams
import Peryx.Storage.LoneCalls
import Peryx.Pypi.SyncPublication
import Peryx.Pypi.SyncRuns
import Peryx.Core.IpAddr
import Peryx.Driver.ClientAddress
import Peryx.Core.Numeral
import Peryx.Storage.Webhooks
import Peryx.Identity.User
import Peryx.Storage.Users
import Peryx.Storage.UserHistory
import Peryx.Storage.DecisionHistory
import Peryx.Oci.BlobMemberships
import Peryx.Oci.MembershipCoherence
import Peryx.Oci.UploadSessions
import Peryx.Oci.UploadLaws
import Peryx.Oci.BlockedUploads
import Peryx.Library.Cursor
import Peryx.Library.Xml
import Peryx.Pypi.Changelog
import Peryx.Pypi.ChangelogPages
import Peryx.Library.Outcome
import Peryx.Pypi.Admin
import Peryx.Oci.References
import Peryx.Pypi.AdminReads
import Peryx.Pypi.Purges
import Peryx.Operator.Collection
import Peryx.Pypi.Audits
import Peryx.Pypi.Writes
import Peryx.Pypi.AuditedRows
import Peryx.Pypi.AuditedWrites
import Peryx.Oci.Names
import Peryx.Oci.RoutePaths
import Peryx.Core.Query
import Peryx.Oci.Pagination
import Peryx.Oci.TagServing
import Peryx.Oci.TagShadowing
import Peryx.Oci.ServedDigests
import Peryx.Oci.Negotiation
import Peryx.Oci.RestoredUploads
import Peryx.Storage.DecisionPages
import Peryx.Storage.QuotaAdmission
import Peryx.Oci.ManifestDeletes
import Peryx.Identity.Exchange
import Peryx.Index.Flights
import Peryx.Index.SingleFlight
import Peryx.Core.Scalars
import Peryx.Identity.GlobLanguage
import Peryx.Index.RouteResolver
import Peryx.Oci.RouteAgreement
import Peryx.Oci.ContentAddressing
import Peryx.Core.Lossy
import Peryx.Library.Framed
import Peryx.Oci.StoredRecords
import Peryx.Core.JsonWriter
import Peryx.Identity.KeyCache
import Peryx.Core.JsonReader
import Peryx.Core.Serde
import Peryx.Replication.Envelope
import Peryx.Core.Base64
import Peryx.Replication.EnvelopeCodec
import Peryx.Pypi.ResolveDependence
import Peryx.Pypi.Restores
import Peryx.Pypi.RestoredViews
import Peryx.Library.Merging
import Peryx.Pypi.StagingOrder
import Peryx.Pypi.FileRecords
import Peryx.Core.Replace
import Peryx.Library.Html
import Peryx.Pypi.RenderedPages
import Peryx.Pypi.PageJson
import Peryx.Pypi.HtmlPages
import Peryx.Driver.ByteRanges
import Peryx.Pypi.PageRecords
import Peryx.Core.Percent
import Peryx.Pypi.FileUrls
import Peryx.Pypi.NameForms
import Peryx.Pypi.DetailStreams
import Peryx.Upstream.ArtifactMirror
import Peryx.Events.Metrics
import Peryx.Events.UsageTotals
import Peryx.Events.UsageSnapshots
import Peryx.Core.Utf8Errors
import Peryx.Storage.ArchiveMembers
import Peryx.Storage.MemberPaging
import Peryx.Search.TextQuery
import Peryx.Library.ZipFormat
import Peryx.Pypi.CentralDir
import Peryx.Upstream.RangeFetch
import Peryx.Pypi.RangedMetadata
import Peryx.Pypi.RangedAgreement
import Peryx.Library.Terminated
import Peryx.Oci.KeyScopes
import Peryx.Pypi.CanonicalPages
import Peryx.Library.Queries
import Peryx.Storage.Looks
import Peryx.Pypi.Readers
import Peryx.Core.JsonPlaces
import Peryx.Pypi.PageTransformer
import Peryx.Pypi.StreamOutcomes

import ConversionGateway.Library.Outcome
import ConversionGateway.Library.Judgement
import ConversionGateway.Library.Metered
import ConversionGateway.Library.Machine
import ConversionGateway.Library.KeyedTable
import ConversionGateway.Library.Text
import ConversionGateway.Library.Words
import ConversionGateway.Library.Unicode
import ConversionGateway.Library.Pattern
import ConversionGateway.Library.Like
import ConversionGateway.Library.Ranking
import ConversionGateway.Library.Regex
import ConversionGateway.Library.Calendar
import ConversionGateway.Library.Delivery
import ConversionGateway.Library.Lockstep
import ConversionGateway.Library.Custody
import ConversionGateway.Model.Status
import ConversionGateway.Model.Consent
import ConversionGateway.Model.Runtime
import ConversionGateway.Model.Identifiers
import ConversionGateway.Model.Tables
import ConversionGateway.Model.LedgerOperations
import ConversionGateway.Model.DeadLetters
import ConversionGateway.Model.DeadLetterCommands
import ConversionGateway.Model.Processor
import ConversionGateway.Model.Conversion
import ConversionGateway.Model.MockAds
import ConversionGateway.Model.Uploader
import ConversionGateway.Model.Schemas
import ConversionGateway.Model.Ingest
import ConversionGateway.Model.PlatformContract
import ConversionGateway.Model.BatchResponse
import ConversionGateway.Model.ErrorDetails
import ConversionGateway.Model.UploadClient
import ConversionGateway.Model.MemoryQueue
import ConversionGateway.Model.Logging
import ConversionGateway.Model.Redaction
import ConversionGateway.Concurrency.Session
import ConversionGateway.Concurrency.Transaction
import ConversionGateway.Model.Metrics
import ConversionGateway.Lifecycle.Batching
import ConversionGateway.Lifecycle.Operations
import ConversionGateway.Lifecycle.Stamps
import ConversionGateway.Lifecycle.Edits
import ConversionGateway.Lifecycle.SerialRuns
import ConversionGateway.Lifecycle.Trail
import ConversionGateway.Lifecycle.DeadLetterHistory
import ConversionGateway.Lifecycle.DeadLetterCounts
import ConversionGateway.Lifecycle.TimeOrder
import ConversionGateway.Lifecycle.Uploadable
import ConversionGateway.Lifecycle.IngestOutcome
import ConversionGateway.Lifecycle.SourceEventId
import ConversionGateway.Lifecycle.Deliveries
import ConversionGateway.Concurrency.Effects
import ConversionGateway.Lifecycle.ClaimSelection
import ConversionGateway.Concurrency.Commits
import ConversionGateway.Concurrency.Filing
import ConversionGateway.Concurrency.ClosedRecords
import ConversionGateway.System.Processes
import ConversionGateway.System.Recovery
import ConversionGateway.System.UploadBatch
import ConversionGateway.System.Step
import ConversionGateway.System.Links
import ConversionGateway.System.DeadLetterMetric
import ConversionGateway.System.CommittedRows
import ConversionGateway.System.Batches
import ConversionGateway.System.ConsentInvariant
import ConversionGateway.System.Transitions
import ConversionGateway.System.ClaimExclusion
import ConversionGateway.System.Ownership
import ConversionGateway.System.AuditOrder
import ConversionGateway.System.RowOutcomes
import ConversionGateway.System.BatchOutcomes
import ConversionGateway.System.OneUploader
import ConversionGateway.System.Attempts
import ConversionGateway.System.PoisonRecords
import ConversionGateway.System.Resends
import ConversionGateway.Lifecycle.FieldClasses
import ConversionGateway.Lifecycle.RawText
import ConversionGateway.System.Noninterference
import ConversionGateway.System.QueuedMessages
import ConversionGateway.System.Replays
import ConversionGateway.System.BulkReplay
import ConversionGateway.System.FirstWrite
import ConversionGateway.Lifecycle.QueueEntries
import ConversionGateway.System.StuckEvents
import ConversionGateway.System.Reconcile
import ConversionGateway.Library.Rounding
import ConversionGateway.Library.Binary64
import ConversionGateway.Model.Signature
import ConversionGateway.Lifecycle.IdentifierFields
import ConversionGateway.Lifecycle.CanonicalEmail
import ConversionGateway.Lifecycle.CountryCodes
import ConversionGateway.Lifecycle.CanonicalNames
import ConversionGateway.Lifecycle.OperatorFields
import ConversionGateway.Lifecycle.MatchKeys
import ConversionGateway.Lifecycle.QueueHistory
import ConversionGateway.Lifecycle.IntakeCounters
import ConversionGateway.System.Answers
import ConversionGateway.Lifecycle.Authentication
import ConversionGateway.System.Unmatched
import ConversionGateway.System.OpenRecords
import ConversionGateway.System.DepthGauge
import ConversionGateway.System.Serializable
import ConversionGateway.Model.MockServer
import ConversionGateway.Lifecycle.MockRuns
import ConversionGateway.System.Platform
import ConversionGateway.System.Outages
import ConversionGateway.System.Correlation
import ConversionGateway.Model.Routes
import ConversionGateway.System.Api
import ConversionGateway.System.Drain
import ConversionGateway.System.Translation
import ConversionGateway.Library.RoundRobin
import ConversionGateway.Lifecycle.WorkerLoop
import ConversionGateway.Lifecycle.TrailTallies
import ConversionGateway.System.OutcomeCounters

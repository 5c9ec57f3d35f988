import NextRole.Lib.Json
import NextRole.Python
import NextRole.Lib.Table
import NextRole.Lib.Transition
import NextRole.Lib.ReadCommitted
import NextRole.Lib.Isolation
import NextRole.Lib.Rank
import NextRole.Schema
import NextRole.Filters
import NextRole.Sql
import NextRole.Servicers.Runs
import NextRole.Servicers.Threads
import NextRole.Servicers.Assistants
import NextRole.Servicers.Crons
import NextRole.Rpc
import NextRole.Effects
import NextRole.Serial
import NextRole.RunThreads
import NextRole.ThreadCopy
import NextRole.Servicers.Checkpointer
import NextRole.Agents.Auth
import NextRole.Api.Runs
import NextRole.Api.Threads
import NextRole.Api.Worker
import NextRole.Api.Server
import NextRole.Api.CronScheduler
import NextRole.MutualExclusion
import NextRole.CronOccurrence
import NextRole.CancelIsolation
import NextRole.RejectStrategy
import NextRole.InterruptStrategy
import NextRole.BusySafe
import NextRole.StuckBusy
import NextRole.ThreadMirror
import NextRole.StatelessRuns
import NextRole.UnownedThread
import NextRole.Lib.Log
import NextRole.Servicers.Streams
import NextRole.StreamBounds
import NextRole.StreamSeam
import NextRole.StreamResume
import NextRole.StreamIsolation
import NextRole.Agents.Usage
import NextRole.Agents.QuotaGate
import NextRole.RunQuota
import NextRole.ConcurrencyQuota
import NextRole.ChargedRuns
import NextRole.Lib.Expiry
import NextRole.Lib.Recorded
import NextRole.Runtime.Checkpoint
import NextRole.Api.Attempts
import NextRole.RetryBound
import NextRole.RollbackRestores
import NextRole.ExclusiveClaims
import NextRole.Servicers.Control
import NextRole.CancelDelivery
import NextRole.Api.AuthFilters
import NextRole.FilterCompilation
import NextRole.CreateIfMissing
import NextRole.Api.EventStreaming
import NextRole.RunStart
import NextRole.NewestRun
import NextRole.Ownership
import NextRole.PruneLatest
import NextRole.Runtime.Ingestion
import NextRole.DeleteForRuns
import NextRole.CopiedReads
import NextRole.AssistantVersions
import NextRole.ReferentialIntegrity
import NextRole.Api.Crons
import NextRole.CronDates
import NextRole.CronFrame
import NextRole.ExclusiveUpdates
import NextRole.IngestionBatches
import NextRole.Lib.Path
import NextRole.Api.Store
import NextRole.StoreIsolation
import NextRole.Lib.Pages
import NextRole.Servicers.Search
import NextRole.Pagination
import NextRole.Api.ProtocolEvents
import NextRole.Api.EventDelivery
import NextRole.TransportOrder
import NextRole.CursorResume
import NextRole.Lib.Dict
import NextRole.Api.EventSession
import NextRole.Lifecycle
import NextRole.EventIds
import NextRole.Frontend.Token
import NextRole.ClearedToken
import NextRole.Frontend.Approvals
import NextRole.OneResume
import NextRole.VisibleReviews
import NextRole.Api.RunResult
import NextRole.RunOutcome
import NextRole.Lib.Incremental
import NextRole.Analytics.Transforms
import NextRole.Analytics.Extraction
import NextRole.WarehouseMirror
import NextRole.Conversion.Config
import NextRole.ConfigRoundTrip
import NextRole.Api.RunConfig
import NextRole.RunMerge
import NextRole.RunIdentity
import NextRole.StickyForks
import NextRole.Api.CronAuth
import NextRole.CronIdentity
import NextRole.Agents.UsageReport
import NextRole.Agents.UsageMeter
import NextRole.WarehouseMessages
import NextRole.WarehousePrivacy
import NextRole.Lib.Segments
import NextRole.Agents.ObjectStorage
import NextRole.ObjectKeys
import NextRole.Runtime.Migrations
import NextRole.MigrationRecovery
import NextRole.Runtime.RunnerQueue
import NextRole.RunnerTokens
import NextRole.Api.Consume
import NextRole.RunSuccess
import NextRole.Runtime.IngestBatch
import NextRole.DeleteFinal
import NextRole.RecreatedThread
import NextRole.Agents.AnalyticsAccess
import NextRole.WarehouseAccess
import NextRole.Agents.Charts
import NextRole.QuotaReset
import NextRole.ChartRows
import NextRole.ScratchConfinement
import NextRole.Agents.ObjectBackend
import NextRole.ObjectFiles
import NextRole.Lib.Words
import NextRole.Agents.ChartCalls
import NextRole.ChartPaths
import NextRole.Agents.Warehouse
import NextRole.Agents.RunSql
import NextRole.QueryDisclosure
import NextRole.SqlTokens
import NextRole.Lib.Trimming
import NextRole.ReadStatements
import NextRole.DisplayLimit
import NextRole.Lib.Holes
import NextRole.Agents.Shell
import NextRole.PathTranslation
import NextRole.Agents.Approval
import NextRole.ApprovedCommands
import NextRole.Agents.Preferences
import NextRole.SavedPreferences
import NextRole.CronBinding
import NextRole.Conversion.Thread
import NextRole.ThreadRoundTrip
import NextRole.Lib.Upsert
import NextRole.Runtime.PutCheckpoint
import NextRole.ReadBack
import NextRole.Runtime.PutWrites
import NextRole.LastWrite
import NextRole.Lib.Ancestors
import NextRole.Runtime.DeltaPages
import NextRole.DeltaHistory
import NextRole.ApprovalRouting
import NextRole.ConfigTwice
import NextRole.CronPayloads
import NextRole.Lib.ObjectGraph
import NextRole.Agents.Resume
import NextRole.YamlRepair
import NextRole.Lib.Firsts
import NextRole.Frontend.ToolCalls
import NextRole.NestedCalls
import NextRole.Frontend.AgentFiles
import NextRole.StoreListing
import NextRole.NewestFetch
import NextRole.OneSandbox
import NextRole.ModelShaping
import NextRole.CoarseSessions
import NextRole.MigrationSplits
import NextRole.Lib.Gathering
import NextRole.Lib.Identity
import NextRole.Frontend.JavaScript
import NextRole.Frontend.Transcript
import NextRole.SettledCalls
import NextRole.TranscriptCaches
import NextRole.GroupedCalls
import NextRole.Lib.JsonText
import NextRole.Lib.Replacement
import NextRole.PythonText
import NextRole.Frontend.Sources
import NextRole.SourcesReadBack
import NextRole.TableRows

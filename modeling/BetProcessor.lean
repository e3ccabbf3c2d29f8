import BetProcessor.Txn.Program
import BetProcessor.Txn.Concurrent
import BetProcessor.Txn.RelyGuarantee
import BetProcessor.Txn.Serializability
import BetProcessor.Txn.SkipLocked
import BetProcessor.Txn.Issued
import BetProcessor.Txn.Refusals
import BetProcessor.Txn.Follows
import BetProcessor.Sql.Grouping
import BetProcessor.Sql.Partitions
import BetProcessor.Calendar.Gregorian
import BetProcessor.Codec.Hex
import BetProcessor.Codec.Json
import BetProcessor.Service
import BetProcessor.Schema
import BetProcessor.Statements
import BetProcessor.Rows
import BetProcessor.Processor
import BetProcessor.RustProcessor
import BetProcessor.Outcomes
import BetProcessor.Stability
import BetProcessor.Ledger
import BetProcessor.Footprint
import BetProcessor.Serializable
import BetProcessor.ProcessorSpec
import BetProcessor.SerialRuns
import BetProcessor.OwnReversals
import BetProcessor.Reporting
import BetProcessor.NetResult
import BetProcessor.Settlement
import BetProcessor.OrderIndependence
import BetProcessor.Replay
import BetProcessor.ExactlyOnce
import BetProcessor.ConcurrentRuns
import BetProcessor.Balances
import BetProcessor.SingleReversal
import BetProcessor.Tombstones
import BetProcessor.ConcurrentDuplicates
import BetProcessor.RegistryLedger
import BetProcessor.Bookkeeping
import BetProcessor.Acts
import BetProcessor.Perform
import BetProcessor.RollbackMarks
import BetProcessor.AppendOnly
import BetProcessor.EarlyRollbacks
import BetProcessor.Batches
import BetProcessor.TwoServices
import BetProcessor.RtpOutbox
import BetProcessor.RtpSystem
import BetProcessor.RtpRows
import BetProcessor.Rollup
import BetProcessor.RollupRuns
import BetProcessor.CatchUp
import BetProcessor.Entries
import BetProcessor.PlayTotals
import BetProcessor.Constraints
import BetProcessor.CleanRequests
import BetProcessor.Indexes
import BetProcessor.Sql.Upsert
import BetProcessor.Seed
import BetProcessor.Runner
import BetProcessor.SerialStore
import BetProcessor.Drains
import BetProcessor.DrainUntilEmpty
import BetProcessor.Money
import BetProcessor.RustMoney
import BetProcessor.RtpReports
import BetProcessor.CompleteReports
import BetProcessor.Auth
import BetProcessor.Requests
import BetProcessor.Routes
import BetProcessor.ActionForms
import BetProcessor.RequestForms
import BetProcessor.SameRequests
import BetProcessor.MonthPartitions
import BetProcessor.PartitionFirst
import BetProcessor.PartitionedRuns
import BetProcessor.LockWaits
import BetProcessor.Wallets
import BetProcessor.NumberMoney
import BetProcessor.Linearizable
import BetProcessor.Wallet.Delivery
import BetProcessor.Retries
import BetProcessor.LedgerReports
import BetProcessor.RunnerReports
import BetProcessor.Codec.Writer
import BetProcessor.Messages
import BetProcessor.Exchanges
import BetProcessor.Wallet.Funds
import BetProcessor.SeededRuns
import BetProcessor.OutboxBatches
import BetProcessor.Txn.Pool
import BetProcessor.Pools
import BetProcessor.Codec.Query
import BetProcessor.Calendar.Instant
import BetProcessor.ReportQueries

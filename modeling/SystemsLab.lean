import SystemsLab.Framework.Transition
import SystemsLab.Framework.Table
import SystemsLab.Resilience.CircuitBreaker
import SystemsLab.Resilience.BreakerTimeline
import SystemsLab.Locks.Redis
import SystemsLab.Locks.FencingToken
import SystemsLab.Locks.FencingOrder
import SystemsLab.Locks.FencingLease
import SystemsLab.Framework.LeaseTable
import SystemsLab.Outbox.Rows
import SystemsLab.Outbox.Leases
import SystemsLab.Outbox.Publisher
import SystemsLab.Outbox.PublisherSafety
import SystemsLab.Queue.Jobs
import SystemsLab.Queue.JobLeases
import SystemsLab.Queue.JobSafety
import SystemsLab.Capstone.ProtectedWorker
import SystemsLab.Capstone.AttemptBudget
import SystemsLab.Capstone.FailedEvents
import SystemsLab.Capstone.Checkout
import SystemsLab.Capstone.CheckoutSafety
import SystemsLab.Framework.Program
import SystemsLab.Saga.Schema
import SystemsLab.Saga.Steps
import SystemsLab.Saga.Choreography
import SystemsLab.Saga.Orchestrator
import SystemsLab.Saga.Phases
import SystemsLab.Saga.Execution
import SystemsLab.Saga.Equivalence
import SystemsLab.Saga.Ledger
import SystemsLab.Saga.Concurrency
import SystemsLab.Saga.Agreement
import SystemsLab.Resilience.ProbeInvariant
import SystemsLab.Backpressure.BoundedQueue
import SystemsLab.Backpressure.BoundedQueueSafety
import SystemsLab.RateLimit.AdmissionBound
import SystemsLab.RateLimit.Eviction
import SystemsLab.RateLimit.SlidingWindow
import SystemsLab.Queue.JobAttempts
import SystemsLab.Tenancy.Session
import SystemsLab.Tenancy.SessionSafety
import SystemsLab.Tenancy.PrivateDatabase
import SystemsLab.Tenancy.Noninterference
import SystemsLab.Framework.Double
import SystemsLab.Replication.ReplicationLag
import SystemsLab.Framework.WriteAheadLog
import SystemsLab.Replication.LsnGate
import SystemsLab.Replication.LsnGateSafety
import SystemsLab.Framework.Tenure
import SystemsLab.Locks.BasicLock
import SystemsLab.Locks.MutualExclusion
import SystemsLab.Caching.CoalescingSafety
import SystemsLab.Framework.RowVersions
import SystemsLab.Inbox.IdempotentConsumer
import SystemsLab.Inbox.ConsumerSafety
import SystemsLab.Transfers.TransactionalTransfer
import SystemsLab.Transfers.TransferSafety
import SystemsLab.Framework.Entries
import SystemsLab.Transfers.NaiveTransfer
import SystemsLab.Deadlocks.Transfer
import SystemsLab.Deadlocks.LockOrderSafety
import SystemsLab.Deadlocks.RetryOnDeadlock
import SystemsLab.Deadlocks.RetrySafety
import SystemsLab.Deadlocks.RetryProgress
import SystemsLab.Delivery.Sender
import SystemsLab.Delivery.EffectivelyOnce
import SystemsLab.Ticketing.SeatTable
import SystemsLab.Ticketing.Reservations
import SystemsLab.Ticketing.ReservationSafety
import SystemsLab.Idempotency.Payments
import SystemsLab.Idempotency.CachedResult
import SystemsLab.Framework.Serializability
import SystemsLab.OnCall.GoOffCall
import SystemsLab.OnCall.RotaSafety
import SystemsLab.Caching.LeaseRefill
import SystemsLab.Caching.SingleFlight
import SystemsLab.Framework.OrderedSelect
import SystemsLab.Pagination.Keyset
import SystemsLab.Pagination.KeysetSafety
import SystemsLab.Backfill.LoyaltyPoints
import SystemsLab.Backfill.LoyaltyPointsSafety
import SystemsLab.Backfill.DisplayName
import SystemsLab.Backfill.DisplayNameSafety
import SystemsLab.Backfill.DisplayNameProgress
import SystemsLab.Partitioning.Partitions
import SystemsLab.Partitioning.LayoutSafety
import SystemsLab.Framework.Session
import SystemsLab.Replication.Router
import SystemsLab.Replication.RouterSafety
import SystemsLab.Resilience.ChargeSafety
import SystemsLab.Framework.Exposition
import SystemsLab.Framework.InsertionMap
import SystemsLab.Metrics.MetricsRegistry
import SystemsLab.Metrics.RegistrySafety
import SystemsLab.Metrics.RenderSafety
import SystemsLab.Caching.StaleWhileRevalidate
import SystemsLab.Caching.RefreshInFlight
import SystemsLab.Caching.Staleness
import SystemsLab.Framework.Exceptional
import SystemsLab.Observability.Server
import SystemsLab.Observability.RequestAccounting
import SystemsLab.Capstone.CallAccounting
import SystemsLab.Framework.NonnegDouble
import SystemsLab.Resilience.RetryWithBackoff
import SystemsLab.Pagination.PlanBuffers
import SystemsLab.Framework.OffsetSelect
import SystemsLab.Pagination.OffsetPages
import SystemsLab.Resilience.Composed
import SystemsLab.Resilience.ComposedOutage
import SystemsLab.DataGenerators.Commerce
import SystemsLab.DataGenerators.Ticketing
import SystemsLab.Framework.OrderStatistic
import SystemsLab.Observability.Percentiles
import SystemsLab.DataGenerators.UniqueEmail
import SystemsLab.Framework.Issued
import SystemsLab.Framework.HeadOfLine
import SystemsLab.OrderOutbox.Orders
import SystemsLab.OrderOutbox.OrderMoves
import SystemsLab.OrderOutbox.Recording
import SystemsLab.OrderOutbox.Draining
import SystemsLab.OrderOutbox.DrainProgress
import SystemsLab.Framework.Windows
import SystemsLab.Backpressure.SlowDownstream
import SystemsLab.Backpressure.BoundedWait
import SystemsLab.ConditionalWrites.Documents
import SystemsLab.ConditionalWrites.LostUpdate
import SystemsLab.ConditionalWrites.VersionCheck
import SystemsLab.Capstone.Notified
import SystemsLab.Capstone.EndToEnd

import CairnQ.Protocol.ClaimSession
import CairnQ.Keys.Uniqueness
import CairnQ.SqliteStore.Wakeup
import CairnQ.SqliteStore.Isolation
import CairnQ.SqliteStore.Reopening
import CairnQ.SqliteStore.VersionGuard
import CairnQ.SqliteStore.Draining
import CairnQ.PostgresStore.ExecutorOwnership
import CairnQ.PostgresStore.WakeAccount
import CairnQ.PostgresStore.DroppedListener
import CairnQ.Backpressure.QueueDepthGate
import CairnQ.Worker.Fencing
import CairnQ.Worker.Capacity
import CairnQ.Worker.Fairness
import CairnQ.Worker.Settlement
import CairnQ.Client.Waiting
import CairnQ.Client.Retention
import CairnQ.Worker.SharedTransaction
import CairnQ.Protocol.FailureRecord
import CairnQ.Worker.BatchSettlement
import CairnQ.Protocol.Migrations
import CairnQ.Protocol.Ids
import CairnQ.Client.Sweep
import CairnQ.PostgresStore.NotifyTrigger
import CairnQ.Protocol.FilteredStatements
import CairnQ.Protocol.TwinEncoders
import CairnQ.Protocol.StrictPass
import CairnQ.Objects.Heap
import CairnQ.Protocol.StatsRecord
import CairnQ.Worker.DeclaredNames
import CairnQ.Worker.Schedule
import CairnQ.Client.Call
import CairnQ.Protocol.Drainable
import CairnQ.Protocol.Lineage
import CairnQ.Protocol.Composition
import CairnQ.Worker.RunLoop
import CairnQ.Worker.Hosting
import CairnQ.Worker.Heartbeat
import CairnQ.Protocol.Paging
import CairnQ.Keys.ComputedOnce
import CairnQ.Keys.Linearization
import CairnQ.Keys.Rejection
import CairnQ.Keys.Progress
import CairnQ.PostgresStore.Installations
import CairnQ.Client.Timeouts
import CairnQ.Protocol.Documents
import CairnQ.Protocol.WireForms

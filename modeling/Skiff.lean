import Skiff.Bytecode.StackMapSound
import Skiff.Json.Canonical
import Skiff.Task.Fencing
import Skiff.Task.Create
import Skiff.Runtime.PayloadForward
import Skiff.Request.Arbitration
import Skiff.Heap.Stale
import Skiff.Heap.Sessions
import Skiff.Session.DirectoryRuns
import Skiff.Scheduler.StreamRuns
import Skiff.Scheduler.PendingRuns
import Skiff.ServiceDb.LeaseRuns
import Skiff.Router.DispatcherRuns
import Skiff.WebSocket.BrokerRuns
import Skiff.WebSocket.Agreement
import Skiff.WebSocket.Admission
import Skiff.WebSocket.Locks
import Skiff.WebSocket.GatewayOwners
import Skiff.Compiler.Assignable
import Skiff.Recoverable.RoundTrip
import Skiff.Syntax.ParsedTypes
import Skiff.Compiler.Loans
import Skiff.Task.Status
import Skiff.Task.DueScan
import Skiff.Bytecode.Wordcode
import Skiff.Request.TransactionLedger
import Skiff.Scheduler.Trampoline
import Skiff.Actor.ActorSink
import Skiff.Runtime.VmHeap.Snapshots
import Skiff.Actor.Evictions
import Skiff.Actor.SessionClose
import Skiff.Actor.Occupancy
import Skiff.WebSocket.SafeIntegers
import Skiff.WebSocket.Delivery
import Skiff.WebSocket.RuntimeRequests
import Skiff.Compiler.MirLoans
import Skiff.Task.RetryDelay
import Skiff.Router.Deadlines
import Skiff.ServiceDb.CascadeMoves
import Skiff.WebSocket.SlowClients

import Pqueue.Bytes.Intervals
import Pqueue.Doctor.Transfer
import Pqueue.FileSystem.PosixWrite
import Pqueue.Http.RequestEnvelope
import Pqueue.Lock.Recovery
import Pqueue.Outbox.DrainRate
import Pqueue.Outbox.Order
import Pqueue.Outbox.Retry
import Pqueue.Outbox.RetryDelay
import Pqueue.Queue.Checksums
import Pqueue.Queue.DropOldest
import Pqueue.Queue.Fifo
import Pqueue.Queue.Sharing
import Pqueue.Store.Atomicity
import Pqueue.Store.FrontReclaim
import Pqueue.Store.Growth
import Pqueue.Store.Lifetimes
import Pqueue.Store.Logs
import Pqueue.Store.Packing
import Pqueue.Store.Reopening
import Pqueue.Store.SlotProtocol
import Pqueue.Store.Strays
import Pqueue.Store.Termination
import Pqueue.Store.Replaying
import Pqueue.Store.Validation

import Razorback.BlockPool.Identity
import Razorback.BlockPool.Locks
import Razorback.CommandAndControl.ConfigUpdate
import Razorback.CommandAndControl.Registration
import Razorback.Config.Tables
import Razorback.Config.Threads
import Razorback.Contexts.Lifetime
import Razorback.Decode.Ledger
import Razorback.Entities.History
import Razorback.Health.Checks
import Razorback.Inspection.Lifecycle
import Razorback.Inspection.Pause
import Razorback.JsonBuffer.Integers
import Razorback.JsonBuffer.Survival
import Razorback.Lists.Concurrent
import Razorback.Lists.Semaphore
import Razorback.LocalCache.Clear
import Razorback.LocalCache.Concurrent
import Razorback.LocalCache.Limits
import Razorback.LocalCache.Order
import Razorback.LocalCache.Removal
import Razorback.Messages.Cloned
import Razorback.Messages.CommandRoundTrip
import Razorback.Messages.RoundTrip
import Razorback.Ntlv.Buffers
import Razorback.Ntlv.Removal
import Razorback.Queue.Delivery
import Razorback.Queue.Lifetime
import Razorback.Queue.Loops
import Razorback.Queue.Settlement
import Razorback.Records.BlockIds
import Razorback.Submission.Abandon
import Razorback.Submission.Reuse
import Razorback.Threads.Registry
import Razorback.Transfer.Fetch
import Razorback.Transfer.SameBytes
import Razorback.Entities.Notices
import Razorback.Sockets.Loops

import BinderIpc.Lib.Tree
import BinderIpc.Lib.Tiling
import BinderIpc.Alloc.Area
import BinderIpc.Alloc.Headers
import BinderIpc.Alloc.Tiles
import BinderIpc.Lib.Run
import BinderIpc.Lib.Heap
import BinderIpc.Lib.HeapCount
import BinderIpc.Lib.Queues
import BinderIpc.Lib.Words
import BinderIpc.Alloc.Runs
import BinderIpc.Alloc.PageRange
import BinderIpc.Alloc.Pages
import BinderIpc.Alloc.PageMerge
import BinderIpc.Alloc.Residency
import BinderIpc.Alloc.Atomic
import BinderIpc.Alloc.BestFit
import BinderIpc.Alloc.Quota
import BinderIpc.Lib.Calls
import BinderIpc.Lib.CallSteps
import BinderIpc.Driver.State
import BinderIpc.Driver.Objects
import BinderIpc.Driver.Failure
import BinderIpc.Driver.Transaction
import BinderIpc.Driver.Write
import BinderIpc.Driver.Read
import BinderIpc.Driver.Machine
import BinderIpc.Driver.Deferred
import BinderIpc.Driver.Frames
import BinderIpc.Driver.Grows
import BinderIpc.Driver.Threads
import BinderIpc.Svc.Bio
import BinderIpc.Svc.Codec
import BinderIpc.Svc.Manager
import BinderIpc.Svc.Caller
import BinderIpc.Svc.Store
import BinderIpc.Svc.Isolation
import BinderIpc.Svc.Reads
import BinderIpc.Svc.Writes
import BinderIpc.Svc.Listing
import BinderIpc.Svc.Names
import BinderIpc.Svc.NamesInv
import BinderIpc.Svc.Tracking
import BinderIpc.Framework.ProxyMap
import BinderIpc.Native.TalkWithDriver
import BinderIpc.Native.ThreadFrames
import BinderIpc.Native.CallerRuns
import BinderIpc.Native.ReplyBuffers
import BinderIpc.Native.BinderParse
import BinderIpc.Native.PendingDerefs
import BinderIpc.Native.Proxies
import BinderIpc.Wire.Commands
import BinderIpc.Wire.Write
import BinderIpc.Wire.Returns
import BinderIpc.Wire.ReadFraming
import BinderIpc.Wire.Framing
import BinderIpc.Driver.Retry
import BinderIpc.Driver.RefTable
import BinderIpc.Txn.View
import BinderIpc.Txn.Steps
import BinderIpc.Txn.Ends
import BinderIpc.Txn.Release
import BinderIpc.Txn.Exit
import BinderIpc.Txn.Buffers
import BinderIpc.Txn.Close
import BinderIpc.Txn.Receive
import BinderIpc.Txn.Route
import BinderIpc.Txn.Send
import BinderIpc.Txn.Queue
import BinderIpc.Txn.Transact
import BinderIpc.Txn.Commands
import BinderIpc.Txn.Runs
import BinderIpc.Txn.Stacks
import BinderIpc.Txn.Outcome
import BinderIpc.Txn.Errors
import BinderIpc.Txn.Reports
import BinderIpc.Driver.Links
import BinderIpc.Death.Records
import BinderIpc.Death.Steps
import BinderIpc.Death.Runs
import BinderIpc.Driver.Turns
import BinderIpc.Handle.Table
import BinderIpc.Handle.Zero
import BinderIpc.Death.Notices
import BinderIpc.Txn.Nesting
import BinderIpc.Txn.Areas
import BinderIpc.Svc.Checks
import BinderIpc.Native.HandleTable
import BinderIpc.Jni.DeathLinks
import BinderIpc.Jni.Counterparts
import BinderIpc.Jni.DeathRecipients
import BinderIpc.Wire.Bounds
import BinderIpc.Handle.Wrap
import BinderIpc.Wire.ReadBounds
import BinderIpc.Wire.ReadFaults
import BinderIpc.Async.Objects
import BinderIpc.Async.Frames
import BinderIpc.Async.Steps
import BinderIpc.Async.Flow
import BinderIpc.Async.Queue
import BinderIpc.Async.Free
import BinderIpc.Async.Send
import BinderIpc.Async.Runs
import BinderIpc.Node.Counts
import BinderIpc.Node.Refs
import BinderIpc.Node.Transfer
import BinderIpc.Node.Frames
import BinderIpc.Node.Steps
import BinderIpc.Node.Reads
import BinderIpc.Node.Runs
import BinderIpc.Node.Confined

import BinderIpc.Alloc.Area
import BinderIpc.Lib.Heap
import BinderIpc.Lib.Queues
import Mathlib.Data.Int.Notation
import Mathlib.Data.Int.Basic

/-! The objects of the driver. Pointers are numbers of objects; `kfree` counts in
`freed` and leaves the object as it was. Integers that count references are not
bounded, and scheduling priorities, wait queues and statistics are left out. -/

namespace Binder

/-- The heads that a `struct binder_work` is linked to. -/
inductive ListHead
  | threadTodo (thread : ℕ)
  | procTodo (proc : ℕ)
  | deliveredDeath (proc : ℕ)
  | asyncTodo (node : ℕ)
  deriving Repr, DecidableEq

/-- A `struct binder_work`, by the object that contains it. -/
inductive Work
  | transaction (t : ℕ)
  /-- the `tcomplete` that was allocated along with transaction `t` -/
  | transactionComplete (t : ℕ)
  | node (n : ℕ)
  | death (d : ℕ)
  deriving Repr, DecidableEq

structure BinderNode where
  proc : Option ℕ := none
  ptr : ℕ := 0
  cookie : ℕ := 0
  refs : List ℕ := []
  internalStrongRefs : ℤ := 0
  localWeakRefs : ℤ := 0
  localStrongRefs : ℤ := 0
  hasStrongRef : Bool := false
  pendingStrongRef : Bool := false
  hasWeakRef : Bool := false
  pendingWeakRef : Bool := false
  hasAsyncTransaction : Bool := false
  acceptFds : Bool := false
  freed : ℕ := 0
  deriving Repr, DecidableEq, Inhabited

structure BinderRef where
  proc : ℕ := 0
  node : ℕ := 0
  desc : ℕ := 0
  strong : ℤ := 0
  weak : ℤ := 0
  death : Option ℕ := none
  freed : ℕ := 0
  deriving Repr, DecidableEq, Inhabited

/-- The types of a death record's work. -/
inductive DeathWork
  | deadBinder | deadBinderAndClear | clearDeathNotification
  deriving Repr, DecidableEq

structure BinderRefDeath where
  cookie : ℕ := 0
  type : Option DeathWork := none
  /-- the process that asked for the notification -/
  proc : ℕ := 0
  freed : ℕ := 0
  deriving Repr, DecidableEq, Inhabited

/-- The codes that `return_error` takes. -/
inductive ReturnError
  | ok | failedReply | deadReply | transactionComplete | error
  deriving Repr, DecidableEq, Inhabited

/-- The flags of a transaction that the driver looks at. -/
structure TransactionFlags where
  oneWay : Bool := false
  acceptFds : Bool := false
  deriving Repr, DecidableEq, Inhabited

structure BinderTransaction where
  /-- the sender, `from` -/
  fromThread : Option ℕ := none
  fromParent : Option ℕ := none
  toProc : Option ℕ := none
  toThread : Option ℕ := none
  toParent : Option ℕ := none
  needReply : Bool := false
  /-- the area, by its process, and the address of the header -/
  buffer : Option (ℕ × ℕ) := none
  code : ℕ := 0
  flags : TransactionFlags := {}
  freed : ℕ := 0
  deriving Repr, DecidableEq, Inhabited

/-- The looper bits, but for `WAITING`, which a thread has while it is asleep. -/
structure Looper where
  registered : Bool := false
  entered : Bool := false
  exited : Bool := false
  invalid : Bool := false
  needReturn : Bool := false
  deriving Repr, DecidableEq, Inhabited

/-- What `binder_thread_read` keeps on its stack while it waits. -/
structure ReadFrame where
  size : ℕ := 0
  /-- `ptr - buffer` -/
  ptr : ℕ := 0
  waitForProcWork : Bool := false
  nonBlock : Bool := false
  /-- whether there was work, once the thread has looked -/
  verdict : Option Bool := none
  deriving Repr, DecidableEq, Inhabited

structure BinderThread where
  proc : ℕ := 0
  pid : ℕ := 0
  looper : Looper := {}
  transactionStack : Option ℕ := none
  returnError : ReturnError := .ok
  returnError2 : ReturnError := .ok
  /-- set while the thread waits for work inside a read -/
  asleep : Option ReadFrame := none
  freed : ℕ := 0
  deriving Repr, DecidableEq, Inhabited

/-- `proc->deferred_work` -/
structure DeferredWork where
  putFiles : Bool := false
  flush : Bool := false
  release : Bool := false
  deriving Repr, DecidableEq, Inhabited

/-- `struct binder_proc` without its trees of nodes and references. -/
structure BinderProc where
  pid : ℕ := 0
  /-- the threads, by pid -/
  threads : List ℕ := []
  area : BinderArea := {}
  maxThreads : ℤ := 0
  requestedThreads : ℤ := 0
  requestedThreadsStarted : ℤ := 0
  readyThreads : ℤ := 0
  deferred : DeferredWork := {}
  /-- the last descriptor of the file was closed -/
  closed : Bool := false
  released : Bool := false

instance : Inhabited BinderProc := ⟨{}⟩

/-- The trees of nodes and references of a process, in order, and its file table. -/
structure ProcObjects where
  nodes : List ℕ := []
  refsByDesc : List ℕ := []
  refsByNode : List ℕ := []
  /-- `proc->files != NULL` -/
  files : Bool := false
  /-- the descriptors that `task_fd_install` put in and `task_close_fd` did not take out -/
  fds : List ℕ := []
  deriving Repr, DecidableEq, Inhabited

/-- The assertions of the driver. -/
inductive Oops
  | descInUse | refAllocation
  | popNotTop | popNotSender | freeThreadStack | failedReplyOneWay
  | returnErrorSet | asyncBuffer | targetNode | noBuffer | hasAsyncTransaction
  | nodeReleaseDeath | clearDeathType | vmaMapped | filesOpen
  deriving Repr, DecidableEq

/-- Nodes, references and death records, and what they are linked to. -/
structure Objects where
  node : Heap BinderNode := .empty
  ref : Heap BinderRef := .empty
  death : Heap BinderRefDeath := .empty
  todo : Queues ListHead Work := {}
  own : ℕ → ProcObjects := fun _ => {}
  deadNodes : List ℕ := []
  contextMgrNode : Option ℕ := none
  /-- the assertions that failed -/
  oops : List Oops := []

/-- The commands that the driver writes for the user, with the objects they are about. -/
inductive Br
  | transactionComplete (t : ℕ)
  | increfs (n : ℕ) | acquire (n : ℕ) | release (n : ℕ) | decrefs (n : ℕ)
  | deadBinder (d : ℕ) | clearDeathNotificationDone (d : ℕ)
  | transaction (t senderPid : ℕ) | reply (t : ℕ)
  | returnError (e : ReturnError)
  | spawnLooper
  deriving Repr, DecidableEq

/-- What is remembered of a run. -/
inductive Event
  /-- a command was written to the read buffer of a thread -/
  | br (thread : ℕ) (cmd : Br)
  /-- a synchronous transaction of a thread was accepted -/
  | accepted (thread t : ℕ)
  /-- reply `r` to transaction `t` was put on the list of its sender -/
  | replied (t r : ℕ)
  /-- the sender of `t` was given an error instead of a reply -/
  | failed (t : ℕ) (code : ReturnError)
  /-- the branch "target thread has error code already" -/
  | errorCodeAlready (t : ℕ)
  /-- the branch "bad target transaction stack" -/
  | badTargetStack (t : ℕ)
  | deathRequested (d : ℕ) | deathCleared (d : ℕ) | deadBinderDone (d : ℕ)
  /-- the owner of a node was released -/
  | nodeReleased (n : ℕ)
  /-- a read returned 0 with this `*consumed` -/
  | readDone (thread consumed : ℕ)
  deriving Repr, DecidableEq

structure Driver where
  obj : Objects := {}
  txn : Heap BinderTransaction := .empty
  thread : Heap BinderThread := .empty
  proc : Heap BinderProc := .empty
  contextMgrUid : Option ℕ := none
  history : List Event := []

namespace Objects

variable (o : Objects)

def modNode (n : ℕ) (f : BinderNode → BinderNode) : Objects := { o with node := o.node.modify n f }

def modRef (r : ℕ) (f : BinderRef → BinderRef) : Objects := { o with ref := o.ref.modify r f }

def modDeath (d : ℕ) (f : BinderRefDeath → BinderRefDeath) : Objects :=
  { o with death := o.death.modify d f }

def modOwn (p : ℕ) (f : ProcObjects → ProcObjects) : Objects :=
  { o with own := fun q => if q = p then f (o.own p) else o.own q }

def bugOn (c : Bool) (b : Oops) : Objects := { o with oops := o.oops ++ if c then [b] else [] }

end Objects

namespace Driver

variable (s : Driver)

def modTxn (t : ℕ) (f : BinderTransaction → BinderTransaction) : Driver :=
  { s with txn := s.txn.modify t f }

def modThread (T : ℕ) (f : BinderThread → BinderThread) : Driver :=
  { s with thread := s.thread.modify T f }

def modProc (p : ℕ) (f : BinderProc → BinderProc) : Driver := { s with proc := s.proc.modify p f }

def modObj (f : Objects → Objects) : Driver := { s with obj := f s.obj }

def bugOn (c : Bool) (b : Oops) : Driver := s.modObj (·.bugOn c b)

def note (e : Event) : Driver := { s with history := s.history ++ [e] }

/-- Changes what is stored in a buffer or linked to it. -/
def modBuffer (b : ℕ × ℕ) (f : BinderBuffer → BinderBuffer) : Driver :=
  s.modProc b.1 fun p => { p with area := p.area.modBuffer b.2 f }

def bufferAt (b : ℕ × ℕ) : Option BinderBuffer := Binder.bufferAt b.2 (s.proc.get b.1).area.buffers

/-- `t->buffer` -/
def bufferOf (t : ℕ) : Option BinderBuffer := (s.txn.get t).buffer.bind s.bufferAt

end Driver

end Binder

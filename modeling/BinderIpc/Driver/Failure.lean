import BinderIpc.Driver.Objects

/-! The end of a transaction, of a thread and of a process: failed replies, work
that is thrown away, and the deferred work of a process. -/

namespace Binder

open Driver

/-- `t->buffer->transaction = NULL`, if there is a buffer. -/
def forgetTransaction (s : Driver) (buffer : Option (ℕ × ℕ)) : Driver :=
  buffer.elim s fun b => s.modBuffer b fun b => { b with transaction := none }

/-- `t->buffer->transaction = NULL` and `kfree(t)` -/
def freeTransaction (s : Driver) (t : ℕ) : Driver :=
  (forgetTransaction s (s.txn.get t).buffer).modTxn t fun x => { x with freed := x.freed + 1 }

/-- The part of `binder_pop_transaction` about a sender that is still there. -/
def popSender (s : Driver) (T t : ℕ) : Driver :=
  let top := (s.thread.get T).transactionStack
  let s := s.bugOn (top ≠ some t) .popNotTop
  let s := s.bugOn ((top.bind fun u => (s.txn.get u).fromThread) ≠ some T) .popNotSender
  let s := s.modThread T fun y =>
    { y with transactionStack := top.bind fun u => (s.txn.get u).fromParent }
  s.modTxn t fun x => { x with fromThread := none }

def binderPopTransaction (s : Driver) (targetThread : Option ℕ) (t : ℕ) : Driver :=
  let s := targetThread.elim s fun T => popSender s T t
  freeTransaction (s.modTxn t fun x => { x with needReply := false }) t

/-- A pending error makes room for a second one. -/
def BinderThread.shiftError (y : BinderThread) : BinderThread :=
  if y.returnError ≠ .ok ∧ y.returnError2 = .ok then
    { y with returnError2 := y.returnError, returnError := .ok }
  else y

/-- `binder_send_failed_reply` once a sender `T` of `t` is found. -/
def failSender (s : Driver) (T t : ℕ) (errorCode : ReturnError) : Driver :=
  let s := s.modThread T .shiftError
  if (s.thread.get T).returnError = .ok then
    let s := binderPopTransaction s (some T) t
    (s.modThread T fun y => { y with returnError := errorCode }).note (.failed t errorCode)
  else s.note (.errorCodeAlready t)

/-- The loop of `binder_send_failed_reply`. -/
def failUpwards (errorCode : ReturnError) : ℕ → Driver → ℕ → Driver
  | 0, s, _ => s
  | k + 1, s, t =>
    match (s.txn.get t).fromThread with
    | some T => failSender s T t errorCode
    | none =>
      let next := (s.txn.get t).fromParent
      let s := binderPopTransaction s none t
      match next with
      | none => s
      | some u => failUpwards errorCode k s u

def binderSendFailedReply (s : Driver) (t : ℕ) (errorCode : ReturnError) : Driver :=
  failUpwards errorCode s.txn.next (s.bugOn (s.txn.get t).flags.oneWay .failedReplyOneWay) t

/-! Work that is not delivered -/

/-- One turn of the loop of `binder_release_work`, once `w` is taken off its list. -/
def releaseItem (s : Driver) : Work → Driver
  | .transaction t =>
    let s := s.bugOn (s.bufferOf t).isNone .noBuffer
    if (s.bufferOf t).any (·.targetNode.isSome) && !(s.txn.get t).flags.oneWay then
      binderSendFailedReply s t .deadReply
    else freeTransaction s t
  | .transactionComplete _ => s
  | .death d =>
    match (s.obj.death.get d).type with
    | some .deadBinderAndClear | some .clearDeathNotification =>
      s.modObj fun o => o.modDeath d fun x => { x with freed := x.freed + 1 }
    | _ => s
  | .node _ => s

def unqueue (s : Driver) (w : Work) : Driver :=
  s.modObj fun o => { o with todo := o.todo.del w }

def releaseWorkLoop (l : ListHead) : ℕ → Driver → Driver
  | 0, s => s
  | k + 1, s =>
    match s.obj.todo.first l with
    | none => s
    | some w => releaseWorkLoop l k (releaseItem (unqueue s w) w)

def binderReleaseWork (s : Driver) (l : ListHead) : Driver :=
  releaseWorkLoop l s.obj.todo.entries.length s

/-! Threads -/

/-- The loop of `binder_free_thread` down the transaction stack. -/
def leaveTransactions (T : ℕ) : ℕ → Driver → Option ℕ → Driver
  | _, s, none => s
  | 0, s, some _ => s
  | k + 1, s, some t =>
    let x := s.txn.get t
    if x.toThread = some T then
      leaveTransactions T k
        ((forgetTransaction s x.buffer).modTxn t fun x =>
          { x with toProc := none, toThread := none, buffer := none }) x.toParent
    else if x.fromThread = some T then
      leaveTransactions T k (s.modTxn t fun x => { x with fromThread := none }) x.fromParent
    else s.bugOn true .freeThreadStack

def binderFreeThread (s : Driver) (T : ℕ) : Driver :=
  let y := s.thread.get T
  let s := s.modProc y.proc fun p => { p with threads := p.threads.erase T }
  let sendReply := y.transactionStack.filter fun t => (s.txn.get t).toThread = some T
  let s := leaveTransactions T s.txn.next s y.transactionStack
  let s := match sendReply with
    | some t => binderSendFailedReply s t .deadReply
    | none => s
  let s := binderReleaseWork s (.threadTodo T)
  s.modThread T fun y => { y with freed := y.freed + 1 }

/-! Processes -/

/-- One turn of the loop of `binder_node_release` over the references. -/
def notifyDeath (o : Objects) (r : ℕ) : Objects :=
  let x := o.ref.get r
  match x.death with
  | none => o
  | some d =>
    if o.todo.linked (.death d) then o.bugOn true .nodeReleaseDeath
    else
      let o := o.modDeath d fun y => { y with type := some .deadBinder }
      { o with todo := o.todo.addTail (.procTodo x.proc) (.death d) }

def binderNodeRelease (s : Driver) (n : ℕ) : Driver :=
  let s := s.note (.nodeReleased n)
  let s := binderReleaseWork (unqueue s (.node n)) (.asyncTodo n)
  s.modObj fun o =>
    if (o.node.get n).refs = [] then o.modNode n fun x => { x with freed := x.freed + 1 }
    else
      let o := o.modNode n fun x =>
        { x with proc := none, localStrongRefs := 0, localWeakRefs := 0 }
      (o.node.get n).refs.foldl notifyDeath { o with deadNodes := n :: o.deadNodes }

/-- One turn of the loop of `binder_deferred_release` over the nodes. -/
def releaseNode (p : ℕ) (s : Driver) (n : ℕ) : Driver :=
  binderNodeRelease (s.modObj fun o => o.modOwn p fun w => { w with nodes := w.nodes.erase n }) n

/-- One turn of its loop over the allocated buffers. -/
def releaseBuffer (L : Layout) (rb : RbTree ℕ) (env : ℕ → PageEnv) (p : ℕ) (s : Driver) (a : ℕ) :
    Driver :=
  let s := match (s.bufferAt (p, a)).bind (·.transaction) with
    | some t => (s.modTxn t fun x => { x with buffer := none }).modBuffer (p, a) fun b =>
        { b with transaction := none }
    | none => s
  s.modProc p fun x => { x with area := binderFreeBuf L rb x.area a (env a) }

def binderDeferredRelease (L : Layout) (rb : RbTree ℕ) (env : ℕ → PageEnv) (s : Driver) (p : ℕ) :
    Driver :=
  let s := (s.bugOn (s.proc.get p).area.vma .vmaMapped).bugOn (s.obj.own p).files .filesOpen
  let s := s.modObj fun o =>
    if (o.contextMgrNode.any fun n => (o.node.get n).proc = some p) then
      { o with contextMgrNode := none }
    else o
  let s := (s.proc.get p).threads.foldl binderFreeThread s
  let s := (s.obj.own p).nodes.foldl (releaseNode p) s
  let s := s.modObj fun o => (o.own p).refsByDesc.foldl binderDeleteRef o
  let s := binderReleaseWork (binderReleaseWork s (.procTodo p)) (.deliveredDeath p)
  let s := (s.proc.get p).area.allocatedBuffers.inorder.foldl (releaseBuffer L rb env p) s
  s.modProc p fun x => { x with released := true }

/-- `binder_deferred_flush`; the threads that sleep look again whenever they like. -/
def binderDeferredFlush (s : Driver) (p : ℕ) : Driver :=
  (s.proc.get p).threads.foldl (fun s T => s.modThread T fun y =>
    { y with looper := { y.looper with needReturn := true } }) s

/-- One turn of `binder_deferred_func`, for `p`. -/
def binderDeferredFunc (L : Layout) (rb : RbTree ℕ) (env : ℕ → PageEnv) (s : Driver) (p : ℕ) :
    Driver :=
  let defer := (s.proc.get p).deferred
  let s := s.modProc p fun x => { x with deferred := {} }
  let s := if defer.putFiles then
      s.modObj fun o => o.modOwn p fun w => { w with files := false }
    else s
  let s := if defer.flush then binderDeferredFlush s p else s
  if defer.release then binderDeferredRelease L rb env s p else s

end Binder

import BinderIpc.Driver.Transaction

/-! `binder_thread_write`: the commands of the user. -/

namespace Binder

open Driver

/-- The commands that change the counts of a reference. -/
inductive RefCommand
  | increfs | acquire | release | decrefs
  deriving Repr, DecidableEq

/-- A decoded command. A command that the driver refuses with an error return changes nothing. -/
inductive Command
  | ref (c : RefCommand) (target : ℕ)
  /-- `BC_INCREFS_DONE`, and `BC_ACQUIRE_DONE` when `strong` -/
  | refDone (strong : Bool) (ptr cookie : ℕ)
  | freeBuffer (a : ℕ)
  | transaction (tr : TransactionData)
  | reply (tr : TransactionData)
  | registerLooper
  | enterLooper
  | exitLooper
  | requestDeathNotification (target cookie : ℕ)
  | clearDeathNotification (target cookie : ℕ)
  | deadBinderDone (cookie : ℕ)
  deriving Repr, DecidableEq

/-- What the rest of the kernel answers during one command. -/
structure CommandEnv where
  kzalloc : Bool := true
  transaction : TransactionEnv := {}
  free : PageEnv := {}

def refCommand (o : Objects) (p : ℕ) (c : RefCommand) (target : ℕ) (kzalloc : Bool) : Objects :=
  let increases := c = .increfs ∨ c = .acquire
  let (o, ref) := match o.contextMgrNode with
    | some n =>
      if target = 0 ∧ increases then
        let (o, r) := binderGetRefForNode o p n kzalloc
        -- the descriptor is read before the test for NULL
        (o.bugOn r.isNone .refAllocation, r)
      else (o, binderGetRef o p target)
    | none => (o, binderGetRef o p target)
  match ref with
  | none => o
  | some r =>
    match c with
    | .increfs => (binderIncRef o r false none).1
    | .acquire => (binderIncRef o r true none).1
    | .release => binderDecRef o r true
    | .decrefs => binderDecRef o r false

def BinderNode.pending (strong : Bool) (x : BinderNode) : Bool :=
  if strong then x.pendingStrongRef else x.pendingWeakRef

def BinderNode.clearPending (strong : Bool) (x : BinderNode) : BinderNode :=
  if strong then { x with pendingStrongRef := false } else { x with pendingWeakRef := false }

def refDone (o : Objects) (p : ℕ) (strong : Bool) (ptr cookie : ℕ) : Objects :=
  match binderGetNode o p ptr with
  | none => o
  | some n =>
    if cookie ≠ (o.node.get n).cookie ∨ (o.node.get n).pending strong = false then o
    else binderDecNode (o.modNode n (.clearPending strong)) n strong false

/-- `buffer->transaction->buffer = NULL` and `buffer->transaction = NULL` -/
def detachBuffer (s : Driver) (b : ℕ × ℕ) : Driver :=
  match (s.bufferAt b).bind (·.transaction) with
  | some t => (s.modTxn t fun x => { x with buffer := none }).modBuffer b fun b =>
      { b with transaction := none }
  | none => s

/-- The next asynchronous transaction of the node goes to the list of the thread. -/
def nextAsync (o : Objects) (T n : ℕ) : Objects :=
  let o := o.bugOn (!(o.node.get n).hasAsyncTransaction) .hasAsyncTransaction
  match o.todo.first (.asyncTodo n) with
  | none => o.modNode n fun x => { x with hasAsyncTransaction := false }
  | some w => { o with todo := o.todo.moveTail (.threadTodo T) w }

def freeBuffer (L : Layout) (rb : RbTree ℕ) (s : Driver) (T a : ℕ) (env : PageEnv) : Driver :=
  let p := (s.thread.get T).proc
  match (binderBufferLookup a (s.proc.get p).area.allocatedBuffers).bind fun a => s.bufferAt (p, a) with
  | none => s
  | some b =>
    if !b.allowUserFree then s
    else
      let s := detachBuffer s (p, a)
      let s := if b.asyncTransaction then
          s.modObj fun o => b.targetNode.elim o (nextAsync o T)
        else s
      let s := s.modObj fun o => binderTransactionBufferRelease L o p b none
      s.modProc p fun x => { x with area := binderFreeBuf L rb x.area a env }

/-- The list that a thread's own commands put death work on. -/
def deathList (y : BinderThread) (T : ℕ) : ListHead :=
  if y.looper.registered || y.looper.entered then .threadTodo T else .procTodo y.proc

def requestDeathNotification (s : Driver) (T target cookie : ℕ) (kzalloc : Bool) : Driver :=
  let y := s.thread.get T
  match binderGetRef s.obj y.proc target with
  | none => s
  | some r =>
    let x := s.obj.ref.get r
    if x.death.isSome then s
    else if !kzalloc then s.modThread T fun y => { y with returnError := .error }
    else
      let d := s.obj.death.next
      let s := s.modObj fun o =>
        { o.modRef r fun x => { x with death := some d } with
          death := o.death.alloc { cookie := cookie, proc := y.proc } }
      let s := s.note (.deathRequested d)
      if (s.obj.node.get x.node).proc = none then
        s.modObj fun o =>
          let o := o.modDeath d fun z => { z with type := some .deadBinder }
          { o with todo := o.todo.addTail (deathList y T) (.death d) }
      else s

def clearDeathNotification (s : Driver) (T target cookie : ℕ) : Driver :=
  let y := s.thread.get T
  match binderGetRef s.obj y.proc target with
  | none => s
  | some r =>
    match (s.obj.ref.get r).death with
    | none => s
    | some d =>
      if (s.obj.death.get d).cookie ≠ cookie then s
      else
        let s := (s.modObj fun o => o.modRef r fun x => { x with death := none }).note
          (.deathCleared d)
        if s.obj.todo.linked (.death d) then
          (s.bugOn ((s.obj.death.get d).type ≠ some .deadBinder) .clearDeathType).modObj fun o =>
            o.modDeath d fun z => { z with type := some .deadBinderAndClear }
        else
          s.modObj fun o =>
            let o := o.modDeath d fun z => { z with type := some .clearDeathNotification }
            { o with todo := o.todo.addTail (deathList y T) (.death d) }

/-- The loop over `delivered_death`. -/
def deliveredDeath (o : Objects) (p cookie : ℕ) : Option ℕ :=
  o.todo.entries.findSome? fun
    | (.deliveredDeath q, .death d) =>
      if q = p ∧ (o.death.get d).cookie = cookie then some d else none
    | _ => none

def deadBinderDone (s : Driver) (T cookie : ℕ) : Driver :=
  let y := s.thread.get T
  match deliveredDeath s.obj y.proc cookie with
  | none => s
  | some d =>
    let s := (s.modObj fun o => { o with todo := o.todo.del (.death d) }).note (.deadBinderDone d)
    if (s.obj.death.get d).type = some .deadBinderAndClear then
      s.modObj fun o =>
        let o := o.modDeath d fun z => { z with type := some .clearDeathNotification }
        { o with todo := o.todo.addTail (deathList y T) (.death d) }
    else s

def registerLooper (s : Driver) (T : ℕ) : Driver :=
  let y := s.thread.get T
  let s :=
    if y.looper.entered then s.modThread T fun y => { y with looper := { y.looper with invalid := true } }
    else if (s.proc.get y.proc).requestedThreads = 0 then
      s.modThread T fun y => { y with looper := { y.looper with invalid := true } }
    else
      s.modProc y.proc fun p =>
        { p with
          requestedThreads := p.requestedThreads - 1
          requestedThreadsStarted := p.requestedThreadsStarted + 1 }
  s.modThread T fun y => { y with looper := { y.looper with registered := true } }

/-- The body of the loop of `binder_thread_write`. -/
def binderCommand (L : Layout) (rb : RbTree ℕ) (s : Driver) (T : ℕ) (env : CommandEnv) :
    Command → Driver
  | .ref c target => s.modObj fun o => refCommand o (s.thread.get T).proc c target env.kzalloc
  | .refDone strong ptr cookie =>
    s.modObj fun o => refDone o (s.thread.get T).proc strong ptr cookie
  | .freeBuffer a => freeBuffer L rb s T a env.free
  | .transaction tr => binderTransaction L rb s T tr false env.transaction
  | .reply tr => binderTransaction L rb s T tr true env.transaction
  | .registerLooper => registerLooper s T
  | .enterLooper =>
    s.modThread T fun y =>
      { y with
        looper := { y.looper with
          entered := true, invalid := y.looper.invalid || y.looper.registered } }
  | .exitLooper => s.modThread T fun y => { y with looper := { y.looper with exited := true } }
  | .requestDeathNotification target cookie =>
    requestDeathNotification s T target cookie env.kzalloc
  | .clearDeathNotification target cookie => clearDeathNotification s T target cookie
  | .deadBinderDone cookie => deadBinderDone s T cookie

/-- A command is executed while `thread->return_error == BR_OK`. -/
def writeCommand (L : Layout) (rb : RbTree ℕ) (s : Driver) (T : ℕ) (env : CommandEnv)
    (c : Command) : Driver :=
  if (s.thread.get T).returnError = .ok then binderCommand L rb s T env c else s

end Binder

import BinderIpc.Driver.Write

/-! `binder_thread_read`. The call gives the lock back to wait for work, so it
is cut there: `binderThreadRead` runs up to the wait, `resumeRead` from the wait
to the end or to the next one. `fault` tells which offsets of the user's buffer
cannot be written. -/

namespace Binder

open Driver

/-- `end - ptr < sizeof(tr) + 4`, where the difference is converted to a `size_t`. -/
def noRoom (L : Layout) (size ptr : ℕ) : Bool := L.sub size ptr < 68

/-- From `done` on. -/
def readDone (s : Driver) (T ptr : ℕ) (fault : ℕ → Bool) : Driver :=
  let y := s.thread.get T
  let p := s.proc.get y.proc
  if p.requestedThreads + p.readyThreads = 0 ∧ p.requestedThreadsStarted < p.maxThreads ∧
      (y.looper.registered || y.looper.entered) then
    let s := s.modProc y.proc fun p => { p with requestedThreads := p.requestedThreads + 1 }
    if fault 0 then s else (s.note (.br T .spawnLooper)).note (.readDone T ptr)
  else s.note (.readDone T ptr)

/-- A pending error is reported. -/
def reportErrors (s : Driver) (T size ptr : ℕ) (fault : ℕ → Bool) : Driver :=
  let y := s.thread.get T
  let report := fun (s : Driver) ptr =>
    if fault ptr then s
    else
      let s := s.note (.br T (.returnError y.returnError))
      readDone (s.modThread T fun y => { y with returnError := .ok }) T (ptr + 4) fault
  if y.returnError2 = .ok then report s ptr
  else if fault ptr then s
  else
    let s := s.note (.br T (.returnError y.returnError2))
    if ptr + 4 = size then readDone s T (ptr + 4) fault
    else report (s.modThread T fun y => { y with returnError2 := .ok }) (ptr + 4)

/-- From `retry` to the wait. -/
def waitForWork (s : Driver) (T size ptr : ℕ) (nonBlock : Bool) (fault : ℕ → Bool) : Driver :=
  let y := s.thread.get T
  let waitForProcWork := y.transactionStack.isNone && s.obj.todo.isEmpty (.threadTodo T)
  if y.returnError ≠ .ok ∧ ptr < size then reportErrors s T size ptr fault
  else
    let s := if waitForProcWork then
        s.modProc y.proc fun p => { p with readyThreads := p.readyThreads + 1 }
      else s
    s.modThread T fun y =>
      { y with
        asleep := some
          { size := size, ptr := ptr, waitForProcWork := waitForProcWork, nonBlock := nonBlock } }

def binderThreadRead (s : Driver) (T size consumed : ℕ) (nonBlock : Bool) (fault : ℕ → Bool) :
    Driver :=
  if consumed = 0 then
    if fault 0 then s else waitForWork s T size 4 nonBlock fault
  else waitForWork s T size consumed nonBlock fault

/-! Waiting -/

/-- `binder_has_proc_work` or `binder_has_thread_work` -/
def hasWork (s : Driver) (T : ℕ) (waitForProcWork : Bool) : Bool :=
  let y := s.thread.get T
  (if waitForProcWork then !s.obj.todo.isEmpty (.procTodo y.proc)
    else !s.obj.todo.isEmpty (.threadTodo T) || y.returnError ≠ .ok) || y.looper.needReturn

/-- A waiting thread looks for work; one that does not block gives up when there is none. -/
def lookForWork (s : Driver) (T : ℕ) : Driver :=
  match (s.thread.get T).asleep with
  | none => s
  | some f =>
    if f.verdict.isSome then s
    else if hasWork s T f.waitForProcWork || f.nonBlock then
      let verdict := hasWork s T f.waitForProcWork
      s.modThread T fun y => { y with asleep := some { f with verdict := some verdict } }
    else s

/-- The lock is taken again. -/
def stopWaiting (s : Driver) (T : ℕ) (f : ReadFrame) : Driver :=
  let s := if f.waitForProcWork then
      s.modProc (s.thread.get T).proc fun p => { p with readyThreads := p.readyThreads - 1 }
    else s
  s.modThread T fun y => { y with asleep := none }

/-! Work -/

def readComplete (s : Driver) (T t : ℕ) : Driver :=
  (s.note (.br T (.transactionComplete t))).modObj fun o =>
    { o with todo := o.todo.del (.transactionComplete t) }

/-- The command that is written for a node, with what it changes in the node. -/
def nodeCommand (x : BinderNode) (n : ℕ) : Option (Br × BinderNode) :=
  let strong := decide (x.internalStrongRefs ≠ 0 ∨ x.localStrongRefs ≠ 0)
  let weak := decide (x.refs ≠ [] ∨ x.localWeakRefs ≠ 0) || strong
  if weak && !x.hasWeakRef then
    some (.increfs n,
      { x with hasWeakRef := true, pendingWeakRef := true, localWeakRefs := x.localWeakRefs + 1 })
  else if strong && !x.hasStrongRef then
    some (.acquire n,
      { x with
        hasStrongRef := true, pendingStrongRef := true, localStrongRefs := x.localStrongRefs + 1 })
  else if !strong && x.hasStrongRef then some (.release n, { x with hasStrongRef := false })
  else if !weak && x.hasWeakRef then some (.decrefs n, { x with hasWeakRef := false })
  else none

/-- A node without a command to write leaves the list, and is freed when nothing holds it. -/
def settleNode (o : Objects) (p n : ℕ) : Objects :=
  let o := { o with todo := o.todo.del (.node n) }
  let x := o.node.get n
  if x.internalStrongRefs = 0 ∧ x.localStrongRefs = 0 ∧ x.refs = [] ∧ x.localWeakRefs = 0 then
    (o.modOwn p fun w => { w with nodes := w.nodes.erase n }).modNode n fun x =>
      { x with freed := x.freed + 1 }
  else o

/-- What a turn of the loop leaves: the place behind what was written, a fault, or the end. -/
inductive Turn
  | next (ptr : ℕ) | fault | done (ptr : ℕ)
  deriving Repr, DecidableEq

def readNode (s : Driver) (T n ptr : ℕ) (fault : ℕ → Bool) : Driver × Turn :=
  match nodeCommand (s.obj.node.get n) n with
  | some (cmd, x) =>
    let s := s.modObj fun o => o.modNode n fun _ => x
    if fault ptr || fault (ptr + 4) || fault (ptr + 12) then (s, .fault)
    else (s.note (.br T cmd), .next (ptr + 20))
  | none => (s.modObj fun o => settleNode o (s.thread.get T).proc n, .next ptr)

def readDeath (s : Driver) (T d ptr : ℕ) (fault : ℕ → Bool) : Driver × Turn :=
  match (s.obj.death.get d).type with
  | none => (s, .next ptr)
  | some type =>
    if fault ptr || fault (ptr + 4) then (s, .fault)
    else if type = .clearDeathNotification then
      ((s.note (.br T (.clearDeathNotificationDone d))).modObj fun o => freeDeath o d,
        .next (ptr + 12))
    else
      ((s.note (.br T (.deadBinder d))).modObj fun o =>
        { o with todo := o.todo.moveHead (.deliveredDeath (s.thread.get T).proc) (.death d) },
        .done (ptr + 12))

def readTransaction (s : Driver) (T t ptr : ℕ) (fault : ℕ → Bool) : Driver × Turn :=
  let s := s.bugOn (s.bufferOf t).isNone .noBuffer
  let x := s.txn.get t
  let call := (s.bufferOf t).any (·.targetNode.isSome)
  if fault ptr || fault (ptr + 4) then (s, .fault)
  else
    let senderPid := x.fromThread.elim 0 fun S => (s.proc.get (s.thread.get S).proc).pid
    let s := s.note (.br T (if call then .transaction t senderPid else .reply t))
    let s := unqueue s (.transaction t)
    let s := x.buffer.elim s fun b => s.modBuffer b fun b => { b with allowUserFree := true }
    let s :=
      if call && !x.flags.oneWay then
        let top := (s.thread.get T).transactionStack
        (s.modTxn t fun x => { x with toParent := top, toThread := some T }).modThread T fun y =>
          { y with transactionStack := some t }
      else freeTransaction s t
    (s, .done (ptr + 68))

def readItem (s : Driver) (T ptr : ℕ) (fault : ℕ → Bool) : Work → Driver × Turn
  | .transaction t => readTransaction s T t ptr fault
  | .transactionComplete t => if fault ptr then (s, .fault) else (readComplete s T t, .next (ptr + 4))
  | .node n => readNode s T n ptr fault
  | .death d => readDeath s T d ptr fault

/-- The work that the loop takes next. -/
def nextWork (s : Driver) (T : ℕ) (waitForProcWork : Bool) : Option Work :=
  match s.obj.todo.first (.threadTodo T) with
  | some w => some w
  | none => if waitForProcWork then s.obj.todo.first (.procTodo (s.thread.get T).proc) else none

theorem nextWork_listed {s : Driver} {T : ℕ} {w : Work} {wait : Bool}
    (hw : nextWork s T wait = some w) : ∃ l, (l, w) ∈ s.obj.todo.entries := by
  unfold nextWork at hw
  split at hw
  · rename_i hfirst
    exact ⟨_, Queues.first_mem (hfirst.trans hw)⟩
  · split_ifs at hw
    exact ⟨_, Queues.first_mem hw⟩

/-- The loop of `binder_thread_read`. -/
def readLoop (L : Layout) (T : ℕ) (f : ReadFrame) (fault : ℕ → Bool) : ℕ → Driver → ℕ → Driver
  | 0, s, _ => s
  | k + 1, s, ptr =>
    match nextWork s T f.waitForProcWork with
    | none =>
      -- no data added
      if ptr = 4 ∧ (s.thread.get T).looper.needReturn = false then
        waitForWork s T f.size ptr f.nonBlock fault
      else readDone s T ptr fault
    | some w =>
      if noRoom L f.size ptr then readDone s T ptr fault
      else
        match readItem s T ptr fault w with
        | (s, .next ptr) => readLoop L T f fault k s ptr
        | (s, .fault) => s
        | (s, .done ptr) => readDone s T ptr fault

/-- A node is written about at most four times before it leaves its list. -/
def readFuel (s : Driver) : ℕ := 5 * s.obj.todo.entries.length + 1

def resumeRead (L : Layout) (s : Driver) (T : ℕ) (fault : ℕ → Bool) : Driver :=
  match (s.thread.get T).asleep with
  | none => s
  | some f =>
    match f.verdict with
    | none => s
    | some false => stopWaiting s T f
    | some true => readLoop L T f fault (readFuel s) (stopWaiting s T f) f.ptr

/-- A signal ends the wait. -/
def interruptRead (s : Driver) (T : ℕ) : Driver :=
  match (s.thread.get T).asleep with
  | none => s
  | some f => if f.nonBlock || f.verdict.isSome then s else stopWaiting s T f

end Binder

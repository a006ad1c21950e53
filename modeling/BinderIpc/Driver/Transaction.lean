import BinderIpc.Driver.Failure

/-! `binder_transaction`: the target, the buffer in the target's area, the
translated objects, the queues, and the error exits. -/

namespace Binder

open Driver

/-- `struct binder_transaction_data`, with what its pointers point to. -/
structure TransactionData where
  handle : ℕ := 0
  code : ℕ := 0
  flags : TransactionFlags := {}
  dataSize : ℕ := 0
  offsetsSize : ℕ := 0
  data : List ℕ := []
  offsets : List ℕ := []
  deriving Repr, DecidableEq

/-- What the rest of the kernel answers during one `binder_transaction`. -/
structure TransactionEnv where
  kzallocTransaction : Bool := true
  kzallocComplete : Bool := true
  alloc : PageEnv := {}
  copyData : Bool := true
  copyOffsets : Bool := true
  object : ℕ → ObjectEnv := fun _ => {}
  free : PageEnv := {}

/-- What the first part of `binder_transaction` settles. -/
structure Target where
  inReplyTo : Option ℕ := none
  proc : ℕ
  thread : Option ℕ := none
  node : Option ℕ := none
  deriving Repr, DecidableEq

/-- An error exit: `in_reply_to` and `return_error`. -/
structure Failure where
  inReplyTo : Option ℕ := none
  code : ReturnError
  deriving Repr, DecidableEq

def replyTarget (s : Driver) (T : ℕ) : Driver × Except Failure Target :=
  match (s.thread.get T).transactionStack with
  | none => (s, .error { code := .failedReply })
  | some t =>
    let x := s.txn.get t
    if x.toThread ≠ some T then (s, .error { code := .failedReply })
    else
      let s := s.modThread T fun y => { y with transactionStack := x.toParent }
      match x.fromThread with
      | none => (s, .error { inReplyTo := some t, code := .deadReply })
      | some S =>
        if (s.thread.get S).transactionStack ≠ some t then
          (s.note (.badTargetStack t), .error { code := .failedReply })
        else
          (s, .ok { inReplyTo := some t, proc := (s.thread.get S).proc, thread := some S })

/-- The loop along `from_parent`; a thread further down overrides one further up. -/
def routeThread (s : Driver) (targetProc : ℕ) : ℕ → Option ℕ → Option ℕ → Option ℕ
  | _, none, found => found
  | 0, some _, found => found
  | k + 1, some t, found =>
    let x := s.txn.get t
    routeThread s targetProc k x.fromParent
      (match x.fromThread with
        | some S => if (s.thread.get S).proc = targetProc then some S else found
        | none => found)

def targetNode (s : Driver) (T : ℕ) (tr : TransactionData) : Except Failure ℕ :=
  if tr.handle ≠ 0 then
    match binderGetRef s.obj (s.thread.get T).proc tr.handle with
    | none => .error { code := .failedReply }
    | some r => .ok (s.obj.ref.get r).node
  else
    match s.obj.contextMgrNode with
    | none => .error { code := .deadReply }
    | some n => .ok n

def callTarget (s : Driver) (T : ℕ) (tr : TransactionData) : Except Failure Target := do
  let n ← targetNode s T tr
  match (s.obj.node.get n).proc with
  | none => .error { code := .deadReply }
  | some q =>
    let top := if tr.flags.oneWay then none else (s.thread.get T).transactionStack
    if top.any fun t => (s.txn.get t).toThread ≠ some T then .error { code := .failedReply }
    else .ok { proc := q, thread := routeThread s q s.txn.next top none, node := some n }

/-- The end of the error exits. -/
def failTransaction (s : Driver) (T : ℕ) (f : Failure) : Driver :=
  let s := s.bugOn ((s.thread.get T).returnError ≠ .ok) .returnErrorSet
  match f.inReplyTo with
  | some t =>
    binderSendFailedReply (s.modThread T fun y => { y with returnError := .transactionComplete }) t
      f.code
  | none => s.modThread T fun y => { y with returnError := f.code }

/-- The words or offsets that `copy_from_user` brings in. -/
def copyFromUser (n : ℕ) (l : List ℕ) : List ℕ := (List.range n).map fun i => l.getD i 0

/-- What the fields of the new buffer `a` of `target` are set to. -/
def fillBuffer (tr : TransactionData) (target : Target) (t : ℕ) (b : BinderBuffer) : BinderBuffer :=
  { b with
    allowUserFree := false
    transaction := some t
    targetNode := target.node
    data := copyFromUser ((tr.dataSize + 3) / 4) tr.data
    offsets := copyFromUser (tr.offsetsSize / 8) tr.offsets }

/-- Both buffers are copied and the size of the offsets passes its check; then
the loop over the objects. An error leaves the number of offsets it got through. -/
def translateBuffer (L : Layout) (o : Objects) (x : Transfer) (env : TransactionEnv)
    (tr : TransactionData) (b : BinderBuffer) : Objects × List ℕ × Option ℕ :=
  if !env.copyData || !env.copyOffsets || tr.offsetsSize % 8 ≠ 0 then (o, b.data, some 0)
  else translateObjects L env.object x tr.dataSize b.offsets 0 o b.data

/-- The part of `binder_transaction` that queues `t`. -/
def queueTransaction (s : Driver) (T t : ℕ) (target : Target) : Driver :=
  let async := (s.bufferOf t).any (·.asyncTransaction)
  let home := target.thread.elim (ListHead.procTodo target.proc) .threadTodo
  let (s, list) :=
    match target.inReplyTo with
    | some u =>
      (((binderPopTransaction (s.bugOn async .asyncBuffer) target.thread u).note (.replied u t)),
        home)
    | none =>
      if !(s.txn.get t).flags.oneWay then
        let top := (s.thread.get T).transactionStack
        let s := (s.bugOn async .asyncBuffer).modTxn t fun x =>
          { x with needReply := true, fromParent := top }
        ((s.modThread T fun y => { y with transactionStack := some t }).note (.accepted T t), home)
      else
        let s := (s.bugOn target.node.isNone .targetNode).bugOn (!async) .asyncBuffer
        match target.node with
        | none => (s, home)
        | some n =>
          if (s.obj.node.get n).hasAsyncTransaction then (s, .asyncTodo n)
          else (s.modObj fun o => o.modNode n fun x => { x with hasAsyncTransaction := true }, home)
  s.modObj fun o =>
    { o with
      todo := (o.todo.addTail list (.transaction t)).addTail (.threadTodo T) (.transactionComplete t) }

/-- `binder_transaction` once the target is known. -/
def sendTransaction (L : Layout) (rb : RbTree ℕ) (s : Driver) (T : ℕ) (tr : TransactionData)
    (env : TransactionEnv) (target : Target) : Driver :=
  let q := target.proc
  let failed : Failure := { inReplyTo := target.inReplyTo, code := .failedReply }
  if !env.kzallocTransaction || !env.kzallocComplete then failTransaction s T failed
  else
    let reply := target.inReplyTo.isSome
    let t := s.txn.next
    let s := { s with
      txn := s.txn.alloc
        { fromThread := if !reply && !tr.flags.oneWay then some T else none
          toProc := some q, toThread := target.thread, code := tr.code, flags := tr.flags } }
    match binderAllocBuf L rb (s.proc.get q).area env.alloc tr.dataSize tr.offsetsSize
        (!reply && tr.flags.oneWay) with
    | (area, none) =>
      failTransaction ((s.modProc q fun p => { p with area := area }).modTxn t fun x =>
        { x with freed := x.freed + 1 }) T failed
    | (area, some a) =>
      let s := (s.modProc q fun p => { p with area := area }).modTxn t fun x =>
        { x with buffer := some (q, a) }
      let s := s.modBuffer (q, a) (fillBuffer tr target t)
      let s := s.modObj fun o => target.node.elim o fun n => (binderIncNode o n true false none).1
      match s.bufferAt (q, a) with
      | none => s
      | some b =>
        let acceptFds := match target.inReplyTo with
          | some u => (s.txn.get u).flags.acceptFds
          | none => target.node.any fun n => (s.obj.node.get n).acceptFds
        let x : Transfer :=
          { proc := (s.thread.get T).proc, thread := T, targetProc := q, acceptFds := acceptFds }
        let (o, data, failedAt) := translateBuffer L s.obj x env tr b
        let s := ({ s with obj := o } : Driver).modBuffer (q, a) fun b => { b with data := data }
        match failedAt with
        | none => queueTransaction s T t target
        | some k =>
          let s := s.modObj fun o =>
            binderTransactionBufferRelease L o q { b with data := data } (some k)
          let s := s.modBuffer (q, a) fun b => { b with transaction := none }
          let s := s.modProc q fun p => { p with area := binderFreeBuf L rb p.area a env.free }
          failTransaction (s.modTxn t fun x => { x with freed := x.freed + 1 }) T failed

/-! The steps of `sendTransaction` by name -/

/-- The new transaction of `T`. -/
def newTransaction (T : ℕ) (tr : TransactionData) (target : Target) : BinderTransaction where
  fromThread := if !target.inReplyTo.isSome && !tr.flags.oneWay then some T else none
  toProc := some target.proc
  toThread := target.thread
  code := tr.code
  flags := tr.flags

/-- The buffer `a` of the area that was handed out is filled for `t`, and its node is held. -/
def placeBuffer (s : Driver) (tr : TransactionData) (target : Target) (t : ℕ) (area : BinderArea)
    (a : ℕ) : Driver :=
  ((((s.modProc target.proc fun p => { p with area := area }).modTxn t fun x =>
    { x with buffer := some (target.proc, a) }).modBuffer (target.proc, a)
      (fillBuffer tr target t)).modObj fun o =>
        target.node.elim o fun n => (binderIncNode o n true false none).1)

/-- Who sends the objects of the transaction. -/
def transferOf (s : Driver) (T : ℕ) (target : Target) : Transfer where
  proc := (s.thread.get T).proc
  thread := T
  targetProc := target.proc
  acceptFds := match target.inReplyTo with
    | some u => (s.txn.get u).flags.acceptFds
    | none => target.node.any fun n => (s.obj.node.get n).acceptFds

/-- The error exit after a buffer was allocated: `b` is what is in it. -/
def undoBuffer (L : Layout) (rb : RbTree ℕ) (s : Driver) (T t : ℕ) (env : TransactionEnv)
    (target : Target) (a : ℕ) (b : BinderBuffer) (k : ℕ) : Driver :=
  let s := s.modObj fun o => binderTransactionBufferRelease L o target.proc b (some k)
  let s := s.modBuffer (target.proc, a) fun b => { b with transaction := none }
  let s := s.modProc target.proc fun p => { p with area := binderFreeBuf L rb p.area a env.free }
  failTransaction (s.modTxn t fun x => { x with freed := x.freed + 1 }) T
    { inReplyTo := target.inReplyTo, code := .failedReply }

/-- The objects of `b` are translated, and the transaction is queued or undone. -/
def deliverBuffer (L : Layout) (rb : RbTree ℕ) (s : Driver) (T t : ℕ) (tr : TransactionData)
    (env : TransactionEnv) (target : Target) (a : ℕ) (b : BinderBuffer) : Driver :=
  let r := translateBuffer L s.obj (transferOf s T target) env tr b
  let s := (s.modObj fun _ => r.1).modBuffer (target.proc, a) fun b => { b with data := r.2.1 }
  match r.2.2 with
  | none => queueTransaction s T t target
  | some k => undoBuffer L rb s T t env target a { b with data := r.2.1 } k

theorem sendTransaction_eq (L : Layout) (rb : RbTree ℕ) (s : Driver) (T : ℕ) (tr : TransactionData)
    (env : TransactionEnv) (target : Target) :
    sendTransaction L rb s T tr env target =
      if !env.kzallocTransaction || !env.kzallocComplete then
        failTransaction s T { inReplyTo := target.inReplyTo, code := .failedReply }
      else
        let s' : Driver := { s with txn := s.txn.alloc (newTransaction T tr target) }
        let r := binderAllocBuf L rb (s.proc.get target.proc).area env.alloc tr.dataSize
          tr.offsetsSize (!target.inReplyTo.isSome && tr.flags.oneWay)
        match r.2 with
        | none =>
          failTransaction ((s'.modProc target.proc fun p => { p with area := r.1 }).modTxn s.txn.next
            fun x => { x with freed := x.freed + 1 }) T
            { inReplyTo := target.inReplyTo, code := .failedReply }
        | some a =>
          let s₁ := placeBuffer s' tr target s.txn.next r.1 a
          match s₁.bufferAt (target.proc, a) with
          | none => s₁
          | some b => deliverBuffer L rb s₁ T s.txn.next tr env target a b := by
  unfold sendTransaction
  dsimp only
  congr 1
  generalize binderAllocBuf L rb (s.proc.get target.proc).area env.alloc tr.dataSize
    tr.offsetsSize (!target.inReplyTo.isSome && tr.flags.oneWay) = r
  obtain ⟨area, _ | a⟩ := r
  · rfl
  · simp only [placeBuffer, newTransaction]
    cases Driver.bufferAt _ (target.proc, a) <;> rfl

def binderTransaction (L : Layout) (rb : RbTree ℕ) (s : Driver) (T : ℕ) (tr : TransactionData)
    (reply : Bool) (env : TransactionEnv) : Driver :=
  match if reply then replyTarget s T else (s, callTarget s T tr) with
  | (s, .error f) => failTransaction s T f
  | (s, .ok target) => sendTransaction L rb s T tr env target

end Binder

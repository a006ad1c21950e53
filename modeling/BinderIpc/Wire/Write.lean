import BinderIpc.Wire.Commands

/-! `binder_thread_write` on the bytes of a stream of commands. `*consumed` and
`ptr - buffer` agree between commands, and no command reads its payload after it
has begun to act. -/

namespace Binder

inductive Errno
  | efault | einval
  deriving Repr, DecidableEq

/-- The user's memory from the start of the write buffer on. -/
structure UserMemory where
  byte : ℕ → UInt8
  fault : ℕ → Bool

def faults (fault : ℕ → Bool) (ptr n : ℕ) : Bool := (List.range n).any fun i => fault (ptr + i)

namespace UserMemory

variable (m : UserMemory)

/-- `get_user` of a `uint32_t` -/
def getUser32 (ptr : ℕ) : Except Errno (BitVec 32) :=
  if faults m.fault ptr 4 then .error .efault else .ok (word32 m.byte ptr)

/-- `get_user` of a `binder_uintptr_t` -/
def getUser64 (ptr : ℕ) : Except Errno (BitVec 64) :=
  if faults m.fault ptr 8 then .error .efault else .ok (word64 m.byte ptr)

/-- `copy_from_user` of a `struct binder_transaction_data` -/
def copyFromUser (ptr : ℕ) : Except Errno TransactionWords :=
  if faults m.fault ptr 64 then .error .efault else .ok (transactionAt m.byte ptr)

end UserMemory

def getRef (m : UserMemory) (c : RefCommand) (ptr : ℕ) : Except Errno (BcCommand × ℕ) := do
  let target ← m.getUser32 ptr
  return (.ref c target, ptr + 4)

def getRefDone (m : UserMemory) (strong : Bool) (ptr : ℕ) : Except Errno (BcCommand × ℕ) := do
  let nodePtr ← m.getUser64 ptr
  let cookie ← m.getUser64 (ptr + 8)
  return (.refDone strong nodePtr cookie, ptr + 16)

def getTransaction (m : UserMemory) (reply : Bool) (ptr : ℕ) : Except Errno (BcCommand × ℕ) := do
  let tr ← m.copyFromUser ptr
  return (.transaction reply tr, ptr + 64)

def getDeathRequest (m : UserMemory) (mk : BitVec 32 → BitVec 64 → BcCommand) (ptr : ℕ) :
    Except Errno (BcCommand × ℕ) := do
  let target ← m.getUser32 ptr
  let cookie ← m.getUser64 (ptr + 4)
  return (mk target cookie, ptr + 12)

/-- One turn of the loop up to the effects of the command, with the `ptr` it leaves. -/
def readCommand (kernel : PointerWidth) (m : UserMemory) (ptr : ℕ) :
    Except Errno (BcCommand × ℕ) := do
  let cmd ← m.getUser32 ptr
  let ptr := ptr + 4
  match BcCode.ofWord cmd with
  | some .increfs => getRef m .increfs ptr
  | some .acquire => getRef m .acquire ptr
  | some .release => getRef m .release ptr
  | some .decrefs => getRef m .decrefs ptr
  | some .increfsDone => getRefDone m false ptr
  | some .acquireDone => getRefDone m true ptr
  | some .attemptAcquire | some .acquireResult => .error .einval
  | some .freeBuffer =>
    let dataPtr ← m.getUser64 ptr
    return (.freeBuffer dataPtr, ptr + 8)
  | some .transaction => getTransaction m false ptr
  | some .reply => getTransaction m true ptr
  | some .registerLooper => return (.registerLooper, ptr)
  | some .enterLooper => return (.enterLooper, ptr)
  | some .exitLooper => return (.exitLooper, ptr)
  | some .requestDeathNotification => getDeathRequest m .requestDeathNotification ptr
  | some .clearDeathNotification => getDeathRequest m .clearDeathNotification ptr
  | some .deadBinderDone =>
    let cookie ← m.getUser64 ptr
    -- `ptr += sizeof(void *)`
    return (.deadBinderDone cookie, ptr + kernel.bytes)
  | none => .error .einval

/-- What the commands do, and whether `thread->return_error` is `BR_OK`. -/
structure Handler (σ : Type*) where
  ok : σ → Bool
  exec : σ → BcCommand → σ

/-- `trace` lists the executed commands, each with the `*consumed` it left. -/
structure WriteState (σ : Type*) where
  state : σ
  consumed : ℕ := 0
  trace : List (BcCommand × ℕ) := []

variable {σ : Type*}

def WriteState.did (w : WriteState σ) (h : Handler σ) (c : BcCommand) (ptr : ℕ) : WriteState σ where
  state := h.exec w.state c
  consumed := ptr
  trace := w.trace ++ [(c, ptr)]

def writeLoop (kernel : PointerWidth) (h : Handler σ) (m : UserMemory) (size : ℕ) :
    ℕ → WriteState σ → WriteState σ × Except Errno Unit
  | 0, w => (w, .ok ())
  | k + 1, w =>
    if w.consumed < size ∧ h.ok w.state = true then
      match readCommand kernel m w.consumed with
      | .error e => (w, .error e)
      | .ok (c, ptr) => writeLoop kernel h m size k (w.did h c ptr)
    else (w, .ok ())

/-- Every command takes 4 bytes at least. -/
def binderThreadWrite (kernel : PointerWidth) (h : Handler σ) (m : UserMemory) (size : ℕ)
    (w : WriteState σ) : WriteState σ × Except Errno Unit :=
  writeLoop kernel h m size (size - w.consumed) w

/-- One call. Before it, everything else that may happen to the state has happened. -/
structure Round (σ : Type*) where
  before : σ → σ := id
  /-- memory behind the stream -/
  rest : ℕ → UInt8 := fun _ => 0
  fault : ℕ → Bool := fun _ => false

/-- The stream is submitted again and again, each time from `*consumed` on. -/
def submitAll (user kernel : PointerWidth) (h : Handler σ) (xs : List Written)
    (rounds : List (Round σ)) (s : σ) : WriteState σ × Except Errno Unit :=
  rounds.foldl (fun r round =>
    binderThreadWrite kernel h ⟨overlay (streamBytes user xs) round.rest, round.fault⟩
      (streamBytes user xs).length { r.1 with state := round.before r.1.state })
    ({ state := s }, .ok ())

/-! What is meant to happen -/

/-- The error that keeps a command, which lies at `ptr`, from being executed. -/
def Written.refusal (user : PointerWidth) (fault : ℕ → Bool) (ptr : ℕ) (x : Written) : Option Errno :=
  if faults fault ptr 4 then some .efault
  else if (x.meant user).unsupported then some .einval
  else if faults fault (ptr + 4) ((x.bytes user).length - 4) then some .efault
  else none

/-- The commands are executed one by one until an error stops them. -/
def obey (user : PointerWidth) (h : Handler σ) (fault : ℕ → Bool) :
    List Written → WriteState σ → WriteState σ × Except Errno Unit
  | [], w => (w, .ok ())
  | x :: xs, w =>
    if h.ok w.state = true then
      match x.refusal user fault w.consumed with
      | some e => (w, .error e)
      | none => obey user h fault xs (w.did h (x.meant user) (w.consumed + (x.bytes user).length))
    else (w, .ok ())

/-- Each round goes on behind the commands that were executed before. -/
def obeyAll (user : PointerWidth) (h : Handler σ) (xs : List Written) (rounds : List (Round σ))
    (s : σ) : WriteState σ × Except Errno Unit :=
  rounds.foldl (fun r round =>
    obey user h round.fault (xs.drop r.1.trace.length)
      { r.1 with state := round.before r.1.state })
    ({ state := s }, .ok ())

/-- Writer and driver agree on the width of a pointer in the command. -/
def Written.Fits (user kernel : PointerWidth) : Written → Prop
  | command (.deadBinderDone _) => kernel = .eight
  | binderDone _ => user = .eight
  | _ => True

/-! Reading a command back -/

section

variable {fault : ℕ → Bool} {m : UserMemory} {ptr : ℕ} {kernel user : PointerWidth}

theorem faults_add (a b : ℕ) :
    faults fault ptr (a + b) = (faults fault ptr a || faults fault (ptr + a) b) := by
  simp [faults, List.range_add, Function.comp_def, Nat.add_assoc]

/-- How far the driver moves behind a command. -/
def BcCommand.advance (kernel : PointerWidth) (c : BcCommand) : ℕ :=
  match c with
  | deadBinderDone _ => 4 + kernel.bytes
  | c => c.bytes.length

theorem BcCommand.length_bytes (c : BcCommand) : c.bytes.length = 4 + c.payload.length := by
  simp [bytes]

theorem readCommand_stored {c : BcCommand} (h : Stored m.byte ptr c.bytes) :
    readCommand kernel m ptr =
      if faults m.fault ptr 4 then .error .efault
      else if c.unsupported then .error .einval
      else if faults m.fault (ptr + 4) c.payload.length then .error .efault
      else .ok (c, ptr + c.advance kernel) := by
  rw [BcCommand.bytes, stored_append, length_le32] at h
  obtain ⟨hcode, hload⟩ := h
  unfold readCommand UserMemory.getUser32
  by_cases hf : faults m.fault ptr 4 = true
  · simp [hf, bind, Except.bind]
  simp only [hf, Bool.false_eq_true, if_false, hcode.word32_eq, bind, Except.bind,
    BcCode.ofWord_word]
  have h12 : faults m.fault (ptr + 4) 12 =
      (faults m.fault (ptr + 4) 4 || faults m.fault (ptr + 4 + 4) 8) := faults_add 4 8
  have h16 : faults m.fault (ptr + 4) 16 =
      (faults m.fault (ptr + 4) 8 || faults m.fault (ptr + 4 + 8) 8) := faults_add 8 8
  cases c with
  | ref c target =>
    have ht : word32 m.byte (ptr + 4) = target := Stored.word32_eq hload
    cases c <;> by_cases hp : faults m.fault (ptr + 4) 4 = true <;>
      simp [BcCommand.code, RefCommand.bcCode, getRef, UserMemory.getUser32, bind, Except.bind,
        pure, Except.pure, BcCommand.payload, BcCommand.unsupported, BcCommand.advance,
        BcCommand.bytes, ht, hp, Nat.add_assoc]
  | refDone strong p cookie =>
    rw [BcCommand.payload, stored_append, length_le64] at hload
    have h1 := hload.1.word64_eq
    have h2 := hload.2.word64_eq
    cases strong <;> by_cases hp : faults m.fault (ptr + 4) 8 = true <;>
      by_cases hq : faults m.fault (ptr + 4 + 8) 8 = true <;>
      simp [BcCommand.code, getRefDone, UserMemory.getUser64, bind, Except.bind,
        pure, Except.pure, BcCommand.payload, BcCommand.unsupported, BcCommand.advance,
        BcCommand.bytes, h1, h2, h16, hp, hq, Nat.add_assoc]
  | freeBuffer p =>
    have h1 : word64 m.byte (ptr + 4) = p := Stored.word64_eq hload
    by_cases hp : faults m.fault (ptr + 4) 8 = true <;>
      simp [BcCommand.code, UserMemory.getUser64, pure, Except.pure, BcCommand.payload,
        BcCommand.unsupported, BcCommand.advance, BcCommand.bytes, h1, hp, Nat.add_assoc]
  | transaction reply tr =>
    have h1 : transactionAt m.byte (ptr + 4) = tr := Stored.transactionAt_eq hload
    cases reply <;> by_cases hp : faults m.fault (ptr + 4) 64 = true <;>
      simp [BcCommand.code, getTransaction, UserMemory.copyFromUser, bind, Except.bind, pure,
        Except.pure, BcCommand.payload, BcCommand.unsupported, BcCommand.advance, BcCommand.bytes,
        h1, hp, Nat.add_assoc]
  | registerLooper | enterLooper | exitLooper =>
    simp [BcCommand.code, pure, Except.pure, BcCommand.payload, BcCommand.unsupported,
      BcCommand.advance, BcCommand.bytes, faults]
  | requestDeathNotification target cookie | clearDeathNotification target cookie =>
    rw [BcCommand.payload, stored_append, length_le32] at hload
    have h1 := hload.1.word32_eq
    have h2 := hload.2.word64_eq
    by_cases hp : faults m.fault (ptr + 4) 4 = true <;>
      by_cases hq : faults m.fault (ptr + 4 + 4) 8 = true <;>
      simp [BcCommand.code, getDeathRequest, UserMemory.getUser32, UserMemory.getUser64, bind,
        Except.bind, pure, Except.pure, BcCommand.payload, BcCommand.unsupported,
        BcCommand.advance, BcCommand.bytes, h1, h2, h12, hp, hq, Nat.add_assoc]
  | deadBinderDone cookie =>
    have h1 : word64 m.byte (ptr + 4) = cookie := Stored.word64_eq hload
    by_cases hp : faults m.fault (ptr + 4) 8 = true <;>
      simp [BcCommand.code, UserMemory.getUser64, pure, Except.pure, BcCommand.payload,
        BcCommand.unsupported, BcCommand.advance, h1, hp, Nat.add_assoc]
  | attemptAcquire | acquireResult => simp [BcCommand.code, BcCommand.unsupported]

end

end Binder

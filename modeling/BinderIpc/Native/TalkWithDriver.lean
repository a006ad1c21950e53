import BinderIpc.Lib.Run

/-! `IPCThreadState::talkWithDriver`: how the commands of one thread leave `mOut`.
The driver's side is what `binder_ioctl_write_read` may do with the bytes it is
given. -/

namespace Binder

/-- How `ioctl` comes back: `err` after the call, or that the driver is closed. -/
inductive IoctlError
  | noError | eintr | other
  deriving Repr, DecidableEq

/-- One call of `ioctl`. -/
inductive IoctlResult
  /-- `bwr` was copied back, after `consumed` more bytes of the commands -/
  | copied (consumed readConsumed : ℕ) (err : IoctlError)
  /-- `copy_to_user` failed; the result is `-EFAULT` and `bwr` is as it was -/
  | fault (consumed : ℕ)
  deriving Repr, DecidableEq

def IoctlResult.consumed : IoctlResult → ℕ
  | copied consumed _ _ => consumed
  | fault consumed => consumed

/-- `struct binder_write_read` while `talkWithDriver` loops. -/
structure WriteRead where
  writeSize : ℕ
  writeConsumed : ℕ := 0
  readSize : ℕ
  deriving Repr, DecidableEq

structure ThreadQueues where
  mOut : List UInt8 := []
  /-- the bytes of `mIn` that are still to be read -/
  mInAvail : ℕ := 0
  mInCapacity : ℕ := 256
  /-- the call of `talkWithDriver` that is under way -/
  bwr : Option WriteRead := none
  /-- `Parcel::remove` has ended the process -/
  aborted : Bool := false
  /-- everything that was appended to `mOut` -/
  appended : List UInt8 := []
  /-- everything that the driver consumed, in order -/
  consumed : List UInt8 := []
  deriving Repr, DecidableEq

inductive QueueAct
  | append (bs : List UInt8)
  /-- commands are read from `mIn` -/
  | read (n : ℕ)
  | talkWithDriver (doReceive : Bool)
  | ioctl (r : IoctlResult)
  deriving Repr, DecidableEq

namespace ThreadQueues

variable (remove : List UInt8 → ℕ → Option (List UInt8)) (q : ThreadQueues)

def talkWithDriver (doReceive : Bool) : ThreadQueues :=
  let needRead := q.mInAvail = 0
  let outAvail := if doReceive = false ∨ needRead then q.mOut.length else 0
  let readSize := if doReceive = true ∧ needRead then q.mInCapacity else 0
  if outAvail = 0 ∧ readSize = 0 then q
  else { q with bwr := some { writeSize := outAvail, readSize := readSize } }

/-- The driver works through the commands from `write_consumed` on. -/
def consume (bwr : WriteRead) (n : ℕ) : ThreadQueues :=
  { q with consumed := q.consumed ++ (q.mOut.drop bwr.writeConsumed).take n }

/-- The part of `mOut` that was consumed goes. -/
def trimOut (writeConsumed : ℕ) : ThreadQueues :=
  if 0 < writeConsumed then
    if writeConsumed < q.mOut.length then
      match remove q.mOut writeConsumed with
      | some mOut => { q with bwr := none, mOut := mOut }
      | none => { q with bwr := none, aborted := true }
    else { q with bwr := none, mOut := [] }
  else { q with bwr := none }

/-- After the loop, when `err >= NO_ERROR`. -/
def finish (bwr : WriteRead) (readConsumed : ℕ) : ThreadQueues :=
  if 0 < readConsumed then { q.trimOut remove bwr.writeConsumed with mInAvail := readConsumed }
  else q.trimOut remove bwr.writeConsumed

def ioctl (bwr : WriteRead) (r : IoctlResult) : ThreadQueues :=
  let q := q.consume bwr r.consumed
  match r with
  | .fault _ => { q with bwr := none }
  | .copied n readConsumed err =>
    let bwr := { bwr with writeConsumed := bwr.writeConsumed + n }
    match err with
    | .noError => q.finish remove bwr readConsumed
    | .eintr => { q with bwr := some bwr }
    | .other => { q with bwr := none }

def step (act : QueueAct) : ThreadQueues :=
  if q.aborted then q
  else
    match q.bwr, act with
    | none, .append bs => { q with mOut := q.mOut ++ bs, appended := q.appended ++ bs }
    | none, .read n => { q with mInAvail := q.mInAvail - n }
    | none, .talkWithDriver doReceive => q.talkWithDriver doReceive
    | some bwr, .ioctl r => q.ioctl remove bwr r
    | _, _ => q

end ThreadQueues

/-- The thread, with `Parcel::remove` from the start of the queue; it may abort. -/
def queueMachine (remove : List UInt8 → ℕ → Option (List UInt8)) :
    Machine ThreadQueues QueueAct where
  start q := ∃ mInCapacity, q = { mInCapacity := mInCapacity }
  step q act := q.step remove act

/-- The driver consumes what it is given at most, and a call that ends with an error has
consumed nothing. -/
def CleanErrors (q : ThreadQueues) : QueueAct → Prop
  | .ioctl r => ∀ bwr, q.bwr = some bwr → bwr.writeConsumed + r.consumed ≤ bwr.writeSize ∧
    match r with
    | .fault consumed => bwr.writeConsumed + consumed = 0
    | .copied consumed _ err => err = .other → bwr.writeConsumed + consumed = 0
  | .append _ | .read _ | .talkWithDriver _ => True

/-- What is queued is what the driver has not consumed. -/
structure QueueInv (q : ThreadQueues) : Prop where
  size : ∀ bwr, q.bwr = some bwr →
    bwr.writeSize ≤ q.mOut.length ∧ bwr.writeConsumed ≤ bwr.writeSize
  split : q.aborted = false →
    q.appended = q.consumed ++ q.mOut.drop (q.bwr.elim 0 WriteRead.writeConsumed)
  sent : q.consumed <+: q.appended

section

variable {remove : List UInt8 → ℕ → Option (List UInt8)} {q : ThreadQueues} {act : QueueAct}

theorem QueueInv.talkWithDriver (hi : QueueInv q) (hb : q.bwr = none) (doReceive : Bool) :
    QueueInv (q.talkWithDriver doReceive) := by
  unfold ThreadQueues.talkWithDriver
  dsimp only
  have hout : (if doReceive = false ∨ q.mInAvail = 0 then q.mOut.length else 0) ≤ q.mOut.length := by
    split_ifs <;> omega
  generalize (if doReceive = false ∨ q.mInAvail = 0 then q.mOut.length else 0) = outAvail at hout ⊢
  generalize (if doReceive = true ∧ q.mInAvail = 0 then q.mInCapacity else 0) = readSize
  split_ifs
  · exact hi
  · refine ⟨fun bwr hbwr => ?_, fun ha => ?_, hi.sent⟩
    · cases hbwr
      exact ⟨hout, Nat.zero_le _⟩
    · exact (hi.split ha).trans (by rw [hb]; rfl)

/-- The bytes that a call consumes are the next ones. -/
theorem drop_consume (l : List UInt8) (c n : ℕ) :
    (l.drop c).take n ++ l.drop (c + n) = l.drop c := by
  rw [← List.drop_drop, List.take_append_drop]

theorem QueueInv.trimOut (hremove : ∀ l n, remove l n = none ∨ remove l n = some (l.drop n))
    {n : ℕ} (hsplit : q.appended = q.consumed ++ q.mOut.drop n) : QueueInv (q.trimOut remove n) := by
  have hsent : q.consumed <+: q.appended := ⟨_, hsplit.symm⟩
  unfold ThreadQueues.trimOut
  split_ifs with hpos hlt
  · rcases hremove q.mOut n with hr | hr
    · rw [hr]
      exact ⟨fun _ hb => (by cases hb), fun ha => (by cases ha), hsent⟩
    · rw [hr]
      exact ⟨fun _ hb => (by cases hb), fun _ => hsplit, hsent⟩
  · -- everything was consumed
    rw [List.drop_eq_nil_of_le (by omega)] at hsplit
    exact ⟨fun _ hb => (by cases hb), fun _ => hsplit, hsent⟩
  · obtain rfl : n = 0 := by omega
    exact ⟨fun _ hb => (by cases hb), fun _ => hsplit, hsent⟩

theorem QueueInv.finish (hremove : ∀ l n, remove l n = none ∨ remove l n = some (l.drop n))
    {bwr : WriteRead} (readConsumed : ℕ)
    (hsplit : q.appended = q.consumed ++ q.mOut.drop bwr.writeConsumed) :
    QueueInv (q.finish remove bwr readConsumed) := by
  have ht := QueueInv.trimOut hremove hsplit
  unfold ThreadQueues.finish
  split_ifs
  · exact ⟨ht.size, ht.split, ht.sent⟩
  · exact ht

theorem QueueInv.step (hremove : ∀ l n, remove l n = none ∨ remove l n = some (l.drop n))
    (hi : QueueInv q) (hok : CleanErrors q act) : QueueInv (q.step remove act) := by
  unfold ThreadQueues.step
  split_ifs with ha
  · exact hi
  have ha : q.aborted = false := by simpa using ha
  have hsplit := hi.split ha
  cases hb : q.bwr with
  | none =>
    rw [hb] at hsplit
    have hsplit : q.appended = q.consumed ++ q.mOut := hsplit
    cases act with
    | append bs =>
      have happ : q.appended ++ bs = q.consumed ++ (q.mOut ++ bs) := by
        rw [hsplit, List.append_assoc]
      exact ⟨fun bwr hbwr => (by cases hbwr), fun _ => happ, ⟨_, happ.symm⟩⟩
    | read n => exact ⟨fun bwr hbwr => (by cases hbwr), fun _ => hsplit, hi.sent⟩
    | talkWithDriver doReceive => exact hi.talkWithDriver hb doReceive
    | ioctl r => exact hi
  | some bwr =>
    cases act with
    | append bs => exact hi
    | read n => exact hi
    | talkWithDriver doReceive => exact hi
    | ioctl r =>
      obtain ⟨hsize, hclean⟩ := hok bwr hb
      have hlen := (hi.size bwr hb).1
      rw [hb] at hsplit
      have hnext : q.appended = (q.consumed ++ (q.mOut.drop bwr.writeConsumed).take r.consumed) ++
          q.mOut.drop (bwr.writeConsumed + r.consumed) := by
        rw [List.append_assoc, drop_consume]
        exact hsplit
      -- an error that ends the call leaves the whole queue to the next one
      have hend : bwr.writeConsumed + r.consumed = 0 →
          QueueInv { q.consume bwr r.consumed with bwr := none } := fun h0 => by
        rw [h0] at hnext
        exact ⟨fun bwr hbwr => (by cases hbwr), fun _ => hnext, ⟨_, hnext.symm⟩⟩
      dsimp only
      unfold ThreadQueues.ioctl
      cases r with
      | fault n => exact hend hclean
      | copied n readConsumed err =>
        cases err with
        | noError => exact QueueInv.finish hremove readConsumed hnext
        | eintr =>
          refine ⟨fun bwr' hbwr => ?_, fun _ => hnext, ⟨_, hnext.symm⟩⟩
          cases hbwr
          exact ⟨hlen, hsize⟩
        | other => exact hend (hclean rfl)

/-- When no call ends with an error after it consumed commands, every byte reaches the driver
once and in order: what it consumed, followed by what is still queued, is what was appended. -/
theorem commands_sent_once (hremove : ∀ l n, remove l n = none ∨ remove l n = some (l.drop n))
    (h : (queueMachine remove).Reach CleanErrors q) :
    q.consumed <+: q.appended ∧ (q.aborted = false → q.bwr = none →
      q.appended = q.consumed ++ q.mOut) := by
  have hi : QueueInv q := by
    refine h.invariant (I := QueueInv) (fun q hq => ?_) fun q act hi hok => hi.step hremove hok
    obtain ⟨mInCapacity, rfl⟩ := hq
    exact ⟨fun bwr hbwr => (by cases hbwr), fun _ => rfl, List.prefix_refl _⟩
  exact ⟨hi.sent, fun ha hb => by simpa [hb] using hi.split ha⟩

/-- `BC_FREE_BUFFER` and `BC_RELEASE` go out together, the second waits for a signal to pass. -/
def splitRun : List QueueAct :=
  [.append [3, 99, 8, 64, 0, 0, 0, 0, 0, 0, 0, 1], .append [6, 99, 4, 64, 5, 0, 0, 0],
    .talkWithDriver true, .ioctl (.copied 12 0 .eintr), .ioctl (.copied 8 4 .noError)]

theorem commands_sent_once_split :
    ((queueMachine fun l n => some (l.drop n)).exec {} splitRun).consumed <+:
        ((queueMachine fun l n => some (l.drop n)).exec {} splitRun).appended ∧
      ((queueMachine fun l n => some (l.drop n)).exec {} splitRun).consumed.length = 20 := by
  have h0 : (queueMachine fun l n => some (l.drop n)).Reach CleanErrors {} := .start ⟨256, rfl⟩
  have hadm : (queueMachine fun l n => some (l.drop n)).Admits CleanErrors {} splitRun := by
    refine ⟨trivial, trivial, trivial, fun bwr hbwr => ?_, fun bwr hbwr => ?_, trivial⟩
    · cases hbwr
      exact ⟨by decide, fun h => (by cases h)⟩
    · cases hbwr
      exact ⟨by decide, fun h => (by cases h)⟩
  exact ⟨(commands_sent_once (fun _ _ => .inr rfl) (h0.exec hadm)).1, by decide +kernel⟩

/-- The first command is consumed, the second makes the call fail; both are sent again. -/
def resentRun : List QueueAct :=
  [.append [3, 99, 8, 64, 0, 0, 0, 0, 0, 0, 0, 1], .append [6, 99, 4, 64, 5, 0, 0, 0],
    .talkWithDriver true, .ioctl (.copied 12 0 .other), .talkWithDriver true,
    .ioctl (.copied 20 4 .noError)]

theorem command_sent_twice :
    ((queueMachine fun l n => some (l.drop n)).exec {} resentRun).consumed =
        [3, 99, 8, 64, 0, 0, 0, 0, 0, 0, 0, 1, 3, 99, 8, 64, 0, 0, 0, 0, 0, 0, 0, 1,
          6, 99, 4, 64, 5, 0, 0, 0] ∧
      ¬((queueMachine fun l n => some (l.drop n)).exec {} resentRun).consumed <+:
        ((queueMachine fun l n => some (l.drop n)).exec {} resentRun).appended := by
  decide +kernel

end

end Binder

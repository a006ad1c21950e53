import BinderIpc.Driver.Grows
import BinderIpc.Wire.ReadFraming

/-! The jumps to `retry` in `binder_thread_read`: what a thread waits for when it
has found no work. The results hold for every number of turns of the loop before
the jump. -/

namespace Binder

open Driver

section

variable {L : Layout} {s s' : Driver} {T k ptr : ℕ} {f f' : ReadFrame} {fault : ℕ → Bool}

/-- No wait begins. -/
def Scope.awake : Scope := { Scope.any with waits := fun _ => False }

theorem readDone_awake (h : (s.thread.get T).asleep = none) (fault : ℕ → Bool) (ptr : ℕ) :
    ((readDone s T ptr fault).thread.get T).asleep = none := by
  by_contra hne
  exact ((readDone_grows (K := .awake) s T fault ptr).asleep T hne).elim (absurd h) id

theorem readItem_awake (h : (s.thread.get T).asleep = none) (fault : ℕ → Bool) (w : Work) (ptr : ℕ) :
    ((readItem s T ptr fault w).1.thread.get T).asleep = none := by
  by_contra hne
  exact ((readItem_grows (K := .awake) s T fault (fun _ _ => trivial) w ptr).asleep T hne).elim
    (absurd h) id

/-- A wait that `waitForWork` begins, and what the thread waits for. -/
theorem waitForWork_asleep (h : (s.thread.get T).asleep = none) {size : ℕ} {nonBlock : Bool}
    (hf : ((waitForWork s T size ptr nonBlock fault).thread.get T).asleep = some f) :
    f = { size := size, ptr := ptr, nonBlock := nonBlock,
          waitForProcWork := (s.thread.get T).transactionStack.isNone &&
            s.obj.todo.isEmpty (.threadTodo T) } ∧
      ((s.thread.get T).returnError ≠ .ok → size ≤ ptr) ∧
      (waitForWork s T size ptr nonBlock fault).obj = s.obj ∧
      ((waitForWork s T size ptr nonBlock fault).thread.get T).looper = (s.thread.get T).looper ∧
      ((waitForWork s T size ptr nonBlock fault).thread.get T).proc = (s.thread.get T).proc ∧
      ((waitForWork s T size ptr nonBlock fault).thread.get T).returnError =
        (s.thread.get T).returnError ∧
      ((waitForWork s T size ptr nonBlock fault).thread.get T).transactionStack =
        (s.thread.get T).transactionStack := by
  unfold waitForWork at hf ⊢
  dsimp only at hf ⊢
  by_cases herr : (s.thread.get T).returnError ≠ .ok ∧ ptr < size
  · -- the error is reported, and the call returns
    rw [if_pos herr] at hf
    have hnone : ((reportErrors s T size ptr fault).thread.get T).asleep = none := by
      by_contra hne
      exact ((reportErrors_grows (K := .awake) s T fault size ptr).asleep T hne).elim (absurd h) id
    rw [hnone] at hf
    cases hf
  · rw [if_neg herr] at hf ⊢
    have hle : (s.thread.get T).returnError ≠ .ok → size ≤ ptr := fun hne =>
      Nat.le_of_not_lt fun hlt => herr ⟨hne, hlt⟩
    split_ifs at hf ⊢
    all_goals
      simp only [Driver.modThread, Driver.modProc, Heap.get_modify_self, Option.some.injEq] at hf ⊢
      exact ⟨hf.symm, hle, by simp⟩

/-- What the loop has found when it jumps to `retry`. -/
theorem readLoop_asleep (h : (s.thread.get T).asleep = none)
    (hf : ((readLoop L T f fault k s ptr).thread.get T).asleep = some f') :
    ∃ s₀ : Driver, (s₀.thread.get T).asleep = none ∧ nextWork s₀ T f.waitForProcWork = none ∧
      (s₀.thread.get T).looper.needReturn = false ∧
      readLoop L T f fault k s ptr = waitForWork s₀ T f.size 4 f.nonBlock fault := by
  induction k generalizing s ptr with
  | zero =>
    have hf : (s.thread.get T).asleep = some f' := hf
    rw [h] at hf
    cases hf
  | succ k ih =>
    unfold readLoop at hf ⊢
    cases hw : nextWork s T f.waitForProcWork with
    | none =>
      rw [hw] at hf
      dsimp only at hf ⊢
      by_cases hr : ptr = 4 ∧ (s.thread.get T).looper.needReturn = false
      · obtain ⟨rfl, hr⟩ := hr
        rw [if_pos ⟨rfl, hr⟩]
        exact ⟨s, h, hw, hr, rfl⟩
      · rw [if_neg hr, readDone_awake h] at hf
        cases hf
    | some w =>
      rw [hw] at hf
      dsimp only at hf ⊢
      by_cases hroom : noRoom L f.size ptr = true
      · rw [if_pos hroom, readDone_awake h] at hf
        cases hf
      · rw [if_neg hroom] at hf ⊢
        have hitem := readItem_awake h fault w ptr
        generalize readItem s T ptr fault w = r at hf hitem ⊢
        obtain ⟨s₁, turn⟩ := r
        cases turn with
        | next n => exact ih hitem hf
        | fault =>
          rw [hitem] at hf
          cases hf
        | done n =>
          rw [readDone_awake hitem] at hf
          cases hf

/-- A jump to `retry` that leads to a wait: the thread waits for nothing that is there already,
unless it waited for its own work before and the process has work now, or it has a transaction
stack and an error pending that the buffer has no room for. -/
structure Retried (f : ReadFrame) (s' : Driver) (T : ℕ) (f' : ReadFrame) : Prop where
  frame : f'.size = f.size ∧ f'.ptr = 4 ∧ f'.verdict = none
  waits : hasWork s' T f'.waitForProcWork = false ∨
    (f.waitForProcWork = false ∧ f'.waitForProcWork = true ∧
      ∃ w, nextWork s' T true = some w ∧ s'.obj.todo.first (.procTodo (s'.thread.get T).proc) = some w) ∨
    ((s'.thread.get T).transactionStack.isSome = true ∧
      (s'.thread.get T).returnError ≠ .ok ∧ f.size ≤ 4)

theorem readLoop_retried (h : (s.thread.get T).asleep = none)
    (hf : ((readLoop L T f fault k s ptr).thread.get T).asleep = some f') :
    Retried f (readLoop L T f fault k s ptr) T f' := by
  obtain ⟨s₀, hawake, hnext, hret, heq⟩ := readLoop_asleep h hf
  rw [heq] at hf ⊢
  obtain ⟨rfl, herr, hobj, hlooper, hproc, hre, hstack⟩ := waitForWork_asleep hawake hf
  refine ⟨⟨rfl, rfl, rfl⟩, ?_⟩
  -- the thread's own list is empty, and the list of the process if the thread waited for it
  have hown : s₀.obj.todo.first (.threadTodo T) = none := by
    cases hfirst : s₀.obj.todo.first (.threadTodo T) with
    | none => rfl
    | some w =>
      simp only [nextWork, hfirst] at hnext
      cases hnext
  have hown' : s₀.obj.todo.isEmpty (.threadTodo T) = true := Queues.first_none.1 hown
  have hall : f.waitForProcWork = true →
      s₀.obj.todo.first (.procTodo (s₀.thread.get T).proc) = none := fun hw => by
    simpa only [nextWork, hown, hw, if_true] using hnext
  dsimp only
  unfold hasWork nextWork
  dsimp only
  rw [hobj, hlooper, hproc, hre, hstack, hret, hown', hown]
  cases hst : (s₀.thread.get T).transactionStack.isNone with
  | true =>
    cases hp : s₀.obj.todo.first (.procTodo (s₀.thread.get T).proc) with
    | none =>
      left
      simp [Queues.first_none.1 hp]
    | some w =>
      right
      left
      refine ⟨?_, rfl, w, rfl, rfl⟩
      by_contra hw
      rw [hall (by simpa using hw)] at hp
      cases hp
  | false =>
    by_cases hok : (s₀.thread.get T).returnError = .ok
    · left
      simp [hok]
    · exact .inr (.inr ⟨Option.isNone_eq_false_iff.1 hst, hok, herr hok⟩)

/-- An error that the buffer has no room for: the thread is back at the start of its wait, with
work to do, after one turn, and nothing has changed. -/
theorem pending_error_spins (hroom : f.size ≤ 4)
    (hf : (s.thread.get T).asleep =
      some { f with ptr := 4, waitForProcWork := false, verdict := some true })
    (herr : (s.thread.get T).returnError ≠ .ok)
    (hstack : (s.thread.get T).transactionStack.isSome)
    (hempty : s.obj.todo.isEmpty (.threadTodo T) = true)
    (hret : (s.thread.get T).looper.needReturn = false) :
    lookForWork (resumeRead L s T fault) T = s := by
  set g : ReadFrame := { f with ptr := 4, waitForProcWork := false, verdict := some true } with hg
  have hfirst : s.obj.todo.first (.threadTodo T) = none := Queues.first_none.2 hempty
  have hstack' : (s.thread.get T).transactionStack.isNone = false := by
    rwa [Option.isNone_eq_false_iff]
  have hresume : resumeRead L s T fault = s.modThread T fun y =>
      { y with asleep := some { g with verdict := none } } := by
    have hloop : readLoop L T g fault (readFuel s) (stopWaiting s T g) 4 =
        waitForWork (stopWaiting s T g) T g.size 4 g.nonBlock fault := by
      simp [readFuel, readLoop, nextWork, stopWaiting, Driver.modThread, hfirst, hret, hg]
    have hwait : waitForWork (stopWaiting s T g) T g.size 4 g.nonBlock fault =
        s.modThread T fun y => { y with asleep := some { g with verdict := none } } := by
      simp [waitForWork, stopWaiting, Driver.modThread, Heap.modify_modify, hstack', hroom, hg]
    unfold resumeRead
    rw [hf]
    exact hloop.trans hwait
  rw [hresume]
  have hlook : lookForWork (s.modThread T fun y =>
      { y with asleep := some { g with verdict := none } }) T = s.modThread T fun y =>
        { y with asleep := some g } := by
    simp [lookForWork, hasWork, Driver.modThread, Heap.modify_modify, herr, hg]
  rw [hlook]
  have hsame : s.thread.modify T (fun y => { y with asleep := some g }) = s.thread := by
    have hget : (s.thread.modify T fun y => { y with asleep := some g }).get = s.thread.get := by
      funext j
      by_cases hj : j = T
      · subst hj
        rw [Heap.get_modify_self, ← hf]
      · rw [Heap.get_modify_ne _ _ _ _ hj]
    exact congrArg (Heap.mk s.thread.next) hget
  unfold Driver.modThread
  rw [hsame]

end

/-- Every jump to `retry` in a reachable state, after any number of turns of the loop. -/
theorem retry_waits {L : Layout} {rb : RbTree ℕ} {s : Driver}
    (_h : (driverMachine L rb).Reach (fun _ _ => True) s) (T : ℕ) (f : ReadFrame)
    (fault : ℕ → Bool) (k : ℕ) (f' : ReadFrame)
    (hf : ((readLoop L T f fault k (stopWaiting s T f) f.ptr).thread.get T).asleep = some f') :
    Retried f (readLoop L T f fault k (stopWaiting s T f) f.ptr) T f' := by
  refine readLoop_retried ?_ hf
  simp [stopWaiting, Driver.modThread]

/-- One object of type `BINDER_TYPE_BINDER`, sent one way to the context manager. -/
def binderObject (ptr : ℕ) : TransactionData where
  flags := { oneWay := true }
  dataSize := 24
  offsetsSize := 8
  data := [ObjectType.binder.code, 0, ptr]
  offsets := [0]

/-- Thread 0 finds on its own list nothing but a node that needs no command any more, while a
transaction waits for its process. -/
def rewaiting : List Action :=
  [.openProc 50, .getThread 0 50, .setContextMgr 0 1000 true, .mmap 0 0x10000 0x8000 {},
    .openProc 100, .getThread 1 100, .mmap 1 0x10000 0x8000 {},
    .write 1 (.transaction (binderObject 0x1000)) {},
    .write 0 (.transaction { binderObject 0x2000 with handle := 1 }) {},
    .write 0 (.transaction { binderObject 0x2000 with offsetsSize := 16, offsets := [0, 1] }) {},
    .read 0 256 0 false fun _ => false, .ioctlDone 0] ++
  -- one command of the node in each read
  (List.replicate 3 [.read 0 72 0 false fun _ => false, .lookForWork 0,
    .resume 0 fun _ => false]).flatten ++
  [.read 0 72 0 false fun _ => false, .lookForWork 0]

/-- The frame of thread 0 in its last read. -/
def rewaitingFrame : ReadFrame := { size := 72, ptr := 4, verdict := some true }

theorem rewaiting_asleep : ((readLoop layout32 0 rewaitingFrame (fun _ => false) 10
    (stopWaiting (afterActions rewaiting) 0 rewaitingFrame) rewaitingFrame.ptr).thread.get 0).asleep =
      some { size := 72, ptr := 4, waitForProcWork := true } := by decide +kernel

theorem retry_waits_rewaiting :
    Retried rewaitingFrame
      (readLoop layout32 0 rewaitingFrame (fun _ => false) 10
        (stopWaiting (afterActions rewaiting) 0 rewaitingFrame) 4) 0
      { size := 72, ptr := 4, waitForProcWork := true } :=
  retry_waits (reach_afterActions rewaiting) 0 rewaitingFrame (fun _ => false) 10 _ rewaiting_asleep

/-- The wait of thread 0 for work of its process is over before it begins. -/
theorem retry_over_at_once : ¬∀ s, (driverMachine layout32 .plain).Reach (fun _ _ => True) s →
    ∀ T f, (s.thread.get T).asleep = some f → f.verdict = some true → ∀ k f',
      ((readLoop layout32 T f (fun _ => false) k (stopWaiting s T f) f.ptr).thread.get T).asleep =
        some f' →
      hasWork (readLoop layout32 T f (fun _ => false) k (stopWaiting s T f) f.ptr) T
        f'.waitForProcWork = false := by
  intro hall
  have hwork := hall _ (reach_afterActions rewaiting) 0 rewaitingFrame (by decide +kernel) rfl 10 _
    rewaiting_asleep
  revert hwork
  decide +kernel

/-- Thread 1 waits for a reply, and has no room for the error of a call it made meanwhile. -/
def noRoomForError : List Action :=
  callingClient ++ [.read 1 256 0 false fun _ => false, .lookForWork 1, .resume 1 fun _ => false,
    .ioctlDone 1, .write 1 (.transaction { handle := 99 }) {}, .read 1 4 0 false fun _ => false,
    .lookForWork 1]

example : lookForWork (resumeRead layout32 (afterActions noRoomForError) 1 fun _ => false) 1 =
    afterActions noRoomForError :=
  pending_error_spins (f := { size := 4, ptr := 4 }) le_rfl (by decide +kernel) (by decide +kernel)
    (by decide +kernel) (by decide +kernel) (by decide +kernel)

end Binder

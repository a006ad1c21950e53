import BinderIpc.Lib.Run
import Mathlib.Data.List.Basic

/-! The dereferences that a thread puts off: `BR_RELEASE` and `BR_DECREFS` only
push an entry, `processPendingDerefs` works the entries off. The destructors that
it runs may execute further commands on the same thread. -/

namespace Binder

/-- What `executeCommand` does to the pending entries. -/
inductive DerefCommand
  | release (obj : ℕ) | decrefs (refs : ℕ) | other
  deriving Repr, DecidableEq

/-- Where a call of `processPendingDerefs` stands: `done` entries of the `numPending` that it saw. -/
inductive DerefLoop
  | weak (done numPending : ℕ) | strong (done numPending : ℕ)
  deriving Repr, DecidableEq

structure DerefState where
  /-- the commands of `mIn` that are not executed yet -/
  mIn : List DerefCommand := []
  pendingWeakDerefs : List ℕ := []
  pendingStrongDerefs : List ℕ := []
  /-- the calls of `processPendingDerefs` that run, the innermost first -/
  loops : List DerefLoop := []
  /-- the objects of every `BR_DECREFS` and `BR_RELEASE` that was executed -/
  decrefs : List ℕ := []
  releases : List ℕ := []
  /-- the objects of every `decWeak` and `decStrong` -/
  decWeak : List ℕ := []
  decStrong : List ℕ := []
  deriving Repr, DecidableEq

inductive DerefAct
  /-- `talkWithDriver` has read commands -/
  | receive (cmds : List DerefCommand)
  /-- the next command of `mIn`, in the thread's own loop or in that of a destructor -/
  | executeCommand
  /-- by the thread's own loop, or by a destructor that handles commands -/
  | processPendingDerefs
  /-- the destructor that the innermost call has run returns -/
  | next
  deriving Repr, DecidableEq

namespace DerefState

variable (s : DerefState)

def executeCommand : DerefState :=
  match s.mIn with
  | [] => s
  | .release obj :: cmds =>
    { s with
      mIn := cmds
      pendingStrongDerefs := s.pendingStrongDerefs ++ [obj]
      releases := s.releases ++ [obj] }
  | .decrefs refs :: cmds =>
    { s with
      mIn := cmds
      pendingWeakDerefs := s.pendingWeakDerefs ++ [refs]
      decrefs := s.decrefs ++ [refs] }
  | .other :: cmds => { s with mIn := cmds }

/-- The second half of `processPendingDerefs`, with `i` entries done: the next `decStrong`, or
the end of the loop. Behind the end of the vector there is no entry. -/
def strongStep (i numPending : ℕ) : DerefState :=
  if i < numPending then
    { s with
      loops := .strong (i + 1) numPending :: s.loops
      decStrong := s.decStrong ++ s.pendingStrongDerefs[i]?.toList }
  else { s with pendingStrongDerefs := [] }

def strongLoop : DerefState :=
  if 0 < s.pendingStrongDerefs.length then s.strongStep 0 s.pendingStrongDerefs.length
  else s

def weakStep (i numPending : ℕ) : DerefState :=
  if i < numPending then
    { s with
      loops := .weak (i + 1) numPending :: s.loops
      decWeak := s.decWeak ++ s.pendingWeakDerefs[i]?.toList }
  else { s with pendingWeakDerefs := [] }.strongLoop

def processPendingDerefs : DerefState :=
  if s.mIn = [] then
    if 0 < s.pendingWeakDerefs.length then s.weakStep 0 s.pendingWeakDerefs.length
    else s.strongLoop
  else s

def next : DerefState :=
  match s.loops with
  | [] => s
  | .weak i numPending :: loops => { s with loops := loops }.weakStep i numPending
  | .strong i numPending :: loops => { s with loops := loops }.strongStep i numPending

end DerefState

def derefMachine : Machine DerefState DerefAct where
  start s := s = {}
  step s
    | .receive cmds => if s.mIn = [] then { s with mIn := cmds } else s
    | .executeCommand => s.executeCommand
    | .processPendingDerefs => s.processPendingDerefs
    | .next => s.next

/-- No `BR_DECREFS` is executed in a destructor that `decWeak` runs, and no `BR_RELEASE` in one
that `decStrong` runs; and none of them works pending entries off itself. -/
def QuietDestructors (s : DerefState) : DerefAct → Prop
  | .executeCommand =>
    match s.loops, s.mIn with
    | .weak _ _ :: _, .decrefs _ :: _ => False
    | .strong _ _ :: _, .release _ :: _ => False
    | _, _ => True
  | .processPendingDerefs => s.loops = [] ∨ s.mIn ≠ []
  | .receive _ | .next => True

/-- One call of `processPendingDerefs` runs at most, nothing was pushed to its vector since its loop
began, and what is not done yet is still in the vectors. -/
inductive DerefInv (s : DerefState) : Prop
  | idle (loops : s.loops = []) (weak : s.decrefs = s.decWeak ++ s.pendingWeakDerefs)
    (strong : s.releases = s.decStrong ++ s.pendingStrongDerefs)
  | inWeak (i : ℕ) (loops : s.loops = [.weak i s.pendingWeakDerefs.length])
    (weak : s.decrefs = s.decWeak ++ s.pendingWeakDerefs.drop i)
    (strong : s.releases = s.decStrong ++ s.pendingStrongDerefs)
  | inStrong (i : ℕ) (loops : s.loops = [.strong i s.pendingStrongDerefs.length])
    (weak : s.decrefs = s.decWeak ++ s.pendingWeakDerefs)
    (strong : s.releases = s.decStrong ++ s.pendingStrongDerefs.drop i)

section

variable {s : DerefState}

theorem drop_next {l : List ℕ} {i : ℕ} (hi : i < l.length) :
    l[i]?.toList ++ l.drop (i + 1) = l.drop i := by
  rw [List.getElem?_eq_getElem hi, Option.toList_some, List.singleton_append,
    List.getElem_cons_drop]

theorem strongStep_inv {i : ℕ} (hloops : s.loops = [])
    (hweak : s.decrefs = s.decWeak ++ s.pendingWeakDerefs)
    (hstrong : s.releases = s.decStrong ++ s.pendingStrongDerefs.drop i) :
    DerefInv (s.strongStep i s.pendingStrongDerefs.length) := by
  unfold DerefState.strongStep
  rw [hloops]
  split_ifs with hi
  · refine .inStrong (i + 1) rfl hweak ?_
    rw [hstrong, ← drop_next hi, ← List.append_assoc]
  · rw [List.drop_eq_nil_of_le (by omega)] at hstrong
    exact .idle rfl hweak hstrong

theorem strongLoop_inv (hloops : s.loops = [])
    (hweak : s.decrefs = s.decWeak ++ s.pendingWeakDerefs)
    (hstrong : s.releases = s.decStrong ++ s.pendingStrongDerefs) : DerefInv s.strongLoop := by
  unfold DerefState.strongLoop
  split_ifs with hpos
  · exact strongStep_inv hloops hweak hstrong
  · exact .idle hloops hweak hstrong

theorem weakStep_inv {i : ℕ} (hloops : s.loops = [])
    (hweak : s.decrefs = s.decWeak ++ s.pendingWeakDerefs.drop i)
    (hstrong : s.releases = s.decStrong ++ s.pendingStrongDerefs) :
    DerefInv (s.weakStep i s.pendingWeakDerefs.length) := by
  unfold DerefState.weakStep
  rw [hloops]
  split_ifs with hi
  · refine .inWeak (i + 1) rfl ?_ hstrong
    rw [hweak, ← drop_next hi, ← List.append_assoc]
  · rw [List.drop_eq_nil_of_le (by omega)] at hweak
    exact strongLoop_inv rfl hweak hstrong

theorem DerefInv.executeCommand (hi : DerefInv s) (hok : QuietDestructors s .executeCommand) :
    DerefInv s.executeCommand := by
  unfold DerefState.executeCommand
  unfold QuietDestructors at hok
  cases hm : s.mIn with
  | nil => exact hi
  | cons c cmds =>
    rw [hm] at hok
    cases c with
    | other =>
      cases hi with
      | idle hl hweak hstrong => exact .idle hl hweak hstrong
      | inWeak i hl hweak hstrong => exact .inWeak i hl hweak hstrong
      | inStrong i hl hweak hstrong => exact .inStrong i hl hweak hstrong
    | release obj =>
      -- the entry is pushed behind the ones that are left
      have hpush : s.releases = s.decStrong ++ s.pendingStrongDerefs → s.releases ++ [obj] =
          s.decStrong ++ (s.pendingStrongDerefs ++ [obj]) := fun h => by
        rw [h, List.append_assoc]
      cases hi with
      | idle hl hweak hstrong => exact .idle hl hweak (hpush hstrong)
      | inWeak i hl hweak hstrong => exact .inWeak i hl hweak (hpush hstrong)
      | inStrong i hl hweak hstrong =>
        rw [hl] at hok
        exact hok.elim
    | decrefs refs =>
      have hpush : s.decrefs = s.decWeak ++ s.pendingWeakDerefs → s.decrefs ++ [refs] =
          s.decWeak ++ (s.pendingWeakDerefs ++ [refs]) := fun h => by
        rw [h, List.append_assoc]
      cases hi with
      | idle hl hweak hstrong => exact .idle hl (hpush hweak) hstrong
      | inWeak i hl hweak hstrong =>
        rw [hl] at hok
        exact hok.elim
      | inStrong i hl hweak hstrong => exact .inStrong i hl (hpush hweak) hstrong

theorem DerefInv.processPendingDerefs (hi : DerefInv s)
    (hok : QuietDestructors s .processPendingDerefs) : DerefInv s.processPendingDerefs := by
  unfold DerefState.processPendingDerefs
  by_cases hm : s.mIn = []
  · have hidle : s.loops = [] := hok.resolve_right (not_not.2 hm)
    rw [if_pos hm]
    cases hi with
    | idle hl hweak hstrong =>
      split_ifs
      · exact weakStep_inv hl hweak hstrong
      · exact strongLoop_inv hl hweak hstrong
    | inWeak i hl hweak hstrong =>
      rw [hl] at hidle
      cases hidle
    | inStrong i hl hweak hstrong =>
      rw [hl] at hidle
      cases hidle
  · rwa [if_neg hm]

theorem DerefInv.next (hi : DerefInv s) : DerefInv s.next := by
  unfold DerefState.next
  cases hi with
  | idle hl hweak hstrong =>
    rw [hl]
    exact .idle hl hweak hstrong
  | inWeak i hl hweak hstrong =>
    rw [hl]
    have hstep := @weakStep_inv { s with loops := [] } i rfl hweak hstrong
    exact hstep
  | inStrong i hl hweak hstrong =>
    rw [hl]
    have hstep := @strongStep_inv { s with loops := [] } i rfl hweak hstrong
    exact hstep

theorem DerefInv.step (hi : DerefInv s) {act : DerefAct} (hok : QuietDestructors s act) :
    DerefInv (derefMachine.step s act) := by
  cases act with
  | receive cmds =>
    change DerefInv (if s.mIn = [] then { s with mIn := cmds } else s)
    split_ifs
    · cases hi with
      | idle hl hweak hstrong => exact .idle hl hweak hstrong
      | inWeak i hl hweak hstrong => exact .inWeak i hl hweak hstrong
      | inStrong i hl hweak hstrong => exact .inStrong i hl hweak hstrong
    · exact hi
  | executeCommand => exact hi.executeCommand hok
  | processPendingDerefs => exact hi.processPendingDerefs hok
  | next => exact hi.next

end

/-- What the driver may rely on: a dereference follows its command, in order, and none is left
when nothing is pending. -/
structure DerefState.Settled (s : DerefState) : Prop where
  weak : s.decWeak <+: s.decrefs
  strong : s.decStrong <+: s.releases
  all : s.loops = [] → s.mIn = [] → s.pendingWeakDerefs = [] → s.pendingStrongDerefs = [] →
    s.decWeak = s.decrefs ∧ s.decStrong = s.releases

theorem DerefInv.settled {s : DerefState} (hi : DerefInv s) : s.Settled := by
  cases hi with
  | idle hl hweak hstrong =>
    refine ⟨⟨_, hweak.symm⟩, ⟨_, hstrong.symm⟩, fun _ _ hw hs => ?_⟩
    rw [hw] at hweak
    rw [hs] at hstrong
    exact ⟨by simpa using hweak.symm, by simpa using hstrong.symm⟩
  | inWeak i hl hweak hstrong =>
    exact ⟨⟨_, hweak.symm⟩, ⟨_, hstrong.symm⟩, fun hidle => by simp [hl] at hidle⟩
  | inStrong i hl hweak hstrong =>
    exact ⟨⟨_, hweak.symm⟩, ⟨_, hstrong.symm⟩, fun hidle => by simp [hl] at hidle⟩

theorem derefs_settled {s : DerefState} (h : derefMachine.Reach QuietDestructors s) :
    s.Settled := by
  have hi : DerefInv s := by
    refine h.invariant (I := DerefInv) (fun s hs => ?_) fun s act hi hok => hi.step hok
    cases hs
    exact .idle rfl rfl rfl
  exact hi.settled

/-- A destructor that `decWeak` runs executes a `BR_RELEASE`. -/
def nestedRun : List DerefAct :=
  [.receive [.decrefs 1, .release 2], .executeCommand, .executeCommand, .processPendingDerefs,
    .receive [.release 3], .executeCommand, .next, .next, .next]

theorem derefs_settled_nested :
    (derefMachine.exec {} nestedRun).Settled ∧
      (derefMachine.exec {} nestedRun).decStrong = [2, 3] := by
  have h0 : derefMachine.Reach QuietDestructors {} := .start rfl
  have hadm : derefMachine.Admits QuietDestructors {} nestedRun :=
    ⟨trivial, trivial, trivial, .inl rfl, trivial, trivial, trivial, trivial, trivial, trivial⟩
  exact ⟨derefs_settled (h0.exec hadm), by decide⟩

/-- A destructor that `decStrong` runs executes a `BR_RELEASE`; its object is never released. -/
def droppedRun : List DerefAct :=
  [.receive [.release 1], .executeCommand, .processPendingDerefs, .receive [.release 2],
    .executeCommand, .next]

theorem deref_dropped :
    (derefMachine.exec {} droppedRun).loops = [] ∧ (derefMachine.exec {} droppedRun).mIn = [] ∧
      (derefMachine.exec {} droppedRun).pendingStrongDerefs = [] ∧
      (derefMachine.exec {} droppedRun).releases = [1, 2] ∧
      (derefMachine.exec {} droppedRun).decStrong = [1] := by
  decide

/-- A destructor that works the entries off itself comes to its own object again. -/
example : (derefMachine.exec {} [.receive [.release 1], .executeCommand, .processPendingDerefs,
    .processPendingDerefs]).decStrong = [1, 1] := by
  decide

end Binder

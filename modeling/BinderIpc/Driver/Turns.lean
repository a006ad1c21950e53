import BinderIpc.Death.Runs

/-! How often the loop of `binder_thread_read` turns: every turn that it goes on
after takes an item off its list, or writes a command for a node that has fewer
of them left. -/

namespace Binder

open Driver

/-- How many commands may still be written for a node; a count that comes to 0 asks for one more. -/
def BinderNode.commandsLeft (x : BinderNode) : ℕ :=
  let strong := decide (x.internalStrongRefs ≠ 0 ∨ x.localStrongRefs ≠ 0)
  let weak := decide (x.refs ≠ [] ∨ x.localWeakRefs ≠ 0) || strong
  (if x.hasWeakRef then 1 else if weak then 2 else 0) +
    if x.hasStrongRef then 1 else if strong then 2 else 0

/-- How many turns an item may still take. -/
def Work.turns (o : Objects) : Work → ℕ
  | .node n => (o.node.get n).commandsLeft + 1
  | .transaction _ | .transactionComplete _ | .death _ => 1

def Driver.turnsLeft (s : Driver) : ℕ := s.obj.todo.weight (Work.turns s.obj)

/-- The death records on lists have something to say. -/
def Driver.DeathsTyped (s : Driver) : Prop :=
  ∀ l d, s.On l d → (s.obj.death.get d).type ≠ none

section

variable {L : Layout} {s s' : Driver} {T k ptr ptr' : ℕ} {f : ReadFrame} {fault : ℕ → Bool}
  {l : ListHead} {w : Work}

theorem commandsLeft_le (x : BinderNode) : x.commandsLeft ≤ 4 := by
  unfold BinderNode.commandsLeft
  dsimp only
  split_ifs <;> omega

/-- The flag that a command sets or clears pays for it. -/
theorem nodeCommand_left {x y : BinderNode} {n : ℕ} {cmd : Br}
    (h : nodeCommand x n = some (cmd, y)) : y.commandsLeft < x.commandsLeft := by
  unfold nodeCommand at h
  unfold BinderNode.commandsLeft
  dsimp only at h ⊢
  split_ifs at h <;> cases h <;> simp_all

theorem turnsLeft_lt_fuel (s : Driver) : s.turnsLeft < readFuel s := by
  have hle : ∀ w : Work, w.turns s.obj ≤ 5 := fun w => by
    cases w with
    | node n => exact Nat.succ_le_succ (commandsLeft_le _)
    | _ => exact Nat.le_add_left 1 4
  exact Nat.lt_succ_of_le (Queues.weight_le hle s.obj.todo)

/-- What a turn that the loop goes on after leaves of the work. -/
structure Turned (s s' : Driver) (w : Work) : Prop where
  type : ∀ d, (s'.obj.death.get d).type = (s.obj.death.get d).type
  entry : ∀ l v, (l, v) ∈ s'.obj.todo.entries → (l, v) ∈ s.obj.todo.entries
  left : (s'.obj.todo = s.obj.todo.del w ∧ ∀ v : Work, v.turns s'.obj ≤ v.turns s.obj) ∨
    (s'.obj.todo = s.obj.todo ∧ w.turns s'.obj < w.turns s.obj ∧
      ∀ v : Work, v.turns s'.obj ≤ v.turns s.obj)

theorem Turned.of_del (htodo : s'.obj.todo = s.obj.todo.del w)
    (htype : ∀ d, (s'.obj.death.get d).type = (s.obj.death.get d).type)
    (hnode : ∀ n, (s'.obj.node.get n).commandsLeft = (s.obj.node.get n).commandsLeft) :
    Turned s s' w where
  type := htype
  entry l v h := by
    rw [htodo] at h
    exact (Queues.mem_del.1 h).1
  left := .inl ⟨htodo, fun v => by
    cases v with
    | node n => exact (Nat.succ_le_succ (hnode n).le)
    | _ => exact le_rfl⟩

theorem readNode_turned {n : ℕ} (h : readNode s T n ptr fault = (s', .next ptr')) :
    Turned s s' (.node n) := by
  unfold readNode at h
  split at h
  · rename_i cmd x hcmd
    have hlt := nodeCommand_left hcmd
    dsimp only at h
    split_ifs at h with hfault
    · cases h
    · cases h
      have hturns : ∀ v : Work, v ≠ .node n →
          v.turns (s.obj.modNode n fun _ => x) = v.turns s.obj := fun v hv => by
        cases v with
        | node m =>
          have hm : m ≠ n := fun he => hv (he ▸ rfl)
          have hget : (s.obj.modNode n fun _ => x).node.get m = s.obj.node.get m :=
            s.obj.node.get_modify_ne n _ (fun _ => x) hm
          simp only [Work.turns, hget]
        | _ => rfl
      have hself : (Work.node n).turns (s.obj.modNode n fun _ => x) < (Work.node n).turns s.obj := by
        have hget : (s.obj.modNode n fun _ => x).node.get n = x := s.obj.node.get_modify_self n fun _ => x
        simp only [Work.turns, hget]
        omega
      refine ⟨fun _ => rfl, fun _ _ => id, .inr ⟨rfl, hself, fun v => ?_⟩⟩
      by_cases hv : v = .node n
      · exact hv ▸ hself.le
      · exact (hturns v hv).le
  · cases h
    have hsettle : (settleNode s.obj (s.thread.get T).proc n).todo = s.obj.todo.del (.node n) ∧
        (settleNode s.obj (s.thread.get T).proc n).death = s.obj.death ∧
        ∀ m, ((settleNode s.obj (s.thread.get T).proc n).node.get m).commandsLeft =
          (s.obj.node.get m).commandsLeft := by
      unfold settleNode
      dsimp only
      split_ifs
      · exact ⟨rfl, rfl, fun m => s.obj.node.apply_get_modify n m
          (fun x => { x with freed := x.freed + 1 }) (·.commandsLeft) fun _ => rfl⟩
      · exact ⟨rfl, rfl, fun _ => rfl⟩
    obtain ⟨htodo, hdeath, hnode⟩ := hsettle
    exact .of_del htodo (fun d => by
      change ((settleNode s.obj (s.thread.get T).proc n).death.get d).type = _
      rw [hdeath]) hnode

theorem readDeath_turned {d : ℕ} (htype : (s.obj.death.get d).type ≠ none)
    (h : readDeath s T d ptr fault = (s', .next ptr')) : Turned s s' (.death d) := by
  unfold readDeath at h
  split at h
  · rename_i hnone
    exact absurd hnone htype
  · split_ifs at h with hfault hclear
    · cases h
    · cases h
      refine .of_del rfl (fun e => ?_) fun _ => rfl
      exact s.obj.death.apply_get_modify d e (fun x => { x with freed := x.freed + 1 }) (·.type)
        fun _ => rfl
    · cases h

theorem readItem_turned (hw : ∀ d, w = .death d → (s.obj.death.get d).type ≠ none)
    (h : readItem s T ptr fault w = (s', .next ptr')) : Turned s s' w := by
  cases w with
  | transaction t =>
    simp only [readItem, readTransaction] at h
    split_ifs at h <;> cases h
  | transactionComplete t =>
    simp only [readItem] at h
    split_ifs at h
    · cases h
    · cases h
      exact .of_del rfl (fun _ => rfl) fun _ => rfl
  | node n => exact readNode_turned h
  | death d => exact readDeath_turned (hw d rfl) h

theorem Turned.typed (h : Turned s s' w) (hs : s.DeathsTyped) : s'.DeathsTyped := fun l d hon => by
  rw [h.type]
  exact hs l d (h.entry _ _ hon)

theorem Turned.turnsLeft_lt (h : Turned s s' w) (hw : (l, w) ∈ s.obj.todo.entries) :
    s'.turnsLeft < s.turnsLeft := by
  unfold Driver.turnsLeft
  rcases h.left with ⟨htodo, hle⟩ | ⟨htodo, hlt, hle⟩
  · have hpos : 0 < w.turns s.obj := by cases w <;> exact Nat.succ_pos _
    rw [htodo]
    exact (Queues.weight_mono hle _).trans_lt (Queues.weight_del_lt hw hpos)
  · rw [htodo]
    exact Queues.weight_lt hw hle hlt

/-- More fuel than there are turns left changes nothing. -/
theorem readLoop_fuel (hs : s.DeathsTyped) (hk : s.turnsLeft < k) (extra : ℕ) :
    readLoop L T f fault (k + extra) s ptr = readLoop L T f fault k s ptr := by
  induction k generalizing s ptr with
  | zero => exact absurd hk (Nat.not_lt_zero _)
  | succ k ih =>
    rw [Nat.succ_add]
    unfold readLoop
    cases hw : nextWork s T f.waitForProcWork with
    | none => rfl
    | some w =>
      obtain ⟨l, hmem⟩ := nextWork_listed hw
      dsimp only
      split_ifs with hroom
      · rfl
      · generalize hitem : readItem s T ptr fault w = r
        obtain ⟨s', turn⟩ := r
        cases turn with
        | fault => rfl
        | done n => rfl
        | next n =>
          have ht := readItem_turned (fun d hd => hs l d (by rwa [hd] at hmem)) hitem
          have hlt := ht.turnsLeft_lt hmem
          exact ih (ht.typed hs) (by omega)

end

/-- In a reachable state the loop of a read ends before its fuel does. -/
theorem readLoop_reach {L : Layout} {rb : RbTree ℕ} {ok : Driver → Action → Prop} {s : Driver}
    (h : (driverMachine L rb).Reach ok s) (T : ℕ) (f : ReadFrame) (fault : ℕ → Bool) (ptr extra : ℕ) :
    readLoop L T f fault (readFuel s + extra) (stopWaiting s T f) ptr =
      readLoop L T f fault (readFuel s) (stopWaiting s T f) ptr := by
  have hobj : (stopWaiting s T f).obj = s.obj := by
    unfold stopWaiting
    split_ifs <;> rfl
  have hturns : (stopWaiting s T f).turnsLeft = s.turnsLeft := by
    rw [Driver.turnsLeft, hobj, Driver.turnsLeft]
  refine readLoop_fuel (fun l d hon => ?_) (hturns.trans_lt (turnsLeft_lt_fuel s)) extra
  unfold Driver.On at hon
  rw [hobj] at hon ⊢
  -- a record on a list has a reference and waits to be told, or was cleared
  have hrec := (deathInv_reach h).record d
  by_cases hatt : ∃ r, s.Attached r d
  · obtain ⟨r, hr⟩ := hatt
    rw [((hrec.wanted r hr).2.2 l hon).1]
    nofun
  · rcases (hrec.cleared (fun r hr => hatt ⟨r, hr⟩) l hon).2 with htype | htype
    · rw [htype]
      nofun
    · rw [htype]
      nofun

end Binder

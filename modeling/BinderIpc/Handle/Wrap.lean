import BinderIpc.Handle.Zero

/-! The counts as C ints, which wrap. A ledger keeps what the commands of the
processes took and gave back, and what they made of `internal_strong_refs`. -/

namespace Binder

/-- A C `int`. -/
def toInt32 (x : ℤ) : ℤ := x.bmod (2 ^ 32)

def BinderRef.toInt32 (x : BinderRef) : BinderRef :=
  { x with strong := Binder.toInt32 x.strong, weak := Binder.toInt32 x.weak }

def BinderNode.toInt32 (x : BinderNode) : BinderNode :=
  { x with
    internalStrongRefs := Binder.toInt32 x.internalStrongRefs
    localWeakRefs := Binder.toInt32 x.localWeakRefs
    localStrongRefs := Binder.toInt32 x.localStrongRefs }

def Objects.toInt32 (o : Objects) : Objects :=
  { o with
    node := ⟨o.node.next, fun n => (o.node.get n).toInt32⟩
    ref := ⟨o.ref.next, fun r => (o.ref.get r).toInt32⟩ }

structure RefCall where
  proc : ℕ
  cmd : RefCommand
  target : ℕ
  kzalloc : Bool := true

/-- The objects once the reference is looked up, and the reference. -/
def RefCall.find (x : RefCall) (o : Objects) : Objects × Option ℕ :=
  commandRef o x.proc x.cmd x.target x.kzalloc

/-- `refCommand` with C ints. A command changes a count by one at most and only compares it with
0, so reducing the counts at its end comes to the same as reducing them where they change. -/
def refCommand32 (o : Objects) (x : RefCall) : Objects :=
  (refCommand o x.proc x.cmd x.target x.kzalloc).toInt32

/-- `binder_inc_ref` or `binder_dec_ref` returns 0. -/
def RefCommand.accepted (o : Objects) (r : ℕ) : RefCommand → Bool
  | increfs => (binderIncRef o r false none).2
  | acquire => (binderIncRef o r true none).2
  | release => (o.ref.get r).strong ≠ 0
  | decrefs => (o.ref.get r).weak ≠ 0

/-- `taken` and `given` count, for each reference, the acquires and the releases that were accepted,
or with `false` the increfs and the decrefs. `forwarded` is by how much the commands about a
reference have raised `internal_strong_refs` of its node. -/
structure RefRun where
  obj : Objects
  taken : Bool → ℕ → ℕ
  given : Bool → ℕ → ℕ
  forwarded : ℕ → ℤ

namespace RefRun

variable (l : RefRun)

def step (x : RefCall) : RefRun :=
  let o := refCommand32 l.obj x
  match x.find l.obj with
  | (_, none) => { l with obj := o }
  | (o', some r) =>
    let n := (o'.ref.get r).node
    let counts := fun (inc b : Bool) (k : ℕ) =>
      if x.cmd.accepted o' r ∧ x.cmd.increases = inc ∧ b = x.cmd.strong ∧ k = r then 1 else 0
    { obj := o
      taken := fun b k => l.taken b k + counts true b k
      given := fun b k => l.given b k + counts false b k
      forwarded := fun k => l.forwarded k + if k = r then
        Binder.toInt32 ((o.node.get n).internalStrongRefs - (o'.node.get n).internalStrongRefs)
        else 0 }

def owed (b : Bool) (r : ℕ) : ℤ := l.taken b r - l.given b r

/-- A count of 2^32 - 1 is raised. -/
def wraps (x : RefCall) : Bool :=
  x.cmd.increases && (x.find l.obj).2.any fun r =>
    ((x.find l.obj).1.ref.get r).count x.cmd.strong = -1

/-- What a reference counts at the start was taken, and nothing was given back. -/
structure Begins : Prop where
  refs : RefsInv l.obj
  given : ∀ b r, l.given b r = 0
  taken : ∀ b r, l.obj.holds r = true → l.taken b r < 2 ^ 32 ∧
    (l.obj.ref.get r).count b = Binder.toInt32 (l.taken b r)
  other : ∀ b r, l.obj.holds r = false → l.taken b r = 0
  forwarded : ∀ r, l.forwarded r = if l.taken true r = 0 then 0 else 1

/-- A reference for which more was taken than given back counts that and is not deleted, and it
has raised the count of its node at most once. -/
structure CountsHold : Prop where
  counted : ∀ b r, l.given b r < l.taken b r →
    (l.obj.ref.get r).count b ≠ 0 ∧ l.obj.holds r = true ∧ (l.obj.ref.get r).freed = 0
  once : ∀ r, 0 ≤ l.forwarded r ∧ l.forwarded r ≤ 1

end RefRun

def refRuns : Machine RefRun RefCall where
  start l := l.Begins
  step l x := l.step x

/-! Ints -/

theorem toInt32_eq_zero {x : ℤ} : toInt32 x = 0 ↔ (2 ^ 32 : ℤ) ∣ x := by
  unfold toInt32
  have h := Int.bmod_eq_bmod_iff_bmod_sub_eq_zero (m := x) (n := 2 ^ 32) (k := 0)
  refine ⟨fun hx => ?_, fun hx => Int.bmod_eq_zero_of_dvd (by exact_mod_cast hx)⟩
  have hmod := Int.bmod_emod (x := x) (m := 2 ^ 32)
  rw [hx] at hmod
  exact Int.dvd_of_emod_eq_zero (by simpa using hmod.symm)

theorem toInt32_toInt32 (x : ℤ) : toInt32 (toInt32 x) = toInt32 x := Int.bmod_bmod

theorem toInt32_add (x d : ℤ) : toInt32 (toInt32 x + d) = toInt32 (x + d) := Int.bmod_add_bmod

theorem toInt32_sub (x d : ℤ) : toInt32 (toInt32 x - d) = toInt32 (x - d) := Int.bmod_sub_bmod

/-- A word is as well compared with 0 before it is reduced. -/
theorem toInt32_succ_eq_zero {x d : ℤ} (hd : -1 ≤ d ∧ d ≤ 1) :
    toInt32 (toInt32 x + d) = 0 ↔ toInt32 x + d = 0 := by
  have hlo : -(2 ^ 31) ≤ toInt32 x := by
    have h := Int.le_bmod (x := x) (m := 2 ^ 32) (by norm_num)
    simpa [toInt32] using h
  have hhi : toInt32 x < 2 ^ 31 := by
    have h := Int.bmod_lt (x := x) (m := 2 ^ 32) (by norm_num)
    simpa [toInt32] using h
  rw [toInt32_eq_zero]
  omega

/-! What a command does to the counts -/

section

variable {o o' : Objects} {p r : ℕ} {b : Bool} {d : ℤ} {c : RefCommand}

theorem BinderRef.count_raise (x : BinderRef) (strong b : Bool) :
    (x.raise strong).count b = x.count b + if b = strong then 1 else 0 := by
  cases strong <;> cases b <;> simp [BinderRef.raise, BinderRef.count]

theorem BinderRef.count_lower (x : BinderRef) (strong b : Bool) :
    (x.lower strong).count b = x.count b - if b = strong then 1 else 0 := by
  cases strong <;> cases b <;> simp [BinderRef.lower, BinderRef.count]

theorem BinderRef.count_toInt32 (x : BinderRef) (b : Bool) :
    x.toInt32.count b = Binder.toInt32 (x.count b) := by
  cases b <;> rfl

theorem toInt32_sameLinks (o : Objects) : SameLinks o o.toInt32 := { SameLinks.refl o with }

theorem SameLinks.holds (h : SameLinks o o') (k : ℕ) : o'.holds k = o.holds k := by
  simp only [Objects.holds, h.refProc, h.byDesc]

theorem KeepsRefs.holds (h : KeepsRefs o o') (k : ℕ) : o'.holds k = o.holds k := by
  simp only [Objects.holds, h.ref, h.byDesc]

/-- Count `b` of `r` changes by `d`, and `r` is deleted only without counts. -/
structure Recounts (o o' : Objects) (r : ℕ) (b : Bool) (d : ℤ) : Prop where
  other : ∀ k, k ≠ r → o'.ref.get k = o.ref.get k ∧ o'.holds k = o.holds k
  count : ∀ b', (o'.ref.get r).count b' = (o.ref.get r).count b' + if b' = b then d else 0
  held : o'.holds r = o.holds r ∨ ∀ b', (o'.ref.get r).count b' = 0

theorem KeepsRefs.recounts (h : KeepsRefs o o') (r : ℕ) (b : Bool) : Recounts o o' r b 0 := by
  refine ⟨fun k _ => ⟨by rw [h.ref], h.holds k⟩, fun b' => ?_, Or.inl (h.holds r)⟩
  rw [h.ref, ite_self, add_zero]

theorem Recounts.after (hk : KeepsRefs o o') {o'' : Objects} (h : Recounts o' o'' r b d) :
    Recounts o o'' r b d := by
  refine ⟨fun k hne => ?_, fun b' => ?_, ?_⟩
  · obtain ⟨h1, h2⟩ := h.other k hne
    exact ⟨by rw [h1, hk.ref], by rw [h2, hk.holds]⟩
  · rw [h.count, hk.ref]
  · rw [← hk.holds]
    exact h.held

theorem Recounts.keeps (h : Recounts o o' r b d) {o'' : Objects} (hk : KeepsRefs o' o'') :
    Recounts o o'' r b d := by
  refine ⟨fun k hne => ?_, fun b' => ?_, ?_⟩
  · rw [hk.ref, hk.holds]
    exact h.other k hne
  · rw [hk.ref]
    exact h.count b'
  · rw [hk.ref, hk.holds]
    exact h.held

theorem modRef_recounts {f : BinderRef → BinderRef} (hf : ∀ x, (f x).bare = x.bare)
    (hcount : ∀ x b', (f x).count b' = x.count b' + if b' = b then d else 0) :
    Recounts o (o.modRef r f) r b d := by
  have hholds := (sameLinks_modRef o r hf).holds
  refine ⟨fun k hne => ⟨o.ref.get_modify_ne r k f hne, hholds k⟩, fun b' => ?_, Or.inl (hholds r)⟩
  exact (congrArg (BinderRef.count b') (o.ref.get_modify_self r f)).trans (hcount _ b')

theorem binderIncRef_recounts (o : Objects) (r : ℕ) (strong : Bool) (targetList : Option ListHead) :
    Recounts o (binderIncRef o r strong targetList).1 r strong
      (if (binderIncRef o r strong targetList).2 then 1 else 0) := by
  obtain ⟨o₁, hk, heq | heq⟩ := binderIncRef_steps o r strong targetList
  · rw [heq]
    refine .after hk (modRef_recounts (BinderRef.bare_raise strong) fun x b' => ?_)
    exact x.count_raise strong b'
  · rw [heq]
    exact hk.recounts r strong

theorem binderDeleteRef_ref (o : Objects) (r : ℕ) : (binderDeleteRef o r).ref =
    o.ref.modify r fun x => { x with freed := x.freed + 1 } := by
  have hif : ∀ (q : Objects) (n : ℕ) (a : Prop) [Decidable a],
      (if a then binderDecNode q n true true else q).ref = q.ref := by
    intro q n a _
    split_ifs
    · exact (binderDecNode_keepsRefs q n true true).ref
    · rfl
  unfold binderDeleteRef
  dsimp only
  cases (o.ref.get r).death with
  | none =>
    dsimp only [Objects.modRef]
    rw [(binderDecNode_keepsRefs _ _ _ _).ref]
    dsimp only [Objects.modNode]
    rw [hif]
    rfl
  | some d =>
    dsimp only [Objects.modRef, freeDeath, Objects.modDeath]
    rw [(binderDecNode_keepsRefs _ _ _ _).ref]
    dsimp only [Objects.modNode]
    rw [hif]
    rfl

/-- A reference that is deleted keeps what it has, and the others are left alone. -/
theorem binderDeleteRef_recounts (hi : RefsInv o) (hr : o.holds r = true)
    (hzero : ∀ b', (o.ref.get r).count b' = 0) : Recounts o (binderDeleteRef o r) r b 0 := by
  have hu := binderDeleteRef_unlinked o r
  have hmem := hu.mem_byDesc hi (of_decide_eq_true hr)
  have hcount : ∀ b', ((binderDeleteRef o r).ref.get r).count b' = (o.ref.get r).count b' := by
    intro b'
    rw [binderDeleteRef_ref, Heap.get_modify_self]
    rfl
  refine ⟨fun k hne => ⟨?_, ?_⟩, fun b' => ?_, Or.inr fun b' => ?_⟩
  · rw [binderDeleteRef_ref, Heap.get_modify_ne _ _ _ _ hne]
  · simp only [Objects.holds, hu.refProc, hmem, ne_eq, hne, not_false_iff, true_and]
  · rw [hcount, ite_self, add_zero]
  · rw [hcount, hzero]

theorem Recounts.trans_zero {o'' : Objects} (h : Recounts o o' r b d)
    (hheld : o'.holds r = o.holds r) (h' : Recounts o' o'' r b 0) : Recounts o o'' r b d := by
  refine ⟨fun k hne => ?_, fun b' => ?_, ?_⟩
  · obtain ⟨h1, h2⟩ := h.other k hne
    obtain ⟨h3, h4⟩ := h'.other k hne
    exact ⟨h3.trans h1, h4.trans h2⟩
  · rw [h'.count, h.count, ite_self, add_zero]
  · rw [← hheld]
    exact h'.held

theorem binderDecRef_recounts (hi : RefsInv o) (hr : o.holds r = true) (strong : Bool) :
    Recounts o (binderDecRef o r strong) r strong
      (if (o.ref.get r).count strong = 0 then 0 else -1) := by
  unfold binderDecRef
  dsimp only
  by_cases hzero : (o.ref.get r).count strong = 0
  · rw [if_pos hzero, if_pos hzero]
    exact (KeepsRefs.refl o).recounts r strong
  rw [if_neg hzero, if_neg hzero]
  have hlow : Recounts o (o.modRef r (.lower strong)) r strong (-1) := by
    refine modRef_recounts (BinderRef.bare_lower strong) fun x b' => ?_
    rw [x.count_lower]
    split_ifs <;> rfl
  have hsame := sameLinks_modRef o r (BinderRef.bare_lower strong)
  have hnode : ∀ a : Prop, [Decidable a] → ∀ q n,
      KeepsRefs q (if a then binderDecNode q n true true else q) ∧
        SameLinks q (if a then binderDecNode q n true true else q) := by
    intro a _ q n
    split_ifs
    · exact ⟨binderDecNode_keepsRefs q n true true, binderDecNode_sameLinks q n true true⟩
    · exact ⟨.refl q, .refl q⟩
  obtain ⟨hk, hlinks⟩ := hnode (strong ∧ ((o.modRef r (.lower strong)).ref.get r).strong = 0)
    (o.modRef r (.lower strong)) (o.ref.get r).node
  have h₂ := hlow.keeps hk
  have hl := hsame.trans hlinks
  generalize (if strong ∧ ((o.modRef r (.lower strong)).ref.get r).strong = 0 then
    binderDecNode (o.modRef r (.lower strong)) (o.ref.get r).node true true
    else o.modRef r (.lower strong)) = o₂ at h₂ hl ⊢
  by_cases hdel : (o₂.ref.get r).strong = 0 ∧ (o₂.ref.get r).weak = 0
  · rw [if_pos hdel]
    refine h₂.trans_zero (hl.holds r) (binderDeleteRef_recounts (hi.congr hl.tables) ?_ ?_)
    · rw [hl.holds, hr]
    · intro b'
      cases b' with
      | true => exact hdel.1
      | false => exact hdel.2
  · rw [if_neg hdel]
    exact h₂

/-- The change that a command makes to a count. -/
def RefCommand.change (o : Objects) (r : ℕ) (c : RefCommand) : ℤ :=
  if c.accepted o r then if c.increases then 1 else -1 else 0

theorem countRef_recounts (hi : RefsInv o) (hr : o.holds r = true) (c : RefCommand) :
    Recounts o (countRef o r c) r c.strong (c.change o r) := by
  cases c with
  | increfs => exact binderIncRef_recounts o r false none
  | acquire => exact binderIncRef_recounts o r true none
  | release =>
    have h := binderDecRef_recounts hi hr true
    simpa [RefCommand.change, RefCommand.accepted, RefCommand.increases, BinderRef.count,
      RefCommand.strong, countRef, ite_not] using h
  | decrefs =>
    have h := binderDecRef_recounts hi hr false
    simpa [RefCommand.change, RefCommand.accepted, RefCommand.increases, BinderRef.count,
      RefCommand.strong, countRef, ite_not] using h

/-! What it does to the node -/

theorem nodeUnheld_internal (o : Objects) (n m : ℕ) :
    ((nodeUnheld o n).node.get m).internalStrongRefs = (o.node.get m).internalStrongRefs := by
  unfold nodeUnheld
  dsimp only
  split
  · split_ifs <;> rfl
  · split_ifs
    · have hfree : ∀ q : Objects,
          ((q.modNode n fun x => { x with freed := x.freed + 1 }).node.get m).internalStrongRefs =
            (q.node.get m).internalStrongRefs := by
        intro q
        exact q.node.apply_get_modify n m (fun x => { x with freed := x.freed + 1 })
          (·.internalStrongRefs) fun _ => rfl
      rw [hfree]
      split <;> rfl
    · rfl

theorem binderDecNode_internal (o : Objects) (n : ℕ) (strong : Bool) :
    ((binderDecNode o n strong true).node.get n).internalStrongRefs =
      (o.node.get n).internalStrongRefs - if strong then 1 else 0 := by
  have hlow : ((o.modNode n (.lower strong true)).node.get n).internalStrongRefs =
      (o.node.get n).internalStrongRefs - if strong then 1 else 0 := by
    rw [Objects.modNode, Heap.get_modify_self]
    cases strong <;> simp [BinderNode.lower]
  rw [← hlow]
  unfold binderDecNode
  dsimp only
  split_ifs
  · rfl
  · exact nodeUnheld_internal _ n n
  · rfl
  · exact nodeUnheld_internal _ n n

theorem binderIncNode_internal (o : Objects) (n : ℕ) (strong : Bool)
    (targetList : Option ListHead) :
    ((binderIncNode o n strong true targetList).1.node.get n).internalStrongRefs =
      (o.node.get n).internalStrongRefs +
        if strong ∧ (binderIncNode o n strong true targetList).2 then 1 else 0 := by
  unfold binderIncNode
  cases strong with
  | false =>
    dsimp only
    split_ifs
    all_goals try split
    all_goals simp_all [Objects.modNode, BinderNode.raise]
  | true =>
    dsimp only
    split_ifs
    all_goals try split
    all_goals simp_all [Objects.modNode, BinderNode.raise]

theorem binderDeleteRef_internal (o : Objects) (r : ℕ) (hzero : (o.ref.get r).strong = 0) :
    ((binderDeleteRef o r).node.get (o.ref.get r).node).internalStrongRefs =
      (o.node.get (o.ref.get r).node).internalStrongRefs := by
  have hunlist : ∀ q : Objects, ∀ n, ((q.modNode n fun y =>
      { y with refs := y.refs.erase r }).node.get n).internalStrongRefs =
        (q.node.get n).internalStrongRefs := by
    intro q n
    exact q.node.apply_get_modify n n (fun y => { y with refs := y.refs.erase r })
      (·.internalStrongRefs) fun _ => rfl
  have hdec : ∀ q : Objects, ∀ n,
      ((binderDecNode q n false true).node.get n).internalStrongRefs =
        (q.node.get n).internalStrongRefs := by
    intro q n
    rw [binderDecNode_internal]
    exact sub_zero _
  unfold binderDeleteRef
  dsimp only
  rw [if_neg (not_not.2 hzero)]
  cases (o.ref.get r).death <;> exact (hdec _ _).trans (hunlist _ _)

theorem binderIncRef_first {strong : Bool} (hzero : (o.ref.get r).count strong = 0)
    (targetList : Option ListHead) : ∃ o₁,
      binderIncNode o (o.ref.get r).node strong true targetList =
        (o₁, (binderIncRef o r strong targetList).2) ∧
      (binderIncRef o r strong targetList).1.node = o₁.node := by
  unfold binderIncRef
  dsimp only
  rw [if_pos hzero]
  obtain ⟨o₁, ok⟩ := binderIncNode o (o.ref.get r).node strong true targetList
  cases ok <;> exact ⟨o₁, rfl, rfl⟩

theorem binderIncRef_again {strong : Bool} (hne : (o.ref.get r).count strong ≠ 0)
    (targetList : Option ListHead) :
    binderIncRef o r strong targetList = (o.modRef r (.raise strong), true) := by
  unfold binderIncRef
  dsimp only
  rw [if_neg hne]

theorem binderIncRef_internal (o : Objects) (r : ℕ) (strong : Bool)
    (targetList : Option ListHead) :
    ((binderIncRef o r strong targetList).1.node.get (o.ref.get r).node).internalStrongRefs =
      (o.node.get (o.ref.get r).node).internalStrongRefs +
        if strong ∧ (o.ref.get r).strong = 0 ∧ (binderIncRef o r strong targetList).2 then 1
        else 0 := by
  have hnode := binderIncNode_internal o (o.ref.get r).node strong targetList
  by_cases hzero : (o.ref.get r).count strong = 0
  · obtain ⟨o₁, heq, h₁⟩ := binderIncRef_first hzero targetList
    have hstrong : strong = true → (o.ref.get r).strong = 0 := by
      rintro rfl
      exact hzero
    simp only [heq] at hnode
    rw [h₁, hnode]
    congr 1
    refine if_congr (and_congr_right fun hs => ?_) rfl rfl
    rw [eq_true (hstrong hs), true_and]
  · have hstrong : ¬(strong = true ∧ (o.ref.get r).strong = 0 ∧
        (binderIncRef o r strong targetList).2 = true) := by
      rintro ⟨rfl, h, -⟩
      exact hzero h
    rw [if_neg hstrong, add_zero, binderIncRef_again hzero]
    rfl

theorem binderDecRef_internal (o : Objects) (r : ℕ) (strong : Bool) :
    ((binderDecRef o r strong).node.get (o.ref.get r).node).internalStrongRefs =
      (o.node.get (o.ref.get r).node).internalStrongRefs -
        if strong ∧ (o.ref.get r).strong = 1 then 1 else 0 := by
  unfold binderDecRef
  dsimp only
  by_cases hzero : (o.ref.get r).count strong = 0
  · have hnot : ¬(strong = true ∧ (o.ref.get r).strong = 1) := by
      rintro ⟨rfl, h⟩
      exact absurd (h.symm.trans hzero) one_ne_zero
    rw [if_pos hzero, if_neg hnot, sub_zero]
  rw [if_neg hzero]
  have hlow : ((o.modRef r (.lower strong)).ref.get r) = (o.ref.get r).lower strong :=
    o.ref.get_modify_self r _
  have hiff : (strong = true ∧ ((o.modRef r (.lower strong)).ref.get r).strong = 0) ↔
      (strong = true ∧ (o.ref.get r).strong = 1) := by
    rw [hlow]
    refine and_congr_right fun hs => ?_
    rw [hs]
    exact sub_eq_zero
  have hdec : ∀ a : Prop, [Decidable a] → ∀ q n,
      ((if a then binderDecNode q n true true else q).node.get n).internalStrongRefs =
        (q.node.get n).internalStrongRefs - if a then 1 else 0 := by
    intro a _ q n
    split_ifs
    · rw [binderDecNode_internal, if_pos rfl]
    · rw [sub_zero]
  have hkeeps : ∀ a : Prop, [Decidable a] → ∀ q n,
      KeepsRefs q (if a then binderDecNode q n true true else q) := by
    intro a _ q n
    split_ifs
    · exact binderDecNode_keepsRefs q n true true
    · exact .refl q
  have h₂ := hdec (strong ∧ ((o.modRef r (.lower strong)).ref.get r).strong = 0)
    (o.modRef r (.lower strong)) (o.ref.get r).node
  have hk := hkeeps (strong ∧ ((o.modRef r (.lower strong)).ref.get r).strong = 0)
    (o.modRef r (.lower strong)) (o.ref.get r).node
  simp only [hiff] at h₂ hk ⊢
  generalize (if strong = true ∧ (o.ref.get r).strong = 1 then
    binderDecNode (o.modRef r (.lower strong)) (o.ref.get r).node true true
    else o.modRef r (.lower strong)) = o₂ at h₂ hk ⊢
  have hnode : (o₂.ref.get r).node = (o.ref.get r).node := by
    rw [hk.ref, hlow]
    cases strong <;> rfl
  by_cases hdel : (o₂.ref.get r).strong = 0 ∧ (o₂.ref.get r).weak = 0
  · rw [if_pos hdel]
    have h := binderDeleteRef_internal o₂ r hdel.1
    rw [hnode] at h
    exact h.trans h₂
  · rw [if_neg hdel]
    exact h₂

/-- The node is told when the first strong count of a reference is taken and when the last one
is given back. -/
theorem countRef_internal (o : Objects) (r : ℕ) (c : RefCommand)
    (hroom : c.increases = true → (o.ref.get r).count c.strong ≠ -1) :
    ((countRef o r c).node.get (o.ref.get r).node).internalStrongRefs =
      (o.node.get (o.ref.get r).node).internalStrongRefs +
        if c.strong then
          (if (o.ref.get r).strong + c.change o r = 0 then 0 else 1) -
            (if (o.ref.get r).strong = 0 then 0 else 1)
        else 0 := by
  cases c with
  | increfs => exact (binderIncRef_internal o r false none).trans (by simp [RefCommand.strong])
  | decrefs => exact (binderDecRef_internal o r false).trans (by simp [RefCommand.strong])
  | acquire =>
    refine (binderIncRef_internal o r true none).trans (congrArg (_ + ·) ?_)
    have hne := hroom rfl
    simp only [RefCommand.change, RefCommand.accepted, RefCommand.increases, RefCommand.strong,
      BinderRef.count] at hne ⊢
    by_cases hzero : (o.ref.get r).strong = 0
    · by_cases hok : (binderIncRef o r true none).2 = true <;> simp [hzero, hok]
    · have hsum : (o.ref.get r).strong + 1 ≠ 0 := by
        simp only [if_true] at hne
        omega
      by_cases hok : (binderIncRef o r true none).2 = true <;> simp [hzero, hok, hsum]
  | release =>
    refine (binderDecRef_internal o r true).trans ?_
    rw [sub_eq_add_neg]
    refine congrArg (_ + ·) ?_
    simp only [RefCommand.change, RefCommand.accepted, RefCommand.increases, RefCommand.strong]
    by_cases hzero : (o.ref.get r).strong = 0
    · simp [hzero]
    · by_cases hone : (o.ref.get r).strong = 1
      · simp [hone]
      · have hsum : (o.ref.get r).strong + -1 ≠ 0 := by omega
        simp [hzero, hone, hsum]

end

/-! The steps -/

/-- Looking a reference up makes at most a new one, without counts. -/
structure Finds (o : Objects) (q : Objects × Option ℕ) : Prop where
  refs : RefsInv q.1
  found : ∀ r, q.2 = some r → q.1.holds r = true
  kept : ∀ k, o.holds k = true → q.1.holds k = true ∧ q.1.ref.get k = o.ref.get k
  fresh : ∀ k, o.holds k = false → q.1.holds k = true → ∀ b, (q.1.ref.get k).count b = 0

section

variable {o : Objects} {p n : ℕ}

theorem RefsInv.holds_of_mem (hi : RefsInv o) {r : ℕ} (hr : r ∈ (o.own p).refsByDesc) :
    o.holds r = true := by
  rw [← (hi.table p).owner r hr] at hr
  exact decide_eq_true hr

theorem Finds.refl (hi : RefsInv o) {r : Option ℕ} (hr : ∀ k, r = some k → o.holds k = true) :
    Finds o (o, r) := by
  refine ⟨hi, hr, fun k hk => ⟨hk, rfl⟩, fun k hk hk' => ?_⟩
  rw [hk] at hk'
  cases hk'

theorem newRef_finds (hi : RefsInv o) (hn : n < o.node.next) (hnone : refForNode o p n = none) :
    Finds o (newRef o p n, some o.ref.next) := by
  have hnew : ((newRef o p n).ref.get o.ref.next) = _ := o.ref.get_alloc_self _
  have hold : ∀ k, k ≠ o.ref.next → (newRef o p n).ref.get k = o.ref.get k := fun k hk =>
    o.ref.get_alloc_ne k _ hk
  have hinv := hi.newRef hn hnone
  refine ⟨hinv, fun r hr => ?_, fun k hk => ?_, fun k hk hk' => ?_⟩
  · cases hr
    exact hinv.holds_of_mem ((mem_newRef o p n p _).2 (Or.inl ⟨rfl, rfl⟩))
  · have hmem := of_decide_eq_true hk
    have hne : k ≠ o.ref.next := ((hi.table _).below k hmem).ne
    exact ⟨hinv.holds_of_mem ((mem_newRef o p n _ k).2 (Or.inr hmem)), hold k hne⟩
  · have hkn : k = o.ref.next := by
      by_contra hne
      have hmem := of_decide_eq_true hk'
      rw [mem_newRef, hold k hne] at hmem
      rcases hmem with ⟨h, -⟩ | h
      · exact hne h
      · rw [hi.holds_of_mem h] at hk
        cases hk
    intro b
    rw [hkn, hnew]
    cases b <;> rfl

theorem Finds.bugOn {q : Objects × Option ℕ} (h : Finds o q) (c : Bool) {b : Oops}
    (hb : b.isLink = false) : Finds o (q.1.bugOn c b, q.2) :=
  { h with refs := h.refs.congr (sameLinks_bugOn q.1 c hb).tables }

theorem RefCall.finds (hi : RefsInv o) (x : RefCall) : Finds o (x.find o) := by
  have hget : Finds o (o, binderGetRef o x.proc x.target) :=
    .refl hi fun r hr => hi.holds_of_mem (mem_of_binderGetRef hr).1
  have hnode : ∀ n, o.contextMgrNode = some n →
      Finds o (binderGetRefForNode o x.proc n x.kzalloc) := by
    intro n hmgr
    unfold binderGetRefForNode
    split
    · rename_i r hr
      refine .refl hi fun k hk => ?_
      cases hk
      have hmem := (mem_refsByNode_of_refForNode hr).1
      exact hi.holds_of_mem (((hi.table x.proc).same r).1 hmem)
    · rename_i hnone
      split_ifs
      · exact newRef_finds hi (hi.mgr n hmgr) hnone
      · exact .refl hi nofun
  unfold RefCall.find commandRef
  split
  · rename_i n hmgr
    split_ifs
    · exact (hnode n hmgr).bugOn _ rfl
    · exact hget
  · exact hget

end

namespace RefRun

variable {l : RefRun} {x : RefCall}

/-- What holds in every run without such a step. -/
structure Sound (l : RefRun) : Prop where
  refs : RefsInv l.obj
  owed : ∀ b r, 0 ≤ l.owed b r ∧ l.owed b r < 2 ^ 32
  count : ∀ b r, l.obj.holds r = true → (l.obj.ref.get r).count b = Binder.toInt32 (l.owed b r)
  other : ∀ b r, l.obj.holds r = false → l.owed b r = 0
  forwarded : ∀ r, l.forwarded r = if l.owed true r = 0 then 0 else 1

theorem Begins.sound (h : l.Begins) : l.Sound := by
  have howed : ∀ b r, l.owed b r = l.taken b r := by
    intro b r
    simp [RefRun.owed, h.given]
  refine ⟨h.refs, fun b r => ?_, fun b r hr => ?_, fun b r hr => ?_, fun r => ?_⟩
  · rw [howed]
    cases hr : l.obj.holds r with
    | true =>
      have hlt := (h.taken b r hr).1
      omega
    | false => simp [h.other b r hr]
  · rw [howed]
    exact (h.taken b r hr).2
  · rw [howed, h.other b r hr]
    rfl
  · rw [h.forwarded, howed]
    simp

theorem Sound.countsHold (h : l.Sound) : l.CountsHold := by
  refine ⟨fun b r hlt => ?_, fun r => ?_⟩
  · have hpos : 0 < l.owed b r := by
      unfold RefRun.owed
      omega
    have hheld : l.obj.holds r = true := by
      by_contra hn
      rw [h.other b r (by simpa using hn)] at hpos
      exact lt_irrefl _ hpos
    refine ⟨fun hzero => ?_, hheld, ((h.refs.live _ r (of_decide_eq_true hheld)).1)⟩
    rw [h.count b r hheld, toInt32_eq_zero] at hzero
    have hlt := (h.owed b r).2
    omega
  · rw [h.forwarded]
    split_ifs <;> simp

theorem Sound.find (h : l.Sound) (x : RefCall) : Sound { l with obj := (x.find l.obj).1 } := by
  have hf := x.finds h.refs
  have hwas : ∀ k, (x.find l.obj).1.holds k = false → l.obj.holds k = false := by
    intro k hk
    by_contra hne
    rw [(hf.kept k (by simpa using hne)).1] at hk
    cases hk
  refine ⟨hf.refs, h.owed, fun b r hr => ?_, fun b r hr => h.other b r (hwas r hr), h.forwarded⟩
  change ((x.find l.obj).1.ref.get r).count b = Binder.toInt32 (l.owed b r)
  cases hk : l.obj.holds r with
  | true => rw [(hf.kept r hk).2, h.count b r hk]
  | false =>
    rw [hf.fresh r hk hr b, h.other b r hk]
    rfl

theorem Sound.toInt32 (h : l.Sound) : Sound { l with obj := l.obj.toInt32 } := by
  have hholds := (toInt32_sameLinks l.obj).holds
  refine ⟨h.refs.congr (toInt32_sameLinks l.obj).tables, h.owed, fun b r hr => ?_, fun b r hr => ?_,
    h.forwarded⟩
  · rw [hholds] at hr
    change (l.obj.ref.get r).toInt32.count b = Binder.toInt32 (l.owed b r)
    rw [BinderRef.count_toInt32, h.count b r hr, toInt32_toInt32]
  · rw [hholds] at hr
    exact h.other b r hr

theorem eq_zero_of_toInt32 {y : ℤ} (hy : 0 ≤ y ∧ y < 2 ^ 32) : Binder.toInt32 y = 0 ↔ y = 0 := by
  rw [toInt32_eq_zero]
  omega

/-- The ledger after a command about `r`. -/
theorem Sound.countRef (h : l.Sound) {r : ℕ} (hr : l.obj.holds r = true) {c : RefCommand}
    (hroom : c.increases = true → (l.obj.ref.get r).count c.strong ≠ -1) {l' : RefRun}
    (hobj : l'.obj = (countRef l.obj r c).toInt32)
    (howed : ∀ b k, l'.owed b k =
      l.owed b k + if b = c.strong ∧ k = r then c.change l.obj r else 0)
    (hsent : ∀ k, l'.forwarded k = l.forwarded k + if k = r then Binder.toInt32
      ((l'.obj.node.get (l.obj.ref.get r).node).internalStrongRefs -
        (l.obj.node.get (l.obj.ref.get r).node).internalStrongRefs) else 0) : l'.Sound := by
  have hre := countRef_recounts h.refs hr c
  have hnode := countRef_internal l.obj r c hroom
  have hself : ∀ b, (l.obj.ref.get r).count b = Binder.toInt32 (l.owed b r) := fun b =>
    h.count b r hr
  set d := c.change l.obj r with hd
  have hlinks : Links l.obj (Binder.countRef l.obj r c) :=
    countRef_links _ c fun _ => of_decide_eq_true hr
  have hreduce := toInt32_sameLinks (Binder.countRef l.obj r c)
  -- the count stays a word
  have hchange : -1 ≤ d ∧ d ≤ 1 ∧ 0 ≤ l.owed c.strong r + d ∧ l.owed c.strong r + d < 2 ^ 32 := by
    have hb := h.owed c.strong r
    have hs := hself c.strong
    have hzero := eq_zero_of_toInt32 hb
    rw [hd]
    unfold RefCommand.change
    split_ifs with hacc hinc
    · have hne := hroom hinc
      rw [hs] at hne
      have hlast : l.owed c.strong r ≠ 2 ^ 32 - 1 := by
        intro heq
        rw [heq] at hne
        exact hne (by decide)
      omega
    · have hpos : (l.obj.ref.get r).count c.strong ≠ 0 := by
        cases c with
        | increfs => exact absurd rfl hinc
        | acquire => exact absurd rfl hinc
        | release => exact of_decide_eq_true hacc
        | decrefs => exact of_decide_eq_true hacc
      rw [hs, ne_eq, hzero] at hpos
      omega
    · omega
  have howed' : ∀ b k, 0 ≤ l'.owed b k ∧ l'.owed b k < 2 ^ 32 := by
    intro b k
    rw [howed]
    split_ifs with hbk
    · obtain ⟨rfl, rfl⟩ := hbk
      exact hchange.2.2
    · rw [add_zero]
      exact h.owed b k
  have hcount : ∀ b, (l'.obj.ref.get r).count b = Binder.toInt32 (l'.owed b r) := by
    intro b
    rw [hobj]
    refine (BinderRef.count_toInt32 _ b).trans ?_
    rw [hre.count, hself, toInt32_add, howed]
    simp
  refine ⟨?_, howed', fun b k hk => ?_, fun b k hk => ?_, fun k => ?_⟩
  · rw [hobj]
    exact (h.refs.links hlinks).congr hreduce.tables
  · by_cases hkr : k = r
    · rw [hkr]
      exact hcount b
    · obtain ⟨h1, h2⟩ := hre.other k hkr
      rw [hobj, hreduce.holds, h2] at hk
      rw [howed, if_neg (fun hb => hkr hb.2), add_zero, hobj]
      refine (BinderRef.count_toInt32 _ b).trans ?_
      rw [h1, h.count b k hk, toInt32_toInt32]
  · by_cases hkr : k = r
    · rw [hkr] at hk ⊢
      rw [hobj, hreduce.holds] at hk
      have hnone : ∀ b, ((Binder.countRef l.obj r c).ref.get r).count b = 0 := by
        refine hre.held.resolve_left fun heq => ?_
        rw [heq, hr] at hk
        cases hk
      have hzero := hcount b
      rw [hobj] at hzero
      rw [show ((Binder.countRef l.obj r c).toInt32.ref.get r).count b = 0 from
        (BinderRef.count_toInt32 _ b).trans (by rw [hnone b]; rfl)] at hzero
      exact (eq_zero_of_toInt32 (howed' b r)).1 hzero.symm
    · rw [hobj, hreduce.holds, (hre.other k hkr).2] at hk
      rw [howed, if_neg (fun hb => hkr hb.2), add_zero]
      exact h.other b k hk
  · by_cases hkr : k = r
    · rw [hsent, if_pos hkr, hkr, hobj]
      have hint : ((Binder.countRef l.obj r c).toInt32.node.get
          (l.obj.ref.get r).node).internalStrongRefs = Binder.toInt32
            ((Binder.countRef l.obj r c).node.get (l.obj.ref.get r).node).internalStrongRefs := rfl
      rw [hint, toInt32_sub, hnode, add_sub_cancel_left, h.forwarded, howed]
      cases hstrong : c.strong with
      | false => simp [Binder.toInt32]
      | true =>
        rw [hstrong] at hchange
        have hs : (l.obj.ref.get r).strong = Binder.toInt32 (l.owed true r) := hself true
        have h1 := eq_zero_of_toInt32 (h.owed true r)
        have h2 := toInt32_succ_eq_zero (x := l.owed true r) ⟨hchange.1, hchange.2.1⟩
        rw [toInt32_add, eq_zero_of_toInt32 hchange.2.2] at h2
        simp only [hs, h1, ← h2, and_self, if_true]
        split_ifs <;> rfl
    · have hnot : ¬(true = c.strong ∧ k = r) := fun hb => hkr hb.2
      rw [hsent, if_neg hkr, add_zero, h.forwarded, howed, if_neg hnot, add_zero]

theorem Sound.step (h : l.Sound) (hroom : l.wraps x = false) : (l.step x).Sound := by
  have hf := h.find x
  have hfinds := x.finds h.refs
  have hcmd : refCommand32 l.obj x = ((x.find l.obj).2.elim (x.find l.obj).1
      (Binder.countRef (x.find l.obj).1 · x.cmd)).toInt32 := congrArg Objects.toInt32 (refCommand_eq ..)
  unfold RefRun.wraps at hroom
  unfold RefRun.step
  dsimp only
  rw [hcmd]
  generalize x.find l.obj = q at hf hfinds hroom ⊢
  obtain ⟨o, r⟩ := q
  cases r with
  | none => exact hf.toInt32
  | some r =>
    refine hf.countRef (r := r) (c := x.cmd) (hfinds.found r rfl) ?_ rfl (fun b k => ?_) fun k => rfl
    · intro hinc
      simpa [hinc] using hroom
    · unfold RefRun.owed RefCommand.change
      dsimp only
      cases x.cmd.accepted o r <;> cases x.cmd.increases <;>
        by_cases hbk : b = x.cmd.strong ∧ k = r <;>
        simp only [hbk, and_true, and_false, if_true, if_false,
          Bool.false_eq_true, reduceCtorEq] <;> omega

end RefRun

variable {l : RefRun}

/-- As long as no count of 2^32 - 1 is raised, the counts hold in every run. -/
theorem counts_hold (h : refRuns.Reach (fun l x => l.wraps x = false) l) : l.CountsHold := by
  have hsound : l.Sound :=
    h.invariant (fun _ hl => RefRun.Begins.sound hl) fun _ _ hi hx => hi.step hx
  exact hsound.countsHold

/-- A reference of process 1 to a node of process 0, with descriptor 1 and one strong count. -/
def sharedRef : RefRun where
  obj := refMachine.exec {}
    [.newNode 0 5 5 true, .getForNode 1 0 true, .inc 0 true (some (.threadTodo 0))]
  taken b r := if b = true ∧ r = 0 then 1 else 0
  given _ _ := 0
  forwarded r := if r = 0 then 1 else 0

def acquireShared : RefCall := { proc := 1, cmd := .acquire, target := 1 }

theorem sharedRef_begins : sharedRef.Begins := by
  have hi : RefsInv sharedRef.obj := refsInv_empty.links (exec_links _ _)
  have hzero : sharedRef.obj.holds 0 = true := by decide
  have honly : ∀ r, sharedRef.obj.holds r = true → r = 0 := by
    intro r hr
    have hlt : r < 1 := (hi.table _).below r (of_decide_eq_true hr)
    omega
  refine ⟨hi, fun _ _ => rfl, fun b r hr => ?_, fun b r hr => ?_, fun r => ?_⟩
  · rw [honly r hr]
    cases b <;> decide
  · have hne : r ≠ 0 := by
      rintro rfl
      rw [hzero] at hr
      cases hr
    exact if_neg fun h => hne h.2
  · by_cases hr : r = 0 <;> simp [sharedRef, hr]

theorem counts_hold_shared : (refRuns.step sharedRef acquireShared).CountsHold :=
  counts_hold (.step (.start sharedRef_begins) acquireShared (by decide))

/-- The shared reference was taken `k` times and never given back. -/
structure Climbs (l : RefRun) (k : ℕ) : Prop where
  reach : refRuns.Reach (fun _ _ => True) l
  mgr : l.obj.contextMgrNode = none
  get : binderGetRef l.obj 1 1 = some 0
  strong : (l.obj.ref.get 0).strong = toInt32 k
  taken : l.taken true 0 = k
  given : l.given true 0 = 0

theorem SameLinks.binderGetRef {o o' : Objects} (h : SameLinks o o') (p d : ℕ) :
    binderGetRef o' p d = binderGetRef o p d := by
  have hdesc : ∀ r, (o'.ref.get r).desc = (o.ref.get r).desc := fun r =>
    congrArg (·.desc) (h.ref r)
  simp only [Binder.binderGetRef, h.byDesc, hdesc]

theorem Climbs.step {k : ℕ} (h : Climbs l k) (hne : toInt32 k ≠ 0) :
    Climbs (refRuns.step l acquireShared) (k + 1) := by
  have hfind : acquireShared.find l.obj = (l.obj, some 0) := by
    unfold RefCall.find commandRef
    rw [h.mgr]
    exact congrArg (Prod.mk l.obj) h.get
  have hcount : (l.obj.ref.get 0).count true ≠ 0 := by
    rw [← h.strong] at hne
    exact hne
  have hinc := binderIncRef_again hcount none
  have hcmd : refCommand32 l.obj acquireShared = (l.obj.modRef 0 (.raise true)).toInt32 := by
    refine congrArg Objects.toInt32 ((refCommand_eq ..).trans ?_)
    rw [show commandRef l.obj acquireShared.proc acquireShared.cmd acquireShared.target
      acquireShared.kzalloc = (l.obj, some 0) from hfind]
    exact congrArg Prod.fst hinc
  have hobj : (refRuns.step l acquireShared).obj = (l.obj.modRef 0 (.raise true)).toInt32 := by
    simp only [refRuns, RefRun.step, hfind, hcmd]
  have hlinks : SameLinks l.obj (refRuns.step l acquireShared).obj := by
    rw [hobj]
    exact (sameLinks_modRef _ 0 (BinderRef.bare_raise true)).trans (toInt32_sameLinks _)
  refine ⟨h.reach.step _ trivial, ?_, ?_, ?_, ?_, ?_⟩
  · rw [hobj]
    exact h.mgr
  · rw [hlinks.binderGetRef]
    exact h.get
  · rw [hobj]
    have hraise : (l.obj.modRef 0 (.raise true)).ref.get 0 = (l.obj.ref.get 0).raise true :=
      l.obj.ref.get_modify_self 0 _
    change toInt32 ((l.obj.modRef 0 (.raise true)).ref.get 0).strong = _
    rw [hraise]
    change toInt32 ((l.obj.ref.get 0).strong + 1) = _
    rw [h.strong, toInt32_add]
    push_cast
    rfl
  · have hacc : acquireShared.cmd.accepted l.obj 0 = true := congrArg Prod.snd hinc
    simp only [refRuns, RefRun.step, hfind, hacc]
    simp [acquireShared, RefCommand.increases, RefCommand.strong, h.taken]
  · simp only [refRuns, RefRun.step, hfind]
    simp [acquireShared, RefCommand.increases, h.given]

theorem exists_climbs {n : ℕ} (hn : n < 2 ^ 32) : ∃ l, Climbs l (n + 1) := by
  induction n with
  | zero =>
    exact ⟨sharedRef, .start sharedRef_begins, by decide, by decide, by decide, by decide, rfl⟩
  | succ n ih =>
    obtain ⟨l, hl⟩ := ih (by omega)
    refine ⟨_, hl.step fun hzero => ?_⟩
    rw [toInt32_eq_zero] at hzero
    omega

/-- After 2^32 acquires the count is 0. -/
theorem counts_wrap : ¬∀ l, refRuns.Reach (fun _ _ => True) l → l.CountsHold := by
  intro hall
  obtain ⟨l, hl⟩ := exists_climbs (n := 2 ^ 32 - 1) (by norm_num)
  have htaken : l.given true 0 < l.taken true 0 := by
    rw [hl.given, hl.taken]
    norm_num
  refine ((hall l hl.reach).counted true 0 htaken).1 (hl.strong.trans ?_)
  rw [toInt32_eq_zero]
  norm_num

end Binder

import BinderIpc.Driver.Threads
import Mathlib.Data.List.Find

/-! The references of one process: by descriptor no two alike, and what each
function of the driver does to the strong counts that stand behind the descriptors. -/

namespace Binder

structure RefTable (o : Objects) (p : ℕ) : Prop where
  sorted : (o.own p).refsByDesc.Pairwise fun r r' => (o.ref.get r).desc < (o.ref.get r').desc
  nodes : ∀ r ∈ (o.own p).refsByDesc, ∀ r' ∈ (o.own p).refsByDesc,
    (o.ref.get r).node = (o.ref.get r').node → r = r'
  same : ∀ r, r ∈ (o.own p).refsByNode ↔ r ∈ (o.own p).refsByDesc
  nodup : (o.own p).refsByNode.Nodup
  below : ∀ r ∈ (o.own p).refsByDesc, r < o.ref.next
  owner : ∀ r ∈ (o.own p).refsByDesc, (o.ref.get r).proc = p

/-- `ref->strong` for a descriptor of the process; 0 when there is no such reference. -/
def strongCount (o : Objects) (p h : ℕ) : ℤ :=
  (binderGetRef o p h).elim 0 fun r => (o.ref.get r).strong

/-- `ref->node` for a descriptor of the process. -/
def namedNode (o : Objects) (p h : ℕ) : Option ℕ :=
  (binderGetRef o p h).map fun r => (o.ref.get r).node

section

variable {o o' o'' : Objects} {p r h n : ℕ}

theorem mem_of_binderGetRef (hget : binderGetRef o p h = some r) :
    r ∈ (o.own p).refsByDesc ∧ (o.ref.get r).desc = h := by
  unfold binderGetRef at hget
  exact ⟨List.mem_of_find?_eq_some hget, by simpa using List.find?_some hget⟩

theorem RefTable.desc_inj (ht : RefTable o p) {r r' : ℕ} (hr : r ∈ (o.own p).refsByDesc)
    (hr' : r' ∈ (o.own p).refsByDesc) (he : (o.ref.get r).desc = (o.ref.get r').desc) : r = r' := by
  have hnodup : ((o.own p).refsByDesc.map fun r => (o.ref.get r).desc).Nodup :=
    List.pairwise_map.2 (ht.sorted.imp fun hlt => hlt.ne)
  exact List.inj_on_of_nodup_map hnodup hr hr' he

theorem RefTable.get_iff (ht : RefTable o p) :
    binderGetRef o p h = some r ↔ r ∈ (o.own p).refsByDesc ∧ (o.ref.get r).desc = h := by
  refine ⟨mem_of_binderGetRef, fun ⟨hr, hd⟩ => ?_⟩
  cases hget : binderGetRef o p h with
  | none =>
    have hall := List.find?_eq_none.1 hget r hr
    simp [hd] at hall
  | some r' =>
    obtain ⟨hr', hd'⟩ := mem_of_binderGetRef hget
    rw [ht.desc_inj hr hr' (hd.trans hd'.symm)]

theorem RefTable.strongCount_desc (ht : RefTable o p) (hr : r ∈ (o.own p).refsByDesc) :
    strongCount o p (o.ref.get r).desc = (o.ref.get r).strong := by
  unfold strongCount
  rw [ht.get_iff.2 ⟨hr, rfl⟩]
  rfl

theorem RefTable.namedNode_desc (ht : RefTable o p) (hr : r ∈ (o.own p).refsByDesc) :
    namedNode o p (o.ref.get r).desc = some (o.ref.get r).node := by
  unfold namedNode
  rw [ht.get_iff.2 ⟨hr, rfl⟩]
  rfl

theorem exists_of_strongCount (hs : 0 < strongCount o p h) :
    ∃ r, binderGetRef o p h = some r ∧ 0 < (o.ref.get r).strong := by
  unfold strongCount at hs
  cases hget : binderGetRef o p h with
  | none =>
    rw [hget] at hs
    exact absurd hs (lt_irrefl _)
  | some r =>
    rw [hget] at hs
    exact ⟨r, rfl, hs⟩

/-- The strong counts of a process change by `d`, and a descriptor that is counted before and
after keeps its node. -/
structure Recount (p : ℕ) (d : ℕ → ℤ) (o o' : Objects) : Prop where
  table : RefTable o' p
  strong : ∀ k, strongCount o' p k = strongCount o p k + d k
  node : ∀ k, 0 < strongCount o p k → 0 < strongCount o' p k → namedNode o' p k = namedNode o p k

theorem Recount.trans {d d' : ℕ → ℤ} (h : Recount p d o o') (h' : Recount p d' o' o'')
    (hsign : ∀ k, 0 ≤ d k ∨ d' k ≤ 0) : Recount p (fun k => d k + d' k) o o'' where
  table := h'.table
  strong k := by rw [h'.strong, h.strong, add_assoc]
  node k hk hk' := by
    have hmid : 0 < strongCount o' p k := by
      have h1 := h.strong k
      have h2 := h'.strong k
      rcases hsign k with hs | hs <;> omega
    exact (h'.node k hmid hk').trans (h.node k hk hmid)

theorem Recount.congr {d d' : ℕ → ℤ} (h : Recount p d o o') (hd : ∀ k, d k = d' k) :
    Recount p d' o o' := by
  rwa [← funext hd]

/-- A table that is compared row by row. -/
theorem recount_of_rows {d : ℕ → ℤ} (ht : RefTable o p) (ht' : RefTable o' p)
    (hrow : ∀ r ∈ (o'.own p).refsByDesc,
      (r ∈ (o.own p).refsByDesc ∧ (o'.ref.get r).desc = (o.ref.get r).desc ∧
        (o'.ref.get r).node = (o.ref.get r).node ∧
        (o'.ref.get r).strong = (o.ref.get r).strong + d (o.ref.get r).desc) ∨
      ((o'.ref.get r).strong = 0 ∧ d (o'.ref.get r).desc = 0 ∧
        ∀ r₀ ∈ (o.own p).refsByDesc, (o.ref.get r₀).desc ≠ (o'.ref.get r).desc))
    (hgone : ∀ r ∈ (o.own p).refsByDesc, r ∉ (o'.own p).refsByDesc →
      (o.ref.get r).strong + d (o.ref.get r).desc = 0)
    (hkept : ∀ r ∈ (o.own p).refsByDesc, r ∈ (o'.own p).refsByDesc →
      (o'.ref.get r).desc = (o.ref.get r).desc)
    (hnone : ∀ k, (∀ r ∈ (o.own p).refsByDesc, (o.ref.get r).desc ≠ k) → d k = 0) :
    Recount p d o o' := by
  have hold : ∀ k, binderGetRef o p k = none → ∀ r ∈ (o.own p).refsByDesc, (o.ref.get r).desc ≠ k :=
    fun k hget r hr hd => by
      rw [ht.get_iff.2 ⟨hr, hd⟩] at hget
      cases hget
  have hcount : ∀ k, strongCount o' p k = strongCount o p k + d k ∧
      (0 < strongCount o' p k → namedNode o' p k = namedNode o p k) := by
    intro k
    cases hget' : binderGetRef o' p k with
    | some r =>
      obtain ⟨hr', rfl⟩ := mem_of_binderGetRef hget'
      rw [ht'.strongCount_desc hr', ht'.namedNode_desc hr']
      rcases hrow r hr' with ⟨hr, hd, hn, hs⟩ | ⟨hs, hd, hnew⟩
      · rw [hd, ht.strongCount_desc hr, ht.namedNode_desc hr]
        exact ⟨hs, fun _ => congrArg some hn⟩
      · refine ⟨?_, fun hpos => absurd hpos (by simp [hs])⟩
        have hnone' : binderGetRef o p (o'.ref.get r).desc = none := by
          cases hget : binderGetRef o p (o'.ref.get r).desc with
          | none => rfl
          | some r₀ =>
            obtain ⟨hr₀, hd₀⟩ := mem_of_binderGetRef hget
            exact absurd hd₀ (hnew r₀ hr₀)
        unfold strongCount
        rw [hnone', hs, hd]
        rfl
    | none =>
      have hzero : strongCount o' p k = 0 := by
        unfold strongCount
        rw [hget']
        rfl
      refine ⟨?_, fun hpos => absurd hpos (by simp [hzero])⟩
      rw [hzero]
      cases hget : binderGetRef o p k with
      | some r =>
        obtain ⟨hr, rfl⟩ := mem_of_binderGetRef hget
        rw [ht.strongCount_desc hr]
        refine (hgone r hr fun hr' => ?_).symm
        rw [ht'.get_iff.2 ⟨hr', hkept r hr hr'⟩] at hget'
        cases hget'
      | none =>
        unfold strongCount
        rw [hget, hnone k (hold k hget)]
        rfl
  exact ⟨ht', fun k => (hcount k).1, fun k _ => (hcount k).2⟩

/-! What leaves the table alone -/

/-- What another process sees of a step of this one, and of its own steps. -/
structure SameRefs (p : ℕ) (o o' : Objects) : Prop where
  byDesc : (o'.own p).refsByDesc = (o.own p).refsByDesc
  byNode : (o'.own p).refsByNode = (o.own p).refsByNode
  next : o.ref.next ≤ o'.ref.next
  desc : ∀ r ∈ (o.own p).refsByDesc, (o'.ref.get r).desc = (o.ref.get r).desc
  node : ∀ r ∈ (o.own p).refsByDesc, (o'.ref.get r).node = (o.ref.get r).node
  strong : ∀ r ∈ (o.own p).refsByDesc, (o'.ref.get r).strong = (o.ref.get r).strong
  proc : ∀ r ∈ (o.own p).refsByDesc, (o'.ref.get r).proc = (o.ref.get r).proc

theorem SameRefs.recount (h : SameRefs p o o') (ht : RefTable o p) :
    Recount p (fun _ => 0) o o' := by
  have ht' : RefTable o' p := by
    refine ⟨?_, ?_, ?_, ?_, ?_, ?_⟩
    · rw [h.byDesc]
      refine ht.sorted.imp_of_mem fun hr hr' hlt => ?_
      rwa [h.desc _ hr, h.desc _ hr']
    · rw [h.byDesc]
      intro r hr r' hr' he
      rw [h.node r hr, h.node r' hr'] at he
      exact ht.nodes r hr r' hr' he
    · rw [h.byDesc, h.byNode]
      exact ht.same
    · rw [h.byNode]
      exact ht.nodup
    · rw [h.byDesc]
      exact fun r hr => (ht.below r hr).trans_le h.next
    · rw [h.byDesc]
      exact fun r hr => (h.proc r hr).trans (ht.owner r hr)
  refine recount_of_rows ht ht' ?_ ?_ ?_ fun _ _ => rfl
  · rw [h.byDesc]
    exact fun r hr => .inl ⟨hr, h.desc r hr, h.node r hr, by rw [h.strong r hr, add_zero]⟩
  · rw [h.byDesc]
    exact fun r hr hr' => absurd hr hr'
  · exact fun r hr _ => h.desc r hr

/-- The references are left as they are, those of every process. -/
structure KeepsRefs (o o' : Objects) : Prop where
  ref : o'.ref = o.ref
  byDesc : ∀ p, (o'.own p).refsByDesc = (o.own p).refsByDesc
  byNode : ∀ p, (o'.own p).refsByNode = (o.own p).refsByNode

theorem KeepsRefs.refl (o : Objects) : KeepsRefs o o := ⟨rfl, fun _ => rfl, fun _ => rfl⟩

theorem KeepsRefs.trans (h : KeepsRefs o o') (h' : KeepsRefs o' o'') : KeepsRefs o o'' :=
  ⟨h'.ref.trans h.ref, fun p => (h'.byDesc p).trans (h.byDesc p),
    fun p => (h'.byNode p).trans (h.byNode p)⟩

theorem KeepsRefs.same (h : KeepsRefs o o') : SameRefs p o o' where
  byDesc := h.byDesc p
  byNode := h.byNode p
  next := h.ref.symm ▸ le_rfl
  desc r _ := by rw [h.ref]
  node r _ := by rw [h.ref]
  strong r _ := by rw [h.ref]
  proc r _ := by rw [h.ref]

theorem keepsRefs_modNode (o : Objects) (n : ℕ) (f : BinderNode → BinderNode) :
    KeepsRefs o (o.modNode n f) := ⟨rfl, fun _ => rfl, fun _ => rfl⟩

theorem binderIncNode_keepsRefs (o : Objects) (n : ℕ) (strong internal : Bool)
    (targetList : Option ListHead) : KeepsRefs o (binderIncNode o n strong internal targetList).1 := by
  unfold binderIncNode
  dsimp only
  split_ifs
  · exact .refl o
  · split <;> exact ⟨rfl, fun _ => rfl, fun _ => rfl⟩
  · split <;> exact ⟨rfl, fun _ => rfl, fun _ => rfl⟩
  · exact keepsRefs_modNode o n _

theorem nodeUnheld_keepsRefs (o : Objects) (n : ℕ) : KeepsRefs o (nodeUnheld o n) := by
  unfold nodeUnheld
  dsimp only
  split
  · split_ifs <;> exact ⟨rfl, fun _ => rfl, fun _ => rfl⟩
  · split_ifs
    · refine KeepsRefs.trans ?_ (keepsRefs_modNode _ n _)
      split
      · refine ⟨rfl, fun q => ?_, fun q => ?_⟩
        all_goals
          simp only [Objects.modOwn]
          split_ifs with hq
          · rw [hq]
          · rfl
      · exact ⟨rfl, fun _ => rfl, fun _ => rfl⟩
    · exact .refl o

theorem binderDecNode_keepsRefs (o : Objects) (n : ℕ) (strong internal : Bool) :
    KeepsRefs o (binderDecNode o n strong internal) := by
  have h := keepsRefs_modNode o n (.lower strong internal)
  unfold binderDecNode
  dsimp only
  split_ifs
  · exact h
  · exact h.trans (nodeUnheld_keepsRefs _ n)
  · exact h
  · exact h.trans (nodeUnheld_keepsRefs _ n)

/-! The counts -/

theorem modRef_recount (ht : RefTable o p) (hr : r ∈ (o.own p).refsByDesc)
    {f : BinderRef → BinderRef} (hdesc : ∀ x, (f x).desc = x.desc)
    (hnode : ∀ x, (f x).node = x.node) (hproc : ∀ x, (f x).proc = x.proc) {d : ℤ}
    (hstrong : (f (o.ref.get r)).strong = (o.ref.get r).strong + d) :
    Recount p (fun k => if k = (o.ref.get r).desc then d else 0) o (o.modRef r f) := by
  have hd : ∀ r', ((o.modRef r f).ref.get r').desc = (o.ref.get r').desc := fun r' =>
    o.ref.apply_get_modify r r' f (·.desc) hdesc
  have hn : ∀ r', ((o.modRef r f).ref.get r').node = (o.ref.get r').node := fun r' =>
    o.ref.apply_get_modify r r' f (·.node) hnode
  have hp : ∀ r', ((o.modRef r f).ref.get r').proc = (o.ref.get r').proc := fun r' =>
    o.ref.apply_get_modify r r' f (·.proc) hproc
  have ht' : RefTable (o.modRef r f) p := by
    refine ⟨ht.sorted.imp fun hlt => ?_, fun r₁ h₁ r₂ h₂ he => ?_, ht.same, ht.nodup, ht.below,
      fun r' hr' => (hp r').trans (ht.owner r' hr')⟩
    · rwa [hd, hd]
    · rw [hn, hn] at he
      exact ht.nodes r₁ h₁ r₂ h₂ he
  refine recount_of_rows ht ht' (fun r' hr' => .inl ⟨hr', hd r', hn r', ?_⟩)
    (fun r' hr' hne => absurd hr' hne) (fun r' _ _ => hd r') fun k hk => if_neg fun he => ?_
  · by_cases he : r' = r
    · subst he
      rw [if_pos rfl, ← hstrong]
      exact congrArg BinderRef.strong (Heap.get_modify_self ..)
    · have hne : (o.ref.get r').desc ≠ (o.ref.get r).desc := fun heq => he (ht.desc_inj hr' hr heq)
      rw [if_neg hne, add_zero]
      exact congrArg BinderRef.strong (Heap.get_modify_ne _ _ _ _ he)
  · exact hk r hr he.symm

/-- Whether `binder_inc_node` accepts another strong reference. -/
def Countable (o : Objects) (r : ℕ) (targetList : Option ListHead) : Prop :=
  (o.ref.get r).strong ≠ 0 ∨ targetList.isSome ∨
    (o.node.get (o.ref.get r).node).internalStrongRefs ≠ 0 ∨
    (o.contextMgrNode = some (o.ref.get r).node ∧ (o.node.get (o.ref.get r).node).hasStrongRef)

theorem binderIncRef_ok {targetList : Option ListHead} (h : Countable o r targetList) :
    (binderIncRef o r true targetList).2 = true := by
  have hnode : (if (o.ref.get r).strong = 0 then
      binderIncNode o (o.ref.get r).node true true targetList else (o, true)).2 = true := by
    split_ifs with h0
    · have hrest := h.resolve_left (absurd h0)
      unfold binderIncNode
      simp only [if_true]
      split_ifs with hrefused
      · exfalso
        simp only [Bool.and_eq_true, Bool.true_and, Option.isNone_iff_eq_none, decide_eq_true_eq,
          Bool.not_eq_true', Bool.and_eq_false_iff, decide_eq_false_iff_not] at hrefused
        obtain ⟨⟨rfl, hzero⟩, hmgr⟩ := hrefused
        rcases hrest with h | h | ⟨h, h'⟩
        · cases h
        · exact h hzero
        · rcases hmgr with hmgr | hmgr
          · exact hmgr h
          · rw [h'] at hmgr
            cases hmgr
      · split <;> rfl
    · rfl
  unfold binderIncRef
  simp only [BinderRef.count, if_true]
  split
  · rfl
  · rename_i heq
    rw [heq] at hnode
    exact hnode

/-- The node is told first; the count is raised unless it refuses. -/
theorem binderIncRef_steps (o : Objects) (r : ℕ) (strong : Bool) (targetList : Option ListHead) :
    ∃ o₁, KeepsRefs o o₁ ∧
      (binderIncRef o r strong targetList = (o₁.modRef r (.raise strong), true) ∨
        binderIncRef o r strong targetList = (o₁, false)) := by
  have hkeeps : KeepsRefs o (if (o.ref.get r).count strong = 0 then
      binderIncNode o (o.ref.get r).node strong true targetList else (o, true)).1 := by
    split_ifs
    · exact binderIncNode_keepsRefs ..
    · exact .refl o
  unfold binderIncRef
  dsimp only
  generalize (if (o.ref.get r).count strong = 0 then
      binderIncNode o (o.ref.get r).node strong true targetList else (o, true)) = q at hkeeps ⊢
  obtain ⟨o₁, ok⟩ := q
  cases ok with
  | true => exact ⟨o₁, hkeeps, .inl rfl⟩
  | false => exact ⟨o₁, hkeeps, .inr rfl⟩

theorem BinderRef.desc_raise (strong : Bool) (x : BinderRef) : (x.raise strong).desc = x.desc := by
  cases strong <;> rfl

theorem BinderRef.node_raise (strong : Bool) (x : BinderRef) : (x.raise strong).node = x.node := by
  cases strong <;> rfl

theorem binderIncRef_recount (ht : RefTable o p) (hr : r ∈ (o.own p).refsByDesc) (strong : Bool)
    (targetList : Option ListHead)
    (hok : strong = true → (binderIncRef o r true targetList).2 = true) :
    Recount p (fun k => if k = (o.ref.get r).desc then if strong then 1 else 0 else 0) o
      (binderIncRef o r strong targetList).1 := by
  obtain ⟨o₁, hkeeps, heq | heq⟩ := binderIncRef_steps o r strong targetList
  · have hsame := hkeeps.same.recount ht
    have hr₁ : r ∈ (o₁.own p).refsByDesc := by rwa [hkeeps.byDesc p]
    have hmod := modRef_recount hsame.table hr₁ (f := .raise strong) (BinderRef.desc_raise strong)
      (BinderRef.node_raise strong) (fun x => by cases strong <;> rfl)
      (d := if strong then 1 else 0) (by cases strong <;> simp [BinderRef.raise])
    rw [heq]
    refine (hsame.trans hmod fun _ => .inl le_rfl).congr fun k => ?_
    rw [show o₁.ref = o.ref from hkeeps.ref, zero_add]
  · have hweak : strong = false := by
      by_contra hs
      rw [Bool.not_eq_false] at hs
      subst hs
      rw [heq] at hok
      cases hok rfl
    rw [heq]
    refine (hkeeps.same.recount ht).congr fun k => ?_
    rw [hweak]
    simp

/-- The descriptor of the reference names the same node as before. -/
theorem binderIncRef_namedNode (hr : r ∈ (o.own p).refsByDesc) {strong : Bool}
    {targetList : Option ListHead} (ht' : RefTable (binderIncRef o r strong targetList).1 p) :
    namedNode (binderIncRef o r strong targetList).1 p (o.ref.get r).desc =
      some (o.ref.get r).node := by
  obtain ⟨o₁, hkeeps, heq | heq⟩ := binderIncRef_steps o r strong targetList
  · have href : o₁.ref = o.ref := hkeeps.ref
    rw [heq] at ht' ⊢
    have hself : (o₁.modRef r (.raise strong)).ref.get r = (o.ref.get r).raise strong := by
      rw [← href]
      exact Heap.get_modify_self ..
    have hr' : r ∈ ((o₁.modRef r (.raise strong)).own p).refsByDesc := by
      change r ∈ (o₁.own p).refsByDesc
      rwa [hkeeps.byDesc p]
    have hname := ht'.namedNode_desc hr'
    rwa [hself, BinderRef.desc_raise, BinderRef.node_raise] at hname
  · rw [heq] at ht' ⊢
    have hname := ht'.namedNode_desc (r := r) (by rwa [hkeeps.byDesc p])
    rwa [show o₁.ref = o.ref from hkeeps.ref] at hname

theorem RefTable.nodupDesc (ht : RefTable o p) : (o.own p).refsByDesc.Nodup :=
  ht.sorted.imp fun {a b} hlt he => by
    rw [he] at hlt
    exact lt_irrefl _ hlt

theorem binderDeleteRef_recount (ht : RefTable o p) (hr : r ∈ (o.own p).refsByDesc)
    (hzero : (o.ref.get r).strong = 0) : Recount p (fun _ => 0) o (binderDeleteRef o r) := by
  set o₁ := o.modOwn (o.ref.get r).proc fun w =>
    { w with refsByDesc := w.refsByDesc.erase r, refsByNode := w.refsByNode.erase r } with ho₁
  have hstep : ∃ o₅, KeepsRefs o₁ o₅ ∧ binderDeleteRef o r =
      o₅.modRef r fun x => { x with freed := x.freed + 1 } := by
    unfold binderDeleteRef
    dsimp only
    rw [if_neg (fun hne => hne hzero), ← ho₁]
    refine ⟨_, ?_, rfl⟩
    have hdec := (keepsRefs_modNode o₁ (o.ref.get r).node fun y =>
      { y with refs := y.refs.erase r }).trans (binderDecNode_keepsRefs _ (o.ref.get r).node false true)
    split
    · exact hdec.trans ⟨rfl, fun _ => rfl, fun _ => rfl⟩
    · exact hdec
  obtain ⟨o₅, hkeeps, heq⟩ := hstep
  rw [heq]
  set o' := o₅.modRef r fun x => { x with freed := x.freed + 1 } with ho'
  have hD : (o'.own p).refsByDesc = (o.own p).refsByDesc.erase r := by
    refine (hkeeps.byDesc p).trans ?_
    simp [ho₁, Objects.modOwn, ht.owner r hr]
  have hN : (o'.own p).refsByNode = (o.own p).refsByNode.erase r := by
    refine (hkeeps.byNode p).trans ?_
    simp [ho₁, Objects.modOwn, ht.owner r hr]
  have href : ∀ {α : Type} (g : BinderRef → α), (∀ x, g { x with freed := x.freed + 1 } = g x) →
      ∀ r', g (o'.ref.get r') = g (o.ref.get r') := fun g hg r' => by
    rw [← show o₅.ref = o.ref from hkeeps.ref]
    exact o₅.ref.apply_get_modify r r' _ g hg
  have hdesc := href (·.desc) fun _ => rfl
  have hnode := href (·.node) fun _ => rfl
  have hstrong := href (·.strong) fun _ => rfl
  have hproc := href (·.proc) fun _ => rfl
  have hmem : ∀ r', r' ∈ (o'.own p).refsByDesc → r' ∈ (o.own p).refsByDesc := fun r' h' => by
    rw [hD] at h'
    exact List.mem_of_mem_erase h'
  have ht' : RefTable o' p := by
    refine ⟨?_, fun r₁ h₁ r₂ h₂ he => ?_, fun r' => ?_, ?_, fun r' h' => ?_, fun r' h' =>
      (hproc r').trans (ht.owner r' (hmem r' h'))⟩
    · rw [hD]
      refine (ht.sorted.sublist List.erase_sublist).imp fun {a b} hlt => ?_
      rwa [hdesc a, hdesc b]
    · rw [hnode r₁, hnode r₂] at he
      exact ht.nodes r₁ (hmem r₁ h₁) r₂ (hmem r₂ h₂) he
    · rw [hD, hN, ht.nodup.mem_erase_iff, ht.nodupDesc.mem_erase_iff, ht.same]
    · rw [hN]
      exact ht.nodup.erase r
    · have href₅ : o₅.ref = o.ref := hkeeps.ref
      have hnext : o'.ref.next = o.ref.next := by
        rw [← href₅]
        rfl
      rw [hnext]
      exact ht.below r' (hmem r' h')
  refine recount_of_rows ht ht'
    (fun r' h' => .inl ⟨hmem r' h', hdesc r', hnode r', by rw [hstrong r', add_zero]⟩)
    (fun r' h' hgone => ?_) (fun r' _ _ => hdesc r') fun _ _ => rfl
  rw [hD, ht.nodupDesc.mem_erase_iff] at hgone
  have he : r' = r := by
    by_contra hne
    exact hgone ⟨hne, h'⟩
  rw [he, hzero, add_zero]

theorem binderDecRef_recount (ht : RefTable o p) (hr : r ∈ (o.own p).refsByDesc) (strong : Bool)
    (hpos : strong = true → 0 < (o.ref.get r).strong) :
    Recount p (fun k => if k = (o.ref.get r).desc then if strong then -1 else 0 else 0) o
      (binderDecRef o r strong) := by
  unfold binderDecRef
  dsimp only
  by_cases hcount : (o.ref.get r).count strong = 0
  · rw [if_pos hcount]
    refine ((KeepsRefs.refl o).same.recount ht).congr fun k => ?_
    cases strong with
    | true => exact absurd hcount (hpos rfl).ne'
    | false => simp
  · rw [if_neg hcount]
    have hmod := modRef_recount ht hr (f := .lower strong)
      (fun x => by cases strong <;> rfl) (fun x => by cases strong <;> rfl)
      (fun x => by cases strong <;> rfl) (d := if strong then -1 else 0)
      (by cases strong <;> simp [BinderRef.lower, sub_eq_add_neg])
    set o₁ := o.modRef r (.lower strong)
    have hkeeps : KeepsRefs o₁ (if strong = true ∧ (o₁.ref.get r).strong = 0 then
        binderDecNode o₁ (o.ref.get r).node true true else o₁) := by
      split_ifs
      · exact binderDecNode_keepsRefs ..
      · exact .refl o₁
    set o₂ := if strong = true ∧ (o₁.ref.get r).strong = 0 then
      binderDecNode o₁ (o.ref.get r).node true true else o₁
    have h₂ := (hmod.trans (hkeeps.same.recount hmod.table) fun _ => .inr le_rfl).congr
      fun k => add_zero _
    by_cases hdel : (o₂.ref.get r).strong = 0 ∧ (o₂.ref.get r).weak = 0
    · have hr₂ : r ∈ (o₂.own p).refsByDesc := by
        rw [hkeeps.byDesc p]
        exact hr
      rw [if_pos hdel]
      exact (h₂.trans (binderDeleteRef_recount h₂.table hr₂ hdel.1) fun _ => .inr le_rfl).congr
        fun k => add_zero _
    · rw [if_neg hdel]
      exact h₂

/-! New references -/

theorem pairwise_treeInsert {key : ℕ → ℕ} {a : ℕ} {l : List ℕ}
    (hl : l.Pairwise fun b c => key b < key c) (ha : ∀ b ∈ l, key b ≠ key a) :
    (treeInsert key a l).Pairwise fun b c => key b < key c := by
  induction l with
  | nil => exact List.pairwise_singleton _ a
  | cons b l ih =>
    obtain ⟨hb, hl⟩ := List.pairwise_cons.1 hl
    by_cases hlt : key b < key a
    · have heq : treeInsert key a (b :: l) = b :: treeInsert key a l := by simp [treeInsert, hlt]
      rw [heq]
      refine List.pairwise_cons.2 ⟨fun c hc => ?_, ih hl fun c hc => ha c (List.mem_cons_of_mem b hc)⟩
      rcases mem_treeInsert.1 hc with rfl | hc
      · exact hlt
      · exact hb c hc
    · have heq : treeInsert key a (b :: l) = a :: b :: l := by simp [treeInsert, hlt]
      have hab : key a < key b := lt_of_le_of_ne (not_lt.1 hlt) (ha b List.mem_cons_self).symm
      rw [heq]
      refine List.pairwise_cons.2 ⟨fun c hc => ?_, List.pairwise_cons.2 ⟨hb, hl⟩⟩
      rcases List.mem_cons.1 hc with rfl | hc
      · exact hab
      · exact hab.trans (hb c hc)

theorem le_unusedDesc (o : Objects) (d : ℕ) (l : List ℕ) : d ≤ unusedDesc o d l ∨
    ∃ r ∈ l, (o.ref.get r).desc < unusedDesc o d l := by
  induction l generalizing d with
  | nil => exact .inl le_rfl
  | cons r l ih =>
    unfold unusedDesc
    split_ifs with hlt
    · exact .inl le_rfl
    · rcases ih ((o.ref.get r).desc + 1) with h | ⟨r', hr', h⟩
      · exact .inr ⟨r, List.mem_cons_self, h⟩
      · exact .inr ⟨r', List.mem_cons_of_mem r hr', h⟩

/-- The descriptor that the loop finds is not in use. -/
theorem unusedDesc_ne {l : List ℕ}
    (hl : l.Pairwise fun r r' => (o.ref.get r).desc < (o.ref.get r').desc) (d : ℕ) :
    ∀ r ∈ l, (o.ref.get r).desc ≠ unusedDesc o d l := by
  induction l generalizing d with
  | nil => simp
  | cons r l ih =>
    obtain ⟨hr, hl⟩ := List.pairwise_cons.1 hl
    unfold unusedDesc
    intro r' hr'
    split_ifs with hlt
    · rcases List.mem_cons.1 hr' with rfl | hr'
      · exact hlt.ne'
      · exact (hlt.trans (hr r' hr')).ne'
    · rcases List.mem_cons.1 hr' with rfl | hr'
      · rcases le_unusedDesc o ((o.ref.get r').desc + 1) l with hle | ⟨r'', h'', hle⟩
        · exact (Nat.lt_of_succ_le hle).ne
        · exact ((hr r'' h'').trans hle).ne
      · exact ih hl _ r' hr'

theorem mem_refsByNode_of_refForNode (hget : refForNode o p n = some r) :
    r ∈ (o.own p).refsByNode ∧ (o.ref.get r).node = n := by
  unfold refForNode at hget
  exact ⟨List.mem_of_find?_eq_some hget, by simpa using List.find?_some hget⟩

theorem newRef_recount (ht : RefTable o p) (hnone : refForNode o p n = none) :
    Recount p (fun _ => 0) o (newRef o p n) ∧ o.ref.next ∈ ((newRef o p n).own p).refsByDesc ∧
      ((newRef o p n).ref.get o.ref.next).node = n := by
  set r := o.ref.next
  set d := unusedDesc o (if o.contextMgrNode = some n then 0 else 1) (o.own p).refsByDesc with hd
  have hself : (newRef o p n).ref.get r = { proc := p, node := n, desc := d } :=
    Heap.get_alloc_self ..
  have hold : ∀ r' ∈ (o.own p).refsByDesc, (newRef o p n).ref.get r' = o.ref.get r' := fun r' hr' =>
    o.ref.get_alloc_ne r' _ (ht.below r' hr').ne
  have hD : ((newRef o p n).own p).refsByDesc =
      treeInsert (fun r' => ((newRef o p n).ref.get r').desc) r (o.own p).refsByDesc := by
    simp only [newRef, Objects.modOwn, Objects.modNode, Objects.bugOn, if_true]
    rfl
  have hN : ((newRef o p n).own p).refsByNode =
      treeInsert (fun r' => ((newRef o p n).ref.get r').node) r (o.own p).refsByNode := by
    simp only [newRef, Objects.modOwn, Objects.modNode, Objects.bugOn, if_true]
    rfl
  have hmem : ∀ r', r' ∈ ((newRef o p n).own p).refsByDesc ↔ r' = r ∨ r' ∈ (o.own p).refsByDesc :=
    fun r' => by rw [hD, mem_treeInsert]
  have hfresh : r ∉ (o.own p).refsByDesc := fun h => lt_irrefl _ (ht.below r h)
  have hnode : ∀ r' ∈ (o.own p).refsByDesc, (o.ref.get r').node ≠ n := fun r' hr' he => by
    have hall := List.find?_eq_none.1 hnone r' ((ht.same r').2 hr')
    simp [he] at hall
  have hdesc : ∀ r' ∈ (o.own p).refsByDesc, (o.ref.get r').desc ≠ d := unusedDesc_ne ht.sorted _
  have ht' : RefTable (newRef o p n) p := by
    refine ⟨?_, fun r₁ h₁ r₂ h₂ he => ?_, fun r' => ?_, ?_, fun r' hr' => ?_, fun r' hr' => ?_⟩
    · rw [hD]
      refine pairwise_treeInsert (ht.sorted.imp_of_mem fun ha hb hlt => ?_) fun r' hr' => ?_
      · rwa [hold _ ha, hold _ hb]
      · rw [hold r' hr', hself]
        exact hdesc r' hr'
    · rcases (hmem r₁).1 h₁ with rfl | h₁ <;> rcases (hmem r₂).1 h₂ with rfl | h₂
      · rfl
      · rw [hself, hold r₂ h₂] at he
        exact absurd he.symm (hnode r₂ h₂)
      · rw [hself, hold r₁ h₁] at he
        exact absurd he (hnode r₁ h₁)
      · rw [hold r₁ h₁, hold r₂ h₂] at he
        exact ht.nodes r₁ h₁ r₂ h₂ he
    · rw [hmem, hN, mem_treeInsert, ht.same]
    · rw [hN]
      exact nodup_treeInsert ht.nodup fun h => hfresh ((ht.same r).1 h)
    · rcases (hmem r').1 hr' with rfl | hr'
      · exact Nat.lt_succ_self _
      · exact (ht.below r' hr').trans (Nat.lt_succ_self _)
    · rcases (hmem r').1 hr' with rfl | hr'
      · rw [hself]
      · rw [hold r' hr']
        exact ht.owner r' hr'
  refine ⟨recount_of_rows ht ht' (fun r' hr' => ?_)
    (fun r' hr' hgone => absurd ((hmem r').2 (.inr hr')) hgone)
    (fun r' hr' _ => by rw [hold r' hr']) fun _ _ => rfl, (hmem r).2 (.inl rfl), by rw [hself]⟩
  rcases (hmem r').1 hr' with rfl | hr'
  · rw [hself]
    exact .inr ⟨rfl, rfl, hdesc⟩
  · rw [hold r' hr', add_zero]
    exact .inl ⟨hr', rfl, rfl, rfl⟩

theorem binderGetRefForNode_recount (ht : RefTable o p) (kzalloc : Bool) :
    Recount p (fun _ => 0) o (binderGetRefForNode o p n kzalloc).1 ∧
      ∀ r, (binderGetRefForNode o p n kzalloc).2 = some r →
        r ∈ ((binderGetRefForNode o p n kzalloc).1.own p).refsByDesc ∧
          ((binderGetRefForNode o p n kzalloc).1.ref.get r).node = n := by
  have hrefl := (KeepsRefs.refl o).same.recount ht
  unfold binderGetRefForNode
  cases hfind : refForNode o p n with
  | some r =>
    obtain ⟨hr, hn⟩ := mem_refsByNode_of_refForNode hfind
    refine ⟨hrefl, fun r' he => ?_⟩
    obtain rfl : r = r' := Option.some.inj he
    exact ⟨(ht.same r).1 hr, hn⟩
  | none =>
    dsimp only
    split_ifs
    · obtain ⟨hcount, hmem, hn⟩ := newRef_recount ht hfind
      refine ⟨hcount, fun r' he => ?_⟩
      obtain rfl : o.ref.next = r' := Option.some.inj he
      exact ⟨hmem, hn⟩
    · exact ⟨hrefl, fun r' he => by cases he⟩

/-! The commands of the process -/

def RefCommand.delta : RefCommand → ℤ
  | acquire => 1
  | release => -1
  | increfs | decrefs => 0

/-- The last part of `refCommand`, for a reference that exists. -/
def countRef (o : Objects) (r : ℕ) : RefCommand → Objects
  | .increfs => (binderIncRef o r false none).1
  | .acquire => (binderIncRef o r true none).1
  | .release => binderDecRef o r true
  | .decrefs => binderDecRef o r false

/-- The first part: the reference that the command is about. -/
def commandRef (o : Objects) (p : ℕ) (c : RefCommand) (target : ℕ) (kzalloc : Bool) :
    Objects × Option ℕ :=
  match o.contextMgrNode with
  | some n =>
    if target = 0 ∧ (c = .increfs ∨ c = .acquire) then
      ((binderGetRefForNode o p n kzalloc).1.bugOn (binderGetRefForNode o p n kzalloc).2.isNone
        .refAllocation, (binderGetRefForNode o p n kzalloc).2)
    else (o, binderGetRef o p target)
  | none => (o, binderGetRef o p target)

theorem countRef_elim (q : Objects × Option ℕ) (c : RefCommand) : (match q.2 with
    | none => q.1
    | some r => countRef q.1 r c) = q.2.elim q.1 (countRef q.1 · c) := by
  cases q.2 <;> rfl

theorem refCommand_eq (c : RefCommand) (target : ℕ) (kzalloc : Bool) :
    refCommand o p c target kzalloc = (commandRef o p c target kzalloc).2.elim
      (commandRef o p c target kzalloc).1 (countRef (commandRef o p c target kzalloc).1 · c) := by
  rw [← countRef_elim]
  cases c <;> rfl

theorem refCount_recount (ht : RefTable o p) (hr : r ∈ (o.own p).refsByDesc) (c : RefCommand)
    (hpos : c.delta ≠ 0 → 0 < (o.ref.get r).strong) :
    Recount p (fun k => if k = (o.ref.get r).desc then c.delta else 0) o (countRef o r c) := by
  cases c with
  | increfs => exact binderIncRef_recount ht hr false none fun h => by cases h
  | acquire =>
    exact binderIncRef_recount ht hr true none fun _ =>
      binderIncRef_ok (.inl (hpos (by simp [RefCommand.delta])).ne')
  | release =>
    exact binderDecRef_recount ht hr true fun _ => hpos (by simp [RefCommand.delta])
  | decrefs => exact binderDecRef_recount ht hr false fun h => by cases h

theorem refCommand_recount (ht : RefTable o p) (c : RefCommand) (target : ℕ) (kzalloc : Bool)
    (hmgr : c = .acquire → target = 0 → ∀ n, o.contextMgrNode = some n →
      namedNode o p 0 = some n)
    (hpos : c.delta ≠ 0 → 0 < strongCount o p target) :
    Recount p (fun k => if k = target then c.delta else 0) o (refCommand o p c target kzalloc) := by
  have hfound : Recount p (fun k => if k = target then c.delta else 0) o
      ((binderGetRef o p target).elim o (countRef o · c)) := by
    cases hget : binderGetRef o p target with
    | none =>
      refine ((KeepsRefs.refl o).same.recount ht).congr fun k => ?_
      by_cases hz : c.delta = 0
      · simp [hz]
      · obtain ⟨r, hr, -⟩ := exists_of_strongCount (hpos hz)
        rw [hget] at hr
        cases hr
    | some r =>
      obtain ⟨hr, rfl⟩ := mem_of_binderGetRef hget
      rw [ht.strongCount_desc hr] at hpos
      exact refCount_recount ht hr c hpos
  rw [refCommand_eq]
  unfold commandRef
  cases hctx : o.contextMgrNode with
  | none => exact hfound
  | some n =>
    dsimp only
    by_cases hinc : target = 0 ∧ (c = .increfs ∨ c = .acquire)
    · rw [if_pos hinc]
      obtain ⟨rfl, hc⟩ := hinc
      obtain ⟨hcount, hspec⟩ := binderGetRefForNode_recount (n := n) ht kzalloc
      have hbug : ∀ o₁ : Objects, ∀ b, KeepsRefs o₁ (o₁.bugOn b .refAllocation) := fun _ _ =>
        ⟨rfl, fun _ => rfl, fun _ => rfl⟩
      rcases hc with rfl | rfl
      · -- a weak count on whatever reference the context manager has
        generalize binderGetRefForNode o p n kzalloc = q at hcount hspec ⊢
        obtain ⟨o₁, _ | r⟩ := q
        · exact ((hcount.trans ((hbug o₁ true).same.recount hcount.table) fun _ => .inl le_rfl)).congr
            fun k => by simp [RefCommand.delta]
        · have h₁ := (hbug o₁ false).same.recount hcount.table
          have h₂ := refCount_recount h₁.table (hspec r rfl).1 .increfs fun h => absurd rfl h
          exact ((hcount.trans h₁ fun _ => .inl le_rfl).trans h₂ fun _ => .inl le_rfl).congr
            fun k => by simp [RefCommand.delta]
      · -- descriptor 0 names the context manager, so its reference is the one found
        have hfind : binderGetRefForNode o p n kzalloc = (o, binderGetRef o p 0) := by
          have hname := hmgr rfl rfl n hctx
          unfold namedNode at hname
          obtain ⟨r, hget, hn⟩ := Option.map_eq_some_iff.1 hname
          have hr := (mem_of_binderGetRef hget).1
          have href : refForNode o p n = some r := by
            cases hfind : refForNode o p n with
            | none =>
              have hall := List.find?_eq_none.1 hfind r ((ht.same r).2 hr)
              simp [hn] at hall
            | some r' =>
              obtain ⟨hr', hn'⟩ := mem_refsByNode_of_refForNode hfind
              rw [ht.nodes r' ((ht.same r').1 hr') r hr (hn'.trans hn.symm)]
          unfold binderGetRefForNode
          rw [href, hget]
        rw [hfind]
        cases hget : binderGetRef o p 0 with
        | none =>
          obtain ⟨r, hr, -⟩ := exists_of_strongCount (hpos (by simp [RefCommand.delta]))
          rw [hget] at hr
          cases hr
        | some r =>
          obtain ⟨hr, hd⟩ := mem_of_binderGetRef hget
          have h₁ := (hbug o false).same.recount ht
          have hp := hpos (by simp [RefCommand.delta])
          rw [← hd, ht.strongCount_desc hr] at hp
          have h₂ := refCount_recount h₁.table (r := r) hr .acquire fun _ => hp
          rw [show ((o.bugOn false .refAllocation).ref.get r).desc = 0 from hd] at h₂
          exact (h₁.trans h₂ fun _ => .inl le_rfl).congr fun k => zero_add _
    · rw [if_neg hinc]
      exact hfound

end

end Binder

import BinderIpc.Driver.Links

/-! Nodes and what counts them: the references that hang on a node, the strong
ones among them, and where a node and its work item may be while it is not freed. -/

namespace Binder

/-- A node without what its owner and the senders of objects change in it. -/
def BinderNode.core (x : BinderNode) : BinderNode :=
  { x with
    cookie := 0, localWeakRefs := 0, localStrongRefs := 0, pendingStrongRef := false
    pendingWeakRef := false, hasAsyncTransaction := false, acceptFds := false }

/-- The references of a node with a strong count. -/
def strongRefs (o : Objects) (n : ℕ) : ℕ :=
  (o.node.get n).refs.countP fun r => (o.ref.get r).strong ≠ 0

/-- What is known outside the objects: which lists a process has, and what it was told of a node. -/
structure NodeScope where
  home : ℕ → ListHead → Prop
  procTodo : ∀ p, home p (.procTodo p)
  asyncTodo : ∀ p n, ¬home p (.asyncTodo n)
  /-- a weak and a strong reference, for a node; nothing when the commands were out of order -/
  view : ℕ → Option (Bool × Bool)
  /-- a command for a node was written for a thread -/
  sent : ℕ → ℕ → Prop
  /-- no command for a node was lost -/
  whole : Prop
  /-- processes that are sent objects only by each other -/
  insider : ℕ → Prop
  /-- processes that were released -/
  gone : ℕ → Prop

/-- A process may be given a reference to the node. -/
def NodeScope.MayName (K : NodeScope) (o : Objects) (p n : ℕ) : Prop :=
  ¬K.gone p ∧ (K.insider p → (o.node.get n).ptr ≠ 0 → ∀ q, (o.node.get n).proc = some q → K.insider q)

structure NodeFacts (K : NodeScope) (o : Objects) : Prop where
  count : ∀ n, (o.node.get n).internalStrongRefs = strongRefs o n
  nonneg : ∀ r, 0 ≤ (o.ref.get r).strong ∧ 0 ≤ (o.ref.get r).weak
  tree : ∀ p, ∀ n ∈ (o.own p).nodes,
    (o.node.get n).freed = 0 ∧ (o.node.get n).proc = some p ∧ n < o.node.next
  nodup : ∀ p, (o.own p).nodes.Nodup
  dead : ∀ n ∈ o.deadNodes,
    (o.node.get n).freed = 0 ∧ (o.node.get n).proc = none ∧ n < o.node.next
  deadNodup : o.deadNodes.Nodup
  alive : ∀ n, (o.node.get n).ptr ≠ 0 → (o.node.get n).refs ≠ [] → (o.node.get n).freed = 0
  mgr : ∀ n, o.contextMgrNode = some n → (o.node.get n).ptr = 0
  home : ∀ l n, (l, .node n) ∈ o.todo.entries → ∃ p, (o.node.get n).proc = some p ∧ K.home p l
  unborn : ∀ n, o.node.next ≤ n → (o.node.get n).proc = none
  told : K.whole → ∀ n, (o.node.get n).ptr ≠ 0 →
    K.view n = some ((o.node.get n).hasWeakRef, (o.node.get n).hasStrongRef)
  born : K.whole → ∀ n, o.node.next ≤ n → K.view n = some (false, false)
  sent : ∀ n T, K.sent n T → n < o.node.next ∧
    ∃ p, K.home p (.threadTodo T) ∧ ((o.node.get n).proc = some p ∨ (o.node.get n).proc = none)
  confined : ∀ p, K.insider p → ∀ r ∈ (o.own p).refsByDesc, (o.node.get (o.ref.get r).node).ptr ≠ 0 →
    ∀ q, (o.node.get (o.ref.get r).node).proc = some q → K.insider q
  empty : ∀ p, K.gone p → (o.own p).refsByDesc = [] ∧ (o.own p).nodes = []

/-! Steps that leave all this alone -/

structure SameNodes (o o' : Objects) : Prop where
  next : o'.node.next = o.node.next
  core : ∀ n, (o'.node.get n).core = (o.node.get n).core
  count : ∀ r, (o'.ref.get r).strong = (o.ref.get r).strong ∧ (o'.ref.get r).weak = (o.ref.get r).weak
  target : ∀ r, (o'.ref.get r).node = (o.ref.get r).node
  listed : ∀ p, (o'.own p).refsByDesc.Sublist (o.own p).refsByDesc
  trees : ∀ p, (o'.own p).nodes = (o.own p).nodes
  dead : o'.deadNodes = o.deadNodes
  mgr : ∀ n, o'.contextMgrNode = some n → o.contextMgrNode = some n
  entry : ∀ l n, (l, .node n) ∈ o'.todo.entries → (l, .node n) ∈ o.todo.entries

namespace SameNodes

variable {o o' o'' : Objects}

theorem refl (o : Objects) : SameNodes o o :=
  ⟨rfl, fun _ => rfl, fun _ => ⟨rfl, rfl⟩, fun _ => rfl, fun _ => .refl _, fun _ => rfl, rfl,
    fun _ => id, fun _ _ => id⟩

theorem trans (h : SameNodes o o') (h' : SameNodes o' o'') : SameNodes o o'' where
  next := h'.next.trans h.next
  core n := (h'.core n).trans (h.core n)
  count r := ⟨(h'.count r).1.trans (h.count r).1, (h'.count r).2.trans (h.count r).2⟩
  target r := (h'.target r).trans (h.target r)
  listed p := (h'.listed p).trans (h.listed p)
  trees p := (h'.trees p).trans (h.trees p)
  dead := h'.dead.trans h.dead
  mgr n hn := h.mgr n (h'.mgr n hn)
  entry l n hn := h.entry l n (h'.entry l n hn)

theorem ite {c : Prop} [Decidable c] (h : SameNodes o o') (h' : SameNodes o o'') :
    SameNodes o (if c then o' else o'') := by
  split_ifs <;> assumption

section

variable (h : SameNodes o o') (n : ℕ)

include h

theorem proc : (o'.node.get n).proc = (o.node.get n).proc := (congrArg BinderNode.proc (h.core n) :)

theorem ptr : (o'.node.get n).ptr = (o.node.get n).ptr := (congrArg BinderNode.ptr (h.core n) :)

theorem refs : (o'.node.get n).refs = (o.node.get n).refs := (congrArg BinderNode.refs (h.core n) :)

theorem freed : (o'.node.get n).freed = (o.node.get n).freed := (congrArg BinderNode.freed (h.core n) :)

theorem internal : (o'.node.get n).internalStrongRefs = (o.node.get n).internalStrongRefs :=
  (congrArg BinderNode.internalStrongRefs (h.core n) :)

theorem flags : ((o'.node.get n).hasWeakRef, (o'.node.get n).hasStrongRef) =
    ((o.node.get n).hasWeakRef, (o.node.get n).hasStrongRef) :=
  (congrArg (fun x : BinderNode => (x.hasWeakRef, x.hasStrongRef)) (h.core n) :)

theorem strongRefs : strongRefs o' n = strongRefs o n := by
  unfold Binder.strongRefs
  rw [h.refs]
  exact List.countP_congr fun r _ => by rw [(h.count r).1]

end

end SameNodes

section

variable {K : NodeScope} {o o' : Objects}

theorem NodeFacts.congr (h : NodeFacts K o) (hs : SameNodes o o') : NodeFacts K o' where
  count n := by
    rw [hs.internal, hs.strongRefs]
    exact h.count n
  nonneg r := by
    rw [(hs.count r).1, (hs.count r).2]
    exact h.nonneg r
  tree p n hn := by
    rw [hs.trees] at hn
    rw [hs.freed, hs.proc, hs.next]
    exact h.tree p n hn
  nodup p := by
    rw [hs.trees]
    exact h.nodup p
  dead n hn := by
    rw [hs.dead] at hn
    rw [hs.freed, hs.proc, hs.next]
    exact h.dead n hn
  deadNodup := hs.dead ▸ h.deadNodup
  alive n := by
    rw [hs.ptr, hs.refs, hs.freed]
    exact h.alive n
  mgr n hn := (hs.ptr n).trans (h.mgr n (hs.mgr n hn))
  home l n hn := by
    rw [hs.proc]
    exact h.home l n (hs.entry l n hn)
  unborn n hn := (hs.proc n).trans (h.unborn n (hs.next ▸ hn))
  told hw n := by
    rw [hs.ptr, hs.flags]
    exact h.told hw n
  born hw n := by
    rw [hs.next]
    exact h.born hw n
  sent n T := by
    rw [hs.next, hs.proc]
    exact h.sent n T
  confined p hp r hr := by
    rw [hs.target, hs.ptr, hs.proc]
    exact h.confined p hp r ((hs.listed p).subset hr)
  empty p hp := by
    obtain ⟨h1, h2⟩ := h.empty p hp
    exact ⟨List.sublist_nil.1 (h1 ▸ hs.listed p), (hs.trees p).trans h2⟩

theorem NodeFacts.ite {c : Prop} [Decidable c] {o₁ o₂ : Objects} (h₁ : NodeFacts K o₁)
    (h₂ : NodeFacts K o₂) : NodeFacts K (if c then o₁ else o₂) := by
  split_ifs <;> assumption

/-- The item of a node goes to a list of its owner. -/
theorem NodeFacts.queue (h : NodeFacts K o) {q : Queues ListHead Work}
    (hq : ∀ l n, (l, .node n) ∈ q.entries → (l, .node n) ∈ o.todo.entries ∨
      ∃ p, (o.node.get n).proc = some p ∧ K.home p l) : NodeFacts K { o with todo := q } :=
  { h with home := fun l n hn => (hq l n hn).elim (h.home l n) id }

variable (o) (n r p : ℕ)

theorem sameNodes_modNode {f : BinderNode → BinderNode} (hf : ∀ x, (f x).core = x.core) :
    SameNodes o (o.modNode n f) :=
  { SameNodes.refl o with core := fun m => o.node.apply_get_modify n m f BinderNode.core hf }

theorem sameNodes_modRef {f : BinderRef → BinderRef}
    (hf : ∀ x, (f x).strong = x.strong ∧ (f x).weak = x.weak ∧ (f x).node = x.node) :
    SameNodes o (o.modRef r f) :=
  { SameNodes.refl o with
    count := fun r' => ⟨o.ref.apply_get_modify r r' f (·.strong) fun x => (hf x).1,
      o.ref.apply_get_modify r r' f (·.weak) fun x => (hf x).2.1⟩
    target := fun r' => o.ref.apply_get_modify r r' f (·.node) fun x => (hf x).2.2 }

theorem sameNodes_bugOn (c : Bool) (b : Oops) : SameNodes o (o.bugOn c b) :=
  { SameNodes.refl o with }

theorem sameNodes_modDeath (d : ℕ) (f : BinderRefDeath → BinderRefDeath) :
    SameNodes o (o.modDeath d f) := { SameNodes.refl o with }

/-- A change of the trees and of the files of a process that keeps its nodes. -/
theorem sameNodes_modOwn {f : ProcObjects → ProcObjects} (hf : ∀ w, (f w).nodes = w.nodes)
    (hr : ∀ w, (f w).refsByDesc.Sublist w.refsByDesc) : SameNodes o (o.modOwn p f) :=
  { SameNodes.refl o with
    listed := fun q => by
      simp only [Objects.modOwn]
      split_ifs with hq
      · rw [hq]
        exact hr _
      · exact .refl _
    trees := fun q => by
      simp only [Objects.modOwn]
      split_ifs with hq
      · rw [hq]
        exact hf _
      · rfl }

theorem sameNodes_todo {q : Queues ListHead Work}
    (hq : ∀ l n, (l, .node n) ∈ q.entries → (l, .node n) ∈ o.todo.entries) :
    SameNodes o { o with todo := q } := { SameNodes.refl o with entry := hq }

variable {w : Work} (l : ListHead)

theorem sameNodes_addTail (hw : ∀ n, .node n ≠ w) :
    SameNodes o { o with todo := o.todo.addTail l w } :=
  sameNodes_todo o fun _ n hn => (Queues.mem_addTail.1 hn).resolve_right fun he => hw n he.2

theorem sameNodes_del : SameNodes o { o with todo := o.todo.del w } :=
  sameNodes_todo o fun _ _ hn => (Queues.mem_del.1 hn).1

theorem sameNodes_moveTail (hw : ∀ n, .node n ≠ w) :
    SameNodes o { o with todo := o.todo.moveTail l w } :=
  sameNodes_todo o fun _ n hn =>
    ((Queues.mem_moveTail.1 hn).resolve_right fun he => hw n he.2).1

theorem sameNodes_moveHead (hw : ∀ n, .node n ≠ w) :
    SameNodes o { o with todo := o.todo.moveHead l w } :=
  sameNodes_todo o fun _ n hn =>
    ((Queues.mem_moveHead.1 hn).resolve_right fun he => hw n he.2).1

end

/-! Local counts -/

section

variable {K : NodeScope} {o : Objects} {n : ℕ}

theorem BinderNode.core_raise (strong : Bool) (x : BinderNode) : (x.raise strong false).core = x.core := by
  cases strong <;> rfl

theorem BinderNode.core_lower (strong : Bool) (x : BinderNode) : (x.lower strong false).core = x.core := by
  cases strong <;> rfl

/-- The item of a node of `p` is put on the list that was asked for, or stays. -/
theorem NodeFacts.moveNode (h : NodeFacts K o) {p : ℕ} {l : ListHead}
    (hp : (o.node.get n).proc = some p) (hl : K.home p l) :
    NodeFacts K { o with todo := o.todo.moveTail l (.node n) } := by
  refine h.queue fun l' m hm => ?_
  rcases Queues.mem_moveTail.1 hm with ⟨h1, -⟩ | ⟨rfl, he⟩
  · exact Or.inl h1
  · cases he
    exact Or.inr ⟨p, hp, hl⟩

theorem NodeFacts.addNode (h : NodeFacts K o) {p : ℕ} {l : ListHead}
    (hp : (o.node.get n).proc = some p) (hl : K.home p l) :
    NodeFacts K { o with todo := o.todo.addTail l (.node n) } := by
  refine h.queue fun l' m hm => ?_
  rcases Queues.mem_addTail.1 hm with h1 | ⟨rfl, he⟩
  · exact Or.inl h1
  · cases he
    exact Or.inr ⟨p, hp, hl⟩

/-- A list that a caller may give for the work of the node. -/
def NodeScope.Targets (K : NodeScope) (o : Objects) (n : ℕ) (targetList : Option ListHead) : Prop :=
  ∀ l, targetList = some l → ∃ p, (o.node.get n).proc = some p ∧ K.home p l

theorem NodeScope.targets_none (K : NodeScope) (o : Objects) (n : ℕ) : K.Targets o n none :=
  fun _ h => by cases h

theorem binderIncNode_facts (h : NodeFacts K o) (strong : Bool) {targetList : Option ListHead}
    (hl : K.Targets o n targetList) :
    NodeFacts K (binderIncNode o n strong false targetList).1 := by
  have hmod := h.congr (sameNodes_modNode o n (BinderNode.core_raise strong))
  have hproc : ((o.modNode n (.raise strong false)).node.get n).proc = (o.node.get n).proc :=
    (sameNodes_modNode o n (BinderNode.core_raise strong)).proc n
  unfold binderIncNode
  dsimp only
  split_ifs
  · exact h
  · split
    · obtain ⟨p, hp, hhome⟩ := hl _ rfl
      exact hmod.moveNode (hproc.trans hp) hhome
    · exact hmod
  · split
    · obtain ⟨p, hp, hhome⟩ := hl _ rfl
      exact hmod.addNode (hproc.trans hp) hhome
    · exact hmod
  · exact hmod

/-- A node without references is freed and leaves the trees. -/
theorem NodeFacts.free (h : NodeFacts K o) (hrefs : (o.node.get n).refs = []) {o' : Objects}
    (hnode : o'.node = o.node.modify n fun x => { x with freed := x.freed + 1 })
    (href : o'.ref = o.ref)
    (hlisted : ∀ p, (o'.own p).refsByDesc = (o.own p).refsByDesc)
    (htrees : ∀ p, (o'.own p).nodes.Sublist (o.own p).nodes) (hout : ∀ p, n ∉ (o'.own p).nodes)
    (hdead : o'.deadNodes.Sublist o.deadNodes) (hdeadOut : n ∉ o'.deadNodes)
    (hmgr : o'.contextMgrNode = o.contextMgrNode)
    (hentry : ∀ l m, (l, .node m) ∈ o'.todo.entries → (l, .node m) ∈ o.todo.entries) :
    NodeFacts K o' := by
  have hother : ∀ m, m ≠ n → o'.node.get m = o.node.get m := fun m hm => by
    rw [hnode, Heap.get_modify, if_neg hm]
  have hkeep : ∀ {β : Type} (g : BinderNode → β), (∀ x, g { x with freed := x.freed + 1 } = g x) →
      ∀ m, g (o'.node.get m) = g (o.node.get m) := fun g hg m => by
    rw [hnode]
    exact o.node.apply_get_modify n m _ g hg
  have hnext : o'.node.next = o.node.next := by rw [hnode]; rfl
  exact {
    count := fun m => by
      have hs : strongRefs o' m = strongRefs o m := by
        unfold strongRefs
        rw [hkeep (·.refs) (fun _ => rfl), href]
      rw [hs, hkeep (·.internalStrongRefs) fun _ => rfl]
      exact h.count m
    nonneg := fun r => by
      rw [href]
      exact h.nonneg r
    tree := fun p m hm => by
      have hne : m ≠ n := fun he => hout p (he ▸ hm)
      rw [hother m hne, hnext]
      exact h.tree p m ((htrees p).subset hm)
    nodup := fun p => (h.nodup p).sublist (htrees p)
    dead := fun m hm => by
      have hne : m ≠ n := fun he => hdeadOut (he ▸ hm)
      rw [hother m hne, hnext]
      exact h.dead m (hdead.subset hm)
    deadNodup := h.deadNodup.sublist hdead
    alive := fun m hptr hm => by
      have hne : m ≠ n := fun he => by
        rw [he, hkeep (·.refs) fun _ => rfl] at hm
        exact hm hrefs
      rw [hother m hne] at hptr hm ⊢
      exact h.alive m hptr hm
    mgr := fun m hm => (hkeep (·.ptr) (fun _ => rfl) m).trans (h.mgr m (hmgr ▸ hm))
    home := fun l m hm => by
      rw [hkeep (·.proc) fun _ => rfl]
      exact h.home l m (hentry l m hm)
    unborn := fun m hm => by
      rw [hkeep (·.proc) fun _ => rfl]
      exact h.unborn m (hnext ▸ hm)
    told := fun hw m hm => by
      rw [hkeep (·.ptr) fun _ => rfl] at hm
      rw [hkeep (·.hasWeakRef) fun _ => rfl, hkeep (·.hasStrongRef) fun _ => rfl]
      exact h.told hw m hm
    born := fun hw m hm => h.born hw m (hnext ▸ hm)
    sent := fun m T hm => by
      rw [hnext, hkeep (·.proc) fun _ => rfl]
      exact h.sent m T hm
    confined := fun p hp r hr => by
      rw [href, hkeep (·.ptr) fun _ => rfl, hkeep (·.proc) fun _ => rfl]
      exact h.confined p hp r (hlisted p ▸ hr)
    empty := fun p hp => by
      obtain ⟨h1, h2⟩ := h.empty p hp
      exact ⟨(hlisted p).trans h1, List.sublist_nil.1 (h2 ▸ htrees p)⟩ }

/-- The tree of nodes of a process is not that of its references. -/
theorem refsByDesc_modOwn (o : Objects) (p q : ℕ) (f : List ℕ → List ℕ) :
    ((o.modOwn p fun w => { w with nodes := f w.nodes }).own q).refsByDesc = (o.own q).refsByDesc := by
  simp only [Objects.modOwn]
  split_ifs with hq
  · rw [hq]
  · rfl

theorem nodeUnheld_facts (h : NodeFacts K o) (n : ℕ) : NodeFacts K (nodeUnheld o n) := by
  unfold nodeUnheld
  dsimp only
  split
  · rename_i p hp _
    split_ifs
    · exact h
    · exact h.addNode hp (K.procTodo p)
  · split_ifs with hfree
    · cases hp : (o.node.get n).proc with
      | some p =>
        refine h.free hfree.1 rfl rfl (fun q => refsByDesc_modOwn o p q (·.erase n)) (fun q => ?_) (fun q hq => ?_) (.refl _) (fun hd => ?_) rfl
          fun l m hm => (Queues.mem_del.1 hm).1
        · simp only [Objects.modNode, Objects.modOwn]
          split_ifs with he
          · rw [he]
            exact List.erase_sublist
          · exact .refl _
        · simp only [Objects.modNode, Objects.modOwn] at hq
          split_ifs at hq with he
          · exact (h.nodup p).not_mem_erase hq
          · exact he (Option.some.inj ((h.tree q n hq).2.1.symm.trans hp))
        · have hnone : (o.node.get n).proc = none := (h.dead n hd).2.1
          rw [hp] at hnone
          cases hnone
      | none =>
        refine h.free hfree.1 rfl rfl (fun q => rfl) (fun q => .refl _) (fun q hq => ?_) List.erase_sublist
          (fun hd => h.deadNodup.not_mem_erase hd) rfl fun l m hm => (Queues.mem_del.1 hm).1
        have hsome : (o.node.get n).proc = some q := (h.tree q n hq).2.1
        rw [hp] at hsome
        cases hsome
    · exact h

theorem binderDecNode_facts (h : NodeFacts K o) (n : ℕ) (strong : Bool) :
    NodeFacts K (binderDecNode o n strong false) := by
  have hmod := h.congr (sameNodes_modNode o n (BinderNode.core_lower strong))
  unfold binderDecNode
  dsimp only
  cases strong with
  | true => exact .ite hmod (nodeUnheld_facts hmod n)
  | false => exact .ite hmod (nodeUnheld_facts hmod n)

/-- The node is looked at by a thread of its owner. -/
theorem settleNode_facts (h : NodeFacts K o) {p : ℕ} (hp : (o.node.get n).proc = some p) :
    NodeFacts K (settleNode o p n) := by
  have hdel := h.congr (sameNodes_del o (w := .node n))
  unfold settleNode
  dsimp only
  split_ifs with hfree
  · refine hdel.free hfree.2.2.1 rfl rfl (fun q => refsByDesc_modOwn o p q (·.erase n)) (fun q => ?_) (fun q hq => ?_) (.refl _) (fun hd => ?_) rfl
      fun _ _ => id
    · simp only [Objects.modNode, Objects.modOwn]
      split_ifs with he
      · rw [he]
        exact List.erase_sublist
      · exact .refl _
    · simp only [Objects.modNode, Objects.modOwn] at hq
      split_ifs at hq with he
      · exact (h.nodup p).not_mem_erase hq
      · exact he (Option.some.inj ((h.tree q n hq).2.1.symm.trans hp))
    · have hnone : (o.node.get n).proc = none := (h.dead n hd).2.1
      rw [hp] at hnone
      cases hnone
  · exact hdel

end

end Binder

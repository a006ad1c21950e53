import BinderIpc.Driver.Frames
import BinderIpc.Driver.RefTable
import Mathlib.Logic.Relation

/-! References, the nodes that they hang on and the death records that hang on
them: the steps that the driver takes with them, and what holds across each step. -/

namespace Binder

/-- A reference without its counts. -/
def BinderRef.bare (x : BinderRef) : BinderRef := { x with strong := 0, weak := 0 }

/-- The assertions about descriptors and death records. -/
def Oops.isLink : Oops → Bool
  | descInUse | nodeReleaseDeath | clearDeathType => true
  | _ => false

/-- Nothing is linked or taken apart, but for entries of nodes in the tree of their owner. -/
structure SameLinks (o o' : Objects) : Prop where
  refNext : o'.ref.next = o.ref.next
  ref : ∀ r, (o'.ref.get r).bare = (o.ref.get r).bare
  byDesc : ∀ p, (o'.own p).refsByDesc = (o.own p).refsByDesc
  byNode : ∀ p, (o'.own p).refsByNode = (o.own p).refsByNode
  nodes : ∀ p, (o'.own p).nodes.Sublist (o.own p).nodes
  nodeNext : o'.node.next = o.node.next
  refs : ∀ n, (o'.node.get n).refs = (o.node.get n).refs
  proc : ∀ n, (o'.node.get n).proc = (o.node.get n).proc
  death : o'.death = o.death
  entry : ∀ l d, (l, .death d) ∈ o'.todo.entries ↔ (l, .death d) ∈ o.todo.entries
  mgr : ∀ n, o'.contextMgrNode = some n → o.contextMgrNode = some n ∨ n < o.node.next
  oops : ∀ b ∈ o'.oops, b ∈ o.oops ∨ b.isLink = false

inductive LinkStep (o : Objects) : Objects → Prop
  | same {o' : Objects} (h : SameLinks o o') : LinkStep o o'
  | newNode {p : ℕ} {x : BinderNode} (key : ℕ → ℕ) (hproc : x.proc = some p) (hrefs : x.refs = []) :
    LinkStep o (({ o with node := o.node.alloc x } : Objects).modOwn p fun w =>
      { w with nodes := treeInsert key o.node.next w.nodes })
  | newRef {p n : ℕ} (hn : n < o.node.next) (hnone : refForNode o p n = none) :
    LinkStep o (newRef o p n)
  | deleteRef {p r : ℕ} (hr : r ∈ (o.own p).refsByDesc) : LinkStep o (binderDeleteRef o r)

/-- Any number of steps. -/
def Links : Objects → Objects → Prop := Relation.ReflTransGen LinkStep

namespace SameLinks

variable {o o' o'' : Objects}

theorem refl (o : Objects) : SameLinks o o :=
  ⟨rfl, fun _ => rfl, fun _ => rfl, fun _ => rfl, fun _ => .refl _, rfl, fun _ => rfl,
    fun _ => rfl, rfl, fun _ _ => Iff.rfl, fun _ => Or.inl, fun _ => Or.inl⟩

theorem trans (h : SameLinks o o') (h' : SameLinks o' o'') : SameLinks o o'' where
  refNext := h'.refNext.trans h.refNext
  ref r := (h'.ref r).trans (h.ref r)
  byDesc p := (h'.byDesc p).trans (h.byDesc p)
  byNode p := (h'.byNode p).trans (h.byNode p)
  nodes p := (h'.nodes p).trans (h.nodes p)
  nodeNext := h'.nodeNext.trans h.nodeNext
  refs n := (h'.refs n).trans (h.refs n)
  proc n := (h'.proc n).trans (h.proc n)
  death := h'.death.trans h.death
  entry l d := (h'.entry l d).trans (h.entry l d)
  mgr n hn := by
    rcases h'.mgr n hn with h1 | h1
    · exact h.mgr n h1
    · exact Or.inr (h.nodeNext ▸ h1)
  oops b hb := by
    rcases h'.oops b hb with h1 | h1
    · exact h.oops b h1
    · exact Or.inr h1

theorem ite {c : Prop} [Decidable c] (h : SameLinks o o') (h' : SameLinks o o'') :
    SameLinks o (if c then o' else o'') := by
  split_ifs <;> assumption

theorem links (h : SameLinks o o') : Links o o' := .single (.same h)

end SameLinks

theorem Links.refl (o : Objects) : Links o o := Relation.ReflTransGen.refl

theorem Links.trans {o o' o'' : Objects} (h : Links o o') (h' : Links o' o'') : Links o o'' :=
  Relation.ReflTransGen.trans h h'

theorem Links.ite {c : Prop} [Decidable c] {o o' o'' : Objects} (h : Links o o') (h' : Links o o'') :
    Links o (if c then o' else o'') := by
  split_ifs <;> assumption

/-! The invariant -/

structure RefsInv (o : Objects) : Prop where
  table : ∀ p, RefTable o p
  live : ∀ p, ∀ r ∈ (o.own p).refsByDesc, (o.ref.get r).freed = 0 ∧
    (o.ref.get r).node < o.node.next ∧ r ∈ (o.node.get (o.ref.get r).node).refs
  held : ∀ n, ∀ r ∈ (o.node.get n).refs, r ∈ (o.own (o.ref.get r).proc).refsByDesc ∧
    (o.ref.get r).node = n
  refsNodup : ∀ n, (o.node.get n).refs.Nodup
  gone : ∀ r < o.ref.next, r ∉ (o.own (o.ref.get r).proc).refsByDesc → (o.ref.get r).freed = 1
  nodes : ∀ p, ∀ n ∈ (o.own p).nodes, n < o.node.next ∧ (o.node.get n).proc = some p
  nodesNodup : ∀ p, (o.own p).nodes.Nodup
  mgr : ∀ n, o.contextMgrNode = some n → n < o.node.next
  async : ∀ n d, (.asyncTodo n, .death d) ∉ o.todo.entries
  descs : .descInUse ∉ o.oops

section

variable {o o' : Objects}

theorem SameLinks.refProc (h : SameLinks o o') (r : ℕ) : (o'.ref.get r).proc = (o.ref.get r).proc :=
  congrArg (·.proc) (h.ref r)

theorem SameLinks.refNode (h : SameLinks o o') (r : ℕ) : (o'.ref.get r).node = (o.ref.get r).node :=
  congrArg (·.node) (h.ref r)

theorem SameLinks.refDeath (h : SameLinks o o') (r : ℕ) :
    (o'.ref.get r).death = (o.ref.get r).death := congrArg (·.death) (h.ref r)

/-- The table of a process, for a step that keeps its trees and what is in them. -/
theorem RefTable.congr {p : ℕ} (h : RefTable o p) (hnext : o.ref.next ≤ o'.ref.next)
    (hD : (o'.own p).refsByDesc = (o.own p).refsByDesc)
    (hN : (o'.own p).refsByNode = (o.own p).refsByNode)
    (hdesc : ∀ r ∈ (o.own p).refsByDesc, (o'.ref.get r).desc = (o.ref.get r).desc)
    (hnode : ∀ r ∈ (o.own p).refsByDesc, (o'.ref.get r).node = (o.ref.get r).node)
    (hproc : ∀ r ∈ (o.own p).refsByDesc, (o'.ref.get r).proc = (o.ref.get r).proc) :
    RefTable o' p where
  sorted := by
    rw [hD]
    refine h.sorted.imp_of_mem fun hr hr' hlt => ?_
    rwa [hdesc _ hr, hdesc _ hr']
  nodes := by
    rw [hD]
    intro r hr r' hr' he
    rw [hnode r hr, hnode r' hr'] at he
    exact h.nodes r hr r' hr' he
  same := by
    rw [hD, hN]
    exact h.same
  nodup := by
    rw [hN]
    exact h.nodup
  below := by
    rw [hD]
    exact fun r hr => (h.below r hr).trans_le hnext
  owner := by
    rw [hD]
    exact fun r hr => (hproc r hr).trans (h.owner r hr)

/-- What the invariant depends on; death records may come and go. -/
structure SameTables (o o' : Objects) : Prop where
  refNext : o'.ref.next = o.ref.next
  ref : ∀ r, ({ o'.ref.get r with death := none } : BinderRef).bare =
    ({ o.ref.get r with death := none } : BinderRef).bare
  byDesc : ∀ p, (o'.own p).refsByDesc = (o.own p).refsByDesc
  byNode : ∀ p, (o'.own p).refsByNode = (o.own p).refsByNode
  nodes : ∀ p, (o'.own p).nodes.Sublist (o.own p).nodes
  nodeNext : o'.node.next = o.node.next
  refs : ∀ n, (o'.node.get n).refs = (o.node.get n).refs
  proc : ∀ p, ∀ n ∈ (o.own p).nodes, (o'.node.get n).proc = (o.node.get n).proc
  mgr : ∀ n, o'.contextMgrNode = some n → o.contextMgrNode = some n ∨ n < o.node.next
  async : ∀ n d, (.asyncTodo n, .death d) ∈ o'.todo.entries →
    (.asyncTodo n, .death d) ∈ o.todo.entries
  descs : .descInUse ∈ o'.oops → .descInUse ∈ o.oops

theorem SameLinks.tables (h : SameLinks o o') : SameTables o o' where
  refNext := h.refNext
  ref r := congrArg (fun x : BinderRef => { x with death := none }) (h.ref r)
  byDesc := h.byDesc
  byNode := h.byNode
  nodes := h.nodes
  nodeNext := h.nodeNext
  refs := h.refs
  proc _ n _ := h.proc n
  mgr := h.mgr
  async n d := (h.entry _ d).1
  descs hb := (h.oops _ hb).resolve_right fun hf => by cases hf

theorem RefsInv.congr (h : RefsInv o) (hs : SameTables o o') : RefsInv o' := by
  have hproc : ∀ r, (o'.ref.get r).proc = (o.ref.get r).proc := fun r =>
    congrArg (·.proc) (hs.ref r)
  have hnode : ∀ r, (o'.ref.get r).node = (o.ref.get r).node := fun r =>
    congrArg (·.node) (hs.ref r)
  have hdesc : ∀ r, (o'.ref.get r).desc = (o.ref.get r).desc := fun r =>
    congrArg (·.desc) (hs.ref r)
  have hfreed : ∀ r, (o'.ref.get r).freed = (o.ref.get r).freed := fun r =>
    congrArg (·.freed) (hs.ref r)
  refine ⟨fun p => ?_, fun p r hr => ?_, fun n r hr => ?_, fun n => ?_, fun r hr hr' => ?_,
    fun p n hn => ?_, fun p => (h.nodesNodup p).sublist (hs.nodes p), fun n hn => ?_,
    fun n d hd => h.async n d (hs.async n d hd), fun hb => h.descs (hs.descs hb)⟩
  · exact (h.table p).congr hs.refNext.ge (hs.byDesc p) (hs.byNode p) (fun r _ => hdesc r)
      (fun r _ => hnode r) fun r _ => hproc r
  · rw [hs.byDesc] at hr
    rw [hfreed, hnode, hs.nodeNext, hs.refs]
    exact h.live p r hr
  · rw [hs.refs] at hr
    rw [hproc, hs.byDesc, hnode]
    exact h.held n r hr
  · rw [hs.refs]
    exact h.refsNodup n
  · rw [hs.refNext] at hr
    rw [hproc, hs.byDesc] at hr'
    rw [hfreed]
    exact h.gone r hr hr'
  · have hmem := (hs.nodes p).subset hn
    rw [hs.nodeNext, hs.proc p n hmem]
    exact h.nodes p n hmem
  · rw [hs.nodeNext]
    exact (hs.mgr n hn).elim (h.mgr n) id

theorem RefsInv.newNode (h : RefsInv o) {p : ℕ} {x : BinderNode} (key : ℕ → ℕ)
    (hproc : x.proc = some p) (hrefs : x.refs = []) :
    RefsInv (({ o with node := o.node.alloc x } : Objects).modOwn p fun w =>
      { w with nodes := treeInsert key o.node.next w.nodes }) := by
  set o' := ({ o with node := o.node.alloc x } : Objects).modOwn p fun w =>
    { w with nodes := treeInsert key o.node.next w.nodes } with ho'
  have hD : ∀ q, (o'.own q).refsByDesc = (o.own q).refsByDesc := fun q => by
    simp only [ho', Objects.modOwn]
    split_ifs with hq
    · rw [hq]
    · rfl
  have hN : ∀ q, (o'.own q).refsByNode = (o.own q).refsByNode := fun q => by
    simp only [ho', Objects.modOwn]
    split_ifs with hq
    · rw [hq]
    · rfl
  have hself : o'.node.get o.node.next = x := o.node.get_alloc_self x
  have hold : ∀ n, n ≠ o.node.next → o'.node.get n = o.node.get n := fun n hn =>
    o.node.get_alloc_ne n x hn
  have hnodes : ∀ q, (o'.own q).nodes =
      if q = p then treeInsert key o.node.next (o.own p).nodes else (o.own q).nodes := fun q => by
    simp only [ho', Objects.modOwn]
    split_ifs <;> rfl
  have hfresh : ∀ q, o.node.next ∉ (o.own q).nodes := fun q hq => lt_irrefl _ (h.nodes q _ hq).1
  refine ⟨fun q => ?_, fun q r hr => ?_, fun n r hr => ?_, fun n => ?_, fun r hr hr' => ?_,
    fun q n hn => ?_, fun q => ?_, fun n hn => (h.mgr n hn).trans (Nat.lt_succ_self _), h.async,
    h.descs⟩
  · exact (h.table q).congr le_rfl (hD q) (hN q) (fun _ _ => rfl) (fun _ _ => rfl) fun _ _ => rfl
  · rw [hD] at hr
    obtain ⟨h1, h2, h3⟩ := h.live q r hr
    refine ⟨h1, h2.trans (Nat.lt_succ_self _), ?_⟩
    change r ∈ (o'.node.get (o.ref.get r).node).refs
    rwa [hold _ h2.ne]
  · by_cases hn : n = o.node.next
    · rw [hn, hself, hrefs] at hr
      cases hr
    · rw [hold n hn] at hr
      rw [hD]
      exact h.held n r hr
  · by_cases hn : n = o.node.next
    · rw [hn, hself, hrefs]
      exact List.nodup_nil
    · rw [hold n hn]
      exact h.refsNodup n
  · rw [hD] at hr'
    exact h.gone r hr hr'
  · rw [hnodes] at hn
    have hmem : n = o.node.next ∧ q = p ∨ n ∈ (o.own q).nodes := by
      split_ifs at hn with hq
      · rcases mem_treeInsert.1 hn with h1 | h1
        · exact Or.inl ⟨h1, hq⟩
        · exact Or.inr (hq ▸ h1)
      · exact Or.inr hn
    rcases hmem with ⟨rfl, rfl⟩ | hmem
    · exact ⟨Nat.lt_succ_self _, by rw [hself, hproc]⟩
    · obtain ⟨h1, h2⟩ := h.nodes q n hmem
      exact ⟨h1.trans (Nat.lt_succ_self _), by rw [hold n h1.ne, h2]⟩
  · rw [hnodes]
    split_ifs
    · exact nodup_treeInsert (h.nodesNodup p) (hfresh p)
    · exact h.nodesNodup q

theorem refsInv_empty : RefsInv ({} : Objects) where
  table p := ⟨.nil, fun r hr => absurd hr List.not_mem_nil, fun r => Iff.rfl, List.nodup_nil,
    fun r hr => absurd hr List.not_mem_nil, fun r hr => absurd hr List.not_mem_nil⟩
  live p r hr := absurd hr List.not_mem_nil
  held n r hr := absurd hr List.not_mem_nil
  refsNodup n := List.nodup_nil
  gone r hr := absurd hr (Nat.not_lt_zero r)
  nodes p n hn := absurd hn List.not_mem_nil
  nodesNodup p := List.nodup_nil
  mgr n hn := by cases hn
  async n d := List.not_mem_nil
  descs := List.not_mem_nil

theorem own_newRef (o : Objects) (p n q : ℕ) : (newRef o p n).own q =
    if q = p then
      { o.own p with
        refsByNode := treeInsert (fun r => ((newRef o p n).ref.get r).node) o.ref.next
          (o.own p).refsByNode
        refsByDesc := treeInsert (fun r => ((newRef o p n).ref.get r).desc) o.ref.next
          (o.own p).refsByDesc }
    else o.own q := rfl

theorem mem_newRef (o : Objects) (p n q r : ℕ) : r ∈ ((newRef o p n).own q).refsByDesc ↔
    (r = o.ref.next ∧ q = p) ∨ r ∈ (o.own q).refsByDesc := by
  rw [own_newRef]
  split_ifs with hq
  · subst hq
    simp [mem_treeInsert]
  · simp [hq]

theorem node_newRef (o : Objects) (p n : ℕ) : (newRef o p n).node =
    o.node.modify n fun x => { x with refs := o.ref.next :: x.refs } := rfl

theorem proc_newRef (o : Objects) (p n m : ℕ) :
    ((newRef o p n).node.get m).proc = (o.node.get m).proc :=
  o.node.apply_get_modify n m (fun x => { x with refs := o.ref.next :: x.refs }) (·.proc)
    fun _ => rfl

/-- The descriptor of a new reference. -/
def newDesc (o : Objects) (p n : ℕ) : ℕ :=
  unusedDesc o (if o.contextMgrNode = some n then 0 else 1) (o.own p).refsByDesc

theorem oops_newRef (o : Objects) (p n : ℕ) : (newRef o p n).oops = o.oops ++
    if (o.own p).refsByDesc.any fun r => (o.ref.get r).desc = newDesc o p n then [.descInUse]
    else [] := rfl

theorem RefsInv.newRef (h : RefsInv o) {p n : ℕ} (hn : n < o.node.next)
    (hnone : refForNode o p n = none) : RefsInv (newRef o p n) := by
  obtain ⟨hcount, hmem, hnode⟩ := newRef_recount (h.table p) hnone
  set o' := Binder.newRef o p n with ho'
  set r₀ := o.ref.next with hr₀
  have hself : (o'.ref.get r₀).proc = p ∧ (o'.ref.get r₀).freed = 0 := by
    constructor <;> exact congrArg _ (o.ref.get_alloc_self _)
  have hold : ∀ r, r ≠ r₀ → o'.ref.get r = o.ref.get r := fun r hr => o.ref.get_alloc_ne r _ hr
  have hfresh : ∀ q, r₀ ∉ (o.own q).refsByDesc := fun q hq => lt_irrefl _ ((h.table q).below _ hq)
  have hfreshNode : ∀ m, r₀ ∉ (o.node.get m).refs := fun m hm => hfresh _ (h.held m _ hm).1
  have hD : ∀ q r, r ∈ (o'.own q).refsByDesc ↔ (r = r₀ ∧ q = p) ∨ r ∈ (o.own q).refsByDesc :=
    mem_newRef o p n
  have hrefs : ∀ m, (o'.node.get m).refs =
      if m = n then r₀ :: (o.node.get m).refs else (o.node.get m).refs := fun m => by
    rw [ho', node_newRef, Heap.get_modify]
    split_ifs with hm
    · rw [hm]
    · rfl
  have hnodes : ∀ q, (o'.own q).nodes = (o.own q).nodes := fun q => by
    rw [ho', own_newRef]
    split_ifs with hq
    · rw [hq]
    · rfl
  refine ⟨fun q => ?_, fun q r hr => ?_, fun m r hr => ?_, fun m => ?_, fun r hr hr' => ?_,
    fun q m hm => ?_, fun q => ?_, h.mgr, h.async, fun hb => ?_⟩
  · by_cases hq : q = p
    · exact hq ▸ hcount.table
    · have hown : o'.own q = o.own q := if_neg hq
      refine (h.table q).congr (Nat.le_succ _) (by rw [hown]) (by rw [hown]) ?_ ?_ ?_
      all_goals exact fun r hr => by rw [hold r ((h.table q).below r hr).ne]
  · rw [hrefs]
    rcases (hD q r).1 hr with ⟨rfl, rfl⟩ | hr
    · rw [hnode, if_pos rfl]
      exact ⟨hself.2, hn, List.mem_cons_self⟩
    · obtain ⟨h1, h2, h3⟩ := h.live q r hr
      rw [hold r ((h.table q).below r hr).ne]
      refine ⟨h1, h2, ?_⟩
      split_ifs
      · exact List.mem_cons_of_mem _ h3
      · exact h3
  · rw [hrefs] at hr
    have hmem' : r = r₀ ∧ m = n ∨ r ∈ (o.node.get m).refs := by
      split_ifs at hr with hm
      · exact (List.mem_cons.1 hr).imp_left fun h1 => ⟨h1, hm⟩
      · exact Or.inr hr
    rcases hmem' with ⟨rfl, rfl⟩ | hr'
    · rw [hself.1]
      exact ⟨hmem, hnode⟩
    · obtain ⟨h1, h2⟩ := h.held m r hr'
      rw [hold r (fun he => hfreshNode m (he ▸ hr'))]
      exact ⟨(hD _ _).2 (Or.inr h1), h2⟩
  · rw [hrefs]
    split_ifs
    · exact List.nodup_cons.2 ⟨hfreshNode m, h.refsNodup m⟩
    · exact h.refsNodup m
  · by_cases hrr : r = r₀
    · rw [hrr, hself.1] at hr'
      exact absurd hmem hr'
    · rw [hold r hrr] at hr' ⊢
      refine h.gone r (lt_of_le_of_ne (Nat.lt_succ_iff.1 hr) hrr) fun h1 => hr' ?_
      exact (hD _ _).2 (Or.inr h1)
  · rw [hnodes] at hm
    rw [proc_newRef]
    exact h.nodes q m hm
  · rw [hnodes]
    exact h.nodesNodup q
  · rw [ho', oops_newRef] at hb
    rcases List.mem_append.1 hb with hb | hb
    · exact h.descs hb
    · have hnot : ∀ r ∈ (o.own p).refsByDesc, (o.ref.get r).desc ≠ newDesc o p n :=
        unusedDesc_ne (h.table p).sorted _
      split_ifs at hb with hany
      · simp only [List.any_eq_true, decide_eq_true_eq] at hany
        obtain ⟨r, hr, he⟩ := hany
        exact hnot r hr he
      · cases hb

end

/-! Counting -/

section

variable (o : Objects) (n r : ℕ) (strong internal : Bool)

theorem sameLinks_modNode {f : BinderNode → BinderNode} (hrefs : ∀ x, (f x).refs = x.refs)
    (hproc : ∀ x, (f x).proc = x.proc) : SameLinks o (o.modNode n f) :=
  { SameLinks.refl o with
    refs := fun m => o.node.apply_get_modify n m f (·.refs) hrefs
    proc := fun m => o.node.apply_get_modify n m f (·.proc) hproc }

theorem sameLinks_modRef {f : BinderRef → BinderRef} (hf : ∀ x, (f x).bare = x.bare) :
    SameLinks o (o.modRef r f) :=
  { SameLinks.refl o with ref := fun r' => o.ref.apply_get_modify r r' f BinderRef.bare hf }

theorem sameLinks_bugOn (c : Bool) {b : Oops} (hb : b.isLink = false) : SameLinks o (o.bugOn c b) :=
  { SameLinks.refl o with
    oops := fun b' hb' => by
      rcases List.mem_append.1 hb' with hb' | hb'
      · exact Or.inl hb'
      · cases c with
        | false => cases hb'
        | true => exact Or.inr (List.mem_singleton.1 hb' ▸ hb) }

/-- Lists on which nothing happens to death records. -/
theorem sameLinks_todo {q : Queues ListHead Work}
    (hq : ∀ l d, (l, .death d) ∈ q.entries ↔ (l, .death d) ∈ o.todo.entries) :
    SameLinks o { o with todo := q } :=
  { SameLinks.refl o with entry := hq }

variable {w : Work} (l : ListHead)

theorem sameLinks_addTail (hw : ∀ d, .death d ≠ w) :
    SameLinks o { o with todo := o.todo.addTail l w } :=
  sameLinks_todo o fun l' d => by simp [Queues.mem_addTail, hw d]

theorem sameLinks_del (hw : ∀ d, .death d ≠ w) : SameLinks o { o with todo := o.todo.del w } :=
  sameLinks_todo o fun l' d => by simp [Queues.mem_del, hw d]

theorem sameLinks_moveTail (hw : ∀ d, .death d ≠ w) :
    SameLinks o { o with todo := o.todo.moveTail l w } :=
  sameLinks_todo o fun l' d => by simp [Queues.mem_moveTail, hw d]

theorem BinderNode.refs_raise (x : BinderNode) : (x.raise strong internal).refs = x.refs := by
  cases strong <;> cases internal <;> rfl

theorem BinderNode.refs_lower (x : BinderNode) : (x.lower strong internal).refs = x.refs := by
  cases strong <;> cases internal <;> rfl

theorem binderIncNode_sameLinks (targetList : Option ListHead) :
    SameLinks o (binderIncNode o n strong internal targetList).1 := by
  have hmod := sameLinks_modNode o n (BinderNode.refs_raise strong internal)
    (BinderNode.proc_raise strong internal)
  unfold binderIncNode
  dsimp only
  split_ifs
  · exact .refl o
  · split
    · exact hmod.trans (sameLinks_moveTail _ _ fun d he => by cases he)
    · exact hmod
  · split
    · exact hmod.trans (sameLinks_addTail _ _ fun d he => by cases he)
    · exact hmod
  · exact hmod

/-- The node leaves the tree of its owner. -/
theorem sameLinks_eraseNode (p : ℕ) :
    SameLinks o (o.modOwn p fun w => { w with nodes := w.nodes.erase n }) := by
  have hown : ∀ q, (o.modOwn p fun w => { w with nodes := w.nodes.erase n }).own q =
      { o.own q with nodes := if q = p then (o.own q).nodes.erase n else (o.own q).nodes } := by
    intro q
    simp only [Objects.modOwn]
    split_ifs with hq
    · rw [hq]
    · rfl
  refine { SameLinks.refl o with byDesc := fun q => ?_, byNode := fun q => ?_, nodes := fun q => ?_ }
  · rw [hown]
  · rw [hown]
  · rw [hown]
    dsimp only
    split_ifs
    · exact List.erase_sublist
    · exact .refl _

/-- The files of a process. -/
theorem sameLinks_files (p : ℕ) {f : ProcObjects → ProcObjects} (hf : ∀ w,
    (f w).nodes = w.nodes ∧ (f w).refsByDesc = w.refsByDesc ∧ (f w).refsByNode = w.refsByNode) :
    SameLinks o (o.modOwn p f) := by
  have hown : ∀ q, ((o.modOwn p f).own q).nodes = (o.own q).nodes ∧
      ((o.modOwn p f).own q).refsByDesc = (o.own q).refsByDesc ∧
      ((o.modOwn p f).own q).refsByNode = (o.own q).refsByNode := fun q => by
    simp only [Objects.modOwn]
    split_ifs with hq
    · rw [hq]
      exact hf _
    · exact ⟨rfl, rfl, rfl⟩
  exact { SameLinks.refl o with
    nodes := fun q => by rw [(hown q).1]
    byDesc := fun q => (hown q).2.1
    byNode := fun q => (hown q).2.2 }

theorem nodeUnheld_sameLinks : SameLinks o (nodeUnheld o n) := by
  unfold nodeUnheld
  dsimp only
  split
  · exact .ite (.refl o) (sameLinks_addTail o _ fun d he => by cases he)
  · refine .ite ?_ (.refl o)
    refine SameLinks.trans ?_ (sameLinks_modNode _ n (fun _ => rfl) fun _ => rfl)
    refine (sameLinks_del o (w := .node n) fun d he => by cases he).trans ?_
    split
    · exact sameLinks_eraseNode _ n _
    · exact { SameLinks.refl _ with }

theorem binderDecNode_sameLinks : SameLinks o (binderDecNode o n strong internal) := by
  have h := sameLinks_modNode o n (BinderNode.refs_lower strong internal)
    (BinderNode.proc_lower strong internal)
  unfold binderDecNode
  exact .ite h (h.trans (nodeUnheld_sameLinks _ n))

theorem settleNode_sameLinks (p : ℕ) : SameLinks o (settleNode o p n) := by
  have h := sameLinks_del o (w := .node n) fun d he => by cases he
  unfold settleNode
  dsimp only
  refine .ite (h.trans ?_) h
  exact (sameLinks_eraseNode _ n p).trans (sameLinks_modNode _ n (fun _ => rfl) fun _ => rfl)

theorem BinderRef.bare_raise (x : BinderRef) : (x.raise strong).bare = x.bare := by
  cases strong <;> rfl

theorem BinderRef.bare_lower (x : BinderRef) : (x.lower strong).bare = x.bare := by
  cases strong <;> rfl

theorem binderIncRef_sameLinks (targetList : Option ListHead) :
    SameLinks o (binderIncRef o r strong targetList).1 := by
  have h : SameLinks o (if (o.ref.get r).count strong = 0 then
      binderIncNode o (o.ref.get r).node strong true targetList else (o, true)).1 := by
    split_ifs
    · exact binderIncNode_sameLinks _ _ _ _ _
    · exact .refl o
  unfold binderIncRef
  dsimp only
  split
  · rename_i he
    rw [he] at h
    exact h.trans (sameLinks_modRef _ r (BinderRef.bare_raise strong))
  · rename_i he
    rwa [he] at h

end

/-! `binder_delete_ref` -/

/-- What is left of `o` without the reference `r` and the death record on it. -/
structure Unlinked (o o' : Objects) (r : ℕ) : Prop where
  refNext : o'.ref.next = o.ref.next
  ref : ∀ r', r' ≠ r → (o'.ref.get r').bare = (o.ref.get r').bare
  self : (o'.ref.get r).bare = { (o.ref.get r).bare with freed := (o.ref.get r).freed + 1 }
  byDesc : ∀ p, (o'.own p).refsByDesc =
    if p = (o.ref.get r).proc then (o.own p).refsByDesc.erase r else (o.own p).refsByDesc
  byNode : ∀ p, (o'.own p).refsByNode =
    if p = (o.ref.get r).proc then (o.own p).refsByNode.erase r else (o.own p).refsByNode
  nodes : ∀ p, (o'.own p).nodes.Sublist (o.own p).nodes
  nodeNext : o'.node.next = o.node.next
  refs : ∀ n, (o'.node.get n).refs =
    if n = (o.ref.get r).node then (o.node.get n).refs.erase r else (o.node.get n).refs
  proc : ∀ n, (o'.node.get n).proc = (o.node.get n).proc
  death : o'.death = (o.ref.get r).death.elim o.death fun d =>
    o.death.modify d fun x => { x with freed := x.freed + 1 }
  entry : ∀ l d, (l, .death d) ∈ o'.todo.entries ↔
    (l, .death d) ∈ o.todo.entries ∧ (o.ref.get r).death ≠ some d
  mgr : ∀ n, o'.contextMgrNode = some n → o.contextMgrNode = some n ∨ n < o.node.next
  oops : ∀ b ∈ o'.oops, b ∈ o.oops ∨ b.isLink = false

theorem binderDeleteRef_unlinked (o : Objects) (r : ℕ) : Unlinked o (binderDeleteRef o r) r := by
  set x := o.ref.get r with hx
  set o₁ := o.modOwn x.proc fun w =>
    { w with refsByDesc := w.refsByDesc.erase r, refsByNode := w.refsByNode.erase r } with ho₁
  set o₂ := if x.strong ≠ 0 then binderDecNode o₁ x.node true true else o₁ with ho₂
  set o₃ := o₂.modNode x.node fun y => { y with refs := y.refs.erase r } with ho₃
  set o₄ := binderDecNode o₃ x.node false true with ho₄
  have h₂ : SameLinks o₁ o₂ := .ite (binderDecNode_sameLinks _ _ _ _) (.refl _)
  have h₄ : SameLinks o₃ o₄ := binderDecNode_sameLinks _ _ _ _
  have hown : ∀ p, o₁.own p = { o.own p with
      refsByDesc := if p = x.proc then (o.own p).refsByDesc.erase r else (o.own p).refsByDesc
      refsByNode := if p = x.proc then (o.own p).refsByNode.erase r else (o.own p).refsByNode } := by
    intro p
    simp only [ho₁, Objects.modOwn]
    split_ifs with hp
    · rw [hp]
    · rfl
  have href : ∀ r', (o₄.ref.get r').bare = (o.ref.get r').bare := fun r' =>
    (h₄.ref r').trans (h₂.ref r')
  have hrefs : ∀ n, (o₄.node.get n).refs =
      if n = x.node then (o.node.get n).refs.erase r else (o.node.get n).refs := fun n => by
    rw [h₄.refs, ho₃]
    simp only [Objects.modNode, Heap.get_modify]
    split_ifs with hn
    · rw [hn]
      exact congrArg (·.erase r) (h₂.refs x.node)
    · exact h₂.refs n
  have hproc : ∀ n, (o₄.node.get n).proc = (o.node.get n).proc := fun n => by
    rw [h₄.proc]
    refine (o₂.node.apply_get_modify x.node n (fun y => { y with refs := y.refs.erase r }) (·.proc)
      fun _ => rfl).trans (h₂.proc n)
  have heq : binderDeleteRef o r = (x.death.elim o₄ (freeDeath o₄)).modRef r fun x =>
      { x with freed := x.freed + 1 } := by
    unfold binderDeleteRef
    dsimp only
    cases (o.ref.get r).death <;> rfl
  -- what the last two steps keep
  have hkeep : ∀ {β : Type} (g : Objects → β),
      (∀ o : Objects, ∀ q D, g { o with todo := q, death := D } = g o) →
      (∀ o : Objects, ∀ R, g { o with ref := R } = g o) → g (binderDeleteRef o r) = g o₄ := by
    intro β g hg₁ hg₂
    rw [heq]
    refine (hg₂ _ _).trans ?_
    cases x.death with
    | none => rfl
    | some d => exact hg₁ o₄ _ _
  have hheap : ∀ r', (binderDeleteRef o r).ref.get r' =
      if r' = r then { o₄.ref.get r with freed := (o₄.ref.get r).freed + 1 } else o₄.ref.get r' := by
    intro r'
    rw [heq]
    cases x.death <;> rfl
  have hnext : (binderDeleteRef o r).ref.next = o₄.ref.next := by
    rw [heq]
    cases x.death <;> rfl
  have hown₄ : ∀ p, ((binderDeleteRef o r).own p) = o₄.own p := fun p =>
    congrFun (hkeep (·.own) (fun _ _ _ => rfl) fun _ _ => rfl) p
  have hnode : (binderDeleteRef o r).node = o₄.node :=
    hkeep (·.node) (fun _ _ _ => rfl) fun _ _ => rfl
  refine ⟨?_, fun r' hr' => ?_, ?_, fun p => ?_, fun p => ?_, fun p => ?_, ?_, fun n => ?_,
    fun n => ?_, ?_, fun l d => ?_, fun n hn => ?_, fun b hb => ?_⟩
  · exact hnext.trans (h₄.refNext.trans h₂.refNext)
  · rw [hheap, if_neg hr']
    exact href r'
  · rw [hheap, if_pos rfl]
    have h := href r
    exact congrArg (fun y : BinderRef => { y with freed := y.freed + 1 }) h
  · rw [hown₄, h₄.byDesc]
    exact (h₂.byDesc p).trans (by rw [hown])
  · rw [hown₄, h₄.byNode]
    exact (h₂.byNode p).trans (by rw [hown])
  · rw [hown₄]
    have hsub := (h₄.nodes p).trans (h₂.nodes p)
    rwa [hown] at hsub
  · rw [hnode, h₄.nodeNext]
    exact h₂.nodeNext
  · rw [hnode]
    exact hrefs n
  · rw [hnode]
    exact hproc n
  · have hdeath : o₄.death = o.death := h₄.death.trans h₂.death
    rw [heq, ← hdeath]
    cases x.death <;> rfl
  · have hentry : (l, .death d) ∈ o₄.todo.entries ↔ (l, .death d) ∈ o.todo.entries :=
      (h₄.entry l d).trans (h₂.entry l d)
    rw [heq, ← hentry]
    cases hd : x.death with
    | none => simp [Objects.modRef]
    | some d' => simp [Objects.modRef, Objects.modDeath, freeDeath, Queues.mem_del, eq_comm]
  · rw [hkeep (·.contextMgrNode) (fun _ _ _ => rfl) fun _ _ => rfl] at hn
    rcases h₄.mgr n hn with h5 | h5
    · exact h₂.mgr n h5
    · exact Or.inr (h₂.nodeNext ▸ h5)
  · rw [hkeep (·.oops) (fun _ _ _ => rfl) fun _ _ => rfl] at hb
    rcases h₄.oops b hb with h5 | h5
    · exact h₂.oops b h5
    · exact Or.inr h5

theorem Unlinked.refProc {o o' : Objects} {r : ℕ} (hu : Unlinked o o' r) (r' : ℕ) :
    (o'.ref.get r').proc = (o.ref.get r').proc := by
  by_cases hrr : r' = r
  · rw [hrr]
    exact congrArg (·.proc) hu.self
  · exact congrArg (·.proc) (hu.ref r' hrr)

theorem Unlinked.refNode {o o' : Objects} {r : ℕ} (hu : Unlinked o o' r) (r' : ℕ) :
    (o'.ref.get r').node = (o.ref.get r').node := by
  by_cases hrr : r' = r
  · rw [hrr]
    exact congrArg (·.node) hu.self
  · exact congrArg (·.node) (hu.ref r' hrr)

theorem Unlinked.refDesc {o o' : Objects} {r : ℕ} (hu : Unlinked o o' r) (r' : ℕ) :
    (o'.ref.get r').desc = (o.ref.get r').desc := by
  by_cases hrr : r' = r
  · rw [hrr]
    exact congrArg (·.desc) hu.self
  · exact congrArg (·.desc) (hu.ref r' hrr)

theorem Unlinked.mem_byDesc {o o' : Objects} {p r : ℕ} (hu : Unlinked o o' r) (h : RefsInv o)
    (hr : r ∈ (o.own p).refsByDesc) (q r' : ℕ) :
    r' ∈ (o'.own q).refsByDesc ↔ r' ≠ r ∧ r' ∈ (o.own q).refsByDesc := by
  have hp : (o.ref.get r).proc = p := (h.table p).owner r hr
  rw [hu.byDesc, hp]
  split_ifs with hq
  · exact (h.table q).nodupDesc.mem_erase_iff
  · refine ⟨fun h1 => ⟨fun he => hq ?_, h1⟩, And.right⟩
    rw [← (h.table q).owner r' h1, he, hp]

theorem RefsInv.unlinked {o o' : Objects} (h : RefsInv o) {p r : ℕ}
    (hr : r ∈ (o.own p).refsByDesc) (hu : Unlinked o o' r) : RefsInv o' := by
  have hp : (o.ref.get r).proc = p := (h.table p).owner r hr
  have hD : ∀ q r', r' ∈ (o'.own q).refsByDesc ↔ r' ≠ r ∧ r' ∈ (o.own q).refsByDesc :=
    hu.mem_byDesc h hr
  have hrefs : ∀ n r', r' ∈ (o'.node.get n).refs ↔ r' ≠ r ∧ r' ∈ (o.node.get n).refs := by
    intro n r'
    rw [hu.refs]
    split_ifs with hn
    · exact (h.refsNodup n).mem_erase_iff
    · refine ⟨fun h1 => ⟨fun he => hn ?_, h1⟩, And.right⟩
      rw [← (h.held n r' h1).2, he]
  have hsub : ∀ q, (o'.own q).refsByDesc.Sublist (o.own q).refsByDesc := fun q => by
    rw [hu.byDesc]
    split_ifs
    · exact List.erase_sublist
    · exact .refl _
  have hN : ∀ q r', r' ∈ (o'.own q).refsByNode ↔ r' ≠ r ∧ r' ∈ (o.own q).refsByNode := by
    intro q r'
    rw [hu.byNode, hp]
    split_ifs with hq
    · exact (h.table q).nodup.mem_erase_iff
    · refine ⟨fun h1 => ⟨fun he => hq ?_, h1⟩, And.right⟩
      rw [← (h.table q).owner r' (((h.table q).same r').1 h1), he, hp]
  have hfreed : ∀ r', r' ≠ r → (o'.ref.get r').freed = (o.ref.get r').freed := fun r' hrr =>
    congrArg (·.freed) (hu.ref r' hrr)
  refine ⟨fun q => ⟨?_, ?_, fun r' => ?_, ?_, fun r' hr' => ?_, fun r' hr' => ?_⟩,
    fun q r' hr' => ?_, fun n r' hr' => ?_, fun n => ?_, fun r' hlt hr' => ?_, fun q n hn => ?_,
    fun q => (h.nodesNodup q).sublist (hu.nodes q), fun n hn => ?_, fun n d he => ?_, fun hb => ?_⟩
  · refine ((h.table q).sorted.sublist (hsub q)).imp fun hlt => ?_
    rwa [hu.refDesc, hu.refDesc]
  · intro r₁ h₁ r₂ h₂ he
    rw [hu.refNode, hu.refNode] at he
    exact (h.table q).nodes r₁ ((hsub q).subset h₁) r₂ ((hsub q).subset h₂) he
  · rw [hN, hD, (h.table q).same]
  · have hs : (o'.own q).refsByNode.Sublist (o.own q).refsByNode := by
      rw [hu.byNode]
      split_ifs
      · exact List.erase_sublist
      · exact .refl _
    exact (h.table q).nodup.sublist hs
  · rw [hu.refNext]
    exact (h.table q).below r' ((hsub q).subset hr')
  · rw [hu.refProc]
    exact (h.table q).owner r' ((hsub q).subset hr')
  · obtain ⟨hrr, hmem⟩ := (hD q r').1 hr'
    obtain ⟨h1, h2, h3⟩ := h.live q r' hmem
    rw [hfreed r' hrr, hu.refNode, hu.nodeNext]
    exact ⟨h1, h2, (hrefs _ r').2 ⟨hrr, h3⟩⟩
  · obtain ⟨hrr, hmem⟩ := (hrefs n r').1 hr'
    obtain ⟨h1, h2⟩ := h.held n r' hmem
    rw [hu.refProc, hu.refNode]
    exact ⟨(hD _ r').2 ⟨hrr, h1⟩, h2⟩
  · rw [hu.refs]
    split_ifs
    · exact (h.refsNodup n).erase r
    · exact h.refsNodup n
  · rw [hu.refProc, hD] at hr'
    rw [hu.refNext] at hlt
    by_cases hrr : r' = r
    · rw [hrr, show (o'.ref.get r).freed = (o.ref.get r).freed + 1 from congrArg (·.freed) hu.self,
        (h.live p r hr).1]
    · rw [hfreed r' hrr]
      exact h.gone r' hlt fun hmem => hr' ⟨hrr, hmem⟩
  · rw [hu.nodeNext, hu.proc]
    exact h.nodes q n ((hu.nodes q).subset hn)
  · rw [hu.nodeNext]
    exact (hu.mgr n hn).elim (h.mgr n) id
  · exact h.async n d ((hu.entry _ d).1 he).1
  · exact (hu.oops _ hb).elim h.descs fun hf => by cases hf

theorem RefsInv.step {o o' : Objects} (h : RefsInv o) (hs : LinkStep o o') : RefsInv o' := by
  cases hs with
  | same hs => exact h.congr hs.tables
  | newNode key hproc hrefs => exact h.newNode key hproc hrefs
  | newRef hn hnone => exact h.newRef hn hnone
  | deleteRef hr => exact h.unlinked hr (binderDeleteRef_unlinked o _)

theorem RefsInv.links {o o' : Objects} (h : RefsInv o) (hs : Links o o') : RefsInv o' := by
  induction hs with
  | refl => exact h
  | tail _ hs ih => exact ih.step hs

/-! The functions -/

section

variable (o : Objects) (p n r : ℕ)

theorem binderNewNode_links (ptr cookie : ℕ) (kzalloc : Bool) :
    Links o (binderNewNode o p ptr cookie kzalloc).1 ∧
      ∀ n, (binderNewNode o p ptr cookie kzalloc).2 = some n →
        n < (binderNewNode o p ptr cookie kzalloc).1.node.next := by
  unfold binderNewNode
  split_ifs
  · exact ⟨.refl o, fun n hn => by cases hn⟩
  · exact ⟨.single (.newNode _ rfl rfl), fun n hn => Option.some.inj hn ▸ Nat.lt_succ_self _⟩

theorem binderGetRefForNode_links (hn : n < o.node.next) (kzalloc : Bool) :
    Links o (binderGetRefForNode o p n kzalloc).1 := by
  unfold binderGetRefForNode
  split
  · exact .refl o
  · split_ifs
    · exact .single (.newRef hn ‹_›)
    · exact .refl o

theorem binderDecRef_links (hr : r ∈ (o.own p).refsByDesc) (strong : Bool) :
    Links o (binderDecRef o r strong) := by
  have h₁ : SameLinks o (o.modRef r (.lower strong)) :=
    sameLinks_modRef o r (BinderRef.bare_lower strong)
  have h₂ := h₁.trans (.ite (c := strong ∧ ((o.modRef r (.lower strong)).ref.get r).strong = 0)
    (binderDecNode_sameLinks _ (o.ref.get r).node true true) (.refl _))
  unfold binderDecRef
  refine .ite (.refl o) (.ite (h₂.links.trans (.single (.deleteRef (p := p) ?_))) h₂.links)
  rw [h₂.byDesc]
  exact hr

end

section

variable {o : Objects} (h : RefsInv o) (data : List ℕ) (off : ℕ) (strong : Bool)

include h

theorem senderNode_links (env : ObjectEnv) (x : Transfer) :
    Links o (senderNode env x o data off).1 ∧
      ∀ n, (senderNode env x o data off).2 = some n →
        n < (senderNode env x o data off).1.node.next := by
  obtain ⟨h1, h2⟩ := binderNewNode_links o x.proc (objectQuad data off 2) (objectQuad data off 4)
    env.kzallocNode
  unfold senderNode
  split
  · rename_i n hget
    refine ⟨.refl o, fun m hm => Option.some.inj hm ▸ ?_⟩
    exact (h.nodes x.proc n (List.mem_of_find?_eq_some hget)).1
  · split
    · rename_i he
      rw [he] at h1
      exact ⟨h1, fun m hm => by cases hm⟩
    · rename_i he
      rw [he] at h1 h2
      refine ⟨h1.trans (SameLinks.links ?_), fun m hm => h2 m hm⟩
      exact sameLinks_modNode _ _ (fun _ => rfl) fun _ => rfl

theorem translateBinder_links (env : ObjectEnv) (x : Transfer) :
    Links o (translateBinder env x o data off strong).1 := by
  obtain ⟨hnode, hlt⟩ := senderNode_links h data off env x
  unfold translateBinder
  split
  · rename_i he
    rwa [he] at hnode
  · rename_i o₁ n he
    rw [he] at hnode hlt
    split_ifs
    · exact hnode
    · have href := binderGetRefForNode_links o₁ x.targetProc n (hlt n rfl) env.kzallocRef
      split
      · rename_i he
        rw [he] at href
        exact hnode.trans href
      · rename_i he
        rw [he] at href
        exact (hnode.trans href).trans (binderIncRef_sameLinks _ _ _ _).links

theorem translateHandle_links (env : ObjectEnv) (x : Transfer) :
    Links o (translateHandle env x o data off strong).1 := by
  unfold translateHandle
  split
  · exact .refl o
  · rename_i r hget
    have hlt := (h.live x.proc r (mem_of_binderGetRef hget).1).2.1
    dsimp only
    split_ifs
    · exact (binderIncNode_sameLinks _ _ _ _ _).links
    · have href := binderGetRefForNode_links o x.targetProc _ hlt env.kzallocRef
      split
      · rename_i he
        rw [he] at href
        exact href
      · rename_i he
        rw [he] at href
        exact href.trans (binderIncRef_sameLinks _ _ _ _).links

omit h in
theorem translateFd_links (env : ObjectEnv) (x : Transfer) :
    Links o (translateFd env x o data off).1 := by
  unfold translateFd
  split_ifs
  · exact .refl o
  · split
    · exact .refl o
    · dsimp only
      refine SameLinks.links ?_
      exact sameLinks_files o _ fun _ => ⟨rfl, rfl, rfl⟩

theorem translateObject_links (L : Layout) (env : ObjectEnv) (x : Transfer) (dataSize : ℕ) :
    Links o (translateObject L env x dataSize o data off).1 := by
  unfold translateObject
  split_ifs
  · exact .refl o
  · split
    · exact translateBinder_links h _ _ _ _ _
    · exact translateBinder_links h _ _ _ _ _
    · exact translateHandle_links h _ _ _ _ _
    · exact translateHandle_links h _ _ _ _ _
    · exact translateFd_links _ _ _ _
    · exact .refl o

end

theorem translateObjects_links (L : Layout) {o : Objects} (h : RefsInv o) (data : List ℕ)
    (env : ℕ → ObjectEnv) (x : Transfer) (dataSize : ℕ) (offs : List ℕ) (k : ℕ) :
    Links o (translateObjects L env x dataSize offs k o data).1 := by
  induction offs generalizing k o data with
  | nil => exact .refl o
  | cons off offs ih =>
    have h1 := translateObject_links h data off L (env k) x dataSize
    unfold translateObjects
    split
    · rename_i he
      rw [he] at h1
      exact h1.trans (ih (h.links h1) _ _)
    · rename_i he
      rw [he] at h1
      exact h1

theorem translateBuffer_links (L : Layout) {o : Objects} (h : RefsInv o) (x : Transfer)
    (env : TransactionEnv) (tr : TransactionData) (b : BinderBuffer) :
    Links o (translateBuffer L o x env tr b).1 := by
  unfold translateBuffer
  split_ifs
  · exact .refl o
  · exact translateObjects_links L h b.data env.object x tr.dataSize b.offsets 0

section

variable (o : Objects) (p : ℕ)

theorem releaseObject_links (L : Layout) (dataSize : ℕ) (data : List ℕ) (failed : Bool) (off : ℕ) :
    Links o (releaseObject L p dataSize data failed o off) := by
  have hbinder : ∀ strong, Links o (releaseBinder p o data off strong) := fun strong => by
    unfold releaseBinder
    split
    · exact .refl o
    · exact (binderDecNode_sameLinks _ _ _ _).links
  have hhandle : ∀ strong, Links o (releaseHandle p o data off strong) := fun strong => by
    unfold releaseHandle
    split
    · exact .refl o
    · exact binderDecRef_links o p _ (mem_of_binderGetRef ‹_›).1 strong
  unfold releaseObject
  refine .ite (.refl o) ?_
  split
  · exact hbinder true
  · exact hbinder false
  · exact hhandle true
  · exact hhandle false
  · refine .ite (.ite (SameLinks.links ?_) (.refl o)) (.refl o)
    exact sameLinks_files o _ fun _ => ⟨rfl, rfl, rfl⟩
  · exact .refl o

theorem bufferRelease_links (L : Layout) (b : BinderBuffer) (failedAt : Option ℕ) :
    Links o (binderTransactionBufferRelease L o p b failedAt) := by
  have hloop : ∀ (offs : List ℕ) (o : Objects),
      Links o (offs.foldl (releaseObject L p b.dataSize b.data failedAt.isSome) o) := by
    intro offs
    induction offs with
    | nil => exact .refl
    | cons off offs ih => exact fun o => (releaseObject_links o p L _ _ _ off).trans (ih _)
  unfold binderTransactionBufferRelease
  dsimp only
  refine Links.trans ?_ (hloop _ _)
  split
  · exact (binderDecNode_sameLinks _ _ _ _).links
  · exact .refl o

variable {o}

theorem countRef_links {r : ℕ} (c : RefCommand)
    (hr : c = .release ∨ c = .decrefs → r ∈ (o.own p).refsByDesc) : Links o (countRef o r c) := by
  cases c with
  | increfs => exact (binderIncRef_sameLinks _ _ _ _).links
  | acquire => exact (binderIncRef_sameLinks _ _ _ _).links
  | release => exact binderDecRef_links o p r (hr (.inl rfl)) true
  | decrefs => exact binderDecRef_links o p r (hr (.inr rfl)) false

theorem refCommand_links (h : RefsInv o) (c : RefCommand) (target : ℕ) (kzalloc : Bool) :
    Links o (refCommand o p c target kzalloc) := by
  have hfound : Links o ((binderGetRef o p target).elim o (countRef o · c)) := by
    cases hget : binderGetRef o p target with
    | none => exact .refl o
    | some r => exact countRef_links p c fun _ => (mem_of_binderGetRef hget).1
  rw [refCommand_eq]
  unfold commandRef
  cases hmgr : o.contextMgrNode with
  | none => exact hfound
  | some n =>
    dsimp only
    by_cases hinc : target = 0 ∧ (c = .increfs ∨ c = .acquire)
    · rw [if_pos hinc]
      have href := (binderGetRefForNode_links o p n (h.mgr n hmgr) kzalloc).trans
        (sameLinks_bugOn _ (binderGetRefForNode o p n kzalloc).2.isNone (b := .refAllocation)
          rfl).links
      cases hr : (binderGetRefForNode o p n kzalloc).2 with
      | none =>
        rw [hr] at href
        exact href
      | some r =>
        rw [hr] at href
        refine href.trans (countRef_links p c fun hc => ?_)
        rcases hinc.2 with rfl | rfl <;> rcases hc with hc | hc <;> cases hc
    · rw [if_neg hinc]
      exact hfound

theorem refDone_sameLinks (strong : Bool) (ptr cookie : ℕ) :
    SameLinks o (refDone o p strong ptr cookie) := by
  unfold refDone
  split
  · exact .refl o
  · refine .ite (.refl o) (SameLinks.trans ?_ (binderDecNode_sameLinks _ _ _ _))
    exact sameLinks_modNode _ _ (fun x => by cases strong <;> rfl)
      (BinderNode.proc_clearPending strong)

theorem nextAsync_sameLinks (h : RefsInv o) (T n : ℕ) : SameLinks o (nextAsync o T n) := by
  have hbug := sameLinks_bugOn o (!(o.node.get n).hasAsyncTransaction) (b := .hasAsyncTransaction)
    rfl
  unfold nextAsync
  dsimp only
  split
  · exact hbug.trans (sameLinks_modNode _ n (fun _ => rfl) fun _ => rfl)
  · rename_i w hw
    refine hbug.trans (sameLinks_moveTail _ _ fun d he => ?_)
    exact h.async n d (he ▸ Queues.first_mem hw)

end

end Binder

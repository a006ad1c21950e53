import BinderIpc.Death.Runs
import BinderIpc.Wire.ReadFraming

/-! The references of a process: which descriptor a new one gets, and that it
keeps it until it is deleted. -/

namespace Binder

section

variable {o o' : Objects} {p n r : ℕ}

/-! The first unused descriptor -/

/-- The loop never goes back, and what it passes is in use. -/
theorem unusedDesc_passed {l : List ℕ}
    (hl : l.Pairwise fun r r' => (o.ref.get r).desc < (o.ref.get r').desc) {d : ℕ}
    (hd : ∀ r ∈ l, d ≤ (o.ref.get r).desc + 1) : d ≤ unusedDesc o d l ∧
      ∀ k, d ≤ k → k < unusedDesc o d l → ∃ r ∈ l, (o.ref.get r).desc = k := by
  induction l generalizing d with
  | nil => exact ⟨le_rfl, fun k h1 h2 => absurd h1 h2.not_ge⟩
  | cons r l ih =>
    obtain ⟨hr, hl⟩ := List.pairwise_cons.1 hl
    unfold unusedDesc
    split_ifs with hlt
    · exact ⟨le_rfl, fun k h1 h2 => absurd h1 h2.not_ge⟩
    · obtain ⟨hle, hpass⟩ := ih hl (d := (o.ref.get r).desc + 1) fun r' hr' =>
        Nat.add_le_add_right (hr r' hr').le 1
      have hdr := hd r List.mem_cons_self
      refine ⟨by omega, fun k h1 h2 => ?_⟩
      by_cases hk : (o.ref.get r).desc = k
      · exact ⟨r, List.mem_cons_self, hk⟩
      · obtain ⟨r', hr', he⟩ := hpass k (by omega) h2
        exact ⟨r', List.mem_cons_of_mem r hr', he⟩

/-- The loop as it counts with `uint32_t`. -/
def unusedDesc32 (o : Objects) : ℕ → List ℕ → ℕ
  | desc, [] => desc
  | desc, r :: l =>
    if desc < (o.ref.get r).desc then desc
    else unusedDesc32 o (((o.ref.get r).desc + 1) % 2 ^ 32) l

/-- With room above the references nothing wraps. -/
theorem unusedDesc32_eq {l : List ℕ}
    (hl : l.Pairwise fun r r' => (o.ref.get r).desc < (o.ref.get r').desc) {d : ℕ}
    (hroom : d + l.length < 2 ^ 32) :
    unusedDesc32 o d l = unusedDesc o d l ∧ unusedDesc o d l < 2 ^ 32 := by
  induction l generalizing d with
  | nil => exact ⟨rfl, by simpa [unusedDesc] using hroom⟩
  | cons r l ih =>
    rw [List.length_cons] at hroom
    unfold unusedDesc32 unusedDesc
    split_ifs with hlt
    · exact ⟨rfl, by omega⟩
    · have hmod : ((o.ref.get r).desc + 1) % 2 ^ 32 = (o.ref.get r).desc + 1 :=
        Nat.mod_eq_of_lt (by omega)
      rw [hmod]
      exact ih (List.pairwise_cons.1 hl).2 (by omega)

/-- Where the loop starts. -/
def firstDesc (o : Objects) (n : ℕ) : ℕ := if o.contextMgrNode = some n then 0 else 1

theorem firstDesc_le (o : Objects) (n : ℕ) : firstDesc o n ≤ 1 := by
  unfold firstDesc
  split_ifs
  · exact Nat.zero_le 1
  · exact le_rfl

/-- The descriptors from `d` on that no reference of the process has. -/
def freeDescs (o : Objects) (p d : ℕ) : Set ℕ :=
  {k | d ≤ k ∧ ∀ r ∈ (o.own p).refsByDesc, (o.ref.get r).desc ≠ k}

theorem RefTable.newDesc_least (ht : RefTable o p) (n : ℕ) :
    IsLeast (freeDescs o p (firstDesc o n)) (newDesc o p n) := by
  obtain ⟨hle, hpass⟩ := unusedDesc_passed ht.sorted (d := firstDesc o n) fun r _ =>
    (firstDesc_le o n).trans (Nat.succ_le_succ (Nat.zero_le _))
  refine ⟨⟨hle, fun r hr => unusedDesc_ne ht.sorted _ r hr⟩, fun k hk => ?_⟩
  by_contra hlt
  obtain ⟨r, hr, he⟩ := hpass k hk.1 (not_le.1 hlt)
  exact hk.2 r hr he

/-! The table of one process -/

/-- What the process and the driver rely on when they use descriptors. -/
structure HandleTable (o : Objects) (p : ℕ) : Prop where
  descs : ∀ r ∈ (o.own p).refsByDesc, ∀ r' ∈ (o.own p).refsByDesc,
    (o.ref.get r).desc = (o.ref.get r').desc → r = r'
  nodes : ∀ r ∈ (o.own p).refsByDesc, ∀ r' ∈ (o.own p).refsByDesc,
    (o.ref.get r).node = (o.ref.get r').node → r = r'
  same : ∀ r, r ∈ (o.own p).refsByNode ↔ r ∈ (o.own p).refsByDesc
  resolves : ∀ r ∈ (o.own p).refsByDesc, binderGetRef o p (o.ref.get r).desc = some r
  found : ∀ r ∈ (o.own p).refsByDesc, ∀ kzalloc,
    binderGetRefForNode o p (o.ref.get r).node kzalloc = (o, some r)
  refused : ∀ n, (∀ r ∈ (o.own p).refsByDesc, (o.ref.get r).node ≠ n) →
    binderGetRefForNode o p n false = (o, none)
  made : ∀ n, (∀ r ∈ (o.own p).refsByDesc, (o.ref.get r).node ≠ n) →
    ∃ o' r, binderGetRefForNode o p n true = (o', some r) ∧ r ∉ (o.own p).refsByDesc ∧
      r ∈ (o'.own p).refsByDesc ∧ (o'.ref.get r).node = n ∧
      IsLeast (freeDescs o p (firstDesc o n)) (o'.ref.get r).desc
  narrow : ∀ n, (o.own p).refsByDesc.length < 2 ^ 32 - 1 →
    unusedDesc32 o (firstDesc o n) (o.own p).refsByDesc = newDesc o p n ∧ newDesc o p n < 2 ^ 32

theorem RefTable.refForNode_eq (ht : RefTable o p) (hr : r ∈ (o.own p).refsByDesc) :
    refForNode o p (o.ref.get r).node = some r := by
  cases hfind : refForNode o p (o.ref.get r).node with
  | none =>
    have hall := List.find?_eq_none.1 hfind r ((ht.same r).2 hr)
    simp at hall
  | some r' =>
    obtain ⟨hr', hn⟩ := mem_refsByNode_of_refForNode hfind
    rw [ht.nodes r' ((ht.same r').1 hr') r hr hn]

theorem RefTable.refForNode_none (ht : RefTable o p)
    (hn : ∀ r ∈ (o.own p).refsByDesc, (o.ref.get r).node ≠ n) : refForNode o p n = none :=
  List.find?_eq_none.2 fun r hr => by simpa using hn r ((ht.same r).1 hr)

theorem RefTable.binderGetRef_eq (ht : RefTable o p) (hr : r ∈ (o.own p).refsByDesc) :
    binderGetRef o p (o.ref.get r).desc = some r := by
  cases hfind : binderGetRef o p (o.ref.get r).desc with
  | none =>
    have hall := List.find?_eq_none.1 hfind r hr
    simp at hall
  | some r' =>
    obtain ⟨hr', hd⟩ := mem_of_binderGetRef hfind
    rw [ht.desc_inj hr' hr hd]

theorem RefTable.handles (ht : RefTable o p) : HandleTable o p where
  descs r hr r' hr' he := ht.desc_inj hr hr' he
  nodes := ht.nodes
  same := ht.same
  resolves r hr := ht.binderGetRef_eq hr
  found r hr kzalloc := by rw [binderGetRefForNode, ht.refForNode_eq hr]
  refused n hn := by simp [binderGetRefForNode, ht.refForNode_none hn]
  made n hn := by
    have hnone := ht.refForNode_none hn
    obtain ⟨-, hmem, hnode⟩ := newRef_recount ht hnone
    refine ⟨newRef o p n, o.ref.next, by simp [binderGetRefForNode, hnone], fun hr => ?_, hmem,
      hnode, ?_⟩
    · exact lt_irrefl _ (ht.below _ hr)
    · have hdesc : ((newRef o p n).ref.get o.ref.next).desc = newDesc o p n :=
        congrArg _ (o.ref.get_alloc_self _)
      rw [hdesc]
      exact ht.newDesc_least n
  narrow n hroom := by
    have hle := firstDesc_le o n
    exact unusedDesc32_eq ht.sorted (by omega)

/-! What becomes of a reference -/

/-- A reference is deleted or is found as before. -/
structure RefsKept (o o' : Objects) : Prop where
  next : o.ref.next ≤ o'.ref.next
  desc : ∀ r < o.ref.next, (o'.ref.get r).desc = (o.ref.get r).desc
  node : ∀ r < o.ref.next, (o'.ref.get r).node = (o.ref.get r).node
  proc : ∀ r < o.ref.next, (o'.ref.get r).proc = (o.ref.get r).proc
  gone : ∀ r < o.ref.next, (o.ref.get r).freed = 1 → (o'.ref.get r).freed = 1

theorem RefsKept.refl (o : Objects) : RefsKept o o :=
  ⟨le_rfl, fun _ _ => rfl, fun _ _ => rfl, fun _ _ => rfl, fun _ _ => id⟩

theorem RefsKept.trans {o'' : Objects} (h : RefsKept o o') (h' : RefsKept o' o'') :
    RefsKept o o'' where
  next := h.next.trans h'.next
  desc r hr := (h'.desc r (hr.trans_le h.next)).trans (h.desc r hr)
  node r hr := (h'.node r (hr.trans_le h.next)).trans (h.node r hr)
  proc r hr := (h'.proc r (hr.trans_le h.next)).trans (h.proc r hr)
  gone r hr hf := h'.gone r (hr.trans_le h.next) (h.gone r hr hf)

/-- Only counts and death records change. -/
theorem RefsKept.of_bare (hnext : o'.ref.next = o.ref.next)
    (h : ∀ r, ({ o'.ref.get r with death := none } : BinderRef).bare =
      ({ o.ref.get r with death := none } : BinderRef).bare) : RefsKept o o' where
  next := hnext.ge
  desc r _ := congrArg (·.desc) (h r)
  node r _ := congrArg (·.node) (h r)
  proc r _ := congrArg (·.proc) (h r)
  gone r _ hf := (congrArg (·.freed) (h r)).trans hf

theorem SameTables.kept (h : SameTables o o') : RefsKept o o' := .of_bare h.refNext h.ref

theorem LinkStep.kept (hs : LinkStep o o') (hi : RefsInv o) : RefsKept o o' := by
  cases hs with
  | same hs => exact hs.tables.kept
  | newNode key hproc hrefs => exact { RefsKept.refl o with }
  | @newRef p n hn hnone =>
    have hold : ∀ r < o.ref.next, (Binder.newRef o p n).ref.get r = o.ref.get r := fun r hr =>
      o.ref.get_alloc_ne r _ hr.ne
    refine ⟨Nat.le_succ _, fun r hr => ?_, fun r hr => ?_, fun r hr => ?_, fun r hr hf => ?_⟩
    all_goals rw [hold r hr]
    exact hf
  | @deleteRef p r hr =>
    have hu := binderDeleteRef_unlinked o r
    refine ⟨hu.refNext.ge, fun r' _ => hu.refDesc r', fun r' _ => hu.refNode r',
      fun r' _ => hu.refProc r', fun r' _ hf => ?_⟩
    have hne : r' ≠ r := fun he => by
      rw [he, (hi.live p r hr).1] at hf
      cases hf
    exact (congrArg (·.freed) (hu.ref r' hne)).trans hf

theorem Links.kept (hs : Links o o') (hi : RefsInv o) : RefsKept o o' := by
  induction hs with
  | refl => exact .refl o
  | tail hs h1 ih => exact ih.trans (h1.kept (hi.links hs))

/-- Before it is deleted, a descriptor finds the reference, and the node, that it found. -/
theorem RefsKept.resolves {d : ℕ} (h : RefsKept o o') (hi : RefsInv o) (hi' : RefsInv o')
    (hget : binderGetRef o p d = some r) :
    (o'.ref.get r).node = (o.ref.get r).node ∧
      (binderGetRef o' p d = some r ∨ (o'.ref.get r).freed = 1 ∧ ∀ q, r ∉ (o'.own q).refsByDesc) := by
  obtain ⟨hr, rfl⟩ := mem_of_binderGetRef hget
  have hlt := (hi.table p).below r hr
  have hproc : (o'.ref.get r).proc = p := (h.proc r hlt).trans ((hi.table p).owner r hr)
  refine ⟨h.node r hlt, ?_⟩
  by_cases hr' : r ∈ (o'.own p).refsByDesc
  · left
    rw [← h.desc r hlt]
    exact (hi'.table p).binderGetRef_eq hr'
  · refine Or.inr ⟨hi'.gone r (hlt.trans_le h.next) (hproc.symm ▸ hr'), fun q hq => ?_⟩
    have hq' := (hi'.table q).owner r hq
    exact hr' (hproc.symm.trans hq' ▸ hq)

end

/-! The steps of the driver -/

section

variable {K : DeathScope} {s s' : Driver}

theorem OnlyRecord.kept {d : ℕ} (h : OnlyRecord s s' d) : RefsKept s.obj s'.obj := h.tables.kept

theorem DeathStep.kept (hs : DeathStep K s s') (hi : RefsInv s.obj) : RefsKept s.obj s'.obj := by
  cases hs with
  | quiet h => exact h.links.tables.kept
  | link h => exact h.kept hi
  | orphan f _ _ _ _ _ => exact { RefsKept.refl s.obj with }
  | request cookie _ hnone _ => exact (onlyRecord_requested cookie hnone).kept
  | @requestDead r l cookie hr hnone hdead hl _ =>
    exact (onlyRecord_requested cookie hnone).kept.trans { RefsKept.refl _ with }
  | notice hr hoff hdead htold hl _ => exact { RefsKept.refl s.obj with }
  | clearOn hr hon =>
    exact (onlyRecord_detached hr).kept.trans { RefsKept.refl _ with }
  | clearOff hr hoff hl _ =>
    exact (onlyRecord_detached hr).kept.trans { RefsKept.refl _ with }
  | answer hon htype => exact { RefsKept.refl s.obj with }
  | answerClear hon htype hl _ => exact { RefsKept.refl s.obj with }
  | tell hT hon hl htype => exact { RefsKept.refl s.obj with }
  | tellClear hon _ htype => exact { RefsKept.refl s.obj with }
  | throw hon hfree _ => exact onlyRecord_throw.kept

theorem Deaths.kept (hs : Deaths K s s') (hi : DeathInv s) : RefsKept s.obj s'.obj := by
  induction hs with
  | refl => exact .refl _
  | tail hs h1 ih => exact ih.trans (h1.kept (hi.steps hs).links)

theorem exec_kept (L : Layout) (rb : RbTree ℕ) (hi : DeathInv s) (ht : ThreadInv s)
    (as : List Action) : DeathInv ((driverMachine L rb).exec s as) ∧
      RefsKept s.obj ((driverMachine L rb).exec s as).obj := by
  induction as generalizing s with
  | nil => exact ⟨hi, .refl _⟩
  | cons a as ih =>
    have hstep : RefsKept s.obj ((driverMachine L rb).step s a).obj := by
      by_cases hen : a.enabled L s = true
      · rw [show (driverMachine L rb).step s a = a.apply L rb s from if_pos hen]
        exact (a.deaths L rb hi ht hen).kept hi
      · rw [show (driverMachine L rb).step s a = s from if_neg hen]
        exact .refl _
    obtain ⟨h1, h2⟩ := ih (deathInv_step hi ht a) (ht.step a)
    exact ⟨h1, hstep.trans h2⟩

end

/-! Operations -/

/-- What is done to the references and nodes of processes. -/
inductive RefOp
  /-- `binder_new_node` -/
  | newNode (p ptr cookie : ℕ) (kzalloc : Bool)
  /-- `binder_get_ref_for_node` -/
  | getForNode (p n : ℕ) (kzalloc : Bool)
  /-- `binder_inc_ref` -/
  | inc (r : ℕ) (strong : Bool) (targetList : Option ListHead)
  /-- `binder_dec_ref`, which deletes a reference without counts -/
  | dec (r : ℕ) (strong : Bool)
  /-- `binder_delete_ref` -/
  | delete (r : ℕ)
  /-- `binder_context_mgr_node` is set -/
  | setMgr (n : Option ℕ)

/-- The reference is in the table of its process. -/
def Objects.holds (o : Objects) (r : ℕ) : Bool := r ∈ (o.own (o.ref.get r).proc).refsByDesc

/-- The nodes and the references of an operation are there. -/
def RefOp.enabled (o : Objects) : RefOp → Bool
  | newNode _ _ _ _ => true
  | getForNode _ n _ => n < o.node.next
  | inc r _ _ | dec r _ | delete r => o.holds r
  | setMgr n => n.all (· < o.node.next)

def RefOp.apply (o : Objects) : RefOp → Objects
  | newNode p ptr cookie kzalloc => (binderNewNode o p ptr cookie kzalloc).1
  | getForNode p n kzalloc => (binderGetRefForNode o p n kzalloc).1
  | inc r strong targetList => (binderIncRef o r strong targetList).1
  | dec r strong => binderDecRef o r strong
  | delete r => binderDeleteRef o r
  | setMgr n => { o with contextMgrNode := n }

/-- Operations one after the other. -/
def refMachine : Machine Objects RefOp where
  start o := o = {}
  step o op := if op.enabled o then op.apply o else o

theorem refMachine_links (o : Objects) (op : RefOp) : Links o (refMachine.step o op) := by
  by_cases hen : op.enabled o = true
  swap
  · rw [show refMachine.step o op = o from if_neg hen]
    exact .refl o
  rw [show refMachine.step o op = op.apply o from if_pos hen]
  cases op with
  | newNode p ptr cookie kzalloc => exact (binderNewNode_links o p ptr cookie kzalloc).1
  | getForNode p n kzalloc => exact binderGetRefForNode_links o p n (of_decide_eq_true hen) kzalloc
  | inc r strong targetList => exact (binderIncRef_sameLinks o r strong targetList).links
  | dec r strong => exact binderDecRef_links o _ r (of_decide_eq_true hen) strong
  | delete r => exact .single (.deleteRef (of_decide_eq_true hen))
  | setMgr n =>
    refine SameLinks.links { SameLinks.refl o with mgr := fun m hm => Or.inr ?_ }
    obtain rfl : n = some m := hm
    exact of_decide_eq_true hen

theorem exec_links (o : Objects) (ops : List RefOp) : Links o (refMachine.exec o ops) := by
  induction ops generalizing o with
  | nil => exact .refl o
  | cons op ops ih => exact (refMachine_links o op).trans (ih _)

/-- In every run, and after whatever is then done to references, the table of each process is in
order, and what a descriptor once named it names until the reference is deleted. -/
theorem handles_reach {L : Layout} {rb : RbTree ℕ} {ok : Driver → Action → Prop} {s : Driver}
    (h : (driverMachine L rb).Reach ok s) (as : List Action) (ops : List RefOp) {o : Objects}
    (ho : o = refMachine.exec ((driverMachine L rb).exec s as).obj ops) :
    (∀ p, HandleTable o p) ∧ .descInUse ∉ o.oops ∧
      ∀ p d r, binderGetRef s.obj p d = some r →
        (o.ref.get r).desc = d ∧ (o.ref.get r).node = (s.obj.ref.get r).node ∧
          (binderGetRef o p d = some r ∨
            (o.ref.get r).freed = 1 ∧ ∀ q, r ∉ (o.own q).refsByDesc) := by
  have hi := deathInv_reach h
  obtain ⟨hi', hrun⟩ := exec_kept L rb hi (threadInv_reach h) as
  have hops := exec_links ((driverMachine L rb).exec s as).obj ops
  rw [← ho] at hops
  have ho' := hi'.links.links hops
  have hkept := hrun.trans (hops.kept hi'.links)
  refine ⟨fun p => (ho'.table p).handles, ho'.descs, fun p d r hget => ?_⟩
  obtain ⟨hr, rfl⟩ := mem_of_binderGetRef hget
  exact ⟨hkept.desc r ((hi.links.table p).below r hr), hkept.resolves hi.links ho' hget⟩

/-- The context manager dies, and the client gets a reference to a node of its own. -/
def afterManager : Objects :=
  refMachine.exec ((driverMachine layout32 .plain).exec (afterActions callingClient)
    [.vmaClose 0, .close 0, .deferredFunc 0 fun _ => {}]).obj
    [.newNode 1 5 5 true, .getForNode 1 1 true]

theorem handles_reach_client : HandleTable afterManager 1 ∧
    (binderGetRef afterManager 1 0 = some 0 ∨ (afterManager.ref.get 0).freed = 1) ∧
    binderGetRef afterManager 1 1 = some 1 := by
  obtain ⟨htable, -, hkept⟩ := handles_reach (o := afterManager) (reach_afterActions callingClient)
    _ _ rfl
  have hget : binderGetRef (afterActions callingClient).obj 1 0 = some 0 := by decide +kernel
  exact ⟨htable 1, (hkept 1 0 0 hget).2.2.imp_right And.left, by decide +kernel⟩

end Binder

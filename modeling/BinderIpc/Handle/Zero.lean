import BinderIpc.Handle.Table

/-! Handle 0 for counting: `BC_INCREFS` and `BC_ACQUIRE` find the reference by the
context manager's node, `BC_RELEASE` and `BC_DECREFS` by the descriptor. -/

namespace Binder

def RefCommand.strong : RefCommand → Bool
  | acquire | release => true
  | increfs | decrefs => false

def RefCommand.increases (c : RefCommand) : Bool := c = .increfs ∨ c = .acquire

section

variable {o : Objects} {p n r : ℕ} {c : RefCommand} {kzalloc : Bool}

/-- Descriptor 0 is the one of the context manager's node. -/
def ZeroNamesMgr (o : Objects) (p : ℕ) : Prop :=
  ∀ r ∈ (o.own p).refsByDesc, (o.ref.get r).desc = 0 ↔ o.contextMgrNode = some (o.ref.get r).node

theorem commandRef_decreases (hc : c.increases = false) :
    commandRef o p c 0 kzalloc = (o, binderGetRef o p 0) := by
  have hnot : ¬(c = .increfs ∨ c = .acquire) := by simpa [RefCommand.increases] using hc
  unfold commandRef
  cases o.contextMgrNode with
  | none => rfl
  | some n => exact if_neg fun h => hnot h.2

theorem commandRef_increases (hc : c.increases = true) (hmgr : o.contextMgrNode = some n) :
    commandRef o p c 0 kzalloc =
      ((binderGetRefForNode o p n kzalloc).1.bugOn (binderGetRefForNode o p n kzalloc).2.isNone
        .refAllocation, (binderGetRefForNode o p n kzalloc).2) := by
  have hinc : c = .increfs ∨ c = .acquire := by simpa [RefCommand.increases] using hc
  unfold commandRef
  rw [hmgr]
  exact if_pos ⟨rfl, hinc⟩

theorem commandRef_none (hmgr : o.contextMgrNode = none) :
    commandRef o p c 0 kzalloc = (o, binderGetRef o p 0) := by
  rw [commandRef, hmgr]

/-- Looking for the reference deletes none. -/
theorem commandRef_links (hi : RefsInv o) : Links o (commandRef o p c 0 kzalloc).1 := by
  cases hmgr : o.contextMgrNode with
  | none =>
    rw [commandRef_none hmgr]
    exact .refl o
  | some n =>
    cases hc : c.increases with
    | false =>
      rw [commandRef_decreases hc]
      exact .refl o
    | true =>
      rw [commandRef_increases hc hmgr]
      exact (binderGetRefForNode_links o p n (hi.mgr n hmgr) kzalloc).trans
        (sameLinks_bugOn _ _ rfl).links

theorem commandRef_mem (hr : r ∈ (o.own p).refsByDesc) :
    r ∈ ((commandRef o p c 0 kzalloc).1.own p).refsByDesc := by
  cases hmgr : o.contextMgrNode with
  | none => rwa [commandRef_none hmgr]
  | some n =>
    cases hc : c.increases with
    | false => rwa [commandRef_decreases hc]
    | true =>
      rw [commandRef_increases hc hmgr]
      change r ∈ ((binderGetRefForNode o p n kzalloc).1.own p).refsByDesc
      unfold binderGetRefForNode
      split
      · exact hr
      · split_ifs
        · exact (mem_newRef o p n p r).2 (Or.inr hr)
        · exact hr

/-- The reference that is found is there, and for the node of the context manager if there is one. -/
theorem commandRef_found (hi : RefsInv o) (hc : c.increases = true)
    (hget : (commandRef o p c 0 kzalloc).2 = some r) :
    r ∈ ((commandRef o p c 0 kzalloc).1.own p).refsByDesc ∧
      ∀ n, o.contextMgrNode = some n → ((commandRef o p c 0 kzalloc).1.ref.get r).node = n := by
  cases hmgr : o.contextMgrNode with
  | none =>
    rw [commandRef_none hmgr] at hget ⊢
    exact ⟨(mem_of_binderGetRef hget).1, fun n hn => by cases hn⟩
  | some n =>
    rw [commandRef_increases hc hmgr] at hget ⊢
    obtain ⟨h1, h2⟩ := (binderGetRefForNode_recount (hi.table p) kzalloc).2 r hget
    exact ⟨h1, fun m hm => Option.some.inj hm ▸ h2⟩

/-- Where descriptor 0 is the context manager's, that reference has it. -/
theorem ZeroNamesMgr.found (hz : ZeroNamesMgr o p) (hi : RefsInv o) (hc : c.increases = true)
    (hget : (commandRef o p c 0 kzalloc).2 = some r) : ∃ n, o.contextMgrNode = some n ∧
      ((commandRef o p c 0 kzalloc).1.ref.get r).node = n ∧
      ((commandRef o p c 0 kzalloc).1.ref.get r).desc = 0 := by
  cases hmgr : o.contextMgrNode with
  | none =>
    rw [commandRef_none hmgr] at hget
    obtain ⟨hr, hd⟩ := mem_of_binderGetRef hget
    have hn := (hz r hr).1 hd
    rw [hmgr] at hn
    cases hn
  | some n =>
    refine ⟨n, rfl, (commandRef_found hi hc hget).2 n hmgr, ?_⟩
    rw [commandRef_increases hc hmgr] at hget ⊢
    cases hfind : refForNode o p n with
    | some r' =>
      obtain ⟨hr', hn⟩ := mem_refsByNode_of_refForNode hfind
      have heq : binderGetRefForNode o p n kzalloc = (o, some r') := by
        rw [binderGetRefForNode, hfind]
      rw [heq] at hget ⊢
      obtain rfl : r' = r := Option.some.inj hget
      exact (hz r' (((hi.table p).same r').1 hr')).2 (by rw [hmgr, hn])
    | none =>
      cases kzalloc with
      | false => simp [binderGetRefForNode, hfind] at hget
      | true =>
        have heq : binderGetRefForNode o p n true = (newRef o p n, some o.ref.next) := by
          simp [binderGetRefForNode, hfind]
        rw [heq] at hget ⊢
        obtain rfl : o.ref.next = r := Option.some.inj hget
        -- no reference has descriptor 0, for it would be one for the node
        have hfree : 0 ∈ freeDescs o p (firstDesc o n) := by
          refine ⟨by simp [firstDesc, hmgr], fun r hr hd => ?_⟩
          have hn := (hz r hr).1 hd
          rw [hmgr] at hn
          have hall := List.find?_eq_none.1 hfind r (((hi.table p).same r).2 hr)
          simp [Option.some.inj hn] at hall
        have hdesc : ((newRef o p n).ref.get o.ref.next).desc = newDesc o p n :=
          congrArg _ (o.ref.get_alloc_self _)
        exact Nat.le_zero.1 (hdesc.le.trans (((hi.table p).newDesc_least n).2 hfree))

theorem countRef_increases (hc : c.increases = true) (o : Objects) (r : ℕ) :
    SameLinks o (countRef o r c) := by
  cases c with
  | increfs => exact binderIncRef_sameLinks o r false none
  | acquire => exact binderIncRef_sameLinks o r true none
  | _ => cases hc

end

/-! Runs -/

variable {L : Layout} {rb : RbTree ℕ} {ok : Driver → Action → Prop} {s : Driver} {T r : ℕ}
  {c : RefCommand} {env : CommandEnv}

/-- `BC_INCREFS` or `BC_ACQUIRE` of handle 0 changes a count of the reference. -/
structure CountsZero (L : Layout) (rb : RbTree ℕ) (s : Driver) (T : ℕ) (c : RefCommand)
    (env : CommandEnv) (r : ℕ) : Prop where
  enabled : (Action.write T (.ref c 0) env).enabled L s = true
  executed : (s.thread.get T).returnError = .ok
  increases : c.increases = true
  found : (commandRef s.obj (s.thread.get T).proc c 0 env.kzalloc).2 = some r
  changed : (((driverMachine L rb).step s (.write T (.ref c 0) env)).obj.ref.get r).count c.strong ≠
    ((commandRef s.obj (s.thread.get T).proc c 0 env.kzalloc).1.ref.get r).count c.strong

/-- Calls of handle 0 go to the node of `r`, and as long as `r` is there a `BC_RELEASE` or
`BC_DECREFS` of handle 0 is about `r`. -/
structure ZeroStays (L : Layout) (rb : RbTree ℕ) (s : Driver) (T : ℕ) (c : RefCommand)
    (env : CommandEnv) (r : ℕ) : Prop where
  calls : ∀ tr, tr.handle = 0 → targetNode s T tr =
    .ok (((driverMachine L rb).step s (.write T (.ref c 0) env)).obj.ref.get r).node
  counts : ∀ as c' kzalloc, c'.increases = false → ∀ s', s' = (driverMachine L rb).exec
    ((driverMachine L rb).step s (.write T (.ref c 0) env)) as → s'.obj.holds r →
      (commandRef s'.obj (s.thread.get T).proc c' 0 kzalloc).2 = some r

theorem targetNode_zero {tr : TransactionData} (htr : tr.handle = 0) {n : ℕ} :
    targetNode s T tr = .ok n ↔ s.obj.contextMgrNode = some n := by
  unfold targetNode
  rw [if_neg (fun h => h htr)]
  cases s.obj.contextMgrNode with
  | none => simp
  | some m => simp

theorem CountsZero.step (h : CountsZero L rb s T c env r) :
    ((driverMachine L rb).step s (.write T (.ref c 0) env)).obj =
      countRef (commandRef s.obj (s.thread.get T).proc c 0 env.kzalloc).1 r c := by
  rw [show (driverMachine L rb).step s (.write T (.ref c 0) env) =
    writeCommand L rb s T env (.ref c 0) from if_pos h.enabled]
  rw [show writeCommand L rb s T env (.ref c 0) = s.modObj fun o =>
    refCommand o (s.thread.get T).proc c 0 env.kzalloc from if_pos h.executed]
  change refCommand s.obj (s.thread.get T).proc c 0 env.kzalloc = _
  rw [refCommand_eq, h.found]
  rfl

/-- A count of handle 0 stays where it belongs exactly if descriptor 0 is the context manager's. -/
theorem zero_stays (hs : (driverMachine L rb).Reach ok s) (h : CountsZero L rb s T c env r) :
    ZeroStays L rb s T c env r ↔ ZeroNamesMgr s.obj (s.thread.get T).proc := by
  have hi := deathInv_reach hs
  have ht := threadInv_reach hs
  set p := (s.thread.get T).proc with hp
  set o := (commandRef s.obj p c 0 env.kzalloc).1 with ho
  set s₁ := (driverMachine L rb).step s (.write T (.ref c 0) env) with hs₁
  have hi₁ : DeathInv s₁ := deathInv_step hi ht _
  have ht₁ : ThreadInv s₁ := ht.step _
  have hsame : SameLinks o s₁.obj := by
    rw [h.step]
    exact countRef_increases h.increases o r
  have hlook : Links s.obj o := commandRef_links hi.links
  obtain ⟨hmem, hnode⟩ := commandRef_found hi.links h.increases h.found
  have hkept : RefsKept s.obj s₁.obj := (hlook.kept hi.links).trans hsame.tables.kept
  have hmem₁ : r ∈ (s₁.obj.own p).refsByDesc := (hsame.byDesc p).symm ▸ hmem
  have hproc₁ : (s₁.obj.ref.get r).proc = p := (hi₁.links.table p).owner r hmem₁
  constructor
  · intro hz r' hr'
    have hmgr := (targetNode_zero rfl).1 (hz.calls {} rfl)
    have hzero := hz.counts [] .release true rfl s₁ rfl (by simpa [Objects.holds, hproc₁] using hmem₁)
    rw [commandRef_decreases rfl] at hzero
    obtain ⟨-, hdesc⟩ := mem_of_binderGetRef hzero
    have hr₁ : r' ∈ (s₁.obj.own p).refsByDesc := (hsame.byDesc p).symm ▸ commandRef_mem hr'
    have hlt := (hi.links.table p).below r' hr'
    rw [← hkept.desc r' hlt, ← hkept.node r' hlt, hmgr]
    constructor
    · intro hd
      rw [(hi₁.links.table p).desc_inj hr₁ hmem₁ (hd.trans hdesc.symm)]
    · intro hn
      rw [(hi₁.links.table p).nodes r' hr₁ r hmem₁ (Option.some.inj hn).symm, hdesc]
  · intro hz
    obtain ⟨n, hmgr, hn, hd⟩ := hz.found hi.links h.increases h.found
    have hn₁ : (s₁.obj.ref.get r).node = n := (hsame.refNode r).trans hn
    have hd₁ : (s₁.obj.ref.get r).desc = 0 := (congrArg (·.desc) (hsame.ref r)).trans hd
    refine ⟨fun tr htr => (targetNode_zero htr).2 (hn₁ ▸ hmgr), fun as c' kzalloc hc' s' hs' hr' => ?_⟩
    obtain ⟨hi', hrun⟩ := exec_kept L rb hi₁ ht₁ as
    rw [← hs'] at hi' hrun
    have hget : binderGetRef s₁.obj p 0 = some r := hd₁ ▸ (hi₁.links.table p).binderGetRef_eq hmem₁
    rw [commandRef_decreases hc']
    rcases (hrun.resolves hi₁.links hi'.links hget).2 with h1 | h1
    · exact h1
    · exact absurd (of_decide_eq_true hr') (h1.2 _)

/-- A context manager and a client without references. -/
def newClient : List Action :=
  [.openProc 50, .getThread 0 50, .setContextMgr 0 1000 true, .openProc 100, .getThread 1 100]

theorem zero_stays_newClient : ZeroStays layout32 .plain (afterActions newClient) 1 .acquire {} 0 := by
  have hc : CountsZero layout32 .plain (afterActions newClient) 1 .acquire {} 0 :=
    ⟨by decide +kernel, by decide +kernel, rfl, by decide +kernel, by decide +kernel⟩
  refine (zero_stays (reach_afterActions newClient) hc).2 fun r hr => ?_
  have hnil : ((afterActions newClient).obj.own ((afterActions newClient).thread.get 1).proc).refsByDesc
      = [] := by decide +kernel
  rw [hnil] at hr
  cases hr

/-- The client keeps its reference when the context manager dies and another takes its place. -/
def renewedManager : List Action :=
  newClient ++ [.write 1 (.ref .acquire 0) {}, .close 0, .deferredFunc 0 fun _ => {}, .openProc 60,
    .getThread 2 60, .setContextMgr 2 1000 true]

/-- `BC_ACQUIRE` raises a count of the reference with descriptor 1, and `BC_RELEASE` finds 0. -/
theorem zero_moves : ¬∀ s, (driverMachine layout32 .plain).Reach (fun _ _ => True) s →
    ∀ T c env r, CountsZero layout32 .plain s T c env r → ZeroStays layout32 .plain s T c env r := by
  intro hall
  have hc : CountsZero layout32 .plain (afterActions renewedManager) 1 .acquire {} 1 :=
    ⟨by decide +kernel, by decide +kernel, rfl, by decide +kernel, by decide +kernel⟩
  have hstays := (hall _ (reach_afterActions renewedManager) 1 .acquire {} 1 hc).counts [] .release
    true rfl _ rfl (by decide +kernel)
  revert hstays
  decide +kernel

end Binder

import BinderIpc.Svc.Store

/-! Which services an isolated process finds, over runs: the policy that the last
registration asked for against the one that the entry holds. -/

namespace Binder

/-- The store with the `allow_isolated` that the last successful `do_add_service` was given for
each name. -/
def policyMachine : Machine ((SvcMgr × List StoreEvent) × (List ℕ → Bool)) SvcOp where
  start x := storeMachine.start x.1
  step x op := (storeMachine.step x.1 op, match op with
    | .add env malloc s handle uid allowIsolated spid =>
      if (doAddService x.1.1 env malloc s handle uid allowIsolated spid).2.1 then
        Function.update x.2 s allowIsolated
      else x.2
    | _ => x.2)

/-- A name that has an entry is registered with the policy of its entry. -/
def SvcOp.samePolicy (x : (SvcMgr × List StoreEvent) × (List ℕ → Bool)) : SvcOp → Bool
  | .add env _ s handle uid allowIsolated spid =>
    !addable env s handle uid spid ||
      (x.1.1.findSvc s).all fun si => (x.1.1.info.get si).allowIsolated = allowIsolated
  | _ => true

abbrev keepsPolicy (x : (SvcMgr × List StoreEvent) × (List ℕ → Bool)) (op : SvcOp) : Prop :=
  op.samePolicy x = true

section

variable {x : (SvcMgr × List StoreEvent) × (List ℕ → Bool)}
  {ok : (SvcMgr × List StoreEvent) × (List ℕ → Bool) → SvcOp → Prop} {m : SvcMgr} {s : List ℕ}

theorem policy_store (h : policyMachine.Reach ok x) : StoreInv x.1.1 (lastAdded x.1.2) := by
  have hstore : storeMachine.Reach (fun _ _ => True) x.1 := ?_
  · exact storeInv_reach hstore
  induction h with
  | start h => exact .start h
  | step _ op _ ih => exact ih.step op trivial

/-- The policies of the entries are the ones that were asked for last. -/
def PolicyInv (m : SvcMgr) (policy : List ℕ → Bool) : Prop :=
  ∀ si ∈ m.svclist, (m.info.get si).allowIsolated = policy (m.nameAt si)

variable {policy : List ℕ → Bool}

theorem PolicyInv.setHandle (hp : PolicyInv m policy) (si h : ℕ) (out : List SvcCommand) :
    PolicyInv { m.setHandle si h with out := out } policy := fun sj hsj => by
  have hname : ({ m.setHandle si h with out := out } : SvcMgr).nameAt sj = m.nameAt sj :=
    m.info.apply_get_modify si sj (fun x => { x with handle := h }) (·.name) fun _ => rfl
  have hallow := m.info.apply_get_modify si sj (fun x => { x with handle := h }) (·.allowIsolated)
    fun _ => rfl
  rw [hname]
  exact hallow.trans (hp sj hsj)

theorem PolicyInv.death (hp : PolicyInv m policy) (si : ℕ) : PolicyInv (svcinfoDeath m si) policy := by
  unfold svcinfoDeath
  split_ifs
  · exact hp.setHandle si 0 _
  · exact hp

/-- A name without an entry gets one with the policy of its registration. -/
theorem PolicyInv.new {store : SvcStore} (hp : PolicyInv m policy) (hi : StoreInv m store)
    (hs : m.findSvc s = none) (h : ℕ) (allowIsolated : Bool) :
    PolicyInv (newSvc m s h allowIsolated) (Function.update policy s allowIsolated) := fun si hsi => by
  have hself : (newSvc m s h allowIsolated).info.get m.info.next =
      { handle := h, allowIsolated := allowIsolated, name := s } := m.info.get_alloc_self _
  rcases List.mem_cons.1 hsi with rfl | hsi
  · rw [SvcMgr.nameAt, hself, Function.update_self]
  · have hold : (newSvc m s h allowIsolated).info.get si = m.info.get si :=
      m.info.get_alloc_ne si _ (hi.bound si hsi).ne
    have hne : m.nameAt si ≠ s := fun he => by
      have := List.find?_eq_none.1 hs si hsi
      simp only [decide_eq_true_eq] at this
      exact this he
    have hname : (newSvc m s h allowIsolated).nameAt si = m.nameAt si := congrArg SvcInfo.name hold
    rw [hname, hold, Function.update_of_ne hne]
    exact hp si hsi

theorem PolicyInv.add {store : SvcStore} (hp : PolicyInv m policy) (hi : StoreInv m store)
    {env : MacEnv} {malloc : Bool} {h uid spid : ℕ} {allowIsolated : Bool}
    (hsame : (m.findSvc s).all fun si => (m.info.get si).allowIsolated = allowIsolated)
    (hok : (doAddService m env malloc s h uid allowIsolated spid).2.1 = true) :
    PolicyInv (doAddService m env malloc s h uid allowIsolated spid).1
      (Function.update policy s allowIsolated) := by
  obtain ⟨sj, heq⟩ := doAddService_added hok
  rw [heq]
  cases hf : m.findSvc s with
  | none => exact hp.new hi hf h allowIsolated
  | some si =>
    obtain ⟨hsi, rfl⟩ := findSvc_mem hf
    -- the entry keeps its policy, and it is the one asked for
    have hpolicy : policy (m.nameAt si) = allowIsolated := by
      rw [hf] at hsame
      exact (hp si hsi).symm.trans (by simpa using hsame)
    rw [← hpolicy, Function.update_eq_self]
    exact (hp.death si).setHandle si h _

theorem policy_inv (h : policyMachine.Reach keepsPolicy x) : PolicyInv x.1.1 x.2 := by
  refine h.invariant_of (I := fun x => StoreInv x.1.1 (lastAdded x.1.2))
    (J := fun x => PolicyInv x.1.1 x.2) (fun x => policy_store)
    (fun x hx si hsi => ?_) fun x op hi _ hp hok => ?_
  · rw [show x.1 = ({}, []) from hx] at hsi
    cases hsi
  · cases op with
    | find env s uid spid => exact hp
    | add env malloc s handle uid allowIsolated spid =>
      simp only [policyMachine, storeMachine]
      split_ifs with hadd
      · have haddable : addable env s handle uid spid = true :=
          decide_eq_true (doAddService_checked hadd)
        simp only [keepsPolicy, SvcOp.samePolicy, haddable, Bool.not_true, Bool.false_or] at hok
        exact hp.add hi hok hadd
      · rw [doAddService_refused (by simpa using hadd)]
        exact hp
    | death si =>
      simp only [policyMachine, storeMachine]
      split_ifs
      · exact hp.death si
      · exact hp

theorem doFindService_isolated {env : MacEnv} {uid spid : ℕ}
    (hfind : (svcCanFind env s spid uid).1 = true)
    (huid : env.aidIsolatedStart ≤ uid % env.aidUser ∧ uid % env.aidUser ≤ env.aidIsolatedEnd) :
    (doFindService m env s uid spid).1 ≠ 0 ↔ ∃ si, m.findSvc s = some si ∧ m.handleAt si ≠ 0 ∧
      (m.info.get si).allowIsolated = true := by
  unfold doFindService
  cases m.findSvc s with
  | none => simp
  | some si =>
    dsimp only
    split_ifs with h0 h1
    · simp [SvcMgr.handleAt, h0]
    · simp [h1.1]
    · have hallow : (m.info.get si).allowIsolated = true := by
        by_contra hno
        exact h1 ⟨by simpa using hno, huid⟩
      simp [SvcMgr.handleAt, h0, hallow]

/-- When no name comes back with another policy, an isolated process finds exactly the services
that are there and were last registered for it. -/
theorem isolated_finds (h : policyMachine.Reach keepsPolicy x) (env : MacEnv) (s : List ℕ)
    (uid spid : ℕ) (hfind : (svcCanFind env s spid uid).1 = true)
    (huid : env.aidIsolatedStart ≤ uid % env.aidUser ∧ uid % env.aidUser ≤ env.aidIsolatedEnd) :
    (doFindService x.1.1 env s uid spid).1 ≠ 0 ↔ lastAdded x.1.2 s ≠ 0 ∧ x.2 s = true := by
  have hi := policy_store h
  rw [doFindService_isolated hfind huid, hi.holds]
  cases hf : x.1.1.findSvc s with
  | none => simp
  | some si =>
    obtain ⟨hsi, rfl⟩ := findSvc_mem hf
    simp [policy_inv h si hsi]

end

/-- A name that isolated processes may find, and its successor that they may not. -/
def policyRun (allowIsolated : Bool) : List SvcOp :=
  [.add {} true [65] 7 1000 true 100, .add {} true [65] 8 1000 allowIsolated 100]

theorem isolated_finds_same :
    (doFindService (policyMachine.exec (({}, []), fun _ => false) (policyRun true)).1.1 {} [65] 99000
        200).1 ≠ 0 ↔
      lastAdded (policyMachine.exec (({}, []), fun _ => false) (policyRun true)).1.2 [65] ≠ 0 ∧
        (policyMachine.exec (({}, []), fun _ => false) (policyRun true)).2 [65] = true :=
  isolated_finds (.exec (.start rfl) (by decide +kernel)) {} [65] 99000 200 rfl (by decide)

theorem isolated_finds_old : ¬∀ x, policyMachine.Reach (fun _ _ => True) x →
    ∀ (env : MacEnv) (s : List ℕ) (uid spid : ℕ), (svcCanFind env s spid uid).1 = true →
      env.aidIsolatedStart ≤ uid % env.aidUser ∧ uid % env.aidUser ≤ env.aidIsolatedEnd →
      ((doFindService x.1.1 env s uid spid).1 ≠ 0 ↔ lastAdded x.1.2 s ≠ 0 ∧ x.2 s = true) := by
  intro hall
  have hreach : policyMachine.Reach (fun _ _ => True)
      (policyMachine.exec (({}, []), fun _ => false) (policyRun false)) :=
    .exec (.start rfl) (by simp [Machine.Admits, policyRun])
  have hfound := hall _ hreach {} [65] 99000 200 rfl (by decide)
  revert hfound
  decide +kernel

end Binder

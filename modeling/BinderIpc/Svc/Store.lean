import BinderIpc.Svc.Manager
import BinderIpc.Lib.Run
import Mathlib.Data.List.Find
import Mathlib.Data.List.Nodup
import Mathlib.Logic.Function.Basic

/-! The list of services as a finite map from names to handles. -/

namespace Binder

/-- The handle of every name, 0 for a name without a service. -/
abbrev SvcStore := List ℕ → ℕ

inductive StoreEvent
  /-- `do_add_service` returned 0 -/
  | added (name : List ℕ) (handle : ℕ)
  /-- `svcinfo_death`, for the entry of the name -/
  | died (name : List ℕ)
  deriving Repr, DecidableEq

def StoreEvent.act (store : SvcStore) : StoreEvent → SvcStore
  | added name handle => Function.update store name handle
  | died name => Function.update store name 0

/-- The handle that was added last under each name, unless the entry has died since. -/
def lastAdded (history : List StoreEvent) : SvcStore :=
  history.foldl StoreEvent.act fun _ => 0

theorem lastAdded_append (history : List StoreEvent) (e : StoreEvent) :
    lastAdded (history ++ [e]) = e.act (lastAdded history) := List.foldl_append ..

inductive SvcOp
  | add (env : MacEnv) (malloc : Bool) (s : List ℕ) (handle uid : ℕ) (allowIsolated : Bool)
    (spid : ℕ)
  | find (env : MacEnv) (s : List ℕ) (uid spid : ℕ)
  | death (si : ℕ)

/-- The list with what has happened to it; only entries of the list die. -/
def storeMachine : Machine (SvcMgr × List StoreEvent) SvcOp where
  start x := x = ({}, [])
  step x op := match op with
    | .add env malloc s handle uid allowIsolated spid =>
      let r := doAddService x.1 env malloc s handle uid allowIsolated spid
      (r.1, if r.2.1 then x.2 ++ [.added s handle] else x.2)
    | .find _ _ _ _ => x
    | .death si =>
      if si ∈ x.1.svclist then (svcinfoDeath x.1 si, x.2 ++ [.died (x.1.info.get si).name]) else x

/-! The invariant -/

section

variable {m m' : SvcMgr} {store : SvcStore} {s : List ℕ} {si h : ℕ}

namespace SvcMgr

def nameAt (m : SvcMgr) (si : ℕ) : List ℕ := (m.info.get si).name

def handleAt (m : SvcMgr) (si : ℕ) : ℕ := (m.info.get si).handle

/-- How many entries have the handle. -/
def entries (m : SvcMgr) (h : ℕ) : ℕ := m.svclist.countP fun si => m.handleAt si = h

end SvcMgr

structure StoreInv (m : SvcMgr) (store : SvcStore) : Prop where
  distinct : (m.svclist.map m.nameAt).Nodup
  bound : ∀ si ∈ m.svclist, si < m.info.next
  holds : ∀ s, store s = (m.findSvc s).elim 0 m.handleAt
  balance : ∀ h, h ≠ 0 → m.out.count (.acquire h) = m.out.count (.release h) + m.entries h

theorem findSvc_mem (hf : m.findSvc s = some si) : si ∈ m.svclist ∧ m.nameAt si = s :=
  ⟨List.mem_of_find?_eq_some hf, by simpa [SvcMgr.nameAt] using List.find?_some hf⟩

theorem StoreInv.findSvc_name (hi : StoreInv m store) (hsi : si ∈ m.svclist) :
    m.findSvc (m.nameAt si) = some si := by
  cases hf : m.findSvc (m.nameAt si) with
  | none =>
    have := List.find?_eq_none.1 hf si hsi
    simp [SvcMgr.nameAt] at this
  | some sj =>
    obtain ⟨hsj, hn⟩ := findSvc_mem hf
    rw [List.inj_on_of_nodup_map hi.distinct hsj hsi hn]

/-- Two ways to count that differ at one place. -/
theorem countP_differ {l : List ℕ} (hl : l.Nodup) (hsi : si ∈ l) {p q : ℕ → Bool}
    (hpq : ∀ sj ∈ l, sj ≠ si → p sj = q sj) :
    l.countP q + (if p si then 1 else 0) = l.countP p + if q si then 1 else 0 := by
  have hperm := List.perm_cons_erase hsi
  have hrest : (l.erase si).countP p = (l.erase si).countP q := List.countP_congr fun sj hsj => by
    have hne : sj ≠ si := fun he => hl.not_mem_erase (he ▸ hsj)
    rw [hpq sj (List.mem_of_mem_erase hsj) hne]
  rw [hperm.countP_eq p, hperm.countP_eq q, List.countP_cons, List.countP_cons, hrest]
  omega

/-- An entry gets another handle, with the commands that go with it. -/
theorem StoreInv.assign (hi : StoreInv m store) (hsi : si ∈ m.svclist) (cs : List SvcCommand)
    (hcs : ∀ g, g ≠ 0 → cs.count (.acquire g) + (if m.handleAt si = g then 1 else 0) =
      cs.count (.release g) + if h = g then 1 else 0) :
    StoreInv { m.setHandle si h with out := m.out ++ cs }
      (Function.update store (m.nameAt si) h) := by
  set m' : SvcMgr := { m.setHandle si h with out := m.out ++ cs } with hm'
  have hname : m'.nameAt = m.nameAt := by
    funext sj
    exact m.info.apply_get_modify si sj (fun x => { x with handle := h }) (·.name) fun _ => rfl
  have hhandle : ∀ sj, m'.handleAt sj = if sj = si then h else m.handleAt sj := fun sj => by
    have hget : m'.info.get sj = if sj = si then { m.info.get si with handle := h }
        else m.info.get sj := rfl
    rw [SvcMgr.handleAt, hget]
    split_ifs <;> rfl
  have hfind : ∀ s, m'.findSvc s = m.findSvc s := fun s => by
    have : (fun sj => decide (m'.nameAt sj = s)) = fun sj => decide (m.nameAt sj = s) := by
      rw [hname]
    exact congrArg (fun p => m.svclist.find? p) this
  refine ⟨by rw [hname]; exact hi.distinct, hi.bound, fun s => ?_, fun g hg => ?_⟩
  · rw [hfind, Function.update_apply]
    split_ifs with hs
    · rw [hs, hi.findSvc_name hsi]
      simp [hhandle]
    · rw [hi.holds]
      cases hf : m.findSvc s with
      | none => rfl
      | some sj =>
        have hne : sj ≠ si := fun he => hs (by rw [← (findSvc_mem hf).2, he])
        simp [hhandle, hne]
  · have hcount := countP_differ (p := fun sj => decide (m.handleAt sj = g))
      (q := fun sj => decide (m'.handleAt sj = g)) (List.Nodup.of_map _ hi.distinct) hsi
      fun sj _ hne => by simp [hhandle, hne]
    have hself : m'.handleAt si = h := (hhandle si).trans (if_pos rfl)
    simp only [decide_eq_true_eq, hself] at hcount
    have hb := hi.balance g hg
    have hg' := hcs g hg
    have hout : m'.out = m.out ++ cs := rfl
    have hentries : m'.entries g = m.svclist.countP fun sj => decide (m'.handleAt sj = g) := rfl
    have hold : m.entries g = m.svclist.countP fun sj => decide (m.handleAt sj = g) := rfl
    rw [hout, List.count_append, List.count_append, hentries]
    omega

theorem StoreInv.new (hi : StoreInv m store) (hs : m.findSvc s = none) {allowIsolated : Bool}
    {si : ℕ} : StoreInv (((newSvc m s h allowIsolated).write (.acquire h)).write (.linkToDeath h si))
      (Function.update store s h) := by
  set m' := ((newSvc m s h allowIsolated).write (.acquire h)).write (.linkToDeath h si) with hm'
  have hget : ∀ sj, m'.info.get sj = if sj = m.info.next then
      { handle := h, allowIsolated := allowIsolated, name := s } else m.info.get sj := fun _ => rfl
  have hold : ∀ sj ∈ m.svclist, m'.info.get sj = m.info.get sj := fun sj hsj => by
    rw [hget, if_neg (hi.bound sj hsj).ne]
  have hlist : m'.svclist = m.info.next :: m.svclist := rfl
  have hnew : m'.nameAt m.info.next = s ∧ m'.handleAt m.info.next = h := by
    simp [SvcMgr.nameAt, SvcMgr.handleAt, hget]
  have hnames : m.svclist.map m'.nameAt = m.svclist.map m.nameAt :=
    List.map_congr_left fun sj hsj => congrArg SvcInfo.name (hold sj hsj)
  have hother : ∀ sj ∈ m.svclist, m.nameAt sj ≠ s := fun sj hsj hn => by
    have := List.find?_eq_none.1 hs sj hsj
    simp only [decide_eq_true_eq] at this
    exact this hn
  have hfind : ∀ r, r ≠ s → m'.findSvc r = m.findSvc r := fun r hr => by
    have hskip : ¬decide ((m'.info.get m.info.next).name = r) = true := by
      have hn : (m'.info.get m.info.next).name = s := hnew.1
      rw [hn, decide_eq_true_eq]
      exact hr.symm
    have hcons : m'.findSvc r = m.svclist.find? fun sj => (m'.info.get sj).name = r :=
      List.find?_cons_of_neg hskip
    rw [hcons]
    exact List.find?_congr fun sj hsj => by rw [hold sj hsj]
  refine ⟨?_, fun sj hsj => ?_, fun r => ?_, fun g hg => ?_⟩
  · rw [hlist, List.map_cons, hnames, hnew.1, List.nodup_cons]
    refine ⟨fun hmem => ?_, hi.distinct⟩
    obtain ⟨sj, hsj, hn⟩ := List.mem_map.1 hmem
    exact hother sj hsj hn
  · rcases List.mem_cons.1 hsj with rfl | hsj
    · exact Nat.lt_succ_self _
    · exact (hi.bound sj hsj).trans (Nat.lt_succ_self _)
  · rw [Function.update_apply]
    split_ifs with hr
    · have hfirst : m'.findSvc r = some m.info.next := by
        rw [SvcMgr.findSvc, hlist]
        exact List.find?_cons_of_pos (by rw [hr]; simpa [SvcMgr.nameAt] using hnew.1)
      rw [hfirst]
      exact hnew.2.symm
    · rw [hfind r hr, hi.holds]
      cases hf : m.findSvc r with
      | none => rfl
      | some sj => exact (congrArg SvcInfo.handle (hold sj (findSvc_mem hf).1)).symm
  · have hb := hi.balance g hg
    have hrest : m.svclist.countP (fun sj => decide (m'.handleAt sj = g)) = m.entries g :=
      List.countP_congr fun sj hsj => by rw [SvcMgr.handleAt, hold sj hsj, SvcMgr.handleAt]
    have hentries : m'.entries g = m.entries g + if h = g then 1 else 0 := by
      rw [SvcMgr.entries, hlist, List.countP_cons, hrest, hnew.2]
      simp
    have hacq : m'.out.count (.acquire g) = m.out.count (.acquire g) + if h = g then 1 else 0 := by
      simp [hm', newSvc, SvcMgr.write, List.count_append, List.count_cons]
    have hrel : m'.out.count (.release g) = m.out.count (.release g) := by
      simp [hm', newSvc, SvcMgr.write, List.count_append]
    rw [hacq, hrel, hentries]
    omega

theorem svcinfoDeath_eq (m : SvcMgr) (si : ℕ) : svcinfoDeath m si =
    { m.setHandle si 0 with
      out := m.out ++ if m.handleAt si = 0 then [] else [.release (m.handleAt si)] } := by
  unfold svcinfoDeath
  by_cases h0 : m.handleAt si = 0
  · have h0' : (m.info.get si).handle = 0 := h0
    have hsame : m.info.modify si (fun x => { x with handle := 0 }) = m.info := by
      have : ∀ sj, (m.info.modify si fun x => { x with handle := 0 }).get sj = m.info.get sj := by
        intro sj
        rw [Heap.get_modify]
        split_ifs with hj
        · rw [hj, ← h0']
        · rfl
      exact congrArg (Heap.mk m.info.next) (funext this)
    rw [if_neg (by simpa using h0')]
    simp [h0, SvcMgr.setHandle, hsame]
  · rw [if_pos (show (m.info.get si).handle ≠ 0 from h0)]
    simp [h0, SvcMgr.setHandle, SvcMgr.write]
    rfl

theorem StoreInv.death (hi : StoreInv m store) (hsi : si ∈ m.svclist) :
    StoreInv (svcinfoDeath m si) (Function.update store (m.nameAt si) 0) := by
  rw [svcinfoDeath_eq]
  refine hi.assign hsi _ fun g hg => ?_
  split_ifs <;> simp_all

/-! `do_add_service` -/

/-- What is left when `do_add_service` returns 0. -/
theorem doAddService_added {env : MacEnv} {malloc : Bool} {uid spid : ℕ} {allowIsolated : Bool}
    (hok : (doAddService m env malloc s h uid allowIsolated spid).2.1 = true) :
    ∃ si, (doAddService m env malloc s h uid allowIsolated spid).1 =
      ((match m.findSvc s with
        | some si => (svcinfoDeath m si).setHandle si h
        | none => newSvc m s h allowIsolated).write (.acquire h)).write (.linkToDeath h si) := by
  revert hok
  unfold doAddService
  split
  · simp
  · split
    · simp
    · rename_i calls hc
      cases hf : m.findSvc s with
      | some si => exact fun _ => ⟨si, rfl⟩
      | none =>
        cases malloc with
        | true => exact fun _ => ⟨m.info.next, rfl⟩
        | false => simp

/-- What it has checked before it looks at the list. -/
theorem doAddService_checked {env : MacEnv} {malloc : Bool} {uid spid : ℕ} {allowIsolated : Bool}
    (hok : (doAddService m env malloc s h uid allowIsolated spid).2.1 = true) :
    (h ≠ 0 ∧ s.length ≠ 0 ∧ s.length ≤ 127) ∧ (svcCanRegister env s spid uid).1 = true := by
  revert hok
  unfold doAddService
  split
  · simp
  · rename_i hargs
    split
    · simp
    · rename_i calls hcan
      exact fun _ => ⟨by omega, congrArg Prod.fst hcan⟩

/-- Nothing has changed when it returns -1. -/
theorem doAddService_refused {env : MacEnv} {malloc : Bool} {uid spid : ℕ} {allowIsolated : Bool}
    (hno : (doAddService m env malloc s h uid allowIsolated spid).2.1 = false) :
    (doAddService m env malloc s h uid allowIsolated spid).1 = m := by
  revert hno
  unfold doAddService
  split
  · simp
  · split
    · simp
    · cases m.findSvc s with
      | some si => simp
      | none => cases malloc <;> simp

theorem StoreInv.add (hi : StoreInv m store) {env : MacEnv} {malloc : Bool} {uid spid : ℕ}
    {allowIsolated : Bool}
    (hok : (doAddService m env malloc s h uid allowIsolated spid).2.1 = true) :
    StoreInv (doAddService m env malloc s h uid allowIsolated spid).1
      (Function.update store s h) := by
  obtain ⟨sj, heq⟩ := doAddService_added hok
  rw [heq]
  cases hf : m.findSvc s with
  | none => exact hi.new hf
  | some si =>
    obtain ⟨hsi, rfl⟩ := findSvc_mem hf
    -- the old handle is released, the new one acquired
    have hassign := hi.assign (h := h) hsi ((if m.handleAt si = 0 then []
      else [.release (m.handleAt si)]) ++ [.acquire h, .linkToDeath h sj]) fun g hg => by
        split_ifs <;> simp_all
    have heq' : (((svcinfoDeath m si).setHandle si h).write (.acquire h)).write (.linkToDeath h sj) =
        { m.setHandle si h with
          out := m.out ++ ((if m.handleAt si = 0 then [] else [.release (m.handleAt si)]) ++
            [.acquire h, .linkToDeath h sj]) } := by
      rw [svcinfoDeath_eq]
      simp [SvcMgr.setHandle, SvcMgr.write, Heap.modify_modify]
    dsimp only
    rw [heq']
    exact hassign

end

/-! Runs -/

theorem storeInv_reach {ok : SvcMgr × List StoreEvent → SvcOp → Prop}
    {x : SvcMgr × List StoreEvent} (h : storeMachine.Reach ok x) :
    StoreInv x.1 (lastAdded x.2) := by
  refine h.invariant (I := fun x => StoreInv x.1 (lastAdded x.2)) (fun x hx => ?_)
    fun x op hi _ => ?_
  · cases hx
    exact ⟨List.nodup_nil, by simp, fun _ => rfl, fun _ _ => rfl⟩
  · cases op with
    | find env s uid spid => exact hi
    | add env malloc s handle uid allowIsolated spid =>
      change StoreInv (doAddService x.1 env malloc s handle uid allowIsolated spid).1 (lastAdded
        (if (doAddService x.1 env malloc s handle uid allowIsolated spid).2.1 = true then
          x.2 ++ [.added s handle] else x.2))
      split_ifs with hok
      · rw [lastAdded_append]
        exact hi.add hok
      · rw [doAddService_refused (by simpa using hok)]
        exact hi
    | death si =>
      change StoreInv (if si ∈ x.1.svclist then _ else x).1 (lastAdded (if si ∈ x.1.svclist then _ else x).2)
      split_ifs with hsi
      · rw [lastAdded_append]
        exact hi.death hsi
      · exact hi

/-- What `do_find_service` gives a caller that is allowed to find the service. -/
theorem doFindService_permitted {m : SvcMgr} {env : MacEnv} {s : List ℕ} {uid spid : ℕ}
    (hfind : (svcCanFind env s spid uid).1 = true)
    (huid : ¬(env.aidIsolatedStart ≤ uid % env.aidUser ∧ uid % env.aidUser ≤ env.aidIsolatedEnd)) :
    (doFindService m env s uid spid).1 = (m.findSvc s).elim 0 m.handleAt := by
  unfold doFindService
  cases m.findSvc s with
  | none => rfl
  | some si =>
    dsimp only
    split_ifs with h0 h1
    · exact h0.symm
    · exact absurd h1.2 huid
    · simp [SvcMgr.handleAt]

/-- The list of services behaves as a finite map from names to handles. -/
structure SvcMgr.Refines (m : SvcMgr) (history : List StoreEvent) : Prop where
  distinct : (m.svclist.map fun si => (m.info.get si).name).Nodup
  found : ∀ (env : MacEnv) (s : List ℕ) (uid spid : ℕ), (svcCanFind env s spid uid).1 = true →
    ¬(env.aidIsolatedStart ≤ uid % env.aidUser ∧ uid % env.aidUser ≤ env.aidIsolatedEnd) →
    (doFindService m env s uid spid).1 = lastAdded history s
  refused : ∀ (env : MacEnv) (malloc : Bool) (s : List ℕ) (handle uid : ℕ) (allowIsolated : Bool)
    (spid : ℕ), (doAddService m env malloc s handle uid allowIsolated spid).2.1 = false →
    (doAddService m env malloc s handle uid allowIsolated spid).1 = m
  balance : ∀ h, h ≠ 0 → m.out.count (.acquire h) =
    m.out.count (.release h) + m.svclist.countP fun si => (m.info.get si).handle = h

theorem svclist_refines {x : SvcMgr × List StoreEvent}
    (h : storeMachine.Reach (fun _ _ => True) x) : x.1.Refines x.2 := by
  have hi := storeInv_reach h
  refine ⟨hi.distinct, fun env s uid spid hfind huid => ?_, fun _ _ _ _ _ _ _ => doAddService_refused,
    hi.balance⟩
  rw [doFindService_permitted hfind huid, hi.holds]

/-- A service dies, comes back, and is added again by another process. -/
def storeRun : List SvcOp :=
  [.add {} true [65] 7 1000 false 100, .add {} true [66] 7 1000 false 100, .death 0,
    .add {} false [65] 8 1000 false 100, .add {} false [65] 9 1000 false 101,
    .add {} false [67] 9 1000 false 101]

theorem svclist_refines_run : (storeMachine.exec ({}, []) storeRun).1.Refines
      (storeMachine.exec ({}, []) storeRun).2 ∧
    lastAdded (storeMachine.exec ({}, []) storeRun).2 [65] = 9 :=
  ⟨svclist_refines (.exec (.start rfl) (by simp [Machine.Admits, storeRun])), by decide +kernel⟩

end Binder

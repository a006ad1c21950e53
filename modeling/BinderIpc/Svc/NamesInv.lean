import BinderIpc.Svc.Names
import Mathlib.Data.List.Count

/-! What holds of `service_manager` while every service that it adds gets a
death record of its own. -/

namespace Binder

namespace SvcWorld

def handle (w : SvcWorld) (si : ℕ) : ℕ := (w.mgr.info.get si).handle

def nameOf (w : SvcWorld) (si : ℕ) : List ℕ := (w.mgr.info.get si).name

def Named (w : SvcWorld) (h : ℕ) : Prop := ∃ si ∈ w.mgr.svclist, w.handle si = h

end SvcWorld

/-- The entry `ex`, if there is one, is about to change. -/
structure SvcInv (owner : ℕ → ℕ) (ex : Option ℕ) (w : SvcWorld) : Prop where
  out : w.mgr.out = []
  fresh : ∀ si ∈ w.mgr.svclist, si < w.mgr.info.next
  name : ∀ si ∈ w.mgr.svclist, ∀ sj ∈ w.mgr.svclist, w.nameOf si = w.nameOf sj → si = sj
  node : ∀ n h, w.byNode n = some h ↔ ∃ r, w.byDesc h = some r ∧ r.node = n
  zero : w.byDesc 0 = none
  named : ∀ h r, w.byDesc h = some r → w.Named h → r.strong = w.buffers.count (h, true) + 1
  unnamed : ∀ h r, w.byDesc h = some r → ¬w.Named h → r.strong = w.buffers.count (h, true)
  weak : ∀ h r, w.byDesc h = some r → r.weak = w.buffers.count (h, false)
  held : ∀ x ∈ w.buffers, w.byDesc x.1 ≠ none
  entry : ∀ si ∈ w.mgr.svclist, w.handle si ≠ 0 → ∃ r st, w.byDesc (w.handle si) = some r ∧
    r.death = some (si, st) ∧ (ex ≠ some si → st ≠ .delivered ∧ w.last (w.nameOf si) = some r.node)
  empty : ∀ si ∈ w.mgr.svclist, ex ≠ some si → w.handle si = 0 →
    ∃ n, w.last (w.nameOf si) = some n ∧ w.dead (owner n) = true
  state : ∀ h r c st, w.byDesc h = some r → r.death = some (c, st) →
    (st = .idle ↔ w.dead (owner r.node) = false)
  cookie : ∀ h r c st, w.byDesc h = some r → r.death = some (c, st) → st ≠ .delivered →
    c ∈ w.mgr.svclist ∧ w.handle c = h
  never : ∀ s, (∀ si ∈ w.mgr.svclist, w.nameOf si ≠ s) → w.last s = none

namespace SvcInv

variable {owner : ℕ → ℕ} {ex : Option ℕ} {w : SvcWorld} {si h g : ℕ} {r : SvcRef}

theorem weaken (hi : SvcInv owner none w) (si : ℕ) : SvcInv owner (some si) w :=
  { hi with
    entry := fun sj hj hne => by
      obtain ⟨r, st, h1, h2, h3⟩ := hi.entry sj hj hne
      exact ⟨r, st, h1, h2, fun _ => h3 nofun⟩
    empty := fun sj hj _ h0 => hi.empty sj hj nofun h0 }

theorem ne_zero (hi : SvcInv owner ex w) (hr : w.byDesc h = some r) : h ≠ 0 := by
  rintro rfl
  rw [hi.zero] at hr
  cases hr

/-- Two entries never share a handle. -/
theorem handle_inj (hi : SvcInv owner ex w) {sj : ℕ} (h1 : si ∈ w.mgr.svclist)
    (h2 : sj ∈ w.mgr.svclist) (hne : w.handle si ≠ 0) (he : w.handle sj = w.handle si) : sj = si := by
  obtain ⟨r, st, hr, hd, -⟩ := hi.entry si h1 hne
  obtain ⟨r', st', hr', hd', -⟩ := hi.entry sj h2 (he ▸ hne)
  rw [he, hr] at hr'
  cases hr'
  rw [hd] at hd'
  cases hd'
  rfl

theorem findSvc_none (_hi : SvcInv owner ex w) {s : List ℕ} (h : w.mgr.findSvc s = none) :
    ∀ si ∈ w.mgr.svclist, w.nameOf si ≠ s := by
  intro si hsi
  have hf := List.find?_eq_none.1 h si hsi
  simpa [SvcWorld.nameOf] using hf

theorem findSvc_some (hi : SvcInv owner ex w) {s : List ℕ} :
    w.mgr.findSvc s = some si ↔ si ∈ w.mgr.svclist ∧ w.nameOf si = s := by
  constructor
  · intro h
    exact ⟨List.mem_of_find?_eq_some h, by simpa [SvcWorld.nameOf] using List.find?_some h⟩
  · rintro ⟨hmem, rfl⟩
    cases hf : w.mgr.findSvc (w.nameOf si) with
    | none => exact absurd rfl (hi.findSvc_none hf si hmem)
    | some sj =>
      have hd := List.find?_some hf
      have hn : w.nameOf sj = w.nameOf si := of_decide_eq_true hd
      rw [hi.name sj (List.mem_of_find?_eq_some hf) si hmem hn]

/-! The handle of an entry is changed -/

theorem handle_setHandle (w : SvcWorld) (si h sj : ℕ) :
    ({ w with mgr := w.mgr.setHandle si h } : SvcWorld).handle sj = if sj = si then h else w.handle sj := by
  simp only [SvcWorld.handle, SvcMgr.setHandle, Heap.get_modify]
  split_ifs <;> rfl

theorem nameOf_setHandle (w : SvcWorld) (si h sj : ℕ) :
    ({ w with mgr := w.mgr.setHandle si h } : SvcWorld).nameOf sj = w.nameOf sj :=
  w.mgr.info.apply_get_modify si sj (fun x => { x with handle := h }) (·.name) fun _ => rfl

theorem named_unname (hi : SvcInv owner ex w) (hsi : si ∈ w.mgr.svclist) (hne : w.handle si ≠ 0)
    (hne' : h ≠ 0) :
    (∃ sj ∈ w.mgr.svclist, (if sj = si then 0 else w.handle sj) = h) ↔
      h ≠ w.handle si ∧ w.Named h := by
  constructor
  · rintro ⟨sj, hsj, he⟩
    split_ifs at he with hs
    · exact absurd he.symm hne'
    · refine ⟨fun hh => hs ?_, sj, hsj, he⟩
      exact hi.handle_inj hsi hsj hne (he.trans hh)
  · rintro ⟨hh, sj, hsj, he⟩
    refine ⟨sj, hsj, ?_⟩
    rw [if_neg, he]
    rintro rfl
    exact hh he.symm

/-- An entry gives up its handle. What is left of the reference has one strong
count less, and no record that will be delivered. -/
theorem unname (hi : SvcInv owner (some si) w) (hsi : si ∈ w.mgr.svclist) (hne : w.handle si ≠ 0)
    (hr : w.byDesc (w.handle si) = some r) {byDesc : ℕ → Option SvcRef} {byNode : ℕ → Option ℕ}
    (hother : ∀ h, h ≠ w.handle si → byDesc h = w.byDesc h)
    (hleft : ∀ r', byDesc (w.handle si) = some r' → r'.node = r.node ∧ r'.death = r.death ∧
      r'.weak = r.weak ∧ r'.strong + 1 = r.strong ∧ ∀ st, r.death = some (si, st) → st = .delivered)
    (hnode : ∀ n h, byNode n = some h ↔ ∃ r, byDesc h = some r ∧ r.node = n)
    (hheld : ∀ b, (w.handle si, b) ∈ w.buffers → byDesc (w.handle si) ≠ none) :
    SvcInv owner (some si)
      { w with mgr := w.mgr.setHandle si 0, byDesc := byDesc, byNode := byNode } := by
  set w' : SvcWorld := { w with mgr := w.mgr.setHandle si 0, byDesc := byDesc, byNode := byNode }
  have hhandle : ∀ sj, w'.handle sj = if sj = si then 0 else w.handle sj := handle_setHandle w si 0
  have hname : ∀ sj, w'.nameOf sj = w.nameOf sj := nameOf_setHandle w si 0
  have hnamed : ∀ h, h ≠ 0 → (w'.Named h ↔ h ≠ w.handle si ∧ w.Named h) := fun h h0 => by
    simp only [SvcWorld.Named, hhandle]
    exact named_unname hi hsi hne h0
  have hcount : r.strong = w.buffers.count (w.handle si, true) + 1 := hi.named _ r hr ⟨si, hsi, rfl⟩
  have hzero : byDesc 0 = none := by rw [hother 0 hne.symm, hi.zero]
  have hne0 : ∀ h r', byDesc h = some r' → h ≠ 0 := by
    rintro h r' h1 rfl
    rw [hzero] at h1
    cases h1
  constructor
  · exact hi.out
  · exact hi.fresh
  · intro sj hj sk hk he
    exact hi.name sj hj sk hk (by rwa [hname, hname] at he)
  · exact hnode
  · exact hzero
  · intro h r' h1 h2
    obtain ⟨h3, h4⟩ := (hnamed h (hne0 h r' h1)).1 h2
    exact hi.named h r' (hother h h3 ▸ h1) h4
  · intro h r' h1 h2
    by_cases hh : h = w.handle si
    · subst hh
      have := (hleft r' h1).2.2.2.1
      show r'.strong = w.buffers.count _
      omega
    · exact hi.unnamed h r' (hother h hh ▸ h1) fun h3 => h2 ((hnamed h (hne0 h r' h1)).2 ⟨hh, h3⟩)
  · intro h r' h1
    by_cases hh : h = w.handle si
    · subst hh
      rw [(hleft r' h1).2.2.1]
      exact hi.weak _ r hr
    · exact hi.weak h r' (hother h hh ▸ h1)
  · intro x hx
    by_cases hh : x.1 = w.handle si
    · rw [hh]
      exact hheld x.2 (by rw [← hh]; exact hx)
    · have hx' := hi.held x hx
      rwa [← hother _ hh] at hx'
  · intro sj hj h0
    rw [hhandle] at h0 ⊢
    rw [hname]
    split_ifs at h0 ⊢ with hs
    · exact absurd rfl h0
    · have hh : w.handle sj ≠ w.handle si := fun he => hs (hi.handle_inj hsi hj hne he)
      obtain ⟨r', st, h1, h2, h3⟩ := hi.entry sj hj h0
      exact ⟨r', st, (hother _ hh).trans h1, h2, h3⟩
  · intro sj hj hs h0
    have hs' : sj ≠ si := by
      rintro rfl
      exact hs rfl
    rw [hhandle, if_neg hs'] at h0
    rw [hname]
    exact hi.empty sj hj hs h0
  · intro h r' c st h1 h2
    by_cases hh : h = w.handle si
    · subst hh
      obtain ⟨h3, h4, -, -, -⟩ := hleft r' h1
      rw [h3]
      exact hi.state _ r c st hr (h4 ▸ h2)
    · exact hi.state h r' c st (hother h hh ▸ h1) h2
  · intro h r' c st h1 h2 h3
    by_cases hh : h = w.handle si
    · subst hh
      obtain ⟨-, h4, -, -, h5⟩ := hleft r' h1
      obtain ⟨h6, h7⟩ := hi.cookie _ r c st hr (h4 ▸ h2) h3
      obtain rfl : c = si := hi.handle_inj hsi h6 hne h7
      exact absurd (h5 st (h4 ▸ h2)) h3
    · obtain ⟨h6, h7⟩ := hi.cookie h r' c st (hother h hh ▸ h1) h2 h3
      refine ⟨h6, ?_⟩
      rw [hhandle, if_neg, h7]
      rintro rfl
      exact hh h7.symm
  · intro s hs
    exact hi.never s fun sj hj => hname sj ▸ hs sj hj

/-- The nodes are found as before if a reference keeps its own. -/
theorem node_update (hi : SvcInv owner ex w) (hr : w.byDesc h = some r) {r' : SvcRef}
    (hnode : r'.node = r.node) (n g : ℕ) :
    w.byNode n = some g ↔ ∃ x, Function.update w.byDesc h (some r') g = some x ∧ x.node = n := by
  rw [hi.node, Function.update_apply]
  split_ifs with hg
  · subst hg
    simp [hr, hnode]
  · exact Iff.rfl

/-- The nodes are found as before when a reference is deleted from both trees. -/
theorem node_delete (hi : SvcInv owner ex w) (hr : w.byDesc h = some r) (n g : ℕ) :
    Function.update w.byNode r.node none n = some g ↔
      ∃ x, Function.update w.byDesc h none g = some x ∧ x.node = n := by
  simp only [Function.update_apply]
  have hself := (hi.node r.node h).2 ⟨r, hr, rfl⟩
  split_ifs with h1 h2 h2
  · simp
  · subst h1
    simp only [false_iff, not_exists, not_and]
    rintro x hx hxn
    have hg := (hi.node r.node g).2 ⟨x, hx, hxn⟩
    rw [hself] at hg
    exact h2 (Option.some.inj hg).symm
  · subst h2
    simp only [false_and, exists_false, iff_false]
    intro hg
    obtain ⟨x, hx, hxn⟩ := (hi.node n g).1 hg
    rw [hr] at hx
    cases hx
    exact h1 hxn.symm
  · exact hi.node n g

/-- An entry without a handle gets one whose reference has no record yet. -/
theorem assign (hi : SvcInv owner (some si) w) (hsi : si ∈ w.mgr.svclist) (h0 : w.handle si = 0)
    (hr : w.byDesc h = some r) (hdeath : r.death = none) {st : NoticeState}
    (hst : st = if w.dead (owner r.node) then .queued else .idle) :
    SvcInv owner none { w with
      mgr := w.mgr.setHandle si h
      byDesc := Function.update w.byDesc h
        (some { r with strong := r.strong + 1, death := some (si, st) })
      last := Function.update w.last (w.nameOf si) (some r.node) } := by
  set r' : SvcRef := { r with strong := r.strong + 1, death := some (si, st) }
  set w' : SvcWorld := { w with
    mgr := w.mgr.setHandle si h, byDesc := Function.update w.byDesc h (some r')
    last := Function.update w.last (w.nameOf si) (some r.node) }
  have hhandle : ∀ sj, w'.handle sj = if sj = si then h else w.handle sj := handle_setHandle w si h
  have hname : ∀ sj, w'.nameOf sj = w.nameOf sj := nameOf_setHandle w si h
  have hh0 : h ≠ 0 := hi.ne_zero hr
  have hfree : ¬w.Named h := by
    rintro ⟨sj, hj, he⟩
    obtain ⟨x, y, h1, h2, -⟩ := hi.entry sj hj (he ▸ hh0)
    rw [he, hr] at h1
    cases h1
    rw [hdeath] at h2
    cases h2
  have hself : w'.byDesc h = some r' := Function.update_self ..
  have hother : ∀ g, g ≠ h → w'.byDesc g = w.byDesc g := fun g hg => Function.update_of_ne hg ..
  have hnamed : ∀ g, g ≠ h → g ≠ 0 → (w'.Named g ↔ w.Named g) := fun g hg hg0 => by
    simp only [SvcWorld.Named, hhandle]
    refine exists_congr fun sj => and_congr_right fun _ => ?_
    split_ifs with hs
    · subst hs
      exact ⟨fun he => absurd he.symm hg, fun he => absurd (he.symm.trans h0) hg0⟩
    · exact Iff.rfl
  have hlast : ∀ sj ∈ w.mgr.svclist, sj ≠ si → w'.last (w.nameOf sj) = w.last (w.nameOf sj) :=
    fun sj hj hs => Function.update_of_ne (fun he => hs (hi.name sj hj si hsi he)) ..
  have hcases : ∀ {g x}, w'.byDesc g = some x →
      g = h ∧ x = r' ∨ g ≠ h ∧ g ≠ 0 ∧ w.byDesc g = some x := fun {g x} hx => by
    by_cases hg : g = h
    · subst hg
      rw [hself] at hx
      exact Or.inl ⟨rfl, (Option.some.inj hx).symm⟩
    · rw [hother g hg] at hx
      exact Or.inr ⟨hg, hi.ne_zero hx, hx⟩
  constructor
  · exact hi.out
  · exact hi.fresh
  · intro sj hj sk hk he
    exact hi.name sj hj sk hk (by rwa [hname, hname] at he)
  · exact hi.node_update hr rfl
  · exact (hother 0 hh0.symm).trans hi.zero
  · intro g x hx hg
    obtain ⟨rfl, rfl⟩ | ⟨h1, h2, h3⟩ := hcases hx
    · exact congrArg (· + 1) (hi.unnamed _ r hr hfree)
    · exact hi.named g x h3 ((hnamed g h1 h2).1 hg)
  · intro g x hx hg
    obtain ⟨rfl, rfl⟩ | ⟨h1, h2, h3⟩ := hcases hx
    · exact absurd ⟨si, hsi, (hhandle si).trans (if_pos rfl)⟩ hg
    · exact hi.unnamed g x h3 fun h4 => hg ((hnamed g h1 h2).2 h4)
  · intro g x hx
    obtain ⟨rfl, rfl⟩ | ⟨h1, h2, h3⟩ := hcases hx
    · exact hi.weak _ r hr
    · exact hi.weak g x h3
  · intro x hx hnone
    by_cases hg : x.1 = h
    · rw [hg, hself] at hnone
      cases hnone
    · exact hi.held x hx ((hother _ hg).symm.trans hnone)
  · intro sj hj hne
    rw [hhandle] at hne ⊢
    rw [hname]
    split_ifs at hne ⊢ with hs
    · subst hs
      refine ⟨r', st, hself, rfl, fun _ => ⟨?_, Function.update_self ..⟩⟩
      rw [hst]
      split_ifs <;> nofun
    · obtain ⟨x, y, h1, h2, h3⟩ := hi.entry sj hj hne
      have hg : w.handle sj ≠ h := fun he => hfree ⟨sj, hj, he⟩
      refine ⟨x, y, (hother _ hg).trans h1, h2, fun _ => ?_⟩
      obtain ⟨h4, h5⟩ := h3 fun he => hs (Option.some.inj he).symm
      exact ⟨h4, (hlast sj hj hs).trans h5⟩
  · intro sj hj _ hzero
    rw [hhandle] at hzero
    rw [hname]
    split_ifs at hzero with hs
    · exact absurd hzero hh0
    · rw [hlast sj hj hs]
      exact hi.empty sj hj (fun he => hs (Option.some.inj he).symm) hzero
  · intro g x c y hx hc
    obtain ⟨rfl, rfl⟩ | ⟨h1, h2, h3⟩ := hcases hx
    · cases hc
      rw [hst]
      cases w.dead (owner r.node) <;> simp
    · exact hi.state g x c y h3 hc
  · intro g x c y hx hc hy
    obtain ⟨rfl, rfl⟩ | ⟨h1, h2, h3⟩ := hcases hx
    · cases hc
      exact ⟨hsi, (hhandle si).trans (if_pos rfl)⟩
    · obtain ⟨h4, h5⟩ := hi.cookie g x c y h3 hc hy
      refine ⟨h4, ?_⟩
      rw [hhandle, if_neg, h5]
      rintro rfl
      exact h2 (h5.symm.trans h0)
  · intro s hs
    have hne : s ≠ w.nameOf si := fun he => hs si hsi ((hname si).trans he.symm)
    exact (Function.update_of_ne hne ..).trans (hi.never s fun sj hj => hname sj ▸ hs sj hj)

/-- `si` is settled again when the service it had has died. -/
theorem close (hi : SvcInv owner (some si) w) (h0 : w.handle si = 0) {n : ℕ}
    (hlast : w.last (w.nameOf si) = some n) (hdead : w.dead (owner n) = true) :
    SvcInv owner none w :=
  { hi with
    entry := fun sj hj hne => by
      obtain ⟨r, st, h1, h2, h3⟩ := hi.entry sj hj hne
      refine ⟨r, st, h1, h2, fun _ => h3 ?_⟩
      rintro ⟨⟩
      exact hne h0
    empty := fun sj hj _ hz => by
      by_cases hs : some si = some sj
      · cases hs
        exact ⟨n, hlast, hdead⟩
      · exact hi.empty sj hj hs hz }

/-- A new entry, which has no handle so far. -/
theorem alloc (hi : SvcInv owner none w) {s : List ℕ} (hs : ∀ si ∈ w.mgr.svclist, w.nameOf si ≠ s)
    (allowIsolated : Bool) :
    SvcInv owner (some w.mgr.info.next) { w with mgr := newSvc w.mgr s 0 allowIsolated } := by
  set w' : SvcWorld := { w with mgr := newSvc w.mgr s 0 allowIsolated }
  have hself : w'.mgr.info.get w.mgr.info.next =
      { handle := 0, allowIsolated := allowIsolated, name := s } := w.mgr.info.get_alloc_self _
  have hold : ∀ sj ∈ w.mgr.svclist, w'.mgr.info.get sj = w.mgr.info.get sj := fun sj hj =>
    w.mgr.info.get_alloc_ne sj _ (hi.fresh sj hj).ne
  have hmem : ∀ sj, sj ∈ w'.mgr.svclist ↔ sj = w.mgr.info.next ∨ sj ∈ w.mgr.svclist := fun sj =>
    List.mem_cons
  have hhandle : ∀ sj ∈ w.mgr.svclist, w'.handle sj = w.handle sj := fun sj hj =>
    congrArg SvcInfo.handle (hold sj hj)
  have hname : ∀ sj ∈ w.mgr.svclist, w'.nameOf sj = w.nameOf sj := fun sj hj =>
    congrArg SvcInfo.name (hold sj hj)
  have hzero : w'.handle w.mgr.info.next = 0 := congrArg SvcInfo.handle hself
  have hnew : w'.nameOf w.mgr.info.next = s := congrArg SvcInfo.name hself
  have hnamed : ∀ h, h ≠ 0 → (w'.Named h ↔ w.Named h) := fun h h0 => by
    constructor
    · rintro ⟨sj, hj, he⟩
      rcases (hmem sj).1 hj with rfl | hj
      · exact absurd (he.symm.trans hzero) h0
      · exact ⟨sj, hj, (hhandle sj hj).symm.trans he⟩
    · rintro ⟨sj, hj, he⟩
      exact ⟨sj, (hmem sj).2 (Or.inr hj), (hhandle sj hj).trans he⟩
  constructor
  · exact hi.out
  · intro sj hj
    rcases (hmem sj).1 hj with rfl | hj
    · exact Nat.lt_succ_self _
    · exact (hi.fresh sj hj).trans (Nat.lt_succ_self _)
  · intro sj hj sk hk he
    rcases (hmem sj).1 hj with rfl | hj <;> rcases (hmem sk).1 hk with rfl | hk
    · rfl
    · rw [hnew, hname sk hk] at he
      exact absurd he.symm (hs sk hk)
    · rw [hnew, hname sj hj] at he
      exact absurd he (hs sj hj)
    · rw [hname sj hj, hname sk hk] at he
      exact hi.name sj hj sk hk he
  · exact hi.node
  · exact hi.zero
  · intro h r hr hn
    exact hi.named h r hr ((hnamed h (hi.ne_zero hr)).1 hn)
  · intro h r hr hn
    exact hi.unnamed h r hr fun hn' => hn ((hnamed h (hi.ne_zero hr)).2 hn')
  · exact hi.weak
  · exact hi.held
  · intro sj hj hne
    rcases (hmem sj).1 hj with rfl | hj
    · exact absurd hzero hne
    · rw [hhandle sj hj] at hne ⊢
      rw [hname sj hj]
      obtain ⟨r, st, h1, h2, h3⟩ := hi.entry sj hj hne
      exact ⟨r, st, h1, h2, fun _ => h3 nofun⟩
  · intro sj hj hne h0
    rcases (hmem sj).1 hj with rfl | hj
    · exact absurd rfl hne
    · rw [hhandle sj hj] at h0
      rw [hname sj hj]
      exact hi.empty sj hj nofun h0
  · exact hi.state
  · intro h r c st hr hc hst
    obtain ⟨h1, h2⟩ := hi.cookie h r c st hr hc hst
    exact ⟨(hmem c).2 (Or.inr h1), (hhandle c h1).trans h2⟩
  · intro s' hs'
    refine hi.never s' fun sj hj => ?_
    have hne := hs' sj ((hmem sj).2 (Or.inr hj))
    rwa [hname sj hj] at hne

/-! Buffers -/

/-- The counts of one reference change along with what the buffers hold. -/
theorem recount (hi : SvcInv owner ex w) (hr : w.byDesc h = some r) {r' : SvcRef}
    {buffers : List (ℕ × Bool)} (hnode : r'.node = r.node) (hdeath : r'.death = r.death)
    (hstrong : r'.strong + w.buffers.count (h, true) = r.strong + buffers.count (h, true))
    (hweak : r'.weak = buffers.count (h, false))
    (hcount : ∀ g b, g ≠ h → buffers.count (g, b) = w.buffers.count (g, b))
    (hmem : ∀ x ∈ buffers, x.1 ≠ h → x ∈ w.buffers) :
    SvcInv owner ex
      { w with byDesc := Function.update w.byDesc h (some r'), buffers := buffers } := by
  have hcases : ∀ {g x}, Function.update w.byDesc h (some r') g = some x →
      g = h ∧ x = r' ∨ g ≠ h ∧ w.byDesc g = some x := fun {g x} hx => by
    by_cases hg : g = h
    · subst hg
      rw [Function.update_self] at hx
      exact Or.inl ⟨rfl, (Option.some.inj hx).symm⟩
    · rw [Function.update_of_ne hg] at hx
      exact Or.inr ⟨hg, hx⟩
  constructor
  · exact hi.out
  · exact hi.fresh
  · exact hi.name
  · exact hi.node_update hr hnode
  · exact (Function.update_of_ne (hi.ne_zero hr).symm ..).trans hi.zero
  · intro g x hx hg
    obtain ⟨rfl, rfl⟩ | ⟨h1, h2⟩ := hcases hx
    · have := hi.named _ r hr hg
      show x.strong = buffers.count _ + 1
      omega
    · exact (hi.named g x h2 hg).trans (congrArg (· + 1) (hcount g true h1).symm)
  · intro g x hx hg
    obtain ⟨rfl, rfl⟩ | ⟨h1, h2⟩ := hcases hx
    · have := hi.unnamed _ r hr hg
      show x.strong = buffers.count _
      omega
    · exact (hi.unnamed g x h2 hg).trans (hcount g true h1).symm
  · intro g x hx
    obtain ⟨rfl, rfl⟩ | ⟨h1, h2⟩ := hcases hx
    · exact hweak
    · exact (hi.weak g x h2).trans (hcount g false h1).symm
  · intro x hx hnone
    by_cases hg : x.1 = h
    · simp [hg] at hnone
    · exact hi.held x (hmem x hx hg) (by simpa [Function.update_of_ne hg] using hnone)
  · intro si hsi hne
    obtain ⟨x, st, h1, h2, h3⟩ := hi.entry si hsi hne
    by_cases hg : w.handle si = h
    · rw [hg, hr] at h1
      cases h1
      exact ⟨r', st, hg ▸ Function.update_self .., hdeath.trans h2, fun hs => by
        rw [hnode]
        exact h3 hs⟩
    · exact ⟨x, st, (Function.update_of_ne hg ..).trans h1, h2, h3⟩
  · exact hi.empty
  · intro g x c st hx hc
    obtain ⟨rfl, rfl⟩ | ⟨h1, h2⟩ := hcases hx
    · rw [hnode]
      exact hi.state _ r c st hr (hdeath ▸ hc)
    · exact hi.state g x c st h2 hc
  · intro g x c st hx hc hst
    obtain ⟨rfl, rfl⟩ | ⟨h1, h2⟩ := hcases hx
    · exact hi.cookie _ r c st hr (hdeath ▸ hc) hst
    · exact hi.cookie g x c st h2 hc hst
  · exact hi.never

/-- A buffer brings a reference to a node that had none. -/
theorem insert (hi : SvcInv owner ex w) {n : ℕ} {b : Bool} (hn : w.byNode n = none) (h0 : h ≠ 0)
    (hnone : w.byDesc h = none) :
    SvcInv owner ex { w with
      byDesc := Function.update w.byDesc h (some (SvcRef.raise b { node := n }))
      byNode := Function.update w.byNode n (some h)
      buffers := (h, b) :: w.buffers } := by
  have hfree : ¬w.Named h := by
    rintro ⟨sj, hj, he⟩
    obtain ⟨x, y, h1, -, -⟩ := hi.entry sj hj (he ▸ h0)
    rw [he, hnone] at h1
    cases h1
  have hzero : ∀ c, w.buffers.count (h, c) = 0 := fun c =>
    List.count_eq_zero.2 fun hx => hi.held _ hx hnone
  have hcount : ∀ g c, g ≠ h → ((h, b) :: w.buffers).count (g, c) = w.buffers.count (g, c) :=
    fun g c hg => List.count_cons_of_ne fun he => hg (congrArg Prod.fst he).symm
  have hcases : ∀ {g x}, Function.update w.byDesc h (some (SvcRef.raise b { node := n })) g = some x →
      g = h ∧ x = SvcRef.raise b { node := n } ∨ g ≠ h ∧ w.byDesc g = some x := fun {g x} hx => by
    by_cases hg : g = h
    · subst hg
      rw [Function.update_self] at hx
      exact Or.inl ⟨rfl, (Option.some.inj hx).symm⟩
    · rw [Function.update_of_ne hg] at hx
      exact Or.inr ⟨hg, hx⟩
  have hdeath : (SvcRef.raise b { node := n }).death = none := by cases b <;> rfl
  have hnode : (SvcRef.raise b { node := n }).node = n := by cases b <;> rfl
  constructor
  · exact hi.out
  · exact hi.fresh
  · exact hi.name
  · intro m g
    simp only [Function.update_apply]
    split_ifs with h1 h2 h2
    · subst h1 h2
      simp [hnode]
    · subst h1
      refine ⟨fun he => absurd (Option.some.inj he).symm h2, fun hx => ?_⟩
      rw [(hi.node m g).2 hx] at hn
      cases hn
    · subst h2
      refine ⟨fun he => ?_, fun ⟨x, hx, hxn⟩ => ?_⟩
      · obtain ⟨x, hx, -⟩ := (hi.node m g).1 he
        rw [hnone] at hx
        cases hx
      · cases hx
        exact absurd (hxn.symm.trans hnode) h1
    · exact hi.node m g
  · exact (Function.update_of_ne h0.symm ..).trans hi.zero
  · intro g x hx hg
    obtain ⟨rfl, rfl⟩ | ⟨h1, h2⟩ := hcases hx
    · exact absurd hg hfree
    · exact (hi.named g x h2 hg).trans (congrArg (· + 1) (hcount g true h1).symm)
  · intro g x hx hg
    obtain ⟨rfl, rfl⟩ | ⟨h1, h2⟩ := hcases hx
    · cases b <;> simp [SvcRef.raise, hzero]
    · exact (hi.unnamed g x h2 hg).trans (hcount g true h1).symm
  · intro g x hx
    obtain ⟨rfl, rfl⟩ | ⟨h1, h2⟩ := hcases hx
    · cases b <;> simp [SvcRef.raise, hzero]
    · exact (hi.weak g x h2).trans (hcount g false h1).symm
  · intro x hx hxn
    by_cases hg : x.1 = h
    · simp [hg] at hxn
    · rcases List.mem_cons.1 hx with rfl | hx
      · exact hg rfl
      · exact hi.held x hx (by simpa [Function.update_of_ne hg] using hxn)
  · intro si hsi hne
    obtain ⟨x, st, h1, h2, h3⟩ := hi.entry si hsi hne
    have hg : w.handle si ≠ h := fun he => hfree ⟨si, hsi, he⟩
    exact ⟨x, st, (Function.update_of_ne hg ..).trans h1, h2, h3⟩
  · exact hi.empty
  · intro g x c st hx hc
    obtain ⟨rfl, rfl⟩ | ⟨h1, h2⟩ := hcases hx
    · rw [hdeath] at hc
      cases hc
    · exact hi.state g x c st h2 hc
  · intro g x c st hx hc hst
    obtain ⟨rfl, rfl⟩ | ⟨h1, h2⟩ := hcases hx
    · rw [hdeath] at hc
      cases hc
    · exact hi.cookie g x c st h2 hc hst
  · exact hi.never

/-- A reference that nothing holds is deleted. -/
theorem delete (hi : SvcInv owner none w) (hr : w.byDesc h = some r) (hn : ¬w.Named h)
    {buffers : List (ℕ × Bool)} (hcount : ∀ g b, g ≠ h → buffers.count (g, b) = w.buffers.count (g, b))
    (hmem : ∀ x ∈ buffers, x.1 ≠ h ∧ x ∈ w.buffers) :
    SvcInv owner none ({ w with buffers := buffers }.deleteRef h r) := by
  have hcases : ∀ {g x}, Function.update w.byDesc h none g = some x →
      g ≠ h ∧ w.byDesc g = some x := fun {g x} hx => by
    by_cases hg : g = h
    · subst hg
      rw [Function.update_self] at hx
      cases hx
    · exact ⟨hg, by rwa [Function.update_of_ne hg] at hx⟩
  constructor
  · exact hi.out
  · exact hi.fresh
  · exact hi.name
  · exact hi.node_delete hr
  · exact (Function.update_of_ne (hi.ne_zero hr).symm ..).trans hi.zero
  · intro g x hx hg
    obtain ⟨h1, h2⟩ := hcases hx
    exact (hi.named g x h2 hg).trans (congrArg (· + 1) (hcount g true h1).symm)
  · intro g x hx hg
    obtain ⟨h1, h2⟩ := hcases hx
    exact (hi.unnamed g x h2 hg).trans (hcount g true h1).symm
  · intro g x hx
    obtain ⟨h1, h2⟩ := hcases hx
    exact (hi.weak g x h2).trans (hcount g false h1).symm
  · intro x hx hnone
    obtain ⟨h1, h2⟩ := hmem x hx
    exact hi.held x h2 (by simpa [SvcWorld.deleteRef, Function.update_of_ne h1] using hnone)
  · intro si hsi hne
    obtain ⟨x, st, h1, h2, h3⟩ := hi.entry si hsi hne
    have hg : w.handle si ≠ h := fun he => hn ⟨si, hsi, he⟩
    exact ⟨x, st, (Function.update_of_ne hg ..).trans h1, h2, h3⟩
  · exact hi.empty
  · intro g x c st hx hc
    exact hi.state g x c st (hcases hx).2 hc
  · intro g x c st hx hc hst
    exact hi.cookie g x c st (hcases hx).2 hc hst
  · exact hi.never

theorem free (hi : SvcInv owner none w) {b : Bool} (hmem : (h, b) ∈ w.buffers) :
    SvcInv owner none ({ w with buffers := w.buffers.erase (h, b) }.dec h b) := by
  obtain ⟨r, hr⟩ := Option.ne_none_iff_exists'.1 (hi.held _ hmem)
  have hpos : 0 < w.buffers.count (h, b) := List.count_pos_iff.2 hmem
  have hself : (w.buffers.erase (h, b)).count (h, b) = w.buffers.count (h, b) - 1 :=
    List.count_erase_self
  have hne : ∀ x, x ≠ (h, b) → (w.buffers.erase (h, b)).count x = w.buffers.count x := fun x hx =>
    List.count_erase_of_ne hx
  have hother : ∀ g c, g ≠ h → (w.buffers.erase (h, b)).count (g, c) = w.buffers.count (g, c) :=
    fun g c hg => hne _ fun he => hg (congrArg Prod.fst he)
  have hweak := hi.weak h r hr
  have hnamed := hi.named h r hr
  have hunnamed := hi.unnamed h r hr
  have hstrong : w.buffers.count (h, true) ≤ r.strong := by
    by_cases hn : w.Named h
    · rw [hnamed hn]
      omega
    · rw [hunnamed hn]
  simp only [SvcWorld.dec, hr, Option.elim_some]
  have hcount : r.count b ≠ 0 := by
    cases b <;> simp only [SvcRef.count] <;> simp <;> omega
  rw [if_neg hcount]
  split_ifs with hlast
  · have hzero : ∀ c, (w.buffers.erase (h, b)).count (h, c) = 0 := fun c => by
      cases b <;> simp only [SvcRef.lower, if_true, if_false, Bool.false_eq_true] at hlast <;>
        cases c
      · omega
      · rw [hne _ (by simp)]
        omega
      · rw [hne _ (by simp)]
        omega
      · omega
    refine hi.delete hr ?_ hother fun x hx => ⟨?_, List.mem_of_mem_erase hx⟩
    · intro hn
      have := hnamed hn
      cases b <;> simp only [SvcRef.lower, if_true, if_false, Bool.false_eq_true] at hlast <;> omega
    · rintro rfl
      have hx' : 0 < (w.buffers.erase (x.1, b)).count x := List.count_pos_iff.2 hx
      have hx0 : (w.buffers.erase (x.1, b)).count x = 0 := hzero x.2
      omega
  · refine hi.recount hr ?_ ?_ ?_ ?_ hother fun x hx _ => List.mem_of_mem_erase hx
    · cases b <;> rfl
    · cases b <;> rfl
    · cases b
      · rw [hne _ (by simp)]
        rfl
      · rw [hself]
        simp only [SvcRef.lower, if_true]
        omega
    · cases b
      · rw [hself]
        simp [SvcRef.lower, hweak]
      · rw [hne _ (by simp)]
        exact hweak

end SvcInv

end Binder

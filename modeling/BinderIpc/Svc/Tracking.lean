import BinderIpc.Svc.NamesInv

/-! Every step of the world of `service_manager` keeps its invariant while
services are added with death records of their own, so names track services. -/

namespace Binder

namespace SvcWorld

variable {owner : ℕ → ℕ} {kzalloc : Bool} {w : SvcWorld}

/-- Commands do not touch the state of `service_manager`. -/
theorem command_mgr (w : SvcWorld) (m : SvcMgr) (c : SvcCommand) :
    ({ w with mgr := m } : SvcWorld).command owner kzalloc c =
      { w.command owner kzalloc c with mgr := m } := by
  cases c with
  | acquire h =>
    simp only [command, inc]
    cases w.byDesc h <;> rfl
  | release h =>
    simp only [command, dec]
    cases w.byDesc h with
    | none => rfl
    | some r =>
      simp only [Option.elim_some]
      split_ifs <;> rfl
  | linkToDeath h si =>
    simp only [command, link]
    cases w.byDesc h with
    | none => rfl
    | some r =>
      simp only [Option.elim_some]
      split_ifs <;> rfl

theorem obey_eq (w : SvcWorld) (m : SvcMgr) :
    w.obey owner kzalloc m =
      { m.out.foldl (fun w c => w.command owner kzalloc c) w with mgr := { m with out := [] } } := by
  unfold obey
  generalize ({ m with out := [] } : SvcMgr) = m'
  induction m.out generalizing w with
  | nil => rfl
  | cons c l ih => rw [List.foldl_cons, command_mgr, ih, List.foldl_cons]

theorem obey_self (h : w.mgr.out = []) : w.obey owner kzalloc w.mgr = w := by
  rw [obey_eq, h]
  obtain ⟨⟨info, svclist, out⟩, byDesc, byNode, dead, buffers, last⟩ := w
  dsimp only at h
  subst h
  rfl

theorem obey_write (w : SvcWorld) (m : SvcMgr) (c : SvcCommand) :
    w.obey owner kzalloc (m.write c) = (w.obey owner kzalloc m).command owner kzalloc c := by
  simp only [obey, SvcMgr.write, List.foldl_append, List.foldl_cons, List.foldl_nil]

theorem obey_setHandle (w : SvcWorld) (m : SvcMgr) (si h : ℕ) :
    w.obey owner kzalloc (m.setHandle si h) =
      { w.obey owner kzalloc m with mgr := (w.obey owner kzalloc m).mgr.setHandle si h } := by
  rw [obey_eq, obey_eq]
  rfl

theorem obey_newSvc (w : SvcWorld) (m : SvcMgr) (s : List ℕ) (h : ℕ) (allowIsolated : Bool) :
    w.obey owner kzalloc (newSvc m s h allowIsolated) =
      { w.obey owner kzalloc m with
        mgr := newSvc (w.obey owner kzalloc m).mgr s h allowIsolated } := by
  rw [obey_eq, obey_eq]
  rfl

theorem obey_death (h : w.mgr.out = []) {si : ℕ} (hne : w.handle si ≠ 0) :
    w.obey owner kzalloc (svcinfoDeath w.mgr si) =
      { w.dec (w.handle si) true with mgr := w.mgr.setHandle si 0 } := by
  have hd : svcinfoDeath w.mgr si = (w.mgr.write (.release (w.handle si))).setHandle si 0 :=
    if_pos hne
  rw [hd, obey_setHandle, obey_write, obey_self h]
  have hm : (w.command owner kzalloc (.release (w.handle si))).mgr = w.mgr := by
    have hc : w.command owner kzalloc (.release (w.handle si)) =
        { w.command owner kzalloc (.release (w.handle si)) with mgr := w.mgr } :=
      command_mgr w w.mgr _
    rw [hc]
  change ({ w.command owner kzalloc (.release (w.handle si)) with
    mgr := (w.command owner kzalloc (.release (w.handle si))).mgr.setHandle si 0 } : SvcWorld) = _
  rw [hm]
  rfl

theorem last_dec (w : SvcWorld) (h : ℕ) (b : Bool) : (w.dec h b).last = w.last := by
  unfold dec
  cases w.byDesc h with
  | none => rfl
  | some r =>
    simp only [Option.elim_some]
    split_ifs <;> rfl

theorem dead_dec (w : SvcWorld) (h : ℕ) (b : Bool) : (w.dec h b).dead = w.dead := by
  unfold dec
  cases w.byDesc h with
  | none => rfl
  | some r =>
    simp only [Option.elim_some]
    split_ifs <;> rfl

theorem last_command (w : SvcWorld) (c : SvcCommand) :
    (w.command owner kzalloc c).last = w.last := by
  cases c with
  | acquire h =>
    simp only [command, inc]
    cases w.byDesc h <;> rfl
  | release h => exact last_dec w h true
  | linkToDeath h si =>
    simp only [command, link]
    cases w.byDesc h with
    | none => rfl
    | some r =>
      simp only [Option.elim_some]
      split_ifs <;> rfl

theorem last_obey (w : SvcWorld) (m : SvcMgr) : (w.obey owner kzalloc m).last = w.last := by
  rw [obey_eq]
  show (m.out.foldl _ w).last = w.last
  induction m.out generalizing w with
  | nil => rfl
  | cons c l ih => rw [List.foldl_cons, ih, last_command]

/-- What the last two commands of `do_add_service` do to a reference without a record. -/
theorem acquire_link {h si : ℕ} {r : SvcRef} (hr : w.byDesc h = some r) (hdeath : r.death = none) :
    (w.command owner true (.acquire h)).command owner true (.linkToDeath h si) =
      w.setRef h { r with
        strong := r.strong + 1
        death := some (si, if w.dead (owner r.node) then .queued else .idle) } := by
  simp only [command, inc, hr, Option.elim_some, link, setRef, Function.update_self, SvcRef.raise,
    if_true, hdeath, Option.isSome_none, Bool.not_true, Bool.or_false, Bool.false_eq_true, if_false,
    Function.update_idem]

/-- They do nothing but count when there is one. -/
theorem acquire_link_again {h si : ℕ} {r : SvcRef} (hr : w.byDesc h = some r)
    (hdeath : r.death.isSome) :
    (w.command owner true (.acquire h)).command owner true (.linkToDeath h si) =
      w.setRef h { r with strong := r.strong + 1 } := by
  simp only [command, inc, hr, Option.elim_some, link, setRef, Function.update_self, SvcRef.raise,
    if_true, hdeath, Bool.true_or]

theorem byDesc_dec_ne (w : SvcWorld) {g h : ℕ} (b : Bool) (hne : h ≠ g) :
    (w.dec g b).byDesc h = w.byDesc h := by
  unfold dec
  cases w.byDesc g with
  | none => rfl
  | some r =>
    simp only [Option.elim_some]
    split_ifs <;> simp [hne]

end SvcWorld

namespace SvcInv

variable {owner : ℕ → ℕ} {w : SvcWorld} {si h : ℕ} {r : SvcRef}

theorem receive (hi : SvcInv owner none w) (n h : ℕ) (b : Bool) :
    SvcInv owner none (w.receive n h b) := by
  unfold SvcWorld.receive
  cases hn : w.byNode n with
  | some g =>
    obtain ⟨r, hr, -⟩ := (hi.node n g).1 hn
    have hweak := hi.weak g r hr
    dsimp only
    simp only [SvcWorld.inc, hr, Option.elim_some]
    refine hi.recount hr ?_ ?_ ?_ ?_ (fun k c hk => ?_) fun x hx hne => ?_
    · cases b <;> rfl
    · cases b <;> rfl
    · cases b <;> simp [SvcRef.raise]
      omega
    · cases b <;> simp [SvcRef.raise, hweak]
    · exact List.count_cons_of_ne (fun he => hk (congrArg Prod.fst he).symm)
    · rcases List.mem_cons.1 hx with rfl | hx
      · exact absurd rfl hne
      · exact hx
  | none =>
    dsimp only
    split_ifs with hh
    · exact hi
    · obtain ⟨h0, hfree⟩ := not_or.1 hh
      exact hi.insert hn h0 (by simpa using hfree)

/-- The owner `p` dies. -/
theorem die (hi : SvcInv owner none w) (p : ℕ) :
    SvcInv owner none { w with
      dead := Function.update w.dead p true
      byDesc := fun h => (w.byDesc h).map fun r => if owner r.node = p then r.queue else r } := by
  set f : SvcRef → SvcRef := fun r => if owner r.node = p then r.queue else r
  have hnode : ∀ r, (f r).node = r.node := fun r => by
    simp only [f, SvcRef.queue]
    split_ifs
    · split <;> rfl
    · rfl
  have hcounts : ∀ r, (f r).strong = r.strong ∧ (f r).weak = r.weak := fun r => by
    simp only [f, SvcRef.queue]
    split_ifs
    · split <;> exact ⟨rfl, rfl⟩
    · exact ⟨rfl, rfl⟩
  -- what is queued was idle, and what is delivered stays so
  have hdeath : ∀ r c st, (f r).death = some (c, st) → ∃ st', r.death = some (c, st') ∧
      (st = .delivered ↔ st' = .delivered) ∧ (st = .idle ↔ st' = .idle ∧ owner r.node ≠ p) := by
    intro r c st h
    simp only [f, SvcRef.queue] at h
    split_ifs at h with hp
    · split at h
      · rename_i cookie hd
        cases h
        exact ⟨.idle, hd, by simp, by simp [hp]⟩
      · rename_i hd
        refine ⟨st, h, Iff.rfl, ?_⟩
        have hidle : st ≠ .idle := by
          rintro rfl
          exact hd c h
        simp [hidle]
    · exact ⟨st, h, Iff.rfl, by simp [hp]⟩
  have hsome : ∀ r c st, r.death = some (c, st) → ∃ st', (f r).death = some (c, st') := by
    intro r c st h
    simp only [f, SvcRef.queue]
    split_ifs
    · split
      · rename_i cookie hd
        rw [hd] at h
        cases h
        exact ⟨_, rfl⟩
      · exact ⟨_, h⟩
    · exact ⟨_, h⟩
  have hget : ∀ {h x}, (w.byDesc h).map f = some x → ∃ r, w.byDesc h = some r ∧ f r = x :=
    fun hx => Option.map_eq_some_iff.1 hx
  constructor
  · exact hi.out
  · exact hi.fresh
  · exact hi.name
  · intro n h
    rw [hi.node]
    constructor
    · rintro ⟨r, hr, hn⟩
      exact ⟨f r, by simp [hr], (hnode r).trans hn⟩
    · rintro ⟨x, hx, hn⟩
      obtain ⟨r, hr, rfl⟩ := hget hx
      exact ⟨r, hr, (hnode r).symm.trans hn⟩
  · simp [hi.zero]
  · intro h x hx hn
    obtain ⟨r, hr, rfl⟩ := hget hx
    exact (hcounts r).1.trans (hi.named h r hr hn)
  · intro h x hx hn
    obtain ⟨r, hr, rfl⟩ := hget hx
    exact (hcounts r).1.trans (hi.unnamed h r hr hn)
  · intro h x hx
    obtain ⟨r, hr, rfl⟩ := hget hx
    exact (hcounts r).2.trans (hi.weak h r hr)
  · intro x hx hnone
    exact hi.held x hx (by simpa using hnone)
  · intro si hsi hne
    obtain ⟨r, st, h1, h2, h3⟩ := hi.entry si hsi hne
    obtain ⟨st', h4⟩ := hsome r si st h2
    refine ⟨f r, st', congrArg (Option.map f) h1, h4, fun hs => ?_⟩
    obtain ⟨h5, h6⟩ := h3 hs
    refine ⟨fun he => ?_, h6.trans (congrArg some (hnode r).symm)⟩
    obtain ⟨st'', h7, h8, -⟩ := hdeath r si st' h4
    rw [h2] at h7
    cases h7
    exact h5 (h8.1 he)
  · intro si hsi hs h0
    obtain ⟨n, h1, h2⟩ := hi.empty si hsi hs h0
    refine ⟨n, h1, ?_⟩
    simp only [Function.update_apply]
    split_ifs
    · rfl
    · exact h2
  · intro h x c st hx hc
    obtain ⟨r, hr, rfl⟩ := hget hx
    obtain ⟨st', h1, -, h2⟩ := hdeath r c st hc
    rw [hnode, h2, hi.state h r c st' hr h1]
    simp only [Function.update_apply]
    split_ifs with hp <;> simp [hp]
  · intro h x c st hx hc hst
    obtain ⟨r, hr, rfl⟩ := hget hx
    obtain ⟨st', h1, h2, -⟩ := hdeath r c st hc
    exact hi.cookie h r c st' hr h1 fun he => hst (h2.2 he)
  · exact hi.never

/-- A notice is delivered; the entry that is its cookie is about to change. -/
theorem deliver (hi : SvcInv owner none w) (hr : w.byDesc h = some r)
    (hd : r.death = some (si, .queued)) :
    SvcInv owner (some si) (w.setRef h { r with death := some (si, .delivered) }) := by
  have hcases : ∀ {g x}, (w.setRef h { r with death := some (si, .delivered) }).byDesc g = some x →
      g = h ∧ x = { r with death := some (si, .delivered) } ∨ g ≠ h ∧ w.byDesc g = some x := by
    intro g x hx
    by_cases hg : g = h
    · subst hg
      rw [SvcWorld.byDesc_setRef, if_pos rfl] at hx
      exact Or.inl ⟨rfl, (Option.some.inj hx).symm⟩
    · rw [SvcWorld.byDesc_setRef, if_neg hg] at hx
      exact Or.inr ⟨hg, hx⟩
  constructor
  · exact hi.out
  · exact hi.fresh
  · exact hi.name
  · exact hi.node_update hr rfl
  · exact (Function.update_of_ne (hi.ne_zero hr).symm ..).trans hi.zero
  · intro g x hx hg
    obtain ⟨rfl, rfl⟩ | ⟨h1, h2⟩ := hcases hx
    · exact hi.named _ r hr hg
    · exact hi.named g x h2 hg
  · intro g x hx hg
    obtain ⟨rfl, rfl⟩ | ⟨h1, h2⟩ := hcases hx
    · exact hi.unnamed _ r hr hg
    · exact hi.unnamed g x h2 hg
  · intro g x hx
    obtain ⟨rfl, rfl⟩ | ⟨h1, h2⟩ := hcases hx
    · exact hi.weak _ r hr
    · exact hi.weak g x h2
  · intro x hx hnone
    by_cases hg : x.1 = h
    · simp [SvcWorld.setRef, hg] at hnone
    · exact hi.held x hx (by simpa [SvcWorld.setRef, Function.update_of_ne hg] using hnone)
  · intro sj hj hne
    obtain ⟨x, st, h1, h2, h3⟩ := hi.entry sj hj hne
    by_cases hg : w.handle sj = h
    · rw [hg, hr] at h1
      cases h1
      rw [hd] at h2
      cases h2
      refine ⟨{ r with death := some (si, .delivered) }, .delivered, ?_, rfl, fun hs => absurd rfl hs⟩
      exact (SvcWorld.byDesc_setRef ..).trans (if_pos hg)
    · exact ⟨x, st, (Function.update_of_ne hg ..).trans h1, h2, fun _ => h3 nofun⟩
  · intro sj hj _ h0
    exact hi.empty sj hj nofun h0
  · intro g x c st hx hc
    obtain ⟨rfl, rfl⟩ | ⟨h1, h2⟩ := hcases hx
    · cases hc
      have hs := hi.state _ r si _ hr hd
      simpa [SvcWorld.setRef] using hs
    · exact hi.state g x c st h2 hc
  · intro g x c st hx hc hst
    obtain ⟨rfl, rfl⟩ | ⟨h1, h2⟩ := hcases hx
    · cases hc
      exact absurd rfl hst
    · exact hi.cookie g x c st h2 hc hst
  · exact hi.never

/-- `svcinfo_death` of an entry whose record, if it outlives this, will not be delivered. -/
theorem death (hi : SvcInv owner (some si) w) (hsi : si ∈ w.mgr.svclist) (hne : w.handle si ≠ 0)
    (hr : w.byDesc (w.handle si) = some r)
    (hsole : (∀ st, r.death = some (si, st) → st = .delivered) ∨ r.strong = 1 ∧ r.weak = 0) :
    SvcInv owner (some si) { w.dec (w.handle si) true with mgr := w.mgr.setHandle si 0 } := by
  have hcount := hi.named _ r hr ⟨si, hsi, rfl⟩
  have hweak := hi.weak _ r hr
  have hheld : ∀ b, (w.handle si, b) ∈ w.buffers → r.strong ≠ 1 ∨ r.weak ≠ 0 := fun b hb => by
    have hpos := List.count_pos_iff.2 hb
    cases b <;> omega
  simp only [SvcWorld.dec, hr, Option.elim_some, SvcRef.count, if_true]
  rw [if_neg (by omega)]
  split_ifs with hlast
  · simp only [SvcRef.lower, if_true] at hlast
    refine hi.unname hsi hne hr (fun g hg => Function.update_of_ne hg ..) (fun x hx => ?_) ?_
      fun b hb => ?_
    · simp at hx
    · exact hi.node_delete hr
    · have := hheld b hb
      omega
  · simp only [SvcRef.lower, if_true] at hlast ⊢
    refine hi.unname hsi hne hr (fun g hg => Function.update_of_ne hg ..) (fun x hx => ?_)
      (hi.node_update hr rfl) fun b _ => by simp [SvcWorld.setRef]
    simp only [SvcWorld.byDesc_setRef, if_true, Option.some.injEq] at hx
    subst hx
    refine ⟨rfl, rfl, rfl, ?_, fun st hst => ?_⟩
    · show r.strong - 1 + 1 = r.strong
      omega
    · rcases hsole with hs | hs
      · exact hs st hst
      · omega

theorem notice (hi : SvcInv owner none w) (hr : w.byDesc h = some r)
    (hd : r.death = some (si, .queued)) :
    SvcInv owner none ((w.setRef h { r with death := some (si, .delivered) }).obey owner true
      (svcinfoDeath w.mgr si)) := by
  obtain ⟨hsi, hh⟩ := hi.cookie h r si _ hr hd nofun
  have hne : w.handle si ≠ 0 := by
    rw [hh]
    exact hi.ne_zero hr
  obtain ⟨x, st, h1, h2, h3⟩ := hi.entry si hsi hne
  rw [hh, hr] at h1
  cases h1
  have hdead : w.dead (owner r.node) = true := by
    have hs := hi.state h r si _ hr hd
    simpa using hs
  have hd' := hi.deliver hr hd
  have hobey : (w.setRef h { r with death := some (si, .delivered) }).obey owner true
      (svcinfoDeath w.mgr si) =
        { (w.setRef h { r with death := some (si, .delivered) }).dec (w.handle si) true with
          mgr := w.mgr.setHandle si 0 } := SvcWorld.obey_death hd'.out hne
  rw [hobey]
  have hu := hd'.death hsi hne (r := { r with death := some (si, .delivered) })
    (by rw [show (w.setRef h { r with death := some (si, .delivered) }).handle si = h from hh]
        exact Function.update_self ..) (Or.inl fun st hst => by cases hst; rfl)
  have hname : w.last (w.nameOf si) = some r.node := (h3 nofun).2
  refine hu.close ?_ (n := r.node) ?_ ?_
  · exact (handle_setHandle w si 0 si).trans (if_pos rfl)
  · rw [SvcWorld.last_dec]
    exact (congrArg w.last (nameOf_setHandle w si 0 si)).trans hname
  · rw [SvcWorld.dead_dec]
    exact hdead

/-- The end of `do_add_service` for an entry that has no handle. -/
theorem linked (hi : SvcInv owner (some si) w) (hsi : si ∈ w.mgr.svclist) (h0 : w.handle si = 0)
    (hr : w.byDesc h = some r) (hdeath : r.death = none) :
    SvcInv owner none { (({ w with mgr := w.mgr.setHandle si h } : SvcWorld).command owner true
      (.acquire h)).command owner true (.linkToDeath h si) with
        last := Function.update w.last (w.nameOf si) (some r.node) } := by
  rw [SvcWorld.acquire_link (w := { w with mgr := w.mgr.setHandle si h }) hr hdeath]
  exact hi.assign hsi h0 hr hdeath rfl

/-- It is added again with the handle that it has. -/
theorem relinked (hi : SvcInv owner none w) (hsi : si ∈ w.mgr.svclist) (hh : w.handle si = h)
    (hr : w.byDesc h = some r) (hmem : (h, true) ∈ w.buffers) :
    ({ (({ w.dec h true with mgr := (w.mgr.setHandle si 0).setHandle si h } : SvcWorld).command
      owner true (.acquire h)).command owner true (.linkToDeath h si) with
        last := Function.update w.last (w.nameOf si) (some r.node) } : SvcWorld) = w := by
  have hne : w.handle si ≠ 0 := by
    rw [hh]
    exact hi.ne_zero hr
  obtain ⟨x, st, h1, h2, h3⟩ := hi.entry si hsi hne
  rw [hh, hr] at h1
  cases h1
  have hlast := (h3 nofun).2
  have hcount := hi.named h r hr ⟨si, hsi, hh⟩
  have hpos := List.count_pos_iff.2 hmem
  have hdec : w.dec h true = w.setRef h { r with strong := r.strong - 1 } := by
    simp only [SvcWorld.dec, hr, Option.elim_some, SvcRef.count, SvcRef.lower, if_true]
    rw [if_neg (by omega), if_neg (by omega)]
  have hmgr : (w.mgr.setHandle si 0).setHandle si h = w.mgr := by
    subst hh
    obtain ⟨⟨⟨next, get⟩, svclist, out⟩, byDesc, byNode, dead, buffers, last⟩ := w
    simp only [SvcMgr.setHandle, Heap.modify, SvcWorld.handle, if_true]
    congr 2
    funext sj
    split_ifs with hs
    · rw [hs]
    · rfl
  rw [hdec, hmgr, SvcWorld.acquire_link_again (r := { r with strong := r.strong - 1 })
    (by simp [SvcWorld.setRef]) (by simp [h2])]
  have hstrong : r.strong - 1 + 1 = r.strong := by omega
  simp only [SvcWorld.setRef, hstrong, Function.update_idem]
  rw [Function.update_eq_self_iff.2 hr.symm, Function.update_eq_self_iff.2 hlast.symm]

theorem newSvc_eq (m : SvcMgr) (s : List ℕ) (h : ℕ) (allowIsolated : Bool) :
    newSvc m s h allowIsolated = (newSvc m s 0 allowIsolated).setHandle m.info.next h := by
  simp only [newSvc, SvcMgr.setHandle, Heap.modify, Heap.alloc, if_true]
  congr 2
  funext j
  split_ifs <;> rfl

/-- The parts of `sole` for the reference and for the entry of the name. -/
theorem sole_spec {name : List ℕ} (hs : w.sole name h = true) (hr : w.byDesc h = some r) :
    (∀ c st, r.death = some (c, st) → st ≠ .delivered ∧ w.mgr.findSvc name = some c) ∧
      ∀ si x, w.mgr.findSvc name = some si → w.handle si ≠ 0 → w.handle si ≠ h →
        w.byDesc (w.handle si) = some x → x.strong = 1 ∧ x.weak = 0 := by
  simp only [SvcWorld.sole, hr, Option.all_some, Bool.and_eq_true] at hs
  obtain ⟨h1, h2⟩ := hs
  refine ⟨fun c st hd => ?_, fun si x hf hne hh hx => ?_⟩
  · simpa [hd] using h1
  · rw [hf] at h2
    change w.byDesc (w.mgr.info.get si).handle = some x at hx
    simp only [Option.all_some, Bool.or_eq_true, decide_eq_true_eq, hx, Bool.and_eq_true] at h2
    rcases h2 with (h2 | h2) | h2
    · exact absurd h2 hne
    · exact absurd h2 hh
    · exact h2

theorem addEntry (hi : SvcInv owner none w) {name : List ℕ} (hf : w.mgr.findSvc name = some si)
    (hr : w.byDesc h = some r) (hmem : (h, true) ∈ w.buffers) (hs : w.sole name h = true) :
    SvcInv owner none { w.obey owner true ((((svcinfoDeath w.mgr si).setHandle si h).write
      (.acquire h)).write (.linkToDeath h si)) with
        last := Function.update w.last name (some r.node) } := by
  obtain ⟨hsi, rfl⟩ := hi.findSvc_some.1 hf
  obtain ⟨hrec, hold⟩ := sole_spec hs hr
  rw [SvcWorld.obey_write, SvcWorld.obey_write, SvcWorld.obey_setHandle]
  have hdeath : w.handle si ≠ h → r.death = none := fun hne => by
    cases hd : r.death with
    | none => rfl
    | some d =>
      obtain ⟨c, st⟩ := d
      obtain ⟨h1, h2⟩ := hrec c st hd
      rw [hf] at h2
      cases h2
      exact absurd (hi.cookie h r si st hr hd h1).2 hne
  by_cases h0 : w.handle si = 0
  · have hm : svcinfoDeath w.mgr si = w.mgr := if_neg (not_not.2 h0)
    rw [hm, SvcWorld.obey_self hi.out]
    exact (hi.weaken si).linked hsi h0 hr (hdeath fun he => hi.ne_zero hr (he.symm.trans h0))
  · rw [SvcWorld.obey_death hi.out h0]
    by_cases hh : w.handle si = h
    · rw [hh]
      have hsame := relinked hi hsi hh hr hmem
      rw [hsame]
      exact hi
    · obtain ⟨x, st, hx, hxd, -⟩ := hi.entry si hsi h0
      have hd := (hi.weaken si).death hsi h0 hx (Or.inr (hold si x hf h0 hh hx))
      have hz : ({ w.dec (w.handle si) true with mgr := w.mgr.setHandle si 0 } : SvcWorld).handle si =
          0 := (handle_setHandle w si 0 si).trans (if_pos rfl)
      have hr' : (w.dec (w.handle si) true).byDesc h = some r := by
        rw [SvcWorld.byDesc_dec_ne w true (Ne.symm hh), hr]
      have hl := hd.linked hsi hz hr' (hdeath hh)
      have hn : ({ w.dec (w.handle si) true with mgr := w.mgr.setHandle si 0 } : SvcWorld).nameOf si =
          w.nameOf si := nameOf_setHandle w si 0 si
      rw [hn] at hl
      rw [← SvcWorld.last_dec w (w.handle si) true]
      exact hl

theorem addNew (hi : SvcInv owner none w) {name : List ℕ} (hf : w.mgr.findSvc name = none)
    (hr : w.byDesc h = some r) (hs : w.sole name h = true) (allowIsolated : Bool) :
    SvcInv owner none { w.obey owner true (((newSvc w.mgr name h allowIsolated).write
      (.acquire h)).write (.linkToDeath h w.mgr.info.next)) with
        last := Function.update w.last name (some r.node) } := by
  have hdeath : r.death = none := by
    cases hd : r.death with
    | none => rfl
    | some d =>
      have hc := ((sole_spec hs hr).1 d.1 d.2 hd).2
      rw [hf] at hc
      cases hc
  have ha := hi.alloc (hi.findSvc_none hf) allowIsolated
  have hget : ({ w with mgr := newSvc w.mgr name 0 allowIsolated } : SvcWorld).mgr.info.get
      w.mgr.info.next = { handle := 0, allowIsolated := allowIsolated, name := name } :=
    w.mgr.info.get_alloc_self _
  have hl := ha.linked List.mem_cons_self (congrArg SvcInfo.handle hget) hr hdeath
  have hn : ({ w with mgr := newSvc w.mgr name 0 allowIsolated } : SvcWorld).nameOf
      w.mgr.info.next = name := congrArg SvcInfo.name hget
  rw [hn] at hl
  rw [SvcWorld.obey_write, SvcWorld.obey_write, SvcWorld.obey_newSvc, SvcWorld.obey_self hi.out,
    newSvc_eq]
  exact hl

theorem add (hi : SvcInv owner none w) {env : MacEnv} {name : List ℕ}
    (hmem : (h, true) ∈ w.buffers) (uid spid : ℕ) (allowIsolated malloc kzalloc : Bool)
    (hs : w.accepts env name h uid spid malloc = true → kzalloc = true ∧ w.sole name h = true) :
    SvcInv owner none (w.add env owner name h uid spid allowIsolated malloc kzalloc) := by
  obtain ⟨r, hr⟩ : ∃ r, w.byDesc h = some r := Option.ne_none_iff_exists'.1 (hi.held _ hmem)
  -- a call that is refused writes no command
  have hsame : SvcInv owner none (w.obey owner kzalloc w.mgr) := by
    rw [SvcWorld.obey_self hi.out]
    exact hi
  simp only [SvcWorld.add, doAddService, hr, Option.map_some]
  by_cases hbad : h = 0 ∨ name.length = 0 ∨ 127 < name.length
  · simp only [if_pos hbad]
    exact hsame
  simp only [if_neg hbad]
  cases hreg : svcCanRegister env name spid uid with
  | mk ok calls =>
    cases ok with
    | false => exact hsame
    | true =>
      have haddable : addable env name h uid spid = true := by
        simp only [addable, hreg, and_true, decide_eq_true_eq]
        omega
      simp only [SvcWorld.accepts, haddable, Bool.true_and] at hs
      cases hf : w.mgr.findSvc name with
      | some si =>
        obtain ⟨rfl, hsole⟩ := hs (by simp [hf])
        simp only [if_true, SvcWorld.last_obey]
        exact hi.addEntry hf hr hmem hsole
      | none =>
        cases malloc with
        | false => exact hsame
        | true =>
          obtain ⟨rfl, hsole⟩ := hs rfl
          simp only [if_true, SvcWorld.last_obey]
          exact hi.addNew hf hr hsole allowIsolated

/-- A name finds the handle of its entry, if permission is granted. -/
theorem finds (hi : SvcInv owner none w) {env : MacEnv} (hsi : si ∈ w.mgr.svclist) :
    w.Finds env (w.nameOf si) (w.handle si) := by
  intro uid spid hperm hiso
  have hf := hi.findSvc_some.2 ⟨hsi, rfl⟩
  simp only [doFindService, hf]
  by_cases h0 : (w.mgr.info.get si).handle = 0
  · rw [if_pos h0]
    exact h0.symm
  · rw [if_neg h0, if_neg fun h => hiso h.2]
    simp only [hperm, if_true]
    rfl

theorem namesTrack (hi : SvcInv owner none w) (hset : w.Settled) (env : MacEnv) :
    w.NamesTrack env owner := by
  intro name
  cases hf : w.mgr.findSvc name with
  | none =>
    rw [hi.never name (hi.findSvc_none hf)]
    intro uid spid _ _
    simp [doFindService, hf]
  | some si =>
    obtain ⟨hsi, rfl⟩ := hi.findSvc_some.1 hf
    by_cases h0 : w.handle si = 0
    · obtain ⟨n, h1, h2⟩ := hi.empty si hsi nofun h0
      simp only [h1, h2, if_true]
      exact h0 ▸ hi.finds hsi
    · obtain ⟨r, st, hr, hd, hl⟩ := hi.entry si hsi h0
      obtain ⟨hdel, hlast⟩ := hl nofun
      have hidle : st = .idle := by
        have hq := hset _ r hr
        rw [hd] at hq
        cases st <;> simp_all
      simp only [hlast, (hi.state _ r si st hr hd).1 hidle, Bool.false_eq_true, if_false]
      exact ⟨_, r, h0, hr, rfl, hi.finds hsi⟩

end SvcInv

variable {env : MacEnv} {owner : ℕ → ℕ}

theorem svcInv_start : SvcInv owner none {} := by
  constructor <;> first | rfl | (intros; simp_all)

theorem svcInv_step {w : SvcWorld} (hi : SvcInv owner none w) (a : SvcStep)
    (ha : addsSole env w a) :
    SvcInv owner none ((svcWorld env owner).step w a) := by
  cases a with
  | receive n h b => exact hi.receive n h b
  | free h b =>
    simp only [svcWorld]
    split_ifs with hmem
    · exact hi.free hmem
    · exact hi
  | add name h uid spid allowIsolated malloc kzalloc =>
    simp only [svcWorld]
    split_ifs with hmem
    · exact hi.add hmem uid spid allowIsolated malloc kzalloc ha
    · exact hi
  | die p => exact hi.die p
  | notice h =>
    simp only [svcWorld]
    split
    · exact hi
    · split
      · rename_i r hr _ si hd
        exact hi.notice hr hd
      · exact hi

/-- If every service is added with a death record of its own, its name tracks its life. -/
theorem svcWorld_namesTrack {w : SvcWorld} (h : (svcWorld env owner).Reach (addsSole env) w)
    (hset : w.Settled) : w.NamesTrack env owner := by
  have hi : SvcInv owner none w := by
    refine h.invariant (fun w hw => ?_) fun w a hi ha => svcInv_step hi a ha
    cases hw
    exact svcInv_start
  exact hi.namesTrack hset env

/-- A service of process 7 is added, another of process 8 takes its name, an app is refused another
name for it, and process 7 dies. -/
def overrideRun : List SvcStep :=
  [.receive 7 1 true, .add [65] 1 0 0 true true true, .free 1 true, .receive 8 2 true,
    .add [65] 2 0 0 true true true, .add [66] 2 10000 0 true true false, .free 2 true, .die 7]

def afterOverride : SvcWorld := (svcWorld {} id).exec {} overrideRun

theorem byDesc_afterOverride : ∀ h, afterOverride.byDesc h =
    if h = 2 then some { node := 8, strong := 1, death := some (0, .idle) } else none
  | 0 => rfl
  | 1 => rfl
  | 2 => rfl
  | _ + 3 => rfl

theorem svcWorld_namesTrack_override : afterOverride.NamesTrack {} id := by
  refine svcWorld_namesTrack (.exec (.start rfl) (by decide +kernel)) fun h r hr => ?_
  rw [byDesc_afterOverride] at hr
  split_ifs at hr
  cases hr
  rfl

/-- One service is added under two names, and its process dies. -/
def twoNamesRun : List SvcStep :=
  [.receive 7 1 true, .add [65] 1 0 0 true true true, .add [66] 1 0 0 true true true, .free 1 true,
    .die 7, .notice 1]

def afterTwoNames : SvcWorld := (svcWorld {} id).exec {} twoNamesRun

theorem byDesc_afterTwoNames : ∀ h, afterTwoNames.byDesc h =
    if h = 1 then some { node := 7, strong := 1, death := some (0, .delivered) } else none
  | 0 => rfl
  | 1 => rfl
  | _ + 2 => rfl

/-- The second name still leads to the dead service. -/
theorem svcWorld_twoNames : ¬∀ w, (svcWorld {} id).Reach (fun _ _ => True) w → w.Settled →
    w.NamesTrack {} id := by
  intro hall
  have hreach : (svcWorld {} id).Reach (fun _ _ => True) afterTwoNames := by
    refine .exec (.start rfl) ?_
    simp [Machine.Admits, twoNamesRun]
  have hset : afterTwoNames.Settled := fun h r hr => by
    rw [byDesc_afterTwoNames] at hr
    split_ifs at hr
    cases hr
    rfl
  have htrack := hall _ hreach hset [66]
  have hlast : afterTwoNames.last [66] = some 7 := by decide +kernel
  have hdead : afterTwoNames.dead (id 7) = true := by decide +kernel
  rw [hlast] at htrack
  simp only [hdead, if_true] at htrack
  have hfind := htrack 0 0 (by decide +kernel) (by decide +kernel)
  revert hfind
  decide +kernel

end Binder

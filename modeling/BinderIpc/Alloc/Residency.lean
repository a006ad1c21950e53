import BinderIpc.Alloc.PageMerge
import BinderIpc.Alloc.Live

/-! Residency of pages over runs: the invariant of the pages, and what it says in
the words of the source. -/

namespace Binder

section

variable {L : Layout} {rb : RbTree ℕ} {p : BinderArea} {b : BinderBuffer} {env : PageEnv}

/-- A write that leaves the extents alone leaves the holes alone. -/
theorem hole_map {g : BinderBuffer → BinderBuffer} (hg : ∀ b, SameExtent b (g b)) {limit q : ℕ}
    (l : List BinderBuffer) : Hole L limit (l.map g) q ↔ Hole L limit l q := by
  induction l with
  | nil => exact Iff.rfl
  | cons b l ih =>
    have haddrs : (l.map g).map (·.addr) = l.map (·.addr) := by
      simp [Function.comp_def, (hg _).addr]
    simp only [List.map_cons, Hole, ih, (hg b).free, (hg b).addr, haddrs]

theorem Layout.dvd_cap : L.page ∣ 0x400000 := by
  obtain ⟨k, hk⟩ := L.page_pow
  have hle := L.page_le
  have h22 : (0x400000 : ℕ) = 2 ^ 22 := rfl
  rw [hk, h22] at hle ⊢
  exact pow_dvd_pow 2 ((Nat.pow_le_pow_iff_right (by decide)).1 hle)

/-- A page boundary before another one is a page before it. -/
theorem add_page_le {x y : ℕ} (hx : L.page ∣ x) (hy : L.page ∣ y) (h : x < y) : x + L.page ≤ y := by
  have := (Layout.lt_add_page hy hx).not.2 (not_le.2 h)
  omega

/-- Around a single free header at the start of the area there is one page. -/
theorem hole_single {i : ℕ} (hs : L.page ∣ p.bufferSize)
    (hlt : i * L.page < p.bufferSize) (hl : p.buffers = [b]) (ha : b.addr = p.buffer)
    (hf : b.free = true) : ¬Hole L p.limit p.buffers (p.pageAddr L i) ↔ i = 0 := by
  have hpos := L.hdr_pos
  have hhdr := L.hdr_lt
  have hle := add_page_le (L := L) (Dvd.intro_left i rfl) hs hlt
  simp only [hl, Hole, hf, ha, BinderArea.pageAddr, BinderArea.limit, List.map_nil, startOf_nil,
    true_and, or_false]
  cases i with
  | zero => simp only [Nat.zero_mul, iff_true]; omega
  | succ i =>
    rw [Nat.succ_mul] at hle ⊢
    omega

theorem binderMmap_pages {base size : ℕ} (hmap : Mapped L base size)
    (h : binderMmap L rb base size env = some p) : PagesInv L p := by
  have hdvd : L.page ∣ min size 0x400000 := by
    rcases min_choice size 0x400000 with hc | hc <;> rw [hc]
    · exact hmap.size_dvd
    · exact Layout.dvd_cap
  simp only [binderMmap] at h
  have hs := sameHeaders_updatePageRange L
    { buffer := base, bufferSize := min size 0x400000 } true base (base + L.page) true env
  split at h
  · cases h
  · rename_i q hq
    rw [hq] at hs
    obtain ⟨hbase, hsz, -, -, -, -, -⟩ : SameHeaders _ q := hs
    obtain ⟨hbug, hpages⟩ := updatePageRange_alloc
      (p := { buffer := base, bufferSize := min size 0x400000 }) hmap.base_dvd hmap.base_dvd
      (Dvd.dvd.add hmap.base_dvd dvd_rfl) le_rfl (fun _ _ _ => rfl) hq
    cases h
    refine ⟨hbase ▸ hmap.base_dvd, hsz ▸ hdvd, fun i hlt => ?_, (pageBug_congr rfl).trans
      ((pageBug_insertFree (R := rb)).trans ((pageBug_congr rfl).trans hbug))⟩
    have hpg : q.pages i = true ↔ i = 0 := by
      rw [hpages]
      simp only [Bool.false_eq_true, BinderArea.pageAddr, false_or, true_and,
        Nat.add_lt_add_iff_left]
      have := L.page_pos
      rcases Nat.eq_zero_or_pos i with rfl | hi
      · simp [this]
      · have := Nat.le_mul_of_pos_left L.page hi
        omega
    change q.pages i = true ↔ ¬Hole L q.limit [_] (q.pageAddr L i)
    rw [hpg]
    exact (hole_single (p := { q with buffers := [{ addr := base, free := true }] })
      (hsz ▸ hdvd) hlt rfl hbase.symm rfl).symm

theorem PagesInv.apply {op : AreaOp} (hi : AreaInv L p) (hp : PagesInv L p) (hok : op.Ok L p) :
    PagesInv L (op.apply L rb p) := by
  cases op with
  | alloc d o isAsync env => exact binderAllocBuf_pages hi hp hok.1 hok.2
  | free a env => exact binderFreeBuf_pages hi hp hok
  | fill a f =>
    refine ⟨hp.base_dvd, hp.size_dvd, fun i hlt => (hp.present i hlt).trans (not_congr ?_),
      (pageBug_congr rfl).trans hp.noBug⟩
    exact (hole_map (fun b => (hok b).ite) p.buffers).symm
  | vmaClose => exact ⟨hp.base_dvd, hp.size_dvd, hp.present, (pageBug_congr rfl).trans hp.noBug⟩

theorem areaReach_pages (h : AreaReach L rb p) : PagesInv L p :=
  Machine.Reach.invariant_of (fun _ => areaReach_inv)
    (fun _ ⟨_, _, _, hm, hs⟩ => binderMmap_pages hm hs)
    (fun _ _ hi _ hp hok => hp.apply hi hok) h

end

/-! Every page is part of a header or lies inside one gap -/

section

variable (L : Layout)

/-- The page at `q` contains a byte of the header of `b`. -/
def Touches (b : BinderBuffer) (q : ℕ) : Prop := b.addr < q + L.page ∧ q < b.addr + L.hdr

/-- The page at `q` lies in the page-rounded data region of `b`. -/
def InData (p : BinderArea) (b : BinderBuffer) (q : ℕ) : Prop :=
  L.pageAlign (bufData L b.addr) ≤ q ∧
    q + L.page ≤ L.pageMask (bufData L b.addr + binderBufferSize L p b.addr)

/-- Frees of the buffers at these addresses, each with what the page layer answers. -/
def frees (as : List (ℕ × PageEnv)) : List AreaOp := as.map fun x => .free x.1 x.2

structure PagesResident (rb : RbTree ℕ) (p : BinderArea) : Prop where
  present : ∀ i, i * L.page < p.bufferSize → (p.pages i = true ↔
    (∃ b ∈ p.buffers, Touches L b (p.pageAddr L i)) ∨
      ∃ b ∈ p.buffers, b.free = false ∧ InData L p b (p.pageAddr L i))
  absent : ∀ i, i * L.page < p.bufferSize → (p.pages i = false ↔
    ∃ b ∈ p.buffers, b.free = true ∧ InData L p b (p.pageAddr L i))
  noPagePresent : .pagePresent ∉ p.bugs
  noPageAbsent : .pageAbsent ∉ p.bugs
  allFree : (∀ b ∈ p.buffers, b.free = true) →
    ∀ i, i * L.page < p.bufferSize → (p.pages i = true ↔ i = 0)
  /-- all buffers are freed, in any order -/
  allFreed : ∀ as : List (ℕ × PageEnv), (as.map (·.1)).Perm (addrsWhere (!·.free) p.buffers) →
    ∀ i, i * L.page < p.bufferSize → (((areaMachine L rb).exec p (frees as)).pages i = true ↔ i = 0)

variable {L} {p : BinderArea} {rb : RbTree ℕ} {limit q : ℕ} {l pre post : List BinderBuffer}
  {b : BinderBuffer}

theorem hole_exists : Hole L limit l q ↔ ∃ pre b post, l = pre ++ b :: post ∧ b.free = true ∧
    b.addr + L.hdr ≤ q ∧ q + L.page ≤ startOf limit (post.map (·.addr)) := by
  induction l with
  | nil => simp [Hole]
  | cons c l ih =>
    simp only [Hole, ih]
    constructor
    · rintro (h | ⟨pre, b, post, rfl, h⟩)
      · exact ⟨[], c, l, rfl, h⟩
      · exact ⟨c :: pre, b, post, rfl, h⟩
    · rintro ⟨pre, b, post, hl, h⟩
      cases pre with
      | nil =>
        obtain ⟨rfl, rfl⟩ := List.cons.inj hl
        exact Or.inl h
      | cons x pre => exact Or.inr ⟨pre, b, post, (List.cons.inj hl).2, h⟩

theorem touches_or_gap (h0 : startOf limit (l.map (·.addr)) ≤ q) (hq : q + L.page ≤ limit) :
    (∃ b ∈ l, Touches L b q) ∨ ∃ pre b post, l = pre ++ b :: post ∧ b.addr + L.hdr ≤ q ∧
      q + L.page ≤ startOf limit (post.map (·.addr)) := by
  have hpage := L.page_pos
  induction l with
  | nil =>
    simp only [List.map_nil, startOf_nil] at h0
    omega
  | cons b l ih =>
    simp only [List.map_cons, startOf_cons] at h0
    by_cases h1 : q < b.addr + L.hdr
    · exact Or.inl ⟨b, List.mem_cons_self, by omega, h1⟩
    · by_cases h2 : q + L.page ≤ startOf limit (l.map (·.addr))
      · exact Or.inr ⟨[], b, l, rfl, by omega, h2⟩
      · by_cases h3 : startOf limit (l.map (·.addr)) ≤ q
        · rcases ih h3 with ⟨c, hc, ht⟩ | ⟨pre, c, post, rfl, h⟩
          · exact Or.inl ⟨c, List.mem_cons_of_mem _ hc, ht⟩
          · exact Or.inr ⟨b :: pre, c, post, rfl, h⟩
        · -- the next header begins inside the page
          cases l with
          | nil => simp only [List.map_nil, startOf_nil] at h2; omega
          | cons c l =>
            simp only [List.map_cons, startOf_cons] at h2 h3
            exact Or.inl ⟨c, by simp, by omega, by omega⟩

/-- A page inside a gap contains no byte of a header, and no page is in two gaps. -/
theorem AreaInv.gap_unique (hi : AreaInv L p) (hs : p.buffers = pre ++ b :: post)
    (h1 : b.addr + L.hdr ≤ q) (h2 : q + L.page ≤ startOf p.limit (post.map (·.addr)))
    {c : BinderBuffer} (hc : c ∈ p.buffers) (hlt : c.addr < q + L.page)
    (hle : q < bufData L c.addr + binderBufferSize L p c.addr) : c = b := by
  have hpage := L.page_pos
  have hdis := hi.represents.disjoint
  have ht := hi.split_tiled L hs
  have hb : b ∈ p.buffers := by simp [hs]
  have hc' := hc
  rw [hs, List.mem_append, List.mem_cons] at hc'
  rcases hc' with h | h | h
  · have := ht.le_of_mem_pre (List.mem_map_of_mem (f := (·.addr)) h)
    have := hdis c hc b hb (by have := L.hdr_pos; omega)
    omega
  · exact h
  · have := (ht.suffix.sublist (List.sublist_cons_self _ _)).startOf_le_of_mem
      (List.mem_map_of_mem (f := (·.addr)) h)
    omega

theorem inData_iff (hq : L.page ∣ q) : InData L p b q ↔
    b.addr + L.hdr ≤ q ∧ q + L.page ≤ bufData L b.addr + binderBufferSize L p b.addr := by
  rw [InData, Layout.pageAlign_le hq, Layout.le_pageMask (Dvd.dvd.add hq dvd_rfl), bufData]

theorem AreaInv.hole_iff_inData (hi : AreaInv L p) (hq : L.page ∣ q) :
    Hole L p.limit p.buffers q ↔ ∃ b ∈ p.buffers, b.free = true ∧ InData L p b q := by
  simp only [hole_exists, inData_iff hq]
  constructor
  · rintro ⟨pre, b, post, hs, hf, h1, h2⟩
    exact ⟨b, by simp [hs], hf, h1, by rwa [hi.split_size hs]⟩
  · rintro ⟨b, hb, hf, h1, h2⟩
    obtain ⟨pre, post, hs⟩ := List.append_of_mem hb
    exact ⟨pre, b, post, hs, hf, h1, by rwa [hi.split_size hs] at h2⟩

/-- Without a free neighbour on either side, free buffers alone make one buffer. -/
theorem AreaInv.single (hi : AreaInv L p) (hf : ∀ b ∈ p.buffers, b.free = true) :
    ∃ b, p.buffers = [b] ∧ b.addr = p.buffer := by
  have hs := hi.starts
  have hc := hi.coalesced
  match hl : p.buffers with
  | [] => simp [hl] at hs
  | [b] => exact ⟨b, rfl, by simpa [hl] using hs⟩
  | b :: c :: l =>
    rw [hl, List.isChain_cons] at hc
    exact absurd ⟨hf b (by simp [hl]), hf c (by simp [hl])⟩ (hc.1 c (by simp))

theorem PagesInv.allFree (hp : PagesInv L p) (hi : AreaInv L p) (hf : ∀ b ∈ p.buffers, b.free = true)
    {i : ℕ} (hlt : i * L.page < p.bufferSize) : p.pages i = true ↔ i = 0 := by
  obtain ⟨b, hl, ha⟩ := hi.single hf
  rw [hp.present i hlt]
  exact hole_single hp.size_dvd hlt hl ha (hf b (by simp [hl]))

/-- A free takes one address out of those of the allocated buffers. -/
theorem AreaInv.perm_free (hi : AreaInv L p) {a : ℕ} {env : PageEnv} {as : List ℕ}
    (has : (a :: as).Perm (addrsWhere (!·.free) p.buffers)) :
    as.Perm (addrsWhere (!·.free) (binderFreeBuf L rb p a env).buffers) := by
  have hnodup : (a :: as).Nodup := by
    refine has.nodup_iff.2 (List.Nodup.sublist (addrsWhere_sublist _) ?_)
    exact (hi.tiled.pairwise_lt L.hdr_pos).imp fun h => h.ne
  obtain ⟨b, hb, hf, rfl⟩ := mem_addrsWhere.1 (has.mem_iff.1 List.mem_cons_self)
  have hlive : (liveAt p b.addr).isSome := by
    rw [hi.liveAt_eq hb (by simpa using hf)]
    rfl
  have hafter : addrsWhere (!·.free) (binderFreeBuf L rb p b.addr env).buffers =
      (addrsWhere (!·.free) p.buffers).filter (· ≠ b.addr) := by
    change (liveBuffers (binderFreeBuf L rb p b.addr env).buffers).map (·.addr) =
      ((liveBuffers p.buffers).map (·.addr)).filter (· ≠ b.addr)
    rw [binderFreeBuf_liveBuffers hi hlive, List.filter_map]
    rfl
  have hrest : (b.addr :: as).filter (· ≠ b.addr) = as := by
    rw [List.filter_cons_of_neg (by simp), List.filter_eq_self]
    intro a ha
    have hne : a ≠ b.addr := fun he => (List.nodup_cons.1 hnodup).1 (he ▸ ha)
    simpa using hne
  rw [hafter, ← hrest]
  exact has.filter _

/-- When every allocated buffer was freed there is none left. -/
theorem PagesInv.freed (hp : PagesInv L p) (hi : AreaInv L p) {as : List (ℕ × PageEnv)}
    (has : (as.map (·.1)).Perm (addrsWhere (!·.free) p.buffers)) {i : ℕ}
    (hlt : i * L.page < p.bufferSize) :
    ((areaMachine L rb).exec p (frees as)).pages i = true ↔ i = 0 := by
  induction as generalizing p with
  | nil =>
    refine hp.allFree hi (fun b hb => ?_) hlt
    by_contra hf
    have hmem : b.addr ∈ addrsWhere (!·.free) p.buffers :=
      mem_addrsWhere.2 ⟨b, hb, by simpa using hf, rfl⟩
    exact absurd (has.mem_iff.2 hmem) List.not_mem_nil
  | cons x as ih =>
    obtain ⟨a, env⟩ := x
    have hmem : a ∈ addrsWhere (!·.free) p.buffers := has.mem_iff.1 List.mem_cons_self
    obtain ⟨b, hb, -, rfl⟩ := mem_addrsWhere.1 hmem
    have hsize : (binderFreeBuf L rb p b.addr env).bufferSize = p.bufferSize :=
      (binderFreeBuf_space (hi.bufferAt_eq hb)).2
    exact ih (binderFreeBuf_pages hi hp hmem) (binderFreeBuf_inv L rb hi hmem) (hi.perm_free has)
      (hsize ▸ hlt)

theorem PagesInv.absent (hp : PagesInv L p) (hi : AreaInv L p) {i : ℕ}
    (hlt : i * L.page < p.bufferSize) :
    p.pages i = false ↔ ∃ b ∈ p.buffers, b.free = true ∧ InData L p b (p.pageAddr L i) := by
  rw [← hi.hole_iff_inData (hp.dvd_pageAddr i), Bool.eq_false_iff, ne_eq, hp.present i hlt, not_not]

theorem PagesInv.resident (hi : AreaInv L p) (hp : PagesInv L p) : PagesResident L rb p := by
  have hbug := hp.noBug
  simp only [BinderArea.pageBug, List.any_eq_false, Bool.or_eq_true, decide_eq_true_eq] at hbug
  refine ⟨fun i hlt => ⟨fun h => ?_, fun h => ?_⟩, fun i hlt => hp.absent hi hlt,
    fun h => hbug _ h (Or.inl rfl), fun h => hbug _ h (Or.inr rfl), fun hf i hlt => hp.allFree hi hf hlt,
    fun as has i hlt => hp.freed hi has hlt⟩
  · have hlow : startOf p.limit (p.buffers.map (·.addr)) ≤ p.pageAddr L i := by
      obtain ⟨b, l, hl⟩ := List.exists_cons_of_ne_nil
        (show p.buffers ≠ [] by intro h; have := hi.starts; simp [h] at this)
      have := hi.starts
      simp only [hl, List.map_cons, List.head?_cons, Option.some.injEq] at this
      simp only [hl, List.map_cons, startOf_cons, this, BinderArea.pageAddr]
      omega
    have hhigh : p.pageAddr L i + L.page ≤ p.limit := by
      have := add_page_le (L := L) (Dvd.intro_left i rfl) hp.size_dvd hlt
      unfold BinderArea.pageAddr BinderArea.limit
      omega
    rcases touches_or_gap hlow hhigh with ht | ⟨pre, b, post, hs, h1, h2⟩
    · exact Or.inl ht
    · have hd : InData L p b (p.pageAddr L i) :=
        (inData_iff (hp.dvd_pageAddr i)).2 ⟨h1, by rwa [hi.split_size hs]⟩
      have hb : b ∈ p.buffers := by simp [hs]
      cases hf : b.free with
      | false => exact Or.inr ⟨b, hb, hf, hd⟩
      | true => simp [(hp.absent hi hlt).2 ⟨b, hb, hf, hd⟩] at h
  · rw [hp.present i hlt]
    intro hhole
    obtain ⟨pre, c, post, hs, hcf, h1, h2⟩ := hole_exists.1 hhole
    rcases h with ⟨b, hb, ht⟩ | ⟨b, hb, hf, hd⟩
    · obtain rfl := hi.gap_unique hs h1 h2 hb ht.1 (by have := ht.2; unfold bufData; omega)
      have := ht.2
      omega
    · have hd := (inData_iff (hp.dvd_pageAddr i)).1 hd
      have hpage := L.page_pos
      obtain rfl := hi.gap_unique hs h1 h2 hb (by omega) (by omega)
      simp [hcf] at hf

theorem areaReach_resident (h : AreaReach L rb p) : PagesResident L rb p :=
  (areaReach_pages h).resident (areaReach_inv h)

/-- The page of a header that straddles two pages goes with its buffer, and in the end the first
page is the only one. -/
theorem areaReach_resident_freed : ∃ p, area32 = some p ∧
    PagesResident layout32 .plain ((areaMachine layout32 .plain).exec p
      [.alloc 4040 0 false {}, .alloc 5000 8 false {}, .free 0x10000 {}]) ∧
    (List.range 8).filter ((areaMachine layout32 .plain).exec p
      [.alloc 4040 0 false {}, .alloc 5000 8 false {}, .free 0x10000 {}, .free 0x10ff0 {}]).pages =
      [0] := by
  obtain ⟨p, hp, hstart, rfl⟩ := area32_start
  refine ⟨_, hp, areaReach_resident ((Machine.Reach.start hstart).exec ?_), by decide +kernel⟩
  refine ⟨⟨by decide, by decide⟩, ⟨by decide, by decide⟩, ?_, trivial⟩
  simp only [AreaOp.Ok]
  decide

end

end Binder

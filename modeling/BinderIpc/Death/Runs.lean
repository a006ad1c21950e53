import BinderIpc.Death.Steps
import BinderIpc.Txn.Release
import BinderIpc.Driver.Threads

/-! Death notifications over runs: what the process is told, in which order, and
that nothing it waits for is forgotten. -/

namespace Binder

variable {K : DeathScope} {s s' : Driver} {d : ℕ} {l : ListHead} {X P : ℕ → Prop}

/-- A record gets onto a list because it is put there or delivered. -/
theorem DeathStep.on_new (hs : DeathStep K s s') (hon : s'.On l d) :
    s.On l d ∨ K.puts l ∨ ∃ p, l = .deliveredDeath p := by
  have hput : ∀ {s₁ : Driver} {d₁ : ℕ} {l₁ : ListHead} (type : DeathWork),
      (s₁.modObj (putDeath · d₁ type l₁)).On l d → (s₁.On l d → s.On l d) → K.puts l₁ →
        s.On l d ∨ K.puts l ∨ ∃ p, l = .deliveredDeath p := fun type h h₁ hK => by
    rcases Queues.mem_addTail.1 h with h | ⟨rfl, -⟩
    · exact Or.inl (h₁ h)
    · exact Or.inr (Or.inl hK)
  cases hs with
  | quiet h => exact Or.inl ((h.links.entry l d).1 hon)
  | link h =>
    cases h with
    | same h => exact Or.inl ((h.entry l d).1 hon)
    | newNode _ _ _ => exact Or.inl hon
    | newRef _ _ => exact Or.inl hon
    | deleteRef _ => exact Or.inl (((binderDeleteRef_unlinked _ _).entry l d).1 hon).1
  | orphan _ _ _ _ _ _ => exact Or.inl hon
  | request _ _ _ _ => exact Or.inl hon
  | requestDead _ _ _ _ _ hK => exact hput _ hon id hK
  | notice _ _ _ _ _ hK => exact hput _ hon id hK
  | clearOn _ _ => exact Or.inl hon
  | clearOff _ _ _ hK => exact hput _ hon id hK
  | answer _ _ => exact Or.inl (Queues.mem_del.1 hon).1
  | answerClear _ _ _ hK => exact hput _ hon (fun h => (Queues.mem_del.1 h).1) hK
  | tell _ _ _ _ =>
    rcases Queues.mem_moveHead.1 hon with h | ⟨rfl, -⟩
    · exact Or.inl h.1
    · exact Or.inr (Or.inr ⟨_, rfl⟩)
  | tellClear _ _ _ => exact Or.inl (Queues.mem_del.1 hon).1
  | @throw l₁ d₁ _ _ _ =>
    by_cases hd : d = d₁
    · subst hd
      have hdel : (unqueue s (.death d)).On l d := by
        have htodo := releaseItem_todo (unqueue s (.death d)) (.death d)
        unfold Driver.On at hon ⊢
        rwa [htodo] at hon
      exact absurd rfl (Queues.mem_del.1 hdel).2
    · exact Or.inl ((onlyRecord_throw.entry l d hd).1 hon)

theorem Deaths.on_new (hs : Deaths K s s') (hon : s'.On l d) :
    s.On l d ∨ K.puts l ∨ ∃ p, l = .deliveredDeath p := by
  induction hs with
  | refl => exact Or.inl hon
  | tail _ hs ih =>
    rcases hs.on_new hon with h | h
    · exact ih h
    · exact Or.inr h

/-! Nothing is forgotten -/

/-- A record of a process outside `P` waits on a list while the process has to be told
something, but for references to the nodes in `X`. -/
structure Remembered (X P : ℕ → Prop) (s : Driver) (d : ℕ) : Prop where
  noticed : ∀ r, s.Attached r d → ¬X (s.obj.ref.get r).node → ¬P (s.obj.death.get d).proc →
    s.NodeDead r → ¬s.Told d → ∃ l, s.On l d
  clearing : ¬P (s.obj.death.get d).proc → .deathCleared d ∈ s.history → ¬s.ToldClear d →
    ∃ l, s.On l d

theorem Remembered.of_on (hon : s.On l d) : Remembered X P s d :=
  ⟨fun _ _ _ _ _ _ => ⟨l, hon⟩, fun _ _ _ => ⟨l, hon⟩⟩

theorem Remembered.mono {X' : ℕ → Prop} (h : Remembered X P s d) (hX : ∀ n, X n → X' n) : Remembered X' P s d :=
  ⟨fun r hr hx => h.noticed r hr fun h => hx (hX _ h), h.clearing⟩

theorem Remembered.congr (h : Remembered X P s d) (hs : SameRecord s s' d)
    (hnode : ∀ r, s.Attached r d → (s'.obj.ref.get r).node = (s.obj.ref.get r).node)
    (hdead : ∀ r, s.Attached r d → s'.NodeDead r → s.NodeDead r ∨ X (s.obj.ref.get r).node) :
    Remembered X P s' d where
  noticed r hr hx hp hd ht := by
    have hr' := (hs.attached r).1 hr
    rw [hnode r hr'] at hx
    rw [hs.death] at hp
    obtain ⟨l, hl⟩ := h.noticed r hr' hx hp ((hdead r hr' hd).resolve_right hx)
      fun h1 => ht (hs.told.2 h1)
    exact ⟨l, (hs.on l).2 hl⟩
  clearing hp hc ht := by
    rw [hs.death] at hp
    obtain ⟨l, hl⟩ := h.clearing hp (hs.cleared.1 hc) fun h1 => ht (hs.toldClear.2 h1)
    exact ⟨l, (hs.on l).2 hl⟩

theorem Remembered.only {d₀ : ℕ} (h : Remembered X P s d) (ho : OnlyRecord s s' d₀) (hne : d ≠ d₀) :
    Remembered X P s' d :=
  h.congr (ho.same hne) (fun r _ => congrArg (·.node) (ho.ref r)) fun r _ hd =>
    Or.inl ((ho.nodeDead r).1 hd)

theorem Remembered.undying (h : Remembered X P s d) (hq : Undying s s') : Remembered X P s' d := by
  refine h.congr hq.same (fun r _ => hq.links.refNode r) fun r _ hd => Or.inl ?_
  unfold Driver.NodeDead at hd ⊢
  rwa [hq.links.refNode, hq.links.proc] at hd

theorem Remembered.link {o : Objects} (h : Remembered X P s d) (hi : DeathInv s) (hl : LinkStep s.obj o) :
    Remembered X P { s with obj := o } d := by
  cases hl with
  | same hl => exact h.undying ⟨hl, ⟨[], by simp, by simp⟩, le_rfl, fun _ _ => rfl⟩
  | newNode key hproc hrefs =>
    refine h.congr (sameRecord_newNode hi.links _ key) (fun _ _ => rfl) fun r hr hd => Or.inl ?_
    exact (congrArg BinderNode.proc
      (s.obj.node.get_alloc_ne _ _ (hi.links.node_lt hr).ne)).symm.trans hd
  | @newRef p n hn hnone =>
    have hget : ∀ r, s.Attached r d → (newRef s.obj p n).ref.get r = s.obj.ref.get r := fun r hr =>
      s.obj.ref.get_alloc_ne r _ ((hi.links.table _).below r hr.1).ne
    refine h.congr (sameRecord_newRef hi.links p n) (fun r hr => by rw [hget r hr])
      fun r hr hd => Or.inl ?_
    unfold Driver.NodeDead at hd
    rw [hget r hr, proc_newRef] at hd
    exact hd
  | @deleteRef p r hr =>
    by_cases hd : (s.obj.ref.get r).death = some d
    · -- the record goes, and it was not cleared
      have hself : s.Attached r d := ⟨(hi.links.table p).owner r hr ▸ hr, hd⟩
      refine ⟨fun r' hr' => ?_, fun _ hc => absurd hc ((hi.record d).wanted r hself).1⟩
      obtain ⟨hrr, ha⟩ := (attached_deleteRef hi.links hr r').1 hr'
      exact absurd ((hi.record d).unique r' r ha hself) hrr
    · have hu := binderDeleteRef_unlinked s.obj r
      refine h.congr (sameRecord_deleteRef hi.links hr hd) (fun r' _ => hu.refNode r')
        fun r' _ hn => Or.inl ?_
      unfold Driver.NodeDead at hn ⊢
      rwa [hu.refNode, hu.proc] at hn

/-- What a step makes of a record, when what it throws away is of the processes in `P`. -/
theorem DeathStep.remembered (hs : DeathStep K s s') (hi : DeathInv s) (hX : ∀ n, K.orphans n → X n)
    (hP : ∀ p, K.throws p → P p) (h : ∀ d, Remembered X P s d) (d : ℕ) : Remembered X P s' d := by
  have hone : ∀ {s' : Driver} {d₀ : ℕ}, OnlyRecord s s' d₀ → Remembered X P s' d₀ →
      Remembered X P s' d := fun {s' d₀} honly h₀ => by
    by_cases hd : d = d₀
    · exact hd ▸ h₀
    · exact (h d).only honly hd
  cases hs with
  | quiet hq => exact (h d).undying hq
  | link hl => exact (h d).link hi hl
  | @orphan n f hrefs hproc hrel hown hK =>
    refine (h d).congr (sameRecord_orphan hproc) (fun _ _ => rfl) fun r hr hd => ?_
    by_cases hn : (s.obj.ref.get r).node = n
    · exact Or.inr (hn ▸ hX n hK)
    · refine Or.inl ?_
      exact (congrArg BinderNode.proc (s.obj.node.get_modify_ne n _ f hn)).symm.trans hd
  | @request r cookie hr hnone halive =>
    have honly := onlyRecord_requested (r := r) cookie hnone
    have hrec := RecordInv.request hi.record cookie hr hnone
    refine hone honly ⟨fun r' hr' _ _ hd => ?_, fun _ hc => ?_⟩
    · have hself : (requested s r cookie).Attached r s.obj.death.next := by
        refine ⟨(honly.live r).2 hr, ?_⟩
        simp [requested, Driver.note, Driver.modObj, Objects.modRef]
      rw [hrec.unique r' r hr' hself] at hd
      exact absurd ((honly.nodeDead r).1 hd) halive
    · have hnot := ((hi.record s.obj.death.next).unborn le_rfl).2.2.2.2.2.1
      exact absurd (by simpa [requested, Driver.note, Driver.modObj] using hc) hnot
  | @requestDead r l cookie hr hnone hdead hl _ =>
    refine hone ((onlyRecord_requested cookie hnone).trans
      (onlyRecord_put _ (p := (s.obj.ref.get r).proc) hl)) (.of_on (l := l) ?_)
    exact Queues.mem_addTail.2 (Or.inr ⟨rfl, rfl⟩)
  | notice hr hoff hdead htold hl _ =>
    exact hone (onlyRecord_put _ hl) (.of_on ((on_put _ hoff).2 rfl))
  | @clearOn r d l hr hon =>
    refine hone ((onlyRecord_detached hr).trans
      ((onlyRecord_bugOn _ (by decide)).trans (onlyRecord_modDeath _))) (.of_on (l := l) ?_)
    exact hon
  | @clearOff r d l hr hoff hl _ =>
    refine hone ((onlyRecord_detached hr).trans
      (onlyRecord_put _ (p := (s.obj.ref.get r).proc) hl)) (.of_on (l := l) ?_)
    exact Queues.mem_addTail.2 (Or.inr ⟨rfl, rfl⟩)
  | @answer p d hon htype =>
    -- the record stays with a reference, and the process was told
    have hrec := hi.record d
    have hon' : s.On (.deliveredDeath (s.obj.death.get d).proc) d :=
      (hrec.delivered_proc hon).symm ▸ hon
    have htold := hrec.delivered hon'
    obtain ⟨r, hr⟩ : ∃ r, s.Attached r d := by
      by_contra hnone
      rcases (hrec.cleared (fun r hr => hnone ⟨r, hr⟩) _ hon).2 with he | he
      · exact htype he
      · exact htold.2 he
    refine hone onlyRecord_afterAnswer ⟨fun _ _ _ _ _ ht => absurd (told_afterAnswer.2 htold.1) ht,
      fun _ hc => ?_⟩
    exact absurd ((mem_afterAnswer.1 hc).resolve_right fun he => by cases he) (hrec.wanted r hr).1
  | @answerClear p d l hon htype hl _ =>
    refine hone (onlyRecord_afterAnswer.trans (onlyRecord_put _ (p := p) hl)) (.of_on (l := l) ?_)
    exact Queues.mem_addTail.2 (Or.inr ⟨rfl, rfl⟩)
  | tell _ hon hl htype =>
    exact hone onlyRecord_afterTell (.of_on (on_afterTell.2 rfl))
  | @tellClear T d l hon hl htype =>
    have hrec := hi.record d
    refine hone onlyRecord_afterTellClear ⟨fun r hr => ?_, fun _ _ ht => ?_⟩
    · have he := ((hrec.wanted r hr).2.2 l hon).1
      rw [htype] at he
      cases he
    · exact absurd ⟨T, List.mem_append_right _ (List.mem_singleton.2 rfl)⟩ ht
  | @throw l d hon hfree hK =>
    have hproc : ((releaseItem (unqueue s (.death d)) (.death d)).obj.death.get d).proc =
        (s.obj.death.get d).proc := by
      have hfree := s.obj.death.apply_get_modify d d (fun x => { x with freed := x.freed + 1 })
        (·.proc) fun _ => rfl
      rw [releaseItem]
      split
      · exact hfree
      · exact hfree
      · rfl
    refine hone onlyRecord_throw ⟨fun _ _ _ hp => ?_, fun hp => ?_⟩
    · rw [hproc] at hp
      exact absurd (hP _ hK) hp
    · rw [hproc] at hp
      exact absurd (hP _ hK) hp

theorem Deaths.remembered (hs : Deaths K s s') (hi : DeathInv s) (hX : ∀ n, K.orphans n → X n)
    (hP : ∀ p, K.throws p → P p) (h : ∀ d, Remembered X P s d) (d : ℕ) : Remembered X P s' d := by
  induction hs generalizing d with
  | refl => exact h d
  | tail hs h1 ih => exact h1.remembered (hi.steps hs) hX hP ih d

/-! The end of a process -/

theorem Deaths.mono {K' : DeathScope} (hs : Deaths K s s') (hputs : ∀ l, K.puts l → K'.puts l)
    (hthrows : ∀ p, K.throws p → K'.throws p) (horphans : ∀ n, K.orphans n → K'.orphans n) :
    Deaths K' s s' := by
  refine Relation.ReflTransGen.mono (fun s s' h => ?_) _ _ hs
  cases h with
  | quiet h => exact .quiet h
  | link h => exact .link h
  | orphan f h1 h2 h3 h4 hK => exact .orphan f h1 h2 h3 h4 (horphans _ hK)
  | request cookie h1 h2 h3 => exact .request cookie h1 h2 h3
  | requestDead cookie h1 h2 h3 h4 hK => exact .requestDead cookie h1 h2 h3 h4 (hputs _ hK)
  | notice h1 h2 h3 h4 h5 hK => exact .notice h1 h2 h3 h4 h5 (hputs _ hK)
  | clearOn h1 h2 => exact .clearOn h1 h2
  | clearOff h1 h2 h3 hK => exact .clearOff h1 h2 h3 (hputs _ hK)
  | answer h1 h2 => exact .answer h1 h2
  | answerClear h1 h2 h3 hK => exact .answerClear h1 h2 h3 (hputs _ hK)
  | tell h1 h2 h3 h4 => exact .tell h1 h2 h3 h4
  | tellClear h1 h2 h3 => exact .tellClear h1 h2 h3
  | throw h1 h2 hK => exact .throw h1 h2 (hthrows _ hK)

/-- What the release of process `p` may do: it tells other processes, and throws away its own
records. -/
def releaseScope (p : ℕ) (orphans : ℕ → Prop) : DeathScope where
  puts l := ∃ q, l = .procTodo q
  throws q := q = p
  orphans := orphans

variable {p : ℕ}

/-- What a part of the release of `p` does. -/
structure Releases (p : ℕ) (s s' : Driver) : Prop where
  deaths : Deaths (releaseScope p fun _ => True) s s'
  inv : DeathInv s'
  remembered : ∀ P : ℕ → Prop, P p → (∀ d, Remembered (fun _ => False) P s d) →
    ∀ d, Remembered (fun _ => False) P s' d

theorem Releases.trans {s'' : Driver} (h : Releases p s s') (h' : Releases p s' s'') :
    Releases p s s'' :=
  ⟨h.deaths.trans h'.deaths, h'.inv, fun P hP => h'.remembered P hP ∘ h.remembered P hP⟩

theorem DeathInv.releases (h : DeathInv s) (hs : Deaths (releaseScope p fun _ => False) s s') :
    Releases p s s' :=
  ⟨hs.mono (fun _ => id) (fun _ => id) fun _ => False.elim, h.steps hs,
    fun _ hP => hs.remembered h (fun _ => id) fun _ hq => hq.symm ▸ hP⟩

theorem freeThreads_releases {l : List ℕ} (h : DeathInv s)
    (hl : ∀ T ∈ l, T < s.thread.next ∧ (s.thread.get T).proc = p) :
    Releases p s (l.foldl binderFreeThread s) ∧
      ∀ T ∈ l, ∀ d, ¬(l.foldl binderFreeThread s).On (.threadTodo T) d := by
  induction l generalizing s with
  | nil => exact ⟨h.releases (.refl s), fun T hT => by cases hT⟩
  | cons T l ih =>
    obtain ⟨hT, hp⟩ := hl T (by simp)
    have h1 := h.releases (p := p) (binderFreeThread_deaths h hT hp)
    have hg : Grows .any s (binderFreeThread s T) := binderFreeThread_grows s T trivial
    obtain ⟨h2, h3⟩ := ih h1.inv fun S hS => by
      rw [hg.threadNext, hg.owner]
      exact hl S (by simp [hS])
    refine ⟨h1.trans h2, fun S hS d => ?_⟩
    rcases List.mem_cons.1 hS with rfl | hS
    · intro hon
      rcases h2.deaths.on_new hon with h4 | ⟨q, h4⟩ | ⟨q, h4⟩
      · obtain ⟨s₁, -, heq⟩ := beforeWork_undying s S
        rw [heq] at h4
        exact releaseWorkLoop_empty le_rfl _ h4
      · cases h4
      · cases h4
    · exact h3 S hS d

theorem releaseNodes_releases {l : List ℕ} (hl : l.Nodup) (h : DeathInv s)
    (hn : ∀ n ∈ l, (s.obj.node.get n).proc = some p) :
    Releases p s (l.foldl (releaseNode p) s) := by
  induction l generalizing s with
  | nil => exact h.releases (.refl s)
  | cons n l ih =>
    obtain ⟨hnl, hl⟩ := List.nodup_cons.1 hl
    obtain ⟨h1, h2, h3⟩ := releaseNode_deaths (K := releaseScope p (· = n)) (fun q => ⟨q, rfl⟩) rfl h
      (hn n (by simp))
    have hrel : Releases p s (releaseNode p s n) := by
      refine ⟨h1.mono (fun _ => id) (fun _ => id) fun _ _ => trivial, h.steps h1, fun P hP hk d => ?_⟩
      have hk' := h1.remembered h (X := (· = n)) (fun _ => id) (fun _ hq => hq.symm ▸ hP)
        fun d => (hk d).mono fun _ => False.elim
      refine ⟨fun r hr _ hp hd ht => ?_, (hk' d).clearing⟩
      by_cases hrn : ((releaseNode p s n).obj.ref.get r).node = n
      · exact h3 r d hr hrn
      · exact (hk' d).noticed r hr hrn hp hd ht
    refine hrel.trans (ih hl hrel.inv fun m hm => ?_)
    rw [h2 m fun he => hnl (he ▸ hm)]
    exact hn m (by simp [hm])

theorem binderDeferredRelease_releases (L : Layout) (rb : RbTree ℕ) (env : ℕ → PageEnv)
    (h : DeathInv s)
    (hth : ∀ T ∈ (s.proc.get p).threads, T < s.thread.next ∧ (s.thread.get T).proc = p) :
    Releases p s (binderDeferredRelease L rb env s p) ∧
      ((binderDeferredRelease L rb env s p).obj.own p).refsByDesc = [] ∧
      ∀ l d, (binderDeferredRelease L rb env s p).On l d → l ≠ .procTodo p ∧
        l ≠ .deliveredDeath p ∧ ∀ T ∈ (s.proc.get p).threads, l ≠ .threadTodo T := by
  set s₁ := ((s.bugOn (s.proc.get p).area.vma .vmaMapped).bugOn (s.obj.own p).files .filesOpen).modObj
    fun o => if (o.contextMgrNode.any fun n => (o.node.get n).proc = some p) then
      { o with contextMgrNode := none } else o with hs₁
  set s₂ := (s.proc.get p).threads.foldl binderFreeThread s₁ with hs₂
  set s₃ := (s₂.obj.own p).nodes.foldl (releaseNode p) s₂ with hs₃
  set s₄ := s₃.modObj fun o => (o.own p).refsByDesc.foldl binderDeleteRef o with hs₄
  set s₅ := binderReleaseWork s₄ (.procTodo p) with hs₅
  set s₆ := binderReleaseWork s₅ (.deliveredDeath p) with hs₆
  have h₁ : Undying s s₁ := by
    refine ((undying_bugOn s _ rfl).trans (undying_bugOn _ _ rfl)).trans (undying_modObj _ ?_)
    exact .ite { SameLinks.refl _ with mgr := fun n hn => by cases hn } (.refl _)
  have r₁ : Releases p s s₁ := h.releases h₁.deaths
  obtain ⟨r₂, hempty₂⟩ := freeThreads_releases (p := p) (l := (s.proc.get p).threads) r₁.inv hth
  have r₃ : Releases p s₂ s₃ := releaseNodes_releases (r₂.inv.links.nodesNodup p) r₂.inv fun n hn =>
    (r₂.inv.links.nodes p n hn).2
  obtain ⟨d₄, hrefs₄⟩ := deleteRefs_deaths (K := releaseScope p fun _ => False) (p := p)
    (r₃.inv.links.table p).nodupDesc r₃.inv fun _ => id
  have r₄ : Releases p s₃ s₄ := r₃.inv.releases d₄
  have hnil₄ : (s₄.obj.own p).refsByDesc = [] :=
    List.eq_nil_iff_forall_not_mem.2 fun r hr => ((hrefs₄ r).1 hr).1 ((hrefs₄ r).1 hr).2
  obtain ⟨d₅, c₅⟩ := binderReleaseWork_deaths (K := releaseScope p fun _ => False)
    (l := .procTodo p) (rfl : p = p) r₄.inv fun q hq => by cases hq
  have r₅ : Releases p s₄ s₅ := r₄.inv.releases d₅
  have hnil₅ : (s₅.obj.own p).refsByDesc = [] := (c₅.byDesc p).trans hnil₄
  obtain ⟨d₆, c₆⟩ := binderReleaseWork_deaths (K := releaseScope p fun _ => False)
    (l := .deliveredDeath p) (rfl : p = p) r₅.inv fun q hq => by cases hq; exact hnil₅
  have r₆ : Releases p s₅ s₆ := r₅.inv.releases d₆
  have h₇ : Undying s₆ (binderDeferredRelease L rb env s p) := by
    refine Undying.trans ?_ (undying_modProc _ p _)
    exact Undying.foldl (fun s a => releaseBuffer_undying s p L rb env a) _ s₆
  have r₇ : Releases p s₆ (binderDeferredRelease L rb env s p) := r₆.inv.releases h₇.deaths
  have rafter : Releases p s₂ (binderDeferredRelease L rb env s p) :=
    ((((r₃.trans r₄).trans r₅).trans r₆).trans r₇)
  refine ⟨(r₁.trans r₂).trans rafter, ?_, fun l d hon => ⟨?_, ?_, fun T hT => ?_⟩⟩
  · rw [h₇.links.byDesc, c₆.byDesc, hnil₅]
  · rintro rfl
    exact releaseWorkLoop_empty le_rfl _ (releaseWorkLoop_mem ((h₇.links.entry _ d).1 hon))
  · rintro rfl
    exact releaseWorkLoop_empty le_rfl _ ((h₇.links.entry _ d).1 hon)
  · rintro rfl
    rcases rafter.deaths.on_new hon with h1 | ⟨q, h1⟩ | ⟨q, h1⟩
    · exact hempty₂ T hT d h1
    · cases h1
    · cases h1

/-! Actions -/

/-- What an action may do with death records. -/
def Action.deathScope (s : Driver) : Action → DeathScope
  | write T _ _ => ⟨(· = deathList (s.thread.get T) T), fun _ => False, fun _ => False⟩
  | threadExit T => ⟨fun _ => False, (· = (s.thread.get T).proc), fun _ => False⟩
  | deferredFunc p _ => releaseScope p fun _ => True
  | _ => ⟨fun _ => False, fun _ => False, fun _ => False⟩

theorem setCtxMgr_deaths (s : Driver) (T euid : ℕ) (kzalloc : Bool) :
    Deaths K s (setCtxMgr s T euid kzalloc) := by
  unfold setCtxMgr
  refine .ite (.refl s) ?_
  obtain ⟨hnew, hlt⟩ := binderNewNode_links s.obj (s.thread.get T).proc 0 0 kzalloc
  have huid : Undying s { s with contextMgrUid := some (s.contextMgrUid.getD euid) } :=
    { Undying.refl s with }
  refine huid.deaths.trans (Deaths.links ?_)
  dsimp only
  split
  · rename_i o ho
    rw [ho] at hnew
    exact hnew.trans (SameLinks.links { SameLinks.refl o with mgr := fun n hn => by cases hn })
  · rename_i o n ho
    rw [ho] at hnew hlt
    have hmgr : SameLinks o { o with contextMgrNode := some n } :=
      { SameLinks.refl o with mgr := fun m hm => Or.inr (Option.some.inj hm ▸ hlt n rfl) }
    refine hnew.trans (hmgr.trans ?_).links
    exact sameLinks_modNode _ n (fun _ => rfl) fun _ => rfl

theorem newThread_undying (s : Driver) (p pid : ℕ) : Undying s (newThread s p pid) :=
  { Undying.refl s with
    threadNext := Nat.le_succ _
    owner := fun T hT => congrArg (·.proc) (s.thread.get_alloc_ne T _ hT.ne) }

/-- The release that a turn of the deferred work comes to. -/
theorem deferredRelease_releases (L : Layout) (rb : RbTree ℕ) (env : ℕ → PageEnv) (h : DeathInv s)
    (ht : ThreadInv s) :
    Releases p (beforeRelease s p) (binderDeferredRelease L rb env (beforeRelease s p) p) ∧
      ((binderDeferredRelease L rb env (beforeRelease s p) p).obj.own p).refsByDesc = [] ∧
      ∀ l d, (binderDeferredRelease L rb env (beforeRelease s p) p).On l d → l ≠ .procTodo p ∧
        l ≠ .deliveredDeath p ∧ ∀ T ∈ (s.proc.get p).threads, l ≠ .threadTodo T := by
  have hbefore := beforeRelease_undying s p
  have hg : Grows .still s (beforeRelease s p) := beforeRelease_grows s p
  obtain ⟨h1, h2, h3⟩ := binderDeferredRelease_releases L rb env (h.undying hbefore) fun T hT => by
    obtain ⟨hlt, -, hp⟩ := (ht.listed p T).1 ((hg.threads p).subset hT)
    exact ⟨hlt.trans_le hbefore.threadNext, (hbefore.owner T hlt).trans hp⟩
  refine ⟨h1, h2, fun l d hon => ⟨(h3 l d hon).1, (h3 l d hon).2.1, fun T hT => ?_⟩⟩
  exact (h3 l d hon).2.2 T ((hg.listed p T hT).resolve_left id)

theorem Action.deaths (L : Layout) (rb : RbTree ℕ) (h : DeathInv s) (ht : ThreadInv s) (a : Action)
    (hen : a.enabled L s = true) : Deaths (a.deathScope s) s (a.apply L rb s) := by
  cases a with
  | openProc pid => exact Undying.deaths { Undying.refl s with }
  | mmap p base size env =>
    simp only [Action.apply, driverMmap]
    refine .ite (.refl s) ?_
    split
    · exact .refl s
    · refine Undying.deaths ((undying_modProc s p _).trans (undying_modObj _ ?_))
      exact sameLinks_files _ p fun _ => ⟨rfl, rfl, rfl⟩
  | vmaClose p => exact (undying_modProc s p _).deaths
  | flush p => exact (undying_modProc s p _).deaths
  | close p => exact (undying_modProc s p _).deaths
  | deferredFunc p env =>
    simp only [Action.apply]
    rw [binderDeferredFunc_eq]
    have hbefore := beforeRelease_undying s p
    refine .ite (hbefore.deaths.trans ?_) hbefore.deaths
    exact (deferredRelease_releases L rb env h ht).1.deaths
  | getThread p pid =>
    exact .ite (.refl s) (newThread_undying s p pid).deaths
  | write T c env =>
    simp only [Action.enabled, Driver.ready, Bool.and_eq_true, decide_eq_true_eq] at hen
    exact writeCommand_deaths L rb h hen.1.1.1.1 rfl env c
  | read T size consumed nonBlock fault =>
    have hwait := fun ptr => (waitForWork_undying s T fault size ptr nonBlock).deaths
      (K := Action.deathScope s (.read T size consumed nonBlock fault))
    exact .ite (.ite (.refl s) (hwait 4)) (hwait consumed)
  | lookForWork T =>
    simp only [Action.apply, Binder.lookForWork]
    split
    · exact .refl s
    · refine .ite (.refl s) (.ite (Undying.deaths ?_) (.refl s))
      exact undying_modThread s T fun _ => rfl
  | resume T fault => exact resumeRead_deaths s T fault L (of_decide_eq_true hen)
  | interrupt T =>
    simp only [Action.apply, interruptRead]
    split
    · exact .refl s
    · exact .ite (.refl s) (stopWaiting_undying s T _).deaths
  | ioctlDone T =>
    refine Undying.deaths ?_
    exact undying_modThread s T (f := fun y =>
      { y with looper := { y.looper with needReturn := false } }) fun _ => rfl
  | setMaxThreads T maxThreads => exact (undying_modProc s _ _).deaths
  | setContextMgr T euid kzalloc => exact setCtxMgr_deaths s T euid kzalloc
  | threadExit T =>
    simp only [Action.enabled, Driver.ready, Bool.and_eq_true, decide_eq_true_eq] at hen
    exact binderFreeThread_deaths h hen.1.1.1 rfl

theorem deathInv_step {L : Layout} {rb : RbTree ℕ} (h : DeathInv s) (ht : ThreadInv s) (a : Action) :
    DeathInv ((driverMachine L rb).step s a) := by
  by_cases hen : a.enabled L s = true
  · rw [show (driverMachine L rb).step s a = a.apply L rb s from if_pos hen]
    exact h.steps (a.deaths L rb h ht hen)
  · rwa [show (driverMachine L rb).step s a = s from if_neg hen]

theorem deathInv_reach {L : Layout} {rb : RbTree ℕ} {ok : Driver → Action → Prop}
    (h : (driverMachine L rb).Reach ok s) : DeathInv s := by
  refine h.invariant_of (fun s hs => threadInv_reach hs) (fun s hs => ?_)
    fun s a ht _ hi _ => deathInv_step hi ht a
  cases hs
  refine ⟨refsInv_empty, fun d => ?_, fun n hn => absurd hn (Nat.not_lt_zero n), fun h₁ e h₂ he => ?_,
    List.not_mem_nil, List.not_mem_nil⟩
  · have hatt : ∀ r, ¬({} : Driver).Attached r d := fun r hr => List.not_mem_nil hr.1
    have hon : ∀ l, ¬({} : Driver).On l d := fun l hl => List.not_mem_nil hl
    have htold : ¬({} : Driver).Told d := fun ⟨T, hT⟩ => List.not_mem_nil hT
    have hclear : ¬({} : Driver).ToldClear d := fun ⟨T, hT⟩ => List.not_mem_nil hT
    exact {
      unique := fun r _ hr => absurd hr (hatt r)
      place := fun l _ hl => absurd hl (hon l)
      home := fun l hl => absurd hl (hon l)
      owner := fun r hr => absurd hr (hatt r)
      once := Nat.zero_le 1
      kept := fun hd => absurd hd (Nat.not_lt_zero d)
      unborn := fun _ => ⟨hatt, hon, rfl, htold, hclear, List.not_mem_nil, List.not_mem_nil⟩
      wanted := fun r hr => absurd hr (hatt r)
      cleared := fun _ l hl => absurd hl (hon l)
      delivered := fun hl => absurd hl (hon _)
      fresh := fun l hl => absurd hl (hon l)
      answered := fun h => absurd h htold
      ended := fun h => absurd h hclear }
  · cases h₁ <;> cases he

end Binder

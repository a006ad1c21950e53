import BinderIpc.Handle.Table
import BinderIpc.Txn.Runs

/-! Death notifications over runs: whom the driver tells, about which node, and what
a thread that exits makes it forget. -/

namespace Binder

variable {L : Layout} {rb : RbTree ℕ} {ok : Driver → Action → Prop} {K : DeathScope}
  {s s' : Driver} {n d r T p : ℕ} {l : ListHead}

/-! What a step makes of a record that there was -/

/-- `BR_DEAD_BINDER` is about a record on a list of the reader. -/
theorem DeathStep.tells (hs : DeathStep K s s') : ∃ es, s'.history = s.history ++ es ∧
    ∀ e ∈ es, ∀ T d, e = .br T (.deadBinder d) → T < s.thread.next ∧
      ∃ l, s.On l d ∧ s.IsTodo (s.thread.get T).proc l ∧
        (s.obj.death.get d).type ≠ some .clearDeathNotification := by
  have hsilent : ∀ {e : Event}, (∀ T d, e ≠ .br T (.deadBinder d)) → ∀ e' ∈ [e], ∀ T d,
      e' = .br T (.deadBinder d) → T < s.thread.next ∧ ∃ l, s.On l d ∧
        s.IsTodo (s.thread.get T).proc l ∧
        (s.obj.death.get d).type ≠ some .clearDeathNotification := fun he e' he' T d heq => by
    rw [List.mem_singleton.1 he'] at heq
    exact absurd heq (he T d)
  have hnil : ∃ es, s.history = s.history ++ es ∧ ∀ e ∈ es, ∀ T d, e = .br T (.deadBinder d) →
      T < s.thread.next ∧ ∃ l, s.On l d ∧ s.IsTodo (s.thread.get T).proc l ∧
        (s.obj.death.get d).type ≠ some .clearDeathNotification :=
    ⟨[], by simp, fun e he => by cases he⟩
  cases hs with
  | quiet h =>
    obtain ⟨es, hes, hall⟩ := h.history
    refine ⟨es, hes, fun e he T d heq => ?_⟩
    have hnone := hall e he
    rw [heq] at hnone
    cases hnone
  | link _ => exact hnil
  | orphan _ _ _ _ _ _ => exact hnil
  | request _ _ _ _ => exact ⟨_, rfl, hsilent fun _ _ he => by cases he⟩
  | requestDead _ _ _ _ _ _ => exact ⟨_, rfl, hsilent fun _ _ he => by cases he⟩
  | notice _ _ _ _ _ _ => exact hnil
  | clearOn _ _ => exact ⟨_, rfl, hsilent fun _ _ he => by cases he⟩
  | clearOff _ _ _ _ => exact ⟨_, rfl, hsilent fun _ _ he => by cases he⟩
  | answer _ _ => exact ⟨_, rfl, hsilent fun _ _ he => by cases he⟩
  | answerClear _ _ _ _ => exact ⟨_, rfl, hsilent fun _ _ he => by cases he⟩
  | tell hT hon hl htype =>
    refine ⟨_, rfl, fun e he T d heq => ?_⟩
    rw [List.mem_singleton.1 he] at heq
    cases heq
    exact ⟨hT, _, hon, hl, htype⟩
  | tellClear _ _ _ => exact ⟨_, rfl, hsilent fun _ _ he => by cases he⟩
  | throw _ _ _ =>
    rw [releaseItem]
    split <;> exact hnil

theorem attached_detached {r₀ d₀ : ℕ} (hr₀ : s.Attached r₀ d₀)
    (hr : (detached s r₀ d₀).Attached r d) : s.Attached r d := by
  refine ⟨((onlyRecord_detached hr₀).live r).1 hr.1, ?_⟩
  have hd := hr.2
  simp only [detached, Driver.note, Driver.modObj, Objects.modRef, Heap.get_modify] at hd
  split_ifs at hd
  exact hd

theorem attached_throw {d₀ : ℕ} :
    (releaseItem (unqueue s (.death d₀)) (.death d₀)).Attached r d ↔ s.Attached r d := by
  rw [releaseItem]
  split <;> exact Iff.rfl

theorem DeathStep.attached_old (hs : DeathStep K s s') (hi : DeathInv s)
    (hd : d < s.obj.death.next) (hr : s'.Attached r d) : s.Attached r d := by
  have hone : ∀ {s' : Driver} {d₀ : ℕ}, OnlyRecord s s' d₀ → d ≠ d₀ → s'.Attached r d →
      s.Attached r d := fun honly hne => ((honly.same hne).attached r).1
  cases hs with
  | quiet h => exact (h.same.attached r).1 hr
  | link h =>
    cases h with
    | same h =>
      have hq : Undying s { s with obj := _ } := { Undying.refl s with links := h }
      exact (hq.same.attached r).1 hr
    | newNode key _ _ => exact ((sameRecord_newNode hi.links _ key).attached r).1 hr
    | newRef _ _ => exact ((sameRecord_newRef hi.links _ _).attached r).1 hr
    | deleteRef h => exact ((attached_deleteRef hi.links h r).1 hr).2
  | orphan _ _ _ _ _ _ => exact hr
  | request cookie _ hnone _ => exact hone (onlyRecord_requested cookie hnone) hd.ne hr
  | requestDead cookie _ hnone _ _ _ => exact hone (onlyRecord_requested cookie hnone) hd.ne hr
  | notice _ _ _ _ _ _ => exact hr
  | clearOn hr₀ _ => exact attached_detached hr₀ hr
  | clearOff hr₀ _ _ _ => exact attached_detached hr₀ hr
  | answer _ _ => exact hr
  | answerClear _ _ _ _ => exact hr
  | tell _ _ _ _ => exact hr
  | tellClear _ _ _ => exact hr
  | throw _ _ _ => exact attached_throw.1 hr

theorem DeathStep.deathNext (hs : DeathStep K s s') : s.obj.death.next ≤ s'.obj.death.next := by
  cases hs with
  | quiet h => rw [h.links.death]
  | link h =>
    cases h with
    | same h => rw [h.death]
    | newNode _ _ _ => exact le_rfl
    | newRef _ _ => exact le_rfl
    | @deleteRef p r _ =>
      change _ ≤ (binderDeleteRef s.obj r).death.next
      rw [(binderDeleteRef_unlinked s.obj r).death]
      cases (s.obj.ref.get r).death <;> exact le_rfl
  | request _ _ _ _ => exact Nat.le_succ _
  | requestDead _ _ _ _ _ _ => exact Nat.le_succ _
  | throw _ _ _ =>
    rw [releaseItem]
    split <;> exact le_rfl
  | _ => exact le_rfl

/-- A record keeps its process. -/
theorem DeathStep.deathProc (hs : DeathStep K s s') (hd : d < s.obj.death.next) :
    (s'.obj.death.get d).proc = (s.obj.death.get d).proc := by
  have htype : ∀ d₀ t, ((s.obj.death.modify d₀ fun z => { z with type := t }).get d).proc =
      (s.obj.death.get d).proc := fun d₀ t =>
    s.obj.death.apply_get_modify d₀ d (fun z => { z with type := t }) (·.proc) fun _ => rfl
  have hfreed : ∀ d₀, ((s.obj.death.modify d₀ fun x => { x with freed := x.freed + 1 }).get d).proc =
      (s.obj.death.get d).proc := fun d₀ =>
    s.obj.death.apply_get_modify d₀ d (fun x => { x with freed := x.freed + 1 }) (·.proc) fun _ => rfl
  have halloc : ∀ x, (s.obj.death.alloc x).get d = s.obj.death.get d := fun x =>
    s.obj.death.get_alloc_ne d x hd.ne
  cases hs with
  | quiet h => rw [h.links.death]
  | link h =>
    cases h with
    | same h => rw [h.death]
    | newNode _ _ _ => rfl
    | newRef _ _ => rfl
    | @deleteRef p r _ =>
      change ((binderDeleteRef s.obj r).death.get d).proc = _
      rw [(binderDeleteRef_unlinked s.obj r).death]
      cases (s.obj.ref.get r).death with
      | none => rfl
      | some d₀ => exact hfreed d₀
  | orphan _ _ _ _ _ _ => rfl
  | request _ _ _ _ => exact congrArg (·.proc) (halloc _)
  | @requestDead r l cookie _ _ _ _ _ =>
    have hput := Heap.apply_get_modify (requested s r cookie).obj.death s.obj.death.next d
      (fun z => { z with type := some .deadBinder }) (·.proc) fun _ => rfl
    exact hput.trans (congrArg (·.proc) (halloc _))
  | notice _ _ _ _ _ _ => exact htype _ _
  | clearOn _ _ => exact htype _ _
  | clearOff _ _ _ _ => exact htype _ _
  | answer _ _ => rfl
  | answerClear _ _ _ _ => exact htype _ _
  | tell _ _ _ _ => rfl
  | tellClear _ _ _ => exact hfreed _
  | throw _ _ _ =>
    rw [releaseItem]
    split
    · exact hfreed _
    · exact hfreed _
    · rfl

/-- Only a record that hangs at a reference to a dead node is marked to be cleared later. -/
theorem DeathStep.marked (hs : DeathStep K s s') (hi : DeathInv s) (hd : d < s.obj.death.next)
    (hon : s'.On l d) (htype : (s'.obj.death.get d).type = some .deadBinderAndClear) :
    (∃ l, s.On l d ∧ (s.obj.death.get d).type = some .deadBinderAndClear) ∨
      ∃ r, s.Attached r d ∧ s.NodeDead r := by
  have hone : ∀ {s' : Driver} {d₀ : ℕ}, OnlyRecord s s' d₀ → s'.On l d →
      (s'.obj.death.get d).type = some .deadBinderAndClear → d ≠ d₀ →
      (∃ l, s.On l d ∧ (s.obj.death.get d).type = some .deadBinderAndClear) ∨
        ∃ r, s.Attached r d ∧ s.NodeDead r := fun honly hon htype hne =>
    Or.inl ⟨l, (honly.entry l d hne).1 hon, honly.death d hne ▸ htype⟩
  cases hs with
  | quiet h => exact Or.inl ⟨l, (h.links.entry l d).1 hon, h.links.death ▸ htype⟩
  | link h =>
    cases h with
    | same h => exact Or.inl ⟨l, (h.entry l d).1 hon, h.death ▸ htype⟩
    | newNode _ _ _ => exact Or.inl ⟨l, hon, htype⟩
    | newRef _ _ => exact Or.inl ⟨l, hon, htype⟩
    | @deleteRef p r hr =>
      have hne := (((binderDeleteRef_unlinked s.obj r).entry l d).1 hon).2
      have hsame := sameRecord_deleteRef hi.links hr hne
      exact Or.inl ⟨l, (hsame.on l).1 hon, hsame.death ▸ htype⟩
  | orphan _ _ _ _ _ _ => exact Or.inl ⟨l, hon, htype⟩
  | request cookie _ hnone _ => exact hone (onlyRecord_requested cookie hnone) hon htype hd.ne
  | @requestDead r l₀ cookie _ hnone _ hl _ =>
    refine hone ?_ hon htype hd.ne
    exact (onlyRecord_requested cookie hnone).trans
      (onlyRecord_put _ (p := (s.obj.ref.get r).proc) hl)
  | @notice r d₀ l₀ hr hoff hdead htold hl _ =>
    by_cases hne : d = d₀
    · subst hne
      exact Or.inr ⟨r, hr, hdead⟩
    · exact hone (onlyRecord_put _ hl) hon htype hne
  | @clearOn r d₀ l₀ hr hon₀ =>
    by_cases hne : d = d₀
    · subst hne
      exact Or.inr ⟨r, hr, (((hi.record d).wanted r hr).2.2 l₀ hon₀).2⟩
    · refine hone ?_ hon htype hne
      exact (onlyRecord_detached hr).trans
        ((onlyRecord_bugOn _ (by decide)).trans (onlyRecord_modDeath _))
  | @clearOff r d₀ l₀ hr hoff hl _ =>
    by_cases hne : d = d₀
    · subst hne
      rw [death_put] at htype
      cases htype
    · refine hone ?_ hon htype hne
      exact (onlyRecord_detached hr).trans (onlyRecord_put _ (p := (s.obj.ref.get r).proc) hl)
  | @answer p d₀ hon₀ _ =>
    by_cases hne : d = d₀
    · subst hne
      exact absurd rfl (Queues.mem_del.1 hon).2
    · exact hone onlyRecord_afterAnswer hon htype hne
  | @answerClear p d₀ l₀ hon₀ _ hl _ =>
    by_cases hne : d = d₀
    · subst hne
      rw [death_put] at htype
      cases htype
    · refine hone ?_ hon htype hne
      exact onlyRecord_afterAnswer.trans (onlyRecord_put _ (p := p) hl)
  | @tell T d₀ l₀ hT hon₀ hl htype₀ =>
    by_cases hne : d = d₀
    · subst hne
      exact Or.inl ⟨l₀, hon₀, htype⟩
    · exact hone onlyRecord_afterTell hon htype hne
  | @tellClear T d₀ l₀ hon₀ hl htype₀ =>
    by_cases hne : d = d₀
    · subst hne
      exact absurd rfl (Queues.mem_del.1 hon).2
    · exact hone onlyRecord_afterTellClear hon htype hne
  | @throw l₀ d₀ hon₀ hfree _ =>
    by_cases hne : d = d₀
    · subst hne
      have htodo := releaseItem_todo (unqueue s (.death d)) (.death d)
      unfold Driver.On at hon
      rw [htodo] at hon
      exact absurd rfl (Queues.mem_del.1 hon).2
    · exact hone onlyRecord_throw hon htype hne

theorem DeathStep.owner (hs : DeathStep K s s') (hT : T < s.thread.next) :
    (s'.thread.get T).proc = (s.thread.get T).proc := by
  cases hs with
  | quiet h => exact h.owner T hT
  | throw _ _ _ => rw [onlyRecord_throw.thread]
  | _ => rfl

/-! Whom a notice goes to, and when -/

/-- `BR_DEAD_BINDER` was written to threads of the record's process. -/
def ToldOwner (s : Driver) (d : ℕ) : Prop :=
  ∀ T, .br T (.deadBinder d) ∈ s.history →
    T < s.thread.next ∧ (s.thread.get T).proc = (s.obj.death.get d).proc

theorem DeathStep.toldOwner (hs : DeathStep K s s') (hi : DeathInv s) (h : ToldOwner s d) :
    ToldOwner s' d := by
  obtain ⟨es, hes, hall⟩ := hs.tells
  intro T hT
  rw [hes] at hT
  have hold : T < s.thread.next ∧ (s.thread.get T).proc = (s.obj.death.get d).proc ∧
      d < s.obj.death.next := by
    rcases List.mem_append.1 hT with hT | hT
    · obtain ⟨h1, h2⟩ := h T hT
      refine ⟨h1, h2, not_le.1 fun hle => ?_⟩
      exact ((hi.record d).unborn hle).2.2.2.1 ⟨T, hT⟩
    · obtain ⟨h1, l, hon, hl, -⟩ := hall _ hT T d rfl
      exact ⟨h1, ((hi.record d).todo_proc hon hl).symm, ((hi.record d).lt_on hon).1⟩
  obtain ⟨h1, h2, h3⟩ := hold
  exact ⟨h1.trans_le hs.threadNext, by rw [hs.owner h1, hs.deathProc h3, h2]⟩

/-- The record is about a reference to `n`. -/
structure Concerns (n : ℕ) (s : Driver) (d : ℕ) : Prop where
  born : d < s.obj.death.next
  node : ∀ r, s.Attached r d → (s.obj.ref.get r).node = n
  due : ∀ l, s.On l d → (s.obj.death.get d).type = some .deadBinderAndClear →
    .nodeReleased n ∈ s.history
  told : ∀ h₁ h₂ T, s.history = h₁ ++ .br T (.deadBinder d) :: h₂ → .nodeReleased n ∈ h₁

/-- A record is due to be told of only when the owner of its node has been released. -/
theorem Concerns.released (h : Concerns n s d) (hi : DeathInv s) (hon : s.On l d)
    (htype : (s.obj.death.get d).type ≠ some .clearDeathNotification) :
    .nodeReleased n ∈ s.history := by
  have hrec := hi.record d
  by_cases hatt : ∃ r, s.Attached r d
  · obtain ⟨r, hr⟩ := hatt
    rw [← h.node r hr]
    exact hi.nodeReleased hr ((hrec.wanted r hr).2.2 l hon).2
  · have hclear := (hrec.cleared (fun r hr => hatt ⟨r, hr⟩) l hon).2
    exact h.due l hon (hclear.resolve_right htype)

theorem DeathStep.concerns (hs : DeathStep K s s') (hi : DeathInv s) (h : Concerns n s d) :
    Concerns n s' d := by
  refine ⟨h.born.trans_le hs.deathNext, fun r hr => ?_, fun l hon htype => ?_, fun h₁ h₂ T heq => ?_⟩
  · have hr' := hs.attached_old hi h.born hr
    have hlt := (hi.links.table _).below r hr'.1
    exact ((hs.kept hi.links).node r hlt).trans (h.node r hr')
  · refine hs.mem_history ?_
    rcases hs.marked hi h.born hon htype with ⟨l', hl', htype'⟩ | ⟨r, hr, hdead⟩
    · exact h.due l' hl' htype'
    · rw [← h.node r hr]
      exact hi.nodeReleased hr hdead
  · obtain ⟨es, hes, hall⟩ := hs.tells
    rw [hes] at heq
    rcases List.append_eq_append_iff.1 heq with ⟨es₁, rfl, hes₁⟩ | ⟨h₃, hh, hes₁⟩
    · obtain ⟨-, l, hon, -, htype⟩ := hall (.br T (.deadBinder d)) (by simp [hes₁]) T d rfl
      exact List.mem_append_left _ (h.released hi hon htype)
    · cases h₃ with
      | nil =>
        rw [List.nil_append] at hes₁
        obtain ⟨-, l, hon, -, htype⟩ := hall _ (hes₁ ▸ List.mem_cons_self) T d rfl
        rw [List.append_nil] at hh
        exact hh ▸ h.released hi hon htype
      | cons e h₃ =>
        obtain ⟨rfl, -⟩ := List.cons.inj hes₁
        exact h.told h₁ h₃ T hh

/-- What hangs at a reference is about its node. -/
def NoticeInv (s : Driver) : Prop :=
  ∀ r d, s.Attached r d → Concerns (s.obj.ref.get r).node s d

theorem DeathStep.notices (hs : DeathStep K s s') (hi : DeathInv s) (h : NoticeInv s) :
    NoticeInv s' := by
  intro r d hr
  by_cases hd : d < s.obj.death.next
  · have hr' := hs.attached_old hi hd hr
    have hlt := (hi.links.table _).below r hr'.1
    rw [(hs.kept hi.links).node r hlt]
    exact hs.concerns hi (h r d hr')
  · -- nobody was told of a record that has just been made
    have hrec := (hi.step hs).record d
    have hunborn := (hi.record d).unborn (not_lt.1 hd)
    refine ⟨(hrec.lt hr).1, fun r' hr' => by rw [hrec.unique r' r hr' hr], fun l hl htype => ?_,
      fun h₁ h₂ T heq => ?_⟩
    · have he := ((hrec.wanted r hr).2.2 l hl).1
      rw [htype] at he
      cases he
    · obtain ⟨es, hes, hall⟩ := hs.tells
      have hmem : .br T (.deadBinder d) ∈ s.history ++ es := by
        rw [← hes, heq]
        simp
      rcases List.mem_append.1 hmem with hm | hm
      · exact absurd ⟨T, hm⟩ hunborn.2.2.2.1
      · obtain ⟨-, l, hon, -, -⟩ := hall _ hm T d rfl
        exact absurd hon (hunborn.2.1 l)

/-! Runs -/

theorem Deaths.keeps {P : Driver → Prop} (hs : Deaths K s s') (hi : DeathInv s)
    (hP : ∀ s s', DeathStep K s s' → DeathInv s → P s → P s') (h : P s) : P s' := by
  induction hs with
  | refl => exact h
  | tail hs h1 ih => exact hP _ _ h1 (hi.steps hs) ih

theorem step_keeps {P : Driver → Prop}
    (hP : ∀ K s s', DeathStep K s s' → DeathInv s → P s → P s') (hi : DeathInv s)
    (ht : ThreadInv s) (a : Action) (h : P s) : P ((driverMachine L rb).step s a) := by
  by_cases hen : a.enabled L s = true
  · rw [show (driverMachine L rb).step s a = a.apply L rb s from if_pos hen]
    exact (a.deaths L rb hi ht hen).keeps hi (hP _) h
  · rwa [show (driverMachine L rb).step s a = s from if_neg hen]

theorem exec_keeps (L : Layout) (rb : RbTree ℕ) {P : Driver → Prop}
    (hP : ∀ K s s', DeathStep K s s' → DeathInv s → P s → P s') (hi : DeathInv s)
    (ht : ThreadInv s) (as : List Action) (h : P s) : P ((driverMachine L rb).exec s as) := by
  induction as generalizing s with
  | nil => exact h
  | cons a as ih => exact ih (deathInv_step hi ht a) (ht.step a) (step_keeps hP hi ht a h)

theorem reach_keeps {P : Driver → Prop}
    (hP : ∀ K s s', DeathStep K s s' → DeathInv s → P s → P s') (hstart : P {})
    (h : (driverMachine L rb).Reach ok s) : P s := by
  refine h.invariant_of (I := fun s => DeathInv s ∧ ThreadInv s)
    (fun s hs => ⟨deathInv_reach hs, threadInv_reach hs⟩) (fun s hs => ?_)
    fun s a hi _ h1 _ => step_keeps hP hi.1 hi.2 a h1
  cases hs
  exact hstart

/-! The lists of threads -/

/-- Death records are on lists of threads that are there. -/
def ListsLive (s : Driver) : Prop :=
  ∀ T d, s.On (.threadTodo T) d → T < s.thread.next ∧ (s.thread.get T).freed = 0

/-- A thread that exits leaves no record on its list. -/
theorem apply_emptied (hi : DeathInv s) (ht : ThreadInv s) (a : Action)
    (hT : (a.scope s).exits T) (d : ℕ) : ¬(a.apply L rb s).On (.threadTodo T) d := by
  rcases hT with hT | ⟨p, hp, hr, hT⟩
  · cases a <;> cases hT
    simp only [Action.apply]
    obtain ⟨s₁, -, heq⟩ := beforeWork_undying s T
    rw [heq]
    exact releaseWorkLoop_empty le_rfl _
  · cases a <;> cases hp
    rename_i env
    simp only [Action.apply]
    rw [binderDeferredFunc_eq, if_pos hr]
    exact fun hon => ((deferredRelease_releases L rb env hi ht).2.2 _ d hon).2.2 T hT rfl

theorem ListsLive.step (h : ListsLive s) (hi : DeathInv s) (ht : ThreadInv s) (a : Action) :
    ListsLive ((driverMachine L rb).step s a) := by
  by_cases hen : a.enabled L s = true
  swap
  · rwa [show (driverMachine L rb).step s a = s from if_neg hen]
  rw [show (driverMachine L rb).step s a = a.apply L rb s from if_pos hen]
  cases hc : a.creates with
  | true =>
    cases a with
    | openProc pid => exact h
    | getThread p pid =>
      simp only [Action.apply, binderGetThread]
      split
      · exact h
      · intro T d hon
        obtain ⟨hlt, hfreed⟩ := h T d hon
        exact ⟨hlt.trans (Nat.lt_succ_self _),
          (congrArg (·.freed) (s.thread.get_alloc_ne T _ hlt.ne)).trans hfreed⟩
    | _ => cases hc
  | false =>
    intro T d hon
    have hg := apply_grows L rb s a hc
    have hstay : ¬(a.scope s).exits T := fun hT => apply_emptied hi ht a hT d hon
    have hlive : T < s.thread.next ∧ (s.thread.get T).freed = 0 := by
      rcases (a.deaths L rb hi ht hen).on_new hon with hon | hputs | ⟨q, hq⟩
      · exact h T d hon
      · cases a with
        | write S c env =>
          simp only [Action.enabled, Bool.and_eq_true] at hen
          obtain ⟨h1, h2, -⟩ := Driver.ready_spec hen.1
          have hlist : .threadTodo T = deathList (s.thread.get S) S := hputs
          unfold deathList at hlist
          split_ifs at hlist
          obtain rfl : T = S := ListHead.threadTodo.inj hlist
          exact ⟨h1, h2⟩
        | deferredFunc p env =>
          obtain ⟨q, hq⟩ := hputs
          cases hq
        | _ => cases hputs
      · cases hq
    rw [hg.threadNext, (hg.freed T).resolve_left hstay]
    exact hlive

theorem listsLive_reach (h : (driverMachine L rb).Reach ok s) : ListsLive s := by
  refine h.invariant_of (I := fun s => DeathInv s ∧ ThreadInv s)
    (fun s hs => ⟨deathInv_reach hs, threadInv_reach hs⟩) (fun s hs => ?_)
    fun s a hi _ h1 _ => h1.step hi.1 hi.2 a
  cases hs
  exact fun T d hon => absurd hon List.not_mem_nil

/-! What is forgotten -/

/-- No thread exits with a death record on its list. -/
abbrev leavesNoNotice (s : Driver) (a : Action) : Prop :=
  ∀ T, a = .threadExit T → ∀ d, (.threadTodo T, .death d) ∉ s.obj.todo.entries

/-- The deferred release of the process has run. -/
def Driver.isReleased (s : Driver) (p : ℕ) : Prop := (s.proc.get p).released = true

theorem Remembered.weaken {X P P' : ℕ → Prop} (h : Remembered X P s d) (hP : ∀ p, P p → P' p) :
    Remembered X P' s d :=
  ⟨fun r hr hx hp => h.noticed r hr hx fun h1 => hp (hP _ h1), fun hp => h.clearing fun h1 => hp (hP _ h1)⟩

/-- Released processes stay so. -/
theorem isReleased_apply (hu : Unborn s) (a : Action) (hp : s.isReleased p) :
    (a.apply L rb s).isReleased p := by
  unfold Driver.isReleased at hp ⊢
  cases hc : a.creates with
  | true =>
    cases a with
    | openProc pid =>
      have hne : p ≠ s.proc.next := fun he => by
        have hclosed := hu.closed p he.ge
        rw [hu.released p hp] at hclosed
        cases hclosed
      exact (congrArg (·.released) (s.proc.get_alloc_ne p _ hne)).trans hp
    | getThread q pid =>
      simp only [Action.apply, binderGetThread]
      split
      · exact hp
      · have hkeep := s.proc.apply_get_modify q p (fun x => { x with
          threads := treeInsert (fun T => ((newThread s q pid).thread.get T).pid) s.thread.next
            x.threads }) (·.released) fun _ => rfl
        exact hkeep.trans hp
    | _ => cases hc
  | false => exact (apply_grows L rb s a hc).stays p hp

theorem remembered_step (hi : DeathInv s) (ht : ThreadInv s) (hu : Unborn s) (a : Action)
    (ha : leavesNoNotice s a) (h : ∀ d, Remembered (fun _ => False) s.isReleased s d) (d : ℕ) :
    Remembered (fun _ => False) ((driverMachine L rb).step s a).isReleased
      ((driverMachine L rb).step s a) d := by
  by_cases hen : a.enabled L s = true
  swap
  · rw [show (driverMachine L rb).step s a = s from if_neg hen]
    exact h d
  rw [show (driverMachine L rb).step s a = a.apply L rb s from if_pos hen]
  have hwalk := a.deaths L rb hi ht hen
  have h' : ∀ d, Remembered (fun _ => False) (a.apply L rb s).isReleased s d := fun d =>
    (h d).weaken fun p => isReleased_apply hu a
  cases a with
  | threadExit T => exact (h' d).undying (binderFreeThread_undying (ha T rfl))
  | deferredFunc p env =>
    have hbefore := fun d => (h' d).undying (beforeRelease_undying s p)
    have hmarked := binderDeferredFunc_eq L rb s p env
    simp only [Action.apply] at hbefore ⊢
    split_ifs at hmarked with hr
    · -- what is thrown away is of the process that is released here
      rw [hmarked] at hbefore ⊢
      refine (deferredRelease_releases L rb env hi ht).1.remembered _ ?_ hbefore d
      simp [Driver.isReleased, binderDeferredRelease, Driver.modProc]
    · rw [hmarked] at hbefore ⊢
      exact hbefore d
  | _ => exact hwalk.remembered hi (fun _ => id) (fun _ => False.elim) h' d

theorem remembered_reach (h : (driverMachine L rb).Reach leavesNoNotice s) :
    ∀ d, Remembered (fun _ => False) s.isReleased s d := by
  refine h.invariant_of (I := fun s => DeathInv s ∧ ThreadInv s ∧ Unborn s)
    (fun s hs => ⟨deathInv_reach hs, threadInv_reach hs, unborn_reach hs⟩) (fun s hs => ?_)
    fun s a hi _ h1 ha => remembered_step hi.1 hi.2.1 hi.2.2 a ha h1
  cases hs
  exact fun d => ⟨fun r hr => absurd hr.1 List.not_mem_nil, fun _ hc => absurd hc List.not_mem_nil⟩

/-! The results -/

/-- A record is freed once, when nothing refers to it any more, and what the processes are told
comes in order. -/
structure DeathSafety (s : Driver) : Prop where
  freed : ∀ d < s.obj.death.next, (s.obj.death.get d).freed ≤ 1 ∧
    ((s.obj.death.get d).freed = 0 ↔ (∃ r, s.Attached r d) ∨ ∃ l, s.On l d)
  order : DeathOrder s.history
  release : .nodeReleaseDeath ∉ s.obj.oops
  clear : .clearDeathType ∉ s.obj.oops

theorem death_safety (h : (driverMachine L rb).Reach ok s) : DeathSafety s ∧
    (∀ r d, s.Attached r d → ∀ as h₁ h₂ T, ((driverMachine L rb).exec s as).history =
      h₁ ++ .br T (.deadBinder d) :: h₂ → .nodeReleased (s.obj.ref.get r).node ∈ h₁) ∧
    ∀ p env, (Action.deferredFunc p env).enabled L s = true →
      (s.proc.get p).deferred.release = true →
      ∀ d < ((driverMachine L rb).step s (.deferredFunc p env)).obj.death.next,
        (((driverMachine L rb).step s (.deferredFunc p env)).obj.death.get d).proc = p →
        (((driverMachine L rb).step s (.deferredFunc p env)).obj.death.get d).freed = 1 := by
  have hi := deathInv_reach h
  have ht := threadInv_reach h
  refine ⟨⟨fun d hd => ⟨(hi.record d).once, (hi.record d).kept hd⟩, hi.order, hi.release, hi.clear⟩,
    fun r d hr as h₁ h₂ T heq => ?_, fun p env hen hr d hd hp => ?_⟩
  · have hstart : NoticeInv ({} : Driver) := fun r d hr => absurd hr.1 List.not_mem_nil
    have hnotice := reach_keeps (P := NoticeInv) (fun _ _ _ hs hi h => hs.notices hi h) hstart h
    have hconcerns := exec_keeps L rb (P := (Concerns (s.obj.ref.get r).node · d))
      (fun _ _ _ hs hi h => hs.concerns hi h) hi ht as (hnotice r d hr)
    exact hconcerns.told h₁ h₂ T heq
  · set s' := (driverMachine L rb).step s (.deferredFunc p env) with hs'
    have hi' : DeathInv s' := deathInv_step hi ht _
    have ht' : ThreadInv s' := ht.step _
    have hlive : ListsLive s' := (listsLive_reach h).step hi ht _
    have heq : s' = binderDeferredRelease L rb env (beforeRelease s p) p := by
      rw [hs', show (driverMachine L rb).step s (.deferredFunc p env) =
        binderDeferredFunc L rb env s p from if_pos hen, binderDeferredFunc_eq, if_pos hr]
    obtain ⟨-, hnil, hlists⟩ := deferredRelease_releases (p := p) L rb env hi ht
    rw [← heq] at hnil hlists
    have hrec := hi'.record d
    refine Nat.le_antisymm hrec.once (Nat.one_le_iff_ne_zero.2 fun hfreed => ?_)
    rcases (hrec.kept hd).1 hfreed with ⟨r, hatt⟩ | ⟨l, hon⟩
    · have hmem := hatt.1
      rw [hrec.owner r hatt, hp, hnil] at hmem
      cases hmem
    · obtain ⟨h1, h2, h3⟩ := hlists l d hon
      rcases hrec.home l hon with he | he
      · exact h2 (he.trans (by rw [hp]))
      · rw [hp] at he
        cases l with
        | procTodo q => exact h1 (congrArg ListHead.procTodo he)
        | threadTodo T =>
          have hmem := (ht'.listed p T).2 ⟨he.1, (hlive T d hon).2, he.2⟩
          have hg : ∀ T ∈ (s'.proc.get p).threads, T ∈ (s.proc.get p).threads := fun T hT => by
            have hsub := (apply_grows L rb s (.deferredFunc p env) rfl).threads p
            rw [hs', show (driverMachine L rb).step s (.deferredFunc p env) =
              Action.apply L rb s (.deferredFunc p env) from if_pos hen] at hT
            exact hsub.subset hT
          exact h3 T (hg T hmem) rfl
        | deliveredDeath q => exact he.elim
        | asyncTodo n => exact he.elim

/-- The client asks to be told of the context manager's death, which it is. -/
def mourningClient : List Action :=
  [.openProc 50, .getThread 0 50, .setContextMgr 0 1000 true, .openProc 100, .getThread 1 100,
    .write 1 (.ref .increfs 0) {}, .write 1 (.requestDeathNotification 0 7) {}, .close 0,
    .deferredFunc 0 fun _ => {}, .read 1 256 0 false fun _ => false, .lookForWork 1,
    .resume 1 fun _ => false]

theorem death_safety_client : DeathSafety (afterActions mourningClient) ∧
    .br 1 (.deadBinder 0) ∈ (afterActions mourningClient).history :=
  ⟨(death_safety (reach_afterActions mourningClient)).1, by decide +kernel⟩

/-- The record is on a list that a thread of the process reads. -/
def Awaited (s : Driver) (p d : ℕ) : Prop :=
  s.On (.procTodo p) d ∨ ∃ T ∈ (s.proc.get p).threads, s.On (.threadTodo T) d

theorem awaited_of_isTodo (ht : ThreadInv s) (hlive : ListsLive s) (hl : s.IsTodo p l)
    (hon : s.On l d) : Awaited s p d := by
  cases l with
  | procTodo q =>
    obtain rfl : q = p := hl
    exact Or.inl hon
  | threadTodo T => exact Or.inr ⟨T, (ht.listed p T).2 ⟨hl.1, (hlive T d hon).2, hl.2⟩, hon⟩
  | deliveredDeath q => exact hl.elim
  | asyncTodo n => exact hl.elim

/-- What a process has to be told of its death records is said, or is still on its way. -/
structure NoticesKept (s : Driver) (p : ℕ) : Prop where
  dead : ∀ r ∈ (s.obj.own p).refsByDesc, ∀ d, (s.obj.ref.get r).death = some d →
    (s.obj.node.get (s.obj.ref.get r).node).proc = none →
    (∃ T, (s.thread.get T).proc = p ∧ .br T (.deadBinder d) ∈ s.history) ∨ Awaited s p d
  cleared : ∀ d, (s.obj.death.get d).proc = p → .deathCleared d ∈ s.history →
    (∀ T, .br T (.clearDeathNotificationDone d) ∉ s.history) →
    Awaited s p d ∨ (.deliveredDeath p, .death d) ∈ s.obj.todo.entries

theorem notices_kept (h : (driverMachine L rb).Reach leavesNoNotice s)
    (hp : (s.proc.get p).released = false) : NoticesKept s p := by
  have hi := deathInv_reach h
  have ht := threadInv_reach h
  have hlive := listsLive_reach h
  have hkeep := remembered_reach h
  have howner : ∀ d, ToldOwner s d := fun d => by
    refine reach_keeps (P := (ToldOwner · d)) (fun _ _ _ hs hi h => hs.toldOwner hi h) ?_ h
    exact fun T hT => absurd hT List.not_mem_nil
  have hopen : ∀ d, (s.obj.death.get d).proc = p → ¬s.isReleased (s.obj.death.get d).proc :=
    fun d hd hr => by
      rw [hd, Driver.isReleased, hp] at hr
      cases hr
  constructor
  · intro r hr d hd hdead
    have hproc := (hi.links.table p).owner r hr
    have hatt : s.Attached r d := ⟨hproc.symm ▸ hr, hd⟩
    have hrec := hi.record d
    have hpd : (s.obj.death.get d).proc = p := (hrec.owner r hatt).symm.trans hproc
    by_cases htold : s.Told d
    · obtain ⟨T, hT⟩ := htold
      exact Or.inl ⟨T, ((howner d T hT).2).trans hpd, hT⟩
    · obtain ⟨l, hon⟩ := (hkeep d).noticed r hatt id (hopen d hpd) hdead htold
      rcases hrec.home l hon with he | he
      · exact absurd (hrec.delivered (he ▸ hon)).1 htold
      · exact Or.inr (awaited_of_isTodo ht hlive (hpd ▸ he) hon)
  · intro d hpd hcleared hnot
    obtain ⟨l, hon⟩ := (hkeep d).clearing (hopen d hpd) hcleared fun ⟨T, hT⟩ => hnot T hT
    rcases (hi.record d).home l hon with he | he
    · rw [he, hpd] at hon
      exact Or.inr hon
    · exact Or.inl (awaited_of_isTodo ht hlive (hpd ▸ he) hon)

theorem admits_noExit {as : List Action} (h : ∀ a ∈ as, a.leaver = none) (s : Driver) :
    (driverMachine L rb).Admits leavesNoNotice s as := by
  induction as generalizing s with
  | nil => trivial
  | cons a as ih =>
    refine ⟨fun T he => ?_, ih (fun a ha => h a (List.mem_cons_of_mem _ ha)) _⟩
    have hnone := h a List.mem_cons_self
    rw [he] at hnone
    cases hnone

theorem notices_kept_client : NoticesKept (afterActions mourningClient) 1 := by
  have hadm : (driverMachine layout32 .plain).Admits leavesNoNotice {} mourningClient :=
    admits_noExit (by decide +kernel) _
  have hstart : (driverMachine layout32 .plain).Reach leavesNoNotice {} := .start rfl
  exact notices_kept (hstart.exec hadm) (by decide +kernel)

/-- A looper asks late to be told of the context manager's death, and exits. -/
def forgetfulClient : List Action :=
  [.openProc 50, .getThread 0 50, .setContextMgr 0 1000 true, .openProc 100, .getThread 1 100,
    .write 1 (.ref .increfs 0) {}, .close 0, .deferredFunc 0 fun _ => {}, .write 1 .enterLooper {},
    .write 1 (.requestDeathNotification 0 7) {}, .threadExit 1]

theorem notice_lost : ¬∀ s, (driverMachine layout32 .plain).Reach (fun _ _ => True) s →
    ∀ p, (s.proc.get p).closed = false → NoticesKept s p := by
  intro hall
  have hkept := hall _ (reach_afterActions forgetfulClient) 1 (by decide +kernel)
  have hsilent : ∀ e ∈ (afterActions forgetfulClient).history, e.deathOf = none := by decide +kernel
  have hempty : ∀ x ∈ (afterActions forgetfulClient).obj.todo.entries, x.2 ≠ .death 0 := by
    decide +kernel
  rcases hkept.dead 0 (by decide +kernel) 0 (by decide +kernel) (by decide +kernel) with
    ⟨T, -, hT⟩ | hon | ⟨T, -, hon⟩
  · have hnone := hsilent _ hT
    cases hnone
  · exact hempty _ hon rfl
  · exact hempty _ hon rfl

end Binder

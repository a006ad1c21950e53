import BinderIpc.Driver.Links

/-! Death records: where each one is, what the process was told about it, and
the steps that move it. -/

namespace Binder

/-- The death record that the process and the driver exchange word about. -/
def Event.deathOf : Event → Option ℕ
  | br _ (.deadBinder d) | br _ (.clearDeathNotificationDone d) => some d
  | deathCleared d | deadBinderDone d => some d
  | _ => none

namespace Driver

variable (s : Driver)

/-- `ref->death`, for a reference that is there. -/
def Attached (r d : ℕ) : Prop :=
  r ∈ (s.obj.own (s.obj.ref.get r).proc).refsByDesc ∧ (s.obj.ref.get r).death = some d

/-- The record is on the list. -/
def On (l : ListHead) (d : ℕ) : Prop := (l, .death d) ∈ s.obj.todo.entries

/-- `BR_DEAD_BINDER` was written for the record. -/
def Told (d : ℕ) : Prop := ∃ T, .br T (.deadBinder d) ∈ s.history

/-- `BR_CLEAR_DEATH_NOTIFICATION_DONE` was written for it. -/
def ToldClear (d : ℕ) : Prop := ∃ T, .br T (.clearDeathNotificationDone d) ∈ s.history

/-- The lists of undelivered work of a process. -/
def IsTodo (p : ℕ) : ListHead → Prop
  | .procTodo q => q = p
  | .threadTodo T => T < s.thread.next ∧ (s.thread.get T).proc = p
  | _ => False

/-- The owner of the reference's node is dead. -/
def NodeDead (r : ℕ) : Prop := (s.obj.node.get (s.obj.ref.get r).node).proc = none

end Driver

structure RecordInv (s : Driver) (d : ℕ) : Prop where
  unique : ∀ r r', s.Attached r d → s.Attached r' d → r = r'
  place : ∀ l l', s.On l d → s.On l' d → l = l'
  home : ∀ l, s.On l d → l = .deliveredDeath (s.obj.death.get d).proc ∨
    s.IsTodo (s.obj.death.get d).proc l
  owner : ∀ r, s.Attached r d → (s.obj.ref.get r).proc = (s.obj.death.get d).proc
  once : (s.obj.death.get d).freed ≤ 1
  kept : d < s.obj.death.next →
    ((s.obj.death.get d).freed = 0 ↔ (∃ r, s.Attached r d) ∨ ∃ l, s.On l d)
  unborn : s.obj.death.next ≤ d → (∀ r, ¬s.Attached r d) ∧ (∀ l, ¬s.On l d) ∧
    (s.obj.death.get d).freed = 0 ∧ ¬s.Told d ∧ ¬s.ToldClear d ∧
    .deathCleared d ∉ s.history ∧ .deadBinderDone d ∉ s.history
  wanted : ∀ r, s.Attached r d → .deathCleared d ∉ s.history ∧ (s.Told d → s.NodeDead r) ∧
    ∀ l, s.On l d → (s.obj.death.get d).type = some .deadBinder ∧ s.NodeDead r
  cleared : (∀ r, ¬s.Attached r d) → ∀ l, s.On l d → .deathCleared d ∈ s.history ∧
    ((s.obj.death.get d).type = some .deadBinderAndClear ∨
      (s.obj.death.get d).type = some .clearDeathNotification)
  delivered : s.On (.deliveredDeath (s.obj.death.get d).proc) d →
    s.Told d ∧ (s.obj.death.get d).type ≠ some .clearDeathNotification
  fresh : ∀ l, s.On l d → l ≠ .deliveredDeath (s.obj.death.get d).proc →
    (s.obj.death.get d).type ≠ some .clearDeathNotification → ¬s.Told d
  answered : s.Told d → .deadBinderDone d ∉ s.history →
    (s.obj.death.get d).freed = 1 ∨ s.On (.deliveredDeath (s.obj.death.get d).proc) d
  ended : s.ToldClear d → (s.obj.death.get d).freed = 1

/-- Nothing happens to the record. -/
structure SameRecord (s s' : Driver) (d : ℕ) : Prop where
  attached : ∀ r, s'.Attached r d ↔ s.Attached r d
  on : ∀ l, s'.On l d ↔ s.On l d
  death : s'.obj.death.get d = s.obj.death.get d
  born : d < s'.obj.death.next ↔ d < s.obj.death.next
  told : s'.Told d ↔ s.Told d
  toldClear : s'.ToldClear d ↔ s.ToldClear d
  cleared : .deathCleared d ∈ s'.history ↔ .deathCleared d ∈ s.history
  done : .deadBinderDone d ∈ s'.history ↔ .deadBinderDone d ∈ s.history
  proc : ∀ r, s.Attached r d → (s'.obj.ref.get r).proc = (s.obj.ref.get r).proc
  nodeDead : ∀ r, s.Attached r d → s.NodeDead r → s'.NodeDead r
  todo : ∀ p l, s.IsTodo p l → s'.IsTodo p l

theorem RecordInv.congr {s s' : Driver} {d : ℕ} (h : RecordInv s d) (hs : SameRecord s s' d) :
    RecordInv s' d where
  unique r r' hr hr' := h.unique r r' ((hs.attached r).1 hr) ((hs.attached r').1 hr')
  place l l' hl hl' := h.place l l' ((hs.on l).1 hl) ((hs.on l').1 hl')
  home l hl := by
    rw [hs.death]
    exact (h.home l ((hs.on l).1 hl)).imp_right (hs.todo _ l)
  owner r hr := by
    have hr' := (hs.attached r).1 hr
    rw [hs.death, hs.proc r hr']
    exact h.owner r hr'
  once := by
    rw [hs.death]
    exact h.once
  kept hd := by
    simp only [hs.death, hs.attached, hs.on]
    exact h.kept (hs.born.1 hd)
  unborn hd := by
    simp only [hs.death, hs.attached, hs.on, hs.told, hs.toldClear, hs.cleared, hs.done]
    exact h.unborn (not_lt.1 fun hlt => hd.not_gt (hs.born.2 hlt))
  wanted r hr := by
    have hr' := (hs.attached r).1 hr
    obtain ⟨h1, h2, h3⟩ := h.wanted r hr'
    rw [hs.cleared, hs.death, hs.told]
    refine ⟨h1, fun ht => hs.nodeDead r hr' (h2 ht), fun l hl => ?_⟩
    obtain ⟨h4, h5⟩ := h3 l ((hs.on l).1 hl)
    exact ⟨h4, hs.nodeDead r hr' h5⟩
  cleared hnone l hl := by
    rw [hs.death, hs.cleared]
    exact h.cleared (fun r hr => hnone r ((hs.attached r).2 hr)) l ((hs.on l).1 hl)
  delivered hl := by
    rw [hs.death] at hl ⊢
    rw [hs.told]
    exact h.delivered ((hs.on _).1 hl)
  fresh l hl := by
    rw [hs.death, hs.told]
    exact h.fresh l ((hs.on l).1 hl)
  answered := by
    rw [hs.death, hs.told, hs.done, hs.on]
    exact h.answered
  ended := by
    rw [hs.death, hs.toldClear]
    exact h.ended

/-! Steps -/

/-- A step that is about the record `d` only. -/
structure OnlyRecord (s s' : Driver) (d : ℕ) : Prop where
  thread : s'.thread = s.thread
  ref : ∀ r, ({ s'.obj.ref.get r with death := none } : BinderRef).bare =
    ({ s.obj.ref.get r with death := none } : BinderRef).bare
  refDeath : ∀ r d', d' ≠ d →
    ((s'.obj.ref.get r).death = some d' ↔ (s.obj.ref.get r).death = some d')
  refNext : s'.obj.ref.next = s.obj.ref.next
  own : s'.obj.own = s.obj.own
  node : s'.obj.node = s.obj.node
  mgr : s'.obj.contextMgrNode = s.obj.contextMgrNode
  entry : ∀ l d', d' ≠ d → (s'.On l d' ↔ s.On l d')
  async : ∀ n, s'.On (.asyncTodo n) d → s.On (.asyncTodo n) d
  death : ∀ d', d' ≠ d → s'.obj.death.get d' = s.obj.death.get d'
  next : ∀ d', d' ≠ d → (d' < s'.obj.death.next ↔ d' < s.obj.death.next)
  history : ∃ es, s'.history = s.history ++ es ∧ ∀ e ∈ es, e.deathOf = none ∨ e.deathOf = some d
  descs : .descInUse ∈ s'.obj.oops → .descInUse ∈ s.obj.oops

theorem OnlyRecord.mem {s s' : Driver} {d d' : ℕ} (h : OnlyRecord s s' d) (hne : d' ≠ d)
    {e : Event} (he : e.deathOf = some d') : e ∈ s'.history ↔ e ∈ s.history := by
  obtain ⟨es, hes, hall⟩ := h.history
  rw [hes, List.mem_append, or_iff_left]
  intro hmem
  rcases hall e hmem with h1 | h1
  · rw [he] at h1
    cases h1
  · rw [he] at h1
    exact hne (Option.some.inj h1)

theorem OnlyRecord.tables {s s' : Driver} {d : ℕ} (h : OnlyRecord s s' d) :
    SameTables s.obj s'.obj where
  refNext := h.refNext
  ref := h.ref
  byDesc p := by rw [h.own]
  byNode p := by rw [h.own]
  nodes p := by rw [h.own]
  nodeNext := by rw [h.node]
  refs n := by rw [h.node]
  proc _ n _ := by rw [h.node]
  mgr n hn := Or.inl (h.mgr ▸ hn)
  async n d' hd := by
    by_cases hne : d' = d
    · subst hne
      exact h.async n hd
    · exact (h.entry _ d' hne).1 hd
  descs := h.descs

theorem OnlyRecord.refProc {s s' : Driver} {d : ℕ} (h : OnlyRecord s s' d) (r : ℕ) :
    (s'.obj.ref.get r).proc = (s.obj.ref.get r).proc := congrArg (·.proc) (h.ref r)

theorem OnlyRecord.nodeDead {s s' : Driver} {d : ℕ} (h : OnlyRecord s s' d) (r : ℕ) :
    s'.NodeDead r ↔ s.NodeDead r := by
  unfold Driver.NodeDead
  rw [h.node, show (s'.obj.ref.get r).node = (s.obj.ref.get r).node from
    congrArg (·.node) (h.ref r)]

theorem OnlyRecord.isTodo {s s' : Driver} {d : ℕ} (h : OnlyRecord s s' d) (p : ℕ) (l : ListHead) :
    s'.IsTodo p l ↔ s.IsTodo p l := by
  cases l <;> simp [Driver.IsTodo, h.thread]

/-- Whether a reference that is there stays, for a step about the record. -/
theorem OnlyRecord.live {s s' : Driver} {d : ℕ} (h : OnlyRecord s s' d) (r : ℕ) :
    r ∈ (s'.obj.own (s'.obj.ref.get r).proc).refsByDesc ↔
      r ∈ (s.obj.own (s.obj.ref.get r).proc).refsByDesc := by
  rw [h.own, h.refProc]

theorem OnlyRecord.same {s s' : Driver} {d d' : ℕ} (h : OnlyRecord s s' d) (hne : d' ≠ d) :
    SameRecord s s' d' where
  attached r := by
    unfold Driver.Attached
    rw [h.live, h.refDeath r d' hne]
  on l := h.entry l d' hne
  death := h.death d' hne
  born := h.next d' hne
  told := exists_congr fun T => h.mem hne rfl
  toldClear := exists_congr fun T => h.mem hne rfl
  cleared := h.mem hne rfl
  done := h.mem hne rfl
  proc r _ := h.refProc r
  nodeDead r _ := (h.nodeDead r).2
  todo p l := (h.isTodo p l).2

/-- A step that has nothing to do with references or death records. -/
structure Undying (s s' : Driver) : Prop where
  links : SameLinks s.obj s'.obj
  history : ∃ es, s'.history = s.history ++ es ∧ ∀ e ∈ es, e.deathOf = none
  threadNext : s.thread.next ≤ s'.thread.next
  owner : ∀ T < s.thread.next, (s'.thread.get T).proc = (s.thread.get T).proc

/-- The record goes to the end of a list, as work of this type. -/
def putDeath (o : Objects) (d : ℕ) (type : DeathWork) (l : ListHead) : Objects :=
  let o := o.modDeath d fun z => { z with type := some type }
  { o with todo := o.todo.addTail l (.death d) }

/-- The state after a notification was asked for with the reference. -/
def requested (s : Driver) (r cookie : ℕ) : Driver :=
  (s.modObj fun o =>
    { o.modRef r fun x => { x with death := some s.obj.death.next } with
      death := o.death.alloc { cookie := cookie, proc := (s.obj.ref.get r).proc } }).note
    (.deathRequested s.obj.death.next)

/-- The state in which a cleared record is left by its reference. -/
def detached (s : Driver) (r d : ℕ) : Driver :=
  (s.modObj fun o => o.modRef r fun x => { x with death := none }).note (.deathCleared d)

/-- The state in which an answer leaves the record that it is about. -/
def afterAnswer (s : Driver) (d : ℕ) : Driver :=
  (s.modObj fun o => { o with todo := o.todo.del (.death d) }).note (.deadBinderDone d)

/-- The state after `BR_DEAD_BINDER`. -/
def afterTell (s : Driver) (T d : ℕ) : Driver :=
  (s.note (.br T (.deadBinder d))).modObj fun o =>
    { o with todo := o.todo.moveHead (.deliveredDeath (s.thread.get T).proc) (.death d) }

/-- The state after `BR_CLEAR_DEATH_NOTIFICATION_DONE`. -/
def afterTellClear (s : Driver) (T d : ℕ) : Driver :=
  (s.note (.br T (.clearDeathNotificationDone d))).modObj (freeDeath · d)

/-- What the steps of a part of a run may do. -/
structure DeathScope where
  /-- the lists that records are put on -/
  puts : ListHead → Prop
  /-- the processes whose records are thrown away -/
  throws : ℕ → Prop
  /-- the nodes whose owner goes -/
  orphans : ℕ → Prop

def DeathScope.any : DeathScope := ⟨fun _ => True, fun _ => True, fun _ => True⟩

inductive DeathStep (K : DeathScope) (s : Driver) : Driver → Prop
  | quiet {s' : Driver} (h : Undying s s') : DeathStep K s s'
  | link {o : Objects} (h : LinkStep s.obj o) : DeathStep K s { s with obj := o }
  | orphan {n : ℕ} (f : BinderNode → BinderNode) (hrefs : ∀ x, (f x).refs = x.refs)
    (hproc : ∀ x, (f x).proc = none) (hrel : .nodeReleased n ∈ s.history)
    (hown : ∀ p, n ∉ (s.obj.own p).nodes) (hK : K.orphans n) :
    DeathStep K s (s.modObj fun o => o.modNode n f)
  | request {r : ℕ} (cookie : ℕ) (hr : r ∈ (s.obj.own (s.obj.ref.get r).proc).refsByDesc)
    (hnone : (s.obj.ref.get r).death = none) (halive : ¬s.NodeDead r) :
    DeathStep K s (requested s r cookie)
  | requestDead {r : ℕ} {l : ListHead} (cookie : ℕ)
    (hr : r ∈ (s.obj.own (s.obj.ref.get r).proc).refsByDesc)
    (hnone : (s.obj.ref.get r).death = none) (hdead : s.NodeDead r)
    (hl : s.IsTodo (s.obj.ref.get r).proc l) (hK : K.puts l) :
    DeathStep K s ((requested s r cookie).modObj (putDeath · s.obj.death.next .deadBinder l))
  | notice {r d : ℕ} {l : ListHead} (hr : s.Attached r d) (hoff : ∀ l, ¬s.On l d)
    (hdead : s.NodeDead r) (htold : ¬s.Told d) (hl : s.IsTodo (s.obj.ref.get r).proc l)
    (hK : K.puts l) : DeathStep K s (s.modObj (putDeath · d .deadBinder l))
  | clearOn {r d : ℕ} {l : ListHead} (hr : s.Attached r d) (hon : s.On l d) :
    DeathStep K s (((detached s r d).bugOn ((s.obj.death.get d).type ≠ some .deadBinder)
      .clearDeathType).modObj fun o =>
        o.modDeath d fun z => { z with type := some .deadBinderAndClear })
  | clearOff {r d : ℕ} {l : ListHead} (hr : s.Attached r d) (hoff : ∀ l, ¬s.On l d)
    (hl : s.IsTodo (s.obj.ref.get r).proc l) (hK : K.puts l) :
    DeathStep K s ((detached s r d).modObj (putDeath · d .clearDeathNotification l))
  | answer {p d : ℕ} (hon : s.On (.deliveredDeath p) d)
    (htype : (s.obj.death.get d).type ≠ some .deadBinderAndClear) :
    DeathStep K s (afterAnswer s d)
  | answerClear {p d : ℕ} {l : ListHead} (hon : s.On (.deliveredDeath p) d)
    (htype : (s.obj.death.get d).type = some .deadBinderAndClear) (hl : s.IsTodo p l)
    (hK : K.puts l) :
    DeathStep K s ((afterAnswer s d).modObj (putDeath · d .clearDeathNotification l))
  | tell {T d : ℕ} {l : ListHead} (hT : T < s.thread.next) (hon : s.On l d)
    (hl : s.IsTodo (s.thread.get T).proc l)
    (htype : (s.obj.death.get d).type ≠ some .clearDeathNotification) :
    DeathStep K s (afterTell s T d)
  | tellClear {T d : ℕ} {l : ListHead} (hon : s.On l d) (hl : s.IsTodo (s.thread.get T).proc l)
    (htype : (s.obj.death.get d).type = some .clearDeathNotification) :
    DeathStep K s (afterTellClear s T d)
  | throw {l : ListHead} {d : ℕ} (hon : s.On l d)
    (hfree : ∀ p, l = .deliveredDeath p → ∀ r, ¬s.Attached r d)
    (hK : K.throws (s.obj.death.get d).proc) :
    DeathStep K s (releaseItem (unqueue s (.death d)) (.death d))

/-! The steps that are not about one record -/

section

variable {s s' : Driver} {o : Objects} {d : ℕ}

/-- What a step adds to the history does not concern the record. -/
theorem mem_history_iff {es : List Event} {e : Event} (hes : s'.history = s.history ++ es)
    (hall : ∀ e ∈ es, e.deathOf = none) (he : e.deathOf = some d) :
    e ∈ s'.history ↔ e ∈ s.history := by
  rw [hes, List.mem_append, or_iff_left]
  intro hmem
  rw [hall e hmem] at he
  cases he

theorem Undying.same (h : Undying s s') : SameRecord s s' d := by
  obtain ⟨es, hes, hall⟩ := h.history
  have hmem : ∀ e, e.deathOf = some d → (e ∈ s'.history ↔ e ∈ s.history) := fun e he =>
    mem_history_iff hes hall he
  refine ⟨fun r => ?_, fun l => h.links.entry l d, by rw [h.links.death], by rw [h.links.death],
    exists_congr fun T => hmem _ rfl, exists_congr fun T => hmem _ rfl, hmem _ rfl, hmem _ rfl,
    fun r _ => h.links.refProc r, fun r _ hd => ?_, fun p l hl => ?_⟩
  · unfold Driver.Attached
    rw [h.links.refProc, h.links.byDesc, h.links.refDeath]
  · unfold Driver.NodeDead
    rw [h.links.refNode, h.links.proc]
    exact hd
  · cases l with
    | threadTodo T => exact ⟨hl.1.trans_le h.threadNext, (h.owner T hl.1).trans hl.2⟩
    | procTodo q => exact hl
    | deliveredDeath q => exact hl
    | asyncTodo n => exact hl

/-- A step of the objects alone: what there is to show for a record. -/
theorem sameRecord_obj (hatt : ∀ r, ({ s with obj := o } : Driver).Attached r d ↔ s.Attached r d)
    (hon : ∀ l, (l, .death d) ∈ o.todo.entries ↔ s.On l d)
    (hdeath : o.death.get d = s.obj.death.get d) (hnext : o.death.next = s.obj.death.next)
    (hproc : ∀ r, s.Attached r d → (o.ref.get r).proc = (s.obj.ref.get r).proc)
    (hdead : ∀ r, s.Attached r d → s.NodeDead r → (o.node.get (o.ref.get r).node).proc = none) :
    SameRecord s { s with obj := o } d :=
  ⟨hatt, hon, hdeath, by rw [hnext], Iff.rfl, Iff.rfl, Iff.rfl, Iff.rfl, hproc, hdead,
    fun _ l hl => by cases l <;> exact hl⟩

theorem RefsInv.node_lt (h : RefsInv s.obj) {r : ℕ} (hr : s.Attached r d) :
    (s.obj.ref.get r).node < s.obj.node.next := (h.live _ r hr.1).2.1

theorem sameRecord_newNode (h : RefsInv s.obj) {p : ℕ} (x : BinderNode) (key : ℕ → ℕ) :
    SameRecord s { s with
      obj := (({ s.obj with node := s.obj.node.alloc x } : Objects).modOwn p fun w =>
        { w with nodes := treeInsert key s.obj.node.next w.nodes }) } d := by
  refine sameRecord_obj (fun r => ?_) (fun _ => Iff.rfl) rfl rfl (fun _ _ => rfl) fun r hr hd => ?_
  · unfold Driver.Attached
    simp only [Objects.modOwn]
    split_ifs with hp
    · rw [hp]
    · rfl
  · exact (congrArg BinderNode.proc (s.obj.node.get_alloc_ne _ x (h.node_lt hr).ne)).trans hd

theorem sameRecord_newRef (h : RefsInv s.obj) (p n : ℕ) :
    SameRecord s { s with obj := newRef s.obj p n } d := by
  have hold : ∀ r, r ≠ s.obj.ref.next → (newRef s.obj p n).ref.get r = s.obj.ref.get r :=
    fun r hr => s.obj.ref.get_alloc_ne r _ hr
  have hne : ∀ r, s.Attached r d → r ≠ s.obj.ref.next := fun r hr => ((h.table _).below r hr.1).ne
  refine sameRecord_obj (fun r => ?_) (fun _ => Iff.rfl) rfl rfl
    (fun r hr => by rw [hold r (hne r hr)]) fun r hr hd => ?_
  · by_cases hr : r = s.obj.ref.next
    · refine iff_of_false (fun ha => ?_) fun ha => hne r ha hr
      have hnone : ((newRef s.obj p n).ref.get r).death = none := by
        rw [hr]
        exact congrArg BinderRef.death (s.obj.ref.get_alloc_self _)
      rw [Driver.Attached, hnone] at ha
      cases ha.2
    · unfold Driver.Attached
      rw [hold r hr, mem_newRef, or_iff_right fun he => hr he.1]
  · rw [hold r (hne r hr), proc_newRef]
    exact hd

theorem sameRecord_orphan {n : ℕ} {f : BinderNode → BinderNode} (hproc : ∀ x, (f x).proc = none) :
    SameRecord s (s.modObj fun o => o.modNode n f) d := by
  refine sameRecord_obj (fun _ => Iff.rfl) (fun _ => Iff.rfl) rfl rfl (fun _ _ => rfl)
    fun r hr hd => ?_
  simp only [Objects.modNode, Heap.get_modify]
  split_ifs
  · exact hproc _
  · exact hd

/-! A record by where it is -/

theorem RecordInv.gone (hatt : ∀ r, ¬s.Attached r d) (hoff : ∀ l, ¬s.On l d)
    (hfreed : (s.obj.death.get d).freed = 1) (hborn : d < s.obj.death.next) : RecordInv s d where
  unique r _ hr := absurd hr (hatt r)
  place l _ hl := absurd hl (hoff l)
  home l hl := absurd hl (hoff l)
  owner r hr := absurd hr (hatt r)
  once := hfreed.le
  kept _ := by
    rw [hfreed]
    exact iff_of_false one_ne_zero fun h =>
      h.elim (fun ⟨r, hr⟩ => hatt r hr) fun ⟨l, hl⟩ => hoff l hl
  unborn hd := absurd hborn hd.not_gt
  wanted r hr := absurd hr (hatt r)
  cleared _ l hl := absurd hl (hoff l)
  delivered hl := absurd hl (hoff _)
  fresh l hl := absurd hl (hoff l)
  answered _ _ := Or.inl hfreed
  ended _ := hfreed

/-- On a reference, and on no list. -/
theorem RecordInv.off {r : ℕ} (hr : s.Attached r d) (hunique : ∀ r', s.Attached r' d → r' = r)
    (hoff : ∀ l, ¬s.On l d) (howner : (s.obj.ref.get r).proc = (s.obj.death.get d).proc)
    (hfreed : (s.obj.death.get d).freed = 0) (hborn : d < s.obj.death.next)
    (hcleared : .deathCleared d ∉ s.history)
    (htold : s.Told d → s.NodeDead r ∧ .deadBinderDone d ∈ s.history)
    (hended : ¬s.ToldClear d) : RecordInv s d where
  unique r₁ r₂ h₁ h₂ := (hunique r₁ h₁).trans (hunique r₂ h₂).symm
  place l _ hl := absurd hl (hoff l)
  home l hl := absurd hl (hoff l)
  owner r' hr' := by
    rw [hunique r' hr']
    exact howner
  once := by
    rw [hfreed]
    exact zero_le_one
  kept _ := iff_of_true hfreed (Or.inl ⟨r, hr⟩)
  unborn hd := absurd hborn hd.not_gt
  wanted r' hr' := by
    rw [hunique r' hr']
    exact ⟨hcleared, fun ht => (htold ht).1, fun l hl => absurd hl (hoff l)⟩
  cleared hnone := absurd hr (hnone r)
  delivered hl := absurd hl (hoff _)
  fresh l hl := absurd hl (hoff l)
  answered ht hd := absurd (htold ht).2 hd
  ended h := absurd h hended

/-- On a reference and on the list `l`. -/
theorem RecordInv.on {r : ℕ} {l : ListHead} (hr : s.Attached r d)
    (hunique : ∀ r', s.Attached r' d → r' = r) (hl : s.On l d) (hplace : ∀ l', s.On l' d → l' = l)
    (howner : (s.obj.ref.get r).proc = (s.obj.death.get d).proc)
    (hfreed : (s.obj.death.get d).freed = 0) (hborn : d < s.obj.death.next)
    (hcleared : .deathCleared d ∉ s.history) (htype : (s.obj.death.get d).type = some .deadBinder)
    (hdead : s.NodeDead r) (hended : ¬s.ToldClear d)
    (htodo : l = .deliveredDeath (s.obj.death.get d).proc ∧ s.Told d ∨
      s.IsTodo (s.obj.death.get d).proc l ∧ ¬s.Told d) : RecordInv s d where
  unique r₁ r₂ h₁ h₂ := (hunique r₁ h₁).trans (hunique r₂ h₂).symm
  place l₁ l₂ h₁ h₂ := (hplace l₁ h₁).trans (hplace l₂ h₂).symm
  home l' hl' := by
    rw [hplace l' hl']
    exact htodo.imp And.left And.left
  owner r' hr' := by
    rw [hunique r' hr']
    exact howner
  once := by
    rw [hfreed]
    exact zero_le_one
  kept _ := iff_of_true hfreed (Or.inl ⟨r, hr⟩)
  unborn hd := absurd hborn hd.not_gt
  wanted r' hr' := by
    rw [hunique r' hr']
    exact ⟨hcleared, fun _ => hdead, fun _ _ => ⟨htype, hdead⟩⟩
  cleared hnone := absurd hr (hnone r)
  delivered hl' := by
    rw [htype]
    rcases htodo with ⟨-, ht⟩ | ⟨ht, -⟩
    · exact ⟨ht, fun he => by cases he⟩
    · rw [← hplace _ hl'] at ht
      exact ht.elim
  fresh l' hl' hne _ := by
    rcases htodo with ⟨he, -⟩ | ⟨-, ht⟩
    · exact absurd ((hplace l' hl').trans he) hne
    · exact ht
  answered ht _ := by
    rcases htodo with ⟨he, -⟩ | ⟨-, hn⟩
    · exact Or.inr (he ▸ hl)
    · exact absurd ht hn
  ended h := absurd h hended

/-- On the list `l` after it was cleared. -/
theorem RecordInv.leaving {l : ListHead} (hatt : ∀ r, ¬s.Attached r d) (hl : s.On l d)
    (hplace : ∀ l', s.On l' d → l' = l) (hfreed : (s.obj.death.get d).freed = 0)
    (hborn : d < s.obj.death.next) (hcleared : .deathCleared d ∈ s.history)
    (hended : ¬s.ToldClear d)
    (hkind : (s.obj.death.get d).type = some .deadBinderAndClear ∧
        l = .deliveredDeath (s.obj.death.get d).proc ∧ s.Told d ∨
      (s.obj.death.get d).type = some .deadBinderAndClear ∧
        s.IsTodo (s.obj.death.get d).proc l ∧ ¬s.Told d ∨
      (s.obj.death.get d).type = some .clearDeathNotification ∧
        s.IsTodo (s.obj.death.get d).proc l ∧ (s.Told d → .deadBinderDone d ∈ s.history)) :
    RecordInv s d where
  unique r _ hr := absurd hr (hatt r)
  place l₁ l₂ h₁ h₂ := (hplace l₁ h₁).trans (hplace l₂ h₂).symm
  home l' hl' := by
    rw [hplace l' hl']
    rcases hkind with ⟨-, h, -⟩ | ⟨-, h, -⟩ | ⟨-, h, -⟩
    · exact Or.inl h
    · exact Or.inr h
    · exact Or.inr h
  owner r hr := absurd hr (hatt r)
  once := by
    rw [hfreed]
    exact zero_le_one
  kept _ := iff_of_true hfreed (Or.inr ⟨l, hl⟩)
  unborn hd := absurd hborn hd.not_gt
  wanted r hr := absurd hr (hatt r)
  cleared _ _ _ := by
    refine ⟨hcleared, ?_⟩
    rcases hkind with ⟨h, -⟩ | ⟨h, -⟩ | ⟨h, -⟩
    · exact Or.inl h
    · exact Or.inl h
    · exact Or.inr h
  delivered hl' := by
    have he := hplace _ hl'
    rcases hkind with ⟨h, -, ht⟩ | ⟨-, h, -⟩ | ⟨-, h, -⟩
    · rw [h]
      exact ⟨ht, fun hc => by cases hc⟩
    · rw [← he] at h
      exact h.elim
    · rw [← he] at h
      exact h.elim
  fresh l' hl' hne htype := by
    rcases hkind with ⟨-, h, -⟩ | ⟨-, -, h⟩ | ⟨h, -⟩
    · exact absurd ((hplace l' hl').trans h) hne
    · exact h
    · exact absurd h htype
  answered ht hd := by
    rcases hkind with ⟨-, h, -⟩ | ⟨-, -, h⟩ | ⟨-, -, h⟩
    · exact Or.inr (h ▸ hl)
    · exact absurd ht h
    · exact absurd (h ht) hd
  ended h := absurd h hended

/-! The steps that are about one record -/

theorem RecordInv.lt (h : RecordInv s d) {r : ℕ} (hr : s.Attached r d) :
    d < s.obj.death.next ∧ (s.obj.death.get d).freed = 0 := by
  have hlt : d < s.obj.death.next := by
    by_contra hd
    exact (h.unborn (not_lt.1 hd)).1 r hr
  exact ⟨hlt, (h.kept hlt).2 (Or.inl ⟨r, hr⟩)⟩

theorem RecordInv.lt_on (h : RecordInv s d) {l : ListHead} (hl : s.On l d) :
    d < s.obj.death.next ∧ (s.obj.death.get d).freed = 0 := by
  have hlt : d < s.obj.death.next := by
    by_contra hd
    exact (h.unborn (not_lt.1 hd)).2.1 l hl
  exact ⟨hlt, (h.kept hlt).2 (Or.inr ⟨l, hl⟩)⟩

theorem RecordInv.not_ended (h : RecordInv s d) (hf : (s.obj.death.get d).freed = 0) :
    ¬s.ToldClear d := fun ht => by
  rw [h.ended ht] at hf
  cases hf

section

variable (hi : RefsInv s.obj) {p r : ℕ} (hr : r ∈ (s.obj.own p).refsByDesc)

include hi hr

theorem attached_deleteRef (r' : ℕ) :
    ({ s with obj := binderDeleteRef s.obj r } : Driver).Attached r' d ↔
      r' ≠ r ∧ s.Attached r' d := by
  have hu := binderDeleteRef_unlinked s.obj r
  unfold Driver.Attached
  rw [hu.refProc, hu.mem_byDesc hi hr, and_assoc]
  refine and_congr_right fun hrr => ?_
  rw [show ((binderDeleteRef s.obj r).ref.get r').death = (s.obj.ref.get r').death from
    congrArg (·.death) (hu.ref r' hrr)]

theorem sameRecord_deleteRef (hd : (s.obj.ref.get r).death ≠ some d) :
    SameRecord s { s with obj := binderDeleteRef s.obj r } d := by
  have hu := binderDeleteRef_unlinked s.obj r
  have hget : (binderDeleteRef s.obj r).death.get d = s.obj.death.get d ∧
      (binderDeleteRef s.obj r).death.next = s.obj.death.next := by
    rw [hu.death]
    cases hrd : (s.obj.ref.get r).death with
    | none => exact ⟨rfl, rfl⟩
    | some d' =>
      have hne : d ≠ d' := fun he => hd (he ▸ hrd)
      exact ⟨s.obj.death.get_modify_ne d' d (fun x => { x with freed := x.freed + 1 }) hne, rfl⟩
  refine sameRecord_obj (fun r' => ?_) (fun l => ?_) hget.1 hget.2 (fun r' _ => hu.refProc r')
    fun r' hr' hn => ?_
  · rw [attached_deleteRef hi hr, and_iff_right_iff_imp]
    rintro ⟨-, ha⟩ rfl
    exact hd ha
  · rw [hu.entry]
    exact and_iff_left hd
  · rw [hu.proc, hu.refNode]
    exact hn

theorem RecordInv.deleteRef (h : RecordInv s d) :
    RecordInv { s with obj := binderDeleteRef s.obj r } d := by
  by_cases hd : (s.obj.ref.get r).death = some d
  · -- the record goes with its reference
    have hu := binderDeleteRef_unlinked s.obj r
    have hself : s.Attached r d := ⟨(hi.table p).owner r hr ▸ hr, hd⟩
    obtain ⟨hlt, hfreed⟩ := h.lt hself
    have hdeath : (binderDeleteRef s.obj r).death =
        s.obj.death.modify d fun x => { x with freed := x.freed + 1 } := by
      rw [hu.death, hd]
      rfl
    refine .gone (fun r' hr' => ?_) (fun l hl => ?_) ?_ ?_
    · obtain ⟨hrr, ha⟩ := (attached_deleteRef hi hr r').1 hr'
      exact hrr (h.unique r' r ha hself)
    · exact ((hu.entry l d).1 hl).2 hd
    · change ((binderDeleteRef s.obj r).death.get d).freed = 1
      rw [hdeath, Heap.get_modify_self, hfreed]
    · change d < (binderDeleteRef s.obj r).death.next
      rw [hdeath]
      exact hlt
  · exact h.congr (sameRecord_deleteRef hi hr hd)

end

theorem OnlyRecord.refl (s : Driver) (d : ℕ) : OnlyRecord s s d :=
  ⟨rfl, fun _ => rfl, fun _ _ _ => Iff.rfl, rfl, rfl, rfl, rfl, fun _ _ _ => Iff.rfl,
    fun _ => id, fun _ _ => rfl, fun _ _ => Iff.rfl, ⟨[], by simp, by simp⟩, id⟩

theorem OnlyRecord.trans {s'' : Driver} (h : OnlyRecord s s' d) (h' : OnlyRecord s' s'' d) :
    OnlyRecord s s'' d where
  thread := h'.thread.trans h.thread
  ref r := (h'.ref r).trans (h.ref r)
  refDeath r d' hne := (h'.refDeath r d' hne).trans (h.refDeath r d' hne)
  refNext := h'.refNext.trans h.refNext
  own := h'.own.trans h.own
  node := h'.node.trans h.node
  mgr := h'.mgr.trans h.mgr
  entry l d' hne := (h'.entry l d' hne).trans (h.entry l d' hne)
  async n hn := h.async n (h'.async n hn)
  death d' hne := (h'.death d' hne).trans (h.death d' hne)
  next d' hne := (h'.next d' hne).trans (h.next d' hne)
  history := by
    obtain ⟨es, hes, hall⟩ := h.history
    obtain ⟨es', hes', hall'⟩ := h'.history
    refine ⟨es ++ es', by rw [hes', hes, List.append_assoc], fun e he => ?_⟩
    exact (List.mem_append.1 he).elim (hall e) (hall' e)
  descs := h.descs ∘ h'.descs

theorem onlyRecord_note {e : Event} (he : e.deathOf = none ∨ e.deathOf = some d) :
    OnlyRecord s (s.note e) d :=
  { OnlyRecord.refl s d with history := ⟨[e], rfl, by simpa using he⟩ }

theorem onlyRecord_bugOn (c : Bool) {b : Oops} (hb : b ≠ .descInUse) :
    OnlyRecord s (s.bugOn c b) d :=
  { OnlyRecord.refl s d with
    descs := fun hm => by
      rcases List.mem_append.1 hm with hm | hm
      · exact hm
      · cases c with
        | false => cases hm
        | true => exact absurd (List.mem_singleton.1 hm).symm hb }

theorem onlyRecord_modDeath (f : BinderRefDeath → BinderRefDeath) :
    OnlyRecord s (s.modObj fun o => o.modDeath d f) d :=
  { OnlyRecord.refl s d with death := fun d' hne => s.obj.death.get_modify_ne d d' f hne }

theorem onlyRecord_todo {q : Queues ListHead Work}
    (hentry : ∀ l d', d' ≠ d → ((l, .death d') ∈ q.entries ↔ s.On l d'))
    (hasync : ∀ n, (.asyncTodo n, .death d) ∈ q.entries → s.On (.asyncTodo n) d) :
    OnlyRecord s (s.modObj fun o => { o with todo := q }) d :=
  { OnlyRecord.refl s d with entry := hentry, async := hasync }

theorem onlyRecord_del : OnlyRecord s (s.modObj fun o => { o with todo := o.todo.del (.death d) }) d :=
  onlyRecord_todo (fun l d' hne => by simp [Queues.mem_del, hne, Driver.On])
    fun n hn => (Queues.mem_del.1 hn).1

theorem onlyRecord_put {l : ListHead} {p : ℕ} (type : DeathWork) (hl : s.IsTodo p l) :
    OnlyRecord s (s.modObj (putDeath · d type l)) d := by
  refine (onlyRecord_modDeath (s := s) fun z => { z with type := some type }).trans
    (onlyRecord_todo (q := s.obj.todo.addTail l (.death d)) (fun l' d' hne => ?_) fun n hn => ?_)
  · simp [Queues.mem_addTail, hne, Driver.On, Driver.modObj, Objects.modDeath]
  · rcases Queues.mem_addTail.1 hn with h | ⟨rfl, -⟩
    · exact h
    · exact hl.elim

/-- The reference gives its record up. -/
theorem onlyRecord_detach {r : ℕ} (hr : (s.obj.ref.get r).death = some d) :
    OnlyRecord s (s.modObj fun o => o.modRef r fun x => { x with death := none }) d :=
  { OnlyRecord.refl s d with
    ref := fun r' => s.obj.ref.apply_get_modify r r' (fun x => { x with death := none })
      (fun x => ({ x with death := none } : BinderRef).bare) fun _ => rfl
    refDeath := fun r' d' hne => by
      simp only [Driver.modObj, Objects.modRef, Heap.get_modify]
      split_ifs with hrr
      · rw [hrr, hr]
        exact iff_of_false (fun h => by cases h) fun h => hne (Option.some.inj h).symm
      · rfl }

theorem on_put (type : DeathWork) {l l' : ListHead} (hoff : ∀ l, ¬s.On l d) :
    (s.modObj (putDeath · d type l)).On l' d ↔ l' = l := by
  refine Queues.mem_addTail.trans ?_
  rw [and_iff_left rfl]
  exact or_iff_right (hoff l')

theorem death_put (type : DeathWork) (l : ListHead) :
    (s.modObj (putDeath · d type l)).obj.death.get d =
      { s.obj.death.get d with type := some type } := if_pos rfl

theorem on_del {l : ListHead} :
    ¬(s.modObj fun o => { o with todo := o.todo.del (.death d) }).On l d := fun h =>
  (Queues.mem_del.1 h).2 rfl

theorem RecordInv.notice (h : RecordInv s d) {r : ℕ} {l : ListHead} (hr : s.Attached r d)
    (hoff : ∀ l, ¬s.On l d) (hdead : s.NodeDead r) (htold : ¬s.Told d)
    (hl : s.IsTodo (s.obj.ref.get r).proc l) :
    RecordInv (s.modObj (putDeath · d .deadBinder l)) d := by
  obtain ⟨hlt, hfreed⟩ := h.lt hr
  have hself := death_put (s := s) (d := d) .deadBinder l
  refine .on (r := r) (l := l) hr (fun r' hr' => h.unique r' r hr' hr) ((on_put _ hoff).2 rfl)
    (fun l' hl' => (on_put _ hoff).1 hl') ?_ ?_ hlt (h.wanted r hr).1 ?_ hdead (h.not_ended hfreed)
    (Or.inr ⟨?_, htold⟩)
  · rw [hself]
    exact h.owner r hr
  · rw [hself]
    exact hfreed
  · rw [hself]
  · rw [hself]
    change s.IsTodo (s.obj.death.get d).proc l
    rw [← h.owner r hr]
    exact hl

theorem onlyRecord_detached {r : ℕ} (hr : s.Attached r d) : OnlyRecord s (detached s r d) d :=
  (onlyRecord_detach hr.2).trans (onlyRecord_note (Or.inr rfl))

theorem not_attached_detached (h : RecordInv s d) {r : ℕ} (hr : s.Attached r d) (r' : ℕ) :
    ¬(detached s r d).Attached r' d := by
  rintro ⟨hlive, hd⟩
  have hlive' := ((onlyRecord_detached hr).live r').1 hlive
  simp only [detached, Driver.note, Driver.modObj, Objects.modRef, Heap.get_modify] at hd
  split_ifs at hd with hrr
  · exact hrr (h.unique r' r ⟨hlive', hd⟩ hr)

theorem mem_detached {r : ℕ} {e : Event} :
    e ∈ (detached s r d).history ↔ e ∈ s.history ∨ e = .deathCleared d := by
  simp [detached, Driver.note, Driver.modObj]

theorem told_detached {r : ℕ} : (detached s r d).Told d ↔ s.Told d :=
  exists_congr fun T => by simp [mem_detached]

theorem toldClear_detached {r : ℕ} : (detached s r d).ToldClear d ↔ s.ToldClear d :=
  exists_congr fun T => by simp [mem_detached]

theorem RecordInv.clearOn (h : RecordInv s d) {r : ℕ} {l : ListHead} (hr : s.Attached r d)
    (hon : s.On l d) :
    RecordInv (((detached s r d).bugOn ((s.obj.death.get d).type ≠ some .deadBinder)
      .clearDeathType).modObj fun o =>
        o.modDeath d fun z => { z with type := some .deadBinderAndClear }) d := by
  obtain ⟨hlt, hfreed⟩ := h.lt hr
  set s' := ((detached s r d).bugOn ((s.obj.death.get d).type ≠ some .deadBinder)
    .clearDeathType).modObj fun o => o.modDeath d fun z =>
      { z with type := some .deadBinderAndClear }
  have hself : s'.obj.death.get d = { s.obj.death.get d with type := some .deadBinderAndClear } :=
    if_pos rfl
  refine .leaving (l := l) (not_attached_detached h hr) hon (fun l' hl' => h.place l' l hl' hon) ?_
    hlt (mem_detached.2 (Or.inr rfl)) (fun ht => h.not_ended hfreed (toldClear_detached.1 ht)) ?_
  · rw [hself]
    exact hfreed
  · rw [hself]
    by_cases hd : l = .deliveredDeath (s.obj.death.get d).proc
    · exact Or.inl ⟨rfl, hd, told_detached.2 (h.delivered (hd ▸ hon)).1⟩
    · refine Or.inr (Or.inl ⟨rfl, (h.home l hon).resolve_left hd, fun ht => ?_⟩)
      refine h.fresh l hon hd ?_ (told_detached.1 ht)
      rw [((h.wanted r hr).2.2 l hon).1]
      exact fun he => by cases he

theorem RecordInv.clearOff (h : RecordInv s d) {r : ℕ} {l : ListHead} (hr : s.Attached r d)
    (hoff : ∀ l, ¬s.On l d) (hl : s.IsTodo (s.obj.ref.get r).proc l) :
    RecordInv ((detached s r d).modObj (putDeath · d .clearDeathNotification l)) d := by
  obtain ⟨hlt, hfreed⟩ := h.lt hr
  have hself := death_put (s := detached s r d) (d := d) .clearDeathNotification l
  have hput : ∀ l', ((detached s r d).modObj (putDeath · d .clearDeathNotification l)).On l' d ↔
      l' = l := fun l' => on_put (s := detached s r d) _ hoff
  refine .leaving (l := l) (not_attached_detached h hr) ((hput l).2 rfl)
    (fun l' hl' => (hput l').1 hl') ?_ hlt (mem_detached.2 (Or.inr rfl))
    (fun ht => h.not_ended hfreed (toldClear_detached.1 ht)) (Or.inr (Or.inr ⟨?_, ?_, fun ht => ?_⟩))
  · rw [hself]
    exact hfreed
  · rw [hself]
  · rw [hself]
    change s.IsTodo (s.obj.death.get d).proc l
    rw [← h.owner r hr]
    exact hl
  · -- a record that was told of and is on no list was answered
    by_contra hdone
    have hdone' : .deadBinderDone d ∉ s.history := fun hm => hdone (mem_detached.2 (Or.inl hm))
    rcases h.answered (told_detached.1 ht) hdone' with hf | hd
    · rw [hf] at hfreed
      cases hfreed
    · exact hoff _ hd

theorem onlyRecord_afterAnswer : OnlyRecord s (afterAnswer s d) d :=
  onlyRecord_del.trans (onlyRecord_note (Or.inr rfl))

theorem mem_afterAnswer {e : Event} :
    e ∈ (afterAnswer s d).history ↔ e ∈ s.history ∨ e = .deadBinderDone d := by
  simp [afterAnswer, Driver.note, Driver.modObj]

theorem told_afterAnswer : (afterAnswer s d).Told d ↔ s.Told d :=
  exists_congr fun T => by simp [mem_afterAnswer]

theorem toldClear_afterAnswer : (afterAnswer s d).ToldClear d ↔ s.ToldClear d :=
  exists_congr fun T => by simp [mem_afterAnswer]

/-- A record that is delivered belongs to the process that it is delivered to. -/
theorem RecordInv.delivered_proc (h : RecordInv s d) {p : ℕ} (hon : s.On (.deliveredDeath p) d) :
    (s.obj.death.get d).proc = p := by
  rcases h.home _ hon with he | he
  · exact (ListHead.deliveredDeath.inj he).symm
  · exact he.elim

theorem RecordInv.answer (h : RecordInv s d) {p : ℕ} (hon : s.On (.deliveredDeath p) d)
    (htype : (s.obj.death.get d).type ≠ some .deadBinderAndClear) : RecordInv (afterAnswer s d) d := by
  have hon' : s.On (.deliveredDeath (s.obj.death.get d).proc) d := (h.delivered_proc hon).symm ▸ hon
  obtain ⟨hlt, hfreed⟩ := h.lt_on hon
  obtain ⟨r, hr⟩ : ∃ r, s.Attached r d := by
    by_contra hnone
    rcases (h.cleared (fun r hr => hnone ⟨r, hr⟩) _ hon).2 with he | he
    · exact htype he
    · exact (h.delivered hon').2 he
  obtain ⟨h1, h2, h3⟩ := h.wanted r hr
  refine .off (r := r) hr (fun r' hr' => h.unique r' r hr' hr) (fun l => on_del) (h.owner r hr)
    hfreed hlt (fun hm => ?_) (fun ht => ⟨h2 (told_afterAnswer.1 ht), mem_afterAnswer.2 (Or.inr rfl)⟩)
    fun ht => h.not_ended hfreed (toldClear_afterAnswer.1 ht)
  exact h1 ((mem_afterAnswer.1 hm).resolve_right fun he => by cases he)

theorem RecordInv.answerClear (h : RecordInv s d) {p : ℕ} {l : ListHead}
    (hon : s.On (.deliveredDeath p) d)
    (htype : (s.obj.death.get d).type = some .deadBinderAndClear) (hl : s.IsTodo p l) :
    RecordInv ((afterAnswer s d).modObj (putDeath · d .clearDeathNotification l)) d := by
  obtain ⟨hlt, hfreed⟩ := h.lt_on hon
  have hnone : ∀ r, ¬s.Attached r d := fun r hr => by
    have he := ((h.wanted r hr).2.2 _ hon).1
    rw [htype] at he
    cases he
  have hself := death_put (s := afterAnswer s d) (d := d) .clearDeathNotification l
  have hput : ∀ l', ((afterAnswer s d).modObj (putDeath · d .clearDeathNotification l)).On l' d ↔
      l' = l := fun l' => on_put (s := afterAnswer s d) _ fun _ => on_del
  refine .leaving (l := l) hnone ((hput l).2 rfl) (fun l' hl' => (hput l').1 hl') ?_ hlt
    (mem_afterAnswer.2 (Or.inl (h.cleared hnone _ hon).1))
    (fun ht => h.not_ended hfreed (toldClear_afterAnswer.1 ht))
    (Or.inr (Or.inr ⟨?_, ?_, fun _ => mem_afterAnswer.2 (Or.inr rfl)⟩))
  · rw [hself]
    exact hfreed
  · rw [hself]
  · rw [hself]
    change s.IsTodo (s.obj.death.get d).proc l
    rw [h.delivered_proc hon]
    exact hl

theorem on_afterTell {T : ℕ} {l : ListHead} :
    (afterTell s T d).On l d ↔ l = .deliveredDeath (s.thread.get T).proc := by
  simp [Driver.On, afterTell, Driver.modObj, Driver.note, Queues.mem_moveHead]

theorem onlyRecord_afterTell {T : ℕ} : OnlyRecord s (afterTell s T d) d := by
  refine (onlyRecord_note (e := .br T (.deadBinder d)) (Or.inr rfl)).trans
    (onlyRecord_todo (fun l d' hne => ?_) fun n hn => ?_)
  · simp [Driver.On, Driver.note, Queues.mem_moveHead, hne]
  · cases on_afterTell.1 hn

theorem mem_afterTell {T : ℕ} {e : Event} :
    e ∈ (afterTell s T d).history ↔ e ∈ s.history ∨ e = .br T (.deadBinder d) := by
  simp [afterTell, Driver.note, Driver.modObj]

theorem RecordInv.todo_proc (h : RecordInv s d) {p : ℕ} {l : ListHead} (hon : s.On l d)
    (hl : s.IsTodo p l) : (s.obj.death.get d).proc = p := by
  rcases h.home l hon with rfl | he
  · exact hl.elim
  · cases l with
    | threadTodo T => exact he.2.symm.trans hl.2
    | procTodo q => exact Eq.trans (Eq.symm he) hl
    | deliveredDeath q => exact he.elim
    | asyncTodo n => exact he.elim

theorem RecordInv.tell (h : RecordInv s d) {T : ℕ} {l : ListHead} (hon : s.On l d)
    (hl : s.IsTodo (s.thread.get T).proc l)
    (htype : (s.obj.death.get d).type ≠ some .clearDeathNotification) :
    RecordInv (afterTell s T d) d := by
  obtain ⟨hlt, hfreed⟩ := h.lt_on hon
  have hproc := h.todo_proc hon hl
  have htold : (afterTell s T d).Told d := ⟨T, mem_afterTell.2 (Or.inr rfl)⟩
  have hended : ¬(afterTell s T d).ToldClear d := fun ⟨S, hS⟩ =>
    h.not_ended hfreed ⟨S, (mem_afterTell.1 hS).resolve_right fun he => by cases he⟩
  have hplace : (afterTell s T d).On (.deliveredDeath (s.obj.death.get d).proc) d :=
    on_afterTell.2 (by rw [hproc])
  have honly : ∀ l', (afterTell s T d).On l' d → l' = .deliveredDeath (s.obj.death.get d).proc :=
    fun l' hl' => (on_afterTell.1 hl').trans (by rw [hproc])
  by_cases hatt : ∃ r, s.Attached r d
  · obtain ⟨r, hr⟩ := hatt
    obtain ⟨h1, -, h3⟩ := h.wanted r hr
    obtain ⟨h4, h5⟩ := h3 l hon
    refine .on (r := r) hr (fun r' hr' => h.unique r' r hr' hr) hplace honly (h.owner r hr) hfreed
      hlt (fun hm => h1 ((mem_afterTell.1 hm).resolve_right fun he => by cases he)) h4 h5 hended
      (Or.inl ⟨rfl, htold⟩)
  · obtain ⟨h1, h2⟩ := h.cleared (fun r hr => hatt ⟨r, hr⟩) l hon
    exact .leaving (fun r hr => hatt ⟨r, hr⟩) hplace honly hfreed hlt
      (mem_afterTell.2 (Or.inl h1)) hended (Or.inl ⟨h2.resolve_right htype, rfl, htold⟩)

theorem onlyRecord_afterTellClear {T : ℕ} : OnlyRecord s (afterTellClear s T d) d :=
  ((onlyRecord_note (Or.inr rfl)).trans onlyRecord_del).trans (onlyRecord_modDeath _)

theorem RecordInv.tellClear (h : RecordInv s d) {T : ℕ} {l : ListHead} (hon : s.On l d)
    (htype : (s.obj.death.get d).type = some .clearDeathNotification) :
    RecordInv (afterTellClear s T d) d := by
  obtain ⟨hlt, hfreed⟩ := h.lt_on hon
  refine .gone (fun r hr => ?_) (fun l' hl' => (Queues.mem_del.1 hl').2 rfl) ?_ hlt
  · have he := ((h.wanted r hr).2.2 l hon).1
    rw [htype] at he
    cases he
  · have hself : (afterTellClear s T d).obj.death.get d =
      { s.obj.death.get d with freed := (s.obj.death.get d).freed + 1 } := if_pos rfl
    rw [hself, hfreed]

theorem onlyRecord_throw : OnlyRecord s (releaseItem (unqueue s (.death d)) (.death d)) d := by
  have h : OnlyRecord s (unqueue s (.death d)) d := onlyRecord_del
  rw [releaseItem]
  split
  · exact h.trans (onlyRecord_modDeath _)
  · exact h.trans (onlyRecord_modDeath _)
  · exact h

theorem RecordInv.throw (h : RecordInv s d) {l : ListHead} (hon : s.On l d)
    (hfree : ∀ p, l = .deliveredDeath p → ∀ r, ¬s.Attached r d) :
    RecordInv (releaseItem (unqueue s (.death d)) (.death d)) d := by
  obtain ⟨hlt, hfreed⟩ := h.lt_on hon
  have hgone : (∀ r, ¬s.Attached r d) → RecordInv ((unqueue s (.death d)).modObj fun o =>
      o.modDeath d fun x => { x with freed := x.freed + 1 }) d := fun hnone => by
    refine .gone hnone (fun l' hl' => (Queues.mem_del.1 hl').2 rfl) ?_ hlt
    have hself : (((unqueue s (.death d)).modObj fun o => o.modDeath d fun x =>
        { x with freed := x.freed + 1 }).obj.death.get d) =
      { s.obj.death.get d with freed := (s.obj.death.get d).freed + 1 } := if_pos rfl
    rw [hself, hfreed]
  by_cases hatt : ∃ r, s.Attached r d
  · obtain ⟨r, hr⟩ := hatt
    obtain ⟨h1, h2, h3⟩ := h.wanted r hr
    have htype := (h3 l hon).1
    have heq : releaseItem (unqueue s (.death d)) (.death d) = unqueue s (.death d) := by
      rw [releaseItem]
      rw [show (unqueue s (.death d)).obj.death = s.obj.death from rfl, htype]
    rw [heq]
    have hdel : l ≠ .deliveredDeath (s.obj.death.get d).proc := fun he => hfree _ he r hr
    have htold : ¬s.Told d := h.fresh l hon hdel (by rw [htype]; exact fun he => by cases he)
    exact .off (r := r) hr (fun r' hr' => h.unique r' r hr' hr) (fun l => on_del) (h.owner r hr)
      hfreed hlt h1 (fun ht => absurd ht htold) (h.not_ended hfreed)
  · have hnone : ∀ r, ¬s.Attached r d := fun r hr => hatt ⟨r, hr⟩
    have hclear := (h.cleared hnone l hon).2
    have heq : releaseItem (unqueue s (.death d)) (.death d) = (unqueue s (.death d)).modObj fun o =>
        o.modDeath d fun x => { x with freed := x.freed + 1 } := by
      rw [releaseItem]
      rw [show (unqueue s (.death d)).obj.death = s.obj.death from rfl]
      rcases hclear with he | he <;> rw [he]
    rw [heq]
    exact hgone hnone

theorem onlyRecord_requested {r : ℕ} (cookie : ℕ) (hnone : (s.obj.ref.get r).death = none) :
    OnlyRecord s (requested s r cookie) s.obj.death.next :=
  { OnlyRecord.refl s s.obj.death.next with
    ref := fun r' => s.obj.ref.apply_get_modify r r' (fun x =>
      { x with death := some s.obj.death.next })
      (fun x => ({ x with death := none } : BinderRef).bare) fun _ => rfl
    refDeath := fun r' d' hne => by
      simp only [requested, Driver.note, Driver.modObj, Objects.modRef, Heap.get_modify]
      split_ifs with hrr
      · rw [hrr, hnone]
        exact iff_of_false (fun h => hne (Option.some.inj h).symm) fun h => by cases h
      · rfl
    death := fun d' hne => s.obj.death.get_alloc_ne d' _ hne
    next := fun d' hne => by
      change d' < s.obj.death.next + 1 ↔ _
      omega
    history := ⟨[_], rfl, by simp [Event.deathOf]⟩ }

theorem RecordInv.request (h : ∀ d, RecordInv s d) {r : ℕ} (cookie : ℕ)
    (hr : r ∈ (s.obj.own (s.obj.ref.get r).proc).refsByDesc)
    (hnone : (s.obj.ref.get r).death = none) :
    RecordInv (requested s r cookie) s.obj.death.next := by
  set d := s.obj.death.next with hd
  obtain ⟨h1, h2, -, h4, h5, h6, h7⟩ := (h d).unborn le_rfl
  have honly := onlyRecord_requested (r := r) cookie hnone
  have hself : (requested s r cookie).obj.death.get d =
      { cookie := cookie, proc := (s.obj.ref.get r).proc } := s.obj.death.get_alloc_self _
  have hhist : ∀ e, e.deathOf = some d → e ∈ (requested s r cookie).history → e ∈ s.history :=
    fun e he hm => by
      rcases List.mem_append.1 hm with hm | hm
      · exact hm
      · rw [List.mem_singleton.1 hm] at he
        cases he
  have href : ∀ r', ((requested s r cookie).obj.ref.get r').death =
      if r' = r then some d else (s.obj.ref.get r').death := fun r' => by
    simp only [requested, Driver.note, Driver.modObj, Objects.modRef, Heap.get_modify]
    split_ifs <;> rfl
  have hprocr : ((requested s r cookie).obj.ref.get r).proc = (s.obj.ref.get r).proc :=
    honly.refProc r
  refine .off (r := r) ⟨(honly.live r).2 hr, by rw [href, if_pos rfl]⟩ (fun r' hr' => ?_)
    (fun l hl => h2 l hl) ?_ ?_ (Nat.lt_succ_self _) (fun hm => h6 (hhist _ rfl hm))
    (fun hm => absurd (hm.imp fun _ => hhist _ rfl) h4) fun hm => h5 (hm.imp fun _ => hhist _ rfl)
  · by_contra hne
    have hdeath := hr'.2
    rw [href, if_neg hne] at hdeath
    exact h1 r' ⟨(honly.live r').1 hr'.1, hdeath⟩
  · rw [hprocr, hself]
  · rw [hself]

theorem RecordInv.requestDead (h : ∀ d, RecordInv s d) {r : ℕ} {l : ListHead} (cookie : ℕ)
    (hr : r ∈ (s.obj.own (s.obj.ref.get r).proc).refsByDesc)
    (hnone : (s.obj.ref.get r).death = none) (hdead : s.NodeDead r)
    (hl : s.IsTodo (s.obj.ref.get r).proc l) :
    RecordInv ((requested s r cookie).modObj (putDeath · s.obj.death.next .deadBinder l))
      s.obj.death.next := by
  have hself : (requested s r cookie).obj.ref.get r =
      { s.obj.ref.get r with death := some s.obj.death.next } := if_pos rfl
  obtain ⟨-, hoff, -, htold, -⟩ := (h s.obj.death.next).unborn le_rfl
  refine (RecordInv.request h cookie hr hnone).notice (r := r) ⟨?_, by rw [hself]⟩ hoff ?_
    (fun ⟨S, hS⟩ => htold ⟨S, ?_⟩) ?_
  · rw [hself]
    exact hr
  · unfold Driver.NodeDead
    rw [hself]
    exact hdead
  · simpa [requested, Driver.note, Driver.modObj] using hS
  · rw [hself]
    exact hl

/-- What a step makes of each record. -/
theorem DeathStep.record {K : DeathScope} (hs : DeathStep K s s') (hi : RefsInv s.obj)
    (h : ∀ d, RecordInv s d) (d : ℕ) : RecordInv s' d := by
  -- a step about one record leaves the others alone
  have hone : ∀ {s' : Driver} {d₀ : ℕ}, OnlyRecord s s' d₀ → RecordInv s' d₀ →
      RecordInv s' d := fun {s' d₀} honly h₀ => by
    by_cases hd : d = d₀
    · exact hd ▸ h₀
    · exact (h d).congr (honly.same hd)
  cases hs with
  | quiet hq => exact (h d).congr hq.same
  | link hl =>
    cases hl with
    | same hl =>
      refine (h d).congr (Undying.same ⟨hl, ⟨[], by simp, by simp⟩, le_rfl, fun _ _ => rfl⟩)
    | newNode key _ _ => exact (h d).congr (sameRecord_newNode hi _ key)
    | newRef _ _ => exact (h d).congr (sameRecord_newRef hi _ _)
    | deleteRef hr => exact RecordInv.deleteRef hi hr (h d)
  | orphan f _ hproc _ _ _ => exact (h d).congr (sameRecord_orphan hproc)
  | request cookie hr hnone _ =>
    exact hone (onlyRecord_requested cookie hnone) (RecordInv.request h cookie hr hnone)
  | @requestDead r l cookie hr hnone hdead hl _ =>
    refine hone ((onlyRecord_requested cookie hnone).trans
      (onlyRecord_put _ (p := (s.obj.ref.get r).proc) hl)) ?_
    exact RecordInv.requestDead h cookie hr hnone hdead hl
  | notice hr hoff hdead htold hl _ =>
    exact hone (onlyRecord_put _ hl) ((h _).notice hr hoff hdead htold hl)
  | clearOn hr hon =>
    refine hone ?_ ((h _).clearOn hr hon)
    exact (onlyRecord_detached hr).trans
      ((onlyRecord_bugOn _ (by decide)).trans (onlyRecord_modDeath _))
  | @clearOff r _ _ hr hoff hl _ =>
    refine hone ((onlyRecord_detached hr).trans (onlyRecord_put _ (p := (s.obj.ref.get r).proc) ?_))
      ((h _).clearOff hr hoff hl)
    exact hl
  | answer hon htype => exact hone onlyRecord_afterAnswer ((h _).answer hon htype)
  | @answerClear p _ _ hon htype hl _ =>
    refine hone (onlyRecord_afterAnswer.trans (onlyRecord_put _ (p := p) ?_))
      ((h _).answerClear hon htype hl)
    exact hl
  | tell _ hon hl htype => exact hone onlyRecord_afterTell ((h _).tell hon hl htype)
  | tellClear hon _ htype => exact hone onlyRecord_afterTellClear ((h _).tellClear hon htype)
  | throw hon hfree _ => exact hone onlyRecord_throw ((h _).throw hon hfree)

end

end Binder

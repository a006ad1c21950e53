import BinderIpc.Driver.Frames
import BinderIpc.Alloc.Live
import BinderIpc.Lib.CallSteps

/-! The invariant of the transactions of the driver: the synchronous ones form
chains of nested calls, every queued transaction has its buffer in the process
it is queued for, and every accepted call has had at most one outcome. -/

namespace Binder

/-- The allocated buffer with header `b.2` in the area of process `b.1`. -/
def Driver.liveAt (s : Driver) (b : ℕ × ℕ) : Option BinderBuffer :=
  Binder.liveAt (s.proc.get b.1).area b.2

/-- A freed thread. -/
def Driver.dead (s : Driver) (T : ℕ) : Bool := (s.thread.get T).freed ≠ 0

def Driver.queued (s : Driver) (l : ListHead) (t : ℕ) : Prop :=
  (l, Work.transaction t) ∈ s.obj.todo.entries

/-- The synchronous transactions. The one that is being worked on, `loose`, may
still name a receiver that has given it up. -/
def callsOf (gone : ℕ → Bool) (loose : Option ℕ) (s : Driver) : Calls ℕ ℕ where
  call t := (s.txn.get t).needReply = true
  src t := (s.txn.get t).fromThread
  dst t := if loose = some t then none else (s.txn.get t).toThread
  parent t := (s.txn.get t).fromParent
  below t := (s.txn.get t).toParent
  queued t := s.obj.todo.linked (.transaction t)
  top T := if gone T then none else (s.thread.get T).transactionStack

theorem callsOf_queued {gone : ℕ → Bool} {loose : Option ℕ} {s : Driver} {t : ℕ} :
    (callsOf gone loose s).queued t = true ↔ ∃ l, s.queued l t := Queues.linked_iff

theorem callsOf_unqueued {gone : ℕ → Bool} {loose : Option ℕ} {s : Driver} {t : ℕ} :
    (callsOf gone loose s).queued t = false ↔ ∀ l, ¬s.queued l t := Queues.not_linked_iff

/-- The head is that of a list of process `p`. -/
def Home (s : Driver) (p : ℕ) : ListHead → Prop
  | .threadTodo T => T < s.thread.next ∧ (s.thread.get T).freed = 0 ∧ (s.thread.get T).proc = p
  | .procTodo q => q = p ∧ (s.proc.get q).released = false
  | .asyncTodo n => n < s.obj.node.next ∧ (s.obj.node.get n).proc = some p
  | .deliveredDeath _ => False

/-- The buffer of a transaction that is queued on `l` is in the process of that list. -/
def Buffered (s : Driver) (l : ListHead) (t : ℕ) : Prop :=
  ∃ b B, (s.txn.get t).buffer = some b ∧ s.liveAt b = some B ∧ B.allowUserFree = false ∧
    (B.targetNode.isSome && !(s.txn.get t).flags.oneWay) = (s.txn.get t).needReply ∧ Home s b.1 l

/-- The list is that of a node of a process that is about to go. -/
def Closing (s : Driver) (l : ListHead) : Prop :=
  ∃ n q, l = .asyncTodo n ∧ n < s.obj.node.next ∧ (s.obj.node.get n).proc = some q ∧
    (s.proc.get q).closed = true

/-- What is known of a transaction that is queued on `l`. -/
structure Placed (s : Driver) (l : ListHead) (t : ℕ) : Prop where
  lt : t < s.txn.next
  live : (s.txn.get t).freed = 0
  buffer : Buffered s l t ∨ Closing s l
  async : ∀ n, l = .asyncTodo n → (s.txn.get t).flags.oneWay = true
  list : (s.txn.get t).needReply = true →
    (∃ R, l = .threadTodo R ∧ (s.txn.get t).toThread = some R) ∨
      (∃ q, l = .procTodo q ∧ (s.txn.get t).toThread = none)

/-- An area is well formed, or was never mapped. -/
structure AreaOk (L : Layout) (x : BinderProc) : Prop where
  area : AreaInv L x.area ∨ (x.area.buffers = [] ∧ x.area.allocatedBuffers = .leaf ∧ x.area.vma = false)
  released : x.released = true → x.area.vma = false

structure TxnInv (L : Layout) (gone : ℕ → Bool) (loose : Option ℕ) (s : Driver) : Prop where
  forest : ∃ F, (callsOf gone loose s).Forest (gone · = true) loose F
  call_live : ∀ t, (s.txn.get t).needReply = true → t < s.txn.next ∧ (s.txn.get t).freed = 0
  placed : ∀ l t, s.queued l t → Placed s l t
  forward : ∀ t b, t < s.txn.next → (s.txn.get t).freed = 0 → (s.txn.get t).buffer = some b →
    ∃ B, s.liveAt b = some B ∧ B.transaction = some t
  back : ∀ b B t, s.liveAt b = some B → B.transaction = some t →
    t < s.txn.next ∧ (s.txn.get t).freed = 0 ∧ (s.txn.get t).buffer = some b
  target : ∀ b B n, s.liveAt b = some B → B.targetNode = some n →
    n < s.obj.node.next ∧ ∀ q, (s.obj.node.get n).proc = some q → q = b.1
  area : ∀ p, AreaOk L (s.proc.get p)
  stack_lt : ∀ T, (s.thread.get T).transactionStack ≠ none → T < s.thread.next
  waits : ∀ T f, (s.thread.get T).asleep = some f → f.waitForProcWork = true →
    (s.thread.get T).transactionStack = none
  unborn : ∀ n, s.obj.node.next ≤ n → (s.obj.node.get n).proc = none

/-- A thread with two errors to report does not wait for a reply. -/
structure ErrInv (gone : ℕ → Bool) (s : Driver) : Prop where
  first : ∀ T, gone T = false → (s.thread.get T).returnError2 ≠ .ok →
    (s.thread.get T).returnError ≠ .ok
  idle : ∀ T t, gone T = false → (s.thread.get T).returnError2 ≠ .ok →
    (s.thread.get T).transactionStack = some t → (s.txn.get t).fromThread ≠ some T

/-! Outcomes -/

/-- The call that the event ends for its sender. -/
def Event.outcomeOf : Event → Option ℕ
  | replied t _ | failed t _ => some t
  | _ => none

def Event.isAccepted : Event → Bool
  | accepted _ _ => true
  | _ => false

/-- The branches that are never taken. -/
def Event.isBad : Event → Bool
  | errorCodeAlready _ | badTargetStack _ => true
  | _ => false

def Driver.outcomes (s : Driver) (t : ℕ) : ℕ := s.history.countP (·.outcomeOf = some t)

structure Outcomes (gone : ℕ → Bool) (s : Driver) : Prop where
  owed : ∀ t, (s.txn.get t).needReply = true → s.outcomes t = 0 ∧
    ∃ T, Event.accepted T t ∈ s.history ∧
      ((s.txn.get t).fromThread = some T ∨ ((s.txn.get t).fromThread = none ∧ gone T = true))
  ended : ∀ T t, Event.accepted T t ∈ s.history → s.outcomes t ≤ 1 ∧
    ((s.txn.get t).needReply = true ∨ s.outcomes t = 1 ∨ gone T = true)
  sole : ∀ T T' t, Event.accepted T t ∈ s.history → Event.accepted T' t ∈ s.history → T = T'
  new : ∀ t, s.txn.next ≤ t → s.outcomes t = 0 ∧ ∀ T, Event.accepted T t ∉ s.history
  clean : (∀ e ∈ s.history, e.isBad = false) ∧ ∀ b ∈ s.obj.oops, b.isBad = false

/-! Frames -/

/-- Nothing that the transactions depend on differs. -/
structure TxnSame (L : Layout) (s s' : Driver) : Prop where
  txn : s'.txn = s.txn
  queued : ∀ l t, s'.queued l t ↔ s.queued l t
  threadNext : s'.thread.next = s.thread.next
  stack : ∀ T, (s'.thread.get T).transactionStack = (s.thread.get T).transactionStack
  threadProc : ∀ T, (s'.thread.get T).proc = (s.thread.get T).proc
  freed : ∀ T, (s'.thread.get T).freed = (s.thread.get T).freed
  waits : ∀ T f, (s'.thread.get T).asleep = some f → f.waitForProcWork = true →
    (s'.thread.get T).transactionStack = none ∨ (s.thread.get T).asleep = some f
  live : ∀ b, s'.liveAt b = s.liveAt b
  area : ∀ p, AreaOk L (s.proc.get p) → AreaOk L (s'.proc.get p)
  released : ∀ p, (s'.proc.get p).released = (s.proc.get p).released
  closed : ∀ p, (s.proc.get p).closed = true → (s'.proc.get p).closed = true
  nodeNext : s.obj.node.next ≤ s'.obj.node.next
  nodeProc : ∀ n, n < s.obj.node.next → (s'.obj.node.get n).proc = (s.obj.node.get n).proc
  nodeUnborn : ∀ n, s'.obj.node.next ≤ n → (s'.obj.node.get n).proc = (s.obj.node.get n).proc

/-- Nothing of the record of outcomes differs. -/
structure SameOutcomes (s s' : Driver) : Prop where
  outcomes : ∀ t, s'.outcomes t = s.outcomes t
  accepted : ∀ T t, Event.accepted T t ∈ s'.history ↔ Event.accepted T t ∈ s.history
  clean : ((∀ e ∈ s.history, e.isBad = false) ∧ ∀ b ∈ s.obj.oops, b.isBad = false) →
    (∀ e ∈ s'.history, e.isBad = false) ∧ ∀ b ∈ s'.obj.oops, b.isBad = false

variable {L : Layout} {gone : ℕ → Bool} {loose : Option ℕ} {s s' s'' : Driver}

namespace TxnSame

theorem refl (s : Driver) : TxnSame L s s where
  txn := rfl
  queued _ _ := .rfl
  threadNext := rfl
  stack _ := rfl
  threadProc _ := rfl
  freed _ := rfl
  waits _ _ h _ := Or.inr h
  live _ := rfl
  area _ h := h
  released _ := rfl
  closed _ h := h
  nodeNext := le_rfl
  nodeProc _ _ := rfl
  nodeUnborn _ _ := rfl

theorem trans (h : TxnSame L s s') (h' : TxnSame L s' s'') : TxnSame L s s'' where
  txn := h'.txn.trans h.txn
  queued l t := (h'.queued l t).trans (h.queued l t)
  threadNext := h'.threadNext.trans h.threadNext
  stack T := (h'.stack T).trans (h.stack T)
  threadProc T := (h'.threadProc T).trans (h.threadProc T)
  freed T := (h'.freed T).trans (h.freed T)
  waits T f hf hw := by
    rcases h'.waits T f hf hw with h1 | h1
    · exact Or.inl h1
    · rcases h.waits T f h1 hw with h2 | h2
      · exact Or.inl ((h'.stack T).trans h2)
      · exact Or.inr h2
  live b := (h'.live b).trans (h.live b)
  area p hp := h'.area p (h.area p hp)
  released p := (h'.released p).trans (h.released p)
  closed p hp := h'.closed p (h.closed p hp)
  nodeNext := h.nodeNext.trans h'.nodeNext
  nodeProc n hn := (h'.nodeProc n (hn.trans_le h.nodeNext)).trans (h.nodeProc n hn)
  nodeUnborn n hn := (h'.nodeUnborn n hn).trans (h.nodeUnborn n (h'.nodeNext.trans hn))

theorem linked (h : TxnSame L s s') (t : ℕ) :
    s'.obj.todo.linked (.transaction t) = s.obj.todo.linked (.transaction t) := by
  rw [Bool.eq_iff_iff, Queues.linked_iff, Queues.linked_iff]
  exact exists_congr fun l => h.queued l t

theorem callsOf (h : TxnSame L s s') : callsOf gone loose s' = callsOf gone loose s := by
  unfold Binder.callsOf
  simp only [h.txn, h.linked, h.stack]

theorem home (h : TxnSame L s s') {p : ℕ} {l : ListHead} (hl : Home s p l) : Home s' p l := by
  cases l with
  | threadTodo T =>
    exact ⟨h.threadNext ▸ hl.1, (h.freed T).trans hl.2.1, (h.threadProc T).trans hl.2.2⟩
  | procTodo q => exact ⟨hl.1, (h.released q).trans hl.2⟩
  | asyncTodo n => exact ⟨hl.1.trans_le h.nodeNext, (h.nodeProc n hl.1).trans hl.2⟩
  | deliveredDeath q => exact hl

theorem closing (h : TxnSame L s s') {l : ListHead} (hl : Closing s l) : Closing s' l := by
  obtain ⟨n, q, rfl, hn, hp, hc⟩ := hl
  exact ⟨n, q, rfl, hn.trans_le h.nodeNext, (h.nodeProc n hn).trans hp, h.closed q hc⟩

end TxnSame

theorem TxnInv.same (hi : TxnInv L gone loose s) (h : TxnSame L s s') : TxnInv L gone loose s' where
  forest := by
    rw [h.callsOf]
    exact hi.forest
  call_live := by
    rw [h.txn]
    exact hi.call_live
  placed l t ht := by
    obtain ⟨h1, h2, h3, h4, h5⟩ := hi.placed l t ((h.queued l t).1 ht)
    refine ⟨h.txn ▸ h1, h.txn ▸ h2, ?_, h.txn ▸ h4, h.txn ▸ h5⟩
    rcases h3 with ⟨b, B, hb, hB, hu, hn, hh⟩ | hc
    · exact Or.inl ⟨b, B, h.txn ▸ hb, (h.live b).trans hB, hu, h.txn ▸ hn, h.home hh⟩
    · exact Or.inr (h.closing hc)
  forward := by
    rw [h.txn]
    intro t b
    rw [h.live]
    exact hi.forward t b
  back b := by
    rw [h.txn, h.live]
    exact hi.back b
  target b B n hB hn := by
    rw [h.live] at hB
    obtain ⟨h1, h2⟩ := hi.target b B n hB hn
    exact ⟨h1.trans_le h.nodeNext, by rwa [h.nodeProc n h1]⟩
  area p := h.area p (hi.area p)
  stack_lt T hT := by
    rw [h.stack] at hT
    exact h.threadNext ▸ hi.stack_lt T hT
  waits T f hf hw := by
    rcases h.waits T f hf hw with h1 | h1
    · exact h1
    · exact (h.stack T).trans (hi.waits T f h1 hw)
  unborn n hn := (h.nodeUnborn n hn).trans (hi.unborn n (h.nodeNext.trans hn))

/-- The errors stay, or go, and no thread starts to wait while it has two. -/
theorem ErrInv.mono {gone' : ℕ → Bool} (hi : ErrInv gone s)
    (hgone : ∀ T, gone' T = false → gone T = false)
    (h1 : ∀ T, gone' T = false → (s'.thread.get T).returnError2 ≠ .ok →
      (s.thread.get T).returnError2 ≠ .ok ∧
        ((s.thread.get T).returnError ≠ .ok → (s'.thread.get T).returnError ≠ .ok))
    (h2 : ∀ T t, gone' T = false → (s'.thread.get T).returnError2 ≠ .ok →
      (s'.thread.get T).transactionStack = some t → (s'.txn.get t).fromThread = some T →
      (s.thread.get T).transactionStack = some t ∧ (s.txn.get t).fromThread = some T) :
    ErrInv gone' s' where
  first T hg he := (h1 T hg he).2 (hi.first T (hgone T hg) (h1 T hg he).1)
  idle T t hg he ht hf := by
    obtain ⟨h3, h4⟩ := h2 T t hg he ht hf
    exact hi.idle T t (hgone T hg) (h1 T hg he).1 h3 h4

theorem ErrInv.same (hi : ErrInv gone s) (hth : s'.thread = s.thread)
    (hfrom : ∀ t, (s'.txn.get t).fromThread = (s.txn.get t).fromThread) : ErrInv gone s' :=
  hi.mono (fun _ h => h) (fun _ _ he => ⟨hth ▸ he, fun h => hth ▸ h⟩)
    fun _ t _ _ ht hf => ⟨hth ▸ ht, hfrom t ▸ hf⟩

namespace SameOutcomes

theorem refl (s : Driver) : SameOutcomes s s := ⟨fun _ => rfl, fun _ _ => .rfl, id⟩

theorem trans (h : SameOutcomes s s') (h' : SameOutcomes s' s'') : SameOutcomes s s'' :=
  ⟨fun t => (h'.outcomes t).trans (h.outcomes t),
    fun T t => (h'.accepted T t).trans (h.accepted T t), fun hc => h'.clean (h.clean hc)⟩

theorem of_eq (hh : s'.history = s.history) (ho : s'.obj.oops = s.obj.oops) : SameOutcomes s s' :=
  ⟨fun t => by rw [Driver.outcomes, hh, Driver.outcomes], fun T t => by rw [hh],
    fun hc => by rwa [hh, ho]⟩

end SameOutcomes

/-- Events and assertions that do not concern the outcome of calls. -/
theorem sameOutcomes_note {e : Event} (h1 : e.outcomeOf = none) (h2 : e.isAccepted = false)
    (h3 : e.isBad = false) : SameOutcomes s (s.note e) := by
  refine ⟨fun t => ?_, fun T t => ?_, fun hc => ⟨fun e' he' => ?_, hc.2⟩⟩
  · simp [Driver.outcomes, Driver.note, h1]
  · simp only [Driver.note, List.mem_append, List.mem_singleton, or_iff_left_iff_imp]
    rintro rfl
    cases h2
  · rcases List.mem_append.1 he' with he' | he'
    · exact hc.1 e' he'
    · rw [List.mem_singleton.1 he']
      exact h3

theorem sameOutcomes_bugOn {c : Bool} {b : Oops} (hb : c = true → b.isBad = false) :
    SameOutcomes s (s.bugOn c b) := by
  refine ⟨fun _ => rfl, fun _ _ => .rfl, fun hc => ⟨hc.1, fun b' hb' => ?_⟩⟩
  rcases List.mem_append.1 hb' with hb' | hb'
  · exact hc.2 b' hb'
  · cases c with
    | false => cases hb'
    | true =>
      rw [List.mem_singleton.1 hb']
      exact hb rfl

theorem Outcomes.same (hi : Outcomes gone s) (h : SameOutcomes s s')
    (hnext : s'.txn.next = s.txn.next)
    (hcall : ∀ t, (s'.txn.get t).needReply = (s.txn.get t).needReply)
    (hfrom : ∀ t, (s.txn.get t).needReply = true →
      (s'.txn.get t).fromThread = (s.txn.get t).fromThread) : Outcomes gone s' where
  owed t ht := by
    rw [hcall] at ht
    obtain ⟨h1, T, hT, hf⟩ := hi.owed t ht
    rw [h.outcomes, hfrom t ht]
    exact ⟨h1, T, (h.accepted T t).2 hT, hf⟩
  ended T t hT := by
    rw [h.outcomes, hcall]
    exact hi.ended T t ((h.accepted T t).1 hT)
  sole T T' t hT hT' := hi.sole T T' t ((h.accepted T t).1 hT) ((h.accepted T' t).1 hT')
  new t ht := by
    rw [h.outcomes]
    obtain ⟨h1, h2⟩ := hi.new t (hnext ▸ ht)
    exact ⟨h1, fun T hT => h2 T ((h.accepted T t).1 hT)⟩
  clean := h.clean hi.clean

theorem Outcomes.same' (hi : Outcomes gone s) (h : SameOutcomes s s') (htxn : s'.txn = s.txn) :
    Outcomes gone s' := hi.same h (by rw [htxn]) (by simp [htxn]) (by simp [htxn])

end Binder

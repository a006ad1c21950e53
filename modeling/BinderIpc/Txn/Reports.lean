import BinderIpc.Txn.Errors
import BinderIpc.Wire.ReadFraming

/-! The error codes that a thread is told of: what was recorded for it is what
its reads have reported and what is still in the two slots. -/

namespace Binder

/-- The code that the event tells `T` of. -/
def Event.codeFor (T : ℕ) : Event → Option ReturnError
  | br S (.returnError e) => if S = T then some e else none
  | _ => none

/-- A read of `T` returned 0. -/
def Event.endsRead (T : ℕ) : Event → Bool
  | readDone S _ => S = T
  | _ => false

/-- The codes that a read with these events has reported to `T`; a read that fails reports none. -/
def codesOf (T : ℕ) (new : List Event) : List ReturnError :=
  if new.any (·.endsRead T) then new.filterMap (·.codeFor T) else []

/-- `binder_thread_read` asks for a new looper. -/
def wantsLooper (s : Driver) (T : ℕ) : Bool :=
  let y := s.thread.get T
  let p := s.proc.get y.proc
  decide (p.requestedThreads + p.readyThreads = 0 ∧ p.requestedThreadsStarted < p.maxThreads ∧
    (y.looper.registered || y.looper.entered))

/-- `BR_SPAWN_LOOPER` cannot be written, and the read fails at its end. -/
def looperFaults (s : Driver) (T : ℕ) (fault : ℕ → Bool) : Bool := wantsLooper s T && fault 0

/-- The branches of the report in which a code stays although it was reported, or
goes although the read fails. -/
def reportSlips (s : Driver) (T size ptr : ℕ) (fault : ℕ → Bool) : Bool :=
  !fault ptr &&
    if (s.thread.get T).returnError2 = .ok then looperFaults s T fault
    else if ptr + 4 = size then !looperFaults s T fault
    else fault (ptr + 4) || looperFaults s T fault

/-- What was in the slots of `T` is what the new events report, and what is left. -/
def Booked (T : ℕ) (s s' : Driver) : Prop :=
  ∃ new, s'.history = s.history ++ new ∧
    (s.thread.get T).errors = codesOf T new ++ (s'.thread.get T).errors

/-- A part of a read in which no code is reported and which is not its end. -/
structure Silent (T : ℕ) (s s' : Driver) : Prop where
  errors : SameErrors s s'
  history : ∃ new, s'.history = s.history ++ new ∧
    ∀ e ∈ new, e.codeFor T = none ∧ e.endsRead T = false

/-- What a read of `T` keeps of the slots, whatever it reports. -/
structure ReadKeeps (T : ℕ) (s s' : Driver) : Prop where
  first : ∀ S, S ≠ T → (s'.thread.get S).returnError = (s.thread.get S).returnError
  others : ∀ S, S ≠ T → (s'.thread.get S).returnError2 = (s.thread.get S).returnError2
  second : (s.thread.get T).secondAfterFirst → (s'.thread.get T).secondAfterFirst

variable {L : Layout} {rb : RbTree ℕ} {s s' s'' : Driver} {T : ℕ} {fault : ℕ → Bool}

namespace Silent

theorem refl (s : Driver) : Silent T s s := ⟨.refl s, [], by simp, by simp⟩

theorem trans (h : Silent T s s') (h' : Silent T s' s'') : Silent T s s'' := by
  obtain ⟨n, hn, h1⟩ := h.history
  obtain ⟨n', hn', h2⟩ := h'.history
  refine ⟨h.errors.trans h'.errors, n ++ n', by rw [hn', hn, List.append_assoc], fun e he => ?_⟩
  exact (List.mem_append.1 he).elim (h1 e) (h2 e)

theorem ite {c : Prop} [Decidable c] (h : Silent T s s') (h' : Silent T s s'') :
    Silent T s (if c then s' else s'') := by
  split_ifs
  · exact h
  · exact h'

theorem of_eq (h : SameErrors s s') (hh : s'.history = s.history) : Silent T s s' :=
  ⟨h, [], by simp [hh], by simp⟩

theorem note {e : Event} (h1 : e.codeFor T = none) (h2 : e.endsRead T = false) :
    Silent T s (s.note e) :=
  ⟨errors_note s e, [e], rfl, by simpa using ⟨h1, h2⟩⟩

end Silent

theorem Booked.silent (h : Silent T s s') (h' : Booked T s' s'') : Booked T s s'' := by
  obtain ⟨n, hn, hnone⟩ := h.history
  obtain ⟨n', hn', hb⟩ := h'
  have hcodes : codesOf T (n ++ n') = codesOf T n' := by
    have h1 : n.any (·.endsRead T) = false := List.any_eq_false.2 fun e he => by simp [hnone e he]
    have h2 : n.filterMap (·.codeFor T) = [] :=
      List.filterMap_eq_nil_iff.2 fun e he => (hnone e he).1
    simp [codesOf, h1, h2]
  refine ⟨n ++ n', by rw [hn', hn, List.append_assoc], ?_⟩
  rw [hcodes, ← hb, h.errors.errors]

theorem Silent.booked (h : Silent T s s') : Booked T s s' :=
  .silent h ⟨[], by simp, by simp [codesOf]⟩

namespace ReadKeeps

theorem of_errors (h : SameErrors s s') : ReadKeeps T s s' :=
  ⟨fun S _ => h.first S, fun S _ => h.second S, h.appends.second T⟩

theorem trans (h : ReadKeeps T s s') (h' : ReadKeeps T s' s'') : ReadKeeps T s s'' :=
  ⟨fun S hS => (h'.first S hS).trans (h.first S hS), fun S hS => (h'.others S hS).trans (h.others S hS),
    h'.second ∘ h.second⟩

theorem ite {c : Prop} [Decidable c] (h : ReadKeeps T s s') (h' : ReadKeeps T s s'') :
    ReadKeeps T s (if c then s' else s'') := by
  split_ifs
  · exact h
  · exact h'

end ReadKeeps

/-! The end of a read -/

theorem readDone_errors (s : Driver) (T ptr : ℕ) : SameErrors s (readDone s T ptr fault) := by
  unfold readDone
  dsimp only
  refine .ite (.ite (errors_modProc s _ _) ?_) (errors_note s _)
  exact (errors_modProc s _ _).trans ((errors_note _ _).trans (errors_note _ _))

theorem readDone_history (fault : ℕ → Bool) (s : Driver) (T ptr : ℕ) :
    (readDone s T ptr fault).history = s.history ++
    if looperFaults s T fault then []
    else (if wantsLooper s T then [.br T .spawnLooper] else []) ++ [.readDone T ptr] := by
  unfold readDone looperFaults
  cases hw : wantsLooper s T with
  | false =>
    simp only [wantsLooper, decide_eq_false_iff_not] at hw
    dsimp only
    rw [if_neg hw]
    simp [Driver.note]
  | true =>
    simp only [wantsLooper, decide_eq_true_eq] at hw
    dsimp only
    rw [if_pos hw]
    cases hf : fault 0 <;> simp [Driver.note, Driver.modProc]

/-- A read that ends without an error to report. -/
theorem readDone_booked (s : Driver) (T ptr : ℕ) : Booked T s (readDone s T ptr fault) := by
  refine ⟨_, readDone_history fault s T ptr, ?_⟩
  rw [(readDone_errors s T ptr).errors]
  split_ifs <;> simp [codesOf, Event.codeFor]

/-- A read of `T` ends after it has written the codes `codes`. -/
theorem booked_report (codes left : List ReturnError) {ptr : ℕ}
    (hold : (s.thread.get T).errors = codes ++ left)
    (hnew : s'.history = s.history ++ codes.map fun e => .br T (.returnError e))
    (hleft : (s'.thread.get T).errors = left)
    (hend : looperFaults s' T fault = false) : Booked T s (readDone s' T ptr fault) := by
  have hh := readDone_history fault s' T ptr
  rw [hend, if_neg (by simp), hnew, List.append_assoc] at hh
  refine ⟨_, hh, ?_⟩
  rw [(readDone_errors s' T ptr).errors, hleft, hold]
  congr 1
  split_ifs <;> simp [codesOf, List.filterMap_append, Event.codeFor, Event.endsRead]

/-- It fails at its end, and what it has written does not count. -/
theorem booked_fault {new : List Event} {ptr : ℕ} (herr : SameErrors s s')
    (hnew : s'.history = s.history ++ new) (hno : new.any (·.endsRead T) = false)
    (hend : looperFaults s' T fault = true) : Booked T s (readDone s' T ptr fault) := by
  have hh := readDone_history fault s' T ptr
  rw [hend, if_pos rfl, hnew, List.append_nil] at hh
  refine ⟨_, hh, ?_⟩
  rw [(readDone_errors s' T ptr).errors, herr.errors]
  simp [codesOf, hno]

/-! The report -/

theorem looperFaults_congr (h1 : (s'.thread.get T).proc = (s.thread.get T).proc)
    (h2 : (s'.thread.get T).looper = (s.thread.get T).looper) (h3 : s'.proc = s.proc) :
    looperFaults s' T fault = looperFaults s T fault := by
  simp only [looperFaults, wantsLooper, h1, h2, h3]

theorem errors_one {y : BinderThread} (h : y.returnError ≠ .ok) (h2 : y.returnError2 = .ok) :
    y.errors = [y.returnError] := by
  simp [BinderThread.errors, h, h2]

theorem errors_two {y : BinderThread} (h : y.returnError ≠ .ok) (h2 : y.returnError2 ≠ .ok) :
    y.errors = [y.returnError2, y.returnError] := by
  simp [BinderThread.errors, h, h2]

/-- But for two branches, what is reported is what leaves the slots. -/
theorem reportErrors_booked {size ptr : ℕ} (hset : (s.thread.get T).returnError ≠ .ok)
    (hkeep : reportSlips s T size ptr fault = false) :
    Booked T s (reportErrors s T size ptr fault) := by
  have hsame : ∀ s' : Driver, s'.proc = s.proc → (s'.thread.get T).proc = (s.thread.get T).proc →
      (s'.thread.get T).looper = (s.thread.get T).looper → looperFaults s T fault = false →
        looperFaults s' T fault = false :=
    fun s' h1 h2 h3 => (looperFaults_congr h2 h3 h1).trans
  unfold reportErrors
  dsimp only
  unfold reportSlips at hkeep
  by_cases h2 : (s.thread.get T).returnError2 = .ok
  · rw [if_pos h2]
    cases hf : fault ptr with
    | true => exact (Silent.refl s).booked
    | false =>
      simp only [hf, h2, Bool.not_false, Bool.true_and, if_true] at hkeep
      refine booked_report [(s.thread.get T).returnError] [] ?_ rfl ?_ ?_
      · exact errors_one hset h2
      · simp [Driver.modThread, Driver.note, BinderThread.errors, h2]
      · exact hsame _ rfl (by simp [Driver.modThread, Driver.note])
          (by simp [Driver.modThread, Driver.note]) hkeep
  · rw [if_neg h2]
    cases hf : fault ptr with
    | true => exact (Silent.refl s).booked
    | false =>
      simp only [hf, h2, Bool.not_false, Bool.true_and, if_false] at hkeep
      simp only [Bool.false_eq_true, if_false]
      by_cases hend : ptr + 4 = size
      · simp only [hend, if_true, Bool.not_eq_false'] at hkeep ⊢
        exact booked_fault (errors_note s _) rfl (by simp [Event.endsRead]) hkeep
      · simp only [hend, if_false, Bool.or_eq_false_iff] at hkeep ⊢
        simp only [hkeep.1, Bool.false_eq_true, if_false]
        refine booked_report [(s.thread.get T).returnError2, (s.thread.get T).returnError] []
          ?_ ?_ ?_ ?_
        · exact errors_two hset h2
        · simp [Driver.modThread, Driver.note]
        · simp [Driver.modThread, Driver.note, BinderThread.errors]
        · exact hsame _ rfl (by simp [Driver.modThread, Driver.note])
            (by simp [Driver.modThread, Driver.note]) hkeep.2

theorem reportErrors_keeps {size ptr : ℕ} : ReadKeeps T s (reportErrors s T size ptr fault) := by
  have hone : ∀ (s : Driver) (f : BinderThread → BinderThread),
      ((s.thread.get T).secondAfterFirst → (f (s.thread.get T)).secondAfterFirst) →
      ReadKeeps T s (s.modThread T f) := fun s f hf => by
    refine ⟨fun S hS => ?_, fun S hS => ?_, fun h2 => ?_⟩ <;> simp only [Driver.modThread]
    · rw [Heap.get_modify_ne _ _ _ _ hS]
    · rw [Heap.get_modify_ne _ _ _ _ hS]
    · rw [Heap.get_modify_self]
      exact hf h2
  have hreport : ∀ (s : Driver) (e : ReturnError) (ptr : ℕ),
      (s.thread.get T).returnError2 = .ok → ReadKeeps T s
      (if fault ptr then s
        else readDone ((s.note (.br T (.returnError e))).modThread T fun y =>
          { y with returnError := .ok }) T (ptr + 4) fault) := fun s e ptr h2 => by
    refine .ite (.of_errors (.refl s)) ?_
    refine .trans ?_ (.of_errors (readDone_errors _ T _))
    exact .trans (.of_errors (errors_note s _)) (hone _ _ fun _ hne => absurd h2 hne)
  unfold reportErrors
  dsimp only
  by_cases h2 : (s.thread.get T).returnError2 = .ok
  · rw [if_pos h2]
    exact hreport s _ _ h2
  · rw [if_neg h2]
    refine .ite (.of_errors (.refl s)) (.ite ?_ ?_)
    · exact .trans (.of_errors (errors_note s _)) (.of_errors (readDone_errors _ T _))
    · refine .trans (.trans (.of_errors (errors_note s _)) (hone _ _ fun _ hne => absurd rfl hne))
        (hreport _ _ _ ?_)
      simp [Driver.modThread]

/-! Waiting, and the loop -/

theorem waitForWork_sleeps {size ptr : ℕ} {nonBlock : Bool}
    (h : ¬((s.thread.get T).returnError ≠ .ok ∧ ptr < size)) :
    Silent T s (waitForWork s T size ptr nonBlock fault) := by
  unfold waitForWork
  dsimp only
  rw [if_neg h]
  refine .of_eq ?_ ?_
  · refine .trans ?_ (.modThread (fun _ => rfl) fun _ => rfl)
    exact .ite (errors_modProc s _ _) (.refl s)
  · simp only [Driver.modThread]
    split_ifs <;> rfl

theorem waitForWork_booked {size ptr : ℕ} {nonBlock : Bool}
    (hkeep : (s.thread.get T).returnError ≠ .ok → ptr < size →
      reportSlips s T size ptr fault = false) :
    Booked T s (waitForWork s T size ptr nonBlock fault) := by
  by_cases h : (s.thread.get T).returnError ≠ .ok ∧ ptr < size
  · unfold waitForWork
    dsimp only
    rw [if_pos h]
    exact reportErrors_booked h.1 (hkeep h.1 h.2)
  · exact (waitForWork_sleeps h).booked

theorem waitForWork_keeps {size ptr : ℕ} {nonBlock : Bool} :
    ReadKeeps T s (waitForWork s T size ptr nonBlock fault) := by
  by_cases h : (s.thread.get T).returnError ≠ .ok ∧ ptr < size
  · unfold waitForWork
    dsimp only
    rw [if_pos h]
    exact reportErrors_keeps
  · exact .of_errors (waitForWork_sleeps h).errors

theorem silent_modObj (s : Driver) (f : Objects → Objects) : Silent T s (s.modObj f) :=
  .of_eq (errors_modObj s f) rfl

theorem freeTransaction_silent (s : Driver) (t : ℕ) : Silent T s (freeTransaction s t) := by
  refine .of_eq (freeTransaction_errors s t) ?_
  unfold freeTransaction forgetTransaction
  cases (s.txn.get t).buffer <;> rfl

theorem readTransaction_silent (s : Driver) (T t ptr : ℕ) :
    Silent T s (readTransaction s T t ptr fault).1 := by
  have hbug : Silent T s (s.bugOn (s.bufferOf t).isNone .noBuffer) := silent_modObj s _
  have htake : Silent T s (takeUp s t (readEvent s T t)) := by
    have hevent : (readEvent s T t).codeFor T = none ∧ (readEvent s T t).endsRead T = false := by
      unfold readEvent
      split_ifs <;> exact ⟨rfl, rfl⟩
    refine (hbug.trans (.note hevent.1 hevent.2)).trans (.of_eq (.of_eq ?_) ?_)
    · exact allowFree_thread _
    · exact allowFree_history _
  rw [readTransaction_eq]
  split_ifs
  · exact hbug
  · refine htake.trans (.of_eq ?_ rfl)
    exact (errors_modTxn _ t _).trans (.modThread (fun _ => rfl) fun _ => rfl)
  · exact htake.trans (freeTransaction_silent _ t)

theorem readNode_silent (s : Driver) (T n ptr : ℕ) :
    Silent T s (readNode s T n ptr fault).1 := by
  unfold readNode
  split
  · rename_i cmd x hc
    have hd : (Event.br T cmd).codeFor T = none := by
      unfold nodeCommand at hc
      dsimp only at hc
      split_ifs at hc <;> (cases hc; rfl)
    have h : Silent T s (s.modObj fun o => o.modNode n fun _ => x) := silent_modObj s _
    dsimp only
    split_ifs
    · exact h
    · exact h.trans (.note hd rfl)
  · exact silent_modObj s fun o => settleNode o _ n

/-- A command about the work that was found is written. -/
theorem silent_command (s : Driver) {cmd : Br} (f : Objects → Objects)
    (h : (Event.br T cmd).codeFor T = none) : Silent T s ((s.note (.br T cmd)).modObj f) :=
  .trans (.note h rfl) (silent_modObj _ f)

theorem readDeath_silent (s : Driver) (T d ptr : ℕ) :
    Silent T s (readDeath s T d ptr fault).1 := by
  unfold readDeath
  split
  · exact .refl s
  · split_ifs
    · exact .refl s
    · exact silent_command s (fun o => freeDeath o d) rfl
    · exact silent_command s (fun o => { o with
        todo := o.todo.moveHead (.deliveredDeath (s.thread.get T).proc) (.death d) }) rfl

theorem readItem_silent (fault : ℕ → Bool) (s : Driver) (T ptr : ℕ) (w : Work) :
    Silent T s (readItem s T ptr fault w).1 := by
  cases w with
  | transaction t => exact readTransaction_silent s T t ptr
  | transactionComplete t =>
    simp only [readItem]
    split_ifs
    · exact .refl s
    · exact silent_command s (fun o => { o with todo := o.todo.del (.transactionComplete t) }) rfl
  | node n => exact readNode_silent s T n ptr
  | death d => exact readDeath_silent s T d ptr

/-- The state in which the loop goes back to `retry`, if it does. -/
def retryAt (L : Layout) (T : ℕ) (f : ReadFrame) (fault : ℕ → Bool) : ℕ → Driver → ℕ → Option Driver
  | 0, _, _ => none
  | k + 1, s, ptr =>
    match nextWork s T f.waitForProcWork with
    | none => if ptr = 4 ∧ (s.thread.get T).looper.needReturn = false then some s else none
    | some w =>
      if noRoom L f.size ptr then none
      else
        match readItem s T ptr fault w with
        | (s, .next ptr) => retryAt L T f fault k s ptr
        | _ => none

theorem readLoop_booked {f : ReadFrame} {k ptr : ℕ}
    (hkeep : ∀ s', retryAt L T f fault k s ptr = some s' → (s'.thread.get T).returnError ≠ .ok →
      4 < f.size → reportSlips s' T f.size 4 fault = false) :
    Booked T s (readLoop L T f fault k s ptr) := by
  induction k generalizing s ptr with
  | zero => exact (Silent.refl s).booked
  | succ k ih =>
    unfold readLoop
    unfold retryAt at hkeep
    split
    · rename_i hn
      simp only [hn] at hkeep
      split_ifs with hretry
      · rw [if_pos hretry] at hkeep
        obtain rfl := hretry.1
        exact waitForWork_booked (hkeep s rfl)
      · exact readDone_booked s T ptr
    · rename_i w hn
      simp only [hn] at hkeep
      split_ifs with hroom
      · exact readDone_booked s T ptr
      · rw [if_neg hroom] at hkeep
        have hitem := readItem_silent fault s T ptr w
        split
        · rename_i s' n he
          rw [he] at hitem hkeep
          exact .silent hitem (ih hkeep)
        · rename_i s' he
          rw [he] at hitem
          exact hitem.booked
        · rename_i s' n he
          rw [he] at hitem
          exact .silent hitem (readDone_booked s' T n)

theorem readLoop_keeps {f : ReadFrame} {k ptr : ℕ} : ReadKeeps T s (readLoop L T f fault k s ptr) := by
  induction k generalizing s ptr with
  | zero => exact .of_errors (.refl s)
  | succ k ih =>
    unfold readLoop
    split
    · exact .ite waitForWork_keeps (.of_errors (readDone_errors s T ptr))
    · rename_i w _
      refine .ite (.of_errors (readDone_errors s T ptr)) ?_
      have hitem := readItem_silent fault s T ptr w
      split
      · rename_i he
        rw [he] at hitem
        exact .trans (.of_errors hitem.errors) ih
      · rename_i he
        rw [he] at hitem
        exact .of_errors hitem.errors
      · rename_i n he
        rw [he] at hitem
        exact .trans (.of_errors hitem.errors) (.of_errors (readDone_errors _ T n))

/-! The books of a thread -/

/-- The driver, with what was recorded for a thread and what it was told of so far. -/
structure ErrorBooks where
  driver : Driver := {}
  recorded : List ReturnError := []
  reported : List ReturnError := []

def newEvents (s s' : Driver) : List Event := s'.history.drop s.history.length

/-- What has come into the slots of `T`. -/
def newErrors (T : ℕ) (s s' : Driver) : List ReturnError :=
  (s'.thread.get T).errors.drop (s.thread.get T).errors.length

/-- The books of `T` begin when it is made; its own reads report, everything else records. -/
def bookMachine (L : Layout) (rb : RbTree ℕ) (T : ℕ) : Machine ErrorBooks Action where
  start b := b = {}
  step b a :=
    let s' := (driverMachine L rb).step b.driver a
    if b.driver.thread.next ≤ T then { b with driver := s' }
    else if a.reader = some T then
      { b with driver := s', reported := b.reported ++ codesOf T (newEvents b.driver s') }
    else { b with driver := s', recorded := b.recorded ++ newErrors T b.driver s' }

/-- The step is a read of `T` that takes one of the branches in which a report slips. -/
def Action.slips (L : Layout) (T : ℕ) (s : Driver) : Action → Bool
  | read S size consumed _ fault =>
    let ptr := if consumed = 0 then 4 else consumed
    S = T && !(consumed = 0 && fault 0) && (s.thread.get T).returnError ≠ .ok && ptr < size &&
      reportSlips s T size ptr fault
  | resume S fault => S = T &&
    (s.thread.get T).asleep.any fun f => f.verdict = some true &&
      (retryAt L T f fault (readFuel s) (stopWaiting s T f) f.ptr).any fun s' =>
        (s'.thread.get T).returnError ≠ .ok && 4 < f.size && reportSlips s' T f.size 4 fault
  | _ => false

/-- No step that the system call layer lets through slips. -/
def reportsKept (L : Layout) (T : ℕ) (b : ErrorBooks) (a : Action) : Prop :=
  (a.enabled L b.driver && a.slips L T b.driver) = false

instance (L : Layout) (T : ℕ) (b : ErrorBooks) (a : Action) : Decidable (reportsKept L T b a) :=
  inferInstanceAs (Decidable (_ = _))

theorem stopWaiting_silent (s : Driver) (T S : ℕ) (f : ReadFrame) : Silent T s (stopWaiting s S f) := by
  refine .of_eq ?_ ?_
  · refine .trans ?_ (.modThread (fun _ => rfl) fun _ => rfl)
    exact .ite (errors_modProc s _ _) (.refl s)
  · simp only [stopWaiting, Driver.modThread]
    split_ifs <;> rfl

/-- A read of `T` books what it reports. -/
theorem apply_booked {a : Action} (ha : a.reader = some T) (hslip : a.slips L T s = false) :
    Booked T s (a.apply L rb s) := by
  cases a with
  | read S size consumed nonBlock fault =>
    cases ha
    simp only [Action.slips, decide_true, Bool.true_and] at hslip
    simp only [Action.apply, binderThreadRead]
    split_ifs with h0 hf
    · exact (Silent.refl s).booked
    · rw [if_pos h0] at hslip
      refine waitForWork_booked fun hset hlt => ?_
      simpa [h0, hf, hset, hlt] using hslip
    · rw [if_neg h0] at hslip
      refine waitForWork_booked fun hset hlt => ?_
      simpa [h0, hset, hlt] using hslip
  | resume S fault =>
    cases ha
    simp only [Action.slips, decide_true, Bool.true_and] at hslip
    simp only [Action.apply, resumeRead]
    cases hw : (s.thread.get T).asleep with
    | none => exact (Silent.refl s).booked
    | some f =>
      have hstop := stopWaiting_silent s T T f
      dsimp only
      split
      · exact (Silent.refl s).booked
      · exact hstop.booked
      · rename_i hv
        refine .silent hstop (readLoop_booked fun s' hs' hset hlt => ?_)
        simpa [hw, hv, hs', hset, hlt] using hslip
  | _ => cases ha

theorem apply_keeps {a : Action} (ha : a.reader = some T) : ReadKeeps T s (a.apply L rb s) := by
  cases a with
  | read S size consumed nonBlock fault =>
    cases ha
    simp only [Action.apply, binderThreadRead]
    exact .ite (.ite (.of_errors (.refl s)) waitForWork_keeps) waitForWork_keeps
  | resume S fault =>
    cases ha
    simp only [Action.apply, resumeRead]
    split
    · exact .of_errors (.refl s)
    · split
      · exact .of_errors (.refl s)
      · exact .of_errors (stopWaiting_silent s T T _).errors
      · exact .trans (.of_errors (stopWaiting_silent s T T _).errors) readLoop_keeps
  | _ => cases ha

theorem driverMmap_thread {p base size : ℕ} {env : PageEnv} :
    (driverMmap L rb s p base size env).thread = s.thread := by
  unfold driverMmap
  split_ifs
  · rfl
  · split <;> rfl

/-- What is no read and makes no thread adds codes to those that are there. -/
theorem apply_appends {a : Action} (ha : a.reader = none) (hc : a.creates = false) :
    Appends s (a.apply L rb s) := by
  have hlooper : ∀ T b, SameErrors s (s.modThread T fun y =>
      { y with looper := { y.looper with needReturn := b } }) := fun T b =>
    .modThread (fun _ => rfl) fun _ => rfl
  cases a with
  | openProc pid => cases hc
  | getThread p pid => cases hc
  | mmap p base size env => exact (SameErrors.of_eq driverMmap_thread).appends
  | vmaClose p => exact (errors_modProc s p _).appends
  | flush p => exact (errors_modProc s p _).appends
  | close p => exact (errors_modProc s p _).appends
  | deferredFunc p env => exact binderDeferredFunc_appends env s p
  | write T c env => exact writeCommand_appends env c
  | read T size consumed nonBlock fault => cases ha
  | lookForWork T =>
    simp only [Action.apply, Binder.lookForWork]
    split
    · exact .refl s
    · refine .ite (.refl s) (.ite (SameErrors.appends ?_) (.refl s))
      exact .modThread (fun _ => rfl) fun _ => rfl
  | resume T fault => cases ha
  | interrupt T =>
    simp only [Action.apply, interruptRead]
    split
    · exact .refl s
    · exact .ite (.refl s) (stopWaiting_silent s T T _).errors.appends
  | ioctlDone T => exact (hlooper T false).appends
  | setMaxThreads T n => exact (errors_modProc s _ _).appends
  | setContextMgr T euid kzalloc =>
    simp only [Action.apply, setCtxMgr]
    refine .ite (.refl s) (SameErrors.of_eq ?_).appends
    rfl
  | threadExit T => exact binderFreeThread_appends s T

/-- A step that is not a read of `T` takes no code from it. -/
theorem step_appends (L : Layout) (rb : RbTree ℕ) {a : Action} (hT : T < s.thread.next)
    (ha : a.reader ≠ some T) :
    (s.thread.get T).errors <+: (((driverMachine L rb).step s a).thread.get T).errors ∧
      ((s.thread.get T).secondAfterFirst →
        (((driverMachine L rb).step s a).thread.get T).secondAfterFirst) := by
  have hsame : ∀ s' : Driver, s'.thread.get T = s.thread.get T →
      (s.thread.get T).errors <+: (s'.thread.get T).errors ∧
        ((s.thread.get T).secondAfterFirst → (s'.thread.get T).secondAfterFirst) := fun s' h => by
    rw [h]
    exact ⟨List.prefix_refl _, id⟩
  by_cases hen : a.enabled L s = true
  swap
  · exact hsame _ (by rw [show (driverMachine L rb).step s a = s from if_neg hen])
  rw [show (driverMachine L rb).step s a = a.apply L rb s from if_pos hen]
  cases hc : a.creates with
  | true =>
    refine hsame _ ?_
    cases a with
    | openProc pid => rfl
    | getThread p pid =>
      simp only [Action.apply, binderGetThread]
      split_ifs
      · rfl
      · exact s.thread.get_alloc_ne T _ hT.ne
    | _ => cases hc
  | false =>
    cases hr : a.reader with
    | none =>
      have h : Appends s (a.apply L rb s) := apply_appends hr hc
      exact ⟨h.errors T, h.second T⟩
    | some S =>
      have hne : T ≠ S := fun he => ha (by rw [hr, he])
      have h : ReadKeeps S s (a.apply L rb s) := apply_keeps hr
      rw [BinderThread.errors, BinderThread.errors, BinderThread.secondAfterFirst,
        BinderThread.secondAfterFirst, h.first T hne, h.others T hne]
      exact ⟨List.prefix_refl _, id⟩

/-- A read with room for the codes, and a buffer that can be written, reports all of them. -/
theorem read_drains {size consumed : ℕ} {nonBlock : Bool}
    (h2 : (s.thread.get T).secondAfterFirst)
    (hroom : (if consumed = 0 then 4 else consumed) + 4 * (s.thread.get T).errors.length ≤ size) :
    ((binderThreadRead s T size consumed nonBlock fun _ => false).thread.get T).errors = [] := by
  have hwait : ∀ ptr, ptr + 4 * (s.thread.get T).errors.length ≤ size →
      ((waitForWork s T size ptr nonBlock fun _ => false).thread.get T).errors = [] :=
    fun ptr hptr => by
      by_cases hset : (s.thread.get T).returnError = .ok
      · have hsecond : (s.thread.get T).returnError2 = .ok := by
          by_contra hne
          exact h2 hne hset
        rw [(waitForWork_sleeps fun h => h.1 hset).errors.errors]
        simp [BinderThread.errors, hset, hsecond]
      · have hlt : ptr < size := by
          by_cases hsecond : (s.thread.get T).returnError2 = .ok
          · rw [errors_one hset hsecond, List.length_singleton] at hptr
            omega
          · rw [errors_two hset hsecond, List.length_cons, List.length_singleton] at hptr
            omega
        unfold waitForWork reportErrors
        dsimp only
        rw [if_pos ⟨hset, hlt⟩]
        by_cases hsecond : (s.thread.get T).returnError2 = .ok
        · rw [if_pos hsecond, if_neg (by simp), (readDone_errors _ T _).errors]
          simp [Driver.modThread, Driver.note, BinderThread.errors, hsecond]
        · rw [errors_two hset hsecond, List.length_cons, List.length_singleton] at hptr
          rw [if_neg hsecond, if_neg (by simp), if_neg (by omega), if_neg (by simp),
            (readDone_errors _ T _).errors]
          simp [Driver.modThread, Driver.note, BinderThread.errors]
  unfold binderThreadRead
  split_ifs at hroom ⊢ with h0
  · exact absurd ‹_› (by simp)
  · exact hwait 4 hroom
  · exact hwait consumed hroom

/-- What the books of `T` say of the two slots. -/
structure ErrorsOnce (L : Layout) (rb : RbTree ℕ) (T : ℕ) (b : ErrorBooks) : Prop where
  balance : b.recorded = b.reported ++ (b.driver.thread.get T).errors
  second : (b.driver.thread.get T).secondAfterFirst
  appends : ∀ a, a.reader ≠ some T → (b.driver.thread.get T).errors <+:
    (((driverMachine L rb).step b.driver a).thread.get T).errors
  drains : ∀ size consumed nonBlock,
    (if consumed = 0 then 4 else consumed) + 4 * (b.driver.thread.get T).errors.length ≤ size →
      ((binderThreadRead b.driver T size consumed nonBlock fun _ => false).thread.get T).errors = []

/-- The invariant of the books: they are empty while the thread is not made. -/
structure BooksInv (T : ℕ) (b : ErrorBooks) : Prop where
  empty : b.driver.thread.next ≤ T → b.recorded = [] ∧ b.reported = []
  balance : T < b.driver.thread.next → b.recorded = b.reported ++ (b.driver.thread.get T).errors
  second : T < b.driver.thread.next → (b.driver.thread.get T).secondAfterFirst

/-- A thread is made with no code in its slots. -/
theorem step_born {a : Action} (hT : s.thread.next ≤ T)
    (hT' : T < ((driverMachine L rb).step s a).thread.next) :
    (((driverMachine L rb).step s a).thread.get T).errors = [] ∧
      (((driverMachine L rb).step s a).thread.get T).secondAfterFirst := by
  by_cases hen : a.enabled L s = true
  swap
  · rw [show (driverMachine L rb).step s a = s from if_neg hen] at hT'
    exact absurd hT' (not_lt.2 hT)
  rw [show (driverMachine L rb).step s a = a.apply L rb s from if_pos hen] at hT' ⊢
  cases hc : a.creates with
  | false =>
    rw [(apply_grows L rb s a hc).threadNext] at hT'
    exact absurd hT' (not_lt.2 hT)
  | true =>
    cases a with
    | openProc pid => exact absurd hT' (not_lt.2 hT)
    | getThread p pid =>
      simp only [Action.apply, binderGetThread] at hT' ⊢
      split_ifs at hT' ⊢
      · exact absurd hT' (not_lt.2 hT)
      · obtain rfl : T = s.thread.next := le_antisymm (Nat.lt_succ_iff.1 hT') hT
        have hnew : (newThread s p pid).thread.get s.thread.next =
            { proc := p, pid := pid, looper := { needReturn := true } } := s.thread.get_alloc_self _
        rw [hnew]
        exact ⟨rfl, fun h => absurd rfl h⟩
    | _ => cases hc

theorem step_threadNext (a : Action) : s.thread.next ≤ ((driverMachine L rb).step s a).thread.next := by
  by_cases hen : a.enabled L s = true
  swap
  · rw [show (driverMachine L rb).step s a = s from if_neg hen]
  rw [show (driverMachine L rb).step s a = a.apply L rb s from if_pos hen]
  cases hc : a.creates with
  | false => exact (apply_grows L rb s a hc).threadNext.ge
  | true =>
    cases a with
    | openProc pid => exact le_rfl
    | getThread p pid =>
      simp only [Action.apply, binderGetThread]
      split_ifs
      · exact le_rfl
      · exact Nat.le_succ _
    | _ => cases hc

theorem BooksInv.step {b : ErrorBooks} (h : BooksInv T b) {a : Action} (hok : reportsKept L T b a) :
    BooksInv T ((bookMachine L rb T).step b a) := by
  by_cases hT : b.driver.thread.next ≤ T
  · obtain ⟨h1, h2⟩ := h.empty hT
    simp only [bookMachine, if_pos hT]
    refine ⟨fun _ => ⟨h1, h2⟩, fun hT' => ?_, fun hT' => (step_born hT hT').2⟩
    rw [h1, h2, (step_born hT hT').1]
    rfl
  have hlt := not_le.1 hT
  have hbal := h.balance hlt
  by_cases hr : a.reader = some T
  · have hnext : ¬((driverMachine L rb).step b.driver a).thread.next ≤ T :=
      not_le.2 (hlt.trans_le (step_threadNext a))
    have hstep : Booked T b.driver ((driverMachine L rb).step b.driver a) ∧
        ReadKeeps T b.driver ((driverMachine L rb).step b.driver a) := by
      by_cases hen : a.enabled L b.driver = true
      · rw [show (driverMachine L rb).step b.driver a = a.apply L rb b.driver from if_pos hen]
        exact ⟨apply_booked hr (by simpa [reportsKept, hen] using hok), apply_keeps hr⟩
      · rw [show (driverMachine L rb).step b.driver a = b.driver from if_neg hen]
        exact ⟨(Silent.refl _).booked, .of_errors (.refl _)⟩
    obtain ⟨⟨new, hnew, hcodes⟩, hkeep⟩ := hstep
    simp only [bookMachine, if_neg hT, if_pos hr]
    refine ⟨fun hT' => absurd hT' hnext, fun _ => ?_, fun _ => hkeep.second (h.second hlt)⟩
    rw [hbal, newEvents, hnew, List.drop_left, hcodes, List.append_assoc]
  · have hstep := step_appends L rb hlt hr
    simp only [bookMachine, if_neg hT, if_neg hr]
    refine ⟨fun hT' => absurd (hlt.trans_le (step_threadNext a)) (not_lt.2 hT'), fun _ => ?_,
      fun _ => hstep.2 (h.second hlt)⟩
    obtain ⟨new, hnew⟩ := hstep.1
    rw [hbal, newErrors, ← hnew, List.drop_left, List.append_assoc]

theorem booksInv_reach {b : ErrorBooks} (h : (bookMachine L rb T).Reach (reportsKept L T) b) :
    BooksInv T b := by
  refine h.invariant (fun b hb => ?_) fun b a hi ha => hi.step ha
  cases hb
  exact ⟨fun _ => ⟨rfl, rfl⟩, fun hT => absurd hT (Nat.not_lt_zero T),
    fun hT => absurd hT (Nat.not_lt_zero T)⟩

/-- While no report slips, the codes that were recorded for a thread are those that it was told of,
once and in their order, and those that it has still to be told of. -/
theorem errors_reported_once {b : ErrorBooks}
    (h : (bookMachine L rb T).Reach (reportsKept L T) b) (hT : T < b.driver.thread.next) :
    ErrorsOnce L rb T b :=
  have hi := booksInv_reach h
  ⟨hi.balance hT, hi.second hT, fun _ ha => (step_appends L rb hT ha).1,
    fun _ _ _ hroom => read_drains (hi.second hT) hroom⟩

/-- The books of thread 1. -/
def clientBooks (as : List Action) : ErrorBooks := (bookMachine layout32 .plain 1).exec {} as

/-- The client reads both codes at once. -/
theorem errors_reported_once_both :
    ErrorsOnce layout32 .plain 1
        (clientBooks (orphanedClient ++ [.read 1 256 0 false fun _ => false])) ∧
      (clientBooks (orphanedClient ++ [.read 1 256 0 false fun _ => false])).reported =
        [.error, .deadReply] := by
  have hadm : (bookMachine layout32 .plain 1).Admits (reportsKept layout32 1) {}
      (orphanedClient ++ [.read 1 256 0 false fun _ => false]) := by decide +kernel
  exact ⟨errors_reported_once (.exec (.start rfl) hadm) (by decide +kernel), by decide +kernel⟩

/-- A buffer that is full after the first code has it reported again. -/
theorem errors_reported_twice : ¬∀ b, (bookMachine layout32 .plain 1).Reach (fun _ _ => True) b →
    1 < b.driver.thread.next → ErrorsOnce layout32 .plain 1 b := by
  intro hall
  have hadm : (bookMachine layout32 .plain 1).Admits (fun _ _ => True) {}
      (orphanedClient ++ [.read 1 8 0 false fun _ => false, .read 1 256 0 false fun _ => false]) := by
    decide +kernel
  have h := (hall _ (.exec (.start rfl) hadm) (by decide +kernel)).balance
  revert h
  decide +kernel

end Binder

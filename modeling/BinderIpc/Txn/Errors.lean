import BinderIpc.Txn.Route

/-! The error codes that a thread has still to report. Whatever the driver does
but for a read of the thread itself, the codes that are there stay in their
order, and new ones come behind them. -/

namespace Binder

/-- The codes in the two slots, the older one first. -/
def BinderThread.errors (y : BinderThread) : List ReturnError :=
  [y.returnError2, y.returnError].filter (· ≠ .ok)

/-- The second slot is used only while the first one is. -/
def BinderThread.secondAfterFirst (y : BinderThread) : Prop :=
  y.returnError2 ≠ .ok → y.returnError ≠ .ok

/-- Every slot of every thread is as it was. -/
structure SameErrors (s s' : Driver) : Prop where
  first : ∀ T, (s'.thread.get T).returnError = (s.thread.get T).returnError
  second : ∀ T, (s'.thread.get T).returnError2 = (s.thread.get T).returnError2

/-- Codes are only added, behind those that are there. -/
structure Appends (s s' : Driver) : Prop where
  errors : ∀ T, (s.thread.get T).errors <+: (s'.thread.get T).errors
  second : ∀ T, (s.thread.get T).secondAfterFirst → (s'.thread.get T).secondAfterFirst

variable {L : Layout} {rb : RbTree ℕ} {s s' s'' : Driver} {T S t p : ℕ} {code : ReturnError}

namespace SameErrors

theorem refl (s : Driver) : SameErrors s s := ⟨fun _ => rfl, fun _ => rfl⟩

theorem trans (h : SameErrors s s') (h' : SameErrors s' s'') : SameErrors s s'' :=
  ⟨fun T => (h'.first T).trans (h.first T), fun T => (h'.second T).trans (h.second T)⟩

theorem of_eq (h : s'.thread = s.thread) : SameErrors s s' := by
  constructor <;> intro T <;> rw [h]

theorem ite {c : Prop} [Decidable c] (h : SameErrors s s') (h' : SameErrors s s'') :
    SameErrors s (if c then s' else s'') := by
  split_ifs
  · exact h
  · exact h'

theorem modThread {f : BinderThread → BinderThread} (h1 : ∀ y, (f y).returnError = y.returnError)
    (h2 : ∀ y, (f y).returnError2 = y.returnError2) : SameErrors s (s.modThread T f) :=
  ⟨fun S => s.thread.apply_get_modify T S f (·.returnError) h1,
    fun S => s.thread.apply_get_modify T S f (·.returnError2) h2⟩

theorem errors (h : SameErrors s s') (T : ℕ) :
    (s'.thread.get T).errors = (s.thread.get T).errors := by
  rw [BinderThread.errors, BinderThread.errors, h.first, h.second]

theorem appends (h : SameErrors s s') : Appends s s' where
  errors T := by rw [h.errors]
  second T := by
    unfold BinderThread.secondAfterFirst
    rw [h.first, h.second]
    exact id

end SameErrors

section

variable (s)

theorem errors_note (e : Event) : SameErrors s (s.note e) := .of_eq rfl

theorem errors_modObj (f : Objects → Objects) : SameErrors s (s.modObj f) := .of_eq rfl

theorem errors_bugOn (c : Bool) (b : Oops) : SameErrors s (s.bugOn c b) := .of_eq rfl

theorem errors_modTxn (t : ℕ) (f : BinderTransaction → BinderTransaction) :
    SameErrors s (s.modTxn t f) := .of_eq rfl

theorem errors_modProc (p : ℕ) (f : BinderProc → BinderProc) : SameErrors s (s.modProc p f) :=
  .of_eq rfl

theorem errors_modBuffer (b : ℕ × ℕ) (f : BinderBuffer → BinderBuffer) :
    SameErrors s (s.modBuffer b f) := .of_eq rfl

end

namespace Appends

theorem refl (s : Driver) : Appends s s := (SameErrors.refl s).appends

theorem trans (h : Appends s s') (h' : Appends s' s'') : Appends s s'' :=
  ⟨fun T => (h.errors T).trans (h'.errors T), fun T => h'.second T ∘ h.second T⟩

theorem ite {c : Prop} [Decidable c] (h : Appends s s') (h' : Appends s s'') :
    Appends s (if c then s' else s'') := by
  split_ifs
  · exact h
  · exact h'

theorem foldl {β : Type} {f : Driver → β → Driver} (hf : ∀ s x, Appends s (f s x)) (l : List β) :
    Appends s (l.foldl f s) := by
  induction l generalizing s with
  | nil => exact .refl s
  | cons x l ih => exact (hf s x).trans ih

/-- A change of the slots of one thread. -/
theorem modThread {f : BinderThread → BinderThread}
    (h1 : (s.thread.get T).errors <+: (f (s.thread.get T)).errors)
    (h2 : (s.thread.get T).secondAfterFirst → (f (s.thread.get T)).secondAfterFirst) :
    Appends s (s.modThread T f) := by
  constructor <;> intro S <;> simp only [Driver.modThread, Heap.get_modify] <;> split_ifs with hS
  · exact hS ▸ h1
  · exact List.prefix_refl _
  · exact hS ▸ h2
  · exact id

end Appends

/-! Failed replies -/

/-- The slots of a thread are all that a set of slots depends on. -/
theorem Appends.of_slots (hother : ∀ S, S ≠ T → (s'.thread.get S).returnError = (s.thread.get S).returnError ∧
      (s'.thread.get S).returnError2 = (s.thread.get S).returnError2)
    (h1 : (s.thread.get T).errors <+: (s'.thread.get T).errors)
    (h2 : (s'.thread.get T).secondAfterFirst) : Appends s s' := by
  constructor <;> intro S <;> by_cases hS : S = T
  · exact hS ▸ h1
  · rw [BinderThread.errors, BinderThread.errors, (hother S hS).1, (hother S hS).2]
  · exact fun _ => hS ▸ h2
  · unfold BinderThread.secondAfterFirst
    rw [(hother S hS).1, (hother S hS).2]
    exact id

/-- The code of a failed reply comes behind the one that is there. -/
theorem appends_failed (hcode : code ≠ .ok) (hsame : SameErrors (s.modThread T .shiftError) s')
    (hok : (s'.thread.get T).returnError = .ok) :
    Appends s (s'.modThread T fun y => { y with returnError := code }) := by
  have hget : (s'.modThread T fun y => { y with returnError := code }).thread.get T =
      { s'.thread.get T with returnError := code } :=
    s'.thread.get_modify_self T fun y => { y with returnError := code }
  have hshift : (s.modThread T .shiftError).thread.get T = (s.thread.get T).shiftError :=
    s.thread.get_modify_self T _
  have hfirst := hsame.first T
  have hsecond := hsame.second T
  rw [hshift] at hfirst hsecond
  refine .of_slots (T := T) (fun S hS => ?_) ?_ ?_
  · have h1 := hsame.first S
    have h2 := hsame.second S
    simp only [Driver.modThread, Heap.get_modify_ne _ _ _ _ hS] at h1 h2 ⊢
    exact ⟨h1, h2⟩
  · rw [hget]
    rw [hok] at hfirst
    unfold BinderThread.shiftError at hfirst hsecond
    split_ifs at hfirst hsecond with h
    · simp [BinderThread.errors, hsecond, h.1, h.2, hcode]
    · by_cases h2 : (s.thread.get T).returnError2 = .ok <;>
        simp [BinderThread.errors, hsecond, ← hfirst, h2, hcode]
  · rw [hget]
    exact fun _ => hcode

theorem popSender_errors : SameErrors s (popSender s T t) := by
  unfold popSender
  refine .trans ?_ (errors_modTxn _ t _)
  refine .trans ?_ (.modThread (fun _ => rfl) fun _ => rfl)
  exact (errors_bugOn s _ _).trans (errors_bugOn _ _ _)

theorem forgetTransaction_errors (o : Option (ℕ × ℕ)) : SameErrors s (forgetTransaction s o) := by
  cases o with
  | none => exact .refl s
  | some b => exact errors_modBuffer s b _

theorem freeTransaction_errors (s : Driver) (t : ℕ) : SameErrors s (freeTransaction s t) :=
  (forgetTransaction_errors _).trans (errors_modTxn _ t _)

theorem binderPopTransaction_errors (s : Driver) (t : ℕ) (o : Option ℕ) :
    SameErrors s (binderPopTransaction s o t) := by
  unfold binderPopTransaction
  refine .trans ?_ (freeTransaction_errors _ t)
  refine .trans ?_ (errors_modTxn _ t _)
  cases o with
  | none => exact .refl s
  | some T => exact popSender_errors

theorem failSender_appends (hcode : code ≠ .ok) : Appends s (failSender s T t code) := by
  have hget : (s.modThread T .shiftError).thread.get T = (s.thread.get T).shiftError :=
    s.thread.get_modify_self T _
  unfold failSender
  dsimp only
  split_ifs with hok
  · have hpop := binderPopTransaction_errors (s.modThread T .shiftError) t (some T)
    exact (appends_failed hcode hpop ((hpop.first T).trans hok)).trans (errors_note _ _).appends
  · -- both slots are taken, and nothing was shifted
    have hshift : (s.thread.get T).shiftError = s.thread.get T := by
      rw [hget] at hok
      unfold BinderThread.shiftError at hok ⊢
      split_ifs at hok ⊢ with h
      · exact absurd rfl hok
      · rfl
    have happ : Appends s (s.modThread T .shiftError) := by
      refine .modThread ?_ ?_ <;> rw [hshift]
      exact id
    exact happ.trans (errors_note _ _).appends

theorem failUpwards_appends (hcode : code ≠ .ok) (k : ℕ) (s : Driver) (t : ℕ) :
    Appends s (failUpwards code k s t) := by
  induction k generalizing s t with
  | zero => exact .refl s
  | succ k ih =>
    unfold failUpwards
    split
    · exact failSender_appends hcode
    · dsimp only
      split
      · exact (binderPopTransaction_errors s t none).appends
      · exact (binderPopTransaction_errors s t none).appends.trans (ih _ _)

theorem binderSendFailedReply_appends (hcode : code ≠ .ok) (s : Driver) (t : ℕ) :
    Appends s (binderSendFailedReply s t code) :=
  (errors_bugOn s _ _).appends.trans (failUpwards_appends hcode _ _ _)

/-! Work that is not delivered -/

theorem releaseItem_appends (s : Driver) (w : Work) : Appends s (releaseItem s w) := by
  cases w with
  | transaction t =>
    refine (errors_bugOn s (s.bufferOf t).isNone .noBuffer).appends.trans ?_
    have hdead : ReturnError.deadReply ≠ .ok := nofun
    exact .ite (binderSendFailedReply_appends hdead _ t) (freeTransaction_errors _ t).appends
  | transactionComplete t => exact .refl s
  | node n => exact .refl s
  | death d =>
    unfold releaseItem
    dsimp only
    split
    · exact (errors_modObj s _).appends
    · exact (errors_modObj s _).appends
    · exact .refl s

theorem releaseWorkLoop_appends (l : ListHead) (k : ℕ) (s : Driver) :
    Appends s (releaseWorkLoop l k s) := by
  induction k generalizing s with
  | zero => exact .refl s
  | succ k ih =>
    unfold releaseWorkLoop
    split
    · exact .refl s
    · exact .trans (errors_modObj s _).appends ((releaseItem_appends _ _).trans (ih _))

theorem binderReleaseWork_appends (s : Driver) (l : ListHead) : Appends s (binderReleaseWork s l) :=
  releaseWorkLoop_appends l _ s

theorem leaveTransactions_errors (T k : ℕ) (s : Driver) (o : Option ℕ) :
    SameErrors s (leaveTransactions T k s o) := by
  induction k generalizing s o with
  | zero => cases o <;> exact .refl s
  | succ k ih =>
    cases o with
    | none => exact .refl s
    | some t =>
      unfold leaveTransactions
      dsimp only
      split_ifs
      · exact .trans ((forgetTransaction_errors _).trans (errors_modTxn _ t _)) (ih _ _)
      · exact .trans (errors_modTxn s t _) (ih _ _)
      · exact errors_bugOn s _ _

theorem binderFreeThread_appends (s : Driver) (T : ℕ) : Appends s (binderFreeThread s T) := by
  have hdead : ReturnError.deadReply ≠ .ok := nofun
  have hexit : ∀ s : Driver, SameErrors s (s.modThread T fun y => { y with freed := y.freed + 1 }) :=
    fun s => .modThread (fun _ => rfl) fun _ => rfl
  unfold binderFreeThread
  refine .trans ?_ (hexit _).appends
  refine .trans ?_ (binderReleaseWork_appends _ _)
  refine (errors_modProc s (s.thread.get T).proc fun p =>
    { p with threads := p.threads.erase T }).appends.trans ?_
  split
  · exact (leaveTransactions_errors T _ _ _).appends.trans (binderSendFailedReply_appends hdead _ _)
  · exact (leaveTransactions_errors T _ _ _).appends

theorem releaseNode_appends (p : ℕ) (s : Driver) (n : ℕ) : Appends s (releaseNode p s n) := by
  unfold releaseNode binderNodeRelease
  refine .trans ?_ (errors_modObj _ _).appends
  refine .trans ?_ (binderReleaseWork_appends _ _)
  exact ((errors_modObj s _).trans ((errors_note _ _).trans (errors_modObj _ _))).appends

theorem releaseBuffer_errors (env : ℕ → PageEnv) (p : ℕ) (s : Driver) (a : ℕ) :
    SameErrors s (releaseBuffer L rb env p s a) := by
  unfold releaseBuffer
  refine .trans ?_ (errors_modProc _ p _)
  split
  · exact (errors_modTxn s _ _).trans (errors_modBuffer _ _ _)
  · exact .refl s

theorem binderDeferredRelease_appends (env : ℕ → PageEnv) (s : Driver) (p : ℕ) :
    Appends s (binderDeferredRelease L rb env s p) := by
  unfold binderDeferredRelease
  refine .trans ?_ (errors_modProc _ p _).appends
  refine .trans ?_ (.foldl (fun s a => (releaseBuffer_errors env p s a).appends) _)
  refine .trans ?_ ((binderReleaseWork_appends _ _).trans (binderReleaseWork_appends _ _))
  refine .trans ?_ (errors_modObj _ _).appends
  refine .trans ?_ (.foldl (releaseNode_appends p) _)
  refine .trans ?_ (.foldl binderFreeThread_appends _)
  exact ((errors_bugOn s _ _).trans ((errors_bugOn _ _ _).trans (errors_modObj _ _))).appends

theorem binderDeferredFunc_appends (env : ℕ → PageEnv) (s : Driver) (p : ℕ) :
    Appends s (binderDeferredFunc L rb env s p) := by
  have hflush : ∀ s : Driver, Appends s (binderDeferredFlush s p) := fun s => by
    refine .foldl (fun s T => SameErrors.appends ?_) _
    exact .modThread (fun _ => rfl) fun _ => rfl
  have hbefore : Appends s (beforeRelease s p) := by
    unfold beforeRelease
    refine Appends.trans ?_ (.ite (hflush _) (.refl _))
    refine Appends.trans ?_ (.ite (errors_modObj _ _).appends (.refl _))
    exact (errors_modProc s p _).appends
  rw [binderDeferredFunc_eq]
  exact .ite (hbefore.trans (binderDeferredRelease_appends env _ p)) hbefore

/-! Commands -/

/-- A failed command finds no code before its own. -/
theorem failTransaction_appends {f : Failure} (hok : (s.thread.get T).returnError = .ok)
    (hcode : f.code ≠ .ok) : Appends s (failTransaction s T f) := by
  have hset : ∀ (s : Driver) {code : ReturnError}, (s.thread.get T).returnError = .ok → code ≠ .ok →
      Appends s (s.modThread T fun y => { y with returnError := code }) := fun s code hs hc => by
    refine .modThread ?_ fun _ _ => hc
    by_cases h2 : (s.thread.get T).returnError2 = .ok <;> simp [BinderThread.errors, hs, h2, hc]
  have hcomplete : ReturnError.transactionComplete ≠ .ok := nofun
  unfold failTransaction
  refine (errors_bugOn s (decide ((s.thread.get T).returnError ≠ .ok))
    .returnErrorSet).appends.trans ?_
  dsimp only
  split
  · exact .trans (hset _ hok hcomplete) (binderSendFailedReply_appends hcode _ _)
  · exact hset _ hok hcode

theorem queueTransaction_errors (s : Driver) (T t : ℕ) (target : Target) :
    SameErrors s (queueTransaction s T t target) := by
  unfold queueTransaction
  dsimp only
  refine .trans ?_ (errors_modObj _ _)
  split
  · exact (errors_bugOn s _ _).trans ((binderPopTransaction_errors _ _ _).trans (errors_note _ _))
  · split_ifs
    · refine .trans ?_ (errors_note _ _)
      refine .trans ?_ (.modThread (fun _ => rfl) fun _ => rfl)
      exact (errors_bugOn s _ _).trans (errors_modTxn _ t _)
    · have h := (errors_bugOn s target.node.isNone .targetNode).trans
        (errors_bugOn _ (!(s.bufferOf t).any (·.asyncTransaction)) .asyncBuffer)
      split
      · exact h
      · split_ifs
        · exact h
        · dsimp only
          exact h.trans (errors_modObj _ _)

theorem placeBuffer_errors (s : Driver) (tr : TransactionData) (target : Target) (t : ℕ)
    (area : BinderArea) (a : ℕ) : SameErrors s (placeBuffer s tr target t area a) := by
  unfold placeBuffer
  refine .trans ?_ (errors_modObj _ _)
  refine .trans ?_ (errors_modBuffer _ _ _)
  exact (errors_modProc s _ _).trans (errors_modTxn _ _ _)

theorem undoBuffer_appends (hok : (s.thread.get T).returnError = .ok) (env : TransactionEnv)
    (target : Target) (a : ℕ) (b : BinderBuffer) (k : ℕ) :
    Appends s (undoBuffer L rb s T t env target a b k) := by
  unfold undoBuffer
  dsimp only
  refine .trans ?_ (failTransaction_appends hok nofun)
  refine .trans ?_ (errors_modTxn _ _ _).appends
  refine .trans ?_ (errors_modProc _ _ _).appends
  exact ((errors_modObj s _).trans (errors_modBuffer _ _ _)).appends

theorem deliverBuffer_appends (hok : (s.thread.get T).returnError = .ok) (tr : TransactionData)
    (env : TransactionEnv) (target : Target) (a : ℕ) (b : BinderBuffer) :
    Appends s (deliverBuffer L rb s T t tr env target a b) := by
  unfold deliverBuffer
  generalize translateBuffer L s.obj (transferOf s T target) env tr b = r
  have hs : SameErrors s ((s.modObj fun _ => r.1).modBuffer (target.proc, a)
      fun b => { b with data := r.2.1 }) := .trans (errors_modObj s _) (errors_modBuffer _ _ _)
  dsimp only
  split
  · exact hs.appends.trans (queueTransaction_errors _ _ _ _).appends
  · exact hs.appends.trans (undoBuffer_appends ((hs.first T).trans hok) _ _ _ _ _)

theorem errors_allocTxn (s : Driver) (x : BinderTransaction) :
    SameErrors s { s with txn := s.txn.alloc x } := .of_eq rfl

theorem sendTransaction_appends (hok : (s.thread.get T).returnError = .ok) (tr : TransactionData)
    (env : TransactionEnv) (target : Target) :
    Appends s (sendTransaction L rb s T tr env target) := by
  rw [sendTransaction_eq]
  refine .ite (failTransaction_appends hok nofun) ?_
  refine .trans (errors_allocTxn s (newTransaction T tr target)).appends ?_
  dsimp only
  split
  · refine .trans ?_ (failTransaction_appends hok nofun)
    exact ((errors_modProc _ _ _).trans (errors_modTxn _ _ _)).appends
  · split
    · exact (placeBuffer_errors _ _ _ _ _ _).appends
    · refine .trans ?_ (deliverBuffer_appends ?_ _ _ _ _ _)
      · exact (placeBuffer_errors _ _ _ _ _ _).appends
      · exact ((placeBuffer_errors _ _ _ _ _ _).first T).trans hok

theorem replyTarget_errors (s : Driver) (T : ℕ) : SameErrors s (replyTarget s T).1 := by
  unfold replyTarget
  split
  · exact .refl s
  · dsimp only
    split_ifs
    · exact .refl s
    · have h : ∀ u : Option ℕ, SameErrors s (s.modThread T fun y => { y with transactionStack := u }) :=
        fun u => .modThread (fun _ => rfl) fun _ => rfl
      split
      · exact h _
      · split_ifs
        · exact (h _).trans (errors_note _ _)
        · exact h _

/-- The error exits have a code. -/
theorem replyTarget_code {s' : Driver} {f : Failure} (h : replyTarget s T = (s', .error f)) :
    f.code ≠ .ok := by
  unfold replyTarget at h
  split at h
  · cases h
    nofun
  · dsimp only at h
    split_ifs at h
    · cases h
      nofun
    · split at h
      · cases h
        nofun
      · split_ifs at h <;> (cases h; try nofun)

theorem callTarget_code {tr : TransactionData} {f : Failure} (h : callTarget s T tr = .error f) :
    f.code ≠ .ok := by
  unfold callTarget at h
  cases hn : targetNode s T tr with
  | error g =>
    rw [hn] at h
    cases h
    exact (targetNode_code hn).2
  | ok n =>
    rw [hn] at h
    simp only [bind, Except.bind] at h
    split at h
    · cases h
      nofun
    · split_ifs at h <;> (cases h; try nofun)

theorem binderTransaction_appends (hok : (s.thread.get T).returnError = .ok) (tr : TransactionData)
    (reply : Bool) (env : TransactionEnv) :
    Appends s (binderTransaction L rb s T tr reply env) := by
  unfold binderTransaction
  cases reply with
  | false =>
    simp only [Bool.false_eq_true, if_false]
    split
    · rename_i he
      obtain ⟨rfl, he'⟩ := Prod.mk.inj he
      exact failTransaction_appends hok (callTarget_code he')
    · rename_i he
      obtain ⟨rfl, -⟩ := Prod.mk.inj he
      exact sendTransaction_appends hok tr env _
  | true =>
    have hs := replyTarget_errors s T
    simp only [if_true]
    split
    · rename_i he
      rw [he] at hs
      exact hs.appends.trans (failTransaction_appends ((hs.first T).trans hok) (replyTarget_code he))
    · rename_i he
      rw [he] at hs
      exact hs.appends.trans (sendTransaction_appends ((hs.first T).trans hok) tr env _)

theorem freeBuffer_errors (a : ℕ) (env : PageEnv) : SameErrors s (freeBuffer L rb s T a env) := by
  unfold freeBuffer
  dsimp only
  split
  · exact .refl s
  · refine .ite (.refl s) ?_
    refine .trans ?_ (errors_modProc _ _ _)
    refine .trans ?_ (errors_modObj _ _)
    refine .trans ?_ (.ite (errors_modObj _ _) (.refl _))
    unfold detachBuffer
    split
    · exact (errors_modTxn s _ _).trans (errors_modBuffer _ _ _)
    · exact .refl s

theorem requestDeathNotification_appends (hok : (s.thread.get T).returnError = .ok)
    (target cookie : ℕ) (kzalloc : Bool) :
    Appends s (requestDeathNotification s T target cookie kzalloc) := by
  have hset : Appends s (s.modThread T fun y => { y with returnError := .error }) := by
    refine .modThread ?_ fun _ _ => nofun
    by_cases h2 : (s.thread.get T).returnError2 = .ok <;> simp [BinderThread.errors, hok, h2]
  unfold requestDeathNotification
  dsimp only
  split
  · exact .refl s
  · refine .ite (.refl s) (.ite hset ?_)
    refine .trans ?_ (.ite (errors_modObj _ _).appends (.refl _))
    exact ((errors_modObj s _).trans (errors_note _ _)).appends

theorem clearDeathNotification_errors (target cookie : ℕ) :
    SameErrors s (clearDeathNotification s T target cookie) := by
  unfold clearDeathNotification
  dsimp only
  split
  · exact .refl s
  · split
    · exact .refl s
    · refine .ite (.refl s) ?_
      refine .trans ?_ (.ite ((errors_bugOn _ _ _).trans (errors_modObj _ _)) (errors_modObj _ _))
      exact (errors_modObj s _).trans (errors_note _ _)

theorem deadBinderDone_errors (cookie : ℕ) : SameErrors s (deadBinderDone s T cookie) := by
  unfold deadBinderDone
  dsimp only
  split
  · exact .refl s
  · refine .trans ?_ (.ite (errors_modObj _ _) (.refl _))
    exact (errors_modObj s _).trans (errors_note _ _)

theorem registerLooper_errors : SameErrors s (registerLooper s T) := by
  unfold registerLooper
  refine .trans ?_ (.modThread (fun _ => rfl) fun _ => rfl)
  refine .ite (.modThread (fun _ => rfl) fun _ => rfl) ?_
  exact .ite (.modThread (fun _ => rfl) fun _ => rfl) (errors_modProc s _ _)

theorem writeCommand_appends (env : CommandEnv) (c : Command) :
    Appends s (writeCommand L rb s T env c) := by
  unfold writeCommand
  split_ifs with hok
  swap
  · exact .refl s
  cases c with
  | ref c target =>
    exact (errors_modObj s fun o => refCommand o (s.thread.get T).proc c target env.kzalloc).appends
  | refDone strong ptr cookie =>
    exact (errors_modObj s fun o => refDone o (s.thread.get T).proc strong ptr cookie).appends
  | freeBuffer a => exact (freeBuffer_errors a env.free).appends
  | transaction tr => exact binderTransaction_appends hok tr false env.transaction
  | reply tr => exact binderTransaction_appends hok tr true env.transaction
  | registerLooper => exact registerLooper_errors.appends
  | enterLooper => exact SameErrors.appends (.modThread (fun _ => rfl) fun _ => rfl)
  | exitLooper => exact SameErrors.appends (.modThread (fun _ => rfl) fun _ => rfl)
  | requestDeathNotification target cookie =>
    exact requestDeathNotification_appends hok target cookie env.kzalloc
  | clearDeathNotification target cookie => exact (clearDeathNotification_errors target cookie).appends
  | deadBinderDone cookie => exact (deadBinderDone_errors cookie).appends

end Binder

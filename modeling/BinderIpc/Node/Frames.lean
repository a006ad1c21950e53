import BinderIpc.Death.Steps
import BinderIpc.Node.Transfer

/-! What the owner of a node was told about it, and the functions of the driver
that do not change what is known of a node. -/

namespace Binder

/-- The node that a command is about. -/
def Br.nodeOf : Br → Option ℕ
  | increfs n | acquire n | release n | decrefs n => some n
  | _ => none

def Event.nodeOf : Event → Option ℕ
  | .br _ cmd => cmd.nodeOf
  | _ => none

/-- A command about a node in its order: what the owner holds before it, weakly and strongly, and after it. -/
def Br.ownerNext : Br → Bool × Bool → Option (Bool × Bool)
  | increfs _, (false, false) => some (true, false)
  | acquire _, (true, false) => some (true, true)
  | release _, (true, true) => some (true, false)
  | decrefs _, (true, false) => some (false, false)
  | _, _ => none

def Event.ownerStep (n : ℕ) (v : Option (Bool × Bool)) : Event → Option (Bool × Bool)
  | .br _ cmd => if cmd.nodeOf = some n then v.bind cmd.ownerNext else v
  | _ => v

/-- What the owner of node `n` holds after the commands of a history; none when one was out of order. -/
def ownerView (n : ℕ) (h : List Event) : Option (Bool × Bool) :=
  h.foldl (Event.ownerStep n) (some (false, false))

theorem Event.ownerStep_other {n : ℕ} {e : Event} (he : e.nodeOf ≠ some n) (v : Option (Bool × Bool)) :
    e.ownerStep n v = v := by
  cases e with
  | br T cmd => exact if_neg he
  | _ => rfl

theorem ownerView_append (n : ℕ) (h : List Event) {es : List Event} (hes : ∀ e ∈ es, e.nodeOf = none) :
    ownerView n (h ++ es) = ownerView n h := by
  induction es using List.reverseRecOn with
  | nil => rw [List.append_nil]
  | append_singleton es e ih =>
    rw [← List.append_assoc, ownerView, List.foldl_append]
    have he : e.nodeOf ≠ some n := by rw [hes e (by simp)]; exact fun h => by cases h
    exact (Event.ownerStep_other he _).trans (ih fun e' he' => hes e' (by simp [he']))

/-- What a run is watched for. -/
structure NodeWatch where
  whole : Prop := False
  insider : ℕ → Prop := fun _ => False
  gone : ℕ → Prop := fun _ => False

/-- The lists of each process and the commands that went out, for a state of the driver. -/
def nodeScope (w : NodeWatch) (s : Driver) : NodeScope where
  home p l := l = .procTodo p ∨
    ∃ T < s.thread.next, l = .threadTodo T ∧ (s.thread.get T).proc = p
  procTodo _ := Or.inl rfl
  asyncTodo p n h := by
    rcases h with h | ⟨T, -, h, -⟩ <;> cases h
  view n := ownerView n s.history
  sent n T := ∃ cmd, .br T cmd ∈ s.history ∧ cmd.nodeOf = some n
  whole := w.whole
  insider := w.insider
  gone := w.gone

theorem nodeScope_thread {s : Driver} {T : ℕ} (w : NodeWatch) (hT : T < s.thread.next) :
    (nodeScope w s).home (s.thread.get T).proc (.threadTodo T) := Or.inr ⟨T, hT, rfl, rfl⟩

structure NodeInv (w : NodeWatch) (s : Driver) : Prop where
  refs : RefsInv s.obj
  facts : NodeFacts (nodeScope w s) s.obj

theorem NodeFacts.mono {K K' : NodeScope} {o : Objects} (h : NodeFacts K o)
    (hhome : ∀ p l, K.home p l → K'.home p l) (hview : ∀ n, K'.view n = K.view n)
    (hsent : ∀ n T, K'.sent n T → K.sent n T) (hwhole : K'.whole → K.whole)
    (hinsider : K'.insider = K.insider) (hgone : K'.gone = K.gone) : NodeFacts K' o :=
  { h with
    confined := hinsider ▸ h.confined
    empty := hgone ▸ h.empty
    home := fun l n hn => (h.home l n hn).imp fun p hp => ⟨hp.1, hhome p l hp.2⟩
    told := fun hw n hn => (hview n).trans (h.told (hwhole hw) n hn)
    born := fun hw n hn => (hview n).trans (h.born (hwhole hw) n hn)
    sent := fun n T hn => (h.sent n T (hsent n T hn)).imp_right fun hp =>
      hp.imp fun p hp => ⟨hhome p _ hp.1, hp.2⟩ }

/-- The lists stay with their processes, and no command about a node goes out. -/
structure SameScope (s s' : Driver) : Prop where
  history : ∃ es, s'.history = s.history ++ es ∧ ∀ e ∈ es, e.nodeOf = none
  threadNext : s.thread.next ≤ s'.thread.next
  owner : ∀ T < s.thread.next, (s'.thread.get T).proc = (s.thread.get T).proc

namespace SameScope

variable {s s' s'' : Driver}

theorem refl (s : Driver) : SameScope s s :=
  ⟨⟨[], (List.append_nil _).symm, fun _ he => by cases he⟩, le_rfl, fun _ _ => rfl⟩

theorem trans (h : SameScope s s') (h' : SameScope s' s'') : SameScope s s'' where
  history := by
    obtain ⟨es, he, hes⟩ := h.history
    obtain ⟨es', he', hes'⟩ := h'.history
    refine ⟨es ++ es', by rw [he', he, List.append_assoc], fun e hmem => ?_⟩
    exact (List.mem_append.1 hmem).elim (hes e) (hes' e)
  threadNext := h.threadNext.trans h'.threadNext
  owner T hT := (h'.owner T (hT.trans_le h.threadNext)).trans (h.owner T hT)

theorem facts {w : NodeWatch} (h : SameScope s s') {o : Objects} (hf : NodeFacts (nodeScope w s) o) :
    NodeFacts (nodeScope w s') o := by
  obtain ⟨es, he, hes⟩ := h.history
  refine hf.mono (fun p l hl => ?_) (fun n => ?_) (fun n T hn => ?_) id rfl rfl
  · rcases hl with hl | ⟨T, hT, hl, hp⟩
    · exact Or.inl hl
    · exact Or.inr ⟨T, hT.trans_le h.threadNext, hl, (h.owner T hT).trans hp⟩
  · change ownerView n s'.history = ownerView n s.history
    rw [he, ownerView_append n _ hes]
  · obtain ⟨cmd, hmem, hof⟩ := hn
    rw [he] at hmem
    refine ⟨cmd, (List.mem_append.1 hmem).resolve_right fun hnew => ?_, hof⟩
    have hnone : cmd.nodeOf = none := hes _ hnew
    rw [hnone] at hof
    cases hof

end SameScope

/-- A step that has nothing to do with nodes, their counts or where they are. -/
structure Untouched (s s' : Driver) : Prop where
  nodes : SameNodes s.obj s'.obj
  refs : RefsInv s.obj → RefsInv s'.obj
  scope : SameScope s s'

namespace Untouched

variable {s s' s'' : Driver}

theorem refl (s : Driver) : Untouched s s := ⟨.refl _, id, .refl s⟩

theorem trans (h : Untouched s s') (h' : Untouched s' s'') : Untouched s s'' :=
  ⟨h.nodes.trans h'.nodes, fun hr => h'.refs (h.refs hr), h.scope.trans h'.scope⟩

theorem ite {c : Prop} [Decidable c] (h : Untouched s s') (h' : Untouched s s'') :
    Untouched s (if c then s' else s'') := by
  split_ifs <;> assumption

theorem foldl {α : Type*} {f : Driver → α → Driver} (hf : ∀ s a, Untouched s (f s a)) (l : List α)
    (s : Driver) : Untouched s (l.foldl f s) := by
  induction l generalizing s with
  | nil => exact .refl s
  | cons a l ih => exact (hf s a).trans (ih _)

end Untouched

theorem NodeInv.untouched {w : NodeWatch} {s s' : Driver} (h : NodeInv w s) (hu : Untouched s s') :
    NodeInv w s' := ⟨hu.refs h.refs, hu.scope.facts (h.facts.congr hu.nodes)⟩

section

variable (s : Driver)

theorem untouched_modObj {f : Objects → Objects} (hl : SameLinks s.obj (f s.obj))
    (hn : SameNodes s.obj (f s.obj)) : Untouched s (s.modObj f) :=
  ⟨hn, fun h => h.links hl.links, { SameScope.refl s with }⟩

theorem untouched_bugOn (c : Bool) {b : Oops} (hb : b.isLink = false) : Untouched s (s.bugOn c b) :=
  untouched_modObj s (sameLinks_bugOn s.obj c hb) (sameNodes_bugOn s.obj c b)

theorem untouched_note {e : Event} (he : e.nodeOf = none) : Untouched s (s.note e) :=
  ⟨.refl _, id, ⟨[e], rfl, by simpa using he⟩, le_rfl, fun _ _ => rfl⟩

theorem untouched_modTxn (t : ℕ) (f : BinderTransaction → BinderTransaction) :
    Untouched s (s.modTxn t f) := ⟨.refl _, id, { SameScope.refl s with }⟩

theorem untouched_allocTxn (x : BinderTransaction) : Untouched s { s with txn := s.txn.alloc x } :=
  ⟨.refl _, id, { SameScope.refl s with }⟩

theorem untouched_modProc (p : ℕ) (f : BinderProc → BinderProc) : Untouched s (s.modProc p f) :=
  ⟨.refl _, id, { SameScope.refl s with }⟩

theorem untouched_modThread (T : ℕ) {f : BinderThread → BinderThread}
    (hf : ∀ y, (f y).proc = y.proc) : Untouched s (s.modThread T f) :=
  ⟨.refl _, id, { SameScope.refl s with
    owner := fun S _ => s.thread.apply_get_modify T S f (·.proc) hf }⟩

variable (T t p : ℕ)

theorem forgetTransaction_untouched (b : Option (ℕ × ℕ)) : Untouched s (forgetTransaction s b) := by
  cases b with
  | none => exact .refl s
  | some b => exact untouched_modProc s _ _

theorem freeTransaction_untouched : Untouched s (freeTransaction s t) :=
  (forgetTransaction_untouched s _).trans (untouched_modTxn _ t _)

theorem binderPopTransaction_untouched (o : Option ℕ) : Untouched s (binderPopTransaction s o t) := by
  unfold binderPopTransaction
  refine Untouched.trans ?_ (freeTransaction_untouched _ t)
  refine Untouched.trans ?_ (untouched_modTxn _ t _)
  cases o with
  | none => exact .refl s
  | some T =>
    refine Untouched.trans ?_ (untouched_modTxn _ t _)
    refine Untouched.trans ?_ (untouched_modThread _ T fun _ => rfl)
    exact (untouched_bugOn s _ rfl).trans (untouched_bugOn _ _ rfl)

theorem failSender_untouched (e : ReturnError) : Untouched s (failSender s T t e) := by
  unfold failSender
  have h := untouched_modThread s T BinderThread.proc_shiftError
  refine Untouched.ite (h.trans ?_) (h.trans (untouched_note _ rfl))
  refine Untouched.trans ?_ (untouched_note _ rfl)
  exact (binderPopTransaction_untouched _ t _).trans (untouched_modThread _ T fun _ => rfl)

theorem failUpwards_untouched (e : ReturnError) (k : ℕ) : Untouched s (failUpwards e k s t) := by
  induction k generalizing s t with
  | zero => exact .refl s
  | succ k ih =>
    unfold failUpwards
    split
    · exact failSender_untouched s _ t e
    · dsimp only
      split
      · exact binderPopTransaction_untouched s t none
      · exact (binderPopTransaction_untouched s t none).trans (ih _ _)

theorem binderSendFailedReply_untouched (e : ReturnError) :
    Untouched s (binderSendFailedReply s t e) :=
  (untouched_bugOn s _ rfl).trans (failUpwards_untouched _ t e _)

theorem leaveTransactions_untouched (k : ℕ) (o : Option ℕ) :
    Untouched s (leaveTransactions T k s o) := by
  induction k generalizing s o with
  | zero => cases o <;> exact .refl s
  | succ k ih =>
    cases o with
    | none => exact .refl s
    | some t =>
      unfold leaveTransactions
      refine Untouched.ite ?_ (.ite ?_ (untouched_bugOn s _ rfl))
      · refine Untouched.trans ?_ (ih _ _)
        exact (forgetTransaction_untouched s (s.txn.get t).buffer).trans (untouched_modTxn _ t _)
      · exact (untouched_modTxn s t _).trans (ih _ _)

theorem releaseBuffer_untouched (L : Layout) (rb : RbTree ℕ) (env : ℕ → PageEnv) (a : ℕ) :
    Untouched s (releaseBuffer L rb env p s a) := by
  unfold releaseBuffer
  refine Untouched.trans ?_ (untouched_modProc _ p _)
  split
  · exact (untouched_modTxn s _ _).trans (untouched_modProc _ _ _)
  · exact .refl s

theorem beforeRelease_untouched : Untouched s (beforeRelease s p) := by
  have hflush : ∀ s : Driver, Untouched s (binderDeferredFlush s p) := fun s => by
    refine Untouched.foldl (fun s T => ?_) _ s
    exact untouched_modThread s T fun _ => rfl
  unfold beforeRelease
  refine Untouched.trans ?_ (.ite (hflush _) (.refl _))
  refine Untouched.trans (untouched_modProc s p _) (.ite (untouched_modObj _ ?_ ?_) (.refl _))
  · exact sameLinks_files _ p fun _ => ⟨rfl, rfl, rfl⟩
  · exact sameNodes_modOwn _ p (fun _ => rfl) fun _ => .refl _

theorem failTransaction_untouched (f : Failure) : Untouched s (failTransaction s T f) := by
  unfold failTransaction
  refine Untouched.trans (untouched_bugOn s (decide ((s.thread.get T).returnError ≠ .ok))
    (b := .returnErrorSet) rfl) ?_
  dsimp only
  split
  · refine Untouched.trans ?_ (binderSendFailedReply_untouched _ _ _)
    exact untouched_modThread _ T fun _ => rfl
  · exact untouched_modThread _ T fun _ => rfl

theorem replyTarget_untouched : Untouched s (replyTarget s T).1 := by
  unfold replyTarget
  split
  · exact .refl s
  · dsimp only
    split_ifs
    · exact .refl s
    · rename_i u _ _
      have h : Untouched s (s.modThread T fun y =>
        { y with transactionStack := (s.txn.get u).toParent }) := untouched_modThread s T fun _ => rfl
      split
      · exact h
      · split_ifs
        · exact h.trans (untouched_note _ rfl)
        · exact h

theorem queueTransaction_untouched (target : Target) :
    Untouched s (queueTransaction s T t target) := by
  have hend : ∀ (s : Driver) l, Untouched s (s.modObj fun o => { o with
      todo := (o.todo.addTail l (.transaction t)).addTail (.threadTodo T)
        (.transactionComplete t) }) := fun s l => by
    refine untouched_modObj s ?_ ?_
    · exact (sameLinks_addTail s.obj l fun d he => by cases he).trans
        (sameLinks_addTail _ _ fun d he => by cases he)
    · exact (sameNodes_addTail s.obj l fun n he => by cases he).trans
        (sameNodes_addTail _ _ fun n he => by cases he)
  unfold queueTransaction
  dsimp only
  refine Untouched.trans ?_ (hend _ _)
  split
  · dsimp only
    refine Untouched.trans ?_ (untouched_note _ rfl)
    exact (untouched_bugOn s _ rfl).trans (binderPopTransaction_untouched _ _ _)
  · split_ifs
    · dsimp only
      refine Untouched.trans ?_ (untouched_note _ rfl)
      refine Untouched.trans ?_ (untouched_modThread _ T fun _ => rfl)
      exact (untouched_bugOn s _ rfl).trans (untouched_modTxn _ t _)
    · have h := (untouched_bugOn s target.node.isNone (b := .targetNode) rfl).trans
        (untouched_bugOn _ (!(s.bufferOf t).any (·.asyncTransaction)) (b := .asyncBuffer) rfl)
      split
      · exact h
      · split_ifs
        · exact h
        · dsimp only
          refine h.trans (untouched_modObj _ ?_ ?_)
          · exact sameLinks_modNode _ _ (fun _ => rfl) fun _ => rfl
          · exact sameNodes_modNode _ _ fun _ => rfl

end

end Binder

import BinderIpc.Death.Records
import BinderIpc.Driver.Grows

/-! What holds of the death records across every step, and the steps that each
function of the driver is made of. -/

namespace Binder

/-- What was said before an event about a death record. -/
def DeathOK (h : List Event) : Event → Prop
  | .br _ (.deadBinder d) => (∀ T, .br T (.deadBinder d) ∉ h) ∧
    ∀ T, .br T (.clearDeathNotificationDone d) ∉ h
  | .br _ (.clearDeathNotificationDone d) => .deathCleared d ∈ h ∧
    (∀ T, .br T (.clearDeathNotificationDone d) ∉ h) ∧
    ((∃ T, .br T (.deadBinder d) ∈ h) → .deadBinderDone d ∈ h)
  | _ => True

/-- Every event of the history came in its order. -/
def DeathOrder (h : List Event) : Prop := ∀ h₁ e h₂, h = h₁ ++ e :: h₂ → DeathOK h₁ e

theorem DeathOrder.snoc {h : List Event} (ho : DeathOrder h) {e : Event} (he : DeathOK h e) :
    DeathOrder (h ++ [e]) := by
  intro h₁ e' h₂ heq
  rcases List.eq_nil_or_concat h₂ with rfl | ⟨h₃, e₃, rfl⟩
  · obtain ⟨rfl, hlast⟩ := List.append_inj' heq rfl
    rwa [← List.singleton_inj.1 hlast]
  · rw [List.concat_eq_append, ← List.cons_append, ← List.append_assoc] at heq
    exact ho h₁ e' h₃ (List.append_inj' heq rfl).1

theorem deathOK_of_none {h : List Event} {e : Event} (he : e.deathOf = none) : DeathOK h e := by
  cases e with
  | br T cmd => cases cmd <;> trivial
  | _ => trivial

theorem DeathOrder.append {h es : List Event} (ho : DeathOrder h)
    (hes : ∀ e ∈ es, e.deathOf = none) : DeathOrder (h ++ es) := by
  induction es using List.reverseRecOn with
  | nil => rwa [List.append_nil]
  | append_singleton es e ih =>
    rw [← List.append_assoc]
    exact (ih fun e' he' => hes e' (by simp [he'])).snoc (deathOK_of_none (hes e (by simp)))

structure DeathInv (s : Driver) : Prop where
  links : RefsInv s.obj
  record : ∀ d, RecordInv s d
  released : ∀ n < s.obj.node.next, (s.obj.node.get n).proc = none → .nodeReleased n ∈ s.history
  order : DeathOrder s.history
  release : .nodeReleaseDeath ∉ s.obj.oops
  clear : .clearDeathType ∉ s.obj.oops

variable {K : DeathScope} {s s' : Driver} {d : ℕ}

theorem DeathInv.nodeReleased (h : DeathInv s) {r : ℕ} (hr : s.Attached r d) (hd : s.NodeDead r) :
    .nodeReleased (s.obj.ref.get r).node ∈ s.history :=
  h.released _ (h.links.node_lt hr) hd

/-- A step about one record. -/
theorem DeathInv.only (h : DeathInv s) (honly : OnlyRecord s s' d) (hrec : ∀ d, RecordInv s' d)
    (hhist : DeathOrder s'.history) (hoops : ∀ b ∈ s'.obj.oops, b ∈ s.obj.oops) : DeathInv s' where
  links := h.links.congr honly.tables
  record := hrec
  released n hn hp := by
    rw [honly.node] at hn hp
    obtain ⟨es, hes, -⟩ := honly.history
    rw [hes]
    exact List.mem_append_left _ (h.released n hn hp)
  order := hhist
  release hb := h.release (hoops _ hb)
  clear hb := h.clear (hoops _ hb)

theorem DeathInv.undying (h : DeathInv s) (hq : Undying s s') : DeathInv s' := by
  obtain ⟨es, hes, hall⟩ := hq.history
  refine ⟨h.links.congr hq.links.tables, fun d => (h.record d).congr hq.same, fun n hn hp => ?_, ?_,
    fun hb => ?_, fun hb => ?_⟩
  · rw [hq.links.nodeNext] at hn
    rw [hq.links.proc] at hp
    rw [hes]
    exact List.mem_append_left _ (h.released n hn hp)
  · rw [hes]
    exact h.order.append hall
  · exact (hq.links.oops _ hb).elim h.release fun hf => by cases hf
  · exact (hq.links.oops _ hb).elim h.clear fun hf => by cases hf

theorem LinkStep.oops {o o' : Objects} (h : LinkStep o o') {b : Oops} (hb : b ∈ o'.oops) :
    b ∈ o.oops ∨ b.isLink = false ∨ b = .descInUse := by
  cases h with
  | same h => exact (h.oops b hb).imp_right Or.inl
  | newNode _ _ _ => exact Or.inl hb
  | newRef _ _ =>
    rw [oops_newRef] at hb
    rcases List.mem_append.1 hb with hb | hb
    · exact Or.inl hb
    · split_ifs at hb
      · exact Or.inr (Or.inr (List.mem_singleton.1 hb))
      · cases hb
  | deleteRef _ => exact ((binderDeleteRef_unlinked o _).oops b hb).imp_right Or.inl

/-- A node without an owner had one that was released. -/
theorem LinkStep.orphaned {o o' : Objects} (h : LinkStep o o') {n : ℕ} (hn : n < o'.node.next)
    (hp : (o'.node.get n).proc = none) : n < o.node.next ∧ (o.node.get n).proc = none := by
  cases h with
  | same h =>
    rw [h.nodeNext] at hn
    rw [h.proc] at hp
    exact ⟨hn, hp⟩
  | @newNode p x key hproc _ =>
    rcases Nat.lt_succ_iff_lt_or_eq.1 hn with hn | rfl
    · exact ⟨hn, (congrArg BinderNode.proc (o.node.get_alloc_ne n x hn.ne)).symm.trans hp⟩
    · have hself := congrArg BinderNode.proc (o.node.get_alloc_self x)
      rw [hproc] at hself
      cases hself.symm.trans hp
  | @newRef p m _ _ =>
    rw [proc_newRef] at hp
    exact ⟨hn, hp⟩
  | @deleteRef p r _ =>
    have hu := binderDeleteRef_unlinked o r
    rw [hu.nodeNext] at hn
    rw [hu.proc] at hp
    exact ⟨hn, hp⟩

theorem DeathInv.link (h : DeathInv s) {o : Objects} (hl : LinkStep s.obj o) :
    DeathInv { s with obj := o } where
  links := h.links.step hl
  record := DeathStep.record (K := .any) (.link hl) h.links h.record
  released n hn hp := by
    obtain ⟨hn', hp'⟩ := hl.orphaned hn hp
    exact h.released n hn' hp'
  order := h.order
  release hb := by
    rcases hl.oops hb with hb | hb | hb
    · exact h.release hb
    · cases hb
    · cases hb
  clear hb := by
    rcases hl.oops hb with hb | hb | hb
    · exact h.clear hb
    · cases hb
    · cases hb

theorem DeathInv.orphan (h : DeathInv s) {n : ℕ} {f : BinderNode → BinderNode}
    (hrefs : ∀ x, (f x).refs = x.refs) (hproc : ∀ x, (f x).proc = none)
    (hrel : .nodeReleased n ∈ s.history) (hown : ∀ p, n ∉ (s.obj.own p).nodes) :
    DeathInv (s.modObj fun o => o.modNode n f) where
  links := by
    refine h.links.congr ⟨rfl, fun _ => rfl, fun _ => rfl, fun _ => rfl, fun _ => .refl _, rfl,
      fun m => ?_, fun p m hm => ?_, fun _ => Or.inl, fun _ _ => id, id⟩
    · exact s.obj.node.apply_get_modify n m f (·.refs) hrefs
    · have hne : m ≠ n := fun he => hown p (he ▸ hm)
      exact congrArg BinderNode.proc (s.obj.node.get_modify_ne n m f hne)
  record := DeathStep.record (K := .any) (.orphan f hrefs hproc hrel hown trivial) h.links h.record
  released m hm hp := by
    by_cases hmn : m = n
    · exact hmn ▸ hrel
    · have hold := congrArg BinderNode.proc (s.obj.node.get_modify_ne n m f hmn)
      exact h.released m hm (hold.symm.trans hp)
  order := h.order
  release := h.release
  clear := h.clear

/-- What is not said about a record does not disturb the order. -/
theorem DeathInv.step (h : DeathInv s) (hs : DeathStep K s s') : DeathInv s' := by
  have hrec := hs.record h.links h.record
  cases hs with
  | quiet hq => exact h.undying hq
  | link hl => exact h.link hl
  | orphan f hrefs hproc hrel hown _ => exact h.orphan hrefs hproc hrel hown
  | request cookie hr hnone _ =>
    refine h.only (onlyRecord_requested cookie hnone) hrec ?_ fun _ => id
    exact h.order.snoc trivial
  | @requestDead r l cookie hr hnone hdead hl _ =>
    refine h.only (d := s.obj.death.next) ((onlyRecord_requested cookie hnone).trans
      (onlyRecord_put _ (p := (s.obj.ref.get r).proc) hl)) hrec ?_ fun _ => id
    exact h.order.snoc trivial
  | notice hr hoff hdead htold hl _ =>
    exact h.only (onlyRecord_put _ hl) hrec h.order fun _ => id
  | @clearOn r d l hr hon =>
    have htype := (((h.record d).wanted r hr).2.2 l hon).1
    refine h.only (d := d) ((onlyRecord_detached hr).trans
      ((onlyRecord_bugOn _ (by decide)).trans (onlyRecord_modDeath _))) hrec ?_ fun b hb => ?_
    · exact h.order.snoc trivial
    · simpa [Driver.modObj, Driver.bugOn, Objects.bugOn, Objects.modDeath, detached, Driver.note,
        Objects.modRef, htype] using hb
  | @clearOff r d l hr hoff hl _ =>
    refine h.only (d := d) ((onlyRecord_detached hr).trans
      (onlyRecord_put _ (p := (s.obj.ref.get r).proc) ?_)) hrec ?_ fun _ => id
    · exact hl
    · exact h.order.snoc trivial
  | answer hon htype =>
    refine h.only onlyRecord_afterAnswer hrec ?_ fun _ => id
    exact h.order.snoc trivial
  | @answerClear p d l hon htype hl _ =>
    refine h.only (d := d) (onlyRecord_afterAnswer.trans (onlyRecord_put _ (p := p) ?_)) hrec ?_
      fun _ => id
    · exact hl
    · exact h.order.snoc trivial
  | @tell T d l _ hon hl htype =>
    refine h.only onlyRecord_afterTell hrec ?_ fun _ => id
    have hi := h.record d
    have hdel : l ≠ .deliveredDeath (s.obj.death.get d).proc := fun he => by
      rw [he] at hl
      exact hl.elim
    refine h.order.snoc ⟨fun S hS => hi.fresh l hon hdel htype ⟨S, hS⟩, fun S hS => ?_⟩
    exact hi.not_ended (hi.lt_on hon).2 ⟨S, hS⟩
  | @tellClear T d l hon hl htype =>
    refine h.only onlyRecord_afterTellClear hrec ?_ fun _ => id
    have hi := h.record d
    obtain ⟨hlt, hfreed⟩ := hi.lt_on hon
    have hnone : ∀ r, ¬s.Attached r d := fun r hr => by
      have he := ((hi.wanted r hr).2.2 l hon).1
      rw [htype] at he
      cases he
    refine h.order.snoc ⟨(hi.cleared hnone l hon).1, fun S hS => hi.not_ended hfreed ⟨S, hS⟩,
      fun htold => ?_⟩
    by_contra hdone
    rcases hi.answered htold hdone with hf | hd
    · rw [hf] at hfreed
      cases hfreed
    · exact (hi.delivered hd).2 htype
  | throw hon hfree _ =>
    refine h.only onlyRecord_throw hrec ?_ ?_
    · rw [releaseItem]
      split <;> exact h.order
    · rw [releaseItem]
      split <;> exact fun _ => id

/-- Any number of steps. -/
def Deaths (K : DeathScope) : Driver → Driver → Prop := Relation.ReflTransGen (DeathStep K)

theorem DeathInv.steps (h : DeathInv s) (hs : Deaths K s s') : DeathInv s' := by
  induction hs with
  | refl => exact h
  | tail _ hs ih => exact ih.step hs

namespace Deaths

theorem refl (s : Driver) : Deaths K s s := Relation.ReflTransGen.refl

theorem trans {s'' : Driver} (h : Deaths K s s') (h' : Deaths K s' s'') : Deaths K s s'' :=
  Relation.ReflTransGen.trans h h'

theorem ite {c : Prop} [Decidable c] {s'' : Driver} (h : Deaths K s s') (h' : Deaths K s s'') :
    Deaths K s (if c then s' else s'') := by
  split_ifs <;> assumption

theorem links {f : Objects → Objects} (h : Links s.obj (f s.obj)) : Deaths K s (s.modObj f) := by
  have hall : ∀ o, Links s.obj o → Deaths K s { s with obj := o } := fun o ho => by
    induction ho with
    | refl => exact .refl s
    | tail _ hs ih => exact ih.trans (.single (.link hs))
  exact hall _ h

end Deaths

/-! Quiet steps -/

namespace Undying

variable {s'' : Driver}

theorem refl (s : Driver) : Undying s s :=
  ⟨.refl _, ⟨[], by simp, by simp⟩, le_rfl, fun _ _ => rfl⟩

theorem trans (h : Undying s s') (h' : Undying s' s'') : Undying s s'' where
  links := h.links.trans h'.links
  history := by
    obtain ⟨es, hes, hall⟩ := h.history
    obtain ⟨es', hes', hall'⟩ := h'.history
    refine ⟨es ++ es', by rw [hes', hes, List.append_assoc], fun e he => ?_⟩
    exact (List.mem_append.1 he).elim (hall e) (hall' e)
  threadNext := h.threadNext.trans h'.threadNext
  owner T hT := (h'.owner T (hT.trans_le h.threadNext)).trans (h.owner T hT)

theorem ite {c : Prop} [Decidable c] (h : Undying s s') (h' : Undying s s'') :
    Undying s (if c then s' else s'') := by
  split_ifs <;> assumption

theorem foldl {α : Type*} {f : Driver → α → Driver} (hf : ∀ s a, Undying s (f s a)) (l : List α)
    (s : Driver) : Undying s (l.foldl f s) := by
  induction l generalizing s with
  | nil => exact refl s
  | cons a l ih => exact (hf s a).trans (ih _)

theorem deaths (h : Undying s s') : Deaths K s s' := .single (.quiet h)

end Undying

section

variable (s)

theorem undying_modObj {f : Objects → Objects} (h : SameLinks s.obj (f s.obj)) :
    Undying s (s.modObj f) := { Undying.refl s with links := h }

theorem undying_bugOn (c : Bool) {b : Oops} (hb : b.isLink = false) : Undying s (s.bugOn c b) :=
  undying_modObj s (sameLinks_bugOn s.obj c hb)

theorem undying_note {e : Event} (he : e.deathOf = none) : Undying s (s.note e) :=
  { Undying.refl s with history := ⟨[e], rfl, by simpa using he⟩ }

theorem undying_modTxn (t : ℕ) (f : BinderTransaction → BinderTransaction) :
    Undying s (s.modTxn t f) := { Undying.refl s with }

theorem undying_allocTxn (x : BinderTransaction) : Undying s { s with txn := s.txn.alloc x } :=
  { Undying.refl s with }

theorem undying_modProc (p : ℕ) (f : BinderProc → BinderProc) : Undying s (s.modProc p f) :=
  { Undying.refl s with }

theorem undying_modThread (T : ℕ) {f : BinderThread → BinderThread}
    (hf : ∀ y, (f y).proc = y.proc) : Undying s (s.modThread T f) :=
  { Undying.refl s with owner := fun S _ => s.thread.apply_get_modify T S f (·.proc) hf }

variable (T t p : ℕ)

theorem forgetTransaction_undying (b : Option (ℕ × ℕ)) : Undying s (forgetTransaction s b) := by
  cases b with
  | none => exact .refl s
  | some b => exact undying_modProc s _ _

theorem freeTransaction_undying : Undying s (freeTransaction s t) :=
  (forgetTransaction_undying s _).trans (undying_modTxn _ t _)

theorem binderPopTransaction_undying (o : Option ℕ) : Undying s (binderPopTransaction s o t) := by
  unfold binderPopTransaction
  refine Undying.trans ?_ (freeTransaction_undying _ t)
  refine Undying.trans ?_ (undying_modTxn _ t _)
  cases o with
  | none => exact .refl s
  | some T =>
    refine Undying.trans ?_ (undying_modTxn _ t _)
    refine Undying.trans ?_ (undying_modThread _ T fun _ => rfl)
    exact (undying_bugOn s _ rfl).trans (undying_bugOn _ _ rfl)

theorem failSender_undying (e : ReturnError) : Undying s (failSender s T t e) := by
  unfold failSender
  have h := undying_modThread s T BinderThread.proc_shiftError
  refine Undying.ite (h.trans ?_) (h.trans (undying_note _ rfl))
  refine Undying.trans ?_ (undying_note _ rfl)
  exact (binderPopTransaction_undying _ t _).trans (undying_modThread _ T fun _ => rfl)

theorem failUpwards_undying (e : ReturnError) (k : ℕ) : Undying s (failUpwards e k s t) := by
  induction k generalizing s t with
  | zero => exact .refl s
  | succ k ih =>
    unfold failUpwards
    split
    · exact failSender_undying s _ t e
    · dsimp only
      split
      · exact binderPopTransaction_undying s t none
      · exact (binderPopTransaction_undying s t none).trans (ih _ _)

theorem binderSendFailedReply_undying (e : ReturnError) :
    Undying s (binderSendFailedReply s t e) :=
  (undying_bugOn s _ rfl).trans (failUpwards_undying _ t e _)

theorem leaveTransactions_undying (k : ℕ) (o : Option ℕ) :
    Undying s (leaveTransactions T k s o) := by
  induction k generalizing s o with
  | zero => cases o <;> exact .refl s
  | succ k ih =>
    cases o with
    | none => exact .refl s
    | some t =>
      unfold leaveTransactions
      refine Undying.ite ?_ (.ite ?_ (undying_bugOn s _ rfl))
      · refine Undying.trans ?_ (ih _ _)
        exact (forgetTransaction_undying s (s.txn.get t).buffer).trans (undying_modTxn _ t _)
      · exact (undying_modTxn s t _).trans (ih _ _)

theorem releaseBuffer_undying (L : Layout) (rb : RbTree ℕ) (env : ℕ → PageEnv) (a : ℕ) :
    Undying s (releaseBuffer L rb env p s a) := by
  unfold releaseBuffer
  refine Undying.trans ?_ (undying_modProc _ p _)
  split
  · exact (undying_modTxn s _ _).trans (undying_modProc _ _ _)
  · exact .refl s

theorem beforeRelease_undying : Undying s (beforeRelease s p) := by
  have hflush : ∀ s : Driver, Undying s (binderDeferredFlush s p) := fun s => by
    refine Undying.foldl (fun s T => ?_) _ s
    exact undying_modThread s T fun _ => rfl
  unfold beforeRelease
  refine Undying.trans ?_ (.ite (hflush _) (.refl _))
  refine Undying.trans (undying_modProc s p _) (.ite (undying_modObj _ ?_) (.refl _))
  exact sameLinks_files _ p fun _ => ⟨rfl, rfl, rfl⟩

theorem failTransaction_undying (f : Failure) : Undying s (failTransaction s T f) := by
  unfold failTransaction
  refine Undying.trans (undying_bugOn s (decide ((s.thread.get T).returnError ≠ .ok))
    (b := .returnErrorSet) rfl) ?_
  dsimp only
  split
  · refine Undying.trans ?_ (binderSendFailedReply_undying _ _ _)
    exact undying_modThread _ T fun _ => rfl
  · exact undying_modThread _ T fun _ => rfl

theorem replyTarget_undying : Undying s (replyTarget s T).1 := by
  unfold replyTarget
  split
  · exact .refl s
  · dsimp only
    split_ifs
    · exact .refl s
    · rename_i u _ _
      have h : Undying s (s.modThread T fun y =>
        { y with transactionStack := (s.txn.get u).toParent }) := undying_modThread s T fun _ => rfl
      split
      · exact h
      · split_ifs
        · exact h.trans (undying_note _ rfl)
        · exact h

theorem queueTransaction_undying (target : Target) :
    Undying s (queueTransaction s T t target) := by
  have hend : ∀ (s : Driver) l, Undying s (s.modObj fun o => { o with
      todo := (o.todo.addTail l (.transaction t)).addTail (.threadTodo T)
        (.transactionComplete t) }) := fun s l => by
    refine undying_modObj s ?_
    exact (sameLinks_addTail s.obj l fun d he => by cases he).trans
      (sameLinks_addTail _ _ fun d he => by cases he)
  unfold queueTransaction
  dsimp only
  refine Undying.trans ?_ (hend _ _)
  split
  · dsimp only
    refine Undying.trans ?_ (undying_note _ rfl)
    exact (undying_bugOn s _ rfl).trans (binderPopTransaction_undying _ _ _)
  · split_ifs
    · dsimp only
      refine Undying.trans ?_ (undying_note _ rfl)
      refine Undying.trans ?_ (undying_modThread _ T fun _ => rfl)
      exact (undying_bugOn s _ rfl).trans (undying_modTxn _ t _)
    · have h := (undying_bugOn s target.node.isNone (b := .targetNode) rfl).trans
        (undying_bugOn _ (!(s.bufferOf t).any (·.asyncTransaction)) (b := .asyncBuffer) rfl)
      split
      · exact h
      · split_ifs
        · exact h
        · dsimp only
          refine h.trans (undying_modObj _ ?_)
          exact sameLinks_modNode _ _ (fun _ => rfl) fun _ => rfl

theorem placeBuffer_undying (tr : TransactionData) (target : Target) (area : BinderArea) (a : ℕ) :
    Undying s (placeBuffer s tr target t area a) := by
  unfold placeBuffer
  refine Undying.trans ?_ (undying_modObj _ ?_)
  · refine Undying.trans ?_ (undying_modProc _ _ _)
    exact (undying_modProc s _ _).trans (undying_modTxn _ t _)
  · cases target.node with
    | none => exact .refl _
    | some n => exact binderIncNode_sameLinks _ n true false none

theorem undoBuffer_deaths (L : Layout) (rb : RbTree ℕ) (env : TransactionEnv) (target : Target)
    (a : ℕ) (b : BinderBuffer) (k : ℕ) : Deaths K s (undoBuffer L rb s T t env target a b k) := by
  unfold undoBuffer
  refine Deaths.trans (Deaths.links (f := fun o =>
    binderTransactionBufferRelease L o target.proc b (some k)) ?_) ?_
  · exact bufferRelease_links s.obj target.proc L b (some k)
  refine Undying.deaths (Undying.trans ?_ (failTransaction_undying _ T _))
  refine Undying.trans ?_ (undying_modTxn _ t _)
  exact (undying_modProc _ _ _).trans (undying_modProc _ _ _)

end

section

variable (T t p : ℕ) (h : DeathInv s)

include h

theorem deliverBuffer_deaths (L : Layout) (rb : RbTree ℕ) (tr : TransactionData)
    (env : TransactionEnv) (target : Target) (a : ℕ) (b : BinderBuffer) :
    Deaths K s (deliverBuffer L rb s T t tr env target a b) := by
  unfold deliverBuffer
  dsimp only
  have htr : Deaths K s ((s.modObj fun _ => (translateBuffer L s.obj (transferOf s T target) env tr
      b).1).modBuffer (target.proc, a) fun b' => { b' with data := (translateBuffer L s.obj
        (transferOf s T target) env tr b).2.1 }) :=
    (Deaths.links (translateBuffer_links L h.links _ env tr b)).trans
      (undying_modProc _ _ _).deaths
  split
  · exact htr.trans (queueTransaction_undying _ T t target).deaths
  · exact htr.trans (undoBuffer_deaths _ T t L rb env target a _ _)

theorem sendTransaction_deaths (L : Layout) (rb : RbTree ℕ) (tr : TransactionData)
    (env : TransactionEnv) (target : Target) :
    Deaths K s (sendTransaction L rb s T tr env target) := by
  rw [sendTransaction_eq]
  refine .ite (failTransaction_undying s T _).deaths ?_
  have halloc := undying_allocTxn s (newTransaction T tr target)
  dsimp only
  split
  · refine Undying.deaths (halloc.trans (Undying.trans ?_ (failTransaction_undying _ T _)))
    exact (undying_modProc _ _ _).trans (undying_modTxn _ _ _)
  · have hplace := halloc.trans (placeBuffer_undying _ s.txn.next tr target
      (binderAllocBuf L rb (s.proc.get target.proc).area env.alloc tr.dataSize tr.offsetsSize
        (!target.inReplyTo.isSome && tr.flags.oneWay)).1 ‹ℕ›)
    split
    · exact hplace.deaths
    · exact hplace.deaths.trans
        (deliverBuffer_deaths T _ (h.undying hplace) L rb tr env target _ _)

theorem binderTransaction_deaths (L : Layout) (rb : RbTree ℕ) (tr : TransactionData) (reply : Bool)
    (env : TransactionEnv) : Deaths K s (binderTransaction L rb s T tr reply env) := by
  have htarget : Undying s (if reply then replyTarget s T else (s, callTarget s T tr)).1 := by
    cases reply
    · exact .refl s
    · exact replyTarget_undying s T
  unfold binderTransaction
  split
  · rename_i he
    rw [he] at htarget
    exact (htarget.trans (failTransaction_undying _ T _)).deaths
  · rename_i he
    rw [he] at htarget
    exact htarget.deaths.trans (sendTransaction_deaths T (h.undying htarget) L rb tr env _)

theorem freeBuffer_deaths (L : Layout) (rb : RbTree ℕ) (a : ℕ) (env : PageEnv) :
    Deaths K s (freeBuffer L rb s T a env) := by
  unfold freeBuffer
  dsimp only
  split
  · exact .refl s
  · rename_i b _
    refine .ite (.refl s) ?_
    have hdetach : Undying s (detachBuffer s ((s.thread.get T).proc, a)) := by
      unfold detachBuffer
      split
      · exact (undying_modTxn s _ _).trans (undying_modProc _ _ _)
      · exact .refl s
    have hnext : Undying s (if b.asyncTransaction then
        (detachBuffer s ((s.thread.get T).proc, a)).modObj fun o => b.targetNode.elim o (nextAsync o T)
        else detachBuffer s ((s.thread.get T).proc, a)) := by
      refine .ite (hdetach.trans (undying_modObj _ ?_)) hdetach
      cases b.targetNode with
      | none => exact .refl _
      | some n => exact nextAsync_sameLinks (h.undying hdetach).links T n
    refine Deaths.trans ?_ (undying_modProc _ _ _).deaths
    exact hnext.deaths.trans (.links (bufferRelease_links _ _ L b none))

end

/-! The commands about death notifications -/

theorem mem_of_deliveredDeath {o : Objects} {p cookie : ℕ}
    (hd : deliveredDeath o p cookie = some d) : (.deliveredDeath p, .death d) ∈ o.todo.entries := by
  unfold deliveredDeath at hd
  obtain ⟨⟨l, w⟩, hmem, he⟩ := List.exists_of_findSome?_eq_some hd
  split at he
  · split_ifs at he with hp
    cases he
    rename_i heq
    cases heq
    exact hp.1 ▸ hmem
  · cases he

section

variable {T : ℕ} (h : DeathInv s) (hT : T < s.thread.next)

include h hT

omit h in
theorem deathList_isTodo : s.IsTodo (s.thread.get T).proc (deathList (s.thread.get T) T) := by
  unfold deathList
  split_ifs
  · exact ⟨hT, rfl⟩
  · rfl

variable (hK : K.puts (deathList (s.thread.get T) T))

include hK

theorem requestDeathNotification_deaths (target cookie : ℕ) (kzalloc : Bool) :
    Deaths K s (requestDeathNotification s T target cookie kzalloc) := by
  unfold requestDeathNotification
  dsimp only
  split
  · exact .refl s
  · rename_i r hget
    have hmem := (mem_of_binderGetRef hget).1
    have hproc := (h.links.table _).owner r hmem
    by_cases hnone : (s.obj.ref.get r).death = none
    swap
    · rw [if_pos (Option.isSome_iff_ne_none.2 hnone)]
      exact .refl s
    rw [if_neg (by simp [hnone])]
    refine .ite (Undying.deaths ?_) ?_
    · exact undying_modThread s T fun _ => rfl
    have heq : (s.modObj fun o => { o.modRef r fun x => { x with death := some s.obj.death.next } with
        death := o.death.alloc { cookie := cookie, proc := (s.thread.get T).proc } }).note
          (.deathRequested s.obj.death.next) = requested s r cookie := by
      unfold requested
      rw [hproc]
    rw [heq]
    have hlive : r ∈ (s.obj.own (s.obj.ref.get r).proc).refsByDesc := hproc.symm ▸ hmem
    split_ifs with hdead
    · refine .single (.requestDead cookie hlive hnone hdead ?_ hK)
      rw [hproc]
      exact deathList_isTodo hT
    · exact .single (.request cookie hlive hnone hdead)

theorem clearDeathNotification_deaths (target cookie : ℕ) :
    Deaths K s (clearDeathNotification s T target cookie) := by
  unfold clearDeathNotification
  dsimp only
  split
  · exact .refl s
  · rename_i r hget
    have hmem := (mem_of_binderGetRef hget).1
    have hproc := (h.links.table _).owner r hmem
    split
    · exact .refl s
    · rename_i d hd
      have hr : s.Attached r d := ⟨hproc.symm ▸ hmem, hd⟩
      refine .ite (.refl s) ?_
      split_ifs with hlinked
      · obtain ⟨l, hl⟩ := Queues.linked_iff.1 hlinked
        exact .single (.clearOn hr hl)
      · refine .single (.clearOff (l := deathList (s.thread.get T) T) hr (fun l hl => ?_) ?_ hK)
        · exact hlinked (Queues.linked_iff.2 ⟨l, hl⟩)
        · rw [hproc]
          exact deathList_isTodo hT

omit h in
theorem deadBinderDone_deaths (cookie : ℕ) : Deaths K s (deadBinderDone s T cookie) := by
  unfold deadBinderDone
  dsimp only
  split
  · exact .refl s
  · rename_i d hd
    have hon : s.On (.deliveredDeath (s.thread.get T).proc) d := mem_of_deliveredDeath hd
    split_ifs with htype
    · exact .single (.answerClear hon htype (deathList_isTodo hT) hK)
    · exact .single (.answer hon htype)

end

theorem DeathStep.mem_history (hs : DeathStep K s s') {e : Event} (he : e ∈ s.history) :
    e ∈ s'.history := by
  cases hs with
  | quiet h =>
    obtain ⟨es, hes, -⟩ := h.history
    rw [hes]
    exact List.mem_append_left _ he
  | throw _ _ _ =>
    obtain ⟨es, hes, -⟩ := onlyRecord_throw.history
    rw [hes]
    exact List.mem_append_left _ he
  | link _ => exact he
  | orphan _ _ _ _ _ _ => exact he
  | notice _ _ _ _ _ _ => exact he
  | _ => exact List.mem_append_left _ he

theorem Deaths.mem_history (hs : Deaths K s s') {e : Event} (he : e ∈ s.history) :
    e ∈ s'.history := by
  induction hs with
  | refl => exact he
  | tail _ hs ih => exact hs.mem_history ih

theorem DeathStep.threadNext (hs : DeathStep K s s') : s.thread.next ≤ s'.thread.next := by
  cases hs with
  | quiet h => exact h.threadNext
  | throw _ _ _ =>
    rw [onlyRecord_throw.thread]
  | _ => exact le_rfl

theorem Deaths.threadNext (hs : Deaths K s s') : s.thread.next ≤ s'.thread.next := by
  induction hs with
  | refl => exact le_rfl
  | tail _ hs ih => exact ih.trans hs.threadNext

theorem registerLooper_undying (s : Driver) (T : ℕ) : Undying s (registerLooper s T) := by
  unfold registerLooper
  refine Undying.trans ?_ (undying_modThread _ T fun _ => rfl)
  refine Undying.ite ?_ (.ite ?_ (undying_modProc s _ _))
  · exact undying_modThread s T fun _ => rfl
  · exact undying_modThread s T fun _ => rfl

theorem writeCommand_deaths (L : Layout) (rb : RbTree ℕ) {T : ℕ} (h : DeathInv s)
    (hT : T < s.thread.next) (hK : K.puts (deathList (s.thread.get T) T)) (env : CommandEnv)
    (c : Command) : Deaths K s (writeCommand L rb s T env c) := by
  refine .ite ?_ (.refl s)
  cases c with
  | ref c target =>
    exact Deaths.links (f := fun o => refCommand o _ c target env.kzalloc)
      (refCommand_links _ h.links c target env.kzalloc)
  | refDone strong ptr cookie =>
    exact (undying_modObj s (f := fun o => refDone o _ strong ptr cookie)
      (refDone_sameLinks _ strong ptr cookie)).deaths
  | freeBuffer a => exact freeBuffer_deaths T h L rb a env.free
  | transaction tr => exact binderTransaction_deaths T h L rb tr false env.transaction
  | reply tr => exact binderTransaction_deaths T h L rb tr true env.transaction
  | registerLooper => exact (registerLooper_undying s T).deaths
  | enterLooper => exact Undying.deaths (undying_modThread s T fun _ => rfl)
  | exitLooper => exact Undying.deaths (undying_modThread s T fun _ => rfl)
  | requestDeathNotification target cookie =>
    exact requestDeathNotification_deaths h hT hK target cookie env.kzalloc
  | clearDeathNotification target cookie => exact clearDeathNotification_deaths h hT hK target cookie
  | deadBinderDone cookie => exact deadBinderDone_deaths hT hK cookie

/-! Reading -/

section

variable (s) (T : ℕ) (fault : ℕ → Bool)

theorem readDone_undying (ptr : ℕ) : Undying s (readDone s T ptr fault) := by
  have h : Undying s (s.modProc (s.thread.get T).proc fun p =>
      { p with requestedThreads := p.requestedThreads + 1 }) := undying_modProc s _ _
  unfold readDone
  dsimp only
  refine .ite (.ite h ?_) (undying_note s rfl)
  exact (h.trans (undying_note _ rfl)).trans (undying_note _ rfl)

theorem reportErrors_undying (size ptr : ℕ) : Undying s (reportErrors s T size ptr fault) := by
  have hreport : ∀ (s : Driver) (e : ReturnError) (ptr : ℕ), Undying s
      (if fault ptr then s
        else readDone ((s.note (.br T (.returnError e))).modThread T fun y =>
          { y with returnError := .ok }) T (ptr + 4) fault) := fun s e ptr => by
    refine .ite (.refl s) ?_
    refine Undying.trans ?_ (readDone_undying _ T fault _)
    refine Undying.trans ?_ (undying_modThread _ T fun _ => rfl)
    exact undying_note s rfl
  unfold reportErrors
  refine .ite (hreport _ _ _) (.ite (.refl s) ?_)
  refine Undying.trans (undying_note s (e := .br T (.returnError (s.thread.get T).returnError2))
    rfl) ?_
  refine .ite (readDone_undying _ T fault _) ?_
  refine Undying.trans ?_ (hreport _ _ _)
  exact undying_modThread _ T fun _ => rfl

theorem waitForWork_undying (size ptr : ℕ) (nonBlock : Bool) :
    Undying s (waitForWork s T size ptr nonBlock fault) := by
  unfold waitForWork
  refine .ite (reportErrors_undying s T fault size ptr) ?_
  refine Undying.trans ?_ (undying_modThread _ T fun _ => rfl)
  exact .ite (undying_modProc s _ _) (.refl s)

theorem stopWaiting_undying (f : ReadFrame) : Undying s (stopWaiting s T f) := by
  unfold stopWaiting
  refine Undying.trans ?_ (undying_modThread _ T fun _ => rfl)
  exact .ite (undying_modProc s _ _) (.refl s)

theorem unqueue_undying {w : Work} (hw : ∀ d, .death d ≠ w) : Undying s (unqueue s w) :=
  undying_modObj s (sameLinks_del s.obj hw)

theorem readNode_undying (n ptr : ℕ) : Undying s (readNode s T n ptr fault).1 := by
  unfold readNode
  split
  · rename_i cmd x he
    have hx : x.refs = (s.obj.node.get n).refs ∧ x.proc = (s.obj.node.get n).proc ∧
        (Event.br T cmd).deathOf = none := by
      unfold nodeCommand at he
      dsimp only at he
      split_ifs at he <;> cases he <;> exact ⟨rfl, rfl, rfl⟩
    have hmod : Undying s (s.modObj fun o => o.modNode n fun _ => x) := by
      refine undying_modObj s { SameLinks.refl s.obj with refs := fun m => ?_, proc := fun m => ?_ }
      · simp only [Objects.modNode, Heap.get_modify]
        split_ifs with hm
        · rw [hm]
          exact hx.1
        · rfl
      · simp only [Objects.modNode, Heap.get_modify]
        split_ifs with hm
        · rw [hm]
          exact hx.2.1
        · rfl
    dsimp only
    split_ifs
    · exact hmod
    · exact hmod.trans (undying_note _ hx.2.2)
  · exact undying_modObj s (f := fun o => settleNode o _ n) (settleNode_sameLinks _ n _)

theorem readTransaction_undying (t ptr : ℕ) : Undying s (readTransaction s T t ptr fault).1 := by
  unfold readTransaction
  dsimp only
  have h0 := undying_bugOn s (s.bufferOf t).isNone (b := .noBuffer) rfl
  generalize s.bugOn (s.bufferOf t).isNone .noBuffer = s₀ at h0 ⊢
  generalize (s₀.bufferOf t).any (·.targetNode.isSome) = call
  split
  · exact h0
  · dsimp only
    refine h0.trans (Undying.trans (undying_note s₀ (e := .br T (if call then
      .transaction t ((s₀.txn.get t).fromThread.elim 0 fun S =>
        (s₀.proc.get (s₀.thread.get S).proc).pid) else .reply t)) ?_) ?_)
    · cases call <;> rfl
    refine Undying.trans (unqueue_undying _ (w := .transaction t) fun d he => by cases he) ?_
    have h1 : ∀ s' : Driver, Undying s' ((s₀.txn.get t).buffer.elim s' fun b =>
        s'.modBuffer b fun b => { b with allowUserFree := true }) := fun s' => by
      cases (s₀.txn.get t).buffer with
      | none => exact .refl s'
      | some b => exact undying_modProc s' _ _
    refine Undying.trans (h1 _) (.ite ?_ (freeTransaction_undying _ t))
    refine Undying.trans ?_ (undying_modThread _ T fun _ => rfl)
    exact undying_modTxn _ t _

theorem readComplete_undying (t : ℕ) : Undying s (readComplete s T t) :=
  (undying_note s rfl).trans (unqueue_undying _ fun d he => by cases he)

theorem readDeath_deaths {l : ListHead} (hT : T < s.thread.next) (hon : s.On l d)
    (hl : s.IsTodo (s.thread.get T).proc l) (ptr : ℕ) : Deaths K s (readDeath s T d ptr fault).1 := by
  unfold readDeath
  split
  · exact .refl s
  · rename_i type htype
    split_ifs with hfault hclear
    · exact .refl s
    · refine Relation.ReflTransGen.single (.tellClear hon hl ?_)
      rw [htype, hclear]
    · refine Relation.ReflTransGen.single (.tell hT hon hl fun he => hclear ?_)
      rw [htype] at he
      exact Option.some.inj he

/-- The list that the loop takes its next work from. -/
theorem nextWork_isTodo {waitForProcWork : Bool} {w : Work} (hT : T < s.thread.next)
    (hw : nextWork s T waitForProcWork = some w) :
    ∃ l, (l, w) ∈ s.obj.todo.entries ∧ s.IsTodo (s.thread.get T).proc l := by
  unfold nextWork at hw
  split at hw
  · rename_i w' hf
    cases hw
    exact ⟨_, Queues.first_mem hf, hT, rfl⟩
  · split_ifs at hw
    exact ⟨_, Queues.first_mem hw, rfl⟩

theorem readItem_deaths (hT : T < s.thread.next) {waitForProcWork : Bool} {w : Work}
    (hw : nextWork s T waitForProcWork = some w) (ptr : ℕ) :
    Deaths K s (readItem s T ptr fault w).1 := by
  obtain ⟨l, hon, hl⟩ := nextWork_isTodo s T hT hw
  cases w with
  | transaction t => exact (readTransaction_undying s T fault t ptr).deaths
  | transactionComplete t =>
    rw [readItem]
    split_ifs
    · exact .refl s
    · exact (readComplete_undying s T t).deaths
  | node n => exact (readNode_undying s T fault n ptr).deaths
  | death d => exact readDeath_deaths s T fault hT hon hl ptr

theorem readLoop_deaths (L : Layout) (f : ReadFrame) (hT : T < s.thread.next) (k ptr : ℕ) :
    Deaths K s (readLoop L T f fault k s ptr) := by
  induction k generalizing s ptr with
  | zero => exact .refl s
  | succ k ih =>
    unfold readLoop
    split
    · exact .ite (waitForWork_undying s T fault _ _ _).deaths (readDone_undying s T fault ptr).deaths
    · rename_i w hw
      refine .ite (readDone_undying s T fault ptr).deaths ?_
      have hitem := readItem_deaths (K := K) s T fault hT hw ptr
      split
      · rename_i s' ptr' he
        rw [he] at hitem
        exact hitem.trans (ih s' (hT.trans_le hitem.threadNext) ptr')
      · rename_i s' he
        rw [he] at hitem
        exact hitem
      · rename_i s' ptr' he
        rw [he] at hitem
        exact hitem.trans (readDone_undying s' T fault ptr').deaths

theorem resumeRead_deaths (L : Layout) (hT : T < s.thread.next) :
    Deaths K s (resumeRead L s T fault) := by
  unfold resumeRead
  split
  · exact .refl s
  · split
    · exact .refl s
    · exact (stopWaiting_undying s T _).deaths
    · refine (stopWaiting_undying s T _).deaths.trans (readLoop_deaths _ T fault L _ ?_ _ _)
      exact hT.trans_le (stopWaiting_undying s T _).threadNext

end

/-! Work that is thrown away -/

/-- What is kept when work is thrown away. -/
structure Calm (o o' : Objects) : Prop where
  refProc : ∀ r, (o'.ref.get r).proc = (o.ref.get r).proc
  byDesc : ∀ p, (o'.own p).refsByDesc = (o.own p).refsByDesc
  nodes : ∀ p, (o'.own p).nodes.Sublist (o.own p).nodes
  refs : ∀ n, (o'.node.get n).refs = (o.node.get n).refs
  proc : ∀ n, (o'.node.get n).proc = (o.node.get n).proc

theorem Calm.refl (o : Objects) : Calm o o :=
  ⟨fun _ => rfl, fun _ => rfl, fun _ => .refl _, fun _ => rfl, fun _ => rfl⟩

theorem Calm.trans {o o' o'' : Objects} (h : Calm o o') (h' : Calm o' o'') : Calm o o'' :=
  ⟨fun r => (h'.refProc r).trans (h.refProc r), fun p => (h'.byDesc p).trans (h.byDesc p),
    fun p => (h'.nodes p).trans (h.nodes p), fun n => (h'.refs n).trans (h.refs n),
    fun n => (h'.proc n).trans (h.proc n)⟩

theorem Undying.calm (h : Undying s s') : Calm s.obj s'.obj :=
  ⟨h.links.refProc, h.links.byDesc, h.links.nodes, h.links.refs, h.links.proc⟩

theorem OnlyRecord.calm (h : OnlyRecord s s' d) : Calm s.obj s'.obj :=
  ⟨h.refProc, fun p => by rw [h.own], fun p => by rw [h.own], fun n => by rw [h.node],
    fun n => by rw [h.node]⟩

theorem releaseItem_undying (s : Driver) {w : Work} (hw : ∀ d, .death d ≠ w) :
    Undying s (releaseItem s w) := by
  cases w with
  | transaction t =>
    have hbug := undying_bugOn s (s.bufferOf t).isNone (b := .noBuffer) rfl
    exact hbug.trans (.ite (binderSendFailedReply_undying _ t _) (freeTransaction_undying _ t))
  | transactionComplete t => exact .refl s
  | node n => exact .refl s
  | death d => exact absurd rfl (hw d)

/-- Whatever is on the list may be thrown away. -/
def DeathScope.Tears (K : DeathScope) (s : Driver) : ListHead → Prop
  | .threadTodo T => T < s.thread.next ∧ K.throws (s.thread.get T).proc
  | .procTodo p | .deliveredDeath p => K.throws p
  | .asyncTodo _ => True

theorem DeathScope.Tears.congr {l : ListHead} (h : K.Tears s l)
    (hnext : s.thread.next ≤ s'.thread.next)
    (howner : ∀ T < s.thread.next, (s'.thread.get T).proc = (s.thread.get T).proc) :
    K.Tears s' l := by
  cases l with
  | threadTodo T => exact ⟨h.1.trans_le hnext, howner T h.1 ▸ h.2⟩
  | procTodo p => exact h
  | deliveredDeath p => exact h
  | asyncTodo n => trivial

theorem DeathInv.throws (h : DeathInv s) {l : ListHead} (hl : K.Tears s l) (hon : s.On l d) :
    K.throws (s.obj.death.get d).proc := by
  have hhome := (h.record d).home l hon
  cases l with
  | threadTodo T =>
    rcases hhome with he | he
    · cases he
    · exact he.2 ▸ hl.2
  | procTodo p =>
    rcases hhome with he | he
    · cases he
    · exact Eq.subst (motive := K.throws) he hl
  | deliveredDeath p => exact (h.record d).delivered_proc hon ▸ hl
  | asyncTodo n => exact absurd hon (h.links.async n d)

theorem releaseWorkLoop_deaths {l : ListHead} (hl : K.Tears s l) (k : ℕ) (h : DeathInv s)
    (hempty : ∀ p, l = .deliveredDeath p → (s.obj.own p).refsByDesc = []) :
    Deaths K s (releaseWorkLoop l k s) ∧ Calm s.obj (releaseWorkLoop l k s).obj := by
  induction k generalizing s with
  | zero => exact ⟨.refl s, .refl _⟩
  | succ k ih =>
    unfold releaseWorkLoop
    split
    · exact ⟨.refl s, .refl _⟩
    · rename_i w hf
      have hitem : Deaths K s (releaseItem (unqueue s w) w) ∧
          Calm s.obj (releaseItem (unqueue s w) w).obj ∧ K.Tears (releaseItem (unqueue s w) w) l := by
        by_cases hw : ∃ d, w = .death d
        · obtain ⟨d, rfl⟩ := hw
          have hon : s.On l d := Queues.first_mem hf
          have honly : OnlyRecord s (releaseItem (unqueue s (.death d)) (.death d)) d :=
            onlyRecord_throw
          refine ⟨.single (.throw hon (fun p hp r hr => ?_) (h.throws hl hon)), honly.calm,
            hl.congr (by rw [honly.thread]) fun T _ => by rw [honly.thread]⟩
          have hproc := (h.record d).owner r hr
          rw [(h.record d).delivered_proc (hp ▸ hon)] at hproc
          have hlive := hr.1
          rw [hproc, hempty p hp] at hlive
          cases hlive
        · have hne : ∀ d, Work.death d ≠ w := fun d he => hw ⟨d, he.symm⟩
          have hq := (unqueue_undying s hne).trans (releaseItem_undying _ hne)
          exact ⟨hq.deaths, hq.calm, hl.congr hq.threadNext hq.owner⟩
      obtain ⟨h1, h2, h3⟩ := hitem
      obtain ⟨h4, h5⟩ := ih h3 (h.steps h1) fun p hp => by rw [h2.byDesc, hempty p hp]
      exact ⟨h1.trans h4, h2.trans h5⟩

theorem binderReleaseWork_deaths {l : ListHead} (hl : K.Tears s l) (h : DeathInv s)
    (hempty : ∀ p, l = .deliveredDeath p → (s.obj.own p).refsByDesc = []) :
    Deaths K s (binderReleaseWork s l) ∧ Calm s.obj (binderReleaseWork s l).obj :=
  releaseWorkLoop_deaths hl _ h hempty

/-- `binder_free_thread` before the work of the thread is thrown away. -/
theorem beforeWork_undying (s : Driver) (T : ℕ) : ∃ s₁, Undying s s₁ ∧
    binderFreeThread s T = (binderReleaseWork s₁ (.threadTodo T)).modThread T fun y =>
      { y with freed := y.freed + 1 } := by
  have hleave := (undying_modProc s (s.thread.get T).proc fun p =>
    { p with threads := p.threads.erase T }).trans
      (leaveTransactions_undying _ T s.txn.next (s.thread.get T).transactionStack)
  unfold binderFreeThread
  dsimp only
  refine ⟨_, ?_, rfl⟩
  split
  · exact hleave.trans (binderSendFailedReply_undying _ _ _)
  · exact hleave

theorem binderFreeThread_deaths {T : ℕ} (h : DeathInv s) (hT : T < s.thread.next)
    (hK : K.throws (s.thread.get T).proc) : Deaths K s (binderFreeThread s T) := by
  obtain ⟨s₁, h₁, heq⟩ := beforeWork_undying s T
  rw [heq]
  have htears : K.Tears s₁ (.threadTodo T) :=
    ⟨hT.trans_le h₁.threadNext, by rw [h₁.owner T hT]; exact hK⟩
  refine Deaths.trans ?_ (Undying.deaths (undying_modThread _ T fun _ => rfl))
  exact h₁.deaths.trans (binderReleaseWork_deaths htears (h.undying h₁) fun p hp => by cases hp).1

/-- A thread without death records on its list leaves nothing behind. -/
theorem binderFreeThread_undying {T : ℕ} (hnone : ∀ d, ¬s.On (.threadTodo T) d) :
    Undying s (binderFreeThread s T) := by
  have hloop : ∀ (k : ℕ) (s : Driver), (∀ d, ¬s.On (.threadTodo T) d) →
      Undying s (releaseWorkLoop (.threadTodo T) k s) := fun k => by
    induction k with
    | zero => exact fun s _ => .refl s
    | succ k ih =>
      intro s hnone
      unfold releaseWorkLoop
      split
      · exact .refl s
      · rename_i w hf
        have hne : ∀ d, Work.death d ≠ w := fun d he => by
          subst he
          exact hnone d (Queues.first_mem hf)
        have hq := (unqueue_undying s hne).trans (releaseItem_undying _ hne)
        exact hq.trans (ih _ fun d hd => hnone d ((hq.links.entry _ d).1 hd))
  obtain ⟨s₁, h₁, heq⟩ := beforeWork_undying s T
  rw [heq]
  refine Undying.trans ?_ (undying_modThread _ T fun _ => rfl)
  exact h₁.trans (hloop _ s₁ fun d hd => hnone d ((h₁.links.entry _ d).1 hd))

/-! The release of a process -/

theorem notifyDeaths_on {l : List ℕ} {g : ListHead} (hon : s.On g d) :
    (s.modObj fun o => l.foldl notifyDeath o).On g d := by
  have hall : ∀ o : Objects, (g, .death d) ∈ o.todo.entries →
      (g, .death d) ∈ (l.foldl notifyDeath o).todo.entries := by
    induction l with
    | nil => exact fun _ => id
    | cons r l ih =>
      intro o ho
      refine ih _ ?_
      unfold notifyDeath
      dsimp only
      split
      · exact ho
      · split_ifs
        · exact ho
        · exact Queues.mem_addTail.2 (Or.inl ho)
  exact hall s.obj hon

/-- The references of a dead node are told about, one after the other. -/
theorem notifyDeaths_deaths (hK : ∀ q, K.puts (.procTodo q)) {l : List ℕ} (hl : l.Nodup)
    (h : DeathInv s) (hlive : ∀ r ∈ l, r ∈ (s.obj.own (s.obj.ref.get r).proc).refsByDesc)
    (hdead : ∀ r ∈ l, s.NodeDead r)
    (hquiet : ∀ r ∈ l, ∀ d, s.Attached r d → (∀ g, ¬s.On g d) ∧ ¬s.Told d) :
    Deaths K s (s.modObj fun o => l.foldl notifyDeath o) ∧
      ∀ r ∈ l, ∀ d, s.Attached r d → ∃ g, (s.modObj fun o => l.foldl notifyDeath o).On g d := by
  induction l generalizing s with
  | nil => exact ⟨.refl s, fun r hr => by cases hr⟩
  | cons r l ih =>
    obtain ⟨hr, hl⟩ := List.nodup_cons.1 hl
    have hmem : r ∈ r :: l := List.mem_cons_self
    cases hd : (s.obj.ref.get r).death with
    | none =>
      have heq : notifyDeath s.obj r = s.obj := by
        simp only [notifyDeath, hd]
      have hfold : (s.modObj fun o => (r :: l).foldl notifyDeath o) =
          s.modObj fun o => l.foldl notifyDeath o := by
        simp only [Driver.modObj, List.foldl_cons, heq]
      rw [hfold]
      obtain ⟨h1, h2⟩ := ih hl h (fun r' hr' => hlive r' (List.mem_cons_of_mem r hr'))
        (fun r' hr' => hdead r' (List.mem_cons_of_mem r hr'))
        fun r' hr' => hquiet r' (List.mem_cons_of_mem r hr')
      refine ⟨h1, fun r' hr' d ha => ?_⟩
      rcases List.mem_cons.1 hr' with rfl | hr'
      · rw [Driver.Attached, hd] at ha
        cases ha.2
      · exact h2 r' hr' d ha
    | some d =>
      have hatt : s.Attached r d := ⟨hlive r hmem, hd⟩
      obtain ⟨hoff, htold⟩ := hquiet r hmem d hatt
      have hput : DeathStep K s (s.modObj (putDeath · d .deadBinder
          (.procTodo (s.obj.ref.get r).proc))) :=
        .notice hatt hoff (hdead r hmem) htold rfl (hK _)
      set s₁ := s.modObj (putDeath · d .deadBinder (.procTodo (s.obj.ref.get r).proc)) with hs₁
      have heq : notifyDeath s.obj r = s₁.obj := by
        have hlinked : s.obj.todo.linked (.death d) = false :=
          Queues.not_linked_iff.2 fun g hg => hoff g hg
        simp only [notifyDeath, hd, hlinked]
        rfl
      have hfold : (s.modObj fun o => (r :: l).foldl notifyDeath o) =
          s₁.modObj fun o => l.foldl notifyDeath o := by
        simp only [Driver.modObj, List.foldl_cons, heq]
        rfl
      rw [hfold]
      have honly : OnlyRecord s s₁ d := onlyRecord_put _ (p := (s.obj.ref.get r).proc) rfl
      have hquiet' : ∀ r' ∈ l, ∀ d', s₁.Attached r' d' → (∀ g, ¬s₁.On g d') ∧ ¬s₁.Told d' :=
        fun r' hr' d' ha => by
          have hne : d' ≠ d := fun he => by
            subst he
            exact hr ((h.record d').unique r' r ha hatt ▸ hr')
          have hsame : SameRecord s s₁ d' := honly.same hne
          obtain ⟨h1, h2⟩ := hquiet r' (List.mem_cons_of_mem r hr') d' ((hsame.attached r').1 ha)
          exact ⟨fun g hg => h1 g ((hsame.on g).1 hg), fun ht => h2 (hsame.told.1 ht)⟩
      obtain ⟨h1, h2⟩ := ih hl (h.step hput)
        (fun r' hr' => (honly.live r').2 (hlive r' (List.mem_cons_of_mem r hr')))
        (fun r' hr' => (honly.nodeDead r').2 (hdead r' (List.mem_cons_of_mem r hr'))) hquiet'
      refine ⟨(Relation.ReflTransGen.single hput).trans h1, fun r' hr' d' ha => ?_⟩
      rcases List.mem_cons.1 hr' with rfl | hr'
      · -- what is put on a list stays there
        obtain rfl : d = d' := Option.some.inj (hd.symm.trans ha.2)
        exact ⟨_, notifyDeaths_on ((on_put _ hoff).2 rfl)⟩
      · exact h2 r' hr' d' ha

theorem notifyDeaths_node (l : List ℕ) (o : Objects) : (l.foldl notifyDeath o).node = o.node := by
  induction l generalizing o with
  | nil => rfl
  | cons r l ih =>
    refine (ih _).trans ?_
    unfold notifyDeath
    dsimp only
    split
    · rfl
    · split_ifs <;> rfl

theorem notifyDeaths_refs (l : List ℕ) (o : Objects) :
    (l.foldl notifyDeath o).ref = o.ref ∧ (l.foldl notifyDeath o).own = o.own := by
  induction l generalizing o with
  | nil => exact ⟨rfl, rfl⟩
  | cons r l ih =>
    have hone : (notifyDeath o r).ref = o.ref ∧ (notifyDeath o r).own = o.own := by
      unfold notifyDeath
      dsimp only
      split
      · exact ⟨rfl, rfl⟩
      · split_ifs <;> exact ⟨rfl, rfl⟩
    exact ⟨(ih _).1.trans hone.1, (ih _).2.trans hone.2⟩

theorem releaseNode_deaths (hK : ∀ q, K.puts (.procTodo q)) {p n : ℕ} (ho : K.orphans n) (h : DeathInv s) (hn : (s.obj.node.get n).proc = some p) :
    Deaths K s (releaseNode p s n) ∧
      (∀ m, m ≠ n → ((releaseNode p s n).obj.node.get m).proc = (s.obj.node.get m).proc) ∧
      ∀ r d, (releaseNode p s n).Attached r d → ((releaseNode p s n).obj.ref.get r).node = n →
        ∃ g, (releaseNode p s n).On g d := by
  set s₁ := s.modObj fun o => o.modOwn p fun w => { w with nodes := w.nodes.erase n } with hs₁
  set s₃ := unqueue (s₁.note (.nodeReleased n)) (.node n) with hs₃
  set s₄ := binderReleaseWork s₃ (.asyncTodo n) with hs₄
  have h₁ : Undying s s₁ := undying_modObj s (sameLinks_eraseNode s.obj n p)
  have h₃ : Undying s s₃ := h₁.trans ((undying_note s₁ rfl).trans
    (unqueue_undying _ fun d he => by cases he))
  obtain ⟨hwork, hcalm⟩ := binderReleaseWork_deaths (K := K) (l := .asyncTodo n) trivial
    (h.undying h₃) fun p hp => by cases hp
  have h₄ : DeathInv s₄ := (h.undying h₃).steps hwork
  have hproc : ∀ m, (s₄.obj.node.get m).proc = (s.obj.node.get m).proc := fun m =>
    (hcalm.proc m).trans (h₃.links.proc m)
  have hunlisted : ∀ q, n ∉ (s₄.obj.own q).nodes := fun q hq => by
    have hmem : n ∈ (s₁.obj.own q).nodes := (hcalm.nodes q).subset hq
    have hown := ((h.undying h₁).links.nodes q n hmem).2
    rw [h₁.links.proc, hn] at hown
    obtain rfl : p = q := Option.some.inj hown
    have hnodes : (s₁.obj.own p).nodes = (s.obj.own p).nodes.erase n := by
      simp [hs₁, Driver.modObj, Objects.modOwn]
    rw [hnodes] at hmem
    exact (h.links.nodesNodup p).not_mem_erase hmem
  have heq : releaseNode p s n = s₄.modObj fun o =>
      if (o.node.get n).refs = [] then o.modNode n fun x => { x with freed := x.freed + 1 }
      else
        let o := o.modNode n fun x => { x with proc := none, localStrongRefs := 0, localWeakRefs := 0 }
        (o.node.get n).refs.foldl notifyDeath { o with deadNodes := n :: o.deadNodes } := rfl
  have hbefore : Deaths K s s₄ := h₃.deaths.trans hwork
  by_cases hrefs : (s₄.obj.node.get n).refs = []
  · have hfree : Undying s₄ (s₄.modObj fun o => o.modNode n fun x =>
        { x with freed := x.freed + 1 }) :=
      undying_modObj s₄ (sameLinks_modNode _ n (fun _ => rfl) fun _ => rfl)
    have heq' : releaseNode p s n = s₄.modObj fun o => o.modNode n fun x =>
        { x with freed := x.freed + 1 } := by
      rw [heq]
      simp only [Driver.modObj, hrefs, if_true]
    rw [heq']
    refine ⟨hbefore.trans hfree.deaths, fun m _ => (hfree.links.proc m).trans (hproc m),
      fun r d ha hr => ?_⟩
    have hheld := (((h₄.undying hfree).links.live _ r ha.1)).2.2
    rw [hr, hfree.links.refs, hrefs] at hheld
    cases hheld
  · -- the references of the node were not told about while it had an owner
    set f : BinderNode → BinderNode := fun x =>
      { x with proc := none, localStrongRefs := 0, localWeakRefs := 0 } with hf
    set s₅ := s₄.modObj fun o => o.modNode n f with hs₅
    have hrel : .nodeReleased n ∈ s₄.history :=
      hwork.mem_history (List.mem_append_right _ (List.mem_singleton.2 rfl))
    have horphan : DeathStep K s₄ s₅ := .orphan f (fun _ => rfl) (fun _ => rfl) hrel hunlisted ho
    set s₆ := s₅.modObj fun o => { o with deadNodes := n :: o.deadNodes } with hs₆
    have hdeadNodes : Undying s₅ s₆ := undying_modObj s₅ { SameLinks.refl s₅.obj with }
    have h₆ : DeathInv s₆ := (h₄.step horphan).undying hdeadNodes
    have hnode : ∀ m, m ≠ n → s₆.obj.node.get m = s₄.obj.node.get m := fun m hm =>
      s₄.obj.node.get_modify_ne n m f hm
    have hself : s₆.obj.node.get n = f (s₄.obj.node.get n) := if_pos rfl
    have heq' : releaseNode p s n = s₆.modObj fun o =>
        (s₆.obj.node.get n).refs.foldl notifyDeath o := by
      rw [heq]
      simp only [Driver.modObj, hrefs, if_false]
      rfl
    have hheld : ∀ r ∈ (s₆.obj.node.get n).refs,
        r ∈ (s₆.obj.own (s₆.obj.ref.get r).proc).refsByDesc ∧ (s₆.obj.ref.get r).node = n :=
      fun r hr => h₆.links.held n r hr
    have hquiet : ∀ r ∈ (s₆.obj.node.get n).refs, ∀ d, s₆.Attached r d →
        (∀ g, ¬s₆.On g d) ∧ ¬s₆.Told d := fun r hr d ha => by
      have ha₄ : s₄.Attached r d := ha
      obtain ⟨-, htold, hon⟩ := (h₄.record d).wanted r ha₄
      have halive : ¬s₄.NodeDead r := fun hdead => by
        have hr' : (s₄.obj.ref.get r).node = n := (hheld r hr).2
        unfold Driver.NodeDead at hdead
        rw [hr', hproc, hn] at hdead
        cases hdead
      exact ⟨fun g hg => halive (hon g hg).2, fun ht => halive (htold ht)⟩
    have hdead : ∀ r ∈ (s₆.obj.node.get n).refs, s₆.NodeDead r := fun r hr => by
      unfold Driver.NodeDead
      rw [(hheld r hr).2, hself]
    obtain ⟨hnotify, hon⟩ := notifyDeaths_deaths hK (h₆.links.refsNodup n) h₆
      (fun r hr => (hheld r hr).1) hdead hquiet
    rw [heq']
    refine ⟨((hbefore.tail horphan).trans hdeadNodes.deaths).trans hnotify, fun m hm => ?_,
      fun r d ha hr => ?_⟩
    · refine (congrArg BinderNode.proc ?_).trans ((congrArg BinderNode.proc (hnode m hm)).trans (hproc m))
      exact congrArg (Heap.get · m) (notifyDeaths_node _ s₆.obj)
    · have hheap := notifyDeaths_refs (s₆.obj.node.get n).refs s₆.obj
      have ha₆ : s₆.Attached r d := by
        unfold Driver.Attached at ha ⊢
        simp only [Driver.modObj, hheap.1, hheap.2] at ha
        exact ha
      have hr₆ : (s₆.obj.ref.get r).node = n := by
        simp only [Driver.modObj, hheap.1] at hr
        exact hr
      refine hon r ?_ d ha₆
      have hlive := (h₆.links.live _ r ha₆.1).2.2
      rwa [hr₆] at hlive

/-- All references of a process are deleted. -/
theorem deleteRefs_deaths {p : ℕ} {l : List ℕ} (hl : l.Nodup) (h : DeathInv s)
    (hmem : ∀ r ∈ l, r ∈ (s.obj.own p).refsByDesc) :
    Deaths K s (s.modObj fun o => l.foldl binderDeleteRef o) ∧
      ∀ r, r ∈ ((l.foldl binderDeleteRef s.obj).own p).refsByDesc ↔
        r ∉ l ∧ r ∈ (s.obj.own p).refsByDesc := by
  induction l generalizing s with
  | nil => exact ⟨.refl s, by simp⟩
  | cons r l ih =>
    obtain ⟨hrl, hl⟩ := List.nodup_cons.1 hl
    have hr := hmem r (by simp)
    have hstep : DeathStep K s (s.modObj (binderDeleteRef · r)) := .link (.deleteRef hr)
    have hD := (binderDeleteRef_unlinked s.obj r).mem_byDesc h.links hr p
    obtain ⟨h1, h2⟩ := ih hl (h.step hstep) fun r' hr' =>
      (hD r').2 ⟨fun he => hrl (he ▸ hr'), hmem r' (by simp [hr'])⟩
    refine ⟨(Relation.ReflTransGen.single hstep).trans h1, fun r' => ?_⟩
    refine (h2 r').trans ?_
    rw [show r' ∈ ((s.modObj (binderDeleteRef · r)).obj.own p).refsByDesc ↔
      r' ≠ r ∧ r' ∈ (s.obj.own p).refsByDesc from hD r', List.mem_cons, not_or]
    tauto

end Binder

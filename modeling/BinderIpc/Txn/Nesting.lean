import BinderIpc.Driver.Retry
import BinderIpc.Txn.Shrinks
import BinderIpc.Txn.Outcome

/-! In the calls that are nested in one another a process takes part with one thread
only, as long as no process calls a node of its own. So the search of
`binder_transaction` along `from_parent` has at most one thread to find, and that
thread waits for a reply. -/

namespace Binder

variable {L : Layout} {rb : RbTree ℕ} {gone : ℕ → Bool} {loose : Option ℕ} {s s' : Driver}
  {t u v T R n : ℕ} {l : List ℕ} {tr : TransactionData} {target : Target}

/-- `u` is `t` itself, or a call inside which `t` was made. -/
def Inside (s : Driver) : ℕ → ℕ → Prop :=
  Relation.ReflTransGen fun u t => (s.txn.get u).fromParent = some t

/-- The call `u` is met on the way along `from_parent` from the stack of `T`. -/
def WorksIn (s : Driver) (T u : ℕ) : Prop :=
  ∃ v, (s.thread.get T).transactionStack = some v ∧ Inside s v u

/-- What the call `t` is made inside of is a call. -/
def Parents (s : Driver) : Prop :=
  ∀ t u, (s.txn.get t).needReply = true → (s.txn.get t).fromParent = some u →
    (s.txn.get u).needReply = true

/-- Of every process one thread at most takes part in `t` and in what it was made inside
of, and none of the process that `t` waits for. -/
structure SoloAt (s : Driver) (t : ℕ) : Prop where
  sender_lt : ∀ R, (s.txn.get t).fromThread = some R → R < s.thread.next
  receiver_lt : ∀ R, (s.txn.get t).toThread = some R → R < s.thread.next
  senders : ∀ u v R R', Inside s t u → Inside s t v → (s.txn.get u).fromThread = some R →
    (s.txn.get v).fromThread = some R' → (s.thread.get R).proc = (s.thread.get R').proc → R = R'
  receiver : ∀ u R R', Inside s t u → (s.txn.get t).toThread = some R →
    (s.txn.get u).fromThread = some R' → (s.thread.get R').proc = (s.thread.get R).proc → R' = R
  waiting : ∀ u q R, s.queued (.procTodo q) t → Inside s t u →
    (s.txn.get u).fromThread = some R → (s.thread.get R).proc ≠ q

def Solo (s : Driver) : Prop := ∀ t, (s.txn.get t).needReply = true → SoloAt s t

/-! The way up -/

theorem Calls.Chain.parent_mem {τ κ : Type*} [DecidableEq τ] {c : Calls τ κ} {l : List κ} {t u : κ}
    (h : c.Chain l) (ht : t ∈ l) (hp : c.parent t = some u) : u ∈ l := by
  induction l with
  | nil => cases ht
  | cons a l ih =>
    rcases List.mem_cons.1 ht with rfl | ht
    · rw [h.1] at hp
      exact List.mem_cons_of_mem _ (List.mem_of_mem_head? hp)
    · exact List.mem_cons_of_mem _ (ih h.tail ht)

theorem CallInv.parents (h : CallInv L gone loose s) : Parents s := by
  intro t u ht hu
  obtain ⟨F, hF⟩ := h.txn.forest
  obtain ⟨l, hl, htl⟩ := (hF.call_iff t).1 ht
  exact hF.mem_call hl ((hF.chain l hl).parent_mem htl hu)

theorem Inside.call (hp : Parents s) (ht : (s.txn.get t).needReply = true) (h : Inside s t u) :
    (s.txn.get u).needReply = true := by
  induction h with
  | refl => exact ht
  | tail _ hstep ih => exact hp _ _ ih hstep

/-- The way up from a call depends on the parents of calls only. -/
theorem inside_congr (hp : Parents s) (ht : (s.txn.get t).needReply = true)
    (hsame : ∀ b, (s.txn.get b).needReply = true →
      (s'.txn.get b).fromParent = (s.txn.get b).fromParent) : Inside s' t u ↔ Inside s t u := by
  constructor
  · intro h
    induction h with
    | refl => exact .refl
    | tail _ hstep ih => exact ih.tail ((hsame _ (ih.call hp ht)).symm.trans hstep)
  · intro h
    induction h with
    | refl => exact .refl
    | tail hb hstep ih =>
      have hcall := Inside.call hp ht hb
      exact ih.tail ((hsame _ hcall).trans hstep)

/-- The calls above the one at the tip of a chain are those of the chain. -/
theorem Calls.Chain.inside_iff (h : (callsOf gone loose s).Chain (t :: l)) :
    Inside s t u ↔ u ∈ t :: l := by
  constructor
  · intro hu
    induction hu with
    | refl => simp
    | tail _ hstep ih => exact h.parent_mem ih hstep
  · intro hu
    rcases List.mem_cons.1 hu with rfl | hu
    · exact .refl
    · exact (descends_of_chain h hu).to_reflTransGen

/-! Functions that shrink -/

theorem Solo.shrinks (h : Solo s) (hs : Shrinks s s') (hp : Parents s') : Solo s' := by
  intro t ht
  have hin : ∀ u, Inside s' t u → Inside s t u := fun u =>
    (inside_congr hp ht fun b hb => ((hs.txn b) hb).2.1.symm).2
  have hsender : ∀ u, Inside s' t u → ∀ R, (s'.txn.get u).fromThread = some R →
      (s.txn.get u).fromThread = some R ∧ (s'.thread.get R).proc = (s.thread.get R).proc := by
    intro u hu R hR
    obtain ⟨hcall, -, hfrom, -⟩ := (hs.txn u) (hu.call hp ht)
    exact ⟨hfrom R hR, hs.owner R ((h u hcall).sender_lt R (hfrom R hR))⟩
  obtain ⟨hcall, -, hfrom, hto⟩ := (hs.txn t) ht
  have hold := h t hcall
  refine ⟨fun R hR => (hold.sender_lt R (hfrom R hR)).trans_le hs.threads,
    fun R hR => (hold.receiver_lt R (hto R hR)).trans_le hs.threads, fun u v R R' hu hv hR hR' he => ?_,
    fun u R R' hu hR hR' he => ?_, fun u q R hq hu hR => ?_⟩
  · obtain ⟨h1, h2⟩ := hsender u hu R hR
    obtain ⟨h3, h4⟩ := hsender v hv R' hR'
    exact hold.senders u v R R' (hin u hu) (hin v hv) h1 h3 (h2.symm.trans (he.trans h4))
  · obtain ⟨h1, h2⟩ := hsender u hu R' hR'
    have h3 := hs.owner R (hold.receiver_lt R (hto R hR))
    exact hold.receiver u R R' (hin u hu) (hto R hR) h1 (h2.symm.trans (he.trans h3))
  · obtain ⟨h1, h2⟩ := hsender u hu R hR
    rw [h2]
    exact hold.waiting u q R (hs.waiting t q ht hq) (hin u hu) h1

/-! The thread that a call is sent to -/

/-- The search along a chain finds the thread of the process, when there is only one. -/
theorem routeThread_chain {q k : ℕ} {found : Option ℕ} (h : (callsOf gone loose s).Chain l)
    (hk : l.length ≤ k)
    (hall : ∀ u ∈ l, ∀ S, (s.txn.get u).fromThread = some S → (s.thread.get S).proc = q → S = R)
    (hex : found = some R ∨
      ∃ u ∈ l, (s.txn.get u).fromThread = some R ∧ (s.thread.get R).proc = q) :
    routeThread s q k l.head? found = some R := by
  induction l generalizing k found with
  | nil =>
    have hf : found = some R := by simpa using hex
    cases k <;> exact hf
  | cons t l ih =>
    cases k with
    | zero => cases hk
    | succ k =>
      have hparent : (s.txn.get t).fromParent = l.head? := h.1
      rw [List.head?_cons, routeThread, hparent]
      refine ih h.tail (Nat.le_of_succ_le_succ hk) (fun u hu => hall u (List.mem_cons_of_mem _ hu)) ?_
      rcases hex with hf | ⟨u, hu, hR, hq⟩
      · left
        split
        · rename_i S hS
          split_ifs with hp
          · rw [hall t (by simp) S hS hp]
          · exact hf
        · exact hf
      · rcases List.mem_cons.1 hu with rfl | hu
        · left
          rw [hR]
          exact if_pos hq
        · exact Or.inr ⟨u, hu, hR, hq⟩

/-- What the target of a synchronous call has to do with the calls that its sender works on. -/
structure Routed (s : Driver) (T : ℕ) (target : Target) : Prop where
  notReply : target.inReplyTo = none
  held : ∀ v, (s.thread.get T).transactionStack = some v →
    (s.txn.get v).needReply = true ∧ (s.txn.get v).toThread = some T
  found : ∀ u S, WorksIn s T u → (s.txn.get u).fromThread = some S →
    (s.thread.get S).proc = target.proc → target.thread = some S
  named : ∀ S, target.thread = some S → (s.thread.get S).proc = target.proc ∧
    ∃ u, WorksIn s T u ∧ (s.txn.get u).fromThread = some S
  away : (s.thread.get T).proc ≠ target.proc

/-- What `callTarget` answers for a synchronous call. -/
theorem callTarget_spec (hok : callTarget s T tr = .ok target) (hsync : tr.flags.oneWay = false) :
    ∃ n, targetNode s T tr = .ok n ∧ (s.obj.node.get n).proc = some target.proc ∧
      target.inReplyTo = none ∧
      (∀ v, (s.thread.get T).transactionStack = some v → (s.txn.get v).toThread = some T) ∧
      target.thread =
        routeThread s target.proc s.txn.next (s.thread.get T).transactionStack none := by
  unfold callTarget at hok
  cases hn : targetNode s T tr with
  | error f =>
    rw [hn] at hok
    cases hok
  | ok n =>
    rw [hn] at hok
    simp only [bind, Except.bind] at hok
    cases hq : (s.obj.node.get n).proc with
    | none =>
      rw [hq] at hok
      cases hok
    | some q =>
      rw [hq] at hok
      simp only [hsync, Bool.false_eq_true, if_false] at hok
      split_ifs at hok with hheld
      cases hok
      refine ⟨n, rfl, hq, rfl, fun v hv => ?_, rfl⟩
      rw [hv] at hheld
      simpa using hheld

/-- A thread that works on a call has the calls above it in one chain. -/
theorem CallInv.chainOf (h : CallInv L gone none s) (hg : gone T = false)
    (hv : (s.thread.get T).transactionStack = some v) (hto : (s.txn.get v).toThread = some T) :
    ∃ F post, (callsOf gone none s).Forest (gone · = true) none F ∧ v :: post ∈ F ∧
      (v :: post).length ≤ s.txn.next := by
  obtain ⟨F, hF⟩ := h.txn.forest
  have htop : (callsOf gone none s).top T = some v := by simp [callsOf, hg, hv]
  have hd : (callsOf gone none s).dst v = some T := by simpa [callsOf] using hto
  obtain ⟨post, hl, -⟩ := hF.tip_of_top htop hd
  refine ⟨F, post, hF, hl, ?_⟩
  have hsub : v :: post ⊆ List.range s.txn.next := fun t ht =>
    List.mem_range.2 (h.txn.call_live t (hF.mem_call hl ht)).1
  simpa using ((hF.nodup _ hl).subperm hsub).length_le

theorem CallInv.routed (h : CallInv L gone none s) (hs : Solo s) (hg : gone T = false)
    (hok : callTarget s T tr = .ok target) (hsync : tr.flags.oneWay = false)
    (hown : ∀ n, targetNode s T tr = .ok n →
      (s.obj.node.get n).proc ≠ some (s.thread.get T).proc) : Routed s T target := by
  obtain ⟨n, hn, hproc, hnot, hheld, hroute⟩ := callTarget_spec hok hsync
  refine ⟨hnot, fun v hv => ⟨(h.txn.held hg hv (hheld v hv)).1, hheld v hv⟩, fun u S hu hS hq => ?_,
    fun S hS => ?_, fun he => hown n hn (by rw [hproc, he])⟩
  · obtain ⟨v, hv, hin⟩ := hu
    obtain ⟨F, post, hF, hl, hlen⟩ := h.chainOf hg hv (hheld v hv)
    have hc := hF.chain _ hl
    have hsolo := hs v (hF.mem_call hl (by simp))
    rw [hroute, hv]
    refine routeThread_chain hc hlen (fun w hw S' hS' hq' => ?_)
      (Or.inr ⟨u, hc.inside_iff.1 hin, hS, hq⟩)
    exact hsolo.senders w u S' S (hc.inside_iff.2 hw) hin hS' hS (hq'.trans hq.symm)
  · rw [hroute] at hS
    rcases routeThread_spec hS with hf | ⟨j, u, hj, hu, hpq⟩
    · cases hf
    · cases hv : (s.thread.get T).transactionStack with
      | none =>
        rw [hv] at hS
        cases hk : s.txn.next <;> rw [hk] at hS <;> cases hS
      | some v =>
        obtain ⟨F, post, hF, hl, -⟩ := h.chainOf hg hv (hheld v hv)
        have hc := hF.chain _ hl
        rw [hv] at hj
        exact ⟨hpq, u, ⟨v, hv, hc.inside_iff.2 (hc.iterate_parent hj)⟩, hu⟩

/-- What the preparation of the transaction leaves alone keeps the target. -/
theorem Routed.keep (h : Routed s T target) (hk : Kept s s') (hi : CallInv L gone loose s) :
    Routed s' T target := by
  have hlt : ∀ b, (s.txn.get b).needReply = true → s'.txn.get b = s.txn.get b := fun b hb =>
    hk.txn b (hi.txn.call_live b hb).1
  have hin : ∀ v u, (s.txn.get v).needReply = true → (Inside s' v u ↔ Inside s v u) := fun v u hv =>
    inside_congr hi.parents hv fun b hb => by rw [hlt b hb]
  obtain ⟨h1, h2, h3, h4, h5⟩ := h
  refine ⟨h1, fun v hv => ?_, fun u S hu hS => ?_, fun S hS => ?_, ?_⟩
  · rw [hk.thread] at hv
    obtain ⟨hcall, hto⟩ := h2 v hv
    rw [hlt v hcall]
    exact ⟨hcall, hto⟩
  · obtain ⟨v, hv, hvu⟩ := hu
    rw [hk.thread] at hv ⊢
    have hcall := (h2 v hv).1
    have hvu := (hin v u hcall).1 hvu
    rw [hlt u (hvu.call hi.parents hcall)] at hS
    exact h3 u S ⟨v, hv, hvu⟩ hS
  · obtain ⟨hq, u, ⟨v, hv, hvu⟩, hu⟩ := h4 S hS
    have hcall := (h2 v hv).1
    rw [hk.thread]
    refine ⟨hq, u, ⟨v, by rw [hk.thread]; exact hv, (hin v u hcall).2 hvu⟩, ?_⟩
    rw [hlt u (hvu.call hi.parents hcall)]
    exact hu
  · rw [hk.thread]
    exact h5

/-! A call is queued -/

theorem queueTransaction_call (hn : target.inReplyTo = none)
    (hsync : (s.txn.get t).flags.oneWay = false) : queueTransaction s T t target =
      enqueue (makeCall (s.bugOn ((s.bufferOf t).any (·.asyncTransaction)) .asyncBuffer) T t) T t
        (home target) := by
  unfold queueTransaction
  simp only [hn, hsync]
  rfl

section

variable {l : ListHead}

theorem queued_get (s : Driver) (T t b : ℕ) (l : ListHead) :
    (enqueue (makeCall s T t) T t l).txn.get b = if b = t then { s.txn.get t with
      needReply := true, fromParent := (s.thread.get T).transactionStack } else s.txn.get b := rfl

theorem queued_get_call (hno : (s.txn.get t).needReply = false) (hv : (s.txn.get v).needReply = true) :
    (enqueue (makeCall s T t) T t l).txn.get v = s.txn.get v := by
  rw [queued_get, if_neg]
  rintro rfl
  rw [hno] at hv
  cases hv

theorem queued_proc (s : Driver) (T t R : ℕ) (l : ListHead) :
    ((enqueue (makeCall s T t) T t l).thread.get R).proc = (s.thread.get R).proc :=
  s.thread.apply_get_modify T R (fun y => { y with transactionStack := some t }) (·.proc) fun _ => rfl

/-- The way up from an older call is what it was. -/
theorem inside_queued (hp : Parents s) (hno : (s.txn.get t).needReply = false)
    (hv : (s.txn.get v).needReply = true) (hu : Inside (enqueue (makeCall s T t) T t l) v u) :
    Inside s v u ∧ (enqueue (makeCall s T t) T t l).txn.get u = s.txn.get u := by
  have hvu := (inside_congr hp hv fun c hc => by rw [queued_get_call hno hc]).1 hu
  exact ⟨hvu, queued_get_call hno (hvu.call hp hv)⟩

/-- The way up from the new call goes on from the stack of its sender. -/
theorem inside_queued_self (hp : Parents s) (hr : Routed s T target)
    (hno : (s.txn.get t).needReply = false) (hu : Inside (enqueue (makeCall s T t) T t l) t u) :
    u = t ∨ ∃ v, (s.thread.get T).transactionStack = some v ∧ Inside s v u ∧
      (enqueue (makeCall s T t) T t l).txn.get u = s.txn.get u := by
  rcases hu.cases_head with rfl | ⟨v, hv, hvu⟩
  · exact Or.inl rfl
  · rw [queued_get, if_pos rfl] at hv
    exact Or.inr ⟨v, hv, inside_queued hp hno (hr.held v hv).1 hvu⟩

theorem SoloAt.queued (h : SoloAt s v) (hp : Parents s) (hno : (s.txn.get t).needReply = false)
    (hv : (s.txn.get v).needReply = true) (hvt : v ≠ t) :
    SoloAt (enqueue (makeCall s T t) T t l) v := by
  have hget := queued_get_call (T := T) (l := l) hno hv
  refine ⟨fun R hR => h.sender_lt R (hget ▸ hR), fun R hR => h.receiver_lt R (hget ▸ hR),
    fun u w R R' hu hw hR hR' he => ?_, fun u R R' hu hR hR' he => ?_, fun u q R hq hu hR => ?_⟩
  · obtain ⟨h1, h2⟩ := inside_queued hp hno hv hu
    obtain ⟨h3, h4⟩ := inside_queued hp hno hv hw
    rw [queued_proc, queued_proc] at he
    exact h.senders u w R R' h1 h3 (h2 ▸ hR) (h4 ▸ hR') he
  · obtain ⟨h1, h2⟩ := inside_queued hp hno hv hu
    rw [queued_proc, queued_proc] at he
    exact h.receiver u R R' h1 (hget ▸ hR) (h2 ▸ hR') he
  · obtain ⟨h1, h2⟩ := inside_queued hp hno hv hu
    rw [queued_proc]
    exact h.waiting u q R ((queued_enqueue.1 hq).resolve_right fun hc => hvt hc.2) h1 (h2 ▸ hR)

/-- The list of a process is the new call's only when no thread was found. -/
theorem home_procTodo {q : ℕ} (h : ListHead.procTodo q = home target) :
    target.thread = none ∧ q = target.proc := by
  cases hth : target.thread with
  | none =>
    rw [home, hth] at h
    cases h
    exact ⟨rfl, rfl⟩
  | some S =>
    rw [home, hth] at h
    cases h

theorem Solo.newCall (h : Solo s) (hp : Parents s) (hr : Routed s T target)
    (hT : T < s.thread.next) (hno : (s.txn.get t).needReply = false)
    (hfrom : (s.txn.get t).fromThread = some T) (hto : (s.txn.get t).toThread = target.thread)
    (hq : ∀ l, ¬s.queued l t) : SoloAt (enqueue (makeCall s T t) T t (home target)) t := by
  have hfrom' : ((enqueue (makeCall s T t) T t (home target)).txn.get t).fromThread = some T := by
    rw [queued_get, if_pos rfl]
    exact hfrom
  have hto' : ((enqueue (makeCall s T t) T t (home target)).txn.get t).toThread = target.thread := by
    rw [queued_get, if_pos rfl]
    exact hto
  refine ⟨fun R hR => ?_, fun R hR => ?_, fun u v R R' hu hv hR hR' he => ?_,
    fun u R R' hu hR hR' he => ?_, fun u q R hqt hu hR => ?_⟩
  · rw [hfrom'] at hR
    exact Option.some.inj hR ▸ hT
  · rw [hto'] at hR
    obtain ⟨-, u, ⟨v, hv, hvu⟩, hu⟩ := hr.named R hR
    exact (h u (hvu.call hp (hr.held v hv).1)).sender_lt R hu
  · rw [queued_proc, queued_proc] at he
    rcases inside_queued_self hp hr hno hu with rfl | ⟨w, hw, hwu, hu'⟩ <;>
      rcases inside_queued_self hp hr hno hv with rfl | ⟨x, hx, hxv, hv'⟩
    · exact Option.some.inj (hR.symm.trans hR')
    · -- the sender receives the call that it works on
      rw [hfrom'] at hR
      cases hR
      obtain ⟨hcall, hheld⟩ := hr.held x hx
      exact ((h x hcall).receiver v T R' hxv hheld (hv' ▸ hR') he.symm).symm
    · rw [hfrom'] at hR'
      cases hR'
      obtain ⟨hcall, hheld⟩ := hr.held w hw
      exact (h w hcall).receiver u T R hwu hheld (hu' ▸ hR) he
    · obtain rfl : w = x := Option.some.inj (hw.symm.trans hx)
      exact (h w (hr.held w hw).1).senders u v R R' hwu hxv (hu' ▸ hR) (hv' ▸ hR') he
  · rw [queued_proc, queued_proc] at he
    rw [hto'] at hR
    have hproc := (hr.named R hR).1
    rcases inside_queued_self hp hr hno hu with rfl | ⟨w, hw, hwu, hu'⟩
    · rw [hfrom'] at hR'
      cases hR'
      exact absurd (he.trans hproc) hr.away
    · have hfound := hr.found u R' ⟨w, hw, hwu⟩ (hu' ▸ hR') (he.trans hproc)
      exact Option.some.inj (hfound.symm.trans hR)
  · obtain ⟨hnone, rfl⟩ := home_procTodo ((queued_enqueue.1 hqt).resolve_left (hq _)).1
    rw [queued_proc]
    rcases inside_queued_self hp hr hno hu with rfl | ⟨w, hw, hwu, hu'⟩
    · rw [hfrom'] at hR
      cases hR
      exact hr.away
    · intro hc
      have hfound := hr.found u R ⟨w, hw, hwu⟩ (hu' ▸ hR) hc
      rw [hnone] at hfound
      cases hfound

theorem Solo.queueCall (h : Solo s) (hp : Parents s) (hr : Routed s T target)
    (hT : T < s.thread.next) (hno : (s.txn.get t).needReply = false)
    (hfrom : (s.txn.get t).fromThread = some T) (hto : (s.txn.get t).toThread = target.thread)
    (hq : ∀ l, ¬s.queued l t) : Solo (enqueue (makeCall s T t) T t (home target)) := by
  intro v hv
  by_cases hvt : v = t
  · subst hvt
    exact h.newCall hp hr hT hno hfrom hto hq
  · rw [queued_get, if_neg hvt] at hv
    exact (h v hv).queued hp hno hv hvt

end

/-! A call is delivered -/

theorem Solo.giveCall (h : Solo s) (hp : Parents s) (hT : T < s.thread.next)
    (hsole : ∀ u R, (s.txn.get t).needReply = true → Inside s t u →
      (s.txn.get u).fromThread = some R → (s.thread.get R).proc = (s.thread.get T).proc → R = T) :
    Solo (giveCall s T t) := by
  set s' := Binder.giveCall s T t with hs'
  have hget : ∀ b, s'.txn.get b = if b = t then { s.txn.get t with
      toParent := (s.thread.get T).transactionStack, toThread := some T } else s.txn.get b :=
    fun _ => rfl
  have hkeep : ∀ {β : Type} (g : BinderTransaction → β),
      (∀ x o R, g { x with toParent := o, toThread := R } = g x) → ∀ b,
        g (s'.txn.get b) = g (s.txn.get b) := fun g hg b => by
    rw [hget]
    split_ifs with hb
    · rw [hg, hb]
    · rfl
  have hproc : ∀ S, (s'.thread.get S).proc = (s.thread.get S).proc := fun S =>
    s.thread.apply_get_modify T S (fun y => { y with transactionStack := some t }) (·.proc) fun _ => rfl
  intro b hb
  rw [hkeep (·.needReply) fun _ _ _ => rfl] at hb
  have hin : ∀ u, Inside s' b u → Inside s b u := fun u =>
    (inside_congr hp hb fun c _ => hkeep (·.fromParent) (fun _ _ _ => rfl) c).1
  have hsolo := h b hb
  refine ⟨fun R hR => ?_, fun R hR => ?_, fun u v R R' hu hv hR hR' he => ?_,
    fun u R R' hu hR hR' he => ?_, fun u q R hq hu hR => ?_⟩
  · rw [hkeep (·.fromThread) fun _ _ _ => rfl] at hR
    exact hsolo.sender_lt R hR
  · rw [hget] at hR
    split_ifs at hR
    · exact Option.some.inj hR ▸ hT
    · exact hsolo.receiver_lt R hR
  · rw [hkeep (·.fromThread) fun _ _ _ => rfl] at hR hR'
    rw [hproc, hproc] at he
    exact hsolo.senders u v R R' (hin u hu) (hin v hv) hR hR' he
  · rw [hkeep (·.fromThread) fun _ _ _ => rfl] at hR'
    rw [hproc, hproc] at he
    rw [hget] at hR
    split_ifs at hR with hbt
    · obtain rfl : T = R := Option.some.inj hR
      subst hbt
      exact hsole u R' hb (hin u hu) hR' he
    · exact hsolo.receiver u R R' (hin u hu) hR hR' he
  · rw [hkeep (·.fromThread) fun _ _ _ => rfl] at hR
    rw [hproc]
    exact hsolo.waiting u q R hq (hin u hu) hR

/-- The reader of a call takes no part in it already with another thread of its process. -/
theorem Solo.readTransaction {ptr : ℕ} {fault : ℕ → Bool} {l : ListHead} (h : Solo s)
    (hi : CallInv L gone none s) (hT : T < s.thread.next) (hq : s.queued l t) (hr : Reads s T l) :
    Solo (readTransaction s T t ptr fault).1 := by
  have hbug := shrinks_bugOn s (s.bufferOf t).isNone .noBuffer
  have htake : Shrinks s (takeUp s t (readEvent s T t)) := by
    unfold takeUp
    refine Shrinks.trans ((hbug.trans (shrinks_note _ (e := readEvent s T t) rfl)).trans
      (shrinks_unqueue _ (.transaction t))) ?_
    cases (s.txn.get t).buffer with
    | none => exact .refl _
    | some b => exact shrinks_modBuffer _ b _
  have htxn : (takeUp s t (readEvent s T t)).txn = s.txn := allowFree_txn _
  have hth : (takeUp s t (readEvent s T t)).thread = s.thread := allowFree_thread _
  have hptake : Parents (takeUp s t (readEvent s T t)) := fun b u => by
    rw [htxn]
    exact hi.parents b u
  rw [readTransaction_eq]
  split_ifs with hfault hcall
  · exact h.shrinks hbug hi.parents
  · refine (h.shrinks htake hptake).giveCall hptake (hth ▸ hT) fun u R hb hu hR he => ?_
    rw [htxn] at hb hR
    rw [hth] at he
    have hin := (inside_congr hi.parents hb fun c _ => by rw [htxn]).1 hu
    have hsolo := h t hb
    rcases (hi.txn.placed l t hq).list hb with ⟨R', rfl, hto⟩ | ⟨q, rfl, -⟩
    · obtain rfl : R' = T := by
        rcases hr with hr | ⟨hr, -⟩ <;> cases hr
        rfl
      exact hsolo.receiver u R' R hin hto hR he
    · obtain rfl : q = (s.thread.get T).proc := by
        rcases hr with hr | ⟨hr, -⟩ <;> cases hr
        rfl
      exact absurd he (hsolo.waiting u _ R hq hin hR)
  · refine h.shrinks (htake.trans (freeTransaction_shrinks _ t)) fun b u hb hu => ?_
    have hkeep : ∀ {β : Type} (g : BinderTransaction → β), (∀ x n, g { x with freed := n } = g x) →
        ∀ c, g ((freeTransaction (takeUp s t (readEvent s T t)) t).txn.get c) = g (s.txn.get c) :=
      fun g hg c => by
        rw [freeTransaction, Driver.modTxn, Heap.get_modify, txn_forget, htxn]
        split_ifs with hc
        · rw [hg, hc]
        · rfl
    rw [hkeep (·.needReply) fun _ _ => rfl] at hb ⊢
    rw [hkeep (·.fromParent) fun _ _ => rfl] at hu
    exact hi.parents b u hb hu

theorem Solo.readLoop {f : ReadFrame} {fault : ℕ → Bool} {k ptr : ℕ} (h : Solo s)
    (hi : CallInv L gone none s) (hT : T < s.thread.next) (hg : gone T = false)
    (hawake : (s.thread.get T).asleep = none)
    (hwait : f.waitForProcWork = true → (s.thread.get T).transactionStack = none) :
    Solo (readLoop L T f fault k s ptr) := by
  induction k generalizing s ptr with
  | zero => exact h
  | succ k ih =>
    have hdone := fun ptr => h.shrinks (readDone_shrinks s T fault ptr) hi.readDone.parents
    unfold Binder.readLoop
    split
    · split_ifs
      · exact h.shrinks (waitForWork_shrinks s T fault _ _ _) hi.waitForWork.parents
      · exact hdone ptr
    · rename_i w hw
      obtain ⟨l, hl, hr⟩ := nextWork_mem hw hwait
      have hitem := hi.readItem ptr fault hT hg hawake hl hr
      have hsolo : Solo (readItem s T ptr fault w).1 := by
        by_cases hwt : ∃ t, w = .transaction t
        · obtain ⟨t, rfl⟩ := hwt
          exact h.readTransaction hi hT hl hr
        · exact h.shrinks (readItem_shrinks s T fault ptr fun t ht => hwt ⟨t, ht⟩) hitem.parents
      split_ifs
      · exact hdone ptr
      · split
        · rename_i s' n he
          obtain ⟨-, -, hth, -⟩ := readItem_next (K := .still) s T fault he
          rw [he] at hitem hsolo
          exact ih hsolo hitem (hth ▸ hT) (hth ▸ hawake) (hth ▸ hwait)
        · rename_i he
          rw [he] at hsolo
          exact hsolo
        · rename_i he
          rw [he] at hitem hsolo
          exact hsolo.shrinks (readDone_shrinks _ T fault _) hitem.readDone.parents

theorem Solo.resumeRead {fault : ℕ → Bool} (h : Solo s) (hi : CallInv L gone none s)
    (hT : T < s.thread.next) (hg : gone T = false) : Solo (resumeRead L s T fault) := by
  unfold Binder.resumeRead
  split
  · exact h
  · rename_i f hf
    have hstop := h.shrinks (stopWaiting_shrinks s T f) hi.stopWaiting.parents
    split
    · exact h
    · exact hstop
    · obtain ⟨hget, hnext⟩ := stopWaiting_thread s T f
      refine hstop.readLoop hi.stopWaiting (hnext ▸ hT) hg ?_ fun hw => ?_
      · rw [hget]
      · rw [hget]
        exact hi.txn.waits T f hf hw

/-! Every step -/

theorem binderCommand_call (s : Driver) (env : CommandEnv) :
    binderCommand L rb s T env (.transaction tr) = match callTarget s T tr with
      | .error f => failTransaction s T f
      | .ok target => sendTransaction L rb s T tr env.transaction target := by
  simp only [binderCommand, binderTransaction, Bool.false_eq_true, if_false]
  cases callTarget s T tr <;> rfl

theorem Solo.write {env : CommandEnv} {c : Command} (h : Solo s) (hi : CallInv L s.dead none s)
    (hT : T < s.thread.next) (hf : (s.thread.get T).freed = 0)
    (hown : (Action.write T c env).toOwnNode s = false)
    (hp : Parents (writeCommand L rb s T env c)) : Solo (writeCommand L rb s T env c) := by
  unfold writeCommand at hp ⊢
  split_ifs at hp ⊢
  swap
  · exact h
  by_cases hc : ∀ tr, c = .transaction tr → tr.flags.oneWay = true
  · exact h.shrinks (binderCommand_shrinks L rb s T env c hc) hp
  push Not at hc
  obtain ⟨tr, rfl, hsync⟩ := hc
  rw [ne_eq, Bool.not_eq_true] at hsync
  have hg : s.dead T = false := by simp [Driver.dead, hf]
  rw [binderCommand_call] at hp ⊢
  cases hok : callTarget s T tr with
  | error f =>
    rw [hok] at hp
    exact h.shrinks (failTransaction_shrinks s T f) hp
  | ok target =>
    rw [hok] at hp
    have hr := hi.routed h hg hok hsync fun n hn => by
      simpa [Action.toOwnNode, hn] using hown
    dsimp only at hp ⊢
    rcases sendTransaction_cases L rb s T tr env.transaction target with
      hs | ⟨s', a, hs, hk, -, hx, he⟩
    · exact h.shrinks hs hp
    have hp' : Parents s' := fun b u hb hu => by
      obtain ⟨hcall, hpar, -⟩ := (hs.txn b) hb
      have hu' := hi.parents b u hcall (hpar.symm.trans hu)
      rw [hk.txn u (hi.txn.call_live u hu').1]
      exact hu'
    have hsyncx : (s'.txn.get s.txn.next).flags.oneWay = false := by rw [hx]; exact hsync
    set c := (s'.bufferOf s.txn.next).any (·.asyncTransaction) with hc
    have hkbug : Kept s (s'.bugOn c .asyncBuffer) :=
      hk.quiet (f := fun o => o.bugOn c .asyncBuffer) (quiet_bugOn _ _ rfl)
    have hsbug := hs.trans (shrinks_bugOn s' c .asyncBuffer)
    rw [he, queueTransaction_call hr.notReply hsyncx, ← hc]
    refine (h.shrinks hsbug hp').queueCall hp' (hr.keep hkbug hi) (hk.thread ▸ hT) ?_ ?_ ?_
      fun l hl => ?_
    · exact congrArg BinderTransaction.needReply hx
    · exact (congrArg BinderTransaction.fromThread hx).trans
        (by simp [newTransaction, hr.notReply, hsync])
    · exact congrArg BinderTransaction.toThread hx
    · exact absurd (hi.txn.placed l _ (hk.queued l _ hl)).lt (lt_irrefl _)

theorem Solo.apply (h : Solo s) (hi : CallInv L s.dead none s) (ht : ThreadInv s) (hu : Unborn s)
    (a : Action) (hen : a.enabled L s = true) (hown : a.toOwnNode s = false) :
    Solo (a.apply L rb s) := by
  have hp : Parents (a.apply L rb s) := (hi.apply ht hu a hen (selfRouted_of_toOwnNode hown)).parents
  cases a with
  | openProc pid => exact h.shrinks { Shrinks.refl s with } hp
  | getThread p pid =>
    refine h.shrinks (.ite (.refl s) ?_) hp
    exact { Shrinks.refl s with
      threads := Nat.le_succ _
      owner := fun R hR => by
        rw [show ((newThread s p pid).thread.get R) = s.thread.get R from
          s.thread.get_alloc_ne R _ hR.ne] }
  | mmap p base size env =>
    refine h.shrinks ?_ hp
    unfold Action.apply driverMmap
    dsimp only
    split_ifs
    · exact .refl s
    · split
      · exact .refl s
      · exact (shrinks_modProc s p _).trans (shrinks_modObj _ fun _ _ h => h)
  | vmaClose p => exact h.shrinks (shrinks_modProc s p _) hp
  | flush p => exact h.shrinks (shrinks_modProc s p _) hp
  | close p => exact h.shrinks (shrinks_modProc s p _) hp
  | deferredFunc p env => exact h.shrinks (binderDeferredFunc_shrinks L rb s p env) hp
  | write T c env =>
    simp only [Action.enabled, Bool.and_eq_true] at hen
    obtain ⟨h1, h2, -⟩ := Driver.ready_spec hen.1
    exact h.write hi h1 h2 hown hp
  | read T size consumed nonBlock fault =>
    refine h.shrinks ?_ hp
    unfold Action.apply binderThreadRead
    dsimp only
    split_ifs
    · exact .refl s
    · exact waitForWork_shrinks s T fault _ _ _
    · exact waitForWork_shrinks s T fault _ _ _
  | lookForWork T =>
    refine h.shrinks ?_ hp
    unfold Action.apply Binder.lookForWork
    dsimp only
    split
    · exact .refl s
    · exact .ite (.refl s) (.ite (shrinks_modThread s T fun _ => rfl) (.refl s))
  | resume T fault =>
    cases hw : (s.thread.get T).asleep with
    | none =>
      simp only [Action.apply, Binder.resumeRead, hw]
      exact h
    | some f =>
      obtain ⟨h1, h2, -⟩ := ht.awake T (by simp [hw])
      exact h.resumeRead hi h1 (by simp [Driver.dead, h2])
  | interrupt T =>
    refine h.shrinks ?_ hp
    unfold Action.apply interruptRead
    dsimp only
    split
    · exact .refl s
    · exact .ite (.refl s) (stopWaiting_shrinks s T _)
  | ioctlDone T => exact h.shrinks (shrinks_modThread s T fun _ => rfl) hp
  | setMaxThreads T n => exact h.shrinks (shrinks_modProc s _ _) hp
  | setContextMgr T euid kzalloc =>
    refine h.shrinks ?_ hp
    unfold Action.apply setCtxMgr
    dsimp only
    split_ifs
    · exact .refl s
    · have huid : Shrinks s { s with contextMgrUid := some (s.contextMgrUid.getD euid) } :=
        { Shrinks.refl s with }
      refine huid.trans (shrinks_modObj _ fun q t hq => ?_)
      split at hq
      · rename_i o he
        have hquiet := binderNewNode_quiet s.obj (s.thread.get T).proc 0 0 kzalloc
        rw [he] at hquiet
        exact (hquiet.mem_message rfl).1 hq
      · rename_i o n he
        have hquiet := binderNewNode_quiet s.obj (s.thread.get T).proc 0 0 kzalloc
        rw [he] at hquiet
        exact (hquiet.mem_message rfl).1 hq
  | threadExit T => exact h.shrinks (binderFreeThread_shrinks s T) hp

theorem solo_reach (h : (driverMachine L rb).Reach (fun s a => a.toOwnNode s = false) s) : Solo s := by
  refine h.invariant_of (I := fun s => CallInv L s.dead none s ∧ ThreadInv s ∧ Unborn s)
    (fun s hs => ⟨callInv_reach (hs.mono fun _ _ => selfRouted_of_toOwnNode), threadInv_reach hs,
      unborn_reach hs⟩) (fun s hs t ht => ?_) fun s a hi _ hs ha => ?_
  · cases hs
    cases ht
  · by_cases hen : a.enabled L s = true
    · rw [show (driverMachine L rb).step s a = a.apply L rb s from if_pos hen]
      exact hs.apply hi.1 hi.2.1 hi.2.2 a hen ha
    · rwa [show (driverMachine L rb).step s a = s from if_neg hen]

/-! Where an accepted call goes -/

/-- `R` is there, has made a call that it waits for, and if it waits in a read it reads its own
list only. -/
structure AwaitsReply (s : Driver) (R : ℕ) : Prop where
  live : (s.thread.get R).freed = 0
  top : ∃ w, (s.thread.get R).transactionStack = some w ∧ (s.txn.get w).needReply = true ∧
    (s.txn.get w).fromThread = some R
  own : ∀ f, (s.thread.get R).asleep = some f → f.waitForProcWork = false

/-- A sender above the call that `T` works on, of another process, waits for a reply. -/
theorem CallInv.awaits (h : CallInv L s.dead none s)
    (hheld : ∀ v, (s.thread.get T).transactionStack = some v → (s.txn.get v).toThread = some T)
    (hg : s.dead T = false) (hu : WorksIn s T u) (hR : (s.txn.get u).fromThread = some R)
    (hRT : R ≠ T) : AwaitsReply s R := by
  obtain ⟨v, hv, hvu⟩ := hu
  obtain ⟨F, post, hF, hl, -⟩ := h.chainOf hg hv (hheld v hv)
  have hc := hF.chain _ hl
  have hmem := hc.inside_iff.1 hvu
  obtain ⟨m, hm, hin, htop⟩ := hF.stack R
  obtain rfl : m = v :: post := hF.disjoint m hm _ hl u
    (hin u (hF.mem_call hl hmem) (Calls.involves_iff.2 (Or.inl hR))) hmem
  -- the innermost call that `R` takes part in is one that it made
  obtain ⟨w, hw⟩ : ∃ w, (v :: post).find? ((callsOf s.dead none s).involves R) = some w := by
    rw [← Option.isSome_iff_exists, List.find?_isSome]
    exact ⟨u, hmem, Calls.involves_iff.2 (Or.inl hR)⟩
  have hsrc : (s.txn.get w).fromThread = some R := by
    rcases Calls.involves_iff.1 (List.find?_some hw) with hs | ⟨-, hd⟩
    · exact hs
    · obtain ⟨post', he⟩ := hc.eq_head_of_find hw hd
      obtain rfl : v = w := (List.cons.inj he).1
      have hto : (s.txn.get v).toThread = some R := by simpa [callsOf] using hd
      exact absurd (Option.some.inj (hto.symm.trans (hheld v hv))) hRT
  rw [hw] at htop
  have hlive : s.dead R = false := by
    by_contra hd
    rw [Bool.not_eq_false] at hd
    simp [callsOf, hd] at htop
  have hstack : (s.thread.get R).transactionStack = some w := by simpa [callsOf, hlive] using htop
  refine ⟨by simpa [Driver.dead] using hlive, ⟨w, hstack, ?_, hsrc⟩, fun f hf => ?_⟩
  · exact hF.mem_call hl (List.mem_of_find?_eq_some hw)
  by_contra hwait
  rw [h.txn.waits R f hf (by simpa using hwait)] at hstack
  cases hstack

/-- A call that is accepted was made ready and queued for its target. -/
theorem CallInv.acceptedCall {env : CommandEnv} {q : ℕ} (hi : CallInv L s.dead none s) (hs : Solo s)
    (hen : (Action.write T (.transaction tr) env).enabled L s = true)
    (hown : (Action.write T (.transaction tr) env).toOwnNode s = false)
    (hsync : tr.flags.oneWay = false) (hn : targetNode s T tr = .ok n)
    (hq : (s.obj.node.get n).proc = some q)
    (hacc : Event.accepted T t ∈ ((driverMachine L rb).step s (.write T (.transaction tr) env)).history)
    (hnew : Event.accepted T t ∉ s.history) :
    ∃ target s₁, Routed s T target ∧ target.proc = q ∧ Kept s s₁ ∧ t = s.txn.next ∧
      (driverMachine L rb).step s (.write T (.transaction tr) env) =
        enqueue (makeCall s₁ T t) T t (home target) := by
  have hg : s.dead T = false := by
    simp only [Action.enabled, Bool.and_eq_true] at hen
    simp [Driver.dead, (Driver.ready_spec hen.1).2.1]
  have hno : ∀ s', Shrinks s s' → Event.accepted T t ∉ s'.history := fun s' h hm =>
    hnew (h.accepted _ hm rfl)
  rw [show (driverMachine L rb).step s (.write T (.transaction tr) env) =
    writeCommand L rb s T env (.transaction tr) from if_pos hen] at hacc ⊢
  unfold writeCommand at hacc ⊢
  split_ifs at hacc ⊢
  swap
  · exact absurd hacc hnew
  rw [binderCommand_call] at hacc ⊢
  cases hok : callTarget s T tr with
  | error f =>
    rw [hok] at hacc
    exact absurd hacc (hno _ (failTransaction_shrinks s T f))
  | ok target =>
    rw [hok] at hacc
    have hr := hi.routed hs hg hok hsync fun n hn => by
      simpa [Action.toOwnNode, hn] using hown
    obtain ⟨n', hn', hproc, -⟩ := callTarget_spec hok hsync
    obtain rfl : n = n' := Except.ok.inj (hn.symm.trans hn')
    dsimp only at hacc ⊢
    rcases sendTransaction_cases L rb s T tr env.transaction target with
      hs' | ⟨s', a, -, hk, hh, hx, he⟩
    · exact absurd hacc (hno _ hs')
    have hsyncx : (s'.txn.get s.txn.next).flags.oneWay = false := by rw [hx]; exact hsync
    rw [he, queueTransaction_call hr.notReply hsyncx] at hacc ⊢
    set c := (s'.bufferOf s.txn.next).any (·.asyncTransaction)
    obtain rfl : t = s.txn.next := by
      rcases List.mem_append.1 hacc with hm | hm
      · have hold : Event.accepted T t ∈ s'.history := hm
        rw [hh] at hold
        exact absurd hold hnew
      · cases List.mem_singleton.1 hm
        rfl
    exact ⟨target, _, hr, Option.some.inj (hproc.symm.trans hq),
      hk.quiet (f := fun o => o.bugOn c .asyncBuffer) (quiet_bugOn _ _ rfl), rfl, rfl⟩

/-- While no process calls a node of its own, a call of `T` that is accepted towards `q` goes to the
one thread of `q` that is met along `from_parent`, which waits for a reply, and to the list of `q`
when no thread is met. -/
theorem nested_call_routed {env : CommandEnv} {q : ℕ}
    (h : (driverMachine L rb).Reach (fun s a => a.toOwnNode s = false) s)
    (hen : (Action.write T (.transaction tr) env).enabled L s = true)
    (hown : (Action.write T (.transaction tr) env).toOwnNode s = false)
    (hsync : tr.flags.oneWay = false) (hn : targetNode s T tr = .ok n)
    (hq : (s.obj.node.get n).proc = some q)
    (hs' : (driverMachine L rb).step s (.write T (.transaction tr) env) = s')
    (hacc : Event.accepted T t ∈ s'.history) (hnew : Event.accepted T t ∉ s.history) :
    (∀ u v R R', WorksIn s T u → WorksIn s T v → (s.txn.get u).fromThread = some R →
      (s.txn.get v).fromThread = some R' → (s.thread.get R).proc = q → (s.thread.get R').proc = q →
        R = R') ∧
    (∀ u R, WorksIn s T u → (s.txn.get u).fromThread = some R → (s.thread.get R).proc = q →
      (∀ l, s'.queued l t ↔ l = .threadTodo R) ∧ AwaitsReply s R ∧ AwaitsReply s' R) ∧
    ((∀ u R, WorksIn s T u → (s.txn.get u).fromThread = some R → (s.thread.get R).proc ≠ q) →
      ∀ l, s'.queued l t ↔ l = .procTodo q) := by
  have hi : CallInv L s.dead none s := callInv_reach (h.mono fun _ _ => selfRouted_of_toOwnNode)
  have hg : s.dead T = false := by
    simp only [Action.enabled, Bool.and_eq_true] at hen
    simp [Driver.dead, (Driver.ready_spec hen.1).2.1]
  subst hs'
  obtain ⟨target, s₁, hr, rfl, hk, rfl, he⟩ :=
    hi.acceptedCall (solo_reach h) hen hown hsync hn hq hacc hnew
  rw [he]
  have hlist : ∀ l, (enqueue (makeCall s₁ T s.txn.next) T s.txn.next (home target)).queued l
      s.txn.next ↔ l = home target := fun l => by
    rw [queued_enqueue]
    refine ⟨fun hl => ?_, fun hl => Or.inr ⟨hl, rfl⟩⟩
    rcases hl with hl | ⟨hl, -⟩
    · exact absurd (hi.txn.placed l _ (hk.queued l _ hl)).lt (lt_irrefl _)
    · exact hl
  refine ⟨fun u v R R' hu hv hR hR' hq hq' => ?_, fun u R hu hR hq => ?_, fun hnone l => ?_⟩
  · have h1 := hr.found u R hu hR hq
    exact Option.some.inj (h1.symm.trans (hr.found v R' hv hR' hq'))
  · have hRT : R ≠ T := by
      rintro rfl
      exact hr.away hq
    have hwait := hi.awaits (fun v hv => (hr.held v hv).2) hg hu hR hRT
    have hhome : home target = .threadTodo R := by rw [home, hr.found u R hu hR hq]; rfl
    refine ⟨fun l => by rw [hlist, hhome], hwait, ?_⟩
    -- only the sender's own stack changes, and only the new transaction
    obtain ⟨hlive, ⟨w, hw, hcall, hfrom⟩, hown⟩ := hwait
    have hth : (enqueue (makeCall s₁ T s.txn.next) T s.txn.next (home target)).thread.get R =
        s.thread.get R := by
      rw [← hk.thread]
      exact s₁.thread.get_modify_ne T R (fun y => { y with transactionStack := some s.txn.next }) hRT
    have hlt := (hi.txn.call_live w hcall).1
    have htxn : (enqueue (makeCall s₁ T s.txn.next) T s.txn.next (home target)).txn.get w =
        s.txn.get w := by
      rw [← hk.txn w hlt]
      exact s₁.txn.get_modify_ne s.txn.next w (fun x => { x with
        needReply := true, fromParent := (s₁.thread.get T).transactionStack }) hlt.ne
    exact ⟨hth ▸ hlive, ⟨w, hth ▸ hw, htxn ▸ hcall, htxn ▸ hfrom⟩, fun f hf => hown f (hth ▸ hf)⟩
  · have hth : target.thread = none := by
      by_contra hc
      obtain ⟨S, hS⟩ := Option.ne_none_iff_exists'.1 hc
      obtain ⟨hq, u, hu, hR⟩ := hr.named S hS
      exact hnone u S hu hR hq
    rw [hlist, home, hth]
    rfl

/-- Thread 1 calls the context manager with an object of its own, which thread 0 takes. -/
def calledClient : List Action :=
  [.openProc 50, .getThread 0 50, .setContextMgr 0 1000 true, .mmap 0 0x10000 0x8000 {},
    .openProc 100, .getThread 1 100, .mmap 1 0x10000 0x8000 {},
    .write 1 (.transaction { binderObject 0x1000 with flags := {} }) {},
    .read 0 256 0 false fun _ => false, .lookForWork 0, .resume 0 fun _ => false]

/-- Thread 0 calls that object: the call goes to thread 1, which waits. -/
theorem nested_call_routed_back :
    (afterActions (calledClient ++ [.write 0 (.transaction { handle := 1 }) {}])).queued
      (.threadTodo 1) 1 ∧
    AwaitsReply (afterActions (calledClient ++ [.write 0 (.transaction { handle := 1 }) {}])) 1 := by
  have hadm : (driverMachine layout32 .plain).Admits (fun s a => a.toOwnNode s = false) {}
      calledClient := by decide +kernel
  have hstep : (driverMachine layout32 .plain).step (afterActions calledClient)
      (.write 0 (.transaction { handle := 1 }) {}) =
        afterActions (calledClient ++ [.write 0 (.transaction { handle := 1 }) {}]) := by
    simp [afterActions, Machine.exec]
  have hcase := nested_call_routed (n := 1) (q := 1) (t := 1) (.exec (.start rfl) hadm)
    (by decide +kernel) (by decide +kernel) rfl (by rfl) (by decide +kernel) hstep
    (by decide +kernel) (by decide +kernel)
  obtain ⟨hlist, -, hwait⟩ :=
    hcase.2.1 0 1 ⟨0, by decide +kernel, .refl⟩ (by decide +kernel) (by decide +kernel)
  exact ⟨(hlist _).2 rfl, hwait⟩

end Binder

import BinderIpc.Lib.Run
import Mathlib.Data.List.Basic
import Mathlib.Logic.Function.Iterate

/-! Deferred work: `binder_defer_work` from any process, and `binder_deferred_func`
on the workqueue. An iteration of the worker begins where it takes a process from
the list under `binder_deferred_lock`; its actions come one by one, and flags may
be posted between any two of them. -/

namespace Binder

/-- `enum binder_deferred_state` -/
inductive DeferFlag
  | putFiles | flush | release
  deriving Repr, DecidableEq

abbrev DeferFlags := DeferFlag → Bool

instance : DecidableEq DeferFlags := fun a b =>
  decidable_of_iff (a .putFiles = b .putFiles ∧ a .flush = b .flush ∧ a .release = b .release)
    ⟨fun ⟨h1, h2, h3⟩ => funext fun f => by cases f <;> assumption, fun h => by simp [h]⟩

/-- What happened to one process. -/
inductive DeferEvent
  | mapped
  | posted (f : DeferFlag)
  /-- an iteration takes the process and its flags -/
  | drained (defer : DeferFlags)
  | acted (f : DeferFlag)
  deriving DecidableEq

/-- The fields of `struct binder_proc` that deferred work uses. -/
structure DeferProc where
  deferredWork : DeferFlags := fun _ => false
  files : Bool := false
  /-- `BUG_ON(proc->files)` was reached with files -/
  bug : Bool := false
  hist : List DeferEvent := []

namespace DeferProc

variable (x : DeferProc)

def note (e : DeferEvent) : DeferProc := { x with hist := x.hist ++ [e] }

/-- `proc->deferred_work |= defer` -/
def post (f : DeferFlag) : DeferProc :=
  { x with deferredWork := Function.update x.deferredWork f true }

def drain : DeferProc :=
  { x with deferredWork := fun _ => false, hist := x.hist ++ [.drained x.deferredWork] }

def act (f : DeferFlag) : DeferProc :=
  { x with
    files := if f = .putFiles then false else x.files
    bug := if f = .release then x.bug || x.files else x.bug
    hist := x.hist ++ [.acted f] }

/-- `binder_mmap` -/
def mmap : DeferProc := { x with files := true }

end DeferProc

/-- Where `binder_deferred_func` stands, with what is left of `defer`. -/
inductive DeferWorker
  | idle | top | acting (proc : ℕ) (defer : List DeferFlag)
  deriving Repr, DecidableEq

structure DeferState where
  procs : ℕ → DeferProc := fun _ => {}
  /-- `binder_deferred_list` -/
  list : List ℕ := []
  /-- `binder_deferred_work` is queued -/
  pending : Bool := false
  worker : DeferWorker := .idle

namespace DeferState

variable (s : DeferState)

/-- The call is written down before it is made. -/
def note (p : ℕ) (e : DeferEvent) : DeferState :=
  { s with procs := Function.update s.procs p ((s.procs p).note e) }

/-- `binder_defer_work` -/
def binderDeferWork (p : ℕ) (f : DeferFlag) : DeferState :=
  let s := { s with procs := Function.update s.procs p ((s.procs p).post f) }
  if p ∈ s.list then s else { s with list := p :: s.list, pending := true }

def mmap (p : ℕ) : DeferState := { s with procs := Function.update s.procs p (s.procs p).mmap }

/-- The order in which an iteration acts. -/
def actions (defer : DeferFlags) : List DeferFlag := [.putFiles, .flush, .release].filter defer

/-- The next step of `binder_deferred_func`. -/
def work : DeferState :=
  match s.worker with
  | .idle => if s.pending then { s with pending := false, worker := .top } else s
  | .top =>
    match s.list with
    | [] => { s with worker := .idle }
    | p :: list =>
      { s with
        procs := Function.update s.procs p (s.procs p).drain
        list := list
        worker := .acting p (actions (s.procs p).deferredWork) }
  | .acting _ [] => { s with worker := .top }
  | .acting p (f :: defer) =>
    { s with
      procs := Function.update s.procs p ((s.procs p).act f)
      worker := .acting p defer }

end DeferState

inductive DeferAct
  | post (p : ℕ) (f : DeferFlag) | mmap (p : ℕ) | work
  deriving Repr, DecidableEq

def deferMachine : Machine DeferState DeferAct where
  start s := s = {}
  step s
    | .post p f => (s.note p (.posted f)).binderDeferWork p f
    | .mmap p => (s.note p .mapped).mmap p
    | .work => s.work

/-- Nothing is called for a process after its release was posted. -/
def BeforeRelease (s : DeferState) : DeferAct → Prop
  | .post p _ => .posted .release ∉ (s.procs p).hist
  | .mmap p => .posted .release ∉ (s.procs p).hist
  | .work => True

instance (s : DeferState) : ∀ act, Decidable (BeforeRelease s act)
  | .post p _ => inferInstanceAs (Decidable (.posted .release ∉ (s.procs p).hist))
  | .mmap p => inferInstanceAs (Decidable (.posted .release ∉ (s.procs p).hist))
  | .work => .isTrue trivial

/-! One process -/

/-- The flags that were posted since the last iteration. -/
def postedSince (h : List DeferEvent) : DeferFlags :=
  h.foldl (fun d e => match e with
    | .posted f => Function.update d f true
    | .drained _ => fun _ => false
    | .mapped | .acted _ => d) fun _ => false

/-- The events of an iteration that has the flag. -/
def Iteration (f : DeferFlag) (h : List DeferEvent) : Prop :=
  ∃ d h', h = .drained d :: h' ∧ d f = true ∧ ∀ d', .drained d' ∉ h'

/-- An iteration that starts in `h` acts on the flag. -/
def Served (f : DeferFlag) (h : List DeferEvent) : Prop :=
  ∃ h0 h1 h2, h = h0 ++ (h1 ++ .acted f :: h2) ∧ Iteration f h1

/-- `todo` is what an iteration under way has left to do. -/
structure DeferProcInv (x : DeferProc) (todo : List DeferFlag) : Prop where
  since : x.deferredWork = postedSince x.hist
  drained : ∀ h1 d h2, x.hist = h1 ++ .drained d :: h2 → d = postedSince h1
  acted : ∀ h1 f h2, x.hist = h1 ++ .acted f :: h2 →
    ∃ h0 h3, h1 = h0 ++ h3 ∧ Iteration f h3 ∧ .acted f ∉ h3
  current : ∀ f ∈ todo, ∃ h0 h1, x.hist = h0 ++ h1 ∧ Iteration f h1 ∧ .acted f ∉ h1
  served : ∀ h1 f h2, x.hist = h1 ++ .posted f :: h2 → Served f h2 ∨ x.deferredWork f = true ∨
    (f ∈ todo ∧ ∃ h3 h4, h2 = h3 ++ h4 ∧ Iteration f h4)
  order : todo.Sublist [.putFiles, .flush, .release]
  posting : x.deferredWork .release = true → .posted .release ∈ x.hist
  releasing : .release ∈ todo → .posted .release ∈ x.hist ∧ ∀ f, x.deferredWork f = false
  released : .acted .release ∈ x.hist → todo = [] ∧ (∀ f, x.deferredWork f = false) ∧
    .posted .release ∈ x.hist
  last : ∀ h1 h2, x.hist = h1 ++ .acted .release :: h2 → h2 = []
  files : x.files = true → ∃ h1 h2, x.hist = h1 ++ .mapped :: h2 ∧
    (.posted .putFiles ∈ h2 → x.deferredWork .putFiles = true ∨ .putFiles ∈ todo)
  bug : x.bug = true → .acted .release ∈ x.hist ∧
    ∃ h1 h2, x.hist = h1 ++ .mapped :: h2 ∧ .posted .putFiles ∉ h2

section

variable {x : DeferProc} {todo : List DeferFlag} {f : DeferFlag} {h h1 h2 : List DeferEvent}
  {e e' : DeferEvent}

theorem postedSince_posted (h : List DeferEvent) (f : DeferFlag) :
    postedSince (h ++ [.posted f]) = Function.update (postedSince h) f true := List.foldl_append ..

theorem postedSince_drained (h : List DeferEvent) (d : DeferFlags) :
    postedSince (h ++ [.drained d]) = fun _ => false := List.foldl_append ..

theorem postedSince_acted (h : List DeferEvent) (f : DeferFlag) :
    postedSince (h ++ [.acted f]) = postedSince h := List.foldl_append ..

theorem postedSince_mapped (h : List DeferEvent) :
    postedSince (h ++ [.mapped]) = postedSince h := List.foldl_append ..

/-- An event of a longer history is the last one, or an event of the shorter. -/
theorem snoc_split (heq : h ++ [e] = h1 ++ e' :: h2) :
    (h2 = [] ∧ h = h1 ∧ e = e') ∨ ∃ h3, h2 = h3 ++ [e] ∧ h = h1 ++ e' :: h3 := by
  cases List.eq_nil_or_concat h2 with
  | inl hnil =>
    subst hnil
    have := List.append_inj' heq rfl
    exact .inl ⟨rfl, this.1, by simpa using this.2⟩
  | inr hcons =>
    obtain ⟨h3, e3, rfl⟩ := hcons
    rw [List.concat_eq_append, ← List.cons_append, ← List.append_assoc] at heq
    have := List.append_inj' heq rfl
    refine .inr ⟨h3, ?_, this.1⟩
    rw [List.concat_eq_append, this.2]

theorem snoc_of_ne (heq : h ++ [e] = h1 ++ e' :: h2) (hne : e ≠ e') :
    ∃ h3, h2 = h3 ++ [e] ∧ h = h1 ++ e' :: h3 :=
  (snoc_split heq).resolve_left fun hlast => hne hlast.2.2

theorem Served.snoc (hs : Served f h) (e : DeferEvent) : Served f (h ++ [e]) := by
  obtain ⟨h0, h1, h2, rfl, hit⟩ := hs
  exact ⟨h0, h1, h2 ++ [e], by simp, hit⟩

/-- An iteration goes on until the next one starts. -/
theorem Iteration.snoc (hit : Iteration f h) (he : ∀ d, e ≠ .drained d) :
    Iteration f (h ++ [e]) := by
  obtain ⟨d, h', rfl, hd, hno⟩ := hit
  refine ⟨d, h' ++ [e], rfl, hd, fun d' hmem => ?_⟩
  rcases List.mem_append.1 hmem with hmem | hmem
  · exact hno d' hmem
  · exact he d' (List.mem_singleton.1 hmem).symm

/-! What an event of another kind leaves as it was -/

theorem DeferProcInv.drained_snoc (hi : DeferProcInv x todo) (he : ∀ d, e ≠ .drained d) :
    ∀ h1 d h2, x.hist ++ [e] = h1 ++ .drained d :: h2 → d = postedSince h1 := by
  intro h1 d h2 heq
  obtain ⟨h3, -, hold⟩ := snoc_of_ne heq (he d)
  exact hi.drained h1 d h3 hold

theorem DeferProcInv.acted_snoc (hi : DeferProcInv x todo) (he : ∀ f, e ≠ .acted f) :
    ∀ h1 f h2, x.hist ++ [e] = h1 ++ .acted f :: h2 →
      ∃ h0 h3, h1 = h0 ++ h3 ∧ Iteration f h3 ∧ .acted f ∉ h3 := by
  intro h1 g h2 heq
  obtain ⟨h3, -, hold⟩ := snoc_of_ne heq (he g)
  exact hi.acted h1 g h3 hold

theorem DeferProcInv.current_snoc (hi : DeferProcInv x todo) (he : ∀ d, e ≠ .drained d) (hf : f ∈ todo)
    (hne : e ≠ .acted f) :
    ∃ h0 h1, x.hist ++ [e] = h0 ++ h1 ∧ Iteration f h1 ∧ .acted f ∉ h1 := by
  obtain ⟨h0, h1, heq, hit, hno⟩ := hi.current f hf
  refine ⟨h0, h1 ++ [e], by rw [heq, List.append_assoc], hit.snoc he, fun hmem => ?_⟩
  rcases List.mem_append.1 hmem with hmem | hmem
  · exact hno hmem
  · exact hne (List.mem_singleton.1 hmem).symm

/-- Nothing was released before, and this event does not release. -/
theorem last_snoc (hlive : .acted .release ∉ x.hist)
    (hne : e ≠ .acted .release) :
    ∀ h1 h2, x.hist ++ [e] = h1 ++ .acted .release :: h2 → h2 = [] := by
  intro h1 h2 heq
  obtain ⟨h3, -, hold⟩ := snoc_of_ne heq hne
  exact absurd (by simp [hold]) hlive

theorem deferProcInv_new : DeferProcInv {} [] where
  since := rfl
  drained := by simp
  acted := by simp
  current := by simp
  served := by simp
  order := List.nil_sublist _
  posting := by simp
  releasing := by simp
  released := by simp
  last := by simp
  files := by simp
  bug := by simp

theorem DeferProcInv.post (hi : DeferProcInv x todo) (hok : .posted .release ∉ x.hist)
    (f : DeferFlag) : DeferProcInv ((x.note (.posted f)).post f) todo := by
  have hset : ∀ g, x.deferredWork g = true → Function.update x.deferredWork f true g = true :=
    fun g hg => by
      rw [Function.update_apply]
      split_ifs
      · rfl
      · exact hg
  refine ⟨?_, ?_, ?_, ?_, ?_, hi.order, ?_, ?_, ?_, ?_, ?_, ?_⟩
  · change Function.update x.deferredWork f true = postedSince (x.hist ++ [.posted f])
    rw [postedSince_posted, hi.since]
  · exact hi.drained_snoc fun d he => by cases he
  · exact hi.acted_snoc fun g he => by cases he
  · exact fun g hg => hi.current_snoc (fun d he => by cases he) hg fun he => by cases he
  · intro h1 g h2 heq
    rcases snoc_split heq with ⟨-, -, he⟩ | ⟨h3, rfl, hold⟩
    · cases he
      exact .inr (.inl (Function.update_self ..))
    · rcases hi.served h1 g h3 hold with hs | hg | ⟨hg, h4, h5, rfl, hit⟩
      · exact .inl (hs.snoc _)
      · exact .inr (.inl (hset g hg))
      · exact .inr (.inr ⟨hg, h4, h5 ++ [.posted f], List.append_assoc .., hit.snoc fun d he => (by cases he)⟩)
  · intro hr
    by_cases hf : f = .release
    · exact List.mem_append_right _ (by simp [hf])
    · have hr : Function.update x.deferredWork f true .release = true := hr
      rw [Function.update_of_ne (Ne.symm hf)] at hr
      exact absurd (hi.posting hr) hok
  · exact fun hr => absurd (hi.releasing hr).1 hok
  · intro hr
    have hold : .acted .release ∈ x.hist := by simpa [DeferProc.post, DeferProc.note] using hr
    exact absurd (hi.released hold).2.2 hok
  · exact last_snoc (fun hr => hok (hi.released hr).2.2) fun he => by cases he
  · intro hfiles
    obtain ⟨h1, h2, heq, hput⟩ := hi.files hfiles
    refine ⟨h1, h2 ++ [.posted f], by rw [DeferProc.post, DeferProc.note, heq, List.append_assoc]; rfl,
      fun hmem => ?_⟩
    rcases List.mem_append.1 hmem with hmem | hmem
    · exact (hput hmem).imp (hset _) id
    · obtain rfl : DeferFlag.putFiles = f := by simpa using hmem
      have hself : Function.update x.deferredWork .putFiles true .putFiles = true :=
        Function.update_self ..
      exact .inl hself
  · exact fun hbug => absurd (hi.released (hi.bug hbug).1).2.2 hok

theorem DeferProcInv.mmap (hi : DeferProcInv x todo) (hok : .posted .release ∉ x.hist) :
    DeferProcInv (x.note .mapped).mmap todo := by
  refine ⟨?_, ?_, ?_, ?_, ?_, hi.order, ?_, ?_, ?_, ?_, ?_, ?_⟩
  · change x.deferredWork = postedSince (x.hist ++ [.mapped])
    rw [postedSince_mapped, hi.since]
  · exact hi.drained_snoc fun d he => by cases he
  · exact hi.acted_snoc fun g he => by cases he
  · exact fun g hg => hi.current_snoc (fun d he => by cases he) hg fun he => by cases he
  · intro h1 g h2 heq
    rcases snoc_split heq with ⟨-, -, he⟩ | ⟨h3, rfl, hold⟩
    · cases he
    · rcases hi.served h1 g h3 hold with hs | hg | ⟨hg, h4, h5, rfl, hit⟩
      · exact .inl (hs.snoc _)
      · exact .inr (.inl hg)
      · exact .inr (.inr ⟨hg, h4, h5 ++ [.mapped], List.append_assoc ..,
          hit.snoc fun d he => (by cases he)⟩)
  · exact fun hr => absurd (hi.posting hr) hok
  · exact fun hr => absurd (hi.releasing hr).1 hok
  · intro hr
    have hold : .acted .release ∈ x.hist := by simpa [DeferProc.mmap, DeferProc.note] using hr
    exact absurd (hi.released hold).2.2 hok
  · exact last_snoc (fun hr => hok (hi.released hr).2.2) fun he => by cases he
  · exact fun _ => ⟨x.hist, [], rfl, fun hmem => absurd hmem List.not_mem_nil⟩
  · exact fun hbug => absurd (hi.released (hi.bug hbug).1).2.2 hok

theorem mem_actions {d : DeferFlags} {f : DeferFlag} : f ∈ DeferState.actions d ↔ d f = true := by
  rw [DeferState.actions, List.mem_filter]
  cases f <;> simp

theorem DeferProcInv.drain (hi : DeferProcInv x []) (hsome : ∃ f, x.deferredWork f = true) :
    DeferProcInv x.drain (DeferState.actions x.deferredWork) := by
  have hlive : .acted .release ∉ x.hist := fun hr => by
    obtain ⟨f, hf⟩ := hsome
    exact absurd (((hi.released hr).2.1 f).symm.trans hf) (by decide)
  have hiter : ∀ g, x.deferredWork g = true → Iteration g [.drained x.deferredWork] :=
    fun g hg => ⟨_, [], rfl, hg, fun _ => List.not_mem_nil⟩
  refine ⟨?_, ?_, ?_, ?_, ?_, List.filter_sublist, ?_, ?_, ?_, ?_, ?_, ?_⟩
  · exact (postedSince_drained x.hist x.deferredWork).symm
  · intro h1 d h2 heq
    rcases snoc_split heq with ⟨-, rfl, he⟩ | ⟨h3, -, hold⟩
    · cases he
      exact hi.since
    · exact hi.drained h1 d h3 hold
  · exact hi.acted_snoc fun g he => by cases he
  · exact fun g hg => ⟨x.hist, _, rfl, hiter g (mem_actions.1 hg), by simp⟩
  · intro h1 g h2 heq
    rcases snoc_split heq with ⟨-, -, he⟩ | ⟨h3, rfl, hold⟩
    · cases he
    · rcases hi.served h1 g h3 hold with hs | hg | ⟨hg, -⟩
      · exact .inl (hs.snoc _)
      · exact .inr (.inr ⟨mem_actions.2 hg, h3, _, rfl, hiter g hg⟩)
      · exact absurd hg List.not_mem_nil
  · exact fun hr => absurd hr Bool.false_ne_true
  · exact fun hr => ⟨List.mem_append_left _ (hi.posting (mem_actions.1 hr)), fun _ => rfl⟩
  · intro hr
    have hold : .acted .release ∈ x.hist := by simpa [DeferProc.drain] using hr
    exact absurd hold hlive
  · exact last_snoc hlive fun he => by cases he
  · intro hfiles
    obtain ⟨h1, h2, heq, hput⟩ := hi.files hfiles
    refine ⟨h1, h2 ++ [.drained x.deferredWork], by rw [DeferProc.drain, heq, List.append_assoc]; rfl,
      fun hmem => ?_⟩
    rcases List.mem_append.1 hmem with hmem | hmem
    · rcases hput hmem with hd | hd
      · exact .inr (mem_actions.2 hd)
      · exact absurd hd List.not_mem_nil
    · simp at hmem
  · exact fun hbug => absurd (hi.bug hbug).1 hlive

theorem DeferProcInv.act (hi : DeferProcInv x (f :: todo)) : DeferProcInv (x.act f) todo := by
  have hlive : .acted .release ∉ x.hist := fun hr => List.cons_ne_nil _ _ (hi.released hr).1
  have hnodup : (f :: todo).Nodup := List.Nodup.sublist hi.order (by decide)
  have hf : f ∉ todo := (List.nodup_cons.1 hnodup).1
  -- nothing comes after the release
  have hlast : f = .release → todo = [] := fun hr => by
    subst hr
    have hsub := hi.order
    cases todo with
    | nil => rfl
    | cons g todo =>
      cases g <;> simp [List.sublist_cons_iff] at hsub
  refine ⟨?_, ?_, ?_, ?_, ?_, (List.sublist_cons_self f todo).trans hi.order, ?_, ?_, ?_, ?_, ?_, ?_⟩
  · change x.deferredWork = postedSince (x.hist ++ [.acted f])
    rw [postedSince_acted, hi.since]
  · exact hi.drained_snoc fun d he => by cases he
  · intro h1 g h2 heq
    rcases snoc_split heq with ⟨-, rfl, he⟩ | ⟨h3, -, hold⟩
    · cases he
      exact hi.current f List.mem_cons_self
    · exact hi.acted h1 g h3 hold
  · intro g hg
    have hne : f ≠ g := fun he => hf (he ▸ hg)
    exact hi.current_snoc (fun d he => by cases he) (List.mem_cons_of_mem f hg) fun he =>
      hne (by simpa using he)
  · intro h1 g h2 heq
    rcases snoc_split heq with ⟨-, -, he⟩ | ⟨h3, rfl, hold⟩
    · cases he
    · rcases hi.served h1 g h3 hold with hs | hg | ⟨hg, h4, h5, rfl, hit⟩
      · exact .inl (hs.snoc _)
      · exact .inr (.inl hg)
      · by_cases hgf : g = f
        · subst hgf
          exact .inl ⟨h4, h5, [], List.append_assoc .., hit⟩
        · refine .inr (.inr ⟨List.mem_of_ne_of_mem hgf hg, h4, h5 ++ [.acted f],
            List.append_assoc .., hit.snoc fun d he => (by cases he)⟩)
  · exact fun hr => List.mem_append_left _ (hi.posting hr)
  · intro hr
    have hold := hi.releasing (List.mem_cons_of_mem f hr)
    exact ⟨List.mem_append_left _ hold.1, hold.2⟩
  · intro hr
    have hrel : f = .release := by
      rcases List.mem_append.1 hr with hr | hr
      · exact absurd hr hlive
      · exact (by simpa using hr : DeferFlag.release = f).symm
    have hold := hi.releasing (hrel ▸ List.mem_cons_self)
    exact ⟨hlast hrel, hold.2, List.mem_append_left _ hold.1⟩
  · intro h1 h2 heq
    rcases snoc_split heq with ⟨hnil, -, -⟩ | ⟨h3, -, hold⟩
    · exact hnil
    · exact absurd (by simp [hold]) hlive
  · intro hfiles
    by_cases hput : f = .putFiles
    · have hnone : (x.act f).files = false := if_pos hput
      exact absurd (hnone.symm.trans hfiles) (by decide)
    · have hsame : (x.act f).files = x.files := if_neg hput
      obtain ⟨h1, h2, heq, hp⟩ := hi.files (hsame.symm.trans hfiles)
      refine ⟨h1, h2 ++ [.acted f], by rw [DeferProc.act, heq, List.append_assoc]; rfl, fun hmem => ?_⟩
      have hmem : .posted .putFiles ∈ h2 := by simpa using hmem
      exact (hp hmem).imp id fun hd => List.mem_of_ne_of_mem (Ne.symm hput) hd
  · intro hbug
    by_cases hrel : f = .release
    · have hsplit : (x.bug || x.files) = true := by
        have : (x.act f).bug = (x.bug || x.files) := if_pos hrel
        exact this.symm.trans hbug
      have hall := (hi.releasing (hrel ▸ List.mem_cons_self)).2
      rcases Bool.or_eq_true_iff.1 hsplit with hb | hb
      · exact absurd (hi.bug hb).1 hlive
      · obtain ⟨h1, h2, heq, hp⟩ := hi.files hb
        refine ⟨List.mem_append_right _ (by simp [hrel]), h1, h2 ++ [.acted f],
          by rw [DeferProc.act, heq, List.append_assoc]; rfl, fun hmem => ?_⟩
        have hmem : .posted .putFiles ∈ h2 := by simpa using hmem
        rcases hp hmem with hd | hd
        · exact absurd ((hall _).symm.trans hd) (by decide)
        · rw [hrel, hlast hrel] at hd
          simp at hd
    · have hsame : (x.act f).bug = x.bug := if_neg hrel
      exact absurd (hi.bug (hsame.symm.trans hbug)).1 hlive

end

/-! All processes -/

/-- What the worker has left to do for a process. -/
def DeferWorker.todo : DeferWorker → ℕ → List DeferFlag
  | idle, _ => []
  | top, _ => []
  | acting q defer, p => if p = q then defer else []

structure DeferInv (s : DeferState) : Prop where
  procs : ∀ p, DeferProcInv (s.procs p) (s.worker.todo p)
  nodup : s.list.Nodup
  linked : ∀ p, p ∈ s.list ↔ ∃ f, (s.procs p).deferredWork f = true
  /-- the worker is awake, or will be -/
  awake : s.list ≠ [] → s.pending = true ∨ s.worker ≠ .idle

section

variable {s : DeferState}

/-- One process changes. -/
theorem DeferInv.update (hi : DeferInv s) {p : ℕ} {x : DeferProc} {todo : List DeferFlag}
    {list : List ℕ} {pending : Bool} {worker : DeferWorker} (hx : DeferProcInv x todo)
    (htodo : worker.todo p = todo) (hother : ∀ q, q ≠ p → worker.todo q = s.worker.todo q)
    (hnodup : list.Nodup) (hp : p ∈ list ↔ ∃ f, x.deferredWork f = true)
    (hmem : ∀ q, q ≠ p → (q ∈ list ↔ q ∈ s.list))
    (hawake : list ≠ [] → pending = true ∨ worker ≠ .idle) :
    DeferInv ⟨Function.update s.procs p x, list, pending, worker⟩ where
  procs q := by
    by_cases hq : q = p
    · subst hq
      simpa [htodo] using hx
    · simpa [hq, hother q hq] using hi.procs q
  nodup := hnodup
  linked q := by
    by_cases hq : q = p
    · subst hq
      simpa using hp
    · simpa [hq, hmem q hq] using hi.linked q
  awake := hawake

theorem DeferInv.post (hi : DeferInv s) {p : ℕ} (hok : .posted .release ∉ (s.procs p).hist)
    (f : DeferFlag) : DeferInv ((s.note p (.posted f)).binderDeferWork p f) := by
  have hset : ∃ g, (((s.procs p).note (.posted f)).post f).deferredWork g = true :=
    ⟨f, Function.update_self ..⟩
  unfold DeferState.binderDeferWork DeferState.note
  dsimp only
  simp only [Function.update_self, Function.update_idem]
  split_ifs with hp
  · exact hi.update ((hi.procs p).post hok f) rfl (fun _ _ => rfl) hi.nodup (iff_of_true hp hset)
      (fun _ _ => Iff.rfl) hi.awake
  · exact hi.update ((hi.procs p).post hok f) rfl (fun _ _ => rfl)
      (List.nodup_cons.2 ⟨hp, hi.nodup⟩) (iff_of_true List.mem_cons_self hset)
      (fun q hq => by simp [hq]) fun _ => .inl rfl

theorem DeferInv.mmap (hi : DeferInv s) {p : ℕ} (hok : .posted .release ∉ (s.procs p).hist) :
    DeferInv ((s.note p .mapped).mmap p) := by
  unfold DeferState.mmap DeferState.note
  dsimp only
  simp only [Function.update_self, Function.update_idem]
  exact hi.update ((hi.procs p).mmap hok) rfl (fun _ _ => rfl) hi.nodup (hi.linked p)
    (fun _ _ => Iff.rfl) hi.awake

theorem DeferInv.work (hi : DeferInv s) : DeferInv s.work := by
  unfold DeferState.work
  cases hw : s.worker with
  | idle =>
    dsimp only
    split_ifs
    · refine ⟨fun p => ?_, hi.nodup, hi.linked, fun _ => .inr (by simp)⟩
      have := hi.procs p
      rwa [hw] at this
    · exact hi
  | top =>
    have hproc : ∀ p, DeferProcInv (s.procs p) [] := fun p => by
      have := hi.procs p
      rwa [hw] at this
    cases hl : s.list with
    | nil =>
      refine ⟨hproc, List.nodup_nil, fun p => ?_, fun h => absurd rfl h⟩
      have := hi.linked p
      rwa [hl] at this
    | cons p list =>
      have hnd := hi.nodup
      rw [hl, List.nodup_cons] at hnd
      have hsome := (hi.linked p).1 (hl ▸ List.mem_cons_self)
      refine hi.update ((hproc p).drain hsome) (if_pos rfl) (fun q hq => ?_) hnd.2
        (iff_of_false hnd.1 fun ⟨f, hf⟩ => absurd hf Bool.false_ne_true) (fun q hq => ?_)
        fun _ => .inr (by simp)
      · rw [hw]
        exact if_neg hq
      · rw [hl]
        simp [hq]
  | acting p defer =>
    have hproc := hi.procs p
    rw [hw] at hproc
    have hproc : DeferProcInv (s.procs p) defer := by simpa [DeferWorker.todo] using hproc
    cases defer with
    | nil =>
      refine ⟨fun q => ?_, hi.nodup, hi.linked, fun _ => .inr (by simp)⟩
      have htodo : (DeferWorker.acting p []).todo q = [] := ite_self _
      have := hi.procs q
      rwa [hw, htodo] at this
    | cons f defer =>
      refine hi.update hproc.act (if_pos rfl) (fun q hq => ?_) hi.nodup (hi.linked p)
        (fun _ _ => Iff.rfl) fun _ => .inr (by simp)
      rw [hw]
      exact (if_neg hq).trans (if_neg hq).symm

theorem DeferInv.step (hi : DeferInv s) {act : DeferAct} (hok : BeforeRelease s act) :
    DeferInv (deferMachine.step s act) := by
  cases act with
  | post p f => exact hi.post hok f
  | mmap p => exact hi.mmap hok
  | work => exact hi.work

theorem deferInv_reach (h : deferMachine.Reach BeforeRelease s) : DeferInv s := by
  refine h.invariant (I := DeferInv) (fun s hs => ?_) fun s act hi hok => hi.step hok
  cases hs
  exact ⟨fun _ => deferProcInv_new, List.nodup_nil, by simp, fun h => absurd rfl h⟩

end

namespace DeferState

/-- The worker sleeps and no run of it is queued. -/
def Quiet (s : DeferState) : Prop := s.worker = .idle ∧ s.pending = false

instance (s : DeferState) : Decidable s.Quiet := inferInstanceAs (Decidable (_ ∧ _))

/-- Deferred work is neither lost nor repeated. -/
structure Sound (s : DeferState) : Prop where
  /-- an iteration takes the flags that were posted since the previous one -/
  fresh : ∀ p h1 d h2, (s.procs p).hist = h1 ++ .drained d :: h2 → d = postedSince h1
  /-- it acts on each of them once, and on no other -/
  acted : ∀ p h1 f h2, (s.procs p).hist = h1 ++ .acted f :: h2 →
    ∃ h0 h3, h1 = h0 ++ h3 ∧ Iteration f h3 ∧ .acted f ∉ h3
  served : s.Quiet → ∀ p h1 f h2, (s.procs p).hist = h1 ++ .posted f :: h2 → Served f h2
  /-- nothing happens to a process after its release -/
  last : ∀ p h1 h2, (s.procs p).hist = h1 ++ .acted .release :: h2 → h2 = []
  putFiles : ∀ p h1 h2, (s.procs p).hist = h1 ++ .posted .putFiles :: h2 →
    .acted .release ∈ h2 → Served .putFiles h2
  /-- `BUG_ON(proc->files)` needs a map that no `PUT_FILES` followed -/
  bug : ∀ p, (s.procs p).bug = true →
    ∃ h1 h2, (s.procs p).hist = h1 ++ .mapped :: h2 ∧ .posted .putFiles ∉ h2

/-- What the worker has in front of it. -/
def workLeft (s : DeferState) : ℕ :=
  6 * s.list.length + (if s.pending then 2 else 0) + match s.worker with
    | .idle => 0
    | .top => 1
    | .acting _ defer => 2 + defer.length

theorem workLeft_work {s : DeferState} (h : ¬s.Quiet) : s.work.workLeft < s.workLeft := by
  unfold work workLeft
  cases hw : s.worker with
  | idle =>
    have hp : s.pending = true := by simpa [Quiet, hw] using h
    simp [hp]
  | top =>
    cases hl : s.list with
    | nil => simp
    | cons p list =>
      have hlen : (actions (s.procs p).deferredWork).length ≤ 3 := List.length_filter_le ..
      simp only [List.length_cons]
      omega
  | acting p defer =>
    cases defer with
    | nil => simp
    | cons f defer => simp

/-- The worker's own steps come to an end. -/
theorem exists_quiet (s : DeferState) : ∃ n, (work^[n] s).Quiet := by
  induction hm : s.workLeft using Nat.strongRecOn generalizing s with
  | ind m ih =>
    by_cases hq : s.Quiet
    · exact ⟨0, hq⟩
    · obtain ⟨n, hn⟩ := ih s.work.workLeft (hm ▸ workLeft_work hq) s.work rfl
      exact ⟨n + 1, hn⟩

end DeferState

theorem deferred_work_sound {s : DeferState} (h : deferMachine.Reach BeforeRelease s) :
    s.Sound ∧ ∃ n, (DeferState.work^[n] s).Quiet := by
  refine ⟨?_, s.exists_quiet⟩
  have hi := deferInv_reach h
  refine ⟨fun p => (hi.procs p).drained, fun p => (hi.procs p).acted, fun hq p h1 f h2 heq => ?_,
    fun p => (hi.procs p).last, fun p h1 h2 heq hrel => ?_, fun p hb => ((hi.procs p).bug hb).2⟩
  · have hempty : s.list = [] := by
      by_contra hne
      rcases hi.awake hne with hp | hw
      · exact absurd (hq.2.symm.trans hp) (by decide)
      · exact hw hq.1
    rcases (hi.procs p).served h1 f h2 heq with hs | hf | ⟨hf, -⟩
    · exact hs
    · have := (hi.linked p).2 ⟨f, hf⟩
      rw [hempty] at this
      exact absurd this List.not_mem_nil
    · rw [hq.1] at hf
      exact absurd hf List.not_mem_nil
  · obtain ⟨htodo, hdw, -⟩ := (hi.procs p).released (by simp [heq, hrel])
    rcases (hi.procs p).served h1 _ h2 heq with hs | hf | ⟨hf, -⟩
    · exact hs
    · exact absurd ((hdw _).symm.trans hf) (by decide)
    · rw [htodo] at hf
      exact absurd hf List.not_mem_nil

/-- Flags are posted while the worker acts on earlier ones. -/
def deferRun : List DeferAct :=
  [.mmap 1, .post 1 .flush, .work, .work, .post 1 .putFiles, .post 2 .flush, .work,
    .post 1 .release] ++ List.replicate 12 .work

theorem deferred_work_sound_run :
    (deferMachine.exec {} deferRun).Sound ∧ (deferMachine.exec {} deferRun).Quiet ∧
      ((deferMachine.exec {} deferRun).procs 1).bug = false ∧
      (((deferMachine.exec {} deferRun).procs 1).hist.filter fun e => e matches .posted _ | .acted _) =
        [.posted .flush, .posted .putFiles, .acted .flush, .posted .release, .acted .putFiles,
          .acted .release] := by
  have h0 : deferMachine.Reach BeforeRelease {} := .start rfl
  have hadm : deferMachine.Admits BeforeRelease {} deferRun := by
    decide +kernel
  exact ⟨(deferred_work_sound (h0.exec hadm)).1, by decide +kernel, by decide +kernel,
    by decide +kernel⟩

end Binder

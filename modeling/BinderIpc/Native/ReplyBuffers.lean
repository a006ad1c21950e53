import BinderIpc.Native.CallerRuns

/-! Which buffers the threads of a process give back. A reply parcel may be destroyed on another
thread than the one that received it: `BC_FREE_BUFFER` goes into the `mOut` of the thread that
destroys it. -/

namespace Binder

/-! One thread -/

namespace ThreadEvent

/-- The buffer that the driver has handed over. -/
def received : ThreadEvent → Option (BitVec 64)
  | began tr | replied tr => some tr.buffer
  | _ => none

def freed : ThreadEvent → Option (BitVec 64)
  | wrote (.freeBuffer b) => some b
  | _ => none

/-- The buffer of a parcel that another thread had. -/
def taken : ThreadEvent → Option (BitVec 64)
  | took b => some b
  | _ => none

def given : ThreadEvent → Option (BitVec 64)
  | gave b => some b
  | _ => none

end ThreadEvent

def Running.buffer (r : Running) : BitVec 64 := r.tr.buffer

/-- What a thread received or took over was given back or handed on, or a reply parcel or a running
transaction still has it. -/
def BuffersHeld (v : ThreadView) : Prop :=
  (v.log.filterMap ThreadEvent.received ++ v.log.filterMap ThreadEvent.taken).Perm
    (v.log.filterMap ThreadEvent.freed ++ (v.log.filterMap ThreadEvent.given ++
      (v.held ++ v.running.map Running.buffer)))

section

variable {own : Identity} {given : ThreadView → BitVec 64 → Prop} {sent : TransactionWords → Prop}
  {handed : Prop}

/-- An event that moves no buffer. -/
def ThreadEvent.Still (e : ThreadEvent) : Prop :=
  e.received = none ∧ e.freed = none ∧ e.taken = none ∧ e.given = none

theorem still_quiet {e : ThreadEvent} (he : e.quiet = true) : e.Still := by
  cases e with
  | wrote c =>
    cases c with
    | freeBuffer buffer => cases he
    | _ => exact ⟨rfl, rfl, rfl, rfl⟩
  | _ => first | exact ⟨rfl, rfl, rfl, rfl⟩ | cases he

theorem Sets.still {c c' : CallerState} {P : BitVec 64 → Prop} {e : ThreadEvent}
    (h : Sets own P c e c') : e.Still := by
  cases h <;> exact ⟨rfl, rfl, rfl, rfl⟩

/-- The events of a move receive `got`, take over `took`, free `freed` and hand on `gave`. -/
theorem BuffersHeld.log {v v' : ThreadView} {es : List ThreadEvent} (hi : BuffersHeld v)
    (hlog : v'.log = v.log ++ es) (got took freed gave : List (BitVec 64))
    (hes : es.filterMap ThreadEvent.received = got ∧ es.filterMap ThreadEvent.taken = took ∧
      es.filterMap ThreadEvent.freed = freed ∧ es.filterMap ThreadEvent.given = gave)
    (hcount : ∀ b, (got ++ took ++ (v.held ++ v.running.map Running.buffer)).count b =
      (freed ++ gave ++ (v'.held ++ v'.running.map Running.buffer)).count b) : BuffersHeld v' := by
  obtain ⟨rfl, rfl, rfl, rfl⟩ := hes
  unfold BuffersHeld at hi ⊢
  rw [List.perm_iff_count] at hi ⊢
  intro b
  have hbefore := hi b
  have hnew := hcount b
  simp only [hlog, List.filterMap_append, List.count_append] at hbefore hnew ⊢
  omega

theorem BuffersHeld.still {v v' : ThreadView} {e : ThreadEvent} (hi : BuffersHeld v) (he : e.Still)
    (hlog : v'.log = v.log ++ [e]) (hheld : v'.held = v.held)
    (hrunning : v'.running.map Running.buffer = v.running.map Running.buffer) : BuffersHeld v' := by
  obtain ⟨h1, h2, h3, h4⟩ := he
  apply hi.log hlog [] [] [] []
  · simp [h1, h2, h3, h4]
  · intro b
    simp [hheld, hrunning]

theorem Move.buffers {v v' : ThreadView} (h : Move own given sent handed v v') (hi : BuffersHeld v) :
    BuffersHeld v' := by
  cases h with
  | quiet h => exact hi.still (still_quiet h) rfl rfl rfl
  | sets h => exact hi.still h.still rfl rfl rfl
  | @began tr h =>
    apply hi.log rfl [tr.buffer] [] [] [] ⟨rfl, rfl, rfl, rfl⟩
    intro b
    simp only [List.count_append, List.map_cons, List.count_cons, List.count_nil, Running.buffer]
    omega
  | answered hr h => exact hi.still ⟨rfl, rfl, rfl, rfl⟩ rfl rfl (by simp [hr, Running.buffer])
  | @ended r rs hr h =>
    apply hi.log rfl [] [] [r.tr.buffer] [] ⟨rfl, rfl, rfl, rfl⟩
    intro b
    simp only [hr, List.count_append, List.map_cons, List.count_cons, List.count_nil, Running.buffer]
    omega
  | kept tr =>
    apply hi.log rfl [tr.buffer] [] [] [] ⟨rfl, rfl, rfl, rfl⟩
    intro b
    simp only [List.count_append, List.count_cons, List.count_nil]
    omega
  | freed tr => exact hi.log rfl [tr.buffer] [] [tr.buffer] [] ⟨rfl, rfl, rfl, rfl⟩ fun _ => rfl
  | @destroyed b h =>
    apply hi.log rfl [] [] [b] [] ⟨rfl, rfl, rfl, rfl⟩
    intro b'
    have hheld := (List.perm_cons_erase h).count_eq b'
    simp only [List.count_append, List.count_cons, List.count_nil] at hheld ⊢
    omega
  | took b hh =>
    apply hi.log rfl [] [b] [] [] ⟨rfl, rfl, rfl, rfl⟩
    intro b'
    simp only [List.count_append, List.count_cons, List.count_nil]
    omega
  | @gave b h hh =>
    apply hi.log rfl [] [] [] [b] ⟨rfl, rfl, rfl, rfl⟩
    intro b'
    have hheld := (List.perm_cons_erase h).count_eq b'
    simp only [List.count_append, List.count_cons, List.count_nil] at hheld ⊢
    omega

theorem buffersHeld_thread {t : IpcThread} (h : (ipcThreadMachine own).Reach (fun _ _ => True) t) :
    BuffersHeld t.view := any_invariant (fun _ _ hm hi => hm.buffers hi) .rfl h

/-- A thread by itself takes over nothing and hands on nothing. -/
theorem Move.alone {v v' : ThreadView} (h : Move own given sent False v v') :
    v'.log.filterMap ThreadEvent.taken = v.log.filterMap ThreadEvent.taken ∧
      v'.log.filterMap ThreadEvent.given = v.log.filterMap ThreadEvent.given := by
  have hsame : ∀ (f : ThreadEvent → Option (BitVec 64)) (es : List ThreadEvent),
      es.filterMap f = [] → (v.log ++ es).filterMap f = v.log.filterMap f := by
    intro f es hes
    rw [List.filterMap_append, hes, List.append_nil]
  cases h with
  | quiet h =>
    obtain ⟨-, -, h3, h4⟩ := still_quiet h
    exact ⟨hsame _ _ (by simp [h3]), hsame _ _ (by simp [h4])⟩
  | sets h =>
    obtain ⟨-, -, h3, h4⟩ := h.still
    exact ⟨hsame _ _ (by simp [h3]), hsame _ _ (by simp [h4])⟩
  | took b hh => exact hh.elim
  | gave h hh => exact hh.elim
  | _ => exact ⟨hsame _ _ rfl, hsame _ _ rfl⟩

theorem synchronous_thread {t : IpcThread} (h : (ipcThreadMachine own).Reach (fun _ _ => True) t) :
    Synchronous t.view.running :=
  any_invariant (P := fun v => Synchronous v.running) (fun _ _ hm hs => hm.synchronous hs)
    (fun _ hr => absurd hr List.not_mem_nil) h

end

/-! All threads of a process -/

namespace IpcThread

variable (t : IpcThread)

def received : List (BitVec 64) := t.log.filterMap ThreadEvent.received

def freed : List (BitVec 64) := t.log.filterMap ThreadEvent.freed

/-- The reply parcels that came from other threads. -/
def taken : List (BitVec 64) := t.log.filterMap ThreadEvent.taken

def given : List (BitVec 64) := t.log.filterMap ThreadEvent.given

/-- The buffers of the transactions that run. -/
def runningBuffers : List (BitVec 64) := t.view.running.map Running.buffer

end IpcThread

structure ProcessBuffers (p : IpcProcess) : Prop where
  /-- whichever thread received a buffer, some thread gave it back, or it is still referred to -/
  all : (p.threads.flatMap (·.received)).Perm (p.threads.flatMap (·.freed) ++
    (p.threads.flatMap (·.held) ++ p.threads.flatMap (·.runningBuffers)))
  each : ∀ t ∈ p.threads, (t.received ++ t.taken).Perm
    (t.freed ++ (t.given ++ (t.held ++ t.runningBuffers)))
  /-- what one thread takes over another one hands on -/
  handed : (p.threads.flatMap (·.taken)).Perm (p.threads.flatMap (·.given))

section

variable {α β : Type*} {f : α → List β} {g : α → α} {i : ℕ} {l : List α}

theorem mem_of_mem_modify {x : α} (hx : x ∈ l.modify i g) :
    x ∈ l ∨ ∃ a, l[i]? = some a ∧ x = g a := by
  obtain ⟨j, hj⟩ := List.mem_iff_getElem?.1 hx
  rw [List.getElem?_modify] at hj
  obtain ⟨a, ha, rfl⟩ := Option.map_eq_some_iff.1 hj
  split_ifs with hij
  · subst hij
    exact .inr ⟨a, ha, rfl⟩
  · exact .inl (List.mem_of_getElem? ha)

/-- One element is replaced by one that has more. -/
theorem flatMap_modify_perm {a : α} {b : β} (ha : l[i]? = some a) (hg : (f (g a)).Perm (b :: f a)) :
    ((l.modify i g).flatMap f).Perm (b :: l.flatMap f) := by
  induction l generalizing i with
  | nil => cases ha
  | cons x l ih =>
    cases i with
    | zero =>
      cases ha
      exact hg.append_right _
    | succ i => exact ((ih ha).append_left (f x)).trans List.perm_middle

theorem flatMap_modify_same (hg : ∀ a, l[i]? = some a → f (g a) = f a) :
    (l.modify i g).flatMap f = l.flatMap f := by
  induction l generalizing i with
  | nil => rw [List.modify_nil]
  | cons x l ih =>
    cases i with
    | zero => exact congrArg (· ++ l.flatMap f) (hg x rfl)
    | succ i => exact congrArg (f x ++ ·) (ih hg)

end

section

variable {own : Identity} {p : IpcProcess} {i j : ℕ} {b : BitVec 64}

/-- The threads are threads as above, and no parcel gets lost between two of them. -/
structure ProcessInv (own : Identity) (p : IpcProcess) : Prop where
  thread : ∀ t ∈ p.threads, (ipcThreadMachine own).Reach (fun _ _ => True) t
  handed : (p.threads.flatMap (·.taken)).Perm (p.threads.flatMap (·.given))

theorem reach_on (h : ∀ t ∈ p.threads, (ipcThreadMachine own).Reach (fun _ _ => True) t) (i : ℕ)
    (a : ThreadAct) : ∀ t ∈ (p.on own i a).threads, (ipcThreadMachine own).Reach (fun _ _ => True) t := by
  intro t ht
  rcases mem_of_mem_modify ht with ht | ⟨u, hu, rfl⟩
  · exact h t ht
  · exact .step (h u (List.mem_of_getElem? hu)) a trivial

/-- What a thread does by itself hands over nothing. -/
theorem step_alone {t : IpcThread} (h : (ipcThreadMachine own).Reach (fun _ _ => True) t)
    {a : ThreadAct} (ha : a.alone = true) :
    (t.step own a).taken = t.taken ∧ (t.step own a).given = t.given := by
  have hwithin : a.Within ((fun _ _ => True) t.view) (fun _ => True) := by
    unfold ThreadAct.Within
    split <;> trivial
  have hmoves : Moves own (fun _ _ => True) (fun _ => True) False t.view (t.step own a).view :=
    step_moves (synchronous_thread h) hwithin (.inl ha)
  apply hmoves.keeps (P := fun v => v.log.filterMap ThreadEvent.taken = t.taken ∧
    v.log.filterMap ThreadEvent.given = t.given)
  · intro v v' hm hv
    exact ⟨hm.alone.1.trans hv.1, hm.alone.2.trans hv.2⟩
  · exact ⟨rfl, rfl⟩

theorem ProcessInv.alone (hi : ProcessInv own p) (i : ℕ) {a : ThreadAct} (ha : a.alone = true) :
    ProcessInv own (p.on own i a) where
  thread := reach_on hi.thread i a
  handed := by
    have hstep : ∀ t, p.threads[i]? = some t →
        (t.step own a).taken = t.taken ∧ (t.step own a).given = t.given :=
      fun t ht => step_alone (hi.thread t (List.mem_of_getElem? ht)) ha
    unfold IpcProcess.on
    rw [flatMap_modify_same fun t ht => (hstep t ht).1, flatMap_modify_same fun t ht => (hstep t ht).2]
    exact hi.handed

/-- The events of both kinds, after one more of the first kind. -/
theorem filterMap_note (f f' : ThreadEvent → Option (BitVec 64)) {e : ThreadEvent}
    (log : List ThreadEvent) (h : f e = some b) (h' : f' e = none) :
    ((log ++ [e]).filterMap f).Perm (b :: log.filterMap f) ∧
      (log ++ [e]).filterMap f' = log.filterMap f' := by
  constructor
  · rw [List.filterMap_append, List.filterMap_cons_some h]
    exact List.perm_append_singleton _ _
  · rw [List.filterMap_append, List.filterMap_cons_none h']
    exact List.append_nil _

theorem giveReply_step (own : Identity) {t : IpcThread} (hlive : t.aborted = false) (hb : b ∈ t.held) :
    (t.step own (.giveReply b)).log = t.log ++ [.gave b] ∧
      (t.step own (.giveReply b)).aborted = false := by
  simp [IpcThread.step, hlive, hb, IpcThread.note]

theorem takeReply_step (own : Identity) (b : BitVec 64) {t : IpcThread} (hlive : t.aborted = false) :
    (t.step own (.takeReply b)).log = t.log ++ [.took b] := by
  simp [IpcThread.step, hlive, IpcThread.note]

theorem on_giveReply (own : Identity) {t : IpcThread} (hlive : ∀ t ∈ p.threads, t.aborted = false)
    (ht : p.threads[i]? = some t) (hb : b ∈ t.held) :
    (∀ u ∈ (p.on own i (.giveReply b)).threads, u.aborted = false) ∧
      ((p.on own i (.giveReply b)).threads.flatMap (·.given)).Perm
        (b :: p.threads.flatMap (·.given)) ∧
      (p.on own i (.giveReply b)).threads.flatMap (·.taken) = p.threads.flatMap (·.taken) := by
  obtain ⟨hlog, hlive'⟩ := giveReply_step own (hlive t (List.mem_of_getElem? ht)) hb
  obtain ⟨hgiven, htaken⟩ := filterMap_note ThreadEvent.given ThreadEvent.taken
    (e := .gave b) t.log rfl rfl
  rw [← hlog] at hgiven htaken
  refine ⟨?_, flatMap_modify_perm ht hgiven, flatMap_modify_same ?_⟩
  · intro u hu
    rcases mem_of_mem_modify hu with hu | ⟨t', ht', rfl⟩
    · exact hlive u hu
    · cases ht.symm.trans ht'
      exact hlive'
  · intro t' ht'
    cases ht.symm.trans ht'
    exact htaken

theorem on_takeReply (own : Identity) (b : BitVec 64) (hlive : ∀ t ∈ p.threads, t.aborted = false)
    (hj : j < p.threads.length) :
    ((p.on own j (.takeReply b)).threads.flatMap (·.taken)).Perm
        (b :: p.threads.flatMap (·.taken)) ∧
      (p.on own j (.takeReply b)).threads.flatMap (·.given) = p.threads.flatMap (·.given) := by
  have hlog := takeReply_step own b (hlive _ (List.getElem_mem hj))
  obtain ⟨htaken, hgiven⟩ := filterMap_note ThreadEvent.taken ThreadEvent.given
    (e := .took b) p.threads[j].log rfl rfl
  rw [← hlog] at htaken hgiven
  have hu := List.getElem?_eq_getElem hj
  refine ⟨flatMap_modify_perm hu htaken, flatMap_modify_same ?_⟩
  intro u hu'
  cases hu.symm.trans hu'
  exact hgiven

/-- A parcel changes hands: one thread gives what the other one takes. -/
theorem ProcessInv.handOver (hi : ProcessInv own p) (hlive : ∀ t ∈ p.threads, t.aborted = false)
    {t : IpcThread} (ht : p.threads[i]? = some t) (hb : b ∈ t.held) (hj : j < p.threads.length) :
    ProcessInv own ((p.on own i (.giveReply b)).on own j (.takeReply b)) := by
  obtain ⟨hlive', hgiven, htaken⟩ := on_giveReply own hlive ht hb
  have hlen : j < (p.on own i (.giveReply b)).threads.length := by simpa [IpcProcess.on] using hj
  obtain ⟨htaken', hgiven'⟩ := on_takeReply own b hlive' hlen
  refine ⟨reach_on (reach_on hi.thread i _) j _, ?_⟩
  rw [hgiven']
  rw [htaken] at htaken'
  exact htaken'.trans ((hi.handed.cons b).trans hgiven.symm)

theorem ProcessInv.step (hi : ProcessInv own p) (a : ProcessAct) : ProcessInv own (p.step own a) := by
  unfold IpcProcess.step
  split_ifs with hdead
  · exact hi
  · have hlive : ∀ t ∈ p.threads, t.aborted = false := by simpa using hdead
    cases a with
    | begin =>
      refine ⟨fun t ht => ?_, ?_⟩
      · rcases List.mem_append.1 ht with ht | ht
        · exact hi.thread t ht
        · obtain rfl := List.mem_singleton.1 ht
          exact .start rfl
      · rw [List.flatMap_append, List.flatMap_append]
        exact hi.handed.append_right _
    | thread i a =>
      dsimp only
      split_ifs with ha
      · exact hi.alone i ha
      · exact hi
    | handOver i j b =>
      dsimp only
      split_ifs with hc
      · obtain ⟨hany, hj⟩ := hc
        obtain ⟨t, ht, hb⟩ := (Option.any_eq_true _ _).1 hany
        exact hi.handOver hlive ht (by simpa using hb) hj
      · exact hi

theorem processInv_reach (h : (ipcProcessMachine own).Reach (fun _ _ => True) p) :
    ProcessInv own p := by
  apply h.invariant
  · intro p hp
    cases hp
    exact ⟨nofun, .rfl⟩
  · intro p a hi _
    exact hi.step a

/-- What holds of each thread holds of all of them together, as what changes hands cancels out. -/
theorem perm_of_each {ts : List IpcThread}
    (h : ∀ t ∈ ts, (t.received ++ t.taken).Perm (t.freed ++ (t.given ++ (t.held ++ t.runningBuffers))))
    (hh : (ts.flatMap (·.taken)).Perm (ts.flatMap (·.given))) :
    (ts.flatMap (·.received)).Perm
      (ts.flatMap (·.freed) ++ (ts.flatMap (·.held) ++ ts.flatMap (·.runningBuffers))) := by
  have hsum : ∀ b, (ts.flatMap (·.received)).count b + (ts.flatMap (·.taken)).count b =
      (ts.flatMap (·.freed)).count b + ((ts.flatMap (·.given)).count b +
        ((ts.flatMap (·.held)).count b + (ts.flatMap (·.runningBuffers)).count b)) := by
    intro b
    clear hh
    induction ts with
    | nil => rfl
    | cons t ts ih =>
      have hrest := ih fun u hu => h u (List.mem_cons_of_mem t hu)
      have hhead := (h t List.mem_cons_self).count_eq b
      simp only [List.count_append] at hhead
      simp only [List.flatMap_cons, List.count_append]
      omega
  rw [List.perm_iff_count]
  intro b
  have hboth := hh.count_eq b
  have hall := hsum b
  simp only [List.count_append]
  omega

end

/-- No buffer that the threads of a process receive is freed twice or forgotten, whoever destroys it. -/
theorem buffersHeld_reach {own : Identity} {p : IpcProcess}
    (h : (ipcProcessMachine own).Reach (fun _ _ => True) p) : ProcessBuffers p := by
  have hi := processInv_reach h
  have heach : ∀ t ∈ p.threads, (t.received ++ t.taken).Perm
      (t.freed ++ (t.given ++ (t.held ++ t.runningBuffers))) :=
    fun t ht => buffersHeld_thread (hi.thread t ht)
  exact ⟨perm_of_each heach hi.handed, heach, hi.handed⟩

/-- Thread 0 serves a call and calls out itself; the reply is destroyed on thread 1. -/
def handedReply : List ProcessAct :=
  [.begin, .begin] ++ nestedCalls.dropLast.map (.thread 0) ++
    [.handOver 0 1 0x3000, .thread 1 (.destroyReply 0x3000)]

theorem buffersHeld_reach_handed :
    ProcessBuffers ((ipcProcessMachine serverIds).exec {} handedReply) ∧
      ((ipcProcessMachine serverIds).exec {} handedReply).threads.map (·.freed) =
        [[0x2000], [0x3000]] := by
  refine ⟨buffersHeld_reach (Machine.Reach.exec (.start rfl) ?_), by decide +kernel⟩
  simp [handedReply, nestedCalls, Machine.Admits]

end Binder

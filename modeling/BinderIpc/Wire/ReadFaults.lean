import BinderIpc.Driver.Retry
import BinderIpc.Pool.Accounts

/-! What is lost when a write of `binder_thread_read` to the user's buffer faults.
A call is cut at its waits, and others act there, so that every part is compared
with the state it begins in. -/

namespace Binder

/-- How a part of a read ends. -/
inductive ReadEnd
  | returned | again | waiting
  /-- `-EFAULT`, and `*consumed` is as it was -/
  | faulted
  /-- `-EFAULT` for `BR_SPAWN_LOOPER`, when `*consumed` is stored already -/
  | faultedAtEnd
  deriving Repr, DecidableEq

/-- How `readDone` ends. -/
def doneEnd (s : Driver) (T : ℕ) (fault : ℕ → Bool) : ReadEnd :=
  if looperFaults s T fault then .faultedAtEnd else .returned

/-- How `reportErrors` ends. -/
def errorsEnd (s : Driver) (T size ptr : ℕ) (fault : ℕ → Bool) : ReadEnd :=
  let report := fun ptr => if fault ptr then .faulted else doneEnd s T fault
  if (s.thread.get T).returnError2 = .ok then report ptr
  else if fault ptr then .faulted
  else if ptr + 4 = size then doneEnd s T fault
  else report (ptr + 4)

/-- How `waitForWork` ends. -/
def waitEnd (s : Driver) (T size ptr : ℕ) (fault : ℕ → Bool) : ReadEnd :=
  if (s.thread.get T).returnError ≠ .ok ∧ ptr < size then errorsEnd s T size ptr fault else .waiting

/-- How `binderThreadRead` ends. -/
def beginEnd (s : Driver) (T size consumed : ℕ) (fault : ℕ → Bool) : ReadEnd :=
  if consumed = 0 then
    if fault 0 then .faulted else waitEnd s T size 4 fault
  else waitEnd s T size consumed fault

/-- How `readLoop` ends. -/
def loopEnd (L : Layout) (T : ℕ) (f : ReadFrame) (fault : ℕ → Bool) : ℕ → Driver → ℕ → ReadEnd
  | 0, _, _ => .returned
  | k + 1, s, ptr =>
    match nextWork s T f.waitForProcWork with
    | none =>
      if ptr = 4 ∧ (s.thread.get T).looper.needReturn = false then waitEnd s T f.size ptr fault
      else doneEnd s T fault
    | some w =>
      if noRoom L f.size ptr then doneEnd s T fault
      else
        match readItem s T ptr fault w with
        | (s, .next ptr) => loopEnd L T f fault k s ptr
        | (_, .fault) => .faulted
        | (s, .done _) => doneEnd s T fault

/-- How `resumeRead` ends. -/
def resumeEnd (L : Layout) (s : Driver) (T : ℕ) (fault : ℕ → Bool) : ReadEnd :=
  match (s.thread.get T).asleep with
  | none => .returned
  | some f =>
    match f.verdict with
    | none => .waiting
    | some false => .again
    | some true => loopEnd L T f fault (readFuel s) (stopWaiting s T f) f.ptr

def Action.readEnd (L : Layout) (s : Driver) : Action → ReadEnd
  | read T size consumed _ fault => beginEnd s T size consumed fault
  | resume T fault => resumeEnd L s T fault
  | _ => .returned

/-- What a node was told, or is to be told. -/
structure NodeFlags where
  hasStrongRef : Bool
  hasWeakRef : Bool
  pendingStrongRef : Bool
  pendingWeakRef : Bool
  localStrongRefs : ℤ
  localWeakRefs : ℤ
  deriving DecidableEq

def BinderNode.flags (x : BinderNode) : NodeFlags :=
  ⟨x.hasStrongRef, x.hasWeakRef, x.pendingStrongRef, x.pendingWeakRef, x.localStrongRefs,
    x.localWeakRefs⟩

/-- What a part of a read keeps that hands nothing out: the queued work, what the nodes were told,
the pending errors and `requested_threads`. When `*consumed` is stored, all but `BR_SPAWN_LOOPER` is
handed out. -/
structure NothingLost (s : Driver) (e : ReadEnd) (s' : Driver) : Prop where
  queued : e ≠ .faultedAtEnd → ∀ l w, (l, w) ∈ s.obj.todo.entries → (l, w) ∈ s'.obj.todo.entries
  nodes : e ≠ .faultedAtEnd → ∀ n, (s'.obj.node.get n).flags = (s.obj.node.get n).flags
  errors : e ≠ .faultedAtEnd → SameErrors s s'
  requested : ∀ p, (s'.proc.get p).requestedThreads = (s.proc.get p).requestedThreads

/-! The condition -/

/-- The first of two codes cannot be written, if there is a code. -/
def errorFirst (s : Driver) (T size ptr : ℕ) (fault : ℕ → Bool) : Bool :=
  (s.thread.get T).returnError = .ok || size ≤ ptr || fault ptr

/-- An item cannot be handed out, and nothing of it is changed before its last write. -/
def Work.faultsWhole (ptr : ℕ) (fault : ℕ → Bool) : Work → Bool
  | .transaction _ | .death _ => fault ptr || fault (ptr + 4)
  | .transactionComplete _ => fault ptr
  | .node _ => false

/-- The loop faults, or goes back to wait, before it has done anything. -/
def loopFirst (L : Layout) (T : ℕ) (f : ReadFrame) (fault : ℕ → Bool) (s : Driver) (ptr : ℕ) : Bool :=
  match nextWork s T f.waitForProcWork with
  | none => ptr = 4 && !(s.thread.get T).looper.needReturn && errorFirst s T f.size 4 fault
  | some w => !noRoom L f.size ptr && w.faultsWhole ptr fault

/-- So does a part of a read. -/
def Action.faultsFirst (L : Layout) (s : Driver) : Action → Bool
  | read T size consumed _ fault =>
    (consumed = 0 && fault 0) || errorFirst s T size (if consumed = 0 then 4 else consumed) fault
  | resume T fault =>
    match (s.thread.get T).asleep with
    | none => true
    | some f => f.verdict ≠ some true || loopFirst L T f fault s f.ptr
  | _ => true

variable {L : Layout} {rb : RbTree ℕ} {s s' s'' : Driver} {T ptr size : ℕ} {fault : ℕ → Bool}
  {a : Action}

/-! The end of a read, and the report of errors -/

structure SameHeld (s s' : Driver) : Prop where
  todo : s'.obj.todo = s.obj.todo
  nodes : ∀ n, (s'.obj.node.get n).flags = (s.obj.node.get n).flags
  errors : SameErrors s s'
  requested : ∀ p, (s'.proc.get p).requestedThreads = (s.proc.get p).requestedThreads

def SameRequests (s s' : Driver) : Prop :=
  ∀ p, (s'.proc.get p).requestedThreads = (s.proc.get p).requestedThreads

namespace SameHeld

theorem refl (s : Driver) : SameHeld s s := ⟨rfl, fun _ => rfl, .refl s, fun _ => rfl⟩

theorem trans (h : SameHeld s s') (h' : SameHeld s' s'') : SameHeld s s'' where
  todo := h'.todo.trans h.todo
  nodes n := (h'.nodes n).trans (h.nodes n)
  errors := h.errors.trans h'.errors
  requested p := (h'.requested p).trans (h.requested p)

theorem nothingLost (h : SameHeld s s') (e : ReadEnd) : NothingLost s e s' where
  queued _ l w hw := by
    rw [h.todo]
    exact hw
  nodes _ := h.nodes
  errors _ := h.errors
  requested := h.requested

theorem modProc (p : ℕ) {f : BinderProc → BinderProc}
    (hf : ∀ x, (f x).requestedThreads = x.requestedThreads) : SameHeld s (s.modProc p f) :=
  ⟨rfl, fun _ => rfl, errors_modProc s p f, fun q =>
    s.proc.apply_get_modify p q f (·.requestedThreads) hf⟩

theorem modThread {f : BinderThread → BinderThread} (h1 : ∀ y, (f y).returnError = y.returnError)
    (h2 : ∀ y, (f y).returnError2 = y.returnError2) : SameHeld s (s.modThread T f) :=
  ⟨rfl, fun _ => rfl, .modThread h1 h2, fun _ => rfl⟩

end SameHeld

theorem readDone_faults (h : looperFaults s T fault = true) :
    readDone s T ptr fault = askForLooper s (s.thread.get T).proc := by
  simp only [looperFaults, wantsLooper, Bool.and_eq_true, decide_eq_true_eq] at h
  unfold readDone
  dsimp only
  rw [if_pos h.1, if_pos h.2]
  rfl

/-- `requested_threads` is raised for a `BR_SPAWN_LOOPER` that is not written. -/
theorem readDone_lost (hreq : SameRequests s s') (h : looperFaults s' T fault = true) (e : ReadEnd) :
    ¬NothingLost s e (readDone s' T ptr fault) := by
  intro hno
  have hsame := hno.requested (s'.thread.get T).proc
  rw [readDone_faults h, askForLooper_same, ← hreq] at hsame
  simp at hsame

theorem doneEnd_faults (hend : doneEnd s T fault ≠ .returned) :
    doneEnd s T fault = .faultedAtEnd ∧ looperFaults s T fault = true := by
  unfold doneEnd at hend ⊢
  split_ifs at hend ⊢ with h
  · exact ⟨rfl, h⟩
  · exact absurd rfl hend

theorem doneEnd_lost (hreq : SameRequests s s') (hend : doneEnd s' T fault ≠ .returned)
    (e : ReadEnd) : ¬NothingLost s e (readDone s' T ptr fault) :=
  readDone_lost hreq (doneEnd_faults hend).2 e

/-- What a report of errors or the begin of a wait leaves when the call does not return. -/
inductive Unanswered (T : ℕ) (fault : ℕ → Bool) (s : Driver) : Bool → ReadEnd → Driver → Prop
  | held {e : ReadEnd} {s' : Driver} (he : e ≠ .faultedAtEnd) (hobj : s'.obj = s.obj)
    (hs : SameHeld s s') : Unanswered T fault s true e s'
  /-- the second code cannot be written, and the first one is cleared -/
  | cleared {s' : Driver} (hobj : s'.obj = s.obj) (herr : ¬SameErrors s s') :
    Unanswered T fault s false .faulted s'
  | looper {s' : Driver} {ptr : ℕ} (hreq : SameRequests s s') (hf : looperFaults s' T fault = true) :
    Unanswered T fault s false .faultedAtEnd (readDone s' T ptr fault)

theorem reportErrors_unanswered (hend : errorsEnd s T size ptr fault ≠ .returned) :
    Unanswered T fault s (fault ptr) (errorsEnd s T size ptr fault)
      (reportErrors s T size ptr fault) := by
  have hlooper : ∀ (s' : Driver) ptr, s'.proc = s.proc →
      (s'.thread.get T).proc = (s.thread.get T).proc →
      (s'.thread.get T).looper = (s.thread.get T).looper → doneEnd s T fault ≠ .returned →
        Unanswered T fault s false (doneEnd s T fault) (readDone s' T ptr fault) := by
    intro s' ptr h1 h2 h3 hdone
    obtain ⟨he, hf⟩ := doneEnd_faults hdone
    rw [he]
    exact .looper (fun p => by rw [h1]) ((looperFaults_congr h2 h3 h1).trans hf)
  unfold errorsEnd at hend ⊢
  unfold reportErrors
  dsimp only at hend ⊢
  by_cases h2 : (s.thread.get T).returnError2 = .ok
  · rw [if_pos h2] at hend ⊢
    cases hf : fault ptr with
    | true =>
      simp only [if_true, if_pos h2]
      exact .held (by simp) rfl (.refl s)
    | false =>
      simp only [hf, Bool.false_eq_true, if_false, if_pos h2] at hend ⊢
      exact hlooper _ _ rfl (by simp [Driver.modThread, Driver.note])
        (by simp [Driver.modThread, Driver.note]) hend
  · rw [if_neg h2] at hend ⊢
    cases hf : fault ptr with
    | true =>
      simp only [if_true, if_neg h2]
      exact .held (by simp) rfl (.refl s)
    | false =>
      simp only [hf, Bool.false_eq_true, if_false, if_neg h2] at hend ⊢
      by_cases hlast : ptr + 4 = size
      · simp only [if_pos hlast] at hend ⊢
        exact hlooper _ _ rfl rfl rfl hend
      · simp only [if_neg hlast] at hend ⊢
        cases hf4 : fault (ptr + 4) with
        | true =>
          simp only [if_true]
          refine .cleared rfl fun herr => h2 ?_
          have hsecond := herr.second T
          simpa [Driver.modThread, Driver.note] using hsecond.symm
        | false =>
          simp only [hf4, Bool.false_eq_true, if_false] at hend ⊢
          exact hlooper _ _ rfl (by simp [Driver.modThread, Driver.note])
            (by simp [Driver.modThread, Driver.note]) hend

theorem waitForWork_unanswered {nonBlock : Bool} (hend : waitEnd s T size ptr fault ≠ .returned) :
    Unanswered T fault s (errorFirst s T size ptr fault) (waitEnd s T size ptr fault)
      (waitForWork s T size ptr nonBlock fault) := by
  unfold waitEnd at hend ⊢
  unfold waitForWork
  dsimp only
  by_cases herr : (s.thread.get T).returnError ≠ .ok ∧ ptr < size
  · rw [if_pos herr] at hend
    rw [if_pos herr, if_pos herr]
    have hfirst : errorFirst s T size ptr fault = fault ptr := by
      simp [errorFirst, herr.1, Nat.not_le.2 herr.2]
    rw [hfirst]
    exact reportErrors_unanswered hend
  · rw [if_neg herr, if_neg herr]
    have hfirst : errorFirst s T size ptr fault = true := by
      rw [not_and_or, not_not, not_lt] at herr
      rcases herr with herr | herr <;> simp [errorFirst, herr]
    rw [hfirst]
    generalize ((s.thread.get T).transactionStack.isNone &&
      s.obj.todo.isEmpty (.threadTodo T)) = w
    have hraised : SameHeld s (if w = true then s.modProc (s.thread.get T).proc fun p =>
        { p with readyThreads := p.readyThreads + 1 } else s) := by
      cases w with
      | false => exact .refl s
      | true => exact .modProc _ fun _ => rfl
    refine .held (by simp) ?_ (hraised.trans ?_)
    · cases w <;> rfl
    · exact .modThread (fun _ => rfl) fun _ => rfl

theorem Unanswered.nothingLost_iff {s₀ : Driver} {first : Bool} {e : ReadEnd} (h₀ : SameHeld s₀ s)
    (h : Unanswered T fault s first e s') : NothingLost s₀ e s' ↔ first = true := by
  cases h with
  | held he hobj hs => exact iff_of_true ((h₀.trans hs).nothingLost e) rfl
  | cleared hobj herr =>
    refine iff_of_false (fun hno => herr ?_) (by simp)
    have hall := hno.errors (by simp)
    exact ⟨fun S => (hall.first S).trans (h₀.errors.first S).symm,
      fun S => (hall.second S).trans (h₀.errors.second S).symm⟩
  | looper hreq hf =>
    exact iff_of_false (readDone_lost (fun p => (hreq p).trans (h₀.requested p)) hf _) (by simp)

/-! Items -/

/-- A node was told something; the counts never fall again in the same part. -/
structure NodeFlags.Moved (x y : NodeFlags) : Prop where
  strongRefs : x.localStrongRefs ≤ y.localStrongRefs
  weakRefs : x.localWeakRefs ≤ y.localWeakRefs
  moved : x.localStrongRefs < y.localStrongRefs ∨ x.localWeakRefs < y.localWeakRefs ∨
    (x.hasStrongRef = true ∧ y.hasStrongRef = false) ∨ (x.hasWeakRef = true ∧ y.hasWeakRef = false)

theorem NodeFlags.Moved.ne {x y : NodeFlags} (h : x.Moved y) : y ≠ x := by
  rintro rfl
  rcases h.moved with h | h | h | h
  · omega
  · omega
  · exact absurd (h.1.symm.trans h.2) (by simp)
  · exact absurd (h.1.symm.trans h.2) (by simp)

/-- After `BR_RELEASE` and `BR_DECREFS` come only commands that raise a count. -/
theorem moved_nodeCommand {x y : BinderNode} {z : NodeFlags} {n : ℕ} {cmd : Br}
    (h : z = x.flags ∨ z.Moved x.flags) (hc : nodeCommand x n = some (cmd, y)) : z.Moved y.flags := by
  have hstrong : z.localStrongRefs ≤ x.localStrongRefs := h.elim (fun h => h ▸ le_rfl) (·.strongRefs)
  have hweak : z.localWeakRefs ≤ x.localWeakRefs := h.elim (fun h => h ▸ le_rfl) (·.weakRefs)
  unfold nodeCommand at hc
  dsimp only at hc
  split_ifs at hc with h1 h2 h3 h4
  · cases hc
    exact ⟨hstrong, by simp only [BinderNode.flags]; omega,
      Or.inr (Or.inl (by simp only [BinderNode.flags]; omega))⟩
  · cases hc
    exact ⟨by simp only [BinderNode.flags]; omega, hweak,
      Or.inl (by simp only [BinderNode.flags]; omega)⟩
  · cases hc
    refine ⟨hstrong, hweak, ?_⟩
    rcases h with rfl | h
    · simp only [Bool.and_eq_true] at h3
      exact Or.inr (Or.inr (Or.inl ⟨h3.2, rfl⟩))
    · rcases h.moved with h | h | h | h
      · exact Or.inl h
      · exact Or.inr (Or.inl h)
      · exact Or.inr (Or.inr (Or.inl ⟨h.1, rfl⟩))
      · exact Or.inr (Or.inr (Or.inr h))
  · cases hc
    refine ⟨hstrong, hweak, ?_⟩
    rcases h with rfl | h
    · simp only [Bool.and_eq_true] at h4
      exact Or.inr (Or.inr (Or.inr ⟨h4.2, rfl⟩))
    · rcases h.moved with h | h | h | h
      · exact Or.inl h
      · exact Or.inr (Or.inl h)
      · exact Or.inr (Or.inr (Or.inl h))
      · exact Or.inr (Or.inr (Or.inr ⟨h.1, rfl⟩))

/-- An item has left its list, or a node was told something. -/
inductive Lost (s s' : Driver) : Prop
  | item {l : ListHead} {w : Work} (hw : (l, w) ∈ s.obj.todo.entries)
    (hno : (l, w) ∉ s'.obj.todo.entries)
  | node (n : ℕ) (h : (s.obj.node.get n).flags.Moved (s'.obj.node.get n).flags)

theorem Lost.of_held (h : Lost s' s'') (hs : SameHeld s s') : Lost s s'' := by
  cases h with
  | item hw hno =>
    rw [hs.todo] at hw
    exact .item hw hno
  | node n h =>
    rw [hs.nodes] at h
    exact .node n h

theorem Lost.not_nothingLost (h : Lost s s') (hobj : s''.obj = s'.obj) {e : ReadEnd}
    (he : e ≠ .faultedAtEnd) : ¬NothingLost s e s'' := by
  intro hno
  cases h with
  | item hw hgone => exact hgone (hobj ▸ hno.queued he _ _ hw)
  | node n h =>
    refine h.ne ?_
    rw [← hobj]
    exact hno.nodes he n

/-- What an item does in a turn of the loop. -/
inductive ItemEffect (s : Driver) (w : Work) (ptr : ℕ) (whole : Bool) : Driver → Turn → Prop
  | held {s' : Driver} (hs : SameHeld s s') (hwhole : whole = true) : ItemEffect s w ptr whole s' .fault
  | command {s' : Driver} {turn : Turn} (n : ℕ) {cmd : Br} {x : BinderNode} (hwhole : whole = false)
    (hc : nodeCommand (s.obj.node.get n) n = some (cmd, x))
    (hobj : s'.obj = s.obj.modNode n fun _ => x) (hturn : ∀ ptr', turn ≠ .done ptr') :
    ItemEffect s w ptr whole s' turn
  | taken {s' : Driver} {ptr' : ℕ} (hwhole : whole = false) (htodo : s'.obj.todo = s.obj.todo.del w)
    (hnode : ∀ n, (s'.obj.node.get n).flags = (s.obj.node.get n).flags) :
    ItemEffect s w ptr whole s' (.next ptr')
  /-- a death record without a type stays where it is -/
  | idle : ItemEffect s w ptr whole s (.next ptr)
  | done {s' : Driver} {ptr' : ℕ} (hwhole : whole = false) : ItemEffect s w ptr whole s' (.done ptr')

theorem readTransaction_effect (t : ℕ) : ItemEffect s (.transaction t) ptr
    ((Work.transaction t).faultsWhole ptr fault) (readTransaction s T t ptr fault).1
      (readTransaction s T t ptr fault).2 := by
  have hbug : SameHeld s (s.bugOn (s.bufferOf t).isNone .noBuffer) :=
    ⟨rfl, fun _ => rfl, .of_eq rfl, fun _ => rfl⟩
  unfold readTransaction
  cases hf : fault ptr || fault (ptr + 4) with
  | true =>
    simp only [if_true]
    exact .held hbug (by simpa [Work.faultsWhole] using hf)
  | false =>
    simp only [Bool.false_eq_true, if_false]
    exact .done (by simpa [Work.faultsWhole] using hf)

theorem settleNode_flags (o : Objects) (p n m : ℕ) :
    ((settleNode o p n).node.get m).flags = (o.node.get m).flags := by
  unfold settleNode
  dsimp only
  split_ifs
  · exact o.node.apply_get_modify n m (fun x => { x with freed := x.freed + 1 }) (·.flags) fun _ => rfl
  · rfl

theorem settleNode_todo (o : Objects) (p n : ℕ) :
    (settleNode o p n).todo = o.todo.del (.node n) := by
  unfold settleNode
  dsimp only
  split_ifs <;> rfl

theorem readNode_effect (n : ℕ) : ItemEffect s (.node n) ptr ((Work.node n).faultsWhole ptr fault)
    (readNode s T n ptr fault).1 (readNode s T n ptr fault).2 := by
  unfold readNode
  split
  · rename_i cmd x hc
    dsimp only
    split_ifs
    · exact .command n rfl hc rfl (by simp)
    · exact .command n rfl hc rfl (by simp)
  · exact .taken rfl (settleNode_todo _ _ _) (settleNode_flags _ _ _)

theorem readDeath_effect (d : ℕ) : ItemEffect s (.death d) ptr ((Work.death d).faultsWhole ptr fault)
    (readDeath s T d ptr fault).1 (readDeath s T d ptr fault).2 := by
  unfold readDeath
  split
  · exact .idle
  · split_ifs with hf htype
    · exact .held (.refl s) hf
    · exact .taken (Bool.eq_false_of_not_eq_true hf) rfl fun _ => rfl
    · exact .done (Bool.eq_false_of_not_eq_true hf)

theorem readItem_effect (w : Work) : ItemEffect s w ptr (w.faultsWhole ptr fault)
    (readItem s T ptr fault w).1 (readItem s T ptr fault w).2 := by
  cases w with
  | transaction t => exact readTransaction_effect t
  | transactionComplete t =>
    simp only [readItem]
    split_ifs with hf
    · exact .held (.refl s) hf
    · exact .taken (Bool.eq_false_of_not_eq_true hf) rfl fun _ => rfl
  | node n => exact readNode_effect n
  | death d => exact readDeath_effect d

namespace ItemEffect

variable {w : Work} {whole : Bool} {turn : Turn}

/-- What is lost stays lost. -/
theorem lost {s₀ : Driver} (h : Lost s₀ s) (he : ItemEffect s w ptr whole s' turn)
    (hturn : ∀ ptr', turn ≠ .done ptr') : Lost s₀ s' := by
  cases he with
  | held hs _ =>
    cases h with
    | item hw hno => exact .item hw (by rwa [hs.todo])
    | node n h => exact .node n (by rwa [hs.nodes])
  | command n _ hc hobj _ =>
    cases h with
    | item hw hno => exact .item hw (by rwa [hobj])
    | node m h =>
      refine .node m ?_
      rw [hobj]
      simp only [Objects.modNode, Heap.get_modify]
      split_ifs with hm
      · subst hm
        exact moved_nodeCommand (Or.inr h) hc
      · exact h
  | taken _ htodo hnode =>
    cases h with
    | item hw hno => exact .item hw fun hin => hno (Queues.mem_del.1 (htodo ▸ hin)).1
    | node n h => exact .node n (by rwa [hnode])
  | idle => exact h
  | done _ => exact absurd rfl (hturn _)

/-- The first item that is not kept whole is lost. -/
theorem first (hw : ∃ l, (l, w) ∈ s.obj.todo.entries) (he : ItemEffect s w ptr whole s' turn) :
    (turn = .fault ∧ SameHeld s s' ∧ whole = true) ∨ (turn = .next ptr ∧ s' = s) ∨
      (whole = false ∧ ((∃ ptr', turn = .done ptr') ∨ Lost s s')) := by
  cases he with
  | held hs hwhole => exact Or.inl ⟨rfl, hs, hwhole⟩
  | command n hwhole hc hobj _ =>
    refine Or.inr (Or.inr ⟨hwhole, Or.inr (.node n ?_)⟩)
    rw [hobj, Objects.modNode, Heap.get_modify_self]
    exact moved_nodeCommand (Or.inl rfl) hc
  | taken hwhole htodo _ =>
    obtain ⟨l, hw⟩ := hw
    refine Or.inr (Or.inr ⟨hwhole, Or.inr (.item hw fun hin => ?_)⟩)
    rw [htodo] at hin
    exact (Queues.mem_del.1 hin).2 rfl
  | idle => exact Or.inr (Or.inl ⟨rfl, rfl⟩)
  | done hwhole => exact Or.inr (Or.inr ⟨hwhole, Or.inl ⟨_, rfl⟩⟩)

end ItemEffect

/-! The loop -/

theorem Unanswered.lost {s₀ : Driver} {first : Bool} {e : ReadEnd} (h : Lost s₀ s)
    (hreq : SameRequests s₀ s) (hu : Unanswered T fault s first e s') : ¬NothingLost s₀ e s' := by
  cases hu with
  | held he hobj _ => exact h.not_nothingLost hobj he
  | cleared hobj _ => exact h.not_nothingLost hobj (by simp)
  | looper hreq' hf => exact readDone_lost (fun p => (hreq' p).trans (hreq p)) hf _

theorem nextWork_queued {b : Bool} {w : Work} (h : nextWork s T b = some w) :
    ∃ l, (l, w) ∈ s.obj.todo.entries := by
  unfold nextWork at h
  split at h
  · rename_i v hv
    cases h
    exact ⟨_, Queues.first_mem hv⟩
  · split_ifs at h
    exact ⟨_, Queues.first_mem h⟩

theorem readLoop_lost {s₀ : Driver} {f : ReadFrame} {k : ℕ} (h : Lost s₀ s)
    (hreq : SameRequests s₀ s) (hend : loopEnd L T f fault k s ptr ≠ .returned) :
    ¬NothingLost s₀ (loopEnd L T f fault k s ptr) (readLoop L T f fault k s ptr) := by
  induction k generalizing s ptr with
  | zero => exact absurd rfl hend
  | succ k ih =>
    unfold loopEnd at hend ⊢
    unfold readLoop
    cases hw : nextWork s T f.waitForProcWork with
    | none =>
      rw [hw] at hend
      dsimp only at hend ⊢
      split_ifs at hend ⊢ with hretry
      · exact (waitForWork_unanswered hend).lost h hreq
      · exact doneEnd_lost hreq hend _
    | some w =>
      rw [hw] at hend
      dsimp only at hend ⊢
      split_ifs at hend ⊢ with hroom
      · exact doneEnd_lost hreq hend _
      · have he : ItemEffect s w ptr (w.faultsWhole ptr fault) (readItem s T ptr fault w).1
            (readItem s T ptr fault w).2 := readItem_effect w
        have hsame : SameRequests s (readItem s T ptr fault w).1 :=
          (readItem_pools s T fault w ptr).requested
        generalize readItem s T ptr fault w = r at he hsame hend ⊢
        obtain ⟨s₁, turn⟩ := r
        have hreq₁ : SameRequests s₀ s₁ := fun p => (hsame p).trans (hreq p)
        cases turn with
        | next ptr' => exact ih (he.lost h (by simp)) hreq₁ hend
        | fault => exact (he.lost h (by simp)).not_nothingLost rfl (by simp)
        | done ptr' => exact doneEnd_lost hreq₁ hend _

theorem readLoop_nothingLost {s₀ : Driver} {f : ReadFrame} {k : ℕ} (h : SameHeld s₀ s)
    (hend : loopEnd L T f fault k s ptr ≠ .returned) :
    NothingLost s₀ (loopEnd L T f fault k s ptr) (readLoop L T f fault k s ptr) ↔
      loopFirst L T f fault s ptr = true := by
  induction k with
  | zero => exact absurd rfl hend
  | succ k ih =>
    unfold loopEnd at hend ⊢
    unfold readLoop
    cases hw : nextWork s T f.waitForProcWork with
    | none =>
      have hfirst : loopFirst L T f fault s ptr =
          (decide (ptr = 4) && !(s.thread.get T).looper.needReturn && errorFirst s T f.size 4 fault) := by
        rw [loopFirst, hw]
      rw [hfirst]
      rw [hw] at hend
      dsimp only at hend ⊢
      split_ifs at hend ⊢ with hretry
      · obtain ⟨rfl, hret⟩ := hretry
        rw [(waitForWork_unanswered hend).nothingLost_iff h]
        simp [hret]
      · refine iff_of_false (doneEnd_lost h.requested hend _) ?_
        simp only [Bool.and_eq_true, decide_eq_true_eq, Bool.not_eq_true']
        exact fun hall => hretry hall.1
    | some w =>
      have hfirst : loopFirst L T f fault s ptr =
          (!noRoom L f.size ptr && w.faultsWhole ptr fault) := by
        rw [loopFirst, hw]
      rw [hfirst]
      rw [hw] at hend
      dsimp only at hend ⊢
      split_ifs at hend ⊢ with hroom
      · exact iff_of_false (doneEnd_lost h.requested hend _) (by simp [hroom])
      · rw [Bool.eq_false_of_not_eq_true hroom, Bool.not_false, Bool.true_and]
        have he : ItemEffect s w ptr (w.faultsWhole ptr fault) (readItem s T ptr fault w).1
            (readItem s T ptr fault w).2 := readItem_effect w
        have hsame : SameRequests s (readItem s T ptr fault w).1 :=
          (readItem_pools s T fault w ptr).requested
        generalize readItem s T ptr fault w = r at he hsame hend ⊢
        obtain ⟨s₁, turn⟩ := r
        have hreq₁ : SameRequests s₀ s₁ := fun p => (hsame p).trans (h.requested p)
        rcases he.first (nextWork_queued hw) with ⟨rfl, hs, hwhole⟩ | ⟨rfl, rfl⟩ |
          ⟨hwhole, ⟨ptr', rfl⟩ | hlost⟩
        · exact iff_of_true ((h.trans hs).nothingLost _) hwhole
        · have hk := ih hend
          rw [hfirst, Bool.eq_false_of_not_eq_true hroom, Bool.not_false, Bool.true_and] at hk
          exact hk
        · exact iff_of_false (doneEnd_lost hreq₁ hend _) (by simp [hwhole])
        · refine iff_of_false ?_ (by simp [hwhole])
          have hlost₀ := hlost.of_held h
          cases turn with
          | next ptr' => exact readLoop_lost hlost₀ hreq₁ hend
          | fault => exact hlost₀.not_nothingLost rfl (by simp)
          | done ptr' => exact doneEnd_lost hreq₁ hend _

/-! Whole calls -/

theorem held_stopWaiting (s : Driver) (T : ℕ) (f : ReadFrame) : SameHeld s (stopWaiting s T f) := by
  refine SameHeld.trans ?_ (.modThread (fun _ => rfl) fun _ => rfl)
  split_ifs
  · exact .modProc _ fun _ => rfl
  · exact .refl s

theorem loopFirst_stopWaiting (f g : ReadFrame) :
    loopFirst L T f fault (stopWaiting s T g) ptr = loopFirst L T f fault s ptr := by
  have hthread : ((stopWaiting s T g).thread.get T).looper = (s.thread.get T).looper ∧
      ((stopWaiting s T g).thread.get T).returnError = (s.thread.get T).returnError ∧
      ((stopWaiting s T g).thread.get T).proc = (s.thread.get T).proc := by
    unfold stopWaiting
    split_ifs <;> simp [Driver.modThread, Driver.modProc]
  have htodo : (stopWaiting s T g).obj.todo = s.obj.todo := (held_stopWaiting s T g).todo
  simp only [loopFirst, nextWork, errorFirst, htodo, hthread.1, hthread.2.1, hthread.2.2]

/-- What a part of a read keeps, when it does not return what it has written. -/
theorem apply_nothingLost (hend : a.readEnd L s ≠ .returned) :
    NothingLost s (a.readEnd L s) (a.apply L rb s) ↔ a.faultsFirst L s = true := by
  cases a with
  | read T size consumed nonBlock fault =>
    change beginEnd s T size consumed fault ≠ .returned at hend
    change NothingLost s (beginEnd s T size consumed fault)
      (binderThreadRead s T size consumed nonBlock fault) ↔ ((decide (consumed = 0) && fault 0) ||
        errorFirst s T size (if consumed = 0 then 4 else consumed) fault) = true
    unfold beginEnd at hend ⊢
    unfold binderThreadRead
    by_cases hc : consumed = 0
    · rw [if_pos hc] at hend ⊢
      rw [if_pos hc, if_pos hc]
      cases hf : fault 0 with
      | true =>
        simp only [if_true]
        exact iff_of_true ((SameHeld.refl s).nothingLost _) (by simp [hc])
      | false =>
        simp only [hf, Bool.false_eq_true, if_false] at hend ⊢
        rw [(waitForWork_unanswered hend).nothingLost_iff (.refl s)]
        simp
    · rw [if_neg hc] at hend ⊢
      rw [if_neg hc, if_neg hc, (waitForWork_unanswered hend).nothingLost_iff (.refl s)]
      simp [hc]
  | resume T fault =>
    change resumeEnd L s T fault ≠ .returned at hend
    change NothingLost s (resumeEnd L s T fault) (resumeRead L s T fault) ↔
      (match (s.thread.get T).asleep with
        | none => true
        | some f => f.verdict ≠ some true || loopFirst L T f fault s f.ptr) = true
    unfold resumeEnd at hend ⊢
    unfold resumeRead
    cases hasleep : (s.thread.get T).asleep with
    | none => exact iff_of_true ((SameHeld.refl s).nothingLost _) rfl
    | some f =>
      rw [hasleep] at hend
      dsimp only at hend ⊢
      cases hv : f.verdict with
      | none => exact iff_of_true ((SameHeld.refl s).nothingLost _) (by simp)
      | some b =>
        rw [hv] at hend
        cases b with
        | false => exact iff_of_true ((held_stopWaiting s T f).nothingLost _) (by simp)
        | true =>
          dsimp only at hend ⊢
          rw [readLoop_nothingLost (held_stopWaiting s T f) hend, loopFirst_stopWaiting]
          simp
  | _ => exact absurd rfl hend

/-- A part of a read of `T` does not return what it has written. -/
def readUnreturned (L : Layout) (T : ℕ) (s : Driver) (a : Action) : Prop :=
  a.reader = some T → a.enabled L s = true → a.readEnd L s ≠ .returned

def readKeeps (L : Layout) (rb : RbTree ℕ) (T : ℕ) (s : Driver) (a : Action) : Prop :=
  a.reader = some T → a.enabled L s = true →
    NothingLost s (a.readEnd L s) ((driverMachine L rb).step s a)

def readFaultsFirst (L : Layout) (T : ℕ) (s : Driver) (a : Action) : Prop :=
  a.reader = some T → a.enabled L s = true → a.faultsFirst L s = true

instance : Decidable (readUnreturned L T s a) := inferInstanceAs (Decidable (_ → _ → ¬_))

instance : Decidable (readFaultsFirst L T s a) := inferInstanceAs (Decidable (_ → _ → _))

/-- A call goes from the read of `T` to the part that faults, whatever others do while `T` waits. It
loses nothing exactly when every part faults, or waits, before it has done anything. -/
theorem faulting_read_keeps {as : List Action}
    (hend : (driverMachine L rb).Admits (readUnreturned L T) s as) :
    (driverMachine L rb).Admits (readKeeps L rb T) s as ↔
      (driverMachine L rb).Admits (readFaultsFirst L T) s as := by
  refine hend.congr fun s a hend => ?_
  refine forall_congr' fun hreader => forall_congr' fun hen => ?_
  have hstep : (driverMachine L rb).step s a = a.apply L rb s := if_pos hen
  rw [hstep]
  exact apply_nothingLost (hend hreader hen)

theorem faulting_read_keeps_completion :
    (driverMachine layout32 .plain).Admits (readKeeps layout32 .plain 1) (afterActions callingClient)
      [.read 1 256 0 false fun _ => false, .lookForWork 1, .resume 1 fun o => o = 4] :=
  (faulting_read_keeps (by decide +kernel)).2 (by decide +kernel)

/-- A client is about to be told of its node that it has sent. -/
def offeringClient : List Action :=
  [.openProc 50, .getThread 0 50, .setContextMgr 0 1000 true, .mmap 0 0x10000 0x8000 {},
    .openProc 100, .getThread 1 100, .write 1 (.transaction (binderObject 0x1000)) {},
    .read 1 256 0 false fun _ => false, .lookForWork 1]

/-- `BR_INCREFS` cannot be written, and will not be written again. -/
theorem faulting_read_loses : ¬∀ s, (driverMachine layout32 .plain).Reach (fun _ _ => True) s →
    ∀ T fault, resumeEnd layout32 s T fault = .faulted →
      NothingLost s .faulted (resumeRead layout32 s T fault) := by
  intro hall
  have hkept := hall _ (reach_afterActions offeringClient) 1 (fun o => o = 4) (by decide +kernel)
  have hnode := hkept.nodes (by simp) 1
  revert hnode
  decide +kernel

end Binder

import BinderIpc.Driver.Retry
import BinderIpc.Txn.Reports

/-! Where `binder_thread_read` writes to the user's buffer, and what it leaves in
`*consumed`. Only the commands of the loop are put behind a test for their room. -/

namespace Binder

/-- The writes of a call that did not fault, each an offset and a length, and what is in
`*consumed` once it is stored. -/
structure ReadTrace where
  writes : List (ℕ × ℕ) := []
  stored : Option ℕ := none
  deriving DecidableEq

/-- With other writes before. -/
def ReadTrace.behind (t : ReadTrace) (l : List (ℕ × ℕ)) : ReadTrace :=
  { t with writes := l ++ t.writes }

/-- All is written to the first `size` bytes, and no more of them are reported. -/
def ReadTrace.Inside (size : ℕ) (t : ReadTrace) : Prop :=
  (∀ w ∈ t.writes, w.1 + w.2 ≤ size) ∧ ∀ c, t.stored = some c → c ≤ size

/-- What `readDone` writes; `*consumed` is stored first. -/
def doneTrace (s : Driver) (T ptr : ℕ) (fault : ℕ → Bool) : ReadTrace where
  writes := if wantsLooper s T && !fault 0 then [(0, 4)] else []
  stored := some ptr

/-- What `reportErrors` writes. -/
def errorsTrace (s : Driver) (T size ptr : ℕ) (fault : ℕ → Bool) : ReadTrace :=
  let y := s.thread.get T
  let report := fun ptr =>
    if fault ptr then {} else (doneTrace s T (ptr + 4) fault).behind [(ptr, 4)]
  if y.returnError2 = .ok then report ptr
  else if fault ptr then {}
  else if ptr + 4 = size then (doneTrace s T (ptr + 4) fault).behind [(ptr, 4)]
  else (report (ptr + 4)).behind [(ptr, 4)]

/-- What `waitForWork` writes. -/
def waitTrace (s : Driver) (T size ptr : ℕ) (fault : ℕ → Bool) : ReadTrace :=
  if (s.thread.get T).returnError ≠ .ok ∧ ptr < size then errorsTrace s T size ptr fault else {}

/-- What `binderThreadRead` writes. -/
def beginTrace (s : Driver) (T size consumed : ℕ) (fault : ℕ → Bool) : ReadTrace :=
  if consumed = 0 then
    if fault 0 then {} else (waitTrace s T size 4 fault).behind [(0, 4)]
  else waitTrace s T size consumed fault

/-- The writes for an item, as far as they go. -/
def itemWrites (s : Driver) (ptr : ℕ) (fault : ℕ → Bool) (w : Work) : List (ℕ × ℕ) :=
  List.takeWhile (fun r => !fault r.1) <|
    match w with
    | .transaction _ => [(ptr, 4), (ptr + 4, 64)]
    | .transactionComplete _ => [(ptr, 4)]
    | .node n =>
      if (nodeCommand (s.obj.node.get n) n).isSome then [(ptr, 4), (ptr + 4, 8), (ptr + 12, 8)]
      else []
    | .death d =>
      if (s.obj.death.get d).type.isSome then [(ptr, 4), (ptr + 4, 8)] else []

/-- What `readLoop` writes. -/
def loopTrace (L : Layout) (T : ℕ) (f : ReadFrame) (fault : ℕ → Bool) :
    ℕ → Driver → ℕ → ReadTrace
  | 0, _, _ => {}
  | k + 1, s, ptr =>
    match nextWork s T f.waitForProcWork with
    | none =>
      if ptr = 4 ∧ (s.thread.get T).looper.needReturn = false then waitTrace s T f.size ptr fault
      else doneTrace s T ptr fault
    | some w =>
      if noRoom L f.size ptr then doneTrace s T ptr fault
      else
        match readItem s T ptr fault w with
        | (s', .next ptr') => (loopTrace L T f fault k s' ptr').behind (itemWrites s ptr fault w)
        | (_, .fault) => { writes := itemWrites s ptr fault w }
        | (s', .done ptr') => (doneTrace s' T ptr' fault).behind (itemWrites s ptr fault w)

/-- What `resumeRead` writes, behind the rest of the call. -/
def resumeTrace (L : Layout) (s : Driver) (T : ℕ) (fault : ℕ → Bool) (t : ReadTrace) : ReadTrace :=
  match (s.thread.get T).asleep with
  | none => t
  | some f =>
    match f.verdict with
    | some true =>
      (loopTrace L T f fault (readFuel s) (stopWaiting s T f) f.ptr).behind t.writes
    | _ => t

/-! The condition -/

/-- The error codes that are pending have room from `ptr` on, those that are written. -/
def errorsFit (s : Driver) (T size ptr : ℕ) (fault : ℕ → Bool) : Prop :=
  (s.thread.get T).returnError ≠ .ok → ptr < size → fault ptr = false →
    ptr + 4 ≤ size ∧ ((s.thread.get T).returnError2 ≠ .ok → ptr + 4 ≠ size →
      fault (ptr + 4) = false → ptr + 8 ≤ size)

/-- A thread that stops waiting finds that a new looper is to be asked for. -/
def asksForLooper (s : Driver) (T : ℕ) (f : ReadFrame) : Prop :=
  let y := s.thread.get T
  let p := s.proc.get y.proc
  p.requestedThreads + (p.readyThreads - if f.waitForProcWork then 1 else 0) = 0 ∧
    p.requestedThreadsStarted < p.maxThreads ∧ (y.looper.registered || y.looper.entered)

/-- What happens in a call: it begins at `*consumed`, others leave some state of the driver, and
it goes on behind its wait. -/
inductive TraceStep
  | read (consumed : ℕ) (nonBlock : Bool) (fault : ℕ → Bool)
  | others (s : Driver)
  | resume (fault : ℕ → Bool)

/-- Calls of thread `T` with a buffer of `size` bytes. -/
def traceCall (L : Layout) (T size : ℕ) : Machine (Driver × ReadTrace) TraceStep where
  start x := (x.1.thread.get T).asleep = none ∧ x.2 = {}
  step x a := match a with
    | .read consumed nonBlock fault =>
      (binderThreadRead x.1 T size consumed nonBlock fault, beginTrace x.1 T size consumed fault)
    | .others s => (s, x.2)
    | .resume fault => (resumeRead L x.1 T fault, resumeTrace L x.1 T fault x.2)

/-- A read begins in a buffer that `*consumed` lies in, and others leave the stack of `T` alone. -/
def TraceStep.legal (T size : ℕ) (x : Driver × ReadTrace) : TraceStep → Prop
  | read consumed _ _ => (x.1.thread.get T).asleep = none ∧ consumed ≤ size
  | others s => s.frame T = x.1.frame T
  | resume _ => True

/-- A `BR_NOOP`, error codes and a `BR_SPAWN_LOOPER` are written only where there is room. -/
def TraceStep.fits (T size : ℕ) (x : Driver × ReadTrace) : TraceStep → Prop
  | read consumed _ fault =>
    if consumed = 0 then fault 0 = false → 4 ≤ size ∧ errorsFit x.1 T size 4 fault
    else errorsFit x.1 T size consumed fault
  | others _ => True
  | resume fault => ∀ f, (x.1.thread.get T).asleep = some f → f.verdict = some true →
    (size < 4 → asksForLooper x.1 T f → fault 0 = true) ∧
    (f.ptr = 4 → nextWork x.1 T f.waitForProcWork = none →
      (x.1.thread.get T).looper.needReturn = false → errorsFit x.1 T size 4 fault)

section

variable {L : Layout} {s : Driver} {T size ptr : ℕ} {f : ReadFrame} {fault : ℕ → Bool}
  {t : ReadTrace}

theorem inside_behind {l : List (ℕ × ℕ)} :
    (t.behind l).Inside size ↔ (∀ w ∈ l, w.1 + w.2 ≤ size) ∧ t.Inside size := by
  unfold ReadTrace.Inside ReadTrace.behind
  dsimp only
  rw [List.forall_mem_append, and_assoc]

theorem inside_one (n : ℕ) :
    (t.behind [(ptr, n)]).Inside size ↔ ptr + n ≤ size ∧ t.Inside size := by
  rw [inside_behind, List.forall_mem_singleton]

theorem inside_empty : ReadTrace.Inside size {} := ⟨by simp, nofun⟩

theorem doneTrace_inside (hptr : ptr ≤ size) : (doneTrace s T ptr fault).Inside size ↔
    (wantsLooper s T = true → fault 0 = false → 4 ≤ size) := by
  unfold ReadTrace.Inside doneTrace
  dsimp only
  have hstored : ∀ c, some ptr = some c → c ≤ size := fun c hc => Option.some.inj hc ▸ hptr
  rw [and_iff_left hstored]
  cases wantsLooper s T <;> cases fault 0 <;> simp

theorem errorsTrace_inside : (errorsTrace s T size ptr fault).Inside size ↔
    (fault ptr = false → ptr + 4 ≤ size ∧ ((s.thread.get T).returnError2 ≠ .ok →
      ptr + 4 ≠ size → fault (ptr + 4) = false → ptr + 8 ≤ size)) := by
  have hone : ∀ ptr, ((doneTrace s T (ptr + 4) fault).behind [(ptr, 4)]).Inside size ↔
      ptr + 4 ≤ size := by
    intro ptr
    rw [inside_one]
    refine and_iff_left_of_imp fun hle => ?_
    exact (doneTrace_inside hle).2 fun _ _ => by omega
  unfold errorsTrace
  dsimp only
  cases hf : fault ptr with
  | true => simp [inside_empty]
  | false =>
    simp only [Bool.false_eq_true, if_false, forall_const]
    by_cases h2 : (s.thread.get T).returnError2 = .ok
    · rw [if_pos h2, hone]
      exact ⟨fun hle => ⟨hle, fun hne => absurd h2 hne⟩, And.left⟩
    · rw [if_neg h2]
      by_cases hend : ptr + 4 = size
      · rw [if_pos hend, hone]
        exact ⟨fun hle => ⟨hle, fun _ hne => absurd hend hne⟩, And.left⟩
      · rw [if_neg hend, inside_one]
        refine and_congr_right fun _ => ?_
        cases fault (ptr + 4) with
        | true => simp [inside_empty]
        | false => simp [hone, h2, hend, Nat.add_assoc]

theorem waitTrace_inside :
    (waitTrace s T size ptr fault).Inside size ↔ errorsFit s T size ptr fault := by
  unfold waitTrace errorsFit
  by_cases h : (s.thread.get T).returnError ≠ .ok ∧ ptr < size
  · rw [if_pos h, errorsTrace_inside]
    simp only [h.1, h.2, true_imp_iff, ne_eq, not_false_iff]
  · rw [if_neg h]
    exact iff_of_true inside_empty fun h1 h2 => absurd ⟨h1, h2⟩ h

theorem errorsFit_of_large (hsize : ptr + 8 ≤ size) : errorsFit s T size ptr fault :=
  fun _ _ _ => ⟨by omega, fun _ _ _ => hsize⟩

theorem beginTrace_inside {consumed : ℕ} {nonBlock : Bool} {x : Driver × ReadTrace} :
    (beginTrace x.1 T size consumed fault).Inside size ↔
      (TraceStep.read consumed nonBlock fault).fits T size x := by
  unfold beginTrace TraceStep.fits
  dsimp only
  split_ifs with h0 hf
  · simp [hf, inside_empty]
  · rw [inside_one, waitTrace_inside]
    simp [hf]
  · exact waitTrace_inside

/-- Behind the test for room an item is written to the buffer. -/
theorem itemWrites_inside (hroom : ptr + 68 ≤ size) (w : Work) :
    ∀ r ∈ itemWrites s ptr fault w, r.1 + r.2 ≤ size := by
  intro r hr
  have hmem := (List.takeWhile_sublist _).subset hr
  cases w with
  | transaction t => simp at hmem; rcases hmem with rfl | rfl <;> dsimp only <;> omega
  | transactionComplete t => simp at hmem; rw [hmem]; omega
  | node n =>
    dsimp only at hmem
    split_ifs at hmem
    · simp at hmem
      rcases hmem with rfl | rfl | rfl <;> dsimp only <;> omega
    · cases hmem
  | death d =>
    dsimp only at hmem
    split_ifs at hmem
    · simp at hmem
      rcases hmem with rfl | rfl <;> dsimp only <;> omega
    · cases hmem

theorem readItem_ptr {w : Work} {s' : Driver} {ptr' : ℕ}
    (he : readItem s T ptr fault w = (s', .next ptr') ∨ readItem s T ptr fault w = (s', .done ptr')) :
    ptr ≤ ptr' ∧ ptr' ≤ ptr + 68 := by
  cases w with
  | transaction t =>
    simp only [readItem, readTransaction] at he
    split_ifs at he <;> simp_all <;> omega
  | transactionComplete t =>
    simp only [readItem] at he
    split_ifs at he <;> simp_all
    omega
  | node n =>
    simp only [readItem, readNode] at he
    split at he
    · split_ifs at he <;> simp_all
      omega
    · simp_all
  | death d =>
    simp only [readItem, readDeath] at he
    split at he
    · simp_all
    · split_ifs at he <;> simp_all <;> omega

theorem noRoom_iff (hptr : ptr ≤ size) (hsize : size < L.sizes) :
    noRoom L size ptr = true ↔ size < ptr + 68 := by
  unfold noRoom
  rw [decide_eq_true_iff, L.sub_eq hptr hsize]
  omega

/-- A buffer that takes an item has room for all the rest. -/
theorem loopTrace_inside_of_large {k : ℕ} (hlarge : 12 ≤ f.size) (hsize : f.size < L.sizes)
    (hptr : ptr ≤ f.size) : (loopTrace L T f fault k s ptr).Inside f.size := by
  have hdone : ∀ (s : Driver) ptr, ptr ≤ f.size → (doneTrace s T ptr fault).Inside f.size := by
    intro s ptr hle
    exact (doneTrace_inside hle).2 fun _ _ => by omega
  induction k generalizing s ptr with
  | zero => exact inside_empty
  | succ k ih =>
    unfold loopTrace
    cases nextWork s T f.waitForProcWork with
    | none =>
      dsimp only
      split_ifs with hretry
      · exact waitTrace_inside.2 (errorsFit_of_large (by omega))
      · exact hdone s ptr hptr
    | some w =>
      dsimp only
      split_ifs with hroom
      · exact hdone s ptr hptr
      · rw [noRoom_iff hptr hsize, not_lt] at hroom
        have hitem : ∀ r ∈ itemWrites s ptr fault w, r.1 + r.2 ≤ f.size := itemWrites_inside hroom w
        cases he : readItem s T ptr fault w with
        | mk s' turn =>
          cases turn with
          | next ptr' =>
            have hle := readItem_ptr (.inl he)
            exact inside_behind.2 ⟨hitem, ih (by omega)⟩
          | fault => exact ⟨hitem, nofun⟩
          | done ptr' =>
            have hle := readItem_ptr (.inr he)
            exact inside_behind.2 ⟨hitem, hdone s' ptr' (by omega)⟩

theorem loopTrace_inside {k : ℕ} (hsize : f.size < L.sizes) (hptr : ptr ≤ f.size) :
    (loopTrace L T f fault (k + 1) s ptr).Inside f.size ↔
      (f.size < 4 → wantsLooper s T = true → fault 0 = true) ∧
      (ptr = 4 → nextWork s T f.waitForProcWork = none →
        (s.thread.get T).looper.needReturn = false → errorsFit s T f.size 4 fault) := by
  by_cases hlarge : 12 ≤ f.size
  · refine iff_of_true (loopTrace_inside_of_large hlarge hsize hptr) ⟨fun _ => by omega, ?_⟩
    exact fun _ _ _ => errorsFit_of_large hlarge
  have hdone : (doneTrace s T ptr fault).Inside f.size ↔
      (f.size < 4 → wantsLooper s T = true → fault 0 = true) := by
    rw [doneTrace_inside hptr]
    cases fault 0 <;> cases wantsLooper s T <;> simp
  unfold loopTrace
  cases hw : nextWork s T f.waitForProcWork with
  | none =>
    dsimp only
    by_cases hretry : ptr = 4 ∧ (s.thread.get T).looper.needReturn = false
    · rw [if_pos hretry, hretry.1, waitTrace_inside]
      simp only [hretry.2, forall_const]
      exact ⟨fun h => ⟨fun _ => by omega, h⟩, And.right⟩
    · rw [if_neg hretry, hdone]
      exact ⟨fun h => ⟨h, fun h1 _ h2 => absurd ⟨h1, h2⟩ hretry⟩, And.left⟩
  | some w =>
    have hroom : noRoom L f.size ptr = true := (noRoom_iff hptr hsize).2 (by omega)
    dsimp only
    rw [if_pos hroom, hdone]
    exact ⟨fun h => ⟨h, fun _ h1 => by cases h1⟩, And.left⟩

theorem wantsLooper_stopWaiting : wantsLooper (stopWaiting s T f) T = true ↔ asksForLooper s T f := by
  unfold wantsLooper asksForLooper stopWaiting
  cases f.waitForProcWork <;> simp [Driver.modThread, Driver.modProc]

theorem resumeTrace_inside (hf : (s.thread.get T).asleep = some f) (hv : f.verdict = some true)
    (hsize : f.size < L.sizes) (hptr : f.ptr ≤ f.size) (ht : t.Inside f.size) :
    (resumeTrace L s T fault t).Inside f.size ↔ (TraceStep.resume fault).fits T f.size (s, t) := by
  have hone : ∀ P : ReadFrame → Prop,
      (∀ g, (s.thread.get T).asleep = some g → g.verdict = some true → P g) ↔ P f := by
    intro P
    refine ⟨fun h => h f hf hv, fun h g hg _ => ?_⟩
    rw [hf] at hg
    exact Option.some.inj hg ▸ h
  have hnext : nextWork (stopWaiting s T f) T f.waitForProcWork = nextWork s T f.waitForProcWork := by
    unfold nextWork stopWaiting
    cases f.waitForProcWork <;> simp [Driver.modThread, Driver.modProc]
  have hthread : ∀ {β : Type} (g : BinderThread → β), (∀ y, g { y with asleep := none } = g y) →
      g ((stopWaiting s T f).thread.get T) = g (s.thread.get T) := by
    intro β g hg
    unfold stopWaiting
    cases f.waitForProcWork <;> simp [Driver.modThread, Driver.modProc, hg]
  unfold resumeTrace TraceStep.fits
  rw [hf]
  dsimp only
  rw [hv]
  dsimp only
  rw [inside_behind, readFuel, loopTrace_inside hsize hptr, and_iff_right ht.1, wantsLooper_stopWaiting,
    hnext, hthread (·.looper.needReturn) fun _ => rfl]
  have herr : errorsFit (stopWaiting s T f) T f.size 4 fault ↔ errorsFit s T f.size 4 fault := by
    unfold errorsFit
    rw [hthread (·.returnError) fun _ => rfl, hthread (·.returnError2) fun _ => rfl]
  rw [herr, ← hf, hone]

end

/-! Runs -/

variable {L : Layout} {rb : RbTree ℕ} {T size : ℕ} {x : Driver × ReadTrace}

/-- What holds between the steps of calls that fit. -/
structure InCall (T size : ℕ) (x : Driver × ReadTrace) : Prop where
  inside : x.2.Inside size
  frame : ∀ f, (x.1.thread.get T).asleep = some f → f.size = size ∧ f.ptr ≤ size

theorem waitForWork_frame {s : Driver} {ptr : ℕ} {nonBlock : Bool} {fault : ℕ → Bool}
    (hs : (s.thread.get T).asleep = none) (hptr : ptr ≤ size) (f : ReadFrame)
    (hf : ((waitForWork s T size ptr nonBlock fault).thread.get T).asleep = some f) :
    f.size = size ∧ f.ptr ≤ size := by
  obtain ⟨rfl, -⟩ := waitForWork_asleep hs hf
  exact ⟨rfl, hptr⟩

/-- A call without room for a `BR_NOOP` does not jump to `retry`. -/
theorem readLoop_four_le {s : Driver} {ptr k : ℕ} {f f' : ReadFrame} {fault : ℕ → Bool}
    (hs : (s.thread.get T).asleep = none) (hsize : f.size < L.sizes) (hptr : ptr ≤ f.size)
    (hf : ((readLoop L T f fault k s ptr).thread.get T).asleep = some f') : 4 ≤ f.size := by
  by_contra hlt
  cases k with
  | zero =>
    have hf : (s.thread.get T).asleep = some f' := hf
    rw [hs] at hf
    cases hf
  | succ k =>
    have hroom : noRoom L f.size ptr = true := (noRoom_iff hptr hsize).2 (by omega)
    have hretry : ¬(ptr = 4 ∧ (s.thread.get T).looper.needReturn = false) := by omega
    have hdone : readLoop L T f fault (k + 1) s ptr = readDone s T ptr fault := by
      unfold readLoop
      cases nextWork s T f.waitForProcWork with
      | none => exact if_neg hretry
      | some w => exact if_pos hroom
    rw [hdone, readDone_awake hs] at hf
    cases hf

theorem InCall.fits_iff (h : InCall T size x) (hsize : size < L.sizes) (a : TraceStep) :
    ((traceCall L T size).step x a).2.Inside size ↔ a.fits T size x := by
  cases a with
  | read consumed nonBlock fault => exact beginTrace_inside
  | others s => exact iff_of_true h.inside trivial
  | resume fault =>
    change (resumeTrace L x.1 T fault x.2).Inside size ↔ _
    cases hf : (x.1.thread.get T).asleep with
    | none =>
      have heq : resumeTrace L x.1 T fault x.2 = x.2 := by rw [resumeTrace, hf]
      rw [heq]
      refine iff_of_true h.inside fun f hf' => ?_
      rw [hf] at hf'
      cases hf'
    | some f =>
      obtain ⟨rfl, hptr⟩ := h.frame f hf
      by_cases hv : f.verdict = some true
      · exact resumeTrace_inside hf hv hsize hptr h.inside
      · have heq : resumeTrace L x.1 T fault x.2 = x.2 := by
          rw [resumeTrace, hf]
          dsimp only
          split
          · exact absurd ‹_› hv
          · rfl
        rw [heq]
        refine iff_of_true h.inside fun g hg hgv => ?_
        rw [hf] at hg
        cases hg
        exact absurd hgv hv

theorem InCall.step (h : InCall T size x) (hsize : size < L.sizes) {a : TraceStep}
    (hlegal : a.legal T size x) (hfits : a.fits T size x) :
    InCall T size ((traceCall L T size).step x a) := by
  refine ⟨(h.fits_iff hsize a).2 hfits, ?_⟩
  intro f hf
  cases a with
  | read consumed nonBlock fault =>
    obtain ⟨hawake, hle⟩ := hlegal
    change ((binderThreadRead x.1 T size consumed nonBlock fault).thread.get T).asleep = some f at hf
    unfold binderThreadRead at hf
    unfold TraceStep.fits at hfits
    dsimp only at hfits
    split_ifs at hf hfits with h0 hfault
    · rw [hawake] at hf
      cases hf
    · exact waitForWork_frame hawake (hfits (by simpa using hfault)).1 f hf
    · exact waitForWork_frame hawake hle f hf
  | others s =>
    have hframe : s.frame T = x.1.frame T := hlegal
    have hf : (s.thread.get T).asleep = some f := hf
    rw [Driver.frame, hf, Option.map_some, eq_comm, Driver.frame, Option.map_eq_some_iff] at hframe
    obtain ⟨g, hg, he⟩ := hframe
    obtain ⟨h1, h2⟩ := h.frame g hg
    have hsize : g.size = f.size := congrArg Prod.fst he
    have hptr : g.ptr = f.ptr := congrArg Prod.snd he
    exact ⟨hsize ▸ h1, hptr ▸ h2⟩
  | resume fault =>
    change ((resumeRead L x.1 T fault).thread.get T).asleep = some f at hf
    unfold resumeRead at hf
    cases hg : (x.1.thread.get T).asleep with
    | none =>
      rw [hg] at hf
      dsimp only at hf
      rw [hg] at hf
      cases hf
    | some g =>
      have hawake : ((stopWaiting x.1 T g).thread.get T).asleep = none := by
        simp [stopWaiting, Driver.modThread]
      obtain ⟨hgsize, hgptr⟩ := h.frame g hg
      rw [hg] at hf
      dsimp only at hf
      split at hf
      · exact h.frame f hf
      · rw [hawake] at hf
        cases hf
      · rw [← hgsize] at hsize hgptr ⊢
        have hfour := readLoop_four_le hawake hsize hgptr hf
        obtain ⟨s₀, hs₀, -, -, heq⟩ := readLoop_asleep hawake hf
        rw [heq] at hf
        exact waitForWork_frame hs₀ hfour f hf

/-- In every run whose steps fit all is written inside the buffer, and a next step keeps it so
exactly if it fits. -/
theorem read_inside (hsize : size < L.sizes)
    (h : (traceCall L T size).Reach (fun x a => a.legal T size x ∧ a.fits T size x) x) :
    x.2.Inside size ∧ ∀ a : TraceStep, a.legal T size x →
      (((traceCall L T size).step x a).2.Inside size ↔ a.fits T size x) := by
  have hcall : InCall T size x := by
    refine h.invariant (fun x hx => ?_) fun x a hi ha => hi.step hsize ha.1 ha.2
    obtain ⟨hawake, htrace⟩ := hx
    refine ⟨htrace ▸ inside_empty, fun f hf => ?_⟩
    rw [hawake] at hf
    cases hf
  exact ⟨hcall.inside, fun a _ => hcall.fits_iff hsize a⟩

/-- The only looper of a process has made a call that was refused. -/
def refusedLooper : List Action :=
  [.openProc 100, .getThread 0 100, .setMaxThreads 0 15, .write 0 .enterLooper {},
    .write 0 (.transaction { handle := 99 }) {}]

/-- `BR_NOOP`, the error code and `BR_SPAWN_LOOPER` just fit into 8 bytes, and not into 6. -/
theorem read_inside_client :
    ((traceCall layout32 0 8).step (afterActions refusedLooper, {})
        (.read 0 false fun _ => false)).2.Inside 8 ∧
      (beginTrace (afterActions refusedLooper) 0 8 0 fun _ => false).writes =
        [(0, 4), (4, 4), (0, 4)] ∧
      ¬((traceCall layout32 0 6).step (afterActions refusedLooper, {})
        (.read 0 false fun _ => false)).2.Inside 6 := by
  have hawake : ((afterActions refusedLooper).thread.get 0).asleep = none := by decide +kernel
  have herr : ((afterActions refusedLooper).thread.get 0).returnError ≠ .ok := by decide +kernel
  have herr2 : ((afterActions refusedLooper).thread.get 0).returnError2 = .ok := by decide +kernel
  have hstart : ∀ size, (traceCall layout32 0 size).Reach
      (fun x a => a.legal 0 size x ∧ a.fits 0 size x) (afterActions refusedLooper, {}) :=
    fun _ => .start ⟨hawake, rfl⟩
  have hlegal : ∀ size, (TraceStep.read 0 false fun _ => false).legal 0 size
      (afterActions refusedLooper, {}) := fun size => ⟨hawake, Nat.zero_le size⟩
  refine ⟨?_, by decide +kernel, fun hin => ?_⟩
  · have hfits : (TraceStep.read 0 false fun _ => false).fits 0 8
        (afterActions refusedLooper, {}) :=
      fun _ => ⟨by decide, fun _ _ _ => ⟨by decide, fun hne => absurd herr2 hne⟩⟩
    exact ((read_inside (by decide) (hstart 8)).2 _ (hlegal 8)).2 hfits
  · have hfits := ((read_inside (by decide) (hstart 6)).2 _ (hlegal 6)).1 hin
    exact absurd ((hfits rfl).2 herr (by decide) rfl).1 (by decide)

/-- A buffer of 2 bytes is overrun by `BR_NOOP`. -/
theorem read_outside : ¬∀ x, (traceCall layout32 1 2).Reach (fun x a => a.legal 1 2 x ∧
    (driverMachine layout32 .plain).Reach (fun _ _ => True) x.1) x → x.2.Inside 2 := by
  intro hall
  have hstart : (traceCall layout32 1 2).Reach (fun x a => a.legal 1 2 x ∧
      (driverMachine layout32 .plain).Reach (fun _ _ => True) x.1)
      (afterActions callingClient, {}) := .start ⟨by decide +kernel, rfl⟩
  have hread := hall _ (hstart.step (.read 0 false fun _ => false)
    ⟨⟨by decide +kernel, by decide⟩, reach_afterActions callingClient⟩)
  have hnoop : (0, 4) ∈ (beginTrace (afterActions callingClient) 1 2 0 fun _ => false).writes := by
    simp [beginTrace, ReadTrace.behind]
  exact absurd (hread.1 (0, 4) hnoop) (by decide)

end Binder

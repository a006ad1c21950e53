import BinderIpc.Driver.Grows
import BinderIpc.Lib.Run
import BinderIpc.Wire.Returns

/-! What a read writes to the user's buffer, byte for byte, and that the user
splits it again. The functions follow those of the driver branch by branch and
take the driver's own state along. -/

namespace Binder

def ReturnError.brCode : ReturnError → BrCode
  | ok => .ok
  | failedReply => .failedReply
  | deadReply => .deadReply
  | transactionComplete => .transactionComplete
  | error => .error

def Br.code : Br → BrCode
  | transactionComplete _ => .transactionComplete
  | increfs _ => .increfs
  | acquire _ => .acquire
  | release _ => .release
  | decrefs _ => .decrefs
  | deadBinder _ => .deadBinder
  | clearDeathNotificationDone _ => .clearDeathNotificationDone
  | transaction _ _ => .transaction
  | reply _ => .reply
  | returnError e => e.brCode
  | spawnLooper => .spawnLooper

/-- The buffer of a read, from its start on. `emitted` lists the commands that
the driver has put there; `result` is set when the call returns, to `*consumed`
or to an error. -/
structure ReadBuffer where
  mem : ℕ → UInt8
  emitted : List Returned := []
  result : Option (Option ℕ) := none

namespace ReadBuffer

variable (u : ReadBuffer)

def put (ptr : ℕ) (bs : List UInt8) : ReadBuffer := { u with mem := putBytes u.mem ptr bs }

def emit (r : Returned) : ReadBuffer := { u with emitted := u.emitted ++ [r] }

def putCode (ptr : ℕ) (c : BrCode) : ReadBuffer := (u.put ptr (le32 c.word)).emit { code := c }

def putNode (ptr : ℕ) (c : BrCode) (x : BinderNode) : ReadBuffer :=
  let nodePtr := le64 (BitVec.ofNat 64 x.ptr)
  let cookie := le64 (BitVec.ofNat 64 x.cookie)
  (((u.put ptr (le32 c.word)).put (ptr + 4) nodePtr).put (ptr + 12) cookie).emit
    { code := c, payload := nodePtr ++ cookie }

def putDeath (ptr : ℕ) (c : BrCode) (cookie : ℕ) : ReadBuffer :=
  let cookie := le64 (BitVec.ofNat 64 cookie)
  ((u.put ptr (le32 c.word)).put (ptr + 4) cookie).emit { code := c, payload := cookie }

def putTransaction (ptr : ℕ) (c : BrCode) (tr : TransactionWords) : ReadBuffer :=
  ((u.put ptr (le32 c.word)).put (ptr + 4) tr.bytes).emit { code := c, payload := tr.bytes }

/-- `BR_NOOP` at the start of the buffer. -/
def start : ReadBuffer := { u with emitted := [], result := none }.putCode 0 .noop

end ReadBuffer

/-- `tr`; `rest` gives the flags, the user id and the addresses. -/
def deliveredWords (rest : ℕ → TransactionWords) (s : Driver) (t : ℕ) : TransactionWords :=
  let node := ((s.bufferOf t).bind (·.targetNode)).map s.obj.node.get
  { rest t with
    target := BitVec.ofNat 64 (node.elim 0 (·.ptr))
    cookie := BitVec.ofNat 64 (node.elim 0 (·.cookie))
    code := BitVec.ofNat 32 (s.txn.get t).code
    senderPid := BitVec.ofNat 32 (s.senderPid t)
    dataSize := BitVec.ofNat 64 ((s.bufferOf t).elim 0 (·.dataSize))
    offsetsSize := BitVec.ofNat 64 ((s.bufferOf t).elim 0 (·.offsetsSize)) }

/-- What `readItem` puts at `ptr`. -/
def putItem (rest : ℕ → TransactionWords) (s : Driver) (u : ReadBuffer) (ptr : ℕ) :
    Work → ReadBuffer
  | .transaction t =>
    u.putTransaction ptr
      (if (s.bufferOf t).any (·.targetNode.isSome) then .transaction else .reply)
      (deliveredWords rest s t)
  | .transactionComplete _ => u.putCode ptr .transactionComplete
  | .node n =>
    match nodeCommand (s.obj.node.get n) n with
    | some (cmd, _) => u.putNode ptr cmd.code (s.obj.node.get n)
    | none => u
  | .death d =>
    match (s.obj.death.get d).type with
    | none => u
    | some type =>
      u.putDeath ptr
        (if type = .clearDeathNotification then .clearDeathNotificationDone else .deadBinder)
        (s.obj.death.get d).cookie

/-- What `readDone` puts. -/
def putDone (s : Driver) (T ptr : ℕ) (fault : ℕ → Bool) (u : ReadBuffer) : ReadBuffer :=
  let y := s.thread.get T
  let p := s.proc.get y.proc
  if p.requestedThreads + p.readyThreads = 0 ∧ p.requestedThreadsStarted < p.maxThreads ∧
      (y.looper.registered || y.looper.entered) then
    if fault 0 then { u with result := some none }
    else
      { u.put 0 (le32 BrCode.spawnLooper.word) with
        emitted := { code := .spawnLooper } :: u.emitted.tail
        result := some (some ptr) }
  else { u with result := some (some ptr) }

/-- What `reportErrors` puts. -/
def putErrors (s : Driver) (T size ptr : ℕ) (fault : ℕ → Bool) (u : ReadBuffer) : ReadBuffer :=
  let y := s.thread.get T
  let report := fun (u : ReadBuffer) ptr =>
    if fault ptr then { u with result := some none }
    else putDone s T (ptr + 4) fault (u.putCode ptr y.returnError.brCode)
  if y.returnError2 = .ok then report u ptr
  else if fault ptr then { u with result := some none }
  else
    let u := u.putCode ptr y.returnError2.brCode
    if ptr + 4 = size then putDone s T (ptr + 4) fault u else report u (ptr + 4)

/-- What `waitForWork` puts. -/
def putWait (s : Driver) (T size ptr : ℕ) (fault : ℕ → Bool) (u : ReadBuffer) : ReadBuffer :=
  if (s.thread.get T).returnError ≠ .ok ∧ ptr < size then putErrors s T size ptr fault u else u

/-- What `binderThreadRead` puts when `*consumed` is 0. -/
def putBegin (s : Driver) (T size : ℕ) (fault : ℕ → Bool) (u : ReadBuffer) : ReadBuffer :=
  if fault 0 then { u.start with result := some none } else putWait s T size 4 fault u.start

/-- What `readLoop` puts. -/
def putLoop (L : Layout) (rest : ℕ → TransactionWords) (T : ℕ) (f : ReadFrame) (fault : ℕ → Bool) :
    ℕ → Driver → ℕ → ReadBuffer → ReadBuffer
  | 0, _, _, u => { u with result := some none }
  | k + 1, s, ptr, u =>
    match nextWork s T f.waitForProcWork with
    | none =>
      if ptr = 4 ∧ (s.thread.get T).looper.needReturn = false then putWait s T f.size ptr fault u
      else putDone s T ptr fault u
    | some w =>
      if noRoom L f.size ptr then putDone s T ptr fault u
      else
        match readItem s T ptr fault w with
        | (s', .next ptr') => putLoop L rest T f fault k s' ptr' (putItem rest s u ptr w)
        | (_, .fault) => { u with result := some none }
        | (s', .done ptr') => putDone s' T ptr' fault (putItem rest s u ptr w)

/-- What `resumeRead` puts. -/
def putResume (L : Layout) (rest : ℕ → TransactionWords) (s : Driver) (T : ℕ) (fault : ℕ → Bool)
    (u : ReadBuffer) : ReadBuffer :=
  match (s.thread.get T).asleep with
  | none => u
  | some f =>
    match f.verdict with
    | none => u
    | some false => { u with result := some none }
    | some true => putLoop L rest T f fault (readFuel s) (stopWaiting s T f) f.ptr u

/-! The layout -/

/-- The emitted commands lie in the first `c` bytes, one behind the other. -/
structure ReadBuffer.Laid (u : ReadBuffer) (c : ℕ) : Prop where
  stored : Stored u.mem 0 (u.emitted.flatMap (·.bytes))
  length : (u.emitted.flatMap (·.bytes)).length = c

/-- Those of a call that has not returned. -/
structure ReadBuffer.Open (u : ReadBuffer) (c : ℕ) : Prop extends u.Laid c where
  first : ∃ l, u.emitted = { code := .noop } :: l
  result : u.result = none

/-- The reader knows the length of every command. -/
def ReadBuffer.Fits (u : ReadBuffer) : Prop := ∀ r ∈ u.emitted, r.Fits

namespace ReadBuffer

variable {u : ReadBuffer} {c ptr : ℕ}

theorem Laid.split_iff (h : u.Laid c) : split u.mem c = some u.emitted ↔ u.Fits :=
  split_stored_iff h.stored h.length.symm

theorem Open.emit (h : u.Open ptr) {mem : ℕ → UInt8} {r : Returned}
    (hmem : Stored mem 0 (u.emitted.flatMap (·.bytes) ++ r.bytes)) :
    ({ u with mem := mem }.emit r).Open (ptr + r.bytes.length) where
  stored := by simpa [ReadBuffer.emit] using hmem
  length := by simp [ReadBuffer.emit, h.length]
  first := by
    obtain ⟨l, hl⟩ := h.first
    exact ⟨l ++ [r], by simp [ReadBuffer.emit, hl]⟩
  result := h.result

theorem Fits.emit (h : u.Fits) {mem : ℕ → UInt8} {r : Returned} (hr : r.Fits) :
    ({ u with mem := mem }.emit r).Fits := by
  intro x hx
  rcases List.mem_append.1 hx with hx | hx
  · exact h x hx
  · rw [List.mem_singleton.1 hx]
    exact hr

theorem Open.code (h : u.Open ptr) (c : BrCode) :
    Stored (putBytes u.mem ptr (le32 c.word)) 0 (u.emitted.flatMap (·.bytes) ++ le32 c.word) :=
  h.stored.putBytes_append (by rw [h.length, Nat.zero_add])

theorem Open.putCode (h : u.Open ptr) (c : BrCode) : (u.putCode ptr c).Open (ptr + 4) := by
  have hmem := h.code c
  exact h.emit (r := { code := c }) (by simpa [Returned.bytes] using hmem)

theorem Open.payload (h : u.Open ptr) (c : BrCode) (bs : List UInt8) :
    Stored (putBytes (putBytes u.mem ptr (le32 c.word)) (ptr + 4) bs) 0
      (u.emitted.flatMap (·.bytes) ++ le32 c.word ++ bs) :=
  (h.code c).putBytes_append (by simp [h.length])

theorem Open.putTransaction (h : u.Open ptr) (c : BrCode) (tr : TransactionWords) :
    (u.putTransaction ptr c tr).Open (ptr + 68) := by
  have ho := h.emit (r := { code := c, payload := tr.bytes })
    (by simpa [Returned.bytes] using h.payload c tr.bytes)
  rw [Returned.length_bytes, TransactionWords.length_bytes] at ho
  exact ho

theorem Open.putDeath (h : u.Open ptr) (c : BrCode) (cookie : ℕ) :
    (u.putDeath ptr c cookie).Open (ptr + 12) := by
  have ho := h.emit (r := { code := c, payload := le64 (BitVec.ofNat 64 cookie) })
    (by simpa [Returned.bytes] using h.payload c (le64 (BitVec.ofNat 64 cookie)))
  rw [Returned.length_bytes, length_le64] at ho
  exact ho

theorem Open.putNode (h : u.Open ptr) (c : BrCode) (x : BinderNode) :
    (u.putNode ptr c x).Open (ptr + 20) := by
  have hmem : Stored (putBytes (putBytes (putBytes u.mem ptr (le32 c.word)) (ptr + 4)
      (le64 (BitVec.ofNat 64 x.ptr))) (ptr + 12) (le64 (BitVec.ofNat 64 x.cookie))) 0
      (u.emitted.flatMap (·.bytes) ++ le32 c.word ++ le64 (BitVec.ofNat 64 x.ptr) ++
        le64 (BitVec.ofNat 64 x.cookie)) :=
    (h.payload c (le64 (BitVec.ofNat 64 x.ptr))).putBytes_append (by simp [h.length])
  have ho := h.emit (r := ⟨c, le64 (BitVec.ofNat 64 x.ptr) ++ le64 (BitVec.ofNat 64 x.cookie)⟩)
    (by simpa [Returned.bytes] using hmem)
  rw [Returned.length_bytes, List.length_append, length_le64, length_le64] at ho
  exact ho

theorem open_start (u : ReadBuffer) : u.start.Open 4 where
  stored := by simpa [start, putCode, put, ReadBuffer.emit, Returned.bytes] using stored_putBytes
  length := by simp [start, putCode, put, ReadBuffer.emit, Returned.bytes]
  first := ⟨[], rfl⟩
  result := rfl

theorem fits_start (u : ReadBuffer) : u.start.Fits := by
  intro r hr
  obtain rfl : r = { code := .noop } := by
    simpa [start, putCode, put, ReadBuffer.emit] using hr
  rfl

end ReadBuffer

/-! One step of a call -/

theorem ReturnError.fits {e : ReturnError} (he : e ≠ .error) : Returned.Fits { code := e.brCode } := by
  cases e with
  | error => exact absurd rfl he
  | _ => rfl

/-- Neither of the pending errors of `T` is `BR_ERROR`. -/
def Driver.noBrError (s : Driver) (T : ℕ) : Prop :=
  (s.thread.get T).returnError ≠ .error ∧ (s.thread.get T).returnError2 ≠ .error

/-- The call has returned, and the user splits what was reported. -/
def ReadBuffer.Split (u : ReadBuffer) : Prop :=
  u.result ≠ none ∧ ∀ c, u.result = some (some c) → split u.mem c = some u.emitted

/-- The call waits; so far it has put a `BR_NOOP`. -/
structure Waits (s : Driver) (T size : ℕ) (u : ReadBuffer) : Prop where
  opened : u.Open 4
  fits : u.Fits
  asleep : ∃ f, (s.thread.get T).asleep = some f ∧ f.size = size ∧ f.ptr = 4

section

variable {L : Layout} {rest : ℕ → TransactionWords} {s : Driver} {T size ptr : ℕ}
  {fault : ℕ → Bool} {u : ReadBuffer}

theorem split_error (u : ReadBuffer) : ReadBuffer.Split { u with result := some none } :=
  ⟨nofun, nofun⟩

theorem putDone_split (h : u.Open ptr) (hf : u.Fits) : (putDone s T ptr fault u).Split := by
  unfold putDone
  dsimp only
  split_ifs
  · exact split_error u
  · obtain ⟨l, hl⟩ := h.first
    have hlaid : ReadBuffer.Laid ⟨putBytes u.mem 0 (le32 BrCode.spawnLooper.word),
        { code := .spawnLooper } :: l, some (some ptr)⟩ ptr := by
      have hst := h.stored
      have hlen := h.length
      rw [hl, List.flatMap_cons] at hst hlen
      refine ⟨?_, ?_⟩
      · have hfour : ∀ c : BrCode, (Returned.bytes { code := c }).length = 4 := fun c => by
          simp [Returned.bytes]
        rw [List.flatMap_cons, stored_append, hfour]
        rw [stored_append, hfour] at hst
        dsimp only
        refine ⟨by simpa [Returned.bytes] using stored_putBytes, hst.2.putBytes (Or.inr ?_)⟩
        simp
      · simpa [Returned.bytes] using hlen
    refine ⟨by simp, fun c hc => ?_⟩
    cases hc
    rw [hl, List.tail_cons]
    refine hlaid.split_iff.2 fun r hr => ?_
    rcases List.mem_cons.1 hr with rfl | hr
    · rfl
    · exact hf r (by simp [hl, hr])
  · refine ⟨by simp, fun c hc => ?_⟩
    cases hc
    exact h.split_iff.2 hf

theorem putErrors_split (hs : s.noBrError T) (h : u.Open ptr) (hf : u.Fits) :
    (putErrors s T size ptr fault u).Split := by
  have hreport : ∀ (u : ReadBuffer) (ptr : ℕ), u.Open ptr → u.Fits → ReadBuffer.Split
      (if fault ptr then { u with result := some none }
        else putDone s T (ptr + 4) fault (u.putCode ptr (s.thread.get T).returnError.brCode)) := by
    intro u ptr h hf
    split_ifs
    · exact split_error u
    · exact putDone_split (h.putCode _) (hf.emit (ReturnError.fits hs.1))
  unfold putErrors
  dsimp only
  split_ifs
  · exact split_error u
  · exact putDone_split (h.putCode _) (hf.emit (ReturnError.fits hs.1))
  · exact split_error u
  · exact putDone_split (h.putCode _) (hf.emit (ReturnError.fits hs.2))
  · exact split_error _
  · exact putDone_split ((h.putCode _).putCode _)
      ((hf.emit (ReturnError.fits hs.2)).emit (ReturnError.fits hs.1))

/-- What a step leaves: a call that waits, or one that has returned. -/
theorem putWait_step (nonBlock : Bool) (hs : s.noBrError T) (h : u.Open 4) (hf : u.Fits) :
    Waits (waitForWork s T size 4 nonBlock fault) T size (putWait s T size 4 fault u) ∨
      (putWait s T size 4 fault u).Split := by
  unfold putWait waitForWork
  dsimp only
  by_cases hc : (s.thread.get T).returnError ≠ .ok ∧ 4 < size
  · rw [if_pos hc, if_pos hc]
    exact Or.inr (putErrors_split hs h hf)
  · rw [if_neg hc, if_neg hc]
    let f : ReadFrame :=
      { size := size, ptr := 4, nonBlock := nonBlock
        waitForProcWork := (s.thread.get T).transactionStack.isNone &&
          s.obj.todo.isEmpty (.threadTodo T) }
    refine Or.inl ⟨h, hf, f, ?_, rfl, rfl⟩
    simp [Driver.modThread, f]

theorem putBegin_step (nonBlock : Bool) (hs : s.noBrError T) :
    Waits (binderThreadRead s T size 0 nonBlock fault) T size (putBegin s T size fault u) ∨
      (putBegin s T size fault u).Split := by
  unfold putBegin binderThreadRead
  rw [if_pos rfl]
  split_ifs
  · exact Or.inr (split_error _)
  · exact putWait_step nonBlock hs u.open_start u.fits_start

theorem nodeCommand_fits {x y : BinderNode} {n : ℕ} {cmd : Br} (h : nodeCommand x n = some (cmd, y))
    {bs : List UInt8} (hbs : bs.length = 16) : Returned.Fits { code := cmd.code, payload := bs } := by
  unfold nodeCommand at h
  dsimp only at h
  split_ifs at h <;> cases h <;> simp [Returned.Fits, Br.code, waitForResponseReads,
    executeCommandReads, hbs]

variable (rest) in
/-- What an item puts fits, and lies where the driver's `ptr` is behind it. -/
theorem putItem_step {w : Work} {s' : Driver} {turn : Turn} (h : u.Open ptr) (hf : u.Fits)
    (he : readItem s T ptr fault w = (s', turn)) (hturn : turn ≠ .fault) :
    ∃ ptr', (turn = .next ptr' ∨ turn = .done ptr') ∧ (putItem rest s u ptr w).Open ptr' ∧
      (putItem rest s u ptr w).Fits := by
  cases w with
  | transaction t =>
    simp only [readItem, readTransaction] at he
    split at he
    · cases he
      exact absurd rfl hturn
    · cases he
      refine ⟨_, Or.inr rfl, h.putTransaction _ _, hf.emit ?_⟩
      split_ifs <;> simp [Returned.Fits, waitForResponseReads, executeCommandReads]
  | transactionComplete t =>
    simp only [readItem] at he
    split_ifs at he
    · cases he
      exact absurd rfl hturn
    · cases he
      exact ⟨_, Or.inl rfl, h.putCode _, hf.emit rfl⟩
  | node n =>
    simp only [readItem, readNode] at he
    simp only [putItem]
    cases hc : nodeCommand (s.obj.node.get n) n with
    | none =>
      rw [hc] at he
      cases he
      exact ⟨ptr, Or.inl rfl, h, hf⟩
    | some p =>
      obtain ⟨cmd, x⟩ := p
      rw [hc] at he
      dsimp only at he
      split_ifs at he
      · cases he
        exact absurd rfl hturn
      · cases he
        exact ⟨_, Or.inl rfl, h.putNode _ _, hf.emit (nodeCommand_fits hc (by simp))⟩
  | death d =>
    simp only [readItem, readDeath] at he
    simp only [putItem]
    cases hd : (s.obj.death.get d).type with
    | none =>
      rw [hd] at he
      cases he
      exact ⟨ptr, Or.inl rfl, h, hf⟩
    | some type =>
      rw [hd] at he
      dsimp only at he ⊢
      split_ifs at he with h1 h2
      · cases he
        exact absurd rfl hturn
      · cases he
        refine ⟨_, Or.inl rfl, h.putDeath _ _, hf.emit ?_⟩
        simp [h2, Returned.Fits, waitForResponseReads, executeCommandReads]
      · cases he
        refine ⟨_, Or.inr rfl, h.putDeath _ _, hf.emit ?_⟩
        simp [h2, Returned.Fits, waitForResponseReads, executeCommandReads]

/-- The loop is at `ptr`, and what it has put lies before it. -/
theorem putLoop_step {f : ReadFrame} (k : ℕ) (hs : s.noBrError T) (h : u.Open ptr) (hf : u.Fits) :
    Waits (readLoop L T f fault k s ptr) T f.size (putLoop L rest T f fault k s ptr u) ∨
      (putLoop L rest T f fault k s ptr u).Split := by
  induction k generalizing s ptr u with
  | zero => exact Or.inr (split_error u)
  | succ k ih =>
    unfold readLoop putLoop
    cases hw : nextWork s T f.waitForProcWork with
    | none =>
      dsimp only
      split_ifs with hretry
      · obtain ⟨rfl, -⟩ := hretry
        exact putWait_step _ hs h hf
      · exact Or.inr (putDone_split h hf)
    | some w =>
      dsimp only
      split_ifs
      · exact Or.inr (putDone_split h hf)
      · cases he : readItem s T ptr fault w with
        | mk s' turn =>
          cases turn with
          | fault => exact Or.inr (split_error u)
          | next ptr' =>
            obtain ⟨q, hq, ho, hfit⟩ := putItem_step rest h hf he (by simp)
            obtain rfl : ptr' = q := by simpa using hq
            have hthread := (readItem_next (K := .any) s T fault he).2.2.1
            exact ih (by rwa [Driver.noBrError, hthread]) ho hfit
          | done ptr' =>
            obtain ⟨q, hq, ho, hfit⟩ := putItem_step rest h hf he (by simp)
            obtain rfl : ptr' = q := by simpa using hq
            exact Or.inr (putDone_split ho hfit)

theorem stopWaiting_noBrError {f : ReadFrame} (hs : s.noBrError T) :
    (stopWaiting s T f).noBrError T := by
  unfold Driver.noBrError at hs ⊢
  unfold stopWaiting
  split_ifs <;> simpa [Driver.modThread, Driver.modProc] using hs

theorem putResume_step (hs : s.noBrError T) (h : Waits s T size u) :
    Waits (resumeRead L s T fault) T size (putResume L rest s T fault u) ∨
      (putResume L rest s T fault u).Split := by
  obtain ⟨f, hf, rfl, hptr⟩ := h.asleep
  unfold resumeRead putResume
  rw [hf]
  dsimp only
  cases f.verdict with
  | none => exact Or.inl h
  | some b =>
    cases b with
    | false => exact Or.inr (split_error u)
    | true =>
      dsimp only
      rw [hptr]
      exact putLoop_step _ (stopWaiting_noBrError hs) h.opened h.fits

end

/-! A call, among whatever else happens -/

/-- What a call does, and what others do while it waits: they leave some state of the driver. -/
inductive CallStep
  | read (nonBlock : Bool) (fault : ℕ → Bool)
  | others (s : Driver)
  | resume (fault : ℕ → Bool)

/-- A call of thread `T` with `*consumed = 0` and a buffer of `size` bytes. -/
def readCall (L : Layout) (rest : ℕ → TransactionWords) (T size : ℕ) :
    Machine (Driver × ReadBuffer) CallStep where
  start x := x.2.result = some none
  step x a := match a with
    | .read nonBlock fault =>
      (binderThreadRead x.1 T size 0 nonBlock fault, putBegin x.1 T size fault x.2)
    | .others s => (s, x.2)
    | .resume fault => (resumeRead L x.1 T fault, putResume L rest x.1 T fault x.2)

/-- What the kernel keeps on the stack of a thread that waits. -/
def Driver.frame (s : Driver) (T : ℕ) : Option (ℕ × ℕ) :=
  (s.thread.get T).asleep.map fun f => (f.size, f.ptr)

/-- The driver's states are reachable, and others leave the stack of `T` alone. -/
def inDriver (L : Layout) (rb : RbTree ℕ) (T : ℕ) (x : Driver × ReadBuffer) : CallStep → Prop
  | .read _ _ => (driverMachine L rb).Reach (fun _ _ => True) x.1
  | .others s => (driverMachine L rb).Reach (fun _ _ => True) s ∧ s.frame T = x.1.frame T
  | .resume _ => (driverMachine L rb).Reach (fun _ _ => True) x.1 ∧ x.2.result = none

/-- No `BR_ERROR` is pending when the thread reads. -/
def withoutBrError (T : ℕ) (x : Driver × ReadBuffer) : CallStep → Prop
  | .others _ => True
  | _ => x.1.noBrError T

theorem readCall_split {L : Layout} {rb : RbTree ℕ} {rest : ℕ → TransactionWords} {T size : ℕ}
    {x : Driver × ReadBuffer} {c : ℕ}
    (h : (readCall L rest T size).Reach (fun x a => inDriver L rb T x a ∧ withoutBrError T x a) x)
    (hc : x.2.result = some (some c)) : split x.2.mem c = some x.2.emitted := by
  have hstep : Waits x.1 T size x.2 ∨ x.2.Split := by
    refine h.invariant (I := fun x => Waits x.1 T size x.2 ∨ x.2.Split) (fun x hx => ?_)
      fun x a hi ha => ?_
    · exact Or.inr ⟨by rw [hx]; nofun, fun c hc => by rw [hx] at hc; cases hc⟩
    · cases a with
      | read nonBlock fault => exact putBegin_step nonBlock ha.2
      | resume fault =>
        rcases hi with hi | hi
        · exact putResume_step ha.2 hi
        · exact absurd ha.1.2 hi.1
      | others s =>
        refine hi.imp (fun hw => ⟨hw.opened, hw.fits, ?_⟩) id
        obtain ⟨f, hf, h1, h2⟩ := hw.asleep
        have hframe := ha.1.2
        rw [Driver.frame, Driver.frame, hf, Option.map_some, Option.map_eq_some_iff] at hframe
        obtain ⟨g, hg, he⟩ := hframe
        exact ⟨g, hg, (congrArg Prod.fst he).trans h1, (congrArg Prod.snd he).trans h2⟩
  rcases hstep with hw | hs
  · rw [hw.opened.result] at hc
    cases hc
  · exact hs.2 c hc

/-- Process 0 is the context manager; thread 1 of process 1 holds a reference to it and calls it. -/
def callingClient : List Action :=
  [.openProc 50, .getThread 0 50, .setContextMgr 0 1000 true, .mmap 0 0x10000 0x8000 {},
    .openProc 100, .getThread 1 100, .write 1 (.ref .increfs 0) {}, .write 1 (.transaction {}) {}]

/-- The client's death request finds no memory, and the context manager dies. -/
def orphanedClient : List Action :=
  callingClient ++ [.write 1 (.requestDeathNotification 0 7) { kzalloc := false }, .vmaClose 0,
    .close 0, .deferredFunc 0 fun _ => {}]

/-- The client waits in a read, and there is work for it. -/
def wokenClient : List Action :=
  callingClient ++ [.read 1 256 0 false fun _ => false, .lookForWork 1]

def afterActions (as : List Action) : Driver := (driverMachine layout32 .plain).exec {} as

theorem reach_afterActions (as : List Action) :
    (driverMachine layout32 .plain).Reach (fun _ _ => True) (afterActions as) := by
  refine .exec (.start rfl) ?_
  generalize ({} : Driver) = s
  induction as generalizing s with
  | nil => trivial
  | cons a as ih => exact ⟨trivial, ih _⟩

/-- The call of thread 1 before its first step. -/
def clientCall (as : List Action) : Driver × ReadBuffer :=
  (afterActions as, { mem := fun _ => 0, result := some none })

def clientRead (as : List Action) (cs : List CallStep) : Driver × ReadBuffer :=
  (readCall layout32 (fun _ => {}) 1 256).exec (clientCall as) cs

def clientSteps : List CallStep :=
  [.read false fun _ => false, .others (afterActions wokenClient), .resume fun _ => false]

theorem readCall_split_client : split (clientRead callingClient clientSteps).2.mem 8 =
    some [{ code := .noop }, { code := .transactionComplete }] := by
  have hstart : (readCall layout32 (fun _ => {}) 1 256).Reach
      (fun x a => inDriver layout32 .plain 1 x a ∧ withoutBrError 1 x a)
      (clientCall callingClient) := .start rfl
  have hadm : (readCall layout32 (fun _ => {}) 1 256).Admits
      (fun x a => inDriver layout32 .plain 1 x a ∧ withoutBrError 1 x a)
      (clientCall callingClient) clientSteps := by
    refine ⟨⟨reach_afterActions callingClient, ?_⟩, ⟨⟨reach_afterActions wokenClient, ?_⟩, trivial⟩,
      ⟨⟨reach_afterActions wokenClient, ?_⟩, ?_⟩, trivial⟩
    · exact ⟨by decide +kernel, by decide +kernel⟩
    · decide +kernel
    · decide +kernel
    · exact ⟨by decide +kernel, by decide +kernel⟩
  exact (readCall_split (hstart.exec hadm) (by decide +kernel)).trans (by decide +kernel)

/-- `BR_ERROR` takes the code of the failed call behind it for its payload. -/
theorem readCall_swallowed : ¬∀ x, (readCall layout32 (fun _ => {}) 1 256).Reach
    (inDriver layout32 .plain 1) x → ∀ c, x.2.result = some (some c) →
      split x.2.mem c = some x.2.emitted := by
  intro hall
  have hreach : inDriver layout32 .plain 1 (clientCall orphanedClient)
      (.read false fun _ => false) := reach_afterActions orphanedClient
  have hstart : (readCall layout32 (fun _ => {}) 1 256).Reach (inDriver layout32 .plain 1)
      (clientCall orphanedClient) := .start rfl
  have hread := hall _ (hstart.step (.read false fun _ => false) hreach) 12 (by decide +kernel)
  revert hread
  decide +kernel

end Binder

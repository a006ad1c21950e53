import BinderIpc.Driver.Machine
import BinderIpc.Wire.Framing

/-! Which bytes of the user's memory `binder_thread_write` reads. The loop looks
at `ptr < end` only, so it stays in the buffer just where the submitted bytes are
whole commands. -/

namespace Binder

/-- The sizes that the case of a command reads, one after the other. -/
def BcCode.parts : BcCode → List ℕ
  | increfs | acquire | release | decrefs => [4]
  | increfsDone | acquireDone => [8, 8]
  | attemptAcquire | acquireResult => []
  | freeBuffer => [8]
  | transaction | reply => [64]
  | registerLooper | enterLooper | exitLooper => []
  | requestDeathNotification | clearDeathNotification => [4, 8]
  | deadBinderDone => [8]

/-- Where the parts are read, with their sizes; a fault ends it. -/
def partReads (m : UserMemory) : ℕ → List ℕ → List (ℕ × ℕ)
  | _, [] => []
  | ptr, n :: l => (ptr, n) :: if faults m.fault ptr n then [] else partReads m (ptr + n) l

/-- What one turn of the loop at `ptr` reads. -/
def turnReads (m : UserMemory) (ptr : ℕ) : List (ℕ × ℕ) :=
  (ptr, 4) :: if faults m.fault ptr 4 then []
    else partReads m (ptr + 4) ((BcCode.ofWord (word32 m.byte ptr)).elim [] (·.parts))

/-- The length of the command at `ptr`, up to what faults. -/
def commandLength (m : UserMemory) (ptr : ℕ) : ℕ := ((turnReads m ptr).map (·.2)).sum

variable {σ : Type*} {kernel : PointerWidth} {h : Handler σ} {m m' : UserMemory} {w : WriteState σ}
  {c : BcCommand} {ptr n size k : ℕ}

/-! One turn -/

theorem partReads_iff (l : List ℕ) : (∀ r ∈ partReads m ptr l, r.1 + r.2 ≤ size) ↔
    partReads m ptr l = [] ∨ ptr + ((partReads m ptr l).map (·.2)).sum ≤ size := by
  induction l generalizing ptr with
  | nil => simp [partReads]
  | cons n l ih =>
    unfold partReads
    split_ifs
    · simp
    · rw [List.forall_mem_cons, ih]
      simp only [false_or, List.map_cons, List.sum_cons]
      cases hr : partReads m (ptr + n) l with
      | nil => simp
      | cons r l' =>
        simp only [false_or, reduceCtorEq]
        omega

/-- All that a turn reads lies before `size` if the command does. -/
theorem turnReads_iff :
    (∀ r ∈ turnReads m ptr, r.1 + r.2 ≤ size) ↔ ptr + commandLength m ptr ≤ size := by
  unfold commandLength turnReads
  split_ifs
  · simp
  · rw [List.forall_mem_cons, partReads_iff]
    simp only [List.map_cons, List.sum_cons]
    generalize partReads m (ptr + 4) _ = l
    cases l with
    | nil => simp
    | cons r l =>
      simp only [reduceCtorEq, false_or]
      omega

theorem getUser32_ok {v : BitVec 32} :
    m.getUser32 ptr = .ok v ↔ faults m.fault ptr 4 = false ∧ word32 m.byte ptr = v := by
  unfold UserMemory.getUser32
  cases faults m.fault ptr 4 <;> simp

theorem getUser64_ok {v : BitVec 64} :
    m.getUser64 ptr = .ok v ↔ faults m.fault ptr 8 = false ∧ word64 m.byte ptr = v := by
  unfold UserMemory.getUser64
  cases faults m.fault ptr 8 <;> simp

theorem copyFromUser_ok {v : TransactionWords} :
    m.copyFromUser ptr = .ok v ↔ faults m.fault ptr 64 = false ∧ transactionAt m.byte ptr = v := by
  unfold UserMemory.copyFromUser
  cases faults m.fault ptr 64 <;> simp

/-- A command that is executed was read to its end. -/
theorem readCommand_length (hr : readCommand kernel m ptr = .ok (c, n)) :
    commandLength m ptr = c.bytes.length := by
  unfold readCommand at hr
  simp only [bind, Except.bind] at hr
  split at hr
  · cases hr
  rename_i cmd hcmd
  obtain ⟨hcode, rfl⟩ := getUser32_ok.1 hcmd
  have hlen : commandLength m ptr = 4 + ((partReads m (ptr + 4)
      ((BcCode.ofWord (word32 m.byte ptr)).elim [] (·.parts))).map (·.2)).sum := by
    simp [commandLength, turnReads, hcode]
  rw [hlen]
  split at hr <;>
    (try simp only [getRef, getRefDone, getTransaction, getDeathRequest, bind, Except.bind, pure,
      Except.pure] at hr) <;>
    (repeat' split at hr) <;> cases hr <;>
    simp_all [BcCode.parts, partReads, BcCommand.bytes, BcCommand.payload, getUser32_ok,
      getUser64_ok, copyFromUser_ok]

theorem BcCommand.four_le_advance (c : BcCommand) : 4 ≤ c.advance kernel := by
  cases c <;> simp [BcCommand.advance, BcCommand.bytes]

/-- The memories are alike in `n` bytes from `ptr` on. -/
def Alike (m m' : UserMemory) (ptr n : ℕ) : Prop :=
  ∀ i < n, m'.byte (ptr + i) = m.byte (ptr + i) ∧ m'.fault (ptr + i) = m.fault (ptr + i)

theorem Alike.faults (ha : Alike m m' ptr n) : faults m'.fault ptr n = faults m.fault ptr n := by
  unfold Binder.faults
  rw [Bool.eq_iff_iff, List.any_eq_true, List.any_eq_true]
  refine exists_congr fun i => and_congr_right fun hi => ?_
  rw [(ha i (List.mem_range.1 hi)).2]

theorem Alike.word (ha : Alike m m' ptr n) (off k : ℕ) (hle : off + k ≤ n) :
    word m'.byte k (ptr + off) = word m.byte k (ptr + off) := by
  unfold Binder.word
  refine congrArg leValue (List.map_congr_left fun i hi => ?_)
  have hlt := List.mem_range.1 hi
  rw [Nat.add_assoc]
  exact (ha (off + i) (by omega)).1

theorem Alike.first (ha : Alike m m' ptr n) (k : ℕ) (hle : k ≤ n) :
    Binder.word m'.byte k ptr = Binder.word m.byte k ptr := ha.word 0 k (by omega)

theorem Alike.getUser32 (ha : Alike m m' ptr 4) : m'.getUser32 ptr = m.getUser32 ptr := by
  unfold UserMemory.getUser32 word32
  rw [ha.faults, ha.first 4 le_rfl]

theorem Alike.getUser64 (ha : Alike m m' ptr 8) : m'.getUser64 ptr = m.getUser64 ptr := by
  unfold UserMemory.getUser64 word64
  rw [ha.faults, ha.first 8 le_rfl]

theorem Alike.copyFromUser (ha : Alike m m' ptr 64) : m'.copyFromUser ptr = m.copyFromUser ptr := by
  have hat : transactionAt m'.byte ptr = transactionAt m.byte ptr := by
    unfold transactionAt word32 word64
    rw [ha.first 8 (by decide), ha.word 8 8 (by decide), ha.word 16 4 (by decide),
      ha.word 20 4 (by decide), ha.word 24 4 (by decide), ha.word 28 4 (by decide),
      ha.word 32 8 (by decide), ha.word 40 8 (by decide), ha.word 48 8 (by decide),
      ha.word 56 8 (by decide)]
  unfold UserMemory.copyFromUser
  rw [ha.faults, hat]

theorem getRefDone_alike (strong : Bool) (h1 : Alike m m' ptr 8)
    (h2 : faults m.fault ptr 8 = false → Alike m m' (ptr + 8) 8) :
    getRefDone m' strong ptr = getRefDone m strong ptr := by
  unfold getRefDone
  rw [h1.getUser64]
  cases hg : m.getUser64 ptr with
  | error e => rfl
  | ok v =>
    simp only [bind, Except.bind]
    rw [(h2 (getUser64_ok.1 hg).1).getUser64]

theorem getDeathRequest_alike (mk : BitVec 32 → BitVec 64 → BcCommand) (h1 : Alike m m' ptr 4)
    (h2 : faults m.fault ptr 4 = false → Alike m m' (ptr + 4) 8) :
    getDeathRequest m' mk ptr = getDeathRequest m mk ptr := by
  unfold getDeathRequest
  rw [h1.getUser32]
  cases hg : m.getUser32 ptr with
  | error e => rfl
  | ok v =>
    simp only [bind, Except.bind]
    rw [(h2 (getUser32_ok.1 hg).1).getUser64]

/-- A turn depends on nothing but what it reads. -/
theorem readCommand_reads (ha : ∀ r ∈ turnReads m ptr, Alike m m' r.1 r.2) :
    readCommand kernel m' ptr = readCommand kernel m ptr := by
  have hcode : Alike m m' ptr 4 := ha (ptr, 4) List.mem_cons_self
  unfold readCommand
  rw [hcode.getUser32]
  cases hcmd : m.getUser32 ptr with
  | error e => rfl
  | ok cmd =>
    obtain ⟨hnofault, rfl⟩ := getUser32_ok.1 hcmd
    have hparts : ∀ r ∈ partReads m (ptr + 4)
        ((BcCode.ofWord (word32 m.byte ptr)).elim [] (·.parts)), Alike m m' r.1 r.2 := fun r hr =>
      ha r (by simp [turnReads, hnofault, hr])
    simp only [bind, Except.bind]
    cases hc : BcCode.ofWord (word32 m.byte ptr) with
    | none => rfl
    | some code =>
      rw [hc] at hparts
      -- the first part, and the second if there is one
      have hfirst : ∀ n l, code.parts = n :: l → Alike m m' (ptr + 4) n := fun n l hl =>
        hparts (ptr + 4, n) (by simp [hl, partReads])
      have hsecond : ∀ n k, code.parts = [n, k] → faults m.fault (ptr + 4) n = false →
          Alike m m' (ptr + 4 + n) k := fun n k hl hf =>
        hparts (ptr + 4 + n, k) (by simp [hl, partReads, hf])
      cases code with
      | increfs | acquire | release | decrefs =>
        simp only [getRef, (hfirst 4 [] rfl).getUser32]
      | increfsDone | acquireDone =>
        exact getRefDone_alike _ (hfirst 8 [8] rfl) (hsecond 8 8 rfl)
      | attemptAcquire | acquireResult | registerLooper | enterLooper | exitLooper => rfl
      | freeBuffer | deadBinderDone => simp only [(hfirst 8 [] rfl).getUser64]
      | transaction | reply => simp only [getTransaction, (hfirst 64 [] rfl).copyFromUser]
      | requestDeathNotification | clearDeathNotification =>
        exact getDeathRequest_alike _ (hfirst 4 [8] rfl) (hsecond 4 8 rfl)

/-! The loop -/

/-- Where the turns of the loop begin. -/
def turns (kernel : PointerWidth) (h : Handler σ) (m : UserMemory) (size : ℕ) :
    ℕ → WriteState σ → List ℕ
  | 0, _ => []
  | k + 1, w =>
    if w.consumed < size ∧ h.ok w.state = true then
      w.consumed ::
        match readCommand kernel m w.consumed with
        | .error _ => []
        | .ok (c, ptr) => turns kernel h m size k (w.did h c ptr)
    else []

/-- The turns of one `binder_thread_write`. -/
def writeTurns (kernel : PointerWidth) (h : Handler σ) (m : UserMemory) (size : ℕ)
    (w : WriteState σ) : List ℕ := turns kernel h m size (size - w.consumed) w

structure DecoderInside (kernel : PointerWidth) (h : Handler σ) (m : UserMemory) (size : ℕ)
    (w : WriteState σ) : Prop where
  reads : ∀ p ∈ writeTurns kernel h m size w, ∀ r ∈ turnReads m p, r.1 + r.2 ≤ size
  /-- a command that is executed lies in the buffer with its payload -/
  executes : ∀ p ∈ writeTurns kernel h m size w, ∀ c n,
    readCommand kernel m p = .ok (c, n) → p + c.bytes.length ≤ size
  consumed : (binderThreadWrite kernel h m size w).1.consumed ≤ size
  /-- the loop ends by itself -/
  ends : (binderThreadWrite kernel h m size w).2 = .ok () →
    ¬((binderThreadWrite kernel h m size w).1.consumed < size ∧
      h.ok (binderThreadWrite kernel h m size w).1.state = true)

/-- A turn leaves the loop nearer to the end, with an error or with the next turn. -/
theorem writeLoop_ends (hk : size - w.consumed ≤ k) (hok : (writeLoop kernel h m size k w).2 = .ok ()) :
    ¬((writeLoop kernel h m size k w).1.consumed < size ∧
      h.ok (writeLoop kernel h m size k w).1.state = true) := by
  induction k generalizing w with
  | zero =>
    rintro ⟨hlt, -⟩
    have hlt : w.consumed < size := hlt
    omega
  | succ k ih =>
    unfold writeLoop at hok ⊢
    split_ifs at hok ⊢ with hc
    · cases hr : readCommand kernel m w.consumed with
      | error e =>
        rw [hr] at hok
        cases hok
      | ok r =>
        obtain ⟨c, n⟩ := r
        rw [hr] at hok
        dsimp only at hok ⊢
        have hn : n = w.consumed + c.advance kernel := readCommand_advance hr
        have hfour : 4 ≤ c.advance kernel := c.four_le_advance
        refine ih ?_ hok
        change size - n ≤ k
        omega
    · exact hc

theorem BcCommand.advance_le (c : BcCommand) : c.advance kernel ≤ c.bytes.length := by
  cases c with
  | deadBinderDone cookie => cases kernel <;> simp [BcCommand.advance, BcCommand.bytes,
      BcCommand.payload, PointerWidth.bytes]
  | _ => exact le_rfl

theorem writeLoop_consumed (hw : w.consumed ≤ size)
    (hall : ∀ p ∈ turns kernel h m size k w, p + commandLength m p ≤ size) :
    (writeLoop kernel h m size k w).1.consumed ≤ size := by
  induction k generalizing w with
  | zero => exact hw
  | succ k ih =>
    unfold turns at hall
    unfold writeLoop
    split_ifs at hall ⊢ with hc
    · cases hr : readCommand kernel m w.consumed with
      | error e => exact hw
      | ok r =>
        obtain ⟨c, n⟩ := r
        rw [hr] at hall
        dsimp only at hall ⊢
        have hlen := hall w.consumed List.mem_cons_self
        rw [readCommand_length hr] at hlen
        have hn : n = w.consumed + c.advance kernel := readCommand_advance hr
        have hadv : c.advance kernel ≤ c.bytes.length := c.advance_le
        refine ih ?_ fun p hp => hall p (List.mem_cons_of_mem _ hp)
        change n ≤ size
        omega
    · exact hw

/-- It is enough to look at where the commands end that the loop gets to. -/
theorem decoderInside_of_turns (hw : w.consumed ≤ size)
    (hall : ∀ p ∈ writeTurns kernel h m size w, p + commandLength m p ≤ size) :
    DecoderInside kernel h m size w := by
  refine ⟨fun p hp => turnReads_iff.2 (hall p hp), fun p hp c n hr => ?_,
    writeLoop_consumed hw hall, writeLoop_ends le_rfl⟩
  rw [← readCommand_length hr]
  exact hall p hp

/-! The bytes that are submitted -/

/-- The bytes of the write buffer from `ptr` on. -/
def submitted (m : UserMemory) (ptr size : ℕ) : List UInt8 :=
  (List.range (size - ptr)).map fun i => m.byte (ptr + i)

/-- The bytes begin with the commands, as `binder_thread_write` goes from one to the next. -/
inductive Splits (kernel : PointerWidth) : List UInt8 → List BcCommand → List UInt8 → Prop
  | done (l : List UInt8) : Splits kernel l [] l
  | command {l rest : List UInt8} {cs : List BcCommand} (c : BcCommand) (hc : c.unsupported = false)
    (hl : c.bytes <+: l) (hcs : Splits kernel (l.drop (c.advance kernel)) cs rest) :
    Splits kernel l (c :: cs) rest

/-- The bytes begin with a code for which the `switch` has no case, or one that only returns. -/
def Refused (l : List UInt8) : Prop :=
  ∃ code : BitVec 32, le32 code <+: l ∧ (BcCode.ofWord code = none ∨
    code = BcCode.attemptAcquire.word ∨ code = BcCode.acquireResult.word)

/-- The bytes are whole commands up to their end, or up to a code that is refused. -/
def WholeCommands (kernel : PointerWidth) (l : List UInt8) : Prop :=
  ∃ cs rest, Splits kernel l cs rest ∧ (rest = [] ∨ Refused rest)

/-- Nothing ends the loop early: no submitted byte faults, and no command that the bytes hold sets
`return_error`. -/
structure Undisturbed (kernel : PointerWidth) (h : Handler σ) (m : UserMemory) (size : ℕ)
    (w : WriteState σ) : Prop where
  faults : ∀ i, w.consumed ≤ i → i < size → m.fault i = false
  ok : ∀ cs rest, Splits kernel (submitted m w.consumed size) cs rest →
    h.ok (cs.foldl h.exec w.state) = true

section

variable {bs l rest : List UInt8} {cs : List BcCommand}

theorem length_submitted : (submitted m ptr size).length = size - ptr := by simp [submitted]

theorem drop_submitted (n : ℕ) : (submitted m ptr size).drop n = submitted m (ptr + n) size := by
  apply List.ext_getElem
  · simp only [List.length_drop, length_submitted]
    omega
  · intro i _ _
    simp [submitted, Nat.add_assoc]

/-- What the buffer begins with lies in memory, and inside the buffer. -/
theorem prefix_submitted (hne : bs ≠ []) :
    bs <+: submitted m ptr size ↔ Stored m.byte ptr bs ∧ ptr + bs.length ≤ size := by
  have hpos : 0 < bs.length := List.length_pos_iff.2 hne
  constructor
  · intro hpre
    have hlen := hpre.length_le
    rw [length_submitted] at hlen
    refine ⟨fun i hi => ?_, by omega⟩
    rw [hpre.getElem hi]
    simp [submitted]
  · rintro ⟨hs, hle⟩
    rw [List.prefix_iff_eq_take]
    apply List.ext_getElem
    · rw [List.length_take, length_submitted]
      omega
    · intro i hi _
      rw [List.getElem_take, ← hs i hi]
      simp [submitted]

theorem BcCommand.bytes_ne_nil (c : BcCommand) : c.bytes ≠ [] := by
  have hlen := c.length_bytes
  intro hnil
  rw [hnil, List.length_nil] at hlen
  omega

/-- Fewer bytes than a code has hold no command. -/
theorem Splits.of_short (hs : Splits kernel l cs rest) (hl : l.length < 4) : cs = [] ∧ rest = l := by
  cases hs with
  | done => exact ⟨rfl, rfl⟩
  | command c hc hpre hcs =>
    have hlen := hpre.length_le
    rw [c.length_bytes] at hlen
    omega

theorem WholeCommands.nil_of_short (hw : WholeCommands kernel l) (hl : l.length < 4) : l = [] := by
  obtain ⟨cs, rest, hs, hend⟩ := hw
  obtain ⟨-, rfl⟩ := hs.of_short hl
  rcases hend with hnil | ⟨code, hpre, -⟩
  · exact hnil
  · have hlen := hpre.length_le
    rw [length_le32] at hlen
    omega

/-! A command that lies in memory -/

theorem sum_partReads_le (l : List ℕ) : ((partReads m ptr l).map (·.2)).sum ≤ l.sum := by
  induction l generalizing ptr with
  | nil => exact le_rfl
  | cons n l ih =>
    unfold partReads
    split_ifs
    · simp
    · simpa using ih

theorem faults_eq_false (hf : ∀ i, ptr ≤ i → i < ptr + n → m.fault i = false) :
    faults m.fault ptr n = false := by
  unfold Binder.faults
  rw [List.any_eq_false]
  intro i hi
  have hlt := List.mem_range.1 hi
  rw [hf (ptr + i) (by omega) (by omega)]
  exact Bool.false_ne_true

/-- All parts are read where no byte before `size` faults and what is read lies before it. -/
theorem sum_partReads (l : List ℕ) (hf : ∀ i, ptr ≤ i → i < size → m.fault i = false)
    (hle : ptr + ((partReads m ptr l).map (·.2)).sum ≤ size) :
    ((partReads m ptr l).map (·.2)).sum = l.sum := by
  induction l generalizing ptr with
  | nil => rfl
  | cons n l ih =>
    unfold partReads at hle ⊢
    rw [List.map_cons, List.sum_cons] at hle
    have hn : faults m.fault ptr n = false := faults_eq_false fun i h1 h2 => hf i h1 (by omega)
    rw [hn, if_neg Bool.false_ne_true] at hle
    rw [hn, if_neg Bool.false_ne_true, List.map_cons, List.sum_cons, List.sum_cons]
    exact congrArg (n + ·) (ih (fun i h1 h2 => hf i (by omega) h2) (by omega))

/-- The case of a command reads all of its payload. -/
theorem BcCommand.sum_parts {c : BcCommand} (hc : c.unsupported = false) :
    c.code.parts.sum = c.payload.length := by
  cases c with
  | ref c target => cases c <;> rfl
  | refDone strong p cookie => cases strong <;> rfl
  | transaction reply tr => cases reply <;> simp [code, BcCode.parts, payload]
  | attemptAcquire priority handle => cases hc
  | acquireResult result => cases hc
  | _ => rfl

theorem Stored.ofWord {c : BcCommand} (hs : Stored m.byte ptr c.bytes) :
    BcCode.ofWord (word32 m.byte ptr) = some c.code := by
  rw [BcCommand.bytes, stored_append] at hs
  rw [hs.1.word32_eq, BcCode.ofWord_word]

theorem Stored.commandLength_le {c : BcCommand} (hs : Stored m.byte ptr c.bytes)
    (hc : c.unsupported = false) : commandLength m ptr ≤ c.bytes.length := by
  have hparts : ((partReads m (ptr + 4) c.code.parts).map (·.2)).sum ≤ c.code.parts.sum :=
    sum_partReads_le _
  rw [BcCommand.sum_parts hc] at hparts
  rw [c.length_bytes, commandLength, turnReads, hs.ofWord]
  split_ifs
  · simp
  · simpa using hparts

/-- A command of which no byte faults is read to its end. -/
theorem Stored.readCommand_ok {c : BcCommand} (hs : Stored m.byte ptr c.bytes)
    (kernel : PointerWidth) (hc : c.unsupported = false) (hf : ∀ i, ptr ≤ i → i < size → m.fault i = false)
    (hle : ptr + commandLength m ptr ≤ size) :
    ptr + c.bytes.length ≤ size ∧ readCommand kernel m ptr = .ok (c, ptr + c.advance kernel) := by
  unfold commandLength turnReads at hle
  rw [hs.ofWord, List.map_cons, List.sum_cons] at hle
  have hcode : faults m.fault ptr 4 = false := faults_eq_false fun i h1 h2 => hf i h1 (by omega)
  rw [hcode, if_neg Bool.false_ne_true, Option.elim_some, ← Nat.add_assoc] at hle
  have hparts : ((partReads m (ptr + 4) c.code.parts).map (·.2)).sum = c.code.parts.sum :=
    sum_partReads _ (fun i h1 h2 => hf i (by omega) h2) hle
  rw [hparts, BcCommand.sum_parts hc] at hle
  have hload : faults m.fault (ptr + 4) c.payload.length = false :=
    faults_eq_false fun i h1 h2 => hf i (by omega) (by omega)
  refine ⟨by rw [c.length_bytes]; omega, ?_⟩
  rw [readCommand_stored hs, hcode, hc, hload]
  rfl

/-- A code that is refused is all that is read. -/
theorem readCommand_of_refused (kernel : PointerWidth) (hr : Refused (submitted m ptr size)) :
    commandLength m ptr = 4 ∧ ptr + 4 ≤ size ∧ ∃ e, readCommand kernel m ptr = .error e := by
  obtain ⟨code, hpre, hcode⟩ := hr
  have hne : le32 code ≠ [] := by
    intro hnil
    simpa using congrArg List.length hnil
  obtain ⟨hs, hle⟩ := (prefix_submitted hne).1 hpre
  rw [length_le32] at hle
  have hparts : (BcCode.ofWord (word32 m.byte ptr)).elim [] (·.parts) = [] := by
    rw [hs.word32_eq]
    rcases hcode with hnone | rfl | rfl
    · rw [hnone]
      rfl
    · rw [BcCode.ofWord_word]
      rfl
    · rw [BcCode.ofWord_word]
      rfl
  refine ⟨?_, hle, ?_⟩
  · rw [commandLength, turnReads, hparts]
    split_ifs <;> rfl
  · unfold readCommand UserMemory.getUser32
    by_cases hf : faults m.fault ptr 4 = true
    · exact ⟨.efault, by rw [if_pos hf]; rfl⟩
    · refine ⟨.einval, ?_⟩
      rw [if_neg hf, hs.word32_eq]
      rcases hcode with hnone | rfl | rfl
      · simp only [bind, Except.bind, hnone]
      · simp only [bind, Except.bind, BcCode.ofWord_word]
      · simp only [bind, Except.bind, BcCode.ofWord_word]

/-! Whole commands are enough -/

theorem Splits.turns_inside (hs : Splits kernel l cs rest) (hend : rest = [] ∨ Refused rest)
    (hl : l = submitted m w.consumed size) :
    ∀ p ∈ turns kernel h m size k w, p + commandLength m p ≤ size := by
  induction hs generalizing k w with
  | done l =>
    subst hl
    intro p hp
    cases k with
    | zero => cases hp
    | succ k =>
      unfold turns at hp
      split_ifs at hp with hc
      · rcases hend with hnil | hr
        · have hlen : (submitted m w.consumed size).length = size - w.consumed := length_submitted
          rw [hnil, List.length_nil] at hlen
          omega
        · obtain ⟨hfour, hle, e, he⟩ := readCommand_of_refused kernel hr
          rw [he] at hp
          obtain rfl := List.mem_singleton.1 hp
          rwa [hfour]
      · cases hp
  | command c hc hpre hcs ih =>
    subst hl
    obtain ⟨hstored, hle⟩ := (prefix_submitted c.bytes_ne_nil).1 hpre
    have hlen := hstored.commandLength_le hc
    intro p hp
    cases k with
    | zero => cases hp
    | succ k =>
      unfold turns at hp
      split_ifs at hp
      · rcases List.mem_cons.1 hp with rfl | hp
        · omega
        · cases hr : readCommand kernel m w.consumed with
          | error e =>
            rw [hr] at hp
            cases hp
          | ok r =>
            obtain ⟨c', n⟩ := r
            rw [hr] at hp
            rw [readCommand_stored hstored] at hr
            split_ifs at hr
            cases hr
            exact ih hend (drop_submitted _) p hp
      · cases hp

/-! Where nothing ends the loop early they are necessary -/

theorem Undisturbed.step {c : BcCommand} (hu : Undisturbed kernel h m size w)
    (hc : c.unsupported = false) (hpre : c.bytes <+: submitted m w.consumed size) :
    Undisturbed kernel h m size (w.did h c (w.consumed + c.advance kernel)) where
  faults i h1 h2 := by
    have h1 : w.consumed + c.advance kernel ≤ i := h1
    exact hu.faults i (by omega) h2
  ok cs rest hs := by
    refine hu.ok (c :: cs) rest (.command c hc hpre ?_)
    rwa [drop_submitted]

theorem Undisturbed.whole (hu : Undisturbed kernel h m size w) (hw : w.consumed ≤ size)
    (hk : size - w.consumed ≤ k)
    (hall : ∀ p ∈ turns kernel h m size k w, p + commandLength m p ≤ size) :
    WholeCommands kernel (submitted m w.consumed size) := by
  induction k generalizing w with
  | zero =>
    refine ⟨[], _, .done _, .inl ?_⟩
    rw [← List.length_eq_zero_iff, length_submitted]
    omega
  | succ k ih =>
    by_cases hlt : w.consumed < size
    · have hok : h.ok w.state = true := hu.ok [] _ (.done _)
      unfold turns at hall
      rw [if_pos ⟨hlt, hok⟩] at hall
      have hlen := hall w.consumed List.mem_cons_self
      have hfour : 4 ≤ commandLength m w.consumed := by simp [commandLength, turnReads]
      have hcode : le32 (word32 m.byte w.consumed) <+: submitted m w.consumed size := by
        rw [prefix_submitted (by simp [le32, leBytes]), length_le32]
        exact ⟨stored_word32, by omega⟩
      -- a code that is refused ends the bytes that matter
      have hrefused : ∀ code : BitVec 32, word32 m.byte w.consumed = code →
          (BcCode.ofWord code = none ∨ code = BcCode.attemptAcquire.word ∨
            code = BcCode.acquireResult.word) →
          WholeCommands kernel (submitted m w.consumed size) := fun code he hr =>
        ⟨[], _, .done _, .inr ⟨code, he ▸ hcode, hr⟩⟩
      cases hword : BcCode.ofWord (word32 m.byte w.consumed) with
      | none => exact hrefused _ rfl (.inl hword)
      | some code =>
        obtain ⟨c, rfl, hstored⟩ := BcCommand.exists_stored hword
        by_cases hc : c.unsupported = true
        · refine hrefused _ (BcCode.word_ofWord hword).symm ?_
          cases c with
          | attemptAcquire priority handle => exact .inr (.inl rfl)
          | acquireResult result => exact .inr (.inr rfl)
          | _ => cases hc
        · have hc : c.unsupported = false := by simpa using hc
          obtain ⟨hle, hread⟩ := hstored.readCommand_ok kernel hc hu.faults hlen
          have hpre : c.bytes <+: submitted m w.consumed size :=
            (prefix_submitted c.bytes_ne_nil).2 ⟨hstored, hle⟩
          rw [hread] at hall
          have hfour : 4 ≤ c.advance kernel := c.four_le_advance
          have hadv : c.advance kernel ≤ c.bytes.length := c.advance_le
          obtain ⟨cs, rest, hs, hend⟩ := ih (hu.step hc hpre)
            (by change w.consumed + c.advance kernel ≤ size; omega)
            (by change size - (w.consumed + c.advance kernel) ≤ k; omega)
            fun p hp => hall p (List.mem_cons_of_mem _ hp)
          refine ⟨c :: cs, rest, .command c hc hpre ?_, hend⟩
          rwa [drop_submitted]
    · refine ⟨[], _, .done _, .inl ?_⟩
      rw [← List.length_eq_zero_iff, length_submitted]
      omega

end

/-- Bytes that are whole commands keep the decoder inside the buffer, whatever faults and whatever the
commands do; where nothing ends the loop early no other bytes do. -/
theorem decoder_inside (kernel : PointerWidth) (h : Handler σ) (m : UserMemory) (size : ℕ)
    (w : WriteState σ) (hw : w.consumed ≤ size) :
    (WholeCommands kernel (submitted m w.consumed size) → DecoderInside kernel h m size w) ∧
    (Undisturbed kernel h m size w → DecoderInside kernel h m size w →
      WholeCommands kernel (submitted m w.consumed size)) := by
  constructor
  · rintro ⟨cs, rest, hs, hend⟩
    exact decoderInside_of_turns hw (hs.turns_inside hend rfl)
  · intro hu hi
    exact hu.whole hw le_rfl fun p hp => turnReads_iff.1 (hi.reads p hp)

/-- A process with one thread. -/
def firstThread : WriteState Driver where
  state := (driverMachine layout32 .plain).exec {} [.openProc 50, .getThread 0 50]

def firstHandler : Handler Driver := driverHandler layout32 .plain 0 {} fun _ _ => []

/-- Memory that begins with `BC_ENTER_LOOPER`. -/
def enterLooperMemory : UserMemory :=
  ⟨overlay (le32 BcCode.enterLooper.word) fun _ => 0, fun _ => false⟩

/-- Four submitted bytes are a command; the first of them alone is none, and three more are read. -/
theorem decoder_inside_whole :
    DecoderInside .eight firstHandler enterLooperMemory 4 firstThread ∧
      ¬DecoderInside .eight firstHandler enterLooperMemory 1 firstThread := by
  have hwhole : WholeCommands .eight (submitted enterLooperMemory firstThread.consumed 4) :=
    ⟨[.enterLooper], [], .command .enterLooper rfl (by decide +kernel) (.done []), .inl rfl⟩
  refine ⟨(decoder_inside .eight firstHandler enterLooperMemory 4 firstThread (by decide)).1 hwhole,
    fun hi => ?_⟩
  have hone : (submitted enterLooperMemory firstThread.consumed 1).length = 1 := length_submitted
  have hundisturbed : Undisturbed .eight firstHandler enterLooperMemory 1 firstThread := by
    refine ⟨fun _ _ _ => rfl, fun cs rest hs => ?_⟩
    obtain ⟨rfl, -⟩ := hs.of_short (by omega)
    decide +kernel
  have hcut := (decoder_inside .eight firstHandler enterLooperMemory 1 firstThread (by decide)).2
    hundisturbed hi
  rw [hcut.nil_of_short (by omega)] at hone
  cases hone

/-- One byte is submitted, and four are read, executed and reported as consumed. -/
theorem decoder_outside : ¬∀ (m : UserMemory) (size : ℕ) (w : WriteState Driver),
    (driverMachine layout32 .plain).Reach (fun _ _ => True) w.state → w.consumed ≤ size →
      DecoderInside .eight firstHandler m size w := by
  intro hall
  have hreach : (driverMachine layout32 .plain).Reach (fun _ _ => True) firstThread.state :=
    .exec (.start rfl) ⟨trivial, trivial, trivial⟩
  have hconsumed := (hall enterLooperMemory 1 firstThread hreach (by decide)).consumed
  revert hconsumed
  decide +kernel

end Binder

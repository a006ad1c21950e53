import BinderIpc.Native.ThreadFrames
import BinderIpc.Svc.Manager
import BinderIpc.Wire.ReadFraming

/-! The loop of `service_manager`, as `native/binder.c` has it: what a read has reported is
parsed, a handler is called for every transaction, and the buffer is freed and answered. -/

namespace Binder

/-- `struct binder_io` of a reply, as `binder_send_reply` reads it. -/
structure ReplyIo where
  data0 : BitVec 64 := 0
  offs0 : BitVec 64 := 0
  /-- `data - data0` -/
  dataSize : BitVec 64 := 0
  /-- `offs - offs0`, in bytes -/
  offsetsSize : BitVec 64 := 0
  deriving Repr, DecidableEq

/-- What a handler has done: the commands that it wrote itself, what it returned, and `reply`. -/
structure Handled (σ : Type*) where
  state : σ
  wrote : List BcCommand := []
  res : ℤ := 0
  reply : ReplyIo := {}

/-- The functions that `binder_parse` calls. They count references and ask for death notices. -/
structure LibHandlers (σ : Type*) where
  func : σ → TransactionWords → Handled σ
  death : σ → BitVec 64 → σ × List BcCommand
  /-- the address of the parameter `status` -/
  statusPtr : BitVec 64 := 0
  func_writes : ∀ x tr, ∀ c ∈ (func x tr).wrote, c.fromProxy = true
  death_writes : ∀ x d, ∀ c ∈ (death x d).2, c.fromProxy = true

/-- The transaction that `binder_send_reply` fills in. -/
def replyWords (reply : ReplyIo) (status : ℤ) (statusPtr : BitVec 64) : TransactionWords :=
  if status ≠ 0 then { flags := 0x08, dataSize := 4, buffer := statusPtr }
  else
    { dataSize := reply.dataSize, offsetsSize := reply.offsetsSize, buffer := reply.data0
      offsets := reply.offs0 }

inductive LibEvent
  /-- a handler is called -/
  | received (tr : TransactionWords)
  | wrote (c : BcCommand)
  | replied (tr : TransactionWords)
  | died (death : BitVec 64)
  deriving Repr, DecidableEq

structure ParseState (σ : Type*) where
  state : σ
  /-- `bio` is not 0 -/
  wantsReply : Bool := false
  /-- what `bio` was set up from -/
  reply : Option TransactionWords := none
  log : List LibEvent := []

namespace ParseState

variable {σ : Type*} (h : LibHandlers σ) (x : ParseState σ)

def note (es : List LibEvent) : ParseState σ := { x with log := x.log ++ es }

def write (cs : List BcCommand) : ParseState σ := x.note (cs.map .wrote)

def callFunc (tr : TransactionWords) : ParseState σ :=
  let r := h.func x.state tr
  let x := { x with state := r.state }.note (.received tr :: r.wrote.map .wrote)
  if tr.oneWay then x.write [.freeBuffer tr.buffer]
  else x.write [.freeBuffer tr.buffer, .transaction true (replyWords r.reply r.res h.statusPtr)]

/-- The buffer of a reply that nobody asked for is not freed. -/
def takeReply (tr : TransactionWords) : ParseState σ :=
  let x := x.note [.replied tr]
  if x.wantsReply then { x with wantsReply := false, reply := some tr } else x

def callDeath (death : BitVec 64) : ParseState σ :=
  let r := h.death x.state death
  { x with state := r.1 }.note (.died death :: r.2.map .wrote)

end ParseState

section

variable {σ : Type*} (user : PointerWidth) (h : LibHandlers σ) (func : Bool)

/-- A turn of the loop of `binder_parse` at `ptr`: where it goes on and with which `r`; nowhere
when -1 is returned. A word is read whenever a byte is left, and `end - ptr` is unsigned. -/
def parseTurn (mem : ℕ → UInt8) (stop ptr : ℕ) (r : ℤ) (x : ParseState σ) :
    ParseState σ × Option (ℕ × ℤ) :=
  let size := 256 ^ user.bytes
  let left := (stop + size - (ptr + 4)) % size
  match BrCode.ofWord (word32 mem ptr) with
  | some .noop | some .transactionComplete => (x, some (ptr + 4, r))
  | some .increfs | some .acquire | some .release | some .decrefs => (x, some (ptr + 4 + 16, r))
  | some .transaction =>
    if left < 64 then (x, none)
    else
      (if func then x.callFunc h (transactionAt mem (ptr + 4)) else x, some (ptr + 4 + 64, r))
  | some .reply =>
    if left < 64 then (x, none)
    else (x.takeReply (transactionAt mem (ptr + 4)), some (ptr + 4 + 64, 0))
  | some .deadBinder => (x.callDeath h (word64 mem (ptr + 4)), some (ptr + 4 + 8, r))
  | some .failedReply | some .deadReply => (x, some (ptr + 4, -1))
  | _ => (x, none)

/-- `binder_parse`, from `ptr` on. Every turn takes four bytes at least. -/
def binderParse (mem : ℕ → UInt8) (stop : ℕ) : ℕ → ℕ → ℤ → ParseState σ → ParseState σ × ℤ
  | 0, _, r, x => (x, r)
  | k + 1, ptr, r, x =>
    if ptr < stop then
      match parseTurn user h func mem stop ptr r x with
      | (x, some (ptr, r)) => binderParse mem stop k ptr r x
      | (x, none) => (x, -1)
    else (x, r)

end

structure LibLoop (σ : Type*) where
  parse : ParseState σ
  running : Bool := true

/-- `binder_loop`. A turn is what the ioctl has left in `readbuf` with `read_consumed`, or its
failure. -/
def binderLoop {σ : Type*} (user : PointerWidth) (h : LibHandlers σ) (init : σ) :
    Machine (LibLoop σ) (Option ((ℕ → UInt8) × ℕ)) where
  start l := l = { parse := { state := init, log := [.wrote .enterLooper] } }
  step l a :=
    if l.running then
      match a with
      | none => { l with running := false }
      | some (mem, consumed) =>
        let r := binderParse user h true mem consumed consumed 0 1 l.parse
        { parse := r.1, running := 0 < r.2 }
    else l

/-! `service_manager` -/

/-- The words of a command; an entry has the address of its death field in it. -/
def SvcCommand.words (addr : ℕ → BitVec 64) : SvcCommand → BcCommand
  | acquire handle => .ref .acquire (BitVec.ofNat 32 handle)
  | release handle => .ref .release (BitVec.ofNat 32 handle)
  | linkToDeath handle entry => .requestDeathNotification (BitVec.ofNat 32 handle) (addr entry)

/-- What surrounds `svcmgr_handler`: for every transaction in turn the policy and `malloc`; the
message and the reply in memory; the entries by address. -/
structure SvcSurroundings where
  M : ℕ := 2 ^ 64
  env : ℕ → MacEnv := fun _ => {}
  malloc : ℕ → Bool := fun _ => true
  message : TransactionWords → Bio := fun _ => {}
  io : SvcReply → ReplyIo := fun _ => {}
  addr : ℕ → BitVec 64 := fun n => BitVec.ofNat 64 n
  entry : BitVec 64 → ℕ := fun a => a.toNat

/-- The commands that were written since the last time. -/
def SvcMgr.flush (addr : ℕ → BitVec 64) (m : SvcMgr) : SvcMgr × List BcCommand :=
  ({ m with out := [] }, m.out.map (·.words addr))

theorem SvcMgr.flush_writes (addr : ℕ → BitVec 64) (m : SvcMgr) :
    ∀ c ∈ (m.flush addr).2, c.fromProxy = true := by
  intro c hc
  obtain ⟨c', -, rfl⟩ := List.mem_map.1 hc
  cases c' <;> rfl

/-- The handlers of `service_manager`, with the number of transactions so far. -/
def svcHandlers (e : SvcSurroundings) : LibHandlers (SvcMgr × ℕ) where
  func x tr :=
    let r := svcmgrHandler e.M x.1 (e.env x.2) (e.malloc x.2)
      { target := tr.target.toNat, code := tr.code.toNat, senderPid := tr.senderPid.toNat
        senderEuid := tr.senderEuid.toNat } (e.message tr)
    { state := ((r.mgr.flush e.addr).1, x.2 + 1)
      wrote := (r.mgr.flush e.addr).2
      res := if r.reply = .status true then -1 else 0
      reply := e.io r.reply }
  death x d :=
    let m := svcinfoDeath x.1 (e.entry d)
    (((m.flush e.addr).1, x.2), (m.flush e.addr).2)
  func_writes _ _ := SvcMgr.flush_writes _ _
  death_writes _ _ := SvcMgr.flush_writes _ _

/-! Answers -/

/-- A transaction is received, a buffer freed or something sent. -/
def LibEvent.settles : LibEvent → Bool
  | received _ | wrote (.freeBuffer _) | wrote (.transaction _ _) => true
  | _ => false

/-- Every transaction is followed by its buffer and, unless it is one-way, by one reply. -/
inductive Answered : List LibEvent → Prop
  | nil : Answered []
  | oneWay {l : List LibEvent} {tr : TransactionWords} (h : Answered l) (htr : tr.oneWay = true) :
    Answered (l ++ [.received tr, .wrote (.freeBuffer tr.buffer)])
  | twoWay {l : List LibEvent} {tr : TransactionWords} (h : Answered l) (htr : tr.oneWay = false)
    (words : TransactionWords) : Answered
      (l ++ [.received tr, .wrote (.freeBuffer tr.buffer), .wrote (.transaction true words)])

theorem settles_of_fromProxy {c : BcCommand} (hc : c.fromProxy = true) :
    (LibEvent.wrote c).settles = false := by
  cases c with
  | transaction reply tr => cases hc
  | freeBuffer buffer => cases hc
  | _ => rfl

theorem settled_wrote {cs : List BcCommand} (h : ∀ c ∈ cs, c.fromProxy = true) :
    (cs.map LibEvent.wrote).filter LibEvent.settles = [] := by
  rw [List.filter_eq_nil_iff]
  intro e he
  obtain ⟨c, hc, rfl⟩ := List.mem_map.1 he
  rw [settles_of_fromProxy (h c hc)]
  exact Bool.false_ne_true

def ParseState.settled {σ : Type*} (x : ParseState σ) : List LibEvent := x.log.filter LibEvent.settles

section

variable {σ : Type*} {user : PointerWidth} {h : LibHandlers σ} {x : ParseState σ}

theorem settled_note (es : List LibEvent) :
    (x.note es).settled = x.settled ++ es.filter LibEvent.settles := List.filter_append ..

theorem answered_callFunc (hx : Answered x.settled) (tr : TransactionWords) :
    Answered (x.callFunc h tr).settled := by
  have hreceived : (LibEvent.received tr :: (h.func x.state tr).wrote.map .wrote).filter
      LibEvent.settles = [.received tr] := by
    rw [List.filter_cons_of_pos rfl, settled_wrote (h.func_writes x.state tr)]
  unfold ParseState.callFunc
  dsimp only
  by_cases hone : tr.oneWay = true
  · rw [if_pos hone, ParseState.write, settled_note, settled_note, hreceived, List.append_assoc]
    exact .oneWay hx hone
  · rw [if_neg hone, ParseState.write, settled_note, settled_note, hreceived, List.append_assoc]
    exact .twoWay hx (by simpa using hone) _

theorem settled_takeReply (tr : TransactionWords) : (x.takeReply tr).settled = x.settled := by
  have hnote : (x.note [.replied tr]).settled = x.settled := by
    rw [settled_note, List.filter_cons_of_neg (by exact Bool.false_ne_true), List.filter_nil,
      List.append_nil]
  unfold ParseState.takeReply
  dsimp only
  split_ifs <;> exact hnote

theorem settled_callDeath (death : BitVec 64) : (x.callDeath h death).settled = x.settled := by
  have hwrote := settled_wrote (h.death_writes x.state death)
  unfold ParseState.callDeath
  dsimp only
  rw [settled_note, List.filter_cons_of_neg (by exact Bool.false_ne_true), hwrote, List.append_nil]
  rfl

theorem answered_turn (mem : ℕ → UInt8) (stop ptr : ℕ) (r : ℤ) (hx : Answered x.settled) :
    Answered (parseTurn user h true mem stop ptr r x).1.settled := by
  have hfunc : Answered (x.callFunc h (transactionAt mem (ptr + 4))).settled :=
    answered_callFunc hx _
  have hreply : Answered (x.takeReply (transactionAt mem (ptr + 4))).settled := by
    rwa [settled_takeReply]
  have hdeath : Answered (x.callDeath h (word64 mem (ptr + 4))).settled := by
    rwa [settled_callDeath]
  have hitem : ∀ (c : Prop) [Decidable c] (y : ParseState σ) (o : Option (ℕ × ℤ)),
      Answered y.settled → Answered (if c then (x, none) else (y, o)).1.settled := by
    intro c _ y o hy
    split_ifs
    · exact hx
    · exact hy
  unfold parseTurn
  dsimp only
  split
  case h_7 => exact hitem _ _ _ hfunc
  case h_8 => exact hitem _ _ _ hreply
  case h_9 => exact hdeath
  all_goals exact hx

/-- Whatever the bytes are. -/
theorem answered_parse (mem : ℕ → UInt8) (stop k ptr : ℕ) (r : ℤ) (hx : Answered x.settled) :
    Answered (binderParse user h true mem stop k ptr r x).1.settled := by
  induction k generalizing ptr r x with
  | zero => exact hx
  | succ k ih =>
    have hturn : Answered (parseTurn user h true mem stop ptr r x).1.settled :=
      answered_turn mem stop ptr r hx
    unfold binderParse
    by_cases hlt : ptr < stop
    · rw [if_pos hlt]
      split
      · rename_i x' ptr' r' he
        rw [he] at hturn
        exact ih ptr' r' hturn
      · rename_i x' he
        rwa [he] at hturn
    · rwa [if_neg hlt]

end

theorem loop_answers {σ : Type*} {user : PointerWidth} {h : LibHandlers σ} {init : σ} {l : LibLoop σ}
    (hl : (binderLoop user h init).Reach (fun _ _ => True) l) :
    Answered (l.parse.log.filter LibEvent.settles) := by
  apply hl.invariant (I := fun l => Answered l.parse.settled)
  · intro l hl
    cases hl
    exact .nil
  · intro l a hi _
    unfold binderLoop
    dsimp only
    split_ifs
    · split
      · exact hi
      · exact answered_parse _ _ _ _ _ hi
    · exact hi

/-! The commands of a read -/

/-- Memory that begins with the payload. -/
def Returned.payloadAt (c : Returned) (i : ℕ) : UInt8 := c.payload.getD i 0

theorem word_payload {mem : ℕ → UInt8} {c : Returned} {p k : ℕ} (hc : c.payload = bytesAt mem p k)
    {n off : ℕ} (hle : off + n ≤ k) : word c.payloadAt n off = word mem n (p + off) := by
  unfold word
  congr 1
  apply List.map_congr_left
  intro i hi
  have hlt : off + i < k := by
    have hin := List.mem_range.1 hi
    omega
  rw [Returned.payloadAt, hc, bytesAt, List.getD_eq_getElem?_getD, List.getElem?_map,
    List.getElem?_range hlt, Option.map_some, Option.getD_some, Nat.add_assoc]

theorem transactionAt_payload {mem : ℕ → UInt8} {c : Returned} {p : ℕ}
    (hc : c.payload = bytesAt mem p 64) : transactionAt c.payloadAt 0 = transactionAt mem p := by
  simp only [transactionAt, word32, word64, Nat.zero_add]
  simp (disch := omega) only [word_payload hc]
  rfl

section

variable {σ : Type*} (user : PointerWidth) (h : LibHandlers σ) (func : Bool)

/-- What `binder_parse` does with the commands of a read, and what it returns. -/
def obeyReturned : List Returned → ℤ → ParseState σ → ParseState σ × ℤ
  | [], r, x => (x, r)
  | c :: l, r, x =>
    match c.code with
    | .noop | .transactionComplete | .increfs | .acquire | .release | .decrefs => obeyReturned l r x
    | .transaction =>
      obeyReturned l r (if func then x.callFunc h (transactionAt c.payloadAt 0) else x)
    | .reply => obeyReturned l 0 (x.takeReply (transactionAt c.payloadAt 0))
    | .deadBinder => obeyReturned l r (x.callDeath h (word64 c.payloadAt 0))
    | .failedReply | .deadReply => obeyReturned l (-1) x
    | _ => (x, -1)

end

/-- A turn of the splitter. -/
theorem splitFrom_succ {mem : ℕ → UInt8} {size k pos : ℕ} {l : List Returned}
    (h : splitFrom mem size (k + 1) pos = some l) (hlt : pos < size) :
    ∃ code n rest, BrCode.ofWord (word32 mem pos) = some code ∧ waitForResponseReads code = some n ∧
      pos + 4 + n ≤ size ∧ splitFrom mem size k (pos + 4 + n) = some rest ∧
      l = { code := code, payload := bytesAt mem (pos + 4) n } :: rest := by
  unfold splitFrom at h
  rw [if_neg (not_le.2 hlt)] at h
  split_ifs at h
  simp only [Option.bind_eq_bind, Option.bind_eq_some_iff] at h
  obtain ⟨code, hcode, n, hn, h⟩ := h
  split_ifs at h with hroom
  simp only [Option.bind_eq_some_iff] at h
  obtain ⟨rest, hrest, h⟩ := h
  cases h
  exact ⟨code, n, rest, hcode, hn, not_lt.1 hroom, hrest, rfl⟩

section

variable {σ : Type*} {user : PointerWidth} {h : LibHandlers σ} {func : Bool} {mem : ℕ → UInt8}
  {stop : ℕ}

theorem binderParse_split (hstop : stop < 256 ^ user.bytes) {k pos : ℕ} {l : List Returned}
    (hsplit : splitFrom mem stop k pos = some l) (r : ℤ) (x : ParseState σ) :
    binderParse user h func mem stop k pos r x = obeyReturned h func l r x := by
  induction k generalizing pos l r x with
  | zero =>
    unfold splitFrom at hsplit
    split_ifs at hsplit
    cases hsplit
    rfl
  | succ k ih =>
    by_cases hlt : pos < stop
    · obtain ⟨code, n, rest, hcode, hn, hroom, hrest, rfl⟩ := splitFrom_succ hsplit hlt
      have hgo : ∀ x' r', parseTurn user h func mem stop pos r x = (x', some (pos + 4 + n, r')) →
          binderParse user h func mem stop (k + 1) pos r x = obeyReturned h func rest r' x' := by
        intro x' r' hturn
        rw [binderParse, if_pos hlt, hturn]
        exact ih hrest r' x'
      have hend : parseTurn user h func mem stop pos r x = (x, none) →
          binderParse user h func mem stop (k + 1) pos r x = (x, -1) := by
        intro hturn
        rw [binderParse, if_pos hlt, hturn]
      have hleft : n = 64 → ¬(stop + 256 ^ user.bytes - (pos + 4)) % 256 ^ user.bytes < 64 := by
        intro hn
        have hle : pos + 4 ≤ stop := by omega
        have hsum : stop + 256 ^ user.bytes - (pos + 4) = stop - (pos + 4) + 256 ^ user.bytes := by
          omega
        rw [hsum, Nat.add_mod_right, Nat.mod_eq_of_lt (by omega)]
        omega
      have htr : ∀ code, transactionAt (Returned.payloadAt ⟨code, bytesAt mem (pos + 4) 64⟩) 0 =
          transactionAt mem (pos + 4) := fun _ => transactionAt_payload rfl
      have hptr : ∀ code, word64 (Returned.payloadAt ⟨code, bytesAt mem (pos + 4) 8⟩) 0 =
          word64 mem (pos + 4) := by
        intro code
        rw [word64, word_payload (c := ⟨code, bytesAt mem (pos + 4) 8⟩) rfl le_rfl]
        rfl
      cases code with
      | transaction =>
        cases hn
        rw [hgo (if func then x.callFunc h (transactionAt mem (pos + 4)) else x) r
          (by simp only [parseTurn, hcode, hleft rfl, if_false]), obeyReturned]
        simp only [htr]
      | reply =>
        cases hn
        rw [hgo (x.takeReply (transactionAt mem (pos + 4))) 0
          (by simp only [parseTurn, hcode, hleft rfl, if_false]), obeyReturned]
        simp only [htr]
      | deadBinder =>
        cases hn
        rw [hgo (x.callDeath h (word64 mem (pos + 4))) r (by simp only [parseTurn, hcode]), obeyReturned]
        simp only [hptr]
      | noop =>
        cases hn
        exact hgo x r (by simp only [parseTurn, hcode])
      | transactionComplete =>
        cases hn
        exact hgo x r (by simp only [parseTurn, hcode])
      | increfs =>
        cases hn
        exact hgo x r (by simp only [parseTurn, hcode])
      | acquire =>
        cases hn
        exact hgo x r (by simp only [parseTurn, hcode])
      | release =>
        cases hn
        exact hgo x r (by simp only [parseTurn, hcode])
      | decrefs =>
        cases hn
        exact hgo x r (by simp only [parseTurn, hcode])
      | failedReply =>
        cases hn
        exact hgo x (-1) (by simp only [parseTurn, hcode])
      | deadReply =>
        cases hn
        exact hgo x (-1) (by simp only [parseTurn, hcode])
      | _ => exact hend (by simp only [parseTurn, hcode])
    · have hnil : l = [] := by
        unfold splitFrom at hsplit
        rw [if_pos (not_lt.1 hlt)] at hsplit
        exact (Option.some.inj hsplit).symm
      rw [binderParse, if_neg hlt, hnil, obeyReturned]

/-- What `binder_loop` goes on after. -/
def BrCode.served : BrCode → Bool
  | noop | transactionComplete | increfs | acquire | release | decrefs | transaction | deadBinder => true
  | _ => false

theorem obeyReturned_nonpos {l : List Returned} {r : ℤ} (hr : r ≤ 0) (x : ParseState σ) :
    (obeyReturned h func l r x).2 ≤ 0 := by
  induction l generalizing r x with
  | nil => exact hr
  | cons c l ih =>
    rw [obeyReturned]
    split
    case h_8 => exact ih le_rfl _
    case h_10 => exact ih (by decide) _
    case h_11 => exact ih (by decide) _
    case h_12 => exact Int.neg_nonpos_of_nonneg Int.one_nonneg
    all_goals exact ih hr _

theorem obeyReturned_pos {l : List Returned} {r : ℤ} (hr : 0 < r) (x : ParseState σ) :
    0 < (obeyReturned h func l r x).2 ↔ ∀ c ∈ l, c.code.served = true := by
  induction l generalizing r x with
  | nil => simpa [obeyReturned] using hr
  | cons c l ih =>
    have hserved : c.code.served = true → ∀ x, (0 < (obeyReturned h func l r x).2 ↔
        ∀ c' ∈ c :: l, c'.code.served = true) := by
      intro hc x
      rw [ih hr x, List.forall_mem_cons]
      exact ⟨fun hl => ⟨hc, hl⟩, And.right⟩
    have hunserved : c.code.served = false → ∀ {r : ℤ}, r ≤ 0 → (0 < r ↔
        ∀ c' ∈ c :: l, c'.code.served = true) := by
      intro hc r hr
      refine iff_of_false (not_lt.2 hr) fun hl => ?_
      rw [hl c (by simp)] at hc
      cases hc
    rw [obeyReturned]
    split
    case h_8 he => exact hunserved (by rw [he]; rfl) (obeyReturned_nonpos le_rfl _)
    case h_10 he => exact hunserved (by rw [he]; rfl) (obeyReturned_nonpos (by decide) _)
    case h_11 he => exact hunserved (by rw [he]; rfl) (obeyReturned_nonpos (by decide) _)
    case h_12 =>
      refine hunserved ?_ (Int.neg_nonpos_of_nonneg Int.one_nonneg)
      cases hcode : c.code <;> first | rfl | contradiction
    all_goals exact hserved (by simp only [*]; rfl) _

end

section

variable {σ : Type*} {user : PointerWidth} {h : LibHandlers σ} {init : σ}

/-- What the driver puts out for a thread is what `binder_loop` does in its next turn. -/
theorem read_obeyed {L : Layout} {rb : RbTree ℕ} {rest : ℕ → TransactionWords} {T size : ℕ}
    {x : Driver × ReadBuffer} {c : ℕ}
    (hx : (readCall L rest T size).Reach (fun x a => inDriver L rb T x a ∧ withoutBrError T x a) x)
    (hc : x.2.result = some (some c)) (hwidth : c < 256 ^ user.bytes) {l : LibLoop σ}
    (hl : l.running = true) : (binderLoop user h init).step l (some (x.2.mem, c)) =
      { parse := (obeyReturned h true x.2.emitted 1 l.parse).1
        running := x.2.emitted.all (·.code.served) } := by
  have hstep : Waits x.1 T size x.2 ∨ x.2.Split := by
    apply hx.invariant (I := fun x => Waits x.1 T size x.2 ∨ x.2.Split)
    · intro x hx
      right
      rw [show x.2 = { x.2 with result := some none } by rw [← hx]]
      exact split_error x.2
    · intro x a hi ha
      cases a with
      | read nonBlock fault => exact putBegin_step nonBlock ha.2
      | resume fault => exact hi.elim (putResume_step ha.2) fun hs => absurd ha.1.2 hs.1
      | others s =>
        apply hi.imp_left
        rintro ⟨hopened, hfits, f, hf, hsize, hptr⟩
        have hframe : s.frame T = some (size, 4) := by
          rw [ha.1.2, Driver.frame, hf, Option.map_some, hsize, hptr]
        obtain ⟨g, hg, hpair⟩ := Option.map_eq_some_iff.1 hframe
        exact ⟨hopened, hfits, g, hg, congrArg Prod.fst hpair, congrArg Prod.snd hpair⟩
  have hsplit : split x.2.mem c = some x.2.emitted := by
    rcases hstep with hw | hs
    · rw [hw.opened.result] at hc
      cases hc
    · exact hs.2 c hc
  have hparse : binderParse user h true x.2.mem c c 0 1 l.parse =
      obeyReturned h true x.2.emitted 1 l.parse := binderParse_split hwidth hsplit 1 l.parse
  have hgoes : 0 < (obeyReturned h true x.2.emitted 1 l.parse).2 ↔
      ∀ r ∈ x.2.emitted, r.code.served = true := obeyReturned_pos one_pos l.parse
  unfold binderLoop
  dsimp only
  rw [if_pos hl, hparse]
  congr 1
  rw [Bool.eq_iff_iff, decide_eq_true_iff, hgoes, List.all_eq_true]

end

/-! `service_manager` reads the call of a client -/

/-- The context manager waits in a read, and the client's call is there for it. -/
def wokenManager : List Action :=
  callingClient ++ [.read 0 128 0 false fun _ => false, .lookForWork 0]

def managerSteps : List CallStep :=
  [.read false fun _ => false, .others (afterActions wokenManager), .resume fun _ => false]

/-- What the driver has put out for thread 0. -/
def managerRead : Driver × ReadBuffer :=
  (readCall layout32 (fun _ => { buffer := 0x10000 }) 0 128).exec (clientCall callingClient) managerSteps

/-- `service_manager` before its first turn. -/
def firstTurn : LibLoop (SvcMgr × ℕ) := { parse := { state := ({}, 0), log := [.wrote .enterLooper] } }

def managerTurn : LibLoop (SvcMgr × ℕ) :=
  (binderLoop .eight (svcHandlers {}) ({}, 0)).step firstTurn (some (managerRead.2.mem, 72))

theorem managerRead_reach : (readCall layout32 (fun _ => { buffer := 0x10000 }) 0 128).Reach
    (fun x a => inDriver layout32 .plain 0 x a ∧ withoutBrError 0 x a) managerRead := by
  refine .exec (.start rfl) ⟨⟨reach_afterActions callingClient, ?_⟩,
    ⟨⟨reach_afterActions wokenManager, ?_⟩, trivial⟩, ⟨⟨reach_afterActions wokenManager, ?_⟩, ?_⟩, trivial⟩
  · exact ⟨by decide +kernel, by decide +kernel⟩
  · decide +kernel
  · decide +kernel
  · exact ⟨by decide +kernel, by decide +kernel⟩

theorem read_obeyed_manager : managerTurn =
    { parse := (obeyReturned (svcHandlers {}) true managerRead.2.emitted 1 firstTurn.parse).1
      running := managerRead.2.emitted.all (·.code.served) } := by
  have hc : managerRead.2.result = some (some 72) := by decide +kernel
  exact read_obeyed managerRead_reach hc (by decide) rfl

theorem loop_answers_manager : Answered (managerTurn.parse.log.filter LibEvent.settles) ∧
    (managerTurn.parse.log.filter LibEvent.settles).length = 3 := by
  have hreach : (binderLoop .eight (svcHandlers {}) ({}, 0)).Reach (fun _ _ => True) managerTurn :=
    .step (.start rfl) _ trivial
  exact ⟨loop_answers hreach, by decide +kernel⟩

end Binder

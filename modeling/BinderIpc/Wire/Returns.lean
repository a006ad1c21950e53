import BinderIpc.Wire.Commands

/-! The commands of the driver as bytes, and how `IPCThreadState` splits what a
read has reported. `Parcel` reads take exactly the bytes of their type. -/

namespace Binder

/-- `_IO('r', nr)` -/
def ior0 (nr : ℕ) : ℕ := 0x72 * 2 ^ 8 + nr

/-- `_IOR('r', nr, type)` for a type of `size` bytes -/
def ior (nr size : ℕ) : ℕ := 2 ^ 31 + size * 2 ^ 16 + ior0 nr

inductive BrCode
  | error | ok | transaction | reply | acquireResult | deadReply | transactionComplete
  | increfs | acquire | release | decrefs | attemptAcquire | noop | spawnLooper | finished
  | deadBinder | clearDeathNotificationDone | failedReply
  deriving Repr, DecidableEq

namespace BrCode

def toNat : BrCode → ℕ
  | error => ior 0 4
  | ok => ior0 1
  | transaction => ior 2 64
  | reply => ior 3 64
  | acquireResult => ior 4 4
  | deadReply => ior0 5
  | transactionComplete => ior0 6
  | increfs => ior 7 16
  | acquire => ior 8 16
  | release => ior 9 16
  | decrefs => ior 10 16
  | attemptAcquire => ior 11 24
  | noop => ior0 12
  | spawnLooper => ior0 13
  | finished => ior0 14
  | deadBinder => ior 15 8
  | clearDeathNotificationDone => ior 16 8
  | failedReply => ior0 17

def word (c : BrCode) : BitVec 32 := BitVec.ofNat 32 c.toNat

def all : List BrCode :=
  [error, ok, transaction, reply, acquireResult, deadReply, transactionComplete, increfs, acquire,
    release, decrefs, attemptAcquire, noop, spawnLooper, finished, deadBinder,
    clearDeathNotificationDone, failedReply]

/-- The case that a `switch` takes. -/
def ofWord (w : BitVec 32) : Option BrCode := all.find? (·.word = w)

theorem ofWord_word (c : BrCode) : ofWord c.word = some c := by
  cases c <;> rfl

end BrCode

/-- A command with the bytes that belong to it. -/
structure Returned where
  code : BrCode
  payload : List UInt8 := []
  deriving Repr, DecidableEq

def Returned.bytes (r : Returned) : List UInt8 := le32 r.code.word ++ r.payload

/-! The reader -/

/-- What a case reads from `mIn`, in bytes. There is no case for the other commands. -/
def executeCommandReads : BrCode → Option ℕ
  | .error => some 4
  | .ok => some 0
  | .acquire | .release | .increfs | .decrefs => some (8 + 8)
  | .attemptAcquire => some (8 + 8)
  | .transaction => some 64
  | .deadBinder => some 8
  | .clearDeathNotificationDone => some 8
  | .finished | .noop | .spawnLooper => some 0
  | _ => none

/-- `waitForResponse` leaves what it does not know to `executeCommand`. -/
def waitForResponseReads : BrCode → Option ℕ
  | .transactionComplete | .deadReply | .failedReply => some 0
  | .acquireResult => some 4
  | .reply => some 64
  | c => executeCommandReads c

def bytesAt (mem : ℕ → UInt8) (ptr n : ℕ) : List UInt8 := (List.range n).map fun i => mem (ptr + i)

/-- The commands from `pos` on in `mIn`, whose data has `size` bytes. -/
def splitFrom (mem : ℕ → UInt8) (size : ℕ) : ℕ → ℕ → Option (List Returned)
  | 0, pos => if size ≤ pos then some [] else none
  | k + 1, pos =>
    if size ≤ pos then some []
    else if size < pos + 4 then none
    else do
      let code ← BrCode.ofWord (word32 mem pos)
      let n ← waitForResponseReads code
      if size < pos + 4 + n then none
      else
        let rest ← splitFrom mem size k (pos + 4 + n)
        return { code := code, payload := bytesAt mem (pos + 4) n } :: rest

/-- Every turn reads four bytes at least. -/
def split (mem : ℕ → UInt8) (size : ℕ) : Option (List Returned) := splitFrom mem size size 0

/-- The reader takes as many bytes for the command as belong to it. -/
def Returned.Fits (r : Returned) : Prop := waitForResponseReads r.code = some r.payload.length

instance (r : Returned) : Decidable r.Fits :=
  inferInstanceAs (Decidable (waitForResponseReads r.code = some r.payload.length))

theorem Returned.length_bytes (r : Returned) : r.bytes.length = 4 + r.payload.length := by
  simp [bytes]

theorem length_flatMap_bytes_ge (l : List Returned) : l.length ≤ (l.flatMap (·.bytes)).length := by
  induction l with
  | nil => exact le_rfl
  | cons r l ih =>
    rw [List.flatMap_cons, List.length_append, List.length_cons, r.length_bytes]
    omega

section

variable {mem : ℕ → UInt8} {size pos k : ℕ} {l : List Returned}

theorem fits_of_splitFrom (h : splitFrom mem size k pos = some l) : ∀ r ∈ l, r.Fits := by
  induction k generalizing pos l with
  | zero =>
    unfold splitFrom at h
    split_ifs at h
    cases h
    simp
  | succ k ih =>
    unfold splitFrom at h
    split_ifs at h with h1 h2
    · cases h
      simp
    · simp only [Option.bind_eq_bind, Option.bind_eq_some_iff] at h
      obtain ⟨code, -, n, hn, h⟩ := h
      split_ifs at h with h3
      simp only [Option.bind_eq_some_iff] at h
      obtain ⟨rest, hrest, h⟩ := h
      cases h
      intro r hr
      rcases List.mem_cons.1 hr with rfl | hr
      · simpa [Returned.Fits, bytesAt] using hn
      · exact ih hrest r hr

theorem splitFrom_stored (hmem : Stored mem pos (l.flatMap (·.bytes)))
    (hsize : size = pos + (l.flatMap (·.bytes)).length) (hk : l.length ≤ k)
    (hfit : ∀ r ∈ l, r.Fits) : splitFrom mem size k pos = some l := by
  induction l generalizing pos k with
  | nil =>
    have hle : size ≤ pos := by simp [hsize]
    cases k with
    | zero => exact if_pos hle
    | succ k => exact if_pos hle
  | cons r l ih =>
    obtain ⟨k, rfl⟩ : ∃ j, k = j + 1 := ⟨k - 1, by simp at hk; omega⟩
    rw [List.flatMap_cons, List.length_append, r.length_bytes] at hsize
    rw [List.flatMap_cons, Returned.bytes, List.append_assoc, stored_append, stored_append,
      length_le32, Nat.add_assoc] at hmem
    obtain ⟨hcode, hpayload, hrest⟩ := hmem
    have hr : waitForResponseReads r.code = some r.payload.length := hfit r (by simp)
    have hpay : bytesAt mem (pos + 4) r.payload.length = r.payload := hpayload.range
    have hlist : splitFrom mem size k (pos + 4 + r.payload.length) = some l :=
      ih (by rwa [Nat.add_assoc]) (by omega) (by simpa using hk) fun x hx => hfit x (by simp [hx])
    unfold splitFrom
    rw [if_neg (by omega), if_neg (by omega), hcode.word32_eq, BrCode.ofWord_word]
    simp only [Option.bind_eq_bind, Option.bind_some, hr, hlist, hpay]
    rw [if_neg (by omega)]
    rfl

/-- What lies in memory is split as it was put together just if every command fits. -/
theorem split_stored_iff (hmem : Stored mem 0 (l.flatMap (·.bytes)))
    (hsize : size = (l.flatMap (·.bytes)).length) :
    split mem size = some l ↔ ∀ r ∈ l, r.Fits := by
  refine ⟨fits_of_splitFrom, splitFrom_stored hmem (by rw [hsize, Nat.zero_add]) ?_⟩
  rw [hsize]
  exact length_flatMap_bytes_ge l

end

/-! The user's memory is written -/

/-- `put_user` and `copy_to_user` -/
def putBytes (mem : ℕ → UInt8) (ptr : ℕ) (bs : List UInt8) : ℕ → UInt8 := fun i =>
  if ptr ≤ i then bs.getD (i - ptr) (mem i) else mem i

section

variable {mem : ℕ → UInt8} {ptr p : ℕ} {bs a : List UInt8}

theorem stored_putBytes : Stored (putBytes mem ptr bs) ptr bs := by
  intro i hi
  rw [putBytes, if_pos (Nat.le_add_right ..), Nat.add_sub_cancel_left,
    List.getD_eq_getElem?_getD, List.getElem?_eq_getElem hi, Option.getD_some]

theorem Stored.putBytes (h : Stored mem p a) (hd : p + a.length ≤ ptr ∨ ptr + bs.length ≤ p) :
    Stored (putBytes mem ptr bs) p a := by
  intro i hi
  rw [← h i hi, Binder.putBytes]
  split_ifs with hle
  · rw [List.getD_eq_getElem?_getD, List.getElem?_eq_none (by omega), Option.getD_none]
  · rfl

/-- Bytes are put behind those that are there. -/
theorem Stored.putBytes_append (h : Stored mem p a) (hptr : ptr = p + a.length) :
    Stored (Binder.putBytes mem ptr bs) p (a ++ bs) :=
  stored_append.2 ⟨h.putBytes (Or.inl hptr.ge), hptr ▸ stored_putBytes⟩

end

end Binder

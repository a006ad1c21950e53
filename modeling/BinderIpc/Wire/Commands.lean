import BinderIpc.Driver.Write
import BinderIpc.Lib.Words

/-! The commands of the user as bytes: who writes them, in `IPCThreadState` and
in the library of `service_manager`. `binder_uintptr_t` has 8 bytes, structures
have the layout of the uapi header. -/

namespace Binder

/-- `_IO('c', nr)` -/
def ioc (nr : ℕ) : ℕ := 0x63 * 2 ^ 8 + nr

/-- `_IOW('c', nr, type)` for a type of `size` bytes -/
def iow (nr size : ℕ) : ℕ := 2 ^ 30 + size * 2 ^ 16 + ioc nr

inductive BcCode
  | transaction | reply | acquireResult | freeBuffer
  | increfs | acquire | release | decrefs | increfsDone | acquireDone | attemptAcquire
  | registerLooper | enterLooper | exitLooper
  | requestDeathNotification | clearDeathNotification | deadBinderDone
  deriving Repr, DecidableEq

namespace BcCode

def toNat : BcCode → ℕ
  | transaction => iow 0 64
  | reply => iow 1 64
  | acquireResult => iow 2 4
  | freeBuffer => iow 3 8
  | increfs => iow 4 4
  | acquire => iow 5 4
  | release => iow 6 4
  | decrefs => iow 7 4
  | increfsDone => iow 8 16
  | acquireDone => iow 9 16
  | attemptAcquire => iow 10 8
  | registerLooper => ioc 11
  | enterLooper => ioc 12
  | exitLooper => ioc 13
  | requestDeathNotification => iow 14 12
  | clearDeathNotification => iow 15 12
  | deadBinderDone => iow 16 8

def word (c : BcCode) : BitVec 32 := BitVec.ofNat 32 c.toNat

def all : List BcCode :=
  [transaction, reply, acquireResult, freeBuffer, increfs, acquire, release, decrefs, increfsDone,
    acquireDone, attemptAcquire, registerLooper, enterLooper, exitLooper, requestDeathNotification,
    clearDeathNotification, deadBinderDone]

/-- The case that the driver's `switch` takes. -/
def ofWord (w : BitVec 32) : Option BcCode := all.find? (·.word = w)

theorem ofWord_word (c : BcCode) : ofWord c.word = some c := by
  cases c <;> rfl

theorem word_ofWord {w : BitVec 32} {c : BcCode} (h : ofWord w = some c) : c.word = w := by
  simpa using List.find?_some h

end BcCode

/-- `struct binder_transaction_data` -/
structure TransactionWords where
  target : BitVec 64 := 0
  cookie : BitVec 64 := 0
  code : BitVec 32 := 0
  flags : BitVec 32 := 0
  senderPid : BitVec 32 := 0
  senderEuid : BitVec 32 := 0
  dataSize : BitVec 64 := 0
  offsetsSize : BitVec 64 := 0
  buffer : BitVec 64 := 0
  offsets : BitVec 64 := 0
  deriving Repr, DecidableEq

def TransactionWords.bytes (tr : TransactionWords) : List UInt8 :=
  le64 tr.target ++ (le64 tr.cookie ++ (le32 tr.code ++ (le32 tr.flags ++ (le32 tr.senderPid ++
    (le32 tr.senderEuid ++ (le64 tr.dataSize ++ (le64 tr.offsetsSize ++ (le64 tr.buffer ++
      le64 tr.offsets))))))))

@[simp] theorem TransactionWords.length_bytes (tr : TransactionWords) : tr.bytes.length = 64 := by
  simp [bytes]

/-- The structure at `ptr`. -/
def transactionAt (mem : ℕ → UInt8) (ptr : ℕ) : TransactionWords where
  target := word64 mem ptr
  cookie := word64 mem (ptr + 8)
  code := word32 mem (ptr + 16)
  flags := word32 mem (ptr + 20)
  senderPid := word32 mem (ptr + 24)
  senderEuid := word32 mem (ptr + 28)
  dataSize := word64 mem (ptr + 32)
  offsetsSize := word64 mem (ptr + 40)
  buffer := word64 mem (ptr + 48)
  offsets := word64 mem (ptr + 56)

theorem Stored.transactionAt_eq {mem : ℕ → UInt8} {ptr : ℕ} {tr : TransactionWords}
    (h : Stored mem ptr tr.bytes) : transactionAt mem ptr = tr := by
  simp only [TransactionWords.bytes, stored_append, length_le64, length_le32, Nat.add_assoc,
    Nat.reduceAdd] at h
  obtain ⟨h1, h2, h3, h4, h5, h6, h7, h8, h9, h10⟩ := h
  simp only [transactionAt, h1.word64_eq, h2.word64_eq, h3.word32_eq, h4.word32_eq, h5.word32_eq,
    h6.word32_eq, h7.word64_eq, h8.word64_eq, h9.word64_eq, h10.word64_eq]

theorem stored_transactionAt (mem : ℕ → UInt8) (ptr : ℕ) :
    Stored mem ptr (transactionAt mem ptr).bytes := by
  simp only [TransactionWords.bytes, stored_append, length_le64, length_le32, Nat.add_assoc,
    Nat.reduceAdd, transactionAt]
  exact ⟨stored_word64, stored_word64, stored_word32, stored_word32, stored_word32, stored_word32,
    stored_word64, stored_word64, stored_word64, stored_word64⟩

/-- A command with its payload. -/
inductive BcCommand
  | ref (c : RefCommand) (target : BitVec 32)
  | refDone (strong : Bool) (ptr cookie : BitVec 64)
  | freeBuffer (dataPtr : BitVec 64)
  | transaction (reply : Bool) (tr : TransactionWords)
  | registerLooper
  | enterLooper
  | exitLooper
  | requestDeathNotification (target : BitVec 32) (cookie : BitVec 64)
  | clearDeathNotification (target : BitVec 32) (cookie : BitVec 64)
  | deadBinderDone (cookie : BitVec 64)
  /-- two commands that the driver refuses -/
  | attemptAcquire (priority handle : BitVec 32)
  | acquireResult (result : BitVec 32)
  deriving Repr, DecidableEq

def RefCommand.bcCode : RefCommand → BcCode
  | increfs => .increfs
  | acquire => .acquire
  | release => .release
  | decrefs => .decrefs

namespace BcCommand

def code : BcCommand → BcCode
  | ref c _ => c.bcCode
  | refDone strong _ _ => if strong then .acquireDone else .increfsDone
  | freeBuffer _ => .freeBuffer
  | transaction reply _ => if reply then .reply else .transaction
  | registerLooper => .registerLooper
  | enterLooper => .enterLooper
  | exitLooper => .exitLooper
  | requestDeathNotification _ _ => .requestDeathNotification
  | clearDeathNotification _ _ => .clearDeathNotification
  | deadBinderDone _ => .deadBinderDone
  | attemptAcquire _ _ => .attemptAcquire
  | acquireResult _ => .acquireResult

def payload : BcCommand → List UInt8
  | ref _ target => le32 target
  | refDone _ ptr cookie => le64 ptr ++ le64 cookie
  | freeBuffer dataPtr => le64 dataPtr
  | transaction _ tr => tr.bytes
  | registerLooper | enterLooper | exitLooper => []
  | requestDeathNotification target cookie | clearDeathNotification target cookie =>
    le32 target ++ le64 cookie
  | deadBinderDone cookie => le64 cookie
  | attemptAcquire priority handle => le32 priority ++ le32 handle
  | acquireResult result => le32 result

def bytes (c : BcCommand) : List UInt8 := le32 c.code.word ++ c.payload

/-- The driver returns `-EINVAL` for these. -/
def unsupported : BcCommand → Bool
  | attemptAcquire _ _ | acquireResult _ => true
  | _ => false

/-- Behind a code that the driver knows there is a command, wherever the buffer ends. -/
theorem exists_stored {mem : ℕ → UInt8} {ptr : ℕ} {code : BcCode}
    (h : BcCode.ofWord (word32 mem ptr) = some code) :
    ∃ c : BcCommand, c.code = code ∧ Stored mem ptr c.bytes := by
  have hcode : Stored mem ptr (le32 code.word) := by
    rw [BcCode.word_ofWord h]
    exact stored_word32
  -- the payload is read off the memory
  suffices hload : ∃ c : BcCommand, c.code = code ∧ Stored mem (ptr + 4) c.payload by
    obtain ⟨c, rfl, hc⟩ := hload
    refine ⟨c, rfl, stored_append.2 ⟨hcode, ?_⟩⟩
    rwa [length_le32]
  have hnone : Stored mem (ptr + 4) [] := fun i hi => absurd hi (Nat.not_lt_zero i)
  have hdone : Stored mem (ptr + 4) (le64 (word64 mem (ptr + 4)) ++ le64 (word64 mem (ptr + 4 + 8))) :=
    stored_append.2 ⟨stored_word64, stored_word64⟩
  have hdeath : Stored mem (ptr + 4) (le32 (word32 mem (ptr + 4)) ++ le64 (word64 mem (ptr + 4 + 4))) :=
    stored_append.2 ⟨stored_word32, stored_word64⟩
  cases code with
  | transaction => exact ⟨.transaction false _, rfl, stored_transactionAt mem (ptr + 4)⟩
  | reply => exact ⟨.transaction true _, rfl, stored_transactionAt mem (ptr + 4)⟩
  | acquireResult => exact ⟨.acquireResult _, rfl, stored_word32⟩
  | freeBuffer => exact ⟨.freeBuffer _, rfl, stored_word64⟩
  | increfs => exact ⟨.ref .increfs _, rfl, stored_word32⟩
  | acquire => exact ⟨.ref .acquire _, rfl, stored_word32⟩
  | release => exact ⟨.ref .release _, rfl, stored_word32⟩
  | decrefs => exact ⟨.ref .decrefs _, rfl, stored_word32⟩
  | increfsDone => exact ⟨.refDone false _ _, rfl, hdone⟩
  | acquireDone => exact ⟨.refDone true _ _, rfl, hdone⟩
  | attemptAcquire =>
    exact ⟨.attemptAcquire _ _, rfl, stored_append.2 ⟨stored_word32, stored_word32⟩⟩
  | registerLooper => exact ⟨.registerLooper, rfl, hnone⟩
  | enterLooper => exact ⟨.enterLooper, rfl, hnone⟩
  | exitLooper => exact ⟨.exitLooper, rfl, hnone⟩
  | requestDeathNotification => exact ⟨.requestDeathNotification _ _, rfl, hdeath⟩
  | clearDeathNotification => exact ⟨.clearDeathNotification _ _, rfl, hdeath⟩
  | deadBinderDone => exact ⟨.deadBinderDone _, rfl, stored_word64⟩

end BcCommand

/-! Writers, as their sources put the words out -/

def writeInt32 (v : BitVec 32) : List UInt8 := le32 v

/-- `Parcel::writePointer` of a `binder_uintptr_t` -/
def writePointer (v : BitVec 64) : List UInt8 := le64 v

namespace IPCThreadState

def incStrongHandle (handle : BitVec 32) : List UInt8 :=
  writeInt32 BcCode.acquire.word ++ writeInt32 handle

def decStrongHandle (handle : BitVec 32) : List UInt8 :=
  writeInt32 BcCode.release.word ++ writeInt32 handle

def incWeakHandle (handle : BitVec 32) : List UInt8 :=
  writeInt32 BcCode.increfs.word ++ writeInt32 handle

def decWeakHandle (handle : BitVec 32) : List UInt8 :=
  writeInt32 BcCode.decrefs.word ++ writeInt32 handle

def attemptIncStrongHandle (handle : BitVec 32) : List UInt8 :=
  writeInt32 BcCode.attemptAcquire.word ++ (writeInt32 0 ++ writeInt32 handle)

def requestDeathNotification (handle : BitVec 32) (proxy : BitVec 64) : List UInt8 :=
  writeInt32 BcCode.requestDeathNotification.word ++ (writeInt32 handle ++ writePointer proxy)

def clearDeathNotification (handle : BitVec 32) (proxy : BitVec 64) : List UInt8 :=
  writeInt32 BcCode.clearDeathNotification.word ++ (writeInt32 handle ++ writePointer proxy)

/-- The end of `writeTransactionData`. -/
def writeTransactionData (reply : Bool) (tr : TransactionWords) : List UInt8 :=
  writeInt32 (if reply then BcCode.reply else .transaction).word ++ tr.bytes

def freeBuffer (data : BitVec 64) : List UInt8 :=
  writeInt32 BcCode.freeBuffer.word ++ writePointer data

/-- What `executeCommand` answers to `BR_ACQUIRE`, and to `BR_INCREFS`. -/
def refDone (strong : Bool) (refs obj : BitVec 64) : List UInt8 :=
  writeInt32 (if strong then BcCode.acquireDone else .increfsDone).word ++
    (writePointer refs ++ writePointer obj)

/-- What it answers to `BR_ATTEMPT_ACQUIRE`. -/
def acquireResult (success : BitVec 32) : List UInt8 :=
  writeInt32 BcCode.acquireResult.word ++ writeInt32 success

/-- What it answers to `BR_DEAD_BINDER`. -/
def deadBinderDone (proxy : BitVec 64) : List UInt8 :=
  writeInt32 BcCode.deadBinderDone.word ++ writePointer proxy

end IPCThreadState

namespace BinderLib

def binderFreeBuffer (buffer : BitVec 64) : List UInt8 := le32 BcCode.freeBuffer.word ++ le64 buffer

def binderSendReply (buffer : BitVec 64) (txn : TransactionWords) : List UInt8 :=
  (le32 BcCode.freeBuffer.word ++ le64 buffer) ++ (le32 BcCode.reply.word ++ txn.bytes)

def binderAcquire (target : BitVec 32) : List UInt8 := le32 BcCode.acquire.word ++ le32 target

def binderRelease (target : BitVec 32) : List UInt8 := le32 BcCode.release.word ++ le32 target

/-- The structure after the code is a packed `struct binder_handle_cookie`. -/
def binderLinkToDeath (target : BitVec 32) (death : BitVec 64) : List UInt8 :=
  le32 BcCode.requestDeathNotification.word ++ (le32 target ++ le64 death)

def binderCall (txn : TransactionWords) : List UInt8 := le32 BcCode.transaction.word ++ txn.bytes

end BinderLib

/-- The writers agree on the layout of a command. -/
theorem writers_agree (reply strong : Bool) (u v : BitVec 32) (x y : BitVec 64)
    (tr : TransactionWords) :
    (IPCThreadState.incStrongHandle u = (BcCommand.ref .acquire u).bytes ∧
      IPCThreadState.decStrongHandle u = (BcCommand.ref .release u).bytes ∧
      IPCThreadState.incWeakHandle u = (BcCommand.ref .increfs u).bytes ∧
      IPCThreadState.decWeakHandle u = (BcCommand.ref .decrefs u).bytes ∧
      IPCThreadState.attemptIncStrongHandle u = (BcCommand.attemptAcquire 0 u).bytes ∧
      IPCThreadState.requestDeathNotification u x = (BcCommand.requestDeathNotification u x).bytes ∧
      IPCThreadState.clearDeathNotification u x = (BcCommand.clearDeathNotification u x).bytes ∧
      IPCThreadState.writeTransactionData reply tr = (BcCommand.transaction reply tr).bytes ∧
      IPCThreadState.freeBuffer x = (BcCommand.freeBuffer x).bytes ∧
      IPCThreadState.refDone strong x y = (BcCommand.refDone strong x y).bytes ∧
      IPCThreadState.acquireResult v = (BcCommand.acquireResult v).bytes ∧
      IPCThreadState.deadBinderDone x = (BcCommand.deadBinderDone x).bytes) ∧
    (BinderLib.binderFreeBuffer x = (BcCommand.freeBuffer x).bytes ∧
      BinderLib.binderSendReply x tr =
        (BcCommand.freeBuffer x).bytes ++ (BcCommand.transaction true tr).bytes ∧
      BinderLib.binderAcquire u = (BcCommand.ref .acquire u).bytes ∧
      BinderLib.binderRelease u = (BcCommand.ref .release u).bytes ∧
      BinderLib.binderLinkToDeath u x = (BcCommand.requestDeathNotification u x).bytes ∧
      BinderLib.binderCall tr = (BcCommand.transaction false tr).bytes) :=
  ⟨⟨rfl, rfl, rfl, rfl, rfl, rfl, rfl, rfl, rfl, rfl, rfl, rfl⟩, rfl, rfl, rfl, rfl, rfl, rfl⟩

/-! Streams -/

/-- The width of a C pointer. -/
inductive PointerWidth
  | four | eight
  deriving Repr, DecidableEq

def PointerWidth.bytes : PointerWidth → ℕ
  | four => 4
  | eight => 8

/-- A command in a stream. `binder_done` puts the buffer out as a `uintptr_t`. -/
inductive Written
  | command (c : BcCommand)
  | binderDone (buffer : BitVec 64)
  deriving Repr, DecidableEq

namespace Written

/-- The command that is meant. -/
def meant (user : PointerWidth) : Written → BcCommand
  | command c => c
  | binderDone buffer => .freeBuffer (BitVec.ofNat 64 (buffer.toNat % 256 ^ user.bytes))

def bytes (user : PointerWidth) : Written → List UInt8
  | command c => c.bytes
  | binderDone buffer => le32 BcCode.freeBuffer.word ++ leBytes user.bytes buffer.toNat

end Written

def streamBytes (user : PointerWidth) (xs : List Written) : List UInt8 := xs.flatMap (·.bytes user)

end Binder

import BinderIpc.Driver.Objects
import BinderIpc.Lib.Words

/-! Reading a message: `struct binder_io` in the library of `service_manager`.
`M` is 2 to the width of a `size_t`. -/

namespace Binder

structure Bio where
  /-- memory from `data0` on -/
  mem : ℕ → UInt8 := fun _ => 0
  /-- `data - data0` -/
  data : ℕ := 0
  dataAvail : ℕ := 0
  /-- the entries from `offs0` on -/
  offs : ℕ → ℕ := fun _ => 0
  offsAvail : ℕ := 0
  overflow : Bool := false
  /-- `offs - offs0` -/
  offsUsed : ℕ := 0
  /-- how the machine lays out a word -/
  order : ByteOrder := .little

namespace Bio

def word16 (mem : ℕ → UInt8) (ptr : ℕ) (order : ByteOrder := .little) : ℕ := order.word mem 2 ptr

/-- `sizeof(size_t)` -/
def sizeofSize (M : ℕ) : ℕ := if M = 2 ^ 32 then 4 else 8

/-- `bio_init_from_txn` -/
def initFromTxn (M : ℕ) (mem : ℕ → UInt8) (offs : ℕ → ℕ) (dataSize offsetsSize : ℕ)
    (order : ByteOrder := .little) : Bio where
  mem := mem
  order := order
  dataAvail := dataSize
  offs := offs
  offsAvail := offsetsSize / sizeofSize M

/-- `(size + 3) & (~3)` -/
def roundUp (M size : ℕ) : ℕ := (size + 3) % M / 4 * 4

/-- `bio_get`; the pointer counts from `data0`. -/
def get (M : ℕ) (bio : Bio) (size : ℕ) : Bio × Option ℕ :=
  let size := roundUp M size
  if bio.dataAvail < size then ({ bio with dataAvail := 0, overflow := true }, none)
  else ({ bio with data := bio.data + size, dataAvail := bio.dataAvail - size }, some bio.data)

def getUint32 (M : ℕ) (bio : Bio) : Bio × ℕ :=
  match bio.get M 4 with
  | (bio, some ptr) => (bio, bio.order.word bio.mem 4 ptr)
  | (bio, none) => (bio, 0)

/-- The length that is reported, and the string unless it is not there. -/
def getString16 (M : ℕ) (bio : Bio) : Bio × ℕ × Option ℕ :=
  let (bio, len) := bio.getUint32 M
  let (bio, ptr) := bio.get M ((len + 1) % M * 2 % M)
  (bio, len, ptr)

def getObj (M : ℕ) (bio : Bio) : Bio × Option ℕ :=
  if (List.range bio.offsAvail).any fun n => bio.offs n = bio.data then bio.get M objectSize
  else ({ bio with dataAvail := 0, overflow := true }, none)

def getRef (M : ℕ) (bio : Bio) : Bio × ℕ :=
  match bio.getObj M with
  | (bio, none) => (bio, 0)
  | (bio, some obj) =>
    (bio, if bio.order.word bio.mem 4 obj = ObjectType.handle.code then
      bio.order.word bio.mem 4 (obj + 8) else 0)

/-- The units that lie at `ptr`. -/
def string16 (bio : Bio) (ptr len : ℕ) : List ℕ :=
  (List.range len).map fun i => word16 bio.mem (ptr + 2 * i) bio.order

end Bio

end Binder

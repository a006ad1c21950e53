import BinderIpc.Svc.Bio
import Mathlib.Data.List.TakeWhile

/-! Writing a message and reading it back. -/

namespace Binder

namespace Bio

/-- `bio_init`; `stack` is the buffer from `data0` on. -/
def init (M : ℕ) (stack : ℕ → UInt8) (maxdata maxoffs : ℕ) (order : ByteOrder := .little) : Bio :=
  let n := maxoffs * sizeofSize M % M
  if maxdata < n then { mem := stack, overflow := true, order := order }
  else { mem := stack, dataAvail := maxdata - n, offsAvail := maxoffs, order := order }

/-- `bio_alloc` -/
def alloc (M : ℕ) (bio : Bio) (size : ℕ) : Bio × Option ℕ :=
  let size := roundUp M size
  if bio.dataAvail < size then ({ bio with overflow := true }, none)
  else ({ bio with data := bio.data + size, dataAvail := bio.dataAvail - size }, some bio.data)

/-- `bio_alloc_obj` -/
def allocObj (M : ℕ) (bio : Bio) : Bio × Option ℕ :=
  match bio.alloc M objectSize with
  | (bio, some obj) =>
    if bio.offsAvail = 0 then ({ bio with overflow := true }, none)
    else ({ bio with
      offsAvail := bio.offsAvail - 1
      offs := fun n => if n = bio.offsUsed then obj else bio.offs n
      offsUsed := bio.offsUsed + 1 }, some obj)
  | (bio, none) => ({ bio with overflow := true }, none)

def write (bio : Bio) (ptr : ℕ) (bs : List UInt8) : Bio := { bio with mem := store bio.mem ptr bs }

def putUint32 (M : ℕ) (bio : Bio) (n : ℕ) : Bio :=
  match bio.alloc M 4 with
  | (bio, some ptr) => bio.write ptr (bio.order.bytes 4 n)
  | (bio, none) => bio

def maxBioSize : ℕ := 2 ^ 30

/-- A string of 16-bit units as it lies in memory, with its NUL. -/
def units (order : ByteOrder) (str : List ℕ) : List UInt8 := (str ++ [0]).flatMap (order.bytes 2)

/-- `bio_put_string16`; a string ends at its first NUL. -/
def putString16 (M : ℕ) (bio : Bio) (str : Option (List ℕ)) : Bio :=
  match str with
  | none => bio.putUint32 M 0xffffffff
  | some str =>
    let str := str.takeWhile (· ≠ 0)
    if maxBioSize / 2 ≤ str.length then bio.putUint32 M 0xffffffff
    else
      match (bio.putUint32 M str.length).alloc M ((str.length + 1) % M * 2 % M) with
      | (bio, some ptr) => bio.write ptr (units bio.order str)
      | (bio, none) => bio

/-- `bio_put_string16_x`; every character becomes one unit. -/
def putString16X (M : ℕ) (bio : Bio) (str : Option (List ℕ)) : Bio := bio.putString16 M str

/-- `0x7f | FLAT_BINDER_FLAG_ACCEPTS_FDS` -/
def refFlags : ℕ := 0x17f

/-- `bio_put_ref`; the upper half of the union stays as it was. -/
def putRef (M : ℕ) (bio : Bio) (handle : ℕ) : Bio :=
  match if handle ≠ 0 then bio.allocObj M else bio.alloc M objectSize with
  | (bio, some obj) =>
    (((bio.write (obj + 4) (bio.order.bytes 4 refFlags)).write obj
      (bio.order.bytes 4 ObjectType.handle.code)).write (obj + 8) (bio.order.bytes 4 handle)).write
      (obj + 16) (bio.order.bytes 8 0)
  | (bio, none) => bio

end Bio

/-- One field of a message. -/
inductive BioItem
  | uint32 (n : ℕ) | string16 (str : Option (List ℕ)) | string16X (str : Option (List ℕ))
  | ref (handle : ℕ)
  deriving Repr, DecidableEq

/-- What a field reads as; a string that is not there reads as a null pointer. -/
inductive BioValue
  | uint32 (n : ℕ) | string16 (str : Option (List ℕ)) | ref (handle : ℕ)
  deriving Repr, DecidableEq

namespace BioItem

def value : BioItem → BioValue
  | uint32 n => .uint32 n
  | string16 str | string16X str => .string16 str
  | ref handle => .ref handle

/-- The field has the type that its writer takes. -/
def Typed : BioItem → Prop
  | uint32 n => n < 2 ^ 32
  | string16 str => ∀ s, str = some s → ∀ u ∈ s, u ≠ 0 ∧ u < 2 ^ 16
  | string16X str => ∀ s, str = some s → ∀ u ∈ s, u ≠ 0 ∧ u < 2 ^ 8
  | ref handle => handle < 2 ^ 32

/-- No null string, no string of 2^29 units, no handle 0. -/
def plain : BioItem → Bool
  | uint32 _ => true
  | string16 str | string16X str => str.any fun s => s.length < Bio.maxBioSize / 2
  | ref handle => handle ≠ 0

def put (M : ℕ) (bio : Bio) : BioItem → Bio
  | uint32 n => bio.putUint32 M n
  | string16 str => bio.putString16 M str
  | string16X str => bio.putString16X M str
  | ref handle => bio.putRef M handle

/-- The reader that goes with the writer of the field. -/
def get (M : ℕ) (bio : Bio) : BioItem → Bio × BioValue
  | uint32 _ =>
    let (bio, n) := bio.getUint32 M
    (bio, .uint32 n)
  | string16 _ | string16X _ =>
    let (bio, len, ptr) := bio.getString16 M
    (bio, .string16 (ptr.map fun ptr => bio.string16 ptr len))
  | ref _ =>
    let (bio, handle) := bio.getRef M
    (bio, .ref handle)

end BioItem

namespace Bio

def putAll (M : ℕ) (bio : Bio) (items : List BioItem) : Bio := items.foldl (BioItem.put M) bio

def getAll (M : ℕ) (bio : Bio) : List BioItem → Bio × List BioValue
  | [] => (bio, [])
  | item :: items =>
    let (bio, v) := item.get M bio
    let (bio, vs) := getAll M bio items
    (bio, v :: vs)

/-- The bytes from `data0` to `data` and the offsets from `offs0` to `offs`, as they are received. -/
def received (M : ℕ) (bio : Bio) : Bio :=
  initFromTxn M bio.mem bio.offs bio.data (bio.offsUsed * sizeofSize M) bio.order

end Bio

/-! What the writers leave behind -/

section

variable {M pos ptr : ℕ} {bio b w : Bio} {item : BioItem}
  {items : List BioItem}

namespace Bio

theorem roundUp_eq {size : ℕ} (h : size + 3 < M) : roundUp M size = (size + 3) / 4 * 4 := by
  rw [roundUp, Nat.mod_eq_of_lt h]

/-- `b` comes after `bio`: what lies below its `data` stays, new offsets point between the two. -/
structure Extends (bio b : Bio) : Prop where
  data : bio.data ≤ b.data
  mem : ∀ i < bio.data, b.mem i = bio.mem i
  used : bio.offsUsed ≤ b.offsUsed
  offs : ∀ n < bio.offsUsed, b.offs n = bio.offs n
  new : ∀ n, bio.offsUsed ≤ n → n < b.offsUsed → bio.data ≤ b.offs n ∧ b.offs n < b.data
  overflow : bio.overflow = true → b.overflow = true
  order : b.order = bio.order

theorem Extends.refl (bio : Bio) : Extends bio bio :=
  ⟨le_rfl, fun _ _ => rfl, le_rfl, fun _ _ => rfl, fun _ h1 h2 => absurd h2 (by omega), id, rfl⟩

theorem Extends.trans (h1 : Extends bio b) (h2 : Extends b w) : Extends bio w where
  data := h1.data.trans h2.data
  mem i hi := (h2.mem i (hi.trans_le h1.data)).trans (h1.mem i hi)
  used := h1.used.trans h2.used
  offs n hn := (h2.offs n (hn.trans_le h1.used)).trans (h1.offs n hn)
  new n hn hlt := by
    by_cases hb : n < b.offsUsed
    · rw [h2.offs n hb]
      exact ⟨(h1.new n hn hb).1, (h1.new n hn hb).2.trans_le h2.data⟩
    · have := h2.new n (by omega) hlt
      exact ⟨h1.data.trans this.1, this.2⟩
  overflow h := h2.overflow (h1.overflow h)
  order := h2.order.trans h1.order

theorem alloc_eq (M : ℕ) (bio : Bio) (size : ℕ) : bio.alloc M size =
    if bio.dataAvail < roundUp M size then ({ bio with overflow := true }, none)
    else ({ bio with
      data := bio.data + roundUp M size
      dataAvail := bio.dataAvail - roundUp M size }, some bio.data) := rfl

theorem Extends.alloc (h : Extends bio b) (M size : ℕ) : Extends bio (b.alloc M size).1 := by
  refine h.trans ?_
  rw [alloc_eq]
  split_ifs
  · exact ⟨le_rfl, fun _ _ => rfl, le_rfl, fun _ _ => rfl, fun _ h1 h2 => absurd h2 (by simp; omega),
      fun _ => rfl, rfl⟩
  · exact ⟨Nat.le_add_right .., fun _ _ => rfl, le_rfl, fun _ _ => rfl,
      fun _ h1 h2 => absurd h2 (by simp; omega), id, rfl⟩

theorem Extends.write (h : Extends bio b) (hptr : bio.data ≤ ptr) (bs : List UInt8) :
    Extends bio (b.write ptr bs) where
  data := h.data
  mem i hi := (store_below (hi.trans_le hptr)).trans (h.mem i hi)
  used := h.used
  offs := h.offs
  new := h.new
  overflow := h.overflow
  order := h.order

theorem alloc_ptr (M : ℕ) (bio : Bio) (size ptr : ℕ) (h : (bio.alloc M size).2 = some ptr) :
    ptr = bio.data := by
  rw [alloc_eq] at h
  split_ifs at h
  exact (Option.some_inj.1 h).symm

theorem alloc_data {size : ℕ} (hM : size + 3 < M) (bio : Bio) (ptr : ℕ)
    (h : (bio.alloc M size).2 = some ptr) :
    ptr = bio.data ∧ (0 < size → bio.data < (bio.alloc M size).1.data) := by
  refine ⟨alloc_ptr M bio size ptr h, fun hpos => ?_⟩
  rw [alloc_eq] at h ⊢
  split_ifs at h ⊢
  rw [roundUp_eq hM]
  change bio.data < bio.data + (size + 3) / 4 * 4
  omega

theorem Extends.allocObj (hM : 2 ^ 31 ≤ M) (h : Extends bio b) : Extends bio (b.allocObj M).1 := by
  have ha := h.alloc M objectSize
  have hp := alloc_data (show objectSize + 3 < M from lt_of_lt_of_le (by decide) hM) b
  unfold Bio.allocObj
  generalize b.alloc M objectSize = r at ha hp
  obtain ⟨b', p⟩ := r
  cases p with
  | none => exact ⟨ha.data, ha.mem, ha.used, ha.offs, ha.new, fun _ => rfl, ha.order⟩
  | some p =>
    obtain ⟨rfl, hlt⟩ := hp p rfl
    have hdata : b.data < b'.data := hlt (by decide)
    dsimp only
    split_ifs
    · exact ⟨ha.data, ha.mem, ha.used, ha.offs, ha.new, fun _ => rfl, ha.order⟩
    · refine ⟨ha.data, ha.mem, ha.used.trans (Nat.le_succ _), fun n hn => ?_, fun n h1 h2 => ?_,
        ha.overflow, ha.order⟩
      · have hne : n ≠ b'.offsUsed := (hn.trans_le ha.used).ne
        rw [← ha.offs n hn]
        exact if_neg hne
      · by_cases hn : n = b'.offsUsed
        · have hoff : (if n = b'.offsUsed then b.data else b'.offs n) = b.data := if_pos hn
          change bio.data ≤ (if n = b'.offsUsed then b.data else b'.offs n) ∧
            (if n = b'.offsUsed then b.data else b'.offs n) < b'.data
          rw [hoff]
          exact ⟨h.data, hdata⟩
        · have hlt : n < b'.offsUsed := by
            have : n < b'.offsUsed + 1 := h2
            omega
          have hoff : (if n = b'.offsUsed then b.data else b'.offs n) = b'.offs n := if_neg hn
          change bio.data ≤ (if n = b'.offsUsed then b.data else b'.offs n) ∧
            (if n = b'.offsUsed then b.data else b'.offs n) < b'.data
          rw [hoff]
          exact ha.new n h1 hlt

theorem allocObj_ptr {ptr : ℕ} (h : (bio.allocObj M).2 = some ptr) : ptr = bio.data := by
  have hp := alloc_ptr M bio objectSize
  unfold Bio.allocObj at h
  generalize bio.alloc M objectSize = r at h hp
  obtain ⟨b', p⟩ := r
  cases p with
  | none => cases h
  | some p =>
    dsimp only at h
    split_ifs at h
    obtain rfl := Option.some_inj.1 h
    exact hp p rfl

theorem Extends.putUint32 (h : Extends bio b) (M n : ℕ) : Extends bio (b.putUint32 M n) := by
  have ha := h.alloc M 4
  have hp := alloc_ptr M b 4
  unfold Bio.putUint32
  generalize b.alloc M 4 = r at ha hp
  obtain ⟨b', p⟩ := r
  cases p with
  | none => exact ha
  | some p => exact ha.write (h.data.trans_eq (hp p rfl).symm) _

theorem Extends.putString16 (h : Extends bio b) (M : ℕ) (str : Option (List ℕ)) :
    Extends bio (b.putString16 M str) := by
  cases str with
  | none => exact h.putUint32 M _
  | some s =>
    unfold Bio.putString16
    dsimp only
    split_ifs
    · exact h.putUint32 M _
    · have hput := h.putUint32 M (s.takeWhile (· ≠ 0)).length
      have ha := hput.alloc M (((s.takeWhile (· ≠ 0)).length + 1) % M * 2 % M)
      have hp := alloc_ptr M (b.putUint32 M (s.takeWhile (· ≠ 0)).length)
        (((s.takeWhile (· ≠ 0)).length + 1) % M * 2 % M)
      generalize (b.putUint32 M (s.takeWhile (· ≠ 0)).length).alloc M
        (((s.takeWhile (· ≠ 0)).length + 1) % M * 2 % M) = r at ha hp
      obtain ⟨b', p⟩ := r
      cases p with
      | none => exact ha
      | some p => exact ha.write (hput.data.trans_eq (hp p rfl).symm) _

theorem Extends.putRef (hM : 2 ^ 31 ≤ M) (h : Extends bio b) (handle : ℕ) :
    Extends bio (b.putRef M handle) := by
  unfold Bio.putRef
  have hr : Extends bio (if handle ≠ 0 then b.allocObj M else b.alloc M objectSize).1 ∧
      ∀ p, (if handle ≠ 0 then b.allocObj M else b.alloc M objectSize).2 = some p → p = b.data := by
    split_ifs
    · exact ⟨h.allocObj hM, fun _ => allocObj_ptr⟩
    · exact ⟨h.alloc M objectSize, alloc_ptr M b objectSize⟩
  generalize (if handle ≠ 0 then b.allocObj M else b.alloc M objectSize) = r at hr
  obtain ⟨b', p⟩ := r
  cases p with
  | none => exact hr.1
  | some p =>
    have hle : bio.data ≤ p := h.data.trans_eq (hr.2 p rfl).symm
    exact (((hr.1.write (hle.trans (Nat.le_add_right ..)) _).write hle _).write
      (hle.trans (Nat.le_add_right ..)) _).write (hle.trans (Nat.le_add_right ..)) _

theorem Extends.put (hM : 2 ^ 31 ≤ M) (h : Extends bio b) (item : BioItem) :
    Extends bio (item.put M b) := by
  cases item with
  | uint32 n => exact h.putUint32 M n
  | string16 str => exact h.putString16 M str
  | string16X str => exact h.putString16 M str
  | ref handle => exact h.putRef hM handle

theorem Extends.putAll (hM : 2 ^ 31 ≤ M) (h : Extends bio b) (items : List BioItem) :
    Extends bio (b.putAll M items) := by
  induction items generalizing b with
  | nil => exact h
  | cons item items ih => exact ih (h.put hM item)

end Bio

/-! Where the fields lie -/

/-- The string as it is written out, unless the marker of a null string is. -/
def BioItem.body (str : Option (List ℕ)) : Option (List ℕ) :=
  str.filter fun s => s.length < Bio.maxBioSize / 2

def BioItem.stringSize (str : Option (List ℕ)) : ℕ :=
  (body str).elim 4 fun s => 4 + (2 * (s.length + 1) + 3) / 4 * 4

/-- The bytes that the writer takes. -/
def BioItem.size : BioItem → ℕ
  | uint32 _ => 4
  | string16 str | string16X str => stringSize str
  | ref _ => objectSize

/-- The string lies at `pos`. -/
def BioItem.StringAt (w : Bio) (pos : ℕ) (str : Option (List ℕ)) : Prop :=
  match body str with
  | none => Stored w.mem pos (w.order.bytes 4 0xffffffff)
  | some s => Stored w.mem pos (w.order.bytes 4 s.length) ∧
    Stored w.mem (pos + 4) (Bio.units w.order s)

/-- The field lies at `pos`; only an object has an offset. -/
def BioItem.At (w : Bio) (pos : ℕ) : BioItem → Prop
  | uint32 n => Stored w.mem pos (w.order.bytes 4 n)
  | string16 str | string16X str => StringAt w pos str
  | ref handle =>
    (Stored w.mem pos (w.order.bytes 4 ObjectType.handle.code) ∧
      Stored w.mem (pos + 8) (w.order.bytes 4 handle)) ∧
    (handle ≠ 0 ↔ ∃ n < w.offsUsed, w.offs n = pos)

/-- The fields lie one after the other. -/
def Laid (w : Bio) : ℕ → List BioItem → Prop
  | pos, [] => pos = w.data
  | pos, item :: items => item.At w pos ∧ Laid w (pos + item.size) items

def totalSize (items : List BioItem) : ℕ := (items.map BioItem.size).sum

theorem Laid.data (h : Laid w pos items) : w.data = pos + totalSize items := by
  induction items generalizing pos with
  | nil => exact h.symm
  | cons item items ih =>
    rw [ih h.2, totalSize, totalSize, List.map_cons, List.sum_cons, Nat.add_assoc]

theorem length_units (order : ByteOrder) (str : List ℕ) :
    (Bio.units order str).length = 2 * (str.length + 1) := by
  simp [Bio.units, List.length_flatMap]
  omega

/-- What is written later leaves a field where it is. -/
theorem BioItem.At.extends (h : item.At b pos) (hext : b.Extends w)
    (hsize : pos + item.size ≤ b.data) : item.At w pos := by
  have hframe : ∀ {p : ℕ} {bs : List UInt8}, p + bs.length ≤ b.data → Stored b.mem p bs →
      Stored w.mem p bs := fun hle hs => hs.frame fun i _ hi => hext.mem i (by omega)
  have hstring : ∀ str, pos + stringSize str ≤ b.data → StringAt b pos str →
      StringAt w pos str := fun str hle hat => by
    unfold StringAt stringSize at *
    cases hb : body str with
    | none =>
      rw [hb] at hat hle
      rw [hext.order]
      exact hframe (by simpa using hle) hat
    | some s =>
      rw [hb] at hat hle
      simp only [Option.elim_some] at hle
      rw [hext.order]
      exact ⟨hframe (by simp; omega) hat.1, hframe (by rw [length_units]; omega) hat.2⟩
  cases item with
  | uint32 n =>
    have hat : Stored w.mem pos (b.order.bytes 4 n) := hframe (by simpa [size] using hsize) h
    rwa [← hext.order] at hat
  | string16 str => exact hstring str hsize h
  | string16X str => exact hstring str hsize h
  | ref handle =>
    obtain ⟨⟨htype, hhandle⟩, hoff⟩ := h
    have hsize : pos + 24 ≤ b.data := hsize
    refine ⟨?_, hoff.trans ⟨fun ⟨n, hn, hp⟩ => ?_, fun ⟨n, hn, hp⟩ => ?_⟩⟩
    · rw [hext.order]
      exact ⟨hframe (by simp; omega) htype, hframe (by simp; omega) hhandle⟩
    · exact ⟨n, hn.trans_le hext.used, (hext.offs n hn).trans hp⟩
    · -- an offset that came later points behind the field
      by_cases hlt : n < b.offsUsed
      · exact ⟨n, hlt, (hext.offs n hlt).symm.trans hp⟩
      · have := hext.new n (by omega) hn
        omega

/-! What a writer does when there is room -/

namespace Bio

/-- `data` moves on. -/
def skip (bio : Bio) (size : ℕ) : Bio :=
  { bio with data := bio.data + size, dataAvail := bio.dataAvail - size }

theorem alloc_ok {size : ℕ} (h : (bio.alloc M size).1.overflow = false) :
    bio.overflow = false ∧
      bio.alloc M size = (bio.skip (roundUp M size), some bio.data) := by
  rw [alloc_eq] at *
  split_ifs at *
  exact ⟨h, rfl⟩

theorem putUint32_ok {n : ℕ} (hM : 2 ^ 31 ≤ M) (h : (bio.putUint32 M n).overflow = false) :
    bio.overflow = false ∧
      bio.putUint32 M n = (bio.skip 4).write bio.data (bio.order.bytes 4 n) := by
  have hround : roundUp M 4 = 4 := roundUp_eq (by omega)
  have ha : (bio.alloc M 4).1.overflow = false := by
    unfold Bio.putUint32 at h
    generalize bio.alloc M 4 = r at h
    obtain ⟨b', p⟩ := r
    cases p with
    | none => exact h
    | some p => exact h
  obtain ⟨h0, heq⟩ := alloc_ok ha
  refine ⟨h0, ?_⟩
  rw [Bio.putUint32, heq, hround]
  rfl

theorem alloc_some (M : ℕ) (bio : Bio) (size : ℕ) (h : roundUp M size ≤ bio.dataAvail) :
    bio.alloc M size = (bio.skip (roundUp M size), some bio.data) := by
  rw [alloc_eq, if_neg (by omega)]
  rfl

theorem putUint32_some {n : ℕ} (hM : 2 ^ 31 ≤ M) (h : 4 ≤ bio.dataAvail) :
    bio.putUint32 M n = (bio.skip 4).write bio.data (bio.order.bytes 4 n) := by
  have hround : roundUp M 4 = 4 := roundUp_eq (by omega)
  rw [Bio.putUint32, alloc_some M bio 4 (hround.le.trans h), hround]
  rfl

/-- The place that the units of a string take. -/
theorem roundUp_units {len : ℕ} (hlen : 2 * len + 5 < M) :
    roundUp M ((len + 1) % M * 2 % M) = (2 * (len + 1) + 3) / 4 * 4 := by
  rw [Nat.mod_eq_of_lt (show len + 1 < M by omega), Nat.mod_eq_of_lt (by omega),
    roundUp_eq (by omega), Nat.mul_comm (len + 1) 2]

theorem putString16_ok {str : Option (List ℕ)} (hM : 2 ^ 31 ≤ M)
    (hz : ∀ s, str = some s → ∀ u ∈ s, u ≠ 0) (h : (bio.putString16 M str).overflow = false) :
    bio.overflow = false ∧
      (bio.putString16 M str).data = bio.data + BioItem.stringSize str ∧
      (bio.putString16 M str).offsUsed = bio.offsUsed ∧
      BioItem.StringAt (bio.putString16 M str) bio.data str := by
  -- the marker is written in place of a string that is not there or too long
  have hmarker : (bio.putUint32 M 0xffffffff).overflow = false → BioItem.body str = none →
      bio.putString16 M str = bio.putUint32 M 0xffffffff → bio.overflow = false ∧
      (bio.putString16 M str).data = bio.data + BioItem.stringSize str ∧
      (bio.putString16 M str).offsUsed = bio.offsUsed ∧
      BioItem.StringAt (bio.putString16 M str) bio.data str := fun hput hbody heq => by
    obtain ⟨h0, hw⟩ := putUint32_ok hM hput
    unfold BioItem.stringSize BioItem.StringAt
    rw [hbody, heq, hw]
    exact ⟨h0, rfl, rfl, stored_store bio.mem bio.data _⟩
  cases str with
  | none => exact hmarker h rfl rfl
  | some s =>
    have hs : s.takeWhile (· ≠ 0) = s :=
      List.takeWhile_eq_self_iff.2 fun u hu => by simpa using hz s rfl u hu
    by_cases hlong : maxBioSize / 2 ≤ s.length
    · have heq : bio.putString16 M (some s) = bio.putUint32 M 0xffffffff := by
        simp only [Bio.putString16, hs, if_pos hlong]
      rw [heq] at h
      exact hmarker h (by simp [BioItem.body, hlong]) heq
    · have hbody : BioItem.body (some s) = some s := by
        simp [BioItem.body, Nat.lt_of_not_le hlong]
      have hlen : s.length < 2 ^ 29 := lt_of_lt_of_le (Nat.lt_of_not_le hlong) (by decide)
      have ha : ((bio.putUint32 M s.length).alloc M
          ((s.length + 1) % M * 2 % M)).1.overflow = false := by
        simp only [Bio.putString16, hs, if_neg hlong] at h
        generalize (bio.putUint32 M s.length).alloc M ((s.length + 1) % M * 2 % M) = r at h
        obtain ⟨b', p⟩ := r
        cases p with
        | none => exact h
        | some p => exact h
      obtain ⟨h1, hal⟩ := alloc_ok ha
      obtain ⟨h0, hw⟩ := putUint32_ok hM h1
      rw [roundUp_units (by omega)] at hal
      have heq : bio.putString16 M (some s) =
          ((((bio.skip 4).write bio.data (bio.order.bytes 4 s.length)).skip
            ((2 * (s.length + 1) + 3) / 4 * 4)).write (bio.data + 4) (units bio.order s)) := by
        rw [hw] at hal
        simp only [Bio.putString16, hs, if_neg hlong, hw, hal]
        rfl
      unfold BioItem.stringSize BioItem.StringAt
      rw [hbody, heq]
      refine ⟨h0, Nat.add_assoc .., rfl, ?_, stored_store _ (bio.data + 4) _⟩
      exact (stored_store bio.mem bio.data _).frame fun i _ hi => store_below (by simpa using hi)

/-- The offsets point into what is written. -/
def Tidy (bio : Bio) : Prop := ∀ n < bio.offsUsed, bio.offs n < bio.data

theorem Extends.tidy (h : bio.Extends b) (ht : bio.Tidy) : b.Tidy := fun n hn => by
  by_cases hlt : n < bio.offsUsed
  · rw [h.offs n hlt]
    exact (ht n hlt).trans_le h.data
  · exact (h.new n (by omega) hn).2

theorem putRef_ok {handle : ℕ} (hM : 2 ^ 31 ≤ M) (ht : bio.Tidy)
    (h : (bio.putRef M handle).overflow = false) :
    bio.overflow = false ∧ (bio.putRef M handle).data = bio.data + objectSize ∧
      BioItem.At (bio.putRef M handle) bio.data (.ref handle) := by
  have hround : roundUp M objectSize = objectSize := roundUp_eq (lt_of_lt_of_le (by decide) hM)
  -- the object itself is laid out the same way in both cases
  have hfill : ∀ b' : Bio, b'.order = bio.order →
      Stored (((((b'.write (bio.data + 4) (b'.order.bytes 4 refFlags)).write bio.data
        (b'.order.bytes 4 ObjectType.handle.code)).write (bio.data + 8)
        (b'.order.bytes 4 handle)).write (bio.data + 16) (b'.order.bytes 8 0)).mem) bio.data
        (b'.order.bytes 4 ObjectType.handle.code) ∧
      Stored (((((b'.write (bio.data + 4) (b'.order.bytes 4 refFlags)).write bio.data
        (b'.order.bytes 4 ObjectType.handle.code)).write (bio.data + 8)
        (b'.order.bytes 4 handle)).write (bio.data + 16) (b'.order.bytes 8 0)).mem) (bio.data + 8)
        (b'.order.bytes 4 handle) := fun b' _ => by
    constructor
    · refine (stored_store (b'.write (bio.data + 4) (b'.order.bytes 4 refFlags)).mem bio.data
        (b'.order.bytes 4 ObjectType.handle.code)).frame fun i _ hi => ?_
      rw [ByteOrder.length_bytes] at hi
      exact (store_below (by omega)).trans (store_below (by omega))
    · refine (stored_store ((b'.write (bio.data + 4) (b'.order.bytes 4 refFlags)).write bio.data
        (b'.order.bytes 4 ObjectType.handle.code)).mem (bio.data + 8)
        (b'.order.bytes 4 handle)).frame fun i _ hi => ?_
      rw [ByteOrder.length_bytes] at hi
      exact store_below (by omega)
  by_cases hz : handle = 0
  · have ha : (bio.alloc M objectSize).1.overflow = false := by
      simp only [Bio.putRef, hz, ne_eq, not_true_eq_false, if_false] at h
      generalize bio.alloc M objectSize = r at h
      obtain ⟨b', p⟩ := r
      cases p with
      | none => exact h
      | some p => exact h
    obtain ⟨h0, hal⟩ := alloc_ok ha
    rw [hround] at hal
    have hcase : (if handle ≠ 0 then bio.allocObj M else bio.alloc M objectSize) =
        (bio.skip objectSize, some bio.data) := by rw [if_neg (by simpa using hz), hal]
    unfold BioItem.At Bio.putRef
    rw [hcase]
    refine ⟨h0, rfl, hfill (bio.skip objectSize) rfl, fun hne => absurd hz hne, fun ⟨n, hn, hp⟩ => ?_⟩
    exact absurd hp (ht n hn).ne
  · have ha : (bio.alloc M objectSize).1.overflow = false ∧
        (bio.alloc M objectSize).1.offsAvail ≠ 0 := by
      simp only [Bio.putRef, Bio.allocObj, ne_eq, hz, not_false_eq_true, if_true] at h
      generalize bio.alloc M objectSize = r at h
      obtain ⟨b', p⟩ := r
      cases p with
      | none => cases h
      | some p =>
        dsimp only at h
        by_cases hav : b'.offsAvail = 0
        · rw [if_pos hav] at h
          exact Bool.noConfusion h
        · rw [if_neg hav] at h
          exact ⟨h, hav⟩
    obtain ⟨h0, hal⟩ := alloc_ok ha.1
    rw [hround] at hal
    rw [hal] at ha
    set b' : Bio := { bio.skip objectSize with
      offsAvail := bio.offsAvail - 1
      offs := fun n => if n = bio.offsUsed then bio.data else bio.offs n
      offsUsed := bio.offsUsed + 1 } with hb'
    have hcase : (if handle ≠ 0 then bio.allocObj M else bio.alloc M objectSize) =
        (b', some bio.data) := by
      rw [if_pos hz, Bio.allocObj, hal]
      exact if_neg ha.2
    unfold BioItem.At Bio.putRef
    rw [hcase]
    refine ⟨h0, rfl, hfill b' rfl, fun _ => ⟨bio.offsUsed, Nat.lt_succ_self _, if_pos rfl⟩, fun _ => hz⟩

theorem put_ok (hM : 2 ^ 31 ≤ M) (ht : bio.Tidy) (htyped : item.Typed)
    (h : (item.put M bio).overflow = false) :
    (item.put M bio).data = bio.data + item.size ∧ item.At (item.put M bio) bio.data := by
  cases item with
  | uint32 n =>
    obtain ⟨h0, heq⟩ := putUint32_ok hM h
    change (bio.putUint32 M n).data = bio.data + 4 ∧
      Stored (bio.putUint32 M n).mem bio.data ((bio.putUint32 M n).order.bytes 4 n)
    rw [heq]
    exact ⟨rfl, stored_store bio.mem bio.data _⟩
  | string16 str =>
    obtain ⟨-, hdata, -, hat⟩ := putString16_ok hM (fun s hs u hu => (htyped s hs u hu).1) h
    exact ⟨hdata, hat⟩
  | string16X str =>
    obtain ⟨-, hdata, -, hat⟩ := putString16_ok hM (fun s hs u hu => (htyped s hs u hu).1) h
    exact ⟨hdata, hat⟩
  | ref handle => exact (putRef_ok hM ht h).2

/-- The fields of a message that did not overflow lie one after the other. -/
theorem laid_putAll (hM : 2 ^ 31 ≤ M) (ht : bio.Tidy) (htyped : ∀ item ∈ items, item.Typed)
    (h : (bio.putAll M items).overflow = false) : Laid (bio.putAll M items) bio.data items := by
  induction items generalizing bio with
  | nil => rfl
  | cons item items ih =>
    have hext := (Extends.refl (item.put M bio)).putAll hM items
    have hput := (Extends.refl bio).put hM item
    have hno : (item.put M bio).overflow = false := by
      by_contra hne
      have := hext.overflow (by simpa using hne)
      exact absurd (h.symm.trans this) (by decide)
    obtain ⟨hdata, hat⟩ := put_ok hM ht (htyped item (by simp)) hno
    have hrest := ih (hput.tidy ht) (fun i hi => htyped i (by simp [hi])) h
    rw [hdata] at hrest
    exact ⟨hat.extends hext hdata.ge, hrest⟩

/-! Reading -/

variable {r : Bio}

theorem get_eq (M : ℕ) (bio : Bio) (size : ℕ) : bio.get M size =
    if bio.dataAvail < roundUp M size then ({ bio with dataAvail := 0, overflow := true }, none)
    else (bio.skip (roundUp M size), some bio.data) := rfl

theorem get_ok {size : ℕ} (h : (r.get M size).1.overflow = false) :
    roundUp M size ≤ r.dataAvail ∧ r.get M size = (r.skip (roundUp M size), some r.data) := by
  rw [get_eq] at *
  split_ifs at * with hlt
  exact ⟨Nat.le_of_not_lt hlt, rfl⟩

theorem get_some (M : ℕ) (r : Bio) (size : ℕ) (h : roundUp M size ≤ r.dataAvail) :
    r.get M size = (r.skip (roundUp M size), some r.data) := by
  rw [get_eq, if_neg (by omega)]

/-- Nothing takes the overflow back. -/
theorem get_overflow (M : ℕ) (r : Bio) (size : ℕ) (h : r.overflow = true) : (r.get M size).1.overflow = true := by
  rw [get_eq]
  split_ifs
  · rfl
  · exact h

theorem getUint32_overflow (M : ℕ) (r : Bio) (h : r.overflow = true) :
    (r.getUint32 M).1.overflow = true := by
  have hg := get_overflow M r 4 h
  unfold Bio.getUint32
  generalize r.get M 4 = q at hg
  obtain ⟨r', p⟩ := q
  cases p <;> exact hg

theorem getRef_fst (M : ℕ) (r : Bio) : (r.getRef M).1 = (r.getObj M).1 := by
  unfold Bio.getRef
  generalize r.getObj M = q
  obtain ⟨r', p⟩ := q
  cases p <;> rfl

theorem skip_skip (a c : ℕ) : (r.skip a).skip c = r.skip (a + c) := by
  simp only [skip, Nat.add_assoc, Nat.sub_sub]

/-- What a reader takes, and what it finds there. -/
theorem getUint32_ok (hM : 2 ^ 31 ≤ M) (h : (r.getUint32 M).1.overflow = false) :
    4 ≤ r.dataAvail ∧ r.getUint32 M = (r.skip 4, r.order.word r.mem 4 r.data) := by
  have hround : roundUp M 4 = 4 := roundUp_eq (by omega)
  have hg : (r.get M 4).1.overflow = false := by
    unfold Bio.getUint32 at h
    generalize r.get M 4 = q at h
    obtain ⟨r', p⟩ := q
    cases p with
    | none => exact h
    | some p => exact h
  obtain ⟨hle, heq⟩ := get_ok hg
  rw [hround] at hle heq
  refine ⟨hle, ?_⟩
  rw [Bio.getUint32, heq]
  rfl

theorem getUint32_some (hM : 2 ^ 31 ≤ M) (h : 4 ≤ r.dataAvail) :
    r.getUint32 M = (r.skip 4, r.order.word r.mem 4 r.data) := by
  have hround : roundUp M 4 = 4 := roundUp_eq (by omega)
  have heq := get_some M r 4 (by omega)
  rw [Bio.getUint32, heq, hround]
  rfl

/-- The length at `data`. -/
def lenAt (r : Bio) : ℕ := r.order.word r.mem 4 r.data

theorem lenAt_lt (r : Bio) : r.lenAt < 2 ^ 32 :=
  (r.order.word_lt r.mem 4 r.data).trans_eq (by norm_num)

def stringTake (len : ℕ) : ℕ := (2 * (len + 1) + 3) / 4 * 4

theorem getString16_ok (hM : 2 ^ 34 ≤ M) (h : (r.getString16 M).1.overflow = false) :
    4 + stringTake r.lenAt ≤ r.dataAvail ∧
      r.getString16 M = (r.skip (4 + stringTake r.lenAt), r.lenAt, some (r.data + 4)) := by
  have hu : (r.getUint32 M).1.overflow = false := by
    by_contra hne
    have := get_overflow M (r.getUint32 M).1 (((r.getUint32 M).2 + 1) % M * 2 % M)
      (by simpa using hne)
    exact absurd (h.symm.trans this) (by decide)
  have hlt := r.lenAt_lt
  obtain ⟨hle, heq⟩ := getUint32_ok (by omega) hu
  have hlen : r.order.word r.mem 4 r.data = r.lenAt := rfl
  simp only [Bio.getString16, heq, hlen] at h ⊢
  obtain ⟨hle', heq'⟩ := get_ok h
  rw [roundUp_units (by omega)] at hle' heq'
  have hav : (r.skip 4).dataAvail = r.dataAvail - 4 := rfl
  rw [heq']
  refine ⟨by unfold stringTake; omega, ?_⟩
  rw [skip_skip]
  rfl

theorem getString16_some (hM : 2 ^ 31 ≤ M) (hlen : r.lenAt < 2 ^ 29) (h : 4 + stringTake r.lenAt ≤ r.dataAvail) :
    r.getString16 M = (r.skip (4 + stringTake r.lenAt), r.lenAt, some (r.data + 4)) := by
  have hword : r.order.word r.mem 4 r.data = r.lenAt := rfl
  have hround := roundUp_units (show 2 * r.lenAt + 5 < M by omega)
  have hav : (r.skip 4).dataAvail = r.dataAvail - 4 := rfl
  have hget := get_some M (r.skip 4) ((r.lenAt + 1) % M * 2 % M)
    (by rw [hround, hav]; unfold stringTake at h; omega)
  rw [Bio.getString16, getUint32_some hM (by omega)]
  simp only [hword, hget, hround, skip_skip]
  rfl

theorem getRef_ok (hM : 2 ^ 31 ≤ M) (h : (r.getRef M).1.overflow = false) :
    objectSize ≤ r.dataAvail ∧ (r.getRef M).1 = r.skip objectSize ∧
      ∃ n < r.offsAvail, r.offs n = r.data := by
  have hround : roundUp M objectSize = objectSize := roundUp_eq (lt_of_lt_of_le (by decide) hM)
  rw [getRef_fst] at h ⊢
  unfold Bio.getObj at h ⊢
  split_ifs at h ⊢ with hany
  obtain ⟨hle, heq⟩ := get_ok h
  rw [hround] at hle heq
  rw [heq]
  exact ⟨hle, rfl, by simpa using hany⟩

theorem getRef_some (hM : 2 ^ 31 ≤ M) (hle : objectSize ≤ r.dataAvail)
    (hoff : ∃ n < r.offsAvail, r.offs n = r.data) :
    r.getRef M = (r.skip objectSize,
      if r.order.word r.mem 4 r.data = ObjectType.handle.code then
        r.order.word r.mem 4 (r.data + 8) else 0) := by
  have hround : roundUp M objectSize = objectSize := roundUp_eq (lt_of_lt_of_le (by decide) hM)
  have hget := get_some M r objectSize (hround.le.trans hle)
  have hobj : r.getObj M = (r.skip objectSize, some r.data) := by
    rw [Bio.getObj, if_pos (by simpa using hoff), hget, hround]
  rw [Bio.getRef, hobj]
  rfl

/-- The units that were written are read. -/
theorem Stored.units {mem : ℕ → UInt8} {order : ByteOrder} {l : List ℕ}
    (h : Stored mem ptr (l.flatMap (order.bytes 2))) (hl : ∀ u ∈ l, u < 2 ^ 16) :
    (List.range l.length).map (fun i => word16 mem (ptr + 2 * i) order) = l := by
  induction l generalizing ptr with
  | nil => rfl
  | cons u l ih =>
    rw [List.flatMap_cons] at h
    obtain ⟨hu, hrest⟩ := stored_append.1 h
    rw [ByteOrder.length_bytes] at hrest
    have hword : word16 mem ptr order = u := by
      rw [word16, hu.order_word, Nat.mod_eq_of_lt (by have := hl u (by simp); omega)]
    have htail : (List.range l.length).map (fun i => word16 mem (ptr + 2 * (i + 1)) order) = l := by
      have := ih hrest fun v hv => hl v (by simp [hv])
      simp only [Nat.mul_add, Nat.add_assoc, Nat.add_comm, Nat.mul_one] at this ⊢
      exact this
    rw [List.length_cons, List.range_succ_eq_map, List.map_cons, List.map_map]
    exact congrArg₂ _ hword htail

end Bio

/-! A message is read back -/

section

variable {r : Bio}

theorem BioItem.get_overflow (M : ℕ) (r : Bio) (item : BioItem) (h : r.overflow = true) :
    (item.get M r).1.overflow = true := by
  have hstring : (r.getString16 M).1.overflow = true :=
    Bio.get_overflow M _ _ (Bio.getUint32_overflow M r h)
  cases item with
  | uint32 n => exact Bio.getUint32_overflow M r h
  | string16 str => exact hstring
  | string16X str => exact hstring
  | ref handle =>
    have hobj : (r.getObj M).1.overflow = true := by
      unfold Bio.getObj
      split_ifs
      · exact Bio.get_overflow M r objectSize h
      · rfl
    exact (congrArg Bio.overflow (Bio.getRef_fst M r)).trans hobj

theorem Bio.getAll_overflow (M : ℕ) (r : Bio) (items : List BioItem) (h : r.overflow = true) :
    (getAll M r items).1.overflow = true := by
  induction items generalizing r with
  | nil => exact h
  | cons item items ih => exact ih _ (item.get_overflow M r h)

/-- The reader stands at `pos` of the message. -/
def Bio.receivedAt (M : ℕ) (w : Bio) (pos : ℕ) : Bio := (w.received M).skip pos

theorem Bio.receivedAt_offsAvail (M : ℕ) (w : Bio) (pos : ℕ) :
    (w.receivedAt M pos).offsAvail = w.offsUsed := by
  have hpos : 0 < sizeofSize M := by
    unfold sizeofSize
    split_ifs <;> decide
  exact Nat.mul_div_cancel _ hpos

theorem Bio.receivedAt_data (M : ℕ) (w : Bio) (pos : ℕ) : (w.receivedAt M pos).data = pos :=
  Nat.zero_add pos

theorem Bio.receivedAt_skip (M : ℕ) (w : Bio) (pos k : ℕ) :
    (w.receivedAt M pos).skip k = w.receivedAt M (pos + k) := skip_skip pos k

/-- A plain field that lies where the reader stands is read. -/
theorem BioItem.get_at (hM : 2 ^ 31 ≤ M) (htyped : item.Typed) (hplain : item.plain = true)
    (hat : item.At w pos) (hle : pos + item.size ≤ w.data) :
    item.get M (w.receivedAt M pos) = (w.receivedAt M (pos + item.size), item.value) := by
  have hdata := w.receivedAt_data M pos
  have havail : (w.receivedAt M pos).dataAvail = w.data - pos := rfl
  have hstring : ∀ str : Option (List ℕ), (∀ s, str = some s → ∀ u ∈ s, u < 2 ^ 16) →
      (str.any fun s => s.length < Bio.maxBioSize / 2) = true → StringAt w pos str →
      pos + stringSize str ≤ w.data →
      BioItem.get M (w.receivedAt M pos) (.string16 str) =
        (w.receivedAt M (pos + stringSize str), .string16 str) := fun str hu hshort hs hle' => by
    obtain ⟨s, rfl, hlen⟩ := (Option.any_eq_true _ _).1 hshort
    have hbody : body (some s) = some s := Option.filter_some_eq_some.2 hlen
    have hlt : s.length < 2 ^ 29 := lt_of_lt_of_le (of_decide_eq_true hlen) (by decide)
    have hsize : stringSize (some s) = 4 + Bio.stringTake s.length := by rw [stringSize, hbody]; rfl
    unfold StringAt at hs
    rw [hbody] at hs
    have hl : (w.receivedAt M pos).lenAt = s.length := by
      rw [Bio.lenAt, hdata]
      exact hs.1.order_word.trans (Nat.mod_eq_of_lt (hlt.trans (by norm_num)))
    have hread := Bio.getString16_some (r := w.receivedAt M pos) hM (by rw [hl]; exact hlt)
      (by rw [hl]; omega)
    have hunits : Bio.string16 (w.receivedAt M pos) (pos + 4) s.length = s := by
      have hsub : Stored w.mem (pos + 4) (s.flatMap (w.order.bytes 2)) := by
        have := hs.2
        rw [Bio.units, List.flatMap_append] at this
        exact (stored_append.1 this).1
      exact Bio.Stored.units hsub (hu s rfl)
    rw [BioItem.get, hread, hl, hsize, Bio.receivedAt_skip, hdata]
    exact congrArg _ (congrArg (BioValue.string16 ∘ some) hunits)
  cases item with
  | uint32 n =>
    have hread := Bio.getUint32_some (r := w.receivedAt M pos) hM (by
      rw [havail]
      exact Nat.le_sub_of_add_le (by simpa [size, Nat.add_comm] using hle))
    have hword : w.order.word w.mem 4 pos = n :=
      (Stored.order_word hat).trans (Nat.mod_eq_of_lt (lt_of_lt_of_le htyped (by norm_num)))
    rw [BioItem.get, hread, hdata]
    exact congrArg₂ _ (w.receivedAt_skip M pos 4) (congrArg _ hword)
  | string16 str => exact hstring str (fun s hs u hu => (htyped s hs u hu).2) hplain hat hle
  | string16X str =>
    exact hstring str (fun s hs u hu => (htyped s hs u hu).2.trans (by norm_num)) hplain hat hle
  | ref handle =>
    obtain ⟨⟨htype, hhandle⟩, hoff⟩ := hat
    have hle : pos + objectSize ≤ w.data := hle
    have hread := Bio.getRef_some (r := w.receivedAt M pos) hM (by rw [havail]; omega) (by
      rw [Bio.receivedAt_offsAvail, hdata]
      exact hoff.1 (by simpa [plain] using hplain))
    have hcode : w.order.word w.mem 4 pos = ObjectType.handle.code := htype.order_word
    have hword : w.order.word w.mem 4 (pos + 8) = handle :=
      hhandle.order_word.trans (Nat.mod_eq_of_lt (lt_of_lt_of_le htyped (by norm_num)))
    rw [BioItem.get, hread, hdata]
    have hcond : (w.receivedAt M pos).order.word (w.receivedAt M pos).mem 4 pos =
      ObjectType.handle.code := hcode
    rw [if_pos hcond]
    exact congrArg₂ _ (w.receivedAt_skip M pos objectSize) (congrArg _ hword)

theorem Bio.getAll_laid (hM : 2 ^ 31 ≤ M) (htyped : ∀ item ∈ items, item.Typed)
    (hplain : ∀ item ∈ items, item.plain = true) (hlaid : Laid w pos items) :
    getAll M (w.receivedAt M pos) items =
      (w.receivedAt M (pos + totalSize items), items.map BioItem.value) := by
  induction items generalizing pos with
  | nil => rfl
  | cons item items ih =>
    have hdata := hlaid.data
    have hsum : totalSize (item :: items) = item.size + totalSize items := by
      rw [totalSize, totalSize, List.map_cons, List.sum_cons]
    have hget := BioItem.get_at hM (htyped item (by simp)) (hplain item (by simp)) hlaid.1 (by omega)
    have hrest := ih (fun i hi => htyped i (by simp [hi])) (fun i hi => hplain i (by simp [hi]))
      hlaid.2
    rw [getAll, hget]
    dsimp only
    rw [hrest, hsum, Nat.add_assoc]
    rfl

/-- A field that reads as it was written takes at least the bytes that were written, and more
unless it is plain or an object. -/
theorem BioItem.get_ok (hM : 2 ^ 34 ≤ M) (h : (item.get M r).1.overflow = false)
    (hv : (item.get M r).2 = item.value) :
    ∃ k, k ≤ r.dataAvail ∧ (item.get M r).1 = r.skip k ∧ item.size ≤ k ∧
      (k = item.size → item.plain = true ∨
        ((∃ handle, item = .ref handle) ∧ ∃ n < r.offsAvail, r.offs n = r.data)) := by
  have hstring : ∀ str : Option (List ℕ), (r.getString16 M).1.overflow = false →
      (BioItem.get M r (.string16 str)).2 = .string16 str →
      ∃ k, k ≤ r.dataAvail ∧ (r.getString16 M).1 = r.skip k ∧ stringSize str ≤ k ∧
        (k = stringSize str → (str.any fun s => s.length < Bio.maxBioSize / 2) = true) :=
    fun str ho hval => by
      obtain ⟨hle, heq⟩ := Bio.getString16_ok hM ho
      rw [BioItem.get, heq] at hval
      obtain ⟨s, rfl⟩ : ∃ s, str = some s := by
        cases str with
        | none => cases hval
        | some s => exact ⟨s, rfl⟩
      have hs : Bio.string16 (r.skip (4 + Bio.stringTake r.lenAt)) (r.data + 4) r.lenAt = s := by
        simpa using hval
      have hlen : s.length = r.lenAt := by rw [← hs, Bio.string16]; simp
      refine ⟨_, hle, by rw [heq], ?_, ?_⟩
      · unfold stringSize
        cases hb : body (some s) with
        | none => exact Nat.le_add_right ..
        | some t =>
          obtain rfl : s = t := (Option.filter_eq_some_iff.1 hb).1 |> Option.some_inj.1
          rw [← hlen]
          exact le_rfl
      · intro hk
        by_contra hlong
        have hb : body (some s) = none := by
          simpa [body] using hlong
        have h4 : stringSize (some s) = 4 := by rw [stringSize, hb]; rfl
        rw [h4] at hk
        unfold Bio.stringTake at hk
        omega
  cases item with
  | uint32 n =>
    obtain ⟨hle, heq⟩ := Bio.getUint32_ok (by omega) h
    exact ⟨4, hle, congrArg Prod.fst heq, le_rfl, fun _ => .inl rfl⟩
  | string16 str =>
    obtain ⟨k, hle, heq, hk, hplain⟩ := hstring str h hv
    exact ⟨k, hle, heq, hk, fun hs => .inl (hplain hs)⟩
  | string16X str =>
    obtain ⟨k, hle, heq, hk, hplain⟩ := hstring str h hv
    exact ⟨k, hle, heq, hk, fun hs => .inl (hplain hs)⟩
  | ref handle =>
    obtain ⟨hle, heq, hoff⟩ := Bio.getRef_ok (by omega) h
    exact ⟨objectSize, hle, heq, le_rfl, fun _ => .inr ⟨⟨handle, rfl⟩, hoff⟩⟩

theorem Bio.getAll_cons {item : BioItem}
    (h : (getAll M r (item :: items)).1.overflow = false)
    (hv : (getAll M r (item :: items)).2 = (item :: items).map BioItem.value) :
    (item.get M r).1.overflow = false ∧ (item.get M r).2 = item.value ∧
      (getAll M (item.get M r).1 items).1.overflow = false ∧
      (getAll M (item.get M r).1 items).2 = items.map BioItem.value := by
  refine ⟨?_, (List.cons.inj hv).1, h, (List.cons.inj hv).2⟩
  by_contra hne
  exact absurd (h.symm.trans (getAll_overflow M (item.get M r).1 items (by simpa using hne))) (by decide)

/-- Fields that read as they were written have at least the bytes that were written. -/
theorem Bio.getAll_takes (hM : 2 ^ 34 ≤ M) (h : (getAll M r items).1.overflow = false)
    (hv : (getAll M r items).2 = items.map BioItem.value) : totalSize items ≤ r.dataAvail := by
  induction items generalizing r with
  | nil => exact Nat.zero_le _
  | cons item items ih =>
    obtain ⟨ho, hval, hrest, hvals⟩ := getAll_cons h hv
    obtain ⟨k, hle, heq, hk, -⟩ := BioItem.get_ok hM ho hval
    have := ih hrest hvals
    rw [heq] at this
    have hav : (r.skip k).dataAvail = r.dataAvail - k := rfl
    rw [totalSize, List.map_cons, List.sum_cons]
    unfold totalSize at this
    omega

theorem Bio.plain_of_getAll (hM : 2 ^ 34 ≤ M) (hlaid : Laid w pos items)
    (h : (getAll M (w.receivedAt M pos) items).1.overflow = false)
    (hv : (getAll M (w.receivedAt M pos) items).2 = items.map BioItem.value) :
    ∀ item ∈ items, item.plain = true := by
  induction items generalizing pos with
  | nil => simp
  | cons item items ih =>
    obtain ⟨ho, hval, hrest, hvals⟩ := getAll_cons h hv
    obtain ⟨k, hle, heq, hk, hplain⟩ := BioItem.get_ok hM ho hval
    -- all that is left was written, so no field can take more than its own bytes
    have htake := getAll_takes hM hrest hvals
    rw [heq, receivedAt_skip] at htake
    have hav : ∀ p, (w.receivedAt M p).dataAvail = w.data - p := fun _ => rfl
    have hdata := hlaid.data
    have hsum : totalSize (item :: items) = item.size + totalSize items := by
      rw [totalSize, totalSize, List.map_cons, List.sum_cons]
    rw [hav] at htake hle
    obtain rfl : k = item.size := by omega
    rw [heq, receivedAt_skip] at hrest hvals
    refine List.forall_mem_cons.2 ⟨?_, ih hlaid.2 hrest hvals⟩
    rcases hplain rfl with hp | ⟨⟨handle, rfl⟩, hoff⟩
    · exact hp
    · rw [receivedAt_offsAvail, receivedAt_data] at hoff
      simpa [BioItem.plain] using hlaid.1.2.2 hoff

end

end

/-- The fields are read as they were written, without an overflow. -/
def ReadsBack (M : ℕ) (w : Bio) (items : List BioItem) : Prop :=
  (Bio.getAll M (w.received M) items).2 = items.map BioItem.value ∧
    (Bio.getAll M (w.received M) items).1.overflow = false

instance (M : ℕ) (w : Bio) (items : List BioItem) : Decidable (ReadsBack M w items) :=
  inferInstanceAs (Decidable (_ ∧ _))

/-- A message that did not overflow is read back exactly when all its fields are plain. -/
theorem message_round_trip (order : ByteOrder) (stack : ℕ → UInt8) (maxdata maxoffs : ℕ)
    (items : List BioItem) (htyped : ∀ item ∈ items, item.Typed) (_hoffs : maxoffs * 8 < 2 ^ 64)
    (h : ((Bio.init (2 ^ 64) stack maxdata maxoffs order).putAll (2 ^ 64) items).overflow = false) :
    ReadsBack (2 ^ 64) ((Bio.init (2 ^ 64) stack maxdata maxoffs order).putAll (2 ^ 64) items) items ↔
      ∀ item ∈ items, item.plain = true := by
  have hM : 2 ^ 31 ≤ 2 ^ 64 := by norm_num
  set bio := Bio.init (2 ^ 64) stack maxdata maxoffs order with hbio
  have hstart : bio.data = 0 ∧ bio.offsUsed = 0 := by
    rw [hbio, Bio.init]
    split_ifs <;> exact ⟨rfl, rfl⟩
  have ht : bio.Tidy := fun n hn => absurd hn (by omega)
  have hlaid := Bio.laid_putAll hM ht htyped h
  rw [hstart.1] at hlaid
  constructor
  · rintro ⟨hv, ho⟩
    exact Bio.plain_of_getAll (by norm_num) hlaid ho hv
  · intro hplain
    have hget := Bio.getAll_laid hM htyped hplain hlaid
    exact ⟨congrArg Prod.snd hget, congrArg (Bio.overflow ∘ Prod.fst) hget⟩

/-- A message on a machine that stores the high byte first. -/
def sampleMessage : List BioItem :=
  [.uint32 0, .string16 (some [97, 110, 100]), .string16X (some [97]), .ref 5, .uint32 1]

theorem message_round_trip_sample :
    ReadsBack (2 ^ 64) ((Bio.init (2 ^ 64) (fun _ => 0) 512 4 .big).putAll (2 ^ 64) sampleMessage)
      sampleMessage :=
  (message_round_trip .big (fun _ => 0) 512 4 sampleMessage
    (by simp [sampleMessage, BioItem.Typed]) (by norm_num) (by decide +kernel)).2 (by decide)

/-- A null string and a handle 0 are written without an overflow, but are not read back. -/
theorem null_string_not_read :
    (((Bio.init (2 ^ 64) (fun _ => 0) 256 4).putAll (2 ^ 64)
        [.string16 none, .uint32 7]).overflow = false ∧
      ¬ReadsBack (2 ^ 64) ((Bio.init (2 ^ 64) (fun _ => 0) 256 4).putAll (2 ^ 64)
        [.string16 none, .uint32 7]) [.string16 none, .uint32 7]) ∧
    ((Bio.init (2 ^ 64) (fun _ => 0) 256 4).putAll (2 ^ 64) [.ref 0]).overflow = false ∧
      ¬ReadsBack (2 ^ 64) ((Bio.init (2 ^ 64) (fun _ => 0) 256 4).putAll (2 ^ 64) [.ref 0])
        [.ref 0] := by
  decide +kernel

end Binder

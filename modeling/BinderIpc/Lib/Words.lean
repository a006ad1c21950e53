import Mathlib.Data.Nat.Notation
import Mathlib.Tactic.NormNum

/-! Words in memory, low byte first. -/

namespace Binder

/-- The `n` low bytes of `v`. -/
def leBytes : ℕ → ℕ → List UInt8
  | 0, _ => []
  | n + 1, v => UInt8.ofNat v :: leBytes n (v / 256)

def leValue : List UInt8 → ℕ
  | [] => 0
  | b :: l => b.toNat + 256 * leValue l

@[simp] theorem length_leBytes (n v : ℕ) : (leBytes n v).length = n := by
  induction n generalizing v with
  | zero => rfl
  | succ n ih => simp [leBytes, ih]

theorem leValue_leBytes (n v : ℕ) : leValue (leBytes n v) = v % 256 ^ n := by
  induction n generalizing v with
  | zero => simp [leBytes, leValue, Nat.mod_one]
  | succ n ih =>
    have hb : (UInt8.ofNat v).toNat = v % 256 := by simp
    rw [leBytes, leValue, ih, hb, Nat.pow_succ', Nat.mod_mul]

theorem leValue_lt (l : List UInt8) : leValue l < 256 ^ l.length := by
  induction l with
  | nil => simp [leValue]
  | cons b l ih =>
    have hb : b.toNat < 256 := b.toNat_lt
    rw [leValue, List.length_cons, Nat.pow_succ']
    omega

theorem leBytes_leValue (l : List UInt8) : leBytes l.length (leValue l) = l := by
  induction l with
  | nil => rfl
  | cons b l ih =>
    have hb : b.toNat < 256 := b.toNat_lt
    have hdiv : (b.toNat + 256 * leValue l) / 256 = leValue l := by omega
    have hlow : UInt8.ofNat (b.toNat + 256 * leValue l) = b := by
      apply UInt8.toNat_inj.1
      rw [UInt8.toNat_ofNat']
      omega
    rw [leValue, List.length_cons, leBytes, hdiv, ih, hlow]

/-- The bytes `bs` lie in memory from `ptr` on. -/
def Stored (mem : ℕ → UInt8) (ptr : ℕ) (bs : List UInt8) : Prop :=
  ∀ i (h : i < bs.length), mem (ptr + i) = bs[i]

/-- The word of `n` bytes at `ptr`. -/
def word (mem : ℕ → UInt8) (n ptr : ℕ) : ℕ := leValue ((List.range n).map fun i => mem (ptr + i))

section

variable {mem : ℕ → UInt8} {ptr : ℕ} {a b : List UInt8}

theorem stored_append :
    Stored mem ptr (a ++ b) ↔ Stored mem ptr a ∧ Stored mem (ptr + a.length) b := by
  constructor
  · intro h
    refine ⟨fun i hi => ?_, fun i hi => ?_⟩
    · rw [h i (by simp; omega), List.getElem_append_left hi]
    · rw [Nat.add_assoc, h (a.length + i) (by simp; omega), List.getElem_append_right (by omega)]
      simp
  · rintro ⟨ha, hb⟩ i hi
    by_cases hlt : i < a.length
    · rw [List.getElem_append_left hlt, ha i hlt]
    · rw [List.length_append] at hi
      rw [List.getElem_append_right (by omega), ← hb (i - a.length) (by omega)]
      congr 1
      omega

theorem Stored.range (h : Stored mem ptr a) :
    (List.range a.length).map (fun i => mem (ptr + i)) = a := by
  apply List.ext_getElem (by simp)
  intro i h1 h2
  simpa using h i h2

theorem Stored.word_eq {n v : ℕ} (h : Stored mem ptr (leBytes n v)) :
    word mem n ptr = v % 256 ^ n := by
  have hr := h.range
  rw [length_leBytes] at hr
  rw [Binder.word, hr, leValue_leBytes]

/-- The bytes of a word are where it was read. -/
theorem stored_word (mem : ℕ → UInt8) (n ptr : ℕ) : Stored mem ptr (leBytes n (word mem n ptr)) := by
  have hb := leBytes_leValue ((List.range n).map fun i => mem (ptr + i))
  rw [List.length_map, List.length_range] at hb
  rw [Binder.word, hb]
  intro i hi
  simp

/-- Memory that begins with `bs`. -/
def overlay (bs : List UInt8) (rest : ℕ → UInt8) (i : ℕ) : UInt8 := bs.getD i (rest i)

theorem stored_overlay (pre bs post : List UInt8) (rest : ℕ → UInt8) :
    Stored (overlay (pre ++ (bs ++ post)) rest) pre.length bs := by
  intro i hi
  have hlt : pre.length + i < (pre ++ (bs ++ post)).length := by simp; omega
  rw [overlay, List.getD_eq_getElem?_getD, List.getElem?_eq_getElem hlt, Option.getD_some,
    List.getElem_append_right (by omega)]
  simp [List.getElem_append_left hi]

end

/-! Both byte orders -/

inductive ByteOrder
  | little | big
  deriving Repr, DecidableEq

namespace ByteOrder

/-- From the low byte first to the order of memory. -/
def arrange {α : Type*} : ByteOrder → List α → List α
  | little, l => l
  | big, l => l.reverse

def bytes (o : ByteOrder) (n v : ℕ) : List UInt8 := o.arrange (leBytes n v)

def word (o : ByteOrder) (mem : ℕ → UInt8) (n ptr : ℕ) : ℕ :=
  leValue (o.arrange ((List.range n).map fun i => mem (ptr + i)))

@[simp] theorem length_arrange {α : Type*} (o : ByteOrder) (l : List α) :
    (o.arrange l).length = l.length := by
  cases o <;> simp [arrange]

@[simp] theorem arrange_arrange {α : Type*} (o : ByteOrder) (l : List α) :
    o.arrange (o.arrange l) = l := by
  cases o <;> simp [arrange]

@[simp] theorem length_bytes (o : ByteOrder) (n v : ℕ) : (o.bytes n v).length = n := by
  simp [bytes]

theorem word_lt (o : ByteOrder) (mem : ℕ → UInt8) (n ptr : ℕ) : o.word mem n ptr < 256 ^ n := by
  simpa [word] using leValue_lt (o.arrange ((List.range n).map fun i => mem (ptr + i)))

end ByteOrder

theorem Stored.order_word {o : ByteOrder} {mem : ℕ → UInt8} {ptr n v : ℕ}
    (h : Stored mem ptr (o.bytes n v)) : o.word mem n ptr = v % 256 ^ n := by
  have hr := h.range
  rw [ByteOrder.length_bytes] at hr
  rw [ByteOrder.word, hr, ByteOrder.bytes, ByteOrder.arrange_arrange, leValue_leBytes]

/-! Writing -/

/-- `memcpy` to `ptr` -/
def store (mem : ℕ → UInt8) (ptr : ℕ) (bs : List UInt8) (i : ℕ) : UInt8 :=
  if ptr ≤ i then bs.getD (i - ptr) (mem i) else mem i

theorem stored_store (mem : ℕ → UInt8) (ptr : ℕ) (bs : List UInt8) :
    Stored (store mem ptr bs) ptr bs := by
  intro i hi
  simp [store, hi]

theorem store_below {mem : ℕ → UInt8} {ptr i : ℕ} {bs : List UInt8} (h : i < ptr) :
    store mem ptr bs i = mem i := if_neg (by omega)

/-- Memory that agrees on the bytes holds them too. -/
theorem Stored.frame {mem mem' : ℕ → UInt8} {ptr : ℕ} {bs : List UInt8} (h : Stored mem ptr bs)
    (heq : ∀ i, ptr ≤ i → i < ptr + bs.length → mem' i = mem i) : Stored mem' ptr bs :=
  fun i hi => (heq _ (by omega) (by omega)).trans (h i hi)

/-! Words of 32 and of 64 bits -/

def le32 (v : BitVec 32) : List UInt8 := leBytes 4 v.toNat

def le64 (v : BitVec 64) : List UInt8 := leBytes 8 v.toNat

@[simp] theorem length_le32 (v : BitVec 32) : (le32 v).length = 4 := length_leBytes ..

@[simp] theorem length_le64 (v : BitVec 64) : (le64 v).length = 8 := length_leBytes ..

def word32 (mem : ℕ → UInt8) (ptr : ℕ) : BitVec 32 := BitVec.ofNat 32 (word mem 4 ptr)

def word64 (mem : ℕ → UInt8) (ptr : ℕ) : BitVec 64 := BitVec.ofNat 64 (word mem 8 ptr)

theorem Stored.word32_eq {mem : ℕ → UInt8} {ptr : ℕ} {v : BitVec 32} (h : Stored mem ptr (le32 v)) :
    word32 mem ptr = v := by
  have hpow : 256 ^ 4 = 2 ^ 32 := by norm_num
  have hw : word mem 4 ptr = v.toNat := by
    rw [Stored.word_eq h, hpow, Nat.mod_eq_of_lt v.isLt]
  rw [Binder.word32, hw, BitVec.ofNat_toNat, BitVec.setWidth_eq]

theorem Stored.word64_eq {mem : ℕ → UInt8} {ptr : ℕ} {v : BitVec 64} (h : Stored mem ptr (le64 v)) :
    word64 mem ptr = v := by
  have hpow : 256 ^ 8 = 2 ^ 64 := by norm_num
  have hw : word mem 8 ptr = v.toNat := by
    rw [Stored.word_eq h, hpow, Nat.mod_eq_of_lt v.isLt]
  rw [Binder.word64, hw, BitVec.ofNat_toNat, BitVec.setWidth_eq]

theorem stored_word32 {mem : ℕ → UInt8} {ptr : ℕ} : Stored mem ptr (le32 (word32 mem ptr)) := by
  have hlt : word mem 4 ptr < 2 ^ 32 := by
    simpa [word] using leValue_lt ((List.range 4).map fun i => mem (ptr + i))
  rw [le32, word32, BitVec.toNat_ofNat, Nat.mod_eq_of_lt hlt]
  exact stored_word mem 4 ptr

theorem stored_word64 {mem : ℕ → UInt8} {ptr : ℕ} : Stored mem ptr (le64 (word64 mem ptr)) := by
  have hlt : word mem 8 ptr < 2 ^ 64 := by
    simpa [word] using leValue_lt ((List.range 8).map fun i => mem (ptr + i))
  rw [le64, word64, BitVec.toNat_ofNat, Nat.mod_eq_of_lt hlt]
  exact stored_word mem 8 ptr

end Binder

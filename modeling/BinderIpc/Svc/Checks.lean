import BinderIpc.Svc.Manager

/-! The names that the policy is asked about against the names that services are
kept under: which of them it can tell apart. -/

namespace Binder

/-- Unit `i` of a name as `str8` narrows it; behind the name there is a NUL. -/
def lowByte (x : List ℕ) (i : ℕ) : ℕ := x.getD i 0 % 256

/-- The low bytes differ somewhere, and before that place none of them is a NUL. -/
def LowBytesDiffer (x y : List ℕ) : Prop :=
  ∃ i, (∀ j < i, lowByte x j ≠ 0 ∧ lowByte y j ≠ 0) ∧ lowByte x i ≠ lowByte y i

/-- The lengths that `do_add_service` accepts. -/
def NameLength (x : List ℕ) : Prop := x.length ≠ 0 ∧ x.length ≤ 127

/-- Every policy answers alike for both names. -/
def SameVerdicts (x y : List ℕ) : Prop := ∀ (env : MacEnv) (spid uid : ℕ),
  svcCanRegister env x spid uid = svcCanRegister env y spid uid ∧
    svcCanFind env x spid uid = svcCanFind env y spid uid

section

variable {a b : ℕ} {x y : List ℕ}

/-- Of a name that is not cut at 127 units the string has the low bytes up to the first NUL. -/
theorem str8_eq (hx : x.length ≤ 127) : str8 x = (x.map (· % 256)).takeWhile (· ≠ 0) := by
  rw [str8, List.take_of_length_le hx]
  clear hx
  induction x with
  | nil => rfl
  | cons a x ih =>
    by_cases h : a % 256 = 0
    · by_cases ha : a = 0 <;> simp [ha, h]
    · have ha : a ≠ 0 := fun h0 => h (by rw [h0])
      simpa [ha, h] using ih

theorem lowBytesDiffer_comm : LowBytesDiffer x y ↔ LowBytesDiffer y x :=
  exists_congr fun _ => and_congr (forall₂_congr fun _ _ => and_comm) ne_comm

theorem lowBytesDiffer_nil : LowBytesDiffer [] (b :: y) ↔ b % 256 ≠ 0 := by
  constructor
  · rintro ⟨i, hbefore, hne⟩
    cases i with
    | zero => exact fun h => hne (by simp [lowByte, h])
    | succ i => exact absurd rfl (hbefore 0 (Nat.succ_pos i)).1
  · exact fun h => ⟨0, fun _ hj => absurd hj (Nat.not_lt_zero _), fun he => h (by simpa [lowByte] using he.symm)⟩

theorem lowBytesDiffer_cons : LowBytesDiffer (a :: x) (b :: y) ↔
    a % 256 ≠ b % 256 ∨ (a % 256 ≠ 0 ∧ LowBytesDiffer x y) := by
  constructor
  · rintro ⟨i, hbefore, hne⟩
    cases i with
    | zero => exact .inl hne
    | succ i =>
      refine .inr ⟨(hbefore 0 (Nat.succ_pos i)).1, i, fun j hj => ?_, hne⟩
      exact hbefore (j + 1) (Nat.succ_lt_succ hj)
  · intro h
    by_cases hab : a % 256 = b % 256
    · obtain ⟨ha, i, hbefore, hne⟩ := h.resolve_left (absurd hab)
      refine ⟨i + 1, fun j hj => ?_, hne⟩
      cases j with
      | zero => exact ⟨ha, fun hb => ha (hab.trans hb)⟩
      | succ j => exact hbefore j (Nat.lt_of_succ_lt_succ hj)
    · exact ⟨0, fun _ hj => absurd hj (Nat.not_lt_zero _), hab⟩

theorem takeWhile_lowBytes : (x.map (· % 256)).takeWhile (· ≠ 0) ≠ (y.map (· % 256)).takeWhile (· ≠ 0) ↔
    LowBytesDiffer x y := by
  induction x generalizing y with
  | nil =>
    cases y with
    | nil => exact iff_of_false (· rfl) fun ⟨_, _, hne⟩ => hne rfl
    | cons b y =>
      rw [lowBytesDiffer_nil]
      by_cases h : b % 256 = 0 <;> simp [h]
  | cons a x ih =>
    cases y with
    | nil =>
      rw [lowBytesDiffer_comm, lowBytesDiffer_nil]
      by_cases h : a % 256 = 0 <;> simp [h]
    | cons b y =>
      rw [lowBytesDiffer_cons, ← ih]
      by_cases ha : a % 256 = 0
      · by_cases hb : b % 256 = 0
        · simp [ha, hb]
        · simp [ha, hb, Ne.symm hb]
      · by_cases hb : b % 256 = 0
        · simp [ha, hb]
        · simp only [List.map_cons, ne_eq, ha, hb, not_false_eq_true, decide_true,
            List.takeWhile_cons_of_pos, List.cons.injEq, true_and]
          tauto

end

/-- What the policy is asked for two names differs exactly when the names differ in a low byte
before the first NUL; where it does not, each has whatever permission the other has. -/
theorem checked_names_differ (x y : List ℕ) (hx : NameLength x) (hy : NameLength y) :
    ((x ≠ y → str8 x ≠ str8 y) ↔ (x = y ∨ LowBytesDiffer x y)) ∧
      (¬LowBytesDiffer x y → SameVerdicts x y) := by
  have hdiffer : str8 x ≠ str8 y ↔ LowBytesDiffer x y := by
    rw [str8_eq hx.2, str8_eq hy.2]
    exact takeWhile_lowBytes
  refine ⟨?_, fun h env spid uid => ?_⟩
  · rw [hdiffer]
    tauto
  · have hsame : str8 x = str8 y := not_not.1 (mt hdiffer.1 h)
    exact ⟨by simp only [svcCanRegister, hsame], by simp only [svcCanFind, hsame]⟩

/-- `A`, and the unit 0x141. -/
theorem checked_names_differ_narrowed :
    ((([0x41] : List ℕ) ≠ [0x141] → str8 [0x41] ≠ str8 [0x141]) ↔
        (([0x41] : List ℕ) = [0x141] ∨ LowBytesDiffer [0x41] [0x141])) ∧
      (¬LowBytesDiffer [0x41] [0x141] → SameVerdicts [0x41] [0x141]) :=
  checked_names_differ [0x41] [0x141] ⟨by decide, by decide⟩ ⟨by decide, by decide⟩

theorem checked_name_shared : ¬∀ x y : List ℕ, NameLength x → NameLength y → x ≠ y →
    str8 x ≠ str8 y := fun h =>
  h [0x41] [0x141] ⟨by decide, by decide⟩ ⟨by decide, by decide⟩ (by decide) (by decide)

end Binder

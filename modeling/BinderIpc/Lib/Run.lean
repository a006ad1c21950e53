import Mathlib.Data.List.Basic

/-! Runs of a machine that is driven from outside. Every step may be guarded by
a condition on the state before it, so that a result about the runs that
respect a condition and one about all runs have the same form. -/

namespace Binder

structure Machine (σ α : Type*) where
  start : σ → Prop
  step : σ → α → σ

namespace Machine

variable {σ α : Type*} {M : Machine σ α} {ok ok' : σ → α → Prop}

/-- The states that are reached when every step satisfies `ok` where it is taken. -/
inductive Reach (M : Machine σ α) (ok : σ → α → Prop) : σ → Prop
  | start {s : σ} (h : M.start s) : Reach M ok s
  | step {s : σ} (h : Reach M ok s) (a : α) (ha : ok s a) : Reach M ok (M.step s a)

theorem Reach.mono {s : σ} (h : M.Reach ok s) (himp : ∀ s a, ok s a → ok' s a) : M.Reach ok' s := by
  induction h with
  | start h => exact .start h
  | step _ a ha ih => exact .step ih a (himp _ a ha)

/-- What holds at the start and across every admitted step holds in every reached state. -/
theorem Reach.invariant {I : σ → Prop} (hstart : ∀ s, M.start s → I s)
    (hstep : ∀ s a, I s → ok s a → I (M.step s a)) {s : σ} (h : M.Reach ok s) : I s := by
  induction h with
  | start h => exact hstart _ h
  | step _ a ha ih => exact hstep _ a ih ha

/-- A second invariant may use a first one. -/
theorem Reach.invariant_of {I J : σ → Prop} (hI : ∀ s, M.Reach ok s → I s)
    (hstart : ∀ s, M.start s → J s)
    (hstep : ∀ s a, I s → I (M.step s a) → J s → ok s a → J (M.step s a)) {s : σ}
    (h : M.Reach ok s) : J s := by
  induction h with
  | start h => exact hstart _ h
  | step h a ha ih => exact hstep _ a (hI _ h) (hI _ (h.step a ha)) ih ha

def exec (M : Machine σ α) (s : σ) (as : List α) : σ := as.foldl M.step s

/-- Every action of the list satisfies `ok` where it is taken. -/
def Admits (M : Machine σ α) (ok : σ → α → Prop) : σ → List α → Prop
  | _, [] => True
  | s, a :: as => ok s a ∧ M.Admits ok (M.step s a) as

instance (M : Machine σ α) [∀ s a, Decidable (ok s a)] :
    ∀ s as, Decidable (M.Admits ok s as)
  | _, [] => isTrue trivial
  | s, a :: as =>
    have := instDecidableAdmits M (M.step s a) as
    inferInstanceAs (Decidable (_ ∧ _))

theorem Reach.exec {s : σ} (h : M.Reach ok s) {as : List α} (ha : M.Admits ok s as) :
    M.Reach ok (M.exec s as) := by
  induction as generalizing s with
  | nil => exact h
  | cons a as ih => exact ih (h.step a ha.1) ha.2

/-- Two conditions that agree wherever a third one holds. -/
theorem Admits.congr {ok₁ ok₂ : σ → α → Prop} (h : ∀ s a, ok s a → (ok₁ s a ↔ ok₂ s a)) {s : σ}
    {as : List α} (ha : M.Admits ok s as) : M.Admits ok₁ s as ↔ M.Admits ok₂ s as := by
  induction as generalizing s with
  | nil => exact Iff.rfl
  | cons a as ih => exact and_congr (h s a ha.1) (ih ha.2)

end Machine

end Binder

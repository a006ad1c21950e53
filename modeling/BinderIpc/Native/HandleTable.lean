import BinderIpc.Lib.Run
import Mathlib.Algebra.Order.Group.Nat
import Mathlib.Data.List.Basic
import Mathlib.Tactic.SplitIfs

/-! `mHandleToObject` of `ProcessState`. Every call has `mLock`; references are
dropped without it, and the destructor of a proxy that nothing refers to any more
takes it some time later to remove the proxy from the table. -/

namespace Binder

/-- `handle_entry`; proxies and their counts are numbered together. -/
structure HandleEntry where
  binder : Option ℕ := none
  refs : Option ℕ := none
  deriving Repr, DecidableEq

/-- A `BpBinder` with its weak count. -/
structure CountedProxy where
  handle : ℕ
  weak : ℕ
  /-- `expungeHandle` was called by its destructor -/
  expunged : Bool := false
  deriving Repr, DecidableEq

structure ProcessState where
  mHandleToObject : List HandleEntry := []
  proxies : List CountedProxy := []
  deriving Repr, DecidableEq

/-- What is answered during one call: by `insertAt`, by the context manager, and by `new`. -/
structure ProxyEnv where
  insert : Bool := true
  ping : Bool := true
  new : Bool := true
  deriving Repr, DecidableEq

namespace ProcessState

variable (s : ProcessState)

/-- The flag is false for NULL. -/
def lookupHandleLocked (handle : ℕ) (insert : Bool) : ProcessState × Bool :=
  if s.mHandleToObject.length ≤ handle then
    if insert then
      ({ s with
        mHandleToObject := s.mHandleToObject ++
          List.replicate (handle + 1 - s.mHandleToObject.length) {} }, true)
    else (s, false)
  else (s, true)

def entry (handle : ℕ) : HandleEntry := s.mHandleToObject.getD handle {}

def setEntry (handle : ℕ) (e : HandleEntry) : ProcessState :=
  { s with mHandleToObject := s.mHandleToObject.set handle e }

def weak (i : ℕ) : ℕ := (s.proxies[i]?).elim 0 (·.weak)

def modProxy (i : ℕ) (f : CountedProxy → CountedProxy) : ProcessState :=
  { s with proxies := s.proxies.modify i f }

def incWeak (i : ℕ) : ProcessState := s.modProxy i fun x => { x with weak := x.weak + 1 }

def decWeak (i : ℕ) : ProcessState := s.modProxy i fun x => { x with weak := x.weak - 1 }

/-- `new BpBinder` and its first reference, or NULL. -/
def newBpBinder (handle : ℕ) (new : Bool) : ProcessState × Option ℕ :=
  if new then
    let i := s.proxies.length
    ({ s.setEntry handle { binder := some i, refs := some i } with
      proxies := s.proxies ++ [{ handle := handle, weak := 1 }] }, some i)
  else (s.setEntry handle { s.entry handle with binder := none }, none)

/-- The proxy of the entry, when its weak count can be raised. -/
def attempt (handle : ℕ) : Option ℕ :=
  (s.entry handle).binder.filter fun _ => (s.entry handle).refs.any fun i => 0 < s.weak i

def getStrongProxyForHandle (handle : ℕ) (env : ProxyEnv) : ProcessState × Option ℕ :=
  match s.lookupHandleLocked handle env.insert with
  | (s, false) => (s, none)
  | (s, true) =>
    match s.attempt handle with
    | some b => (s.incWeak b, some b)
    | none =>
      if handle = 0 && !env.ping then (s, none) else s.newBpBinder handle env.new

def getWeakProxyForHandle (handle : ℕ) (env : ProxyEnv) : ProcessState × Option ℕ :=
  match s.lookupHandleLocked handle env.insert with
  | (s, false) => (s, none)
  | (s, true) =>
    match s.attempt handle with
    | some b => (s.incWeak b, some b)
    | none => s.newBpBinder handle env.new

def expungeHandle (handle binder : ℕ) (insert : Bool) : ProcessState :=
  match s.lookupHandleLocked handle insert with
  | (s, false) => s
  | (s, true) =>
    if (s.entry handle).binder = some binder then
      s.setEntry handle { s.entry handle with binder := none }
    else s

/-- `~BpBinder` of proxy `i` -/
def destroy (i : ℕ) (insert : Bool) : ProcessState :=
  match s.proxies[i]? with
  | some x =>
    if x.weak = 0 ∧ x.expunged = false then
      (s.expungeHandle x.handle i insert).modProxy i fun x => { x with expunged := true }
    else s
  | none => s

end ProcessState

inductive ProxyOp
  | getStrong (handle : ℕ) (env : ProxyEnv)
  | getWeak (handle : ℕ) (env : ProxyEnv)
  /-- a reference is copied, or dropped -/
  | copy (i : ℕ)
  | drop (i : ℕ)
  | destroy (i : ℕ) (insert : Bool)
  deriving Repr, DecidableEq

def proxyTableMachine : Machine ProcessState ProxyOp where
  start s := s = {}
  step s
    | .getStrong handle env => (s.getStrongProxyForHandle handle env).1
    | .getWeak handle env => (s.getWeakProxyForHandle handle env).1
    | .copy i => if 0 < s.weak i then s.incWeak i else s
    | .drop i => if 0 < s.weak i then s.decWeak i else s
    | .destroy i insert => s.destroy i insert

/-! The table -/

/-- An entry has a proxy that is not destroyed, and a proxy that is referred to has its entry. -/
structure ProxyTableInv (s : ProcessState) : Prop where
  entry : ∀ h i, (s.entry h).binder = some i → (s.entry h).refs = some i ∧
    ∃ x, s.proxies[i]? = some x ∧ x.handle = h ∧ x.expunged = false
  held : ∀ (i : ℕ) (x : CountedProxy), s.proxies[i]? = some x → 0 < x.weak →
    (s.entry x.handle).binder = some i ∧ x.handle < s.mHandleToObject.length
  expunged : ∀ (i : ℕ) (x : CountedProxy), s.proxies[i]? = some x → x.expunged = true → x.weak = 0

section

variable {s s' : ProcessState} {h i : ℕ} {x : CountedProxy}

theorem weak_eq (hx : s.proxies[i]? = some x) : s.weak i = x.weak := by
  rw [ProcessState.weak, hx]
  rfl

theorem lt_of_weak (hw : 0 < s.weak i) : ∃ x, s.proxies[i]? = some x ∧ 0 < x.weak := by
  unfold ProcessState.weak at hw
  cases hx : s.proxies[i]? with
  | none =>
    rw [hx] at hw
    exact absurd hw (lt_irrefl 0)
  | some x =>
    rw [hx] at hw
    exact ⟨x, rfl, hw⟩

/-- Only the table grows, by empty entries. -/
structure TableGrows (s s' : ProcessState) : Prop where
  proxies : s'.proxies = s.proxies
  entry : ∀ h, s'.entry h = s.entry h
  length : s.mHandleToObject.length ≤ s'.mHandleToObject.length

theorem lookupHandleLocked_grows (s : ProcessState) (h : ℕ) (insert : Bool) :
    TableGrows s (s.lookupHandleLocked h insert).1 ∧
      ((s.lookupHandleLocked h insert).2 = true →
        h < (s.lookupHandleLocked h insert).1.mHandleToObject.length) := by
  unfold ProcessState.lookupHandleLocked
  split_ifs with hlen hins
  · refine ⟨⟨rfl, fun k => ?_, by simp⟩, fun _ => by simp; omega⟩
    simp only [ProcessState.entry, List.getD_eq_getElem?_getD, List.getElem?_append,
      List.getElem?_replicate]
    split_ifs with hk hk'
    · rfl
    · rw [List.getElem?_eq_none (by omega)]
      rfl
    · rw [List.getElem?_eq_none (by omega)]
  · exact ⟨⟨rfl, fun _ => rfl, le_rfl⟩, nofun⟩
  · exact ⟨⟨rfl, fun _ => rfl, le_rfl⟩, fun _ => Nat.lt_of_not_le hlen⟩

theorem ProxyTableInv.grows (hi : ProxyTableInv s) (hg : TableGrows s s') : ProxyTableInv s' := by
  refine ⟨fun h i he => ?_, fun i x hx hw => ?_, fun i x hx => ?_⟩
  · rw [hg.entry] at he ⊢
    rw [hg.proxies]
    exact hi.entry h i he
  · rw [hg.proxies] at hx
    rw [hg.entry]
    exact ⟨(hi.held i x hx hw).1, (hi.held i x hx hw).2.trans_le hg.length⟩
  · rw [hg.proxies] at hx
    exact hi.expunged i x hx

/-- The entry's proxy is handed out exactly when it is referred to. -/
theorem ProxyTableInv.attempt_iff (hi : ProxyTableInv s) :
    s.attempt h = some i ↔ (s.entry h).binder = some i ∧ 0 < s.weak i := by
  unfold ProcessState.attempt
  rw [Option.filter_eq_some_iff]
  refine and_congr_right fun he => ?_
  rw [(hi.entry h i he).1]
  simp

/-- The weak count of a proxy changes, but does not rise from 0. -/
theorem ProxyTableInv.modWeak (hi : ProxyTableInv s) (i : ℕ) (f : ℕ → ℕ) (hpos : 0 < s.weak i) :
    ProxyTableInv (s.modProxy i fun x => { x with weak := f x.weak }) := by
  have hget : ∀ j y, (s.modProxy i fun x => { x with weak := f x.weak }).proxies[j]? = some y →
      ∃ x, s.proxies[j]? = some x ∧ y.handle = x.handle ∧ y.expunged = x.expunged ∧
        (y.weak = x.weak ∨ j = i) := fun j y hy => by
    simp only [ProcessState.modProxy, List.getElem?_modify] at hy
    obtain ⟨x, hx, rfl⟩ := Option.map_eq_some_iff.1 hy
    refine ⟨x, hx, ?_⟩
    split_ifs with hij
    · exact ⟨rfl, rfl, .inr hij.symm⟩
    · exact ⟨rfl, rfl, .inl rfl⟩
  obtain ⟨z, hz, hzpos⟩ := lt_of_weak hpos
  refine ⟨fun h j he => ?_, fun j y hy hw => ?_, fun j y hy hexp => ?_⟩
  · obtain ⟨hrefs, x, hx, hh, hexp⟩ := hi.entry h j he
    refine ⟨hrefs, if i = j then { x with weak := f x.weak } else x, ?_, ?_, ?_⟩
    · simp only [ProcessState.modProxy, List.getElem?_modify, hx]
      split_ifs <;> rfl
    · split_ifs <;> exact hh
    · split_ifs <;> exact hexp
  · obtain ⟨x, hx, hh, -, hcases⟩ := hget j y hy
    rw [hh]
    rcases hcases with hweak | rfl
    · exact hi.held j x hx (hweak ▸ hw)
    · obtain rfl : z = x := Option.some.inj (hz.symm.trans hx)
      exact hi.held j z hx hzpos
  · obtain ⟨x, hx, -, hexp', hcases⟩ := hget j y hy
    have hzero := hi.expunged j x hx (hexp' ▸ hexp)
    rcases hcases with hweak | rfl
    · rw [hweak, hzero]
    · obtain rfl : z = x := Option.some.inj (hz.symm.trans hx)
      rw [hzero] at hzpos
      exact absurd hzpos (lt_irrefl 0)

theorem entry_setEntry (s : ProcessState) (h k : ℕ) (e : HandleEntry) :
    (s.setEntry h e).entry k = if h = k ∧ h < s.mHandleToObject.length then e else s.entry k := by
  simp only [ProcessState.entry, ProcessState.setEntry, List.getD_eq_getElem?_getD,
    List.getElem?_set]
  by_cases hk : h = k
  · by_cases hlt : h < s.mHandleToObject.length
    · simp [hk, hk ▸ hlt]
    · subst hk
      simp [hlt]
  · simp [hk]

/-- The entry of a handle whose proxy nobody refers to is emptied. -/
theorem ProxyTableInv.clear (hi : ProxyTableInv s)
    (hno : ∀ i, (s.entry h).binder = some i → s.weak i = 0) :
    ProxyTableInv (s.setEntry h { s.entry h with binder := none }) := by
  have hentry : ∀ k i, ((s.setEntry h { s.entry h with binder := none }).entry k).binder = some i →
      (s.setEntry h { s.entry h with binder := none }).entry k = s.entry k := fun k i he => by
    rw [entry_setEntry] at he ⊢
    split_ifs at he ⊢
    rfl
  refine ⟨fun k i he => ?_, fun i x hx hw => ?_, hi.expunged⟩
  · have hsame := hentry k i he
    rw [hsame] at he ⊢
    exact hi.entry k i he
  · obtain ⟨he, hlt⟩ := hi.held i x hx hw
    refine ⟨?_, by simpa [ProcessState.setEntry] using hlt⟩
    rw [entry_setEntry, if_neg]
    · exact he
    · rintro ⟨rfl, -⟩
      have := hno i he
      rw [weak_eq (s := s) hx] at this
      omega

theorem ProxyTableInv.newBpBinder (hi : ProxyTableInv s) (hlt : h < s.mHandleToObject.length)
    (hno : s.attempt h = none) (new : Bool) : ProxyTableInv (s.newBpBinder h new).1 := by
  have hdead : ∀ i, (s.entry h).binder = some i → s.weak i = 0 := fun i he => by
    by_contra hw
    rw [hi.attempt_iff.2 ⟨he, Nat.pos_of_ne_zero hw⟩] at hno
    cases hno
  unfold ProcessState.newBpBinder
  cases new with
  | false => exact hi.clear hdead
  | true =>
    rw [if_pos rfl]
    dsimp only
    have hentry : ∀ (e : HandleEntry) k, (s.setEntry h e).entry k = if h = k then e else s.entry k :=
      fun e k => by
        rw [entry_setEntry]
        simp [hlt]
    have hget : ∀ i x, (s.proxies ++ [{ handle := h, weak := 1 }])[i]? = some x →
        s.proxies[i]? = some x ∨ (i = s.proxies.length ∧ x = { handle := h, weak := 1 }) := by
      intro i x hx
      rcases lt_or_ge i s.proxies.length with hlen | hlen
      · rw [List.getElem?_append_left hlen] at hx
        exact .inl hx
      · rw [List.getElem?_append_right hlen, List.getElem?_singleton] at hx
        split_ifs at hx with hz
        exact .inr ⟨by omega, (Option.some.inj hx).symm⟩
    refine ⟨fun k i he => ?_, fun i x hx hw => ?_, fun i x hx hexp => ?_⟩
    · change (ProcessState.entry (s.setEntry h _) k).binder = some i at he
      change (ProcessState.entry (s.setEntry h _) k).refs = some i ∧ _
      rw [hentry] at he ⊢
      split_ifs at he ⊢ with hk
      · cases he
        exact ⟨rfl, { handle := h, weak := 1 }, by simp, hk, rfl⟩
      · obtain ⟨hrefs, x, hx, hh, hexp⟩ := hi.entry k i he
        have hlen : i < s.proxies.length := (List.getElem?_eq_some_iff.1 hx).1
        exact ⟨hrefs, x, (List.getElem?_append_left hlen).trans hx, hh, hexp⟩
    · change (ProcessState.entry (s.setEntry h _) x.handle).binder = some i ∧
        x.handle < (s.setEntry h _).mHandleToObject.length
      rw [hentry]
      rcases hget i x hx with hold | ⟨rfl, rfl⟩
      · obtain ⟨he, hlt'⟩ := hi.held i x hold hw
        refine ⟨?_, by simpa [ProcessState.setEntry] using hlt'⟩
        rw [if_neg]
        · exact he
        · rintro rfl
          have := hdead i he
          rw [weak_eq hold] at this
          omega
      · exact ⟨by simp, by simpa [ProcessState.setEntry] using hlt⟩
    · rcases hget i x hx with hx | ⟨rfl, rfl⟩
      · exact hi.expunged i x hx hexp
      · cases hexp

/-- Proxies stay what they are for. -/
def HandlesKept (s s' : ProcessState) : Prop :=
  ∀ (i : ℕ) (x : CountedProxy), s.proxies[i]? = some x →
    ∃ x' : CountedProxy, s'.proxies[i]? = some x' ∧ x'.handle = x.handle

theorem HandlesKept.trans {s'' : ProcessState} (hk : HandlesKept s s') (hk' : HandlesKept s' s'') :
    HandlesKept s s'' := fun i x hx => by
  obtain ⟨x', hx', hh⟩ := hk i x hx
  obtain ⟨x'', hx'', hh'⟩ := hk' i x' hx'
  exact ⟨x'', hx'', hh'.trans hh⟩

theorem handlesKept_of_eq (hp : s'.proxies = s.proxies) : HandlesKept s s' := fun i x hx =>
  ⟨x, by rw [hp, hx], rfl⟩

theorem handlesKept_modProxy (s : ProcessState) (i : ℕ) {f : CountedProxy → CountedProxy}
    (hf : ∀ x, (f x).handle = x.handle) : HandlesKept s (s.modProxy i f) := fun j x hx => by
  simp only [ProcessState.modProxy, List.getElem?_modify, hx]
  split_ifs
  · exact ⟨f x, rfl, hf x⟩
  · exact ⟨x, rfl, rfl⟩

theorem handlesKept_newBpBinder (s : ProcessState) (h : ℕ) (new : Bool) :
    HandlesKept s (s.newBpBinder h new).1 := by
  unfold ProcessState.newBpBinder
  split_ifs
  · exact fun i x hx => ⟨x, (List.getElem?_append_left (List.getElem?_eq_some_iff.1 hx).1).trans hx, rfl⟩
  · exact handlesKept_of_eq rfl

/-- The two calls differ in the test of the context manager only. -/
theorem getWeakProxyForHandle_eq (s : ProcessState) (h : ℕ) (env : ProxyEnv) :
    s.getWeakProxyForHandle h env = s.getStrongProxyForHandle h { env with ping := true } := by
  unfold ProcessState.getWeakProxyForHandle ProcessState.getStrongProxyForHandle
  simp

/-- What a call does: nothing but the lookup, or the proxy of the entry, or a new one. -/
theorem getStrongProxyForHandle_cases (s : ProcessState) (h : ℕ) (env : ProxyEnv) :
    ∃ s₁, TableGrows s s₁ ∧ (s.getStrongProxyForHandle h env = (s₁, none) ∨
      (∃ i, s₁.attempt h = some i ∧ s.getStrongProxyForHandle h env = (s₁.incWeak i, some i)) ∨
      (s₁.attempt h = none ∧ h < s₁.mHandleToObject.length ∧
        s.getStrongProxyForHandle h env = s₁.newBpBinder h env.new)) := by
  obtain ⟨hg, hlt⟩ := lookupHandleLocked_grows s h env.insert
  unfold ProcessState.getStrongProxyForHandle
  generalize s.lookupHandleLocked h env.insert = r at hg hlt ⊢
  obtain ⟨s₁, found⟩ := r
  refine ⟨s₁, hg, ?_⟩
  cases found with
  | false => exact .inl rfl
  | true =>
    dsimp only at hlt ⊢
    cases ha : s₁.attempt h with
    | some i => exact .inr (.inl ⟨i, rfl, rfl⟩)
    | none =>
      dsimp only
      split_ifs
      · exact .inl rfl
      · exact .inr (.inr ⟨rfl, hlt rfl, rfl⟩)

theorem ProxyTableInv.getStrong (hi : ProxyTableInv s) (h : ℕ) (env : ProxyEnv) :
    ProxyTableInv (s.getStrongProxyForHandle h env).1 ∧
      HandlesKept s (s.getStrongProxyForHandle h env).1 := by
  obtain ⟨s₁, hg, hr | ⟨i, ha, hr⟩ | ⟨ha, hlt, hr⟩⟩ := getStrongProxyForHandle_cases s h env
  · rw [hr]
    exact ⟨hi.grows hg, handlesKept_of_eq hg.proxies⟩
  · rw [hr]
    exact ⟨(hi.grows hg).modWeak i (· + 1) ((hi.grows hg).attempt_iff.1 ha).2,
      (handlesKept_of_eq hg.proxies).trans (handlesKept_modProxy s₁ i fun _ => rfl)⟩
  · rw [hr]
    exact ⟨(hi.grows hg).newBpBinder hlt ha env.new,
      (handlesKept_of_eq hg.proxies).trans (handlesKept_newBpBinder s₁ h env.new)⟩

/-- A returned proxy was referred to or is new, and it is a proxy for the handle. -/
theorem ProxyTableInv.returned (hi : ProxyTableInv s) {env : ProxyEnv}
    (hr : (s.getStrongProxyForHandle h env).2 = some i) :
    (0 < s.weak i ∨ s.proxies[i]? = none) ∧
      ∃ x, (s.getStrongProxyForHandle h env).1.proxies[i]? = some x ∧ x.handle = h := by
  obtain ⟨s₁, hg, heq | ⟨j, ha, heq⟩ | ⟨ha, hlt, heq⟩⟩ := getStrongProxyForHandle_cases s h env
  · rw [heq] at hr
    cases hr
  · rw [heq] at hr ⊢
    cases hr
    obtain ⟨he, hw⟩ := (hi.grows hg).attempt_iff.1 ha
    obtain ⟨-, x, hx, hh, -⟩ := (hi.grows hg).entry h i he
    refine ⟨.inl ?_, ?_⟩
    · rwa [ProcessState.weak, ← hg.proxies]
    · obtain ⟨x', hx', hh'⟩ := handlesKept_modProxy s₁ i (f := fun x => { x with weak := x.weak + 1 })
        (fun _ => rfl) i x hx
      exact ⟨x', hx', hh'.trans hh⟩
  · rw [heq] at hr ⊢
    unfold ProcessState.newBpBinder at hr ⊢
    split_ifs at hr ⊢
    cases hr
    exact ⟨.inr (by rw [← hg.proxies]; simp), { handle := h, weak := 1 }, by simp, rfl⟩

/-- A proxy that is referred to is what a call for its handle returns. -/
theorem ProxyTableInv.finds (hi : ProxyTableInv s) (hx : s.proxies[i]? = some x) (hw : 0 < x.weak)
    (env : ProxyEnv) : (s.getStrongProxyForHandle x.handle env).2 = some i := by
  obtain ⟨he, hlt⟩ := hi.held i x hx hw
  have ha : s.attempt x.handle = some i := hi.attempt_iff.2 ⟨he, by rwa [weak_eq hx]⟩
  have hlookup : s.lookupHandleLocked x.handle env.insert = (s, true) := if_neg (by omega)
  simp [ProcessState.getStrongProxyForHandle, hlookup, ha]

/-- Only the entry that has this very proxy is emptied, and then none has it. -/
theorem ProxyTableInv.expungeHandle (hi : ProxyTableInv s) (hx : s.proxies[i]? = some x)
    (insert : Bool) : (s.expungeHandle x.handle i insert).proxies = s.proxies ∧
      s.mHandleToObject.length ≤ (s.expungeHandle x.handle i insert).mHandleToObject.length ∧
      (∀ k j, j ≠ i → (s.entry k).binder = some j →
        (s.expungeHandle x.handle i insert).entry k = s.entry k) ∧
      ∀ k j, ((s.expungeHandle x.handle i insert).entry k).binder = some j →
        j ≠ i ∧ (s.expungeHandle x.handle i insert).entry k = s.entry k := by
  obtain ⟨hg, -⟩ := lookupHandleLocked_grows s x.handle insert
  have hmiss : (s.lookupHandleLocked x.handle insert).2 = false →
      s.mHandleToObject.length ≤ x.handle := fun hf => by
    by_contra hlt
    rw [ProcessState.lookupHandleLocked, if_neg hlt] at hf
    cases hf
  -- only the entry of its handle can have the proxy
  have honly : ∀ k, (s.entry k).binder = some i → x.handle = k := fun k he => by
    obtain ⟨-, y, hy, hh, -⟩ := hi.entry k i he
    rw [hx] at hy
    cases hy
    exact hh
  unfold ProcessState.expungeHandle
  generalize s.lookupHandleLocked x.handle insert = r at hg hmiss ⊢
  obtain ⟨s₁, found⟩ := r
  cases found with
  | false =>
    refine ⟨hg.proxies, hg.length, fun k j _ _ => hg.entry k, fun k j he => ⟨?_, hg.entry k⟩⟩
    rintro rfl
    rw [hg.entry] at he
    have hnone : s.entry k = {} := by
      have hle := honly k he ▸ hmiss rfl
      simp [ProcessState.entry, List.getElem?_eq_none hle]
    rw [hnone] at he
    cases he
  | true =>
    dsimp only
    split_ifs with hb
    · refine ⟨hg.proxies, by simpa [ProcessState.setEntry] using hg.length, fun k j hj he => ?_,
        fun k j he => ?_⟩
      · rw [entry_setEntry, if_neg]
        · exact hg.entry k
        · rintro ⟨rfl, -⟩
          rw [hg.entry, he] at hb
          exact hj (Option.some.inj hb)
      · rw [entry_setEntry] at he ⊢
        split_ifs at he ⊢ with hk
        rw [hg.entry] at he ⊢
        refine ⟨?_, rfl⟩
        rintro rfl
        refine hk ⟨honly k he, ?_⟩
        by_contra hle
        rw [ProcessState.entry, List.getD_eq_getElem?_getD,
          List.getElem?_eq_none (Nat.le_of_not_lt hle)] at hb
        cases hb
    · refine ⟨hg.proxies, hg.length, fun k j _ _ => hg.entry k, fun k j he => ⟨?_, hg.entry k⟩⟩
      rintro rfl
      rw [hg.entry] at he
      rw [hg.entry, honly k he] at hb
      exact hb he

theorem destroy_entry (hi : ProxyTableInv s) (insert : Bool) {k j : ℕ} (hj : j ≠ i)
    (he : (s.entry k).binder = some j) : ((s.destroy i insert).entry k).binder = some j := by
  unfold ProcessState.destroy
  cases hx : s.proxies[i]? with
  | none => exact he
  | some x =>
    dsimp only
    split_ifs
    · obtain ⟨-, -, hkeep, -⟩ := hi.expungeHandle hx insert
      change ((s.expungeHandle x.handle i insert).entry k).binder = some j
      rw [hkeep k j hj he, he]
    · exact he

theorem ProxyTableInv.destroy (hi : ProxyTableInv s) (i : ℕ) (insert : Bool) :
    ProxyTableInv (s.destroy i insert) ∧ HandlesKept s (s.destroy i insert) := by
  unfold ProcessState.destroy
  cases hx : s.proxies[i]? with
  | none => exact ⟨hi, handlesKept_of_eq rfl⟩
  | some x =>
    dsimp only
    split_ifs with hc
    swap
    · exact ⟨hi, handlesKept_of_eq rfl⟩
    obtain ⟨hzero, -⟩ := hc
    obtain ⟨hproxies, hlen, hkeep, hleft⟩ := hi.expungeHandle hx insert
    have hget : ∀ j, ((s.expungeHandle x.handle i insert).modProxy i fun x =>
        { x with expunged := true }).proxies[j]? =
          if i = j then some { x with expunged := true } else s.proxies[j]? := fun j => by
      simp only [ProcessState.modProxy, List.getElem?_modify, hproxies]
      split_ifs with hij
      · rw [← hij, hx]
        rfl
      · simp
    refine ⟨⟨fun k j he => ?_, fun j y hy hw => ?_, fun j y hy hexp => ?_⟩,
      (handlesKept_of_eq hproxies).trans (handlesKept_modProxy _ i fun _ => rfl)⟩
    · change ((s.expungeHandle x.handle i insert).entry k).binder = some j at he
      change ((s.expungeHandle x.handle i insert).entry k).refs = some j ∧ _
      obtain ⟨hj, hsame⟩ := hleft k j he
      rw [hsame] at he ⊢
      rw [hget, if_neg hj.symm]
      exact hi.entry k j he
    · rw [hget] at hy
      split_ifs at hy with hij
      · cases hy
        exact absurd hw (by simp [hzero])
      · obtain ⟨he, hlt⟩ := hi.held j y hy hw
        refine ⟨?_, hlt.trans_le hlen⟩
        change ((s.expungeHandle x.handle i insert).entry y.handle).binder = some j
        rw [hkeep y.handle j (Ne.symm hij) he, he]
    · rw [hget] at hy
      split_ifs at hy with hij
      · cases hy
        exact hzero
      · exact hi.expunged j y hy hexp

theorem ProxyTableInv.step (hi : ProxyTableInv s) (op : ProxyOp) :
    ProxyTableInv (proxyTableMachine.step s op) ∧ HandlesKept s (proxyTableMachine.step s op) := by
  cases op with
  | getStrong h env => exact hi.getStrong h env
  | getWeak h env =>
    simp only [proxyTableMachine, getWeakProxyForHandle_eq]
    exact hi.getStrong h _
  | copy i =>
    simp only [proxyTableMachine]
    split_ifs with hw
    · exact ⟨hi.modWeak i (· + 1) hw, handlesKept_modProxy s i fun _ => rfl⟩
    · exact ⟨hi, handlesKept_of_eq rfl⟩
  | drop i =>
    simp only [proxyTableMachine]
    split_ifs with hw
    · exact ⟨hi.modWeak i (· - 1) hw, handlesKept_modProxy s i fun _ => rfl⟩
    · exact ⟨hi, handlesKept_of_eq rfl⟩
  | destroy i insert => exact hi.destroy i insert

theorem ProxyTableInv.exec (hi : ProxyTableInv s) (ops : List ProxyOp) :
    ProxyTableInv (proxyTableMachine.exec s ops) ∧ HandlesKept s (proxyTableMachine.exec s ops) := by
  induction ops generalizing s with
  | nil => exact ⟨hi, handlesKept_of_eq rfl⟩
  | cons op ops ih =>
    obtain ⟨hi', hk⟩ := hi.step op
    exact ⟨(ih hi').1, hk.trans (ih hi').2⟩

theorem proxyTableInv_reach {ok : ProcessState → ProxyOp → Prop}
    (h : proxyTableMachine.Reach ok s) : ProxyTableInv s := by
  refine h.invariant (fun s hs => ?_) fun s op hi _ => (hi.step op).1
  cases hs
  exact ⟨fun h i he => by simp [ProcessState.entry] at he, nofun, nofun⟩

end

/-- A call for a handle, strong or weak, leaves `s'` and returns proxy `i`. -/
def Returns (s : ProcessState) (h : ℕ) (s' : ProcessState) (i : ℕ) : Prop :=
  ∃ env, s.getStrongProxyForHandle h env = (s', some i) ∨ s.getWeakProxyForHandle h env = (s', some i)

structure OneProxy (s : ProcessState) : Prop where
  /-- what is returned was referred to, or is new -/
  referred : ∀ h s' i, Returns s h s' i → 0 < s.weak i ∨ s.proxies[i]? = none
  /-- while it is referred to it is returned again; a weak count of 0 never rises -/
  same : ∀ h s' i, Returns s h s' i → ∀ ops, 0 < (proxyTableMachine.exec s' ops).weak i → ∀ env,
    ((proxyTableMachine.exec s' ops).getStrongProxyForHandle h env).2 = some i ∧
      ((proxyTableMachine.exec s' ops).getWeakProxyForHandle h env).2 = some i
  /-- a destructor leaves the entries of the other proxies -/
  expunges : ∀ i insert h j, j ≠ i → (s.entry h).binder = some j →
    ((s.destroy i insert).entry h).binder = some j

theorem one_proxy {s : ProcessState} (h : proxyTableMachine.Reach (fun _ _ => True) s) : OneProxy s := by
  have hi := proxyTableInv_reach h
  have hstrong : ∀ h s' i, Returns s h s' i → ∃ env, s.getStrongProxyForHandle h env = (s', some i) :=
    fun h s' i ⟨env, hr⟩ => by
      rcases hr with hr | hr
      · exact ⟨env, hr⟩
      · exact ⟨_, (getWeakProxyForHandle_eq s h env).symm.trans hr⟩
  refine ⟨fun h s' i hr => ?_, fun h s' i hr ops hw env => ?_,
    fun i insert h j hj he => destroy_entry hi insert hj he⟩
  · obtain ⟨env, hr⟩ := hstrong h s' i hr
    exact (hi.returned (congrArg Prod.snd hr)).1
  · obtain ⟨env₀, hr⟩ := hstrong h s' i hr
    obtain ⟨-, x, hx, hh⟩ := hi.returned (congrArg Prod.snd hr)
    have hi' := (hi.getStrong h env₀).1
    rw [hr] at hx hi'
    obtain ⟨hi'', hkept⟩ := hi'.exec ops
    obtain ⟨x', hx', hh'⟩ := hkept i x hx
    rw [weak_eq hx'] at hw
    obtain rfl : x'.handle = h := hh'.trans hh
    exact ⟨hi''.finds hx' hw env, (getWeakProxyForHandle_eq _ _ env) ▸ hi''.finds hx' hw _⟩

/-- Proxy 0 is dropped, proxy 1 takes its place, and then proxy 0 is destroyed. -/
def replacedProxy : List ProxyOp :=
  [.getStrong 3 {}, .drop 0, .getWeak 3 {}, .destroy 0 true]

theorem one_proxy_replaced : OneProxy (proxyTableMachine.exec {} replacedProxy) :=
  one_proxy (.exec (.start rfl) (by simp [Machine.Admits, replacedProxy]))

example : ((proxyTableMachine.exec {} replacedProxy).entry 3).binder = some 1 := by decide

end Binder

import BinderIpc.Lib.Run
import Mathlib.Algebra.Order.Group.Nat
import Mathlib.Data.List.Count
import Mathlib.Tactic.SplitIfs

/-! `BpBinder`: who is told that the remote object has died. The lock is taken by
`linkToDeath`, by `unlinkToDeath` and once in the middle of `sendObituary`, which
is therefore cut into the test before the lock, the section under it, and the
calls of the recipients after it. -/

namespace Binder

inductive LinkStatus
  | noError | noMemory | deadObject | nameNotFound
  deriving Repr, DecidableEq

structure Obituary where
  recipient : ℕ
  cookie : ℕ := 0
  flags : ℕ := 0
  /-- which call of `linkToDeath` it is from -/
  link : ℕ := 0
  deriving Repr, DecidableEq

inductive DeathCommand
  | request | clear
  deriving Repr, DecidableEq

/-- The fields of a `BpBinder` about its death. -/
structure BpDeath where
  mObitsSent : Bool := false
  mObituaries : Option (List Obituary) := none
  /-- the commands for the driver, in order -/
  out : List DeathCommand := []
  deriving Repr, DecidableEq

namespace BpDeath

variable (b : BpDeath)

def write (c : DeathCommand) : BpDeath := { b with out := b.out ++ [c] }

/-- The vector, which is made when there is none; `new` may fail. -/
def vector (new : Bool) : Option (BpDeath × List Obituary) :=
  match b.mObituaries with
  | some l => some (b, l)
  | none => if new then some ({ b.write .request with mObituaries := some [] }, []) else none

def linkToDeath (ob : Obituary) (new add : Bool) : BpDeath × LinkStatus :=
  if b.mObitsSent then (b, .deadObject)
  else
    match b.vector new with
    | none => (b, .noMemory)
    | some (b, l) =>
      if add then ({ b with mObituaries := some (l ++ [ob]) }, .noError) else (b, .noMemory)

end BpDeath

/-- The test of `unlinkToDeath`; a `recipient` may be NULL. -/
def Obituary.fits (recipient : Option ℕ) (cookie flags : ℕ) (ob : Obituary) : Bool :=
  (recipient = some ob.recipient ∨ (recipient = none ∧ ob.cookie = cookie)) ∧ ob.flags = flags

namespace BpDeath

variable (b : BpDeath)

/-- With the obituary that is removed, whose recipient goes to `outRecipient`. -/
def unlinkToDeath (recipient : Option ℕ) (cookie flags : ℕ) :
    BpDeath × LinkStatus × Option Obituary :=
  if b.mObitsSent then (b, .deadObject, none)
  else
    let l := b.mObituaries.getD []
    match l.find? (·.fits recipient cookie flags) with
    | none => (b, .nameNotFound, none)
    | some ob =>
      match l.eraseP (·.fits recipient cookie flags) with
      | [] => ({ b.write .clear with mObituaries := none }, .noError, some ob)
      | l => ({ b with mObituaries := some l }, .noError, some ob)

/-- What `sendObituary` does under the lock, and whom it tells then. -/
def detach : BpDeath × List Obituary :=
  match b.mObituaries with
  | some l => ({ b.write .clear with mObituaries := none, mObitsSent := true }, l)
  | none => ({ b with mObitsSent := true }, [])

end BpDeath

/-! Any number of threads -/

/-- A call of `sendObituary` that has found `mObitsSent` not set. -/
inductive ObituarySender
  | passed
  | reporting (rest : List Obituary)
  deriving Repr, DecidableEq

def ObituarySender.rest : ObituarySender → List Obituary
  | passed => []
  | reporting rest => rest

@[simp] theorem ObituarySender.rest_passed : passed.rest = [] := rfl

@[simp] theorem ObituarySender.rest_reporting (l : List Obituary) : (reporting l).rest = l := rfl

inductive DeathEvent
  /-- the call `k` of `linkToDeath` returned `NO_ERROR` -/
  | linked (k : ℕ)
  | unlinked (k : ℕ)
  /-- `sendObituary` took the lock for the first time -/
  | sent
  /-- `binderDied` was called, or the recipient could not be promoted -/
  | died (k : ℕ) | gone (k : ℕ)
  deriving Repr, DecidableEq

structure ObituaryState where
  bp : BpDeath := {}
  senders : List ObituarySender := []
  /-- the number of calls of `linkToDeath` -/
  links : ℕ := 0
  history : List DeathEvent := []

inductive ObituaryOp
  | link (recipient cookie flags : ℕ) (new add : Bool)
  | unlink (recipient : Option ℕ) (cookie flags : ℕ)
  | sendObituary
  | lock (i : ℕ)
  | report (i : ℕ) (promotes : Bool)
  deriving Repr, DecidableEq

namespace ObituaryState

variable (s : ObituaryState)

def note (e : DeathEvent) : ObituaryState := { s with history := s.history ++ [e] }

def link (recipient cookie flags : ℕ) (new add : Bool) : ObituaryState :=
  let r := s.bp.linkToDeath
    { recipient := recipient, cookie := cookie, flags := flags, link := s.links } new add
  let s' := { s with bp := r.1, links := s.links + 1 }
  if r.2 = .noError then s'.note (.linked s.links) else s'

def unlink (recipient : Option ℕ) (cookie flags : ℕ) : ObituaryState :=
  let r := s.bp.unlinkToDeath recipient cookie flags
  let s' := { s with bp := r.1 }
  match r.2.2 with
  | some ob => s'.note (.unlinked ob.link)
  | none => s'

def sendObituary : ObituaryState :=
  if s.bp.mObitsSent then s else { s with senders := s.senders ++ [.passed] }

def lock (i : ℕ) : ObituaryState :=
  match s.senders[i]? with
  | some .passed =>
    let r := s.bp.detach
    let s' := { s with bp := r.1, senders := s.senders.set i (.reporting r.2) }
    if s.bp.mObitsSent then s' else s'.note .sent
  | _ => s

def report (i : ℕ) (promotes : Bool) : ObituaryState :=
  match s.senders[i]? with
  | some (.reporting (ob :: rest)) =>
    { s with senders := s.senders.set i (.reporting rest) }.note
      (if promotes then .died ob.link else .gone ob.link)
  | _ => s

/-- The links that are still to be told of. -/
def pending : List ℕ := s.senders.flatMap fun x => x.rest.map (·.link)

/-- The links of the vector. -/
def held : List ℕ := (s.bp.mObituaries.getD []).map (·.link)

end ObituaryState

def obituaryMachine : Machine ObituaryState ObituaryOp where
  start s := s = {}
  step s
    | .link recipient cookie flags new add => s.link recipient cookie flags new add
    | .unlink recipient cookie flags => s.unlink recipient cookie flags
    | .sendObituary => s.sendObituary
    | .lock i => s.lock i
    | .report i promotes => s.report i promotes

/-! The vector and the commands -/

/-- A death request is out just while there is a vector, and none when the obituary was sent. -/
structure BpDeath.Balanced (b : BpDeath) : Prop where
  requests : b.out.count .request = b.out.count .clear + if b.mObituaries.isSome then 1 else 0
  sent : b.mObitsSent = true → b.mObituaries = none

namespace BpDeath

variable {b : BpDeath}

/-- What `linkToDeath` leaves: the vector with one more element, or the vector as it was. -/
theorem linkToDeath_cases (b : BpDeath) (ob : Obituary) (new add : Bool) :
    (b.mObitsSent = true ∧ b.linkToDeath ob new add = (b, .deadObject)) ∨
    (b.mObitsSent = false ∧ (b.linkToDeath ob new add).2 = .noError ∧
      (b.linkToDeath ob new add).1.mObitsSent = false ∧
      (b.linkToDeath ob new add).1.mObituaries = some (b.mObituaries.getD [] ++ [ob])) ∨
    (b.mObitsSent = false ∧ (b.linkToDeath ob new add).2 = .noMemory ∧
      (b.linkToDeath ob new add).1.mObitsSent = false ∧
      (b.linkToDeath ob new add).1.mObituaries.getD [] = b.mObituaries.getD []) := by
  obtain ⟨sent, obits, out⟩ := b
  cases sent with
  | true => exact .inl ⟨rfl, rfl⟩
  | false => cases obits <;> cases new <;> cases add <;> simp [linkToDeath, vector, write]

theorem Balanced.linkToDeath (h : b.Balanced) (ob : Obituary) (new add : Bool) :
    (b.linkToDeath ob new add).1.Balanced := by
  obtain ⟨sent, obits, out⟩ := b
  cases sent with
  | true => exact h
  | false =>
    have hout := h.requests
    refine ⟨?_, ?_⟩ <;> cases obits <;> cases new <;> cases add <;>
      simp_all [BpDeath.linkToDeath, vector, write]

/-- What `unlinkToDeath` leaves: the vector without the first element that fits. -/
theorem unlinkToDeath_cases (b : BpDeath) (recipient : Option ℕ) (cookie flags : ℕ) :
    (b.mObitsSent = true ∧ b.unlinkToDeath recipient cookie flags = (b, .deadObject, none)) ∨
    (b.mObitsSent = false ∧
      (b.mObituaries.getD []).find? (·.fits recipient cookie flags) = none ∧
      b.unlinkToDeath recipient cookie flags = (b, .nameNotFound, none)) ∨
    (b.mObitsSent = false ∧ ∃ ob,
      (b.mObituaries.getD []).find? (·.fits recipient cookie flags) = some ob ∧
      (b.unlinkToDeath recipient cookie flags).2 = (.noError, some ob) ∧
      (b.unlinkToDeath recipient cookie flags).1.mObitsSent = false ∧
      (b.unlinkToDeath recipient cookie flags).1.mObituaries.getD [] =
        (b.mObituaries.getD []).eraseP (·.fits recipient cookie flags)) := by
  unfold unlinkToDeath
  cases hsent : b.mObitsSent with
  | true => exact .inl ⟨rfl, rfl⟩
  | false =>
    dsimp only
    rw [if_neg Bool.false_ne_true]
    cases hfind : (b.mObituaries.getD []).find? (·.fits recipient cookie flags) with
    | none => exact .inr (.inl ⟨rfl, rfl, rfl⟩)
    | some ob =>
      refine .inr (.inr ⟨rfl, ob, rfl, ?_⟩)
      cases (b.mObituaries.getD []).eraseP (·.fits recipient cookie flags) with
      | nil => exact ⟨rfl, hsent, rfl⟩
      | cons x l => exact ⟨rfl, rfl, rfl⟩

theorem Balanced.unlinkToDeath (h : b.Balanced) (recipient : Option ℕ) (cookie flags : ℕ) :
    (b.unlinkToDeath recipient cookie flags).1.Balanced := by
  have hout := h.requests
  unfold BpDeath.unlinkToDeath
  cases hsent : b.mObitsSent with
  | true => exact h
  | false =>
    dsimp only
    rw [if_neg Bool.false_ne_true]
    cases hfind : (b.mObituaries.getD []).find? (·.fits recipient cookie flags) with
    | none => exact h
    | some ob =>
      have hsome : b.mObituaries.isSome = true := by
        cases hob : b.mObituaries with
        | none =>
          rw [hob] at hfind
          cases hfind
        | some l => rfl
      rw [hsome, if_pos rfl] at hout
      cases (b.mObituaries.getD []).eraseP (·.fits recipient cookie flags) with
      | nil => exact ⟨by simp [write, hout], fun _ => rfl⟩
      | cons x l => exact ⟨by simp [hout], nofun⟩

theorem Balanced.detach (h : b.Balanced) : b.detach.1.Balanced := by
  have hout := h.requests
  unfold BpDeath.detach
  cases hob : b.mObituaries with
  | none =>
    rw [hob] at hout
    exact ⟨by simpa using hout, fun _ => rfl⟩
  | some l =>
    rw [hob] at hout
    exact ⟨by simpa [write] using hout, fun _ => rfl⟩

theorem detach_spec (b : BpDeath) : b.detach.1.mObitsSent = true ∧ b.detach.1.mObituaries = none ∧
    b.detach.2 = b.mObituaries.getD [] := by
  unfold detach
  cases hob : b.mObituaries with
  | none => exact ⟨rfl, rfl, rfl⟩
  | some l => exact ⟨rfl, rfl, rfl⟩

end BpDeath

/-! Every link, over runs -/

/-- The calls before the obituary, and what is reported after it. -/
def DeathEvent.isCall : DeathEvent → Bool
  | linked _ | unlinked _ => true
  | _ => false

def DeathEvent.isReport : DeathEvent → Bool
  | died _ | gone _ => true
  | _ => false

/-- How often link `k` was told of, with a call or without. -/
def reports (h : List DeathEvent) (k : ℕ) : ℕ := h.count (.died k) + h.count (.gone k)

structure ObituaryInv (s : ObituaryState) : Prop where
  bp : s.bp.Balanced
  /-- a link is in the vector, removed, about to be told of, or told of -/
  ledger : ∀ k, s.history.count (.linked k) =
    s.held.count k + s.history.count (.unlinked k) + s.pending.count k + reports s.history k
  once : ∀ k, s.history.count (.linked k) ≤ 1
  fresh : ∀ k, .linked k ∈ s.history → k < s.links
  before : s.bp.mObitsSent = false → s.pending = [] ∧ ∀ e ∈ s.history, e.isCall = true
  after : s.bp.mObitsSent = true → ∃ pre post, s.history = pre ++ .sent :: post ∧
    (∀ e ∈ pre, e.isCall = true) ∧ ∀ e ∈ post, e.isReport = true

section

variable {s : ObituaryState} {i k : ℕ}

/-- What is pending when one call goes on. -/
theorem count_flatMap_set {α : Type*} (f : α → List ℕ) {l : List α} {x : α} (y : α) (k : ℕ)
    (h : l[i]? = some x) : ((l.set i y).flatMap f).count k + (f x).count k =
      (l.flatMap f).count k + (f y).count k := by
  induction l generalizing i with
  | nil => cases h
  | cons a l ih =>
    cases i with
    | zero =>
      obtain rfl : a = x := by simpa using h
      simp only [List.set_cons_zero, List.flatMap_cons, List.count_append]
      omega
    | succ i =>
      have := ih (i := i) (by simpa using h)
      simp only [List.set_cons_succ, List.flatMap_cons, List.count_append]
      omega

theorem ObituaryInv.link (h : ObituaryInv s) (recipient cookie flags : ℕ) (new add : Bool) :
    ObituaryInv (s.link recipient cookie flags new add) := by
  have hbp := h.bp.linkToDeath
    { recipient := recipient, cookie := cookie, flags := flags, link := s.links } new add
  have hcases := s.bp.linkToDeath_cases
    { recipient := recipient, cookie := cookie, flags := flags, link := s.links } new add
  unfold ObituaryState.link
  dsimp only
  generalize s.bp.linkToDeath _ new add = r at hbp hcases ⊢
  obtain ⟨b, status⟩ := r
  rcases hcases with ⟨-, hr⟩ | ⟨hsent, hr, hsent', hvec⟩ | ⟨hsent, hr, hsent', hvec⟩
  · cases hr
    rw [if_neg nofun]
    exact { h with fresh := fun k hk => Nat.lt_succ_of_lt (h.fresh k hk) }
  · cases hr
    dsimp only at hsent' hvec
    rw [if_pos rfl]
    obtain ⟨hpend, hcalls⟩ := h.before hsent
    have hnew : s.history.count (.linked s.links) = 0 :=
      List.count_eq_zero.2 fun hm => absurd (h.fresh _ hm) (lt_irrefl _)
    refine ⟨hbp, fun k => ?_, fun k => ?_, fun k hk => ?_, fun _ => ⟨hpend, fun e he => ?_⟩,
      fun ht => absurd ht (by simp [ObituaryState.note, hsent'])⟩
    · have hk := h.ledger k
      simp only [ObituaryState.held, ObituaryState.pending, reports] at hk
      simp only [ObituaryState.note, ObituaryState.held, ObituaryState.pending, reports, hvec,
        Option.getD_some, List.map_append, List.count_append, List.map_singleton,
        List.count_singleton]
      by_cases hl : s.links = k
      · simp [hl]
        omega
      · simp [hl, hk]
    · have hk := h.once k
      simp only [ObituaryState.note, List.count_append, List.count_singleton]
      by_cases hl : s.links = k
      · subst hl
        simp [hnew]
      · simpa [hl] using hk
    · rcases List.mem_append.1 hk with hk | hk
      · exact Nat.lt_succ_of_lt (h.fresh k hk)
      · cases List.mem_singleton.1 hk
        exact Nat.lt_succ_self _
    · rcases List.mem_append.1 he with he | he
      · exact hcalls e he
      · rw [List.mem_singleton.1 he]
        rfl
  · cases hr
    dsimp only at hsent' hvec
    rw [if_neg nofun]
    refine ⟨hbp, fun k => ?_, h.once, fun k hk => Nat.lt_succ_of_lt (h.fresh k hk),
      fun _ => h.before hsent, fun ht => absurd ht (by simp [hsent'])⟩
    have hk := h.ledger k
    simp only [ObituaryState.held] at hk ⊢
    rw [hvec]
    exact hk

theorem ObituaryInv.unlink (h : ObituaryInv s) (recipient : Option ℕ) (cookie flags : ℕ) :
    ObituaryInv (s.unlink recipient cookie flags) := by
  have hbp := h.bp.unlinkToDeath recipient cookie flags
  have hcases := s.bp.unlinkToDeath_cases recipient cookie flags
  unfold ObituaryState.unlink
  dsimp only
  generalize s.bp.unlinkToDeath recipient cookie flags = r at hbp hcases ⊢
  obtain ⟨b, status, removed⟩ := r
  rcases hcases with ⟨-, hr⟩ | ⟨-, -, hr⟩ | ⟨hsent, ob, hfind, hr, hsent', hvec⟩
  · cases hr
    exact h
  · cases hr
    exact h
  · cases hr
    dsimp only at hsent' hvec ⊢
    obtain ⟨hpend, hcalls⟩ := h.before hsent
    refine ⟨hbp, fun k => ?_, fun k => ?_, fun k hk => ?_, fun _ => ⟨hpend, fun e he => ?_⟩,
      fun ht => absurd ht (by simp [ObituaryState.note, hsent'])⟩
    · -- the first element that fits is taken out of the vector
      obtain ⟨hfits, l₁, l₂, hl, hbefore⟩ := List.find?_eq_some_iff_append.1 hfind
      have herase : (s.bp.mObituaries.getD []).eraseP (·.fits recipient cookie flags) = l₁ ++ l₂ := by
        rw [hl, List.eraseP_append_right _ (fun x hx => by simpa using hbefore x hx),
          List.eraseP_cons_of_pos hfits]
      have hk := h.ledger k
      simp only [ObituaryState.held, ObituaryState.pending, reports, hl] at hk
      simp only [ObituaryState.note, ObituaryState.held, ObituaryState.pending, reports, hvec,
        herase, List.map_append, List.count_append, List.map_cons, List.count_cons,
        List.count_nil] at hk ⊢
      by_cases hlk : ob.link = k <;> simp [hlk] at hk ⊢ <;> omega
    · simpa [ObituaryState.note, List.count_append] using h.once k
    · rcases List.mem_append.1 hk with hk | hk
      · exact h.fresh k hk
      · cases List.mem_singleton.1 hk
    · rcases List.mem_append.1 he with he | he
      · exact hcalls e he
      · rw [List.mem_singleton.1 he]
        rfl

theorem ObituaryInv.sendObituary (h : ObituaryInv s) : ObituaryInv s.sendObituary := by
  unfold ObituaryState.sendObituary
  split_ifs with hsent
  · exact h
  · have hpend : ObituaryState.pending { s with senders := s.senders ++ [.passed] } = s.pending := by
      simp [ObituaryState.pending, ObituarySender.rest]
    refine ⟨h.bp, fun k => ?_, h.once, h.fresh, fun hb => ⟨?_, (h.before hb).2⟩, h.after⟩
    · rw [hpend]
      exact h.ledger k
    · rw [hpend]
      exact (h.before hb).1

theorem ObituaryInv.lock (h : ObituaryInv s) (i : ℕ) : ObituaryInv (s.lock i) := by
  unfold ObituaryState.lock
  cases hi : s.senders[i]? with
  | none => exact h
  | some x =>
    cases x with
    | reporting rest => exact h
    | passed =>
      have hbp := h.bp.detach
      obtain ⟨hsent', hnone, htold⟩ := s.bp.detach_spec
      dsimp only
      generalize s.bp.detach = r at hbp hsent' hnone htold ⊢
      obtain ⟨b, l⟩ := r
      dsimp only at hbp hsent' hnone htold ⊢
      have hcount := count_flatMap_set (fun x => x.rest.map (·.link)) (.reporting l) (h := hi)
      have hledger : ∀ k, s.history.count (.linked k) = 0 + s.history.count (.unlinked k) +
          ((s.senders.set i (.reporting l)).flatMap fun x => x.rest.map (·.link)).count k +
          reports s.history k := fun k => by
        have h1 := hcount k
        have h2 := h.ledger k
        simp only [ObituarySender.rest_passed, ObituarySender.rest_reporting, List.map_nil,
          List.count_nil] at h1
        simp only [ObituaryState.held, ObituaryState.pending, ← htold] at h2
        omega
      cases hsent : s.bp.mObitsSent with
      | true =>
        rw [if_pos rfl]
        refine ⟨hbp, fun k => ?_, h.once, h.fresh, fun hf => absurd hf (by simp [hsent']),
          fun _ => h.after hsent⟩
        simpa [ObituaryState.held, ObituaryState.pending, hnone] using hledger k
      | false =>
        rw [if_neg Bool.false_ne_true]
        obtain ⟨-, hcalls⟩ := h.before hsent
        refine ⟨hbp, fun k => ?_, fun k => ?_, fun k hk => ?_,
          fun hf => absurd hf (by simp [ObituaryState.note, hsent']),
          fun _ => ⟨s.history, [], rfl, hcalls, by simp⟩⟩
        · have hk := hledger k
          simp only [ObituaryState.note, ObituaryState.held, ObituaryState.pending, hnone, reports,
            List.count_append] at hk ⊢
          simpa using hk
        · simpa [ObituaryState.note, List.count_append] using h.once k
        · rcases List.mem_append.1 hk with hk | hk
          · exact h.fresh k hk
          · cases List.mem_singleton.1 hk

theorem ObituaryInv.report (h : ObituaryInv s) (i : ℕ) (promotes : Bool) :
    ObituaryInv (s.report i promotes) := by
  unfold ObituaryState.report
  cases hi : s.senders[i]? with
  | none => exact h
  | some x =>
    cases x with
    | passed => exact h
    | reporting l =>
      cases l with
      | nil => exact h
      | cons ob rest =>
        dsimp only
        have hcount := count_flatMap_set (fun x => x.rest.map (·.link)) (.reporting rest) (h := hi)
        generalize he : (if promotes then DeathEvent.died ob.link else .gone ob.link) = e
        have hreport : e.isReport = true := by
          rw [← he]
          split_ifs <;> rfl
        have hlinked : ∀ k, [e].count (.linked k) = 0 := fun k => by
          rw [← he]
          split_ifs <;> simp
        have hunlinked : ∀ k, [e].count (.unlinked k) = 0 := fun k => by
          rw [← he]
          split_ifs <;> simp
        have hreports : ∀ k, reports [e] k = if ob.link = k then 1 else 0 := fun k => by
          rw [← he, reports]
          cases promotes <;> simp [List.count_singleton]
        refine ⟨h.bp, fun k => ?_, fun k => ?_, fun k hk => ?_, fun hsent => ?_, fun hsent => ?_⟩
        · have h1 := hcount k
          have h2 := h.ledger k
          have h3 := hreports k
          simp only [reports] at h2 h3
          simp only [ObituaryState.held, ObituaryState.pending] at h2
          simp only [ObituaryState.note, ObituaryState.held, ObituaryState.pending, reports,
            List.count_append, hlinked, hunlinked]
          simp only [ObituarySender.rest_reporting, List.map_cons, List.count_cons, beq_iff_eq] at h1
          omega
        · have := h.once k
          simp only [ObituaryState.note, List.count_append, hlinked]
          omega
        · rcases List.mem_append.1 hk with hk | hk
          · exact h.fresh k hk
          · exact absurd (List.count_pos_iff.2 hk) (by simp [hlinked])
        · -- nothing is pending before the obituary
          have hp := (h.before hsent).1
          rw [ObituaryState.pending, List.flatMap_eq_nil_iff] at hp
          exact absurd (hp _ (List.mem_of_getElem? hi)) (by simp [ObituarySender.rest])
        · obtain ⟨pre, post, hsplit, hpre, hpost⟩ := h.after hsent
          refine ⟨pre, post ++ [e], by simp [ObituaryState.note, hsplit], hpre, fun e' he' => ?_⟩
          rcases List.mem_append.1 he' with he' | he'
          · exact hpost e' he'
          · rw [List.mem_singleton.1 he', hreport]

theorem obituaryInv_reach {ok : ObituaryState → ObituaryOp → Prop} (h : obituaryMachine.Reach ok s) :
    ObituaryInv s := by
  refine h.invariant (fun s hs => ?_) fun s op hi _ => ?_
  · cases hs
    exact ⟨⟨rfl, nofun⟩, fun _ => rfl, fun _ => Nat.zero_le _, nofun, fun _ => ⟨rfl, nofun⟩, nofun⟩
  · cases op with
    | link recipient cookie flags new add => exact hi.link recipient cookie flags new add
    | unlink recipient cookie flags => exact hi.unlink recipient cookie flags
    | sendObituary => exact hi.sendObituary
    | lock i => exact hi.lock i
    | report i promotes => exact hi.report i promotes

end

/-- What a report leaves in the history. -/
def reportOf (ob : Obituary) (promotes : Bool) : DeathEvent :=
  if promotes then .died ob.link else .gone ob.link

/-- A call of `sendObituary` that has left the lock tells its recipients one after the other. -/
theorem reports_finish {s : ObituaryState} {i : ℕ} {rest : List Obituary} {promotes : List Bool}
    (hi : s.senders[i]? = some (.reporting rest)) (hlen : promotes.length = rest.length) :
    (obituaryMachine.exec s (promotes.map (.report i))).senders[i]? = some (.reporting []) ∧
      (obituaryMachine.exec s (promotes.map (.report i))).history =
        s.history ++ rest.zipWith reportOf promotes := by
  induction rest generalizing s promotes with
  | nil =>
    obtain rfl := List.length_eq_zero_iff.1 hlen
    exact ⟨hi, (List.append_nil _).symm⟩
  | cons ob rest ih =>
    cases promotes with
    | nil => cases hlen
    | cons p promotes =>
      have hstep : s.report i p =
          { s with senders := s.senders.set i (.reporting rest) }.note (reportOf ob p) := by
        simp only [ObituaryState.report, hi]
        rfl
      have hlt : i < s.senders.length := (List.getElem?_eq_some_iff.1 hi).1
      have hget : (s.report i p).senders[i]? = some (.reporting rest) := by
        rw [hstep]
        simp [ObituaryState.note, hlt]
      obtain ⟨hdone, hhist⟩ := ih hget (Nat.succ.inj hlen)
      refine ⟨hdone, hhist.trans ?_⟩
      rw [hstep]
      simp [ObituaryState.note]

structure ObituariesOnce (s : ObituaryState) : Prop where
  /-- one request more than clears just while there is a vector -/
  requests : s.bp.out.count .request =
    s.bp.out.count .clear + if s.bp.mObituaries.isSome then 1 else 0
  /-- the mark that the lock was taken stays for good -/
  sent : .sent ∈ s.history → s.bp.mObitsSent = true
  /-- who was linked when the lock was taken is told once, or is still to be told -/
  told : s.bp.mObitsSent = true → ∀ k, .linked k ∈ s.history → .unlinked k ∉ s.history →
    reports s.history k + s.pending.count k = 1
  spared : ∀ k, .linked k ∉ s.history ∨ .unlinked k ∈ s.history →
    reports s.history k + s.pending.count k = 0
  early : s.bp.mObitsSent = false → ∀ k, reports s.history k + s.pending.count k = 0
  /-- links are made and removed before the lock is taken, and told of after it -/
  order : s.bp.mObitsSent = true → ∃ pre post, s.history = pre ++ .sent :: post ∧
    (∀ e ∈ pre, e.isCall = true) ∧ ∀ e ∈ post, e.isReport = true
  link_refused : s.bp.mObitsSent = true → ∀ ob new add,
    s.bp.linkToDeath ob new add = (s.bp, .deadObject)
  unlink_refused : s.bp.mObitsSent = true → ∀ recipient cookie flags,
    s.bp.unlinkToDeath recipient cookie flags = (s.bp, .deadObject, none)
  finish : ∀ i rest, s.senders[i]? = some (.reporting rest) → ∀ promotes : List Bool,
    promotes.length = rest.length →
    (obituaryMachine.exec s (promotes.map (.report i))).senders[i]? = some (.reporting []) ∧
      (obituaryMachine.exec s (promotes.map (.report i))).history =
        s.history ++ rest.zipWith reportOf promotes

theorem obituaries_once {s : ObituaryState} (h : obituaryMachine.Reach (fun _ _ => True) s) :
    ObituariesOnce s := by
  have hi := obituaryInv_reach h
  have hone : ∀ k, .linked k ∈ s.history → s.history.count (.linked k) = 1 := fun k hk =>
    le_antisymm (hi.once k) (List.count_pos_iff.2 hk)
  have hheld : s.bp.mObitsSent = true → s.held = [] := fun hsent => by
    rw [ObituaryState.held, hi.bp.sent hsent]
    rfl
  refine ⟨hi.bp.requests, fun hsent => ?_, fun hsent k hk hno => ?_, fun k hk => ?_,
    fun hsent k => ?_, hi.after, fun hsent ob new add => if_pos hsent,
    fun hsent recipient cookie flags => if_pos hsent,
    fun i rest hget promotes hlen => reports_finish hget hlen⟩
  · by_contra hnot
    have hcalls := (hi.before (by simpa using hnot)).2
    exact absurd (hcalls .sent hsent) Bool.false_ne_true
  · have hledger := hi.ledger k
    rw [hone k hk, hheld hsent, List.count_nil, List.count_eq_zero.2 hno] at hledger
    omega
  · have hledger := hi.ledger k
    rcases hk with hk | hk
    · rw [List.count_eq_zero.2 hk] at hledger
      omega
    · have hle := hi.once k
      have hpos := List.count_pos_iff.2 hk
      omega
  · obtain ⟨hpend, hcalls⟩ := hi.before hsent
    have hnone : ∀ e : DeathEvent, e.isCall = false → s.history.count e = 0 := fun e he =>
      List.count_eq_zero.2 fun hm => by
        rw [hcalls e hm] at he
        cases he
    rw [reports, hnone _ rfl, hnone _ rfl, hpend]
    rfl

/-- Three links and one that is removed; two calls pass the test, and one of them finds the vector. -/
def obituaryRun : List ObituaryOp :=
  [.link 1 0 0 true true, .link 2 0 0 true false, .link 1 0 0 true true, .unlink (some 1) 0 0,
    .sendObituary, .sendObituary, .lock 1, .link 3 0 0 true true, .lock 0, .report 1 true]

theorem obituaries_once_two : ObituariesOnce (obituaryMachine.exec {} obituaryRun) ∧
    (obituaryMachine.exec {} obituaryRun).bp.mObitsSent = true ∧
    (obituaryMachine.exec {} obituaryRun).history =
      [.linked 0, .linked 2, .unlinked 0, .sent, .died 2] :=
  ⟨obituaries_once (.exec (.start rfl) (by simp [Machine.Admits, obituaryRun])), by decide, by decide⟩

end Binder

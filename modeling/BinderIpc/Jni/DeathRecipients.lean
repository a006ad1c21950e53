import BinderIpc.Lib.HeapCount
import BinderIpc.Lib.Run
import BinderIpc.Native.Obituaries

/-! The `JavaDeathRecipient`s of a `BinderProxy`. The list of the proxy keeps them, an obituary
of the `BpBinder` only knows them. Threads link, unlink and report at once; a call is cut where it
takes a lock. -/

namespace Binder

/-- What came of the call of `linkToDeath`. -/
inductive LinkOutcome
  | pending | failed | linked | unlinked
  deriving Repr, DecidableEq

structure JavaDeathRecipient where
  /-- the recipient of Java -/
  object : ℕ := 0
  /-- `mObject` is a global reference; otherwise `mObjectWeak` is a weak one -/
  global : Bool := true
  strong : ℕ := 0
  link : LinkOutcome := .pending
  /-- how often `sendDeathNotice` was called for it -/
  told : ℕ := 0
  /-- how often it could not be promoted -/
  gone : ℕ := 0
  deriving Repr, DecidableEq, Inhabited

/-- A call under way. -/
inductive RecipientCall
  /-- before `target->linkToDeath` and before `target->unlinkToDeath`, with an `sp` of `a` -/
  | linking (a flags : ℕ)
  | unlinking (a flags : ℕ)
  /-- before `clearReference` of `a`, with the `sp`s that go at the end -/
  | clearing (sps : List ℕ) (a : ℕ)
  /-- `sendObituary`, before the lock -/
  | passed
  | reporting (rest : List Obituary)
  /-- `binderDied` has called Java -/
  | dying (a : ℕ) (rest : List Obituary)
  | done
  deriving Repr, DecidableEq

/-- A call of Java code, which has the proxy. -/
def RecipientCall.fromJava : RecipientCall → Bool
  | linking _ _ | unlinking _ _ | clearing _ _ => true
  | _ => false

structure RecipientState where
  bp : BpDeath := {}
  jdr : Heap JavaDeathRecipient := .empty
  /-- `mOrgue`; none when the proxy is finalized -/
  list : Option (List ℕ) := some []
  calls : List RecipientCall := []
  gNumDeathRefs : ℤ := 0

namespace RecipientState

variable (s : RecipientState)

def mod (a : ℕ) (f : JavaDeathRecipient → JavaDeathRecipient) : RecipientState :=
  { s with jdr := s.jdr.modify a f }

def setCall (i : ℕ) (c : RecipientCall) : RecipientState := { s with calls := s.calls.set i c }

/-- `decStrong`, with `~JavaDeathRecipient` at 0 -/
def release (a : ℕ) : RecipientState :=
  { s.mod a fun x => { x with strong := x.strong - 1 } with
    gNumDeathRefs := if (s.jdr.get a).strong = 1 then s.gNumDeathRefs - 1 else s.gNumDeathRefs }

def releaseAll (l : List ℕ) : RecipientState := l.foldl release s

/-- `clearReference`, with `DeathRecipientList::remove` -/
def clearReference (a : ℕ) : RecipientState :=
  match s.list with
  | some l => if a ∈ l then { s with list := some (l.erase a) }.release a else s
  | none => s

/-- `new JavaDeathRecipient` -/
def newRecipient (r flags : ℕ) : RecipientState :=
  match s.list with
  | some l =>
    { s with
      jdr := s.jdr.alloc { object := r, strong := 2 }
      list := some (l ++ [s.jdr.next])
      calls := s.calls ++ [.linking s.jdr.next flags]
      gNumDeathRefs := s.gNumDeathRefs + 1 }
  | none => s

/-- `target->linkToDeath` -/
def link (i : ℕ) (new add : Bool) : RecipientState :=
  match s.calls[i]? with
  | some (.linking a flags) =>
    let r := s.bp.linkToDeath { recipient := a, flags := flags } new add
    let s := { s with bp := r.1 }
    if r.2 = .noError then
      ((s.mod a fun x => { x with link := .linked }).setCall i .done).release a
    else (s.mod a fun x => { x with link := .failed }).setCall i (.clearing [a] a)
  | _ => s

/-- `list->find` of `unlinkToDeath` -/
def findRecipient (r flags : ℕ) : RecipientState :=
  match s.list.bind fun l => l.find? fun a => (s.jdr.get a).object = r with
  | some a =>
    { s.mod a fun x => { x with strong := x.strong + 1 } with calls := s.calls ++ [.unlinking a flags] }
  | none => s

/-- `target->unlinkToDeath` -/
def unlink (i : ℕ) : RecipientState :=
  match s.calls[i]? with
  | some (.unlinking a flags) =>
    let r := s.bp.unlinkToDeath (some a) 0 flags
    let s := { s with bp := r.1 }
    match r.2.2 with
    | some ob =>
      let s := s.mod ob.recipient fun x => { x with link := .unlinked }
      -- `dr.promote()`
      if 0 < (s.jdr.get ob.recipient).strong then
        (s.mod ob.recipient fun x => { x with strong := x.strong + 1 }).setCall i
          (.clearing [ob.recipient, a] ob.recipient)
      else (s.setCall i .done).release a
    | none => (s.setCall i .done).release a
  | _ => s

def clear (i : ℕ) : RecipientState :=
  match s.calls[i]? with
  | some (.clearing sps a) => ((s.clearReference a).setCall i .done).releaseAll sps
  | _ => s

def sendObituary : RecipientState :=
  if s.bp.mObitsSent then s else { s with calls := s.calls ++ [.passed] }

def lock (i : ℕ) : RecipientState :=
  match s.calls[i]? with
  | some .passed =>
    let r := s.bp.detach
    { s with bp := r.1 }.setCall i (.reporting r.2)
  | _ => s

/-- `reportOneDeath`, with `binderDied` up to the lock of the list -/
def report (i : ℕ) : RecipientState :=
  match s.calls[i]? with
  | some (.reporting (ob :: rest)) =>
    let x := s.jdr.get ob.recipient
    if 0 < x.strong then
      if x.global then
        (s.mod ob.recipient fun x => { x with strong := x.strong + 1, told := x.told + 1 }).setCall i
          (.dying ob.recipient rest)
      else s.setCall i (.reporting rest)
    else (s.mod ob.recipient fun x => { x with gone := x.gone + 1 }).setCall i (.reporting rest)
  | _ => s

/-- The end of `binderDied`; the list may be gone. -/
def demote (i : ℕ) : RecipientState :=
  match s.calls[i]? with
  | some (.dying a rest) =>
    let s := if s.list.isSome then s.mod a fun x => { x with global := false } else s
    (s.setCall i (.reporting rest)).release a
  | _ => s

/-- The end of the list in `android_os_BinderProxy_destroy` -/
def finalizer : RecipientState :=
  match s.list with
  | some l => if s.calls.any (·.fromJava) then s else { s with list := none }.releaseAll l
  | none => s

end RecipientState

inductive RecipientOp
  | newRecipient (r flags : ℕ)
  | link (i : ℕ) (new add : Bool)
  | findRecipient (r flags : ℕ)
  | unlink (i : ℕ)
  | clear (i : ℕ)
  | sendObituary
  | lock (i : ℕ)
  | report (i : ℕ)
  | demote (i : ℕ)
  | finalizer
  deriving Repr, DecidableEq

def recipientMachine : Machine RecipientState RecipientOp where
  start s := s = {}
  step s
    | .newRecipient r flags => s.newRecipient r flags
    | .link i new add => s.link i new add
    | .findRecipient r flags => s.findRecipient r flags
    | .unlink i => s.unlink i
    | .clear i => s.clear i
    | .sendObituary => s.sendObituary
    | .lock i => s.lock i
    | .report i => s.report i
    | .demote i => s.demote i
    | .finalizer => s.finalizer

/-! Where a recipient is -/

namespace RecipientCall

@[simp] def holds : RecipientCall → List ℕ
  | linking a _ | unlinking a _ | dying a _ => [a]
  | clearing sps _ => sps
  | _ => []

@[simp] def links : RecipientCall → List ℕ
  | linking a _ => [a]
  | _ => []

@[simp] def clears : RecipientCall → List ℕ
  | clearing _ a => [a]
  | _ => []

@[simp] def dies : RecipientCall → List ℕ
  | dying a _ => [a]
  | _ => []

@[simp] def reports : RecipientCall → List ℕ
  | reporting rest | dying _ rest => rest.map (·.recipient)
  | _ => []

end RecipientCall

/-- How often a recipient is in the list, in the calls and in the vector of the `BpBinder`. -/
@[ext] structure Places where
  listed : ℕ := 0
  holders : ℕ := 0
  linking : ℕ := 0
  clearing : ℕ := 0
  dying : ℕ := 0
  pending : ℕ := 0
  vector : ℕ := 0

def RecipientState.places (s : RecipientState) (a : ℕ) : Places where
  listed := (s.list.getD []).count a
  holders := (s.calls.flatMap RecipientCall.holds).count a
  linking := (s.calls.flatMap RecipientCall.links).count a
  clearing := (s.calls.flatMap RecipientCall.clears).count a
  dying := (s.calls.flatMap RecipientCall.dies).count a
  pending := (s.calls.flatMap RecipientCall.reports).count a
  vector := ((s.bp.mObituaries.getD []).map (·.recipient)).count a

/-- The link is made or still to be made. -/
@[simp] def LinkOutcome.holds : LinkOutcome → ℕ
  | pending | linked => 1
  | failed | unlinked => 0

/-- What the fields of a recipient say of its places; `opened` as long as the proxy has the list. -/
structure Account (x : JavaDeathRecipient) (opened : Bool) (c : Places) : Prop where
  strong : x.strong = c.listed + c.holders
  /-- A link is in the vector, about to be told of, or told of. -/
  place : c.vector + c.pending + x.told + x.gone = if x.link = .linked then 1 else 0
  linking : c.linking = if x.link = .pending then 1 else 0
  clearing : c.clearing + x.link.holds ≤ 1
  kept : opened = true → c.listed = x.link.holds + c.clearing
  gone : opened = true → x.gone = 0
  told : opened = true → x.told = c.dying + if x.global then 0 else 1
  demoted : x.global = false → x.told = 1

def RecipientState.Counted (s : RecipientState) : Prop :=
  s.gNumDeathRefs = s.jdr.count fun x => 0 < x.strong

structure RecipientInv (s : RecipientState) : Prop where
  account : ∀ a < s.jdr.next, Account (s.jdr.get a) s.list.isSome (s.places a)
  unborn : ∀ a, s.jdr.next ≤ a → s.places a = {}
  refs : s.Counted

section

variable {s s' : RecipientState} {a b i : ℕ} {x y : RecipientCall}

/-- A step that makes no recipient. -/
theorem RecipientInv.keep (hi : RecipientInv s) (hnext : s'.jdr.next = s.jdr.next)
    (hacc : ∀ b < s.jdr.next, Account (s.jdr.get b) s.list.isSome (s.places b) →
      Account (s'.jdr.get b) s'.list.isSome (s'.places b))
    (hunborn : ∀ b, s.jdr.next ≤ b → s.places b = {} → s'.places b = {}) (hrefs : s'.Counted) :
    RecipientInv s' := by
  constructor
  · intro b hb
    rw [hnext] at hb
    exact hacc b hb (hi.account b hb)
  · intro b hb
    rw [hnext] at hb
    exact hunborn b hb (hi.unborn b hb)
  · exact hrefs

theorem mem_flatMap_call {f : RecipientCall → List ℕ} (h : s.calls[i]? = some x) (hm : a ∈ f x) :
    0 < (s.calls.flatMap f).count a :=
  List.count_pos_iff.2 (List.mem_flatMap.2 ⟨x, List.mem_of_getElem? h, hm⟩)

/-- A recipient that is somewhere was made. -/
theorem RecipientInv.born (hi : RecipientInv s) (h : s.places a ≠ {}) : a < s.jdr.next := by
  by_contra hge
  exact h (hi.unborn a (Nat.le_of_not_lt hge))

/-- What one call is before and after; `done` is also the call that has not begun. -/
structure Exchanged (x y : RecipientCall) (c c' : Places) (a : ℕ) : Prop where
  holders : c'.holders + x.holds.count a = c.holders + y.holds.count a
  linking : c'.linking + x.links.count a = c.linking + y.links.count a
  clearing : c'.clearing + x.clears.count a = c.clearing + y.clears.count a
  dying : c'.dying + x.dies.count a = c.dying + y.dies.count a
  pending : c'.pending + x.reports.count a = c.pending + y.reports.count a

theorem Exchanged.of_set (h : s.calls[i]? = some x) (hcalls : s'.calls = s.calls.set i y) (a : ℕ) :
    Exchanged x y (s.places a) (s'.places a) a := by
  constructor <;>
    · simp only [RecipientState.places, hcalls]
      exact count_flatMap_set _ y a h

theorem Exchanged.of_append (hcalls : s'.calls = s.calls ++ [y]) (a : ℕ) :
    Exchanged .done y (s.places a) (s'.places a) a := by
  constructor <;>
    · simp only [RecipientState.places, hcalls, List.flatMap_append, List.flatMap_singleton,
        List.count_append]
      rfl

/-! The counter and the strong counts -/

theorem RecipientState.Counted.mod (h : s.Counted) {f : JavaDeathRecipient → JavaDeathRecipient}
    (hf : 0 < (f (s.jdr.get a)).strong ↔ 0 < (s.jdr.get a).strong) : (s.mod a f).Counted := by
  apply h.trans
  exact congrArg Nat.cast (s.jdr.count_modify_eq _ (decide_eq_decide.2 hf)).symm

theorem RecipientState.Counted.release (h : s.Counted) (ha : a < s.jdr.next)
    (hpos : 0 < (s.jdr.get a).strong) : (s.release a).Counted := by
  have hcount := s.jdr.count_modify (f := fun x => { x with strong := x.strong - 1 })
    (fun x => 0 < x.strong) ha
  unfold RecipientState.Counted at h ⊢
  simp only [hpos, decide_true, if_true, decide_eq_true_eq] at hcount
  simp only [RecipientState.release, RecipientState.mod]
  split_ifs at hcount ⊢ <;> omega

theorem get_release (s : RecipientState) (a b : ℕ) : (s.release a).jdr.get b =
    { s.jdr.get b with strong := (s.jdr.get b).strong - [a].count b } := by
  simp only [RecipientState.release, RecipientState.mod, Heap.get_modify, List.count_singleton]
  by_cases hba : b = a
  · simp [hba]
  · simp [hba, Ne.symm hba]

section

variable (s : RecipientState) (l : List ℕ)

theorem releaseAll_cons (a : ℕ) : s.releaseAll (a :: l) = (s.release a).releaseAll l := rfl

@[simp] theorem next_releaseAll : (s.releaseAll l).jdr.next = s.jdr.next := by
  induction l generalizing s with
  | nil => rfl
  | cons a l ih => exact ih (s.release a)

@[simp] theorem list_releaseAll : (s.releaseAll l).list = s.list := by
  induction l generalizing s with
  | nil => rfl
  | cons a l ih => exact ih (s.release a)

@[simp] theorem calls_releaseAll : (s.releaseAll l).calls = s.calls := by
  induction l generalizing s with
  | nil => rfl
  | cons a l ih => exact ih (s.release a)

@[simp] theorem bp_releaseAll : (s.releaseAll l).bp = s.bp := by
  induction l generalizing s with
  | nil => rfl
  | cons a l ih => exact ih (s.release a)

theorem get_releaseAll (b : ℕ) : (s.releaseAll l).jdr.get b =
    { s.jdr.get b with strong := (s.jdr.get b).strong - l.count b } := by
  induction l generalizing s with
  | nil => rfl
  | cons a l ih =>
    have hcount : (a :: l).count b = [a].count b + l.count b := by
      rw [← List.singleton_append, List.count_append]
    rw [releaseAll_cons, ih, get_release, hcount]
    simp only [Nat.sub_sub]

end

/-- Every element of the list was counted. -/
theorem RecipientState.Counted.releaseAll {l : List ℕ} (h : s.Counted)
    (hl : ∀ a ∈ l, a < s.jdr.next ∧ l.count a ≤ (s.jdr.get a).strong) : (s.releaseAll l).Counted := by
  induction l generalizing s with
  | nil => exact h
  | cons a l ih =>
    obtain ⟨ha, hle⟩ := hl a List.mem_cons_self
    rw [List.count_cons_self] at hle
    apply ih (s := s.release a)
    · exact h.release ha (by omega)
    · intro b hb
      obtain ⟨hlt, hle⟩ := hl b (List.mem_cons_of_mem a hb)
      refine ⟨hlt, ?_⟩
      rw [get_release]
      rw [List.count_cons] at hle
      simp only [List.count_singleton]
      omega

/-! One lemma for each operation -/

theorem Exchanged.eq {c c' : Places} (h : Exchanged x y c c' a) (hlisted : c'.listed = c.listed)
    (hvector : c'.vector = c.vector) (h1 : x.holds.count a = y.holds.count a)
    (h2 : x.links.count a = y.links.count a) (h3 : x.clears.count a = y.clears.count a)
    (h4 : x.dies.count a = y.dies.count a) (h5 : x.reports.count a = y.reports.count a) : c' = c := by
  obtain ⟨e1, e2, e3, e4, e5⟩ := h
  apply Places.ext <;> omega

/-- `linkToDeath` and `unlinkToDeath` of Java begin. -/
theorem RecipientInv.of_new {l : List ℕ} {r flags : ℕ} (hi : RecipientInv s)
    (hlist : s.list = some l) (hjdr : s'.jdr = s.jdr.alloc { object := r, strong := 2 })
    (hlist' : s'.list = some (l ++ [s.jdr.next]))
    (hcalls : s'.calls = s.calls ++ [.linking s.jdr.next flags]) (hbp : s'.bp = s.bp)
    (hrefs : s'.gNumDeathRefs = s.gNumDeathRefs + 1) : RecipientInv s' := by
  have hlisted : ∀ b, (s'.places b).listed = (s.places b).listed + [s.jdr.next].count b := by
    intro b
    simp only [RecipientState.places, hlist, hlist', Option.getD_some, List.count_append]
  have hvector : ∀ b, (s'.places b).vector = (s.places b).vector := by
    intro b
    simp only [RecipientState.places, hbp]
  have hold : ∀ b, b ≠ s.jdr.next → s'.places b = s.places b := by
    intro b hne
    have hzero : [s.jdr.next].count b = 0 := 
      List.count_eq_zero.2 fun h => hne (List.mem_singleton.1 h)
    apply (Exchanged.of_append hcalls b).eq (by rw [hlisted, hzero]; rfl) (hvector b) <;>
      simp [hzero]
  constructor
  · intro b hb
    rw [hjdr, Heap.next_alloc] at hb
    by_cases hnew : b = s.jdr.next
    · subst hnew
      obtain ⟨h1, h2, h3, h4, h5⟩ := Exchanged.of_append hcalls s.jdr.next
      have hl := hlisted s.jdr.next
      have hv := hvector s.jdr.next
      simp only [hi.unborn _ le_rfl] at h1 h2 h3 h4 h5 hl hv
      simp at h1 h2 h3 h4 h5 hl
      rw [hjdr, Heap.get_alloc_self]
      constructor <;> simp <;> omega
    · have hopen : s'.list.isSome = s.list.isSome := by rw [hlist, hlist']; rfl
      rw [hold b hnew, hjdr, Heap.get_alloc_ne _ _ _ hnew, hopen]
      exact hi.account b (by omega)
  · intro b hb
    rw [hjdr, Heap.next_alloc] at hb
    rw [hold b (by omega)]
    exact hi.unborn b (by omega)
  · have hcount := s.jdr.count_alloc { object := r, strong := 2 } fun x => 0 < x.strong
    unfold RecipientState.Counted
    rw [hrefs, hjdr, hcount, hi.refs]
    rfl

theorem RecipientInv.newRecipient (hi : RecipientInv s) (r flags : ℕ) :
    RecipientInv (s.newRecipient r flags) := by
  unfold RecipientState.newRecipient
  cases hlist : s.list with
  | none => exact hi
  | some l => exact hi.of_new hlist rfl rfl rfl rfl rfl

theorem RecipientInv.lt_of_holds (hi : RecipientInv s) (h : s.calls[i]? = some x) (hm : a ∈ x.holds) :
    a < s.jdr.next := by
  apply hi.born
  intro hzero
  have hpos := mem_flatMap_call h hm
  exact absurd (congrArg Places.holders hzero) (Nat.ne_of_gt hpos)

/-- What a call has is there. -/
theorem RecipientInv.strong_pos (hi : RecipientInv s) (h : s.calls[i]? = some x) (hm : a ∈ x.holds) :
    0 < (s.jdr.get a).strong := by
  have hstrong := (hi.account a (hi.lt_of_holds h hm)).strong
  have hpos : 0 < (s.places a).holders := mem_flatMap_call h hm
  omega

/-- The calls say the same of the recipient. -/
structure RecipientCall.SameAt (x y : RecipientCall) (a : ℕ) : Prop where
  holds : x.holds.count a = y.holds.count a
  links : x.links.count a = y.links.count a
  clears : x.clears.count a = y.clears.count a
  dies : x.dies.count a = y.dies.count a
  reports : x.reports.count a = y.reports.count a

/-- A call goes on with the recipient `a`. -/
theorem RecipientInv.of_call {f : JavaDeathRecipient → JavaDeathRecipient} (hi : RecipientInv s)
    (ha : a < s.jdr.next) (hex : ∀ b, Exchanged x y (s.places b) (s'.places b) b)
    (hlist : s'.list = s.list) (hjdr : s'.jdr = s.jdr.modify a f)
    (hothers : ∀ b, b ≠ a → x.SameAt y b ∧ (s'.places b).vector = (s.places b).vector)
    (hacc : Exchanged x y (s.places a) (s'.places a) a → (s'.places a).listed = (s.places a).listed →
      Account (s.jdr.get a) s.list.isSome (s.places a) →
        Account (f (s.jdr.get a)) s.list.isSome (s'.places a))
    (hrefs : s'.Counted) : RecipientInv s' := by
  have hlisted : ∀ b, (s'.places b).listed = (s.places b).listed := by
    intro b
    simp only [RecipientState.places, hlist]
  have hsame : ∀ b, b ≠ a → s'.places b = s.places b := by
    intro b hba
    obtain ⟨⟨h1, h2, h3, h4, h5⟩, hv⟩ := hothers b hba
    obtain ⟨e1, e2, e3, e4, e5⟩ := hex b
    have hl := hlisted b
    apply Places.ext <;> omega
  apply hi.keep _ _ _ hrefs
  · rw [hjdr]
    rfl
  · intro b hb h
    rw [hlist, hjdr]
    by_cases hba : b = a
    · rw [hba] at h ⊢
      rw [Heap.get_modify_self]
      exact hacc (hex a) (hlisted a) h
    · rw [Heap.get_modify_ne _ _ _ _ hba, hsame b hba]
      exact h
  · intro b hb h
    rw [hsame b (by omega)]
    exact h

theorem count_of_ne (h : b ≠ a) : [a].count b = 0 :=
  List.count_eq_zero.2 fun hm => h (List.mem_singleton.1 hm)

theorem linkToDeath_vector (bp : BpDeath) (ob : Obituary) (new add : Bool) :
    (bp.linkToDeath ob new add).1.mObituaries.getD [] = bp.mObituaries.getD [] ++
      if (bp.linkToDeath ob new add).2 = .noError then [ob] else [] := by
  rcases bp.linkToDeath_cases ob new add with ⟨-, h⟩ | ⟨-, h, -, hvec⟩ | ⟨-, h, -, hvec⟩
  · rw [h, if_neg nofun, List.append_nil]
  · rw [h, hvec, if_pos rfl]
    rfl
  · rw [h, hvec, if_neg nofun, List.append_nil]

theorem unlinkToDeath_vector (bp : BpDeath) (a flags : ℕ) :
    ((bp.unlinkToDeath (some a) 0 flags).2.2 = none ∧
      (bp.unlinkToDeath (some a) 0 flags).1.mObituaries.getD [] = bp.mObituaries.getD []) ∨
    ∃ ob : Obituary, (bp.unlinkToDeath (some a) 0 flags).2.2 = some ob ∧ ob.recipient = a ∧
      ∀ b, ((bp.mObituaries.getD []).map (·.recipient)).count b =
        (((bp.unlinkToDeath (some a) 0 flags).1.mObituaries.getD []).map (·.recipient)).count b +
          [a].count b := by
  rcases bp.unlinkToDeath_cases (some a) 0 flags with ⟨-, h⟩ | ⟨-, -, h⟩ | ⟨-, ob, hfind, h, -, hvec⟩
  · rw [h]
    exact .inl ⟨rfl, rfl⟩
  · rw [h]
    exact .inl ⟨rfl, rfl⟩
  · obtain ⟨hfits, l₁, l₂, hl, hbefore⟩ := List.find?_eq_some_iff_append.1 hfind
    have hob : ob.recipient = a := by
      simp only [Obituary.fits, Option.some.injEq, reduceCtorEq, false_and, or_false,
        Bool.decide_and, Bool.and_eq_true, decide_eq_true_eq] at hfits
      exact hfits.1.symm
    refine .inr ⟨ob, by rw [h], hob, ?_⟩
    intro b
    rw [hvec, hl, List.eraseP_append_right _ (fun x hx => by simpa using hbefore x hx),
      List.eraseP_cons_of_pos hfits]
    simp only [List.map_append, List.map_cons, List.count_append, List.count_cons, List.count_nil,
      hob]
    omega

section

variable {r : JavaDeathRecipient} {o : Bool} {c c' : Places} {flags : ℕ} {ob : Obituary}
  {rest : List Obituary}

theorem Account.linked (h : Account r o c) (he : Exchanged (.linking a flags) .done c c' a)
    (hl : c'.listed = c.listed) (hv : c'.vector = c.vector + 1) :
    Account { r with link := .linked, strong := r.strong - 1 } o c' := by
  obtain ⟨h1, h2, h3, h4, h5, h6, h7, h8⟩ := h
  obtain ⟨e1, e2, e3, e4, e5⟩ := he
  simp at e1 e2 e3 e4 e5
  have hlink : r.link = .pending := by
    by_contra hne
    rw [if_neg hne] at h3
    omega
  constructor <;> grind [LinkOutcome.holds]

theorem Account.failed (h : Account r o c) (he : Exchanged (.linking a flags) (.clearing [a] a) c c' a)
    (hl : c'.listed = c.listed) (hv : c'.vector = c.vector) :
    Account { r with link := .failed } o c' := by
  obtain ⟨h1, h2, h3, h4, h5, h6, h7, h8⟩ := h
  obtain ⟨e1, e2, e3, e4, e5⟩ := he
  simp at e1 e2 e3 e4 e5
  have hlink : r.link = .pending := by
    by_contra hne
    rw [if_neg hne] at h3
    omega
  constructor <;> grind [LinkOutcome.holds]

theorem Account.found (h : Account r o c) (he : Exchanged .done (.unlinking a flags) c c' a)
    (hl : c'.listed = c.listed) (hv : c'.vector = c.vector) :
    Account { r with strong := r.strong + 1 } o c' := by
  obtain ⟨h1, h2, h3, h4, h5, h6, h7, h8⟩ := h
  obtain ⟨e1, e2, e3, e4, e5⟩ := he
  simp at e1 e2 e3 e4 e5
  constructor <;> grind

/-- Only a link that was made is in the vector. -/
theorem Account.unlinked (h : Account r o c)
    (he : Exchanged (.unlinking a flags) (.clearing [a, a] a) c c' a) (hl : c'.listed = c.listed)
    (hv : c.vector = c'.vector + 1) :
    Account { r with link := .unlinked, strong := r.strong + 1 } o c' := by
  obtain ⟨h1, h2, h3, h4, h5, h6, h7, h8⟩ := h
  obtain ⟨e1, e2, e3, e4, e5⟩ := he
  simp at e1 e2 e3 e4 e5
  have hlink : r.link = .linked := by
    by_contra hne
    rw [if_neg hne] at h2
    omega
  constructor <;> grind [LinkOutcome.holds]

theorem Account.dropped (h : Account r o c) (he : Exchanged (.unlinking a flags) .done c c' a)
    (hl : c'.listed = c.listed) (hv : c'.vector = c.vector) :
    Account { r with strong := r.strong - 1 } o c' := by
  obtain ⟨h1, h2, h3, h4, h5, h6, h7, h8⟩ := h
  obtain ⟨e1, e2, e3, e4, e5⟩ := he
  simp at e1 e2 e3 e4 e5
  constructor <;> grind

/-- The recipient of an obituary was not told before. -/
theorem Account.global_of_pending (h : Account r o c) (hpend : 0 < c.pending) : r.global = true := by
  have hplace := h.place
  by_contra hglobal
  have htold := h.demoted (by simpa using hglobal)
  split_ifs at hplace <;> omega

/-- As long as there is the list, the recipient of an obituary is there. -/
theorem Account.strong_of_pending (h : Account r o c) (hpend : 0 < c.pending) (ho : o = true) :
    0 < r.strong := by
  have hplace := h.place
  have hkept := h.kept ho
  have hstrong := h.strong
  have hlink : r.link = .linked := by
    by_contra hne
    rw [if_neg hne] at hplace
    omega
  rw [hlink] at hkept
  simp only [LinkOutcome.holds] at hkept
  omega

theorem Account.reported (h : Account r o c)
    (he : Exchanged (.reporting (ob :: rest)) (.dying a rest) c c' a) (hob : ob.recipient = a)
    (hl : c'.listed = c.listed) (hv : c'.vector = c.vector) :
    Account { r with strong := r.strong + 1, told := r.told + 1 } o c' := by
  have hglobal : r.global = true := by
    apply h.global_of_pending
    have hpend := he.pending
    simp [hob] at hpend
    omega
  obtain ⟨h1, h2, h3, h4, h5, h6, h7, h8⟩ := h
  obtain ⟨e1, e2, e3, e4, e5⟩ := he
  simp [hob] at e1 e2 e3 e4 e5
  constructor <;> grind

theorem Account.missed (h : Account r o c)
    (he : Exchanged (.reporting (ob :: rest)) (.reporting rest) c c' a) (hob : ob.recipient = a)
    (hl : c'.listed = c.listed) (hv : c'.vector = c.vector) (hgone : r.strong = 0) :
    Account { r with gone := r.gone + 1 } o c' := by
  have hclosed : ¬ o = true := by
    intro ho
    apply Nat.ne_of_gt (h.strong_of_pending _ ho) hgone
    have hpend := he.pending
    simp [hob] at hpend
    omega
  obtain ⟨h1, h2, h3, h4, h5, h6, h7, h8⟩ := h
  obtain ⟨e1, e2, e3, e4, e5⟩ := he
  simp [hob] at e1 e2 e3 e4 e5
  constructor <;> grind

theorem Account.demote (h : Account r o c) (he : Exchanged (.dying a rest) (.reporting rest) c c' a)
    (hl : c'.listed = c.listed) (hv : c'.vector = c.vector) :
    Account { r with global := r.global && !o, strong := r.strong - 1 } o c' := by
  obtain ⟨h1, h2, h3, h4, h5, h6, h7, h8⟩ := h
  obtain ⟨e1, e2, e3, e4, e5⟩ := he
  simp at e1 e2 e3 e4 e5
  constructor <;> grind

end

theorem RecipientInv.link (hi : RecipientInv s) (i : ℕ) (new add : Bool) :
    RecipientInv (s.link i new add) := by
  unfold RecipientState.link
  cases hcall : s.calls[i]? with
  | none => exact hi
  | some x =>
    cases x with
    | linking a flags =>
      have hvec := linkToDeath_vector s.bp { recipient := a, flags := flags } new add
      dsimp only
      generalize s.bp.linkToDeath { recipient := a, flags := flags } new add = r at hvec ⊢
      have ha := hi.lt_of_holds hcall (List.mem_singleton_self a)
      have hpos := hi.strong_pos hcall (List.mem_singleton_self a)
      have hrefs : RecipientState.Counted { s with bp := r.1 } := hi.refs
      split_ifs with herr
      · -- the link is in the vector, and the `sp` of the caller goes
        rw [if_pos herr] at hvec
        have hvector : ∀ b, ((r.1.mObituaries.getD []).map (·.recipient)).count b =
            (s.places b).vector + [a].count b := by
          intro b
          rw [hvec, List.map_append, List.count_append]
          rfl
        apply RecipientInv.of_call (y := .done)
          (f := fun x => { x with link := .linked, strong := x.strong - 1 }) hi ha
        · exact Exchanged.of_set hcall rfl
        · rfl
        · exact s.jdr.modify_modify a _ fun x => { x with strong := x.strong - 1 }
        · intro b hba
          refine ⟨?_, ?_⟩
          · constructor <;> simp [count_of_ne hba]
          · exact (hvector b).trans (by rw [count_of_ne hba]; rfl)
        · intro he hl h
          apply h.linked he hl
          exact (hvector a).trans (by rw [List.count_singleton_self])
        · have hmod := hrefs.mod (a := a) (f := fun x => { x with link := .linked }) Iff.rfl
          apply RecipientState.Counted.release
          · exact hmod
          · exact ha
          · simp only [RecipientState.setCall, RecipientState.mod, Heap.get_modify_self]
            exact hpos
      · -- the link was not made
        rw [if_neg herr, List.append_nil] at hvec
        have hvector : ∀ b, ((r.1.mObituaries.getD []).map (·.recipient)).count b =
            (s.places b).vector := by
          intro b
          rw [hvec]
          rfl
        apply RecipientInv.of_call (y := .clearing [a] a) (f := fun x => { x with link := .failed })
          hi ha
        · exact Exchanged.of_set hcall rfl
        · rfl
        · rfl
        · intro b hba
          refine ⟨?_, hvector b⟩
          constructor <;> simp [count_of_ne hba]
        · intro he hl h
          exact h.failed he hl (hvector a)
        · exact hrefs.mod (a := a) (f := fun x => { x with link := .failed }) Iff.rfl
    | _ => exact hi

/-- What the list has was made. -/
theorem RecipientInv.lt_of_listed {l : List ℕ} (hi : RecipientInv s) (hlist : s.list = some l)
    (ha : a ∈ l) : a < s.jdr.next := by
  apply hi.born
  intro hzero
  have hlisted : (s.places a).listed = l.count a := by
    simp only [RecipientState.places, hlist, Option.getD_some]
  rw [hzero] at hlisted
  exact absurd hlisted.symm (Nat.ne_of_gt (List.count_pos_iff.2 ha))

theorem RecipientInv.findRecipient (hi : RecipientInv s) (r flags : ℕ) :
    RecipientInv (s.findRecipient r flags) := by
  unfold RecipientState.findRecipient
  cases hlist : s.list with
  | none => exact hi
  | some l =>
    dsimp only [Option.bind_some]
    cases hfind : l.find? fun a => (s.jdr.get a).object = r with
    | none => exact hi
    | some a =>
      have hmem := List.mem_of_find?_eq_some hfind
      have ha := hi.lt_of_listed hlist hmem
      have hpos : 0 < (s.jdr.get a).strong := by
        have hstrong := (hi.account a ha).strong
        have hlisted : 0 < (s.places a).listed := by
          simp only [RecipientState.places, hlist, Option.getD_some]
          exact List.count_pos_iff.2 hmem
        omega
      apply RecipientInv.of_call (x := .done) (y := .unlinking a flags)
        (f := fun x => { x with strong := x.strong + 1 }) hi ha
      · exact Exchanged.of_append rfl
      · rfl
      · rfl
      · intro b hba
        refine ⟨?_, rfl⟩
        constructor <;> simp [count_of_ne hba]
      · intro he hl h
        exact h.found he hl rfl
      · exact hi.refs.mod (a := a) (f := fun x => { x with strong := x.strong + 1 })
          (iff_of_true (Nat.succ_pos _) hpos)

theorem RecipientInv.unlink (hi : RecipientInv s) (i : ℕ) : RecipientInv (s.unlink i) := by
  unfold RecipientState.unlink
  cases hcall : s.calls[i]? with
  | none => exact hi
  | some x =>
    cases x with
    | unlinking a flags =>
      have hvec := unlinkToDeath_vector s.bp a flags
      dsimp only
      generalize s.bp.unlinkToDeath (some a) 0 flags = r at hvec ⊢
      have ha := hi.lt_of_holds hcall (List.mem_singleton_self a)
      have hpos := hi.strong_pos hcall (List.mem_singleton_self a)
      have hrefs : RecipientState.Counted { s with bp := r.1 } := hi.refs
      rcases hvec with ⟨hnone, hvec⟩ | ⟨ob, hsome, rfl, hvec⟩
      · -- the link was not there, or the obituary was sent
        rw [hnone]
        dsimp only
        have hvector : ∀ b, ((r.1.mObituaries.getD []).map (·.recipient)).count b =
            (s.places b).vector := by
          intro b
          rw [hvec]
          rfl
        apply RecipientInv.of_call (y := .done) (f := fun x => { x with strong := x.strong - 1 }) hi ha
        · exact Exchanged.of_set hcall rfl
        · rfl
        · rfl
        · intro b hba
          refine ⟨?_, hvector b⟩
          constructor <;> simp [count_of_ne hba]
        · intro he hl h
          exact h.dropped he hl (hvector a)
        · apply RecipientState.Counted.release
          · exact hrefs
          · exact ha
          · exact hpos
      · -- the obituary names the recipient that is held, which can be promoted
        rw [hsome]
        dsimp only
        have hmod := hrefs.mod (a := ob.recipient) (f := fun x => { x with link := .unlinked }) Iff.rfl
        split_ifs with hstrong
        · apply RecipientInv.of_call (y := .clearing [ob.recipient, ob.recipient] ob.recipient)
            (f := fun x => { x with link := .unlinked, strong := x.strong + 1 }) hi ha
          · exact Exchanged.of_set hcall rfl
          · rfl
          · exact s.jdr.modify_modify ob.recipient _ fun x => { x with strong := x.strong + 1 }
          · intro b hba
            have hv := hvec b
            rw [count_of_ne hba, Nat.add_zero] at hv
            refine ⟨?_, hv.symm⟩
            constructor <;> simp [Ne.symm hba]
          · intro he hl h
            apply h.unlinked he hl
            have hv := hvec ob.recipient
            rw [List.count_singleton_self] at hv
            exact hv
          · exact hmod.mod (a := ob.recipient) (f := fun x => { x with strong := x.strong + 1 })
              (iff_of_true (Nat.succ_pos _) hstrong)
        · apply absurd _ hstrong
          simp only [RecipientState.mod, Heap.get_modify_self]
          exact hpos
    | _ => exact hi

theorem RecipientInv.sendObituary (hi : RecipientInv s) : RecipientInv s.sendObituary := by
  unfold RecipientState.sendObituary
  split_ifs
  · exact hi
  · have hex : ∀ b, Exchanged .done .passed (s.places b)
        (({ s with calls := s.calls ++ [.passed] } : RecipientState).places b) b :=
      Exchanged.of_append rfl
    have hsame : ∀ b, ({ s with calls := s.calls ++ [.passed] } : RecipientState).places b =
        s.places b := by
      intro b
      obtain ⟨e1, e2, e3, e4, e5⟩ := hex b
      apply Places.ext <;> first | rfl | assumption
    apply RecipientInv.keep hi
    · rfl
    · intro b _ h
      rw [hsame b]
      exact h
    · intro b _ h
      rw [hsame b]
      exact h
    · exact hi.refs

theorem Account.detached {r : JavaDeathRecipient} {o : Bool} {c c' : Places} {l : List Obituary}
    (h : Account r o c) (he : Exchanged .passed (.reporting l) c c' a) (hl : c'.listed = c.listed)
    (hv : c'.vector = 0) (hp : (l.map (·.recipient)).count a = c.vector) : Account r o c' := by
  obtain ⟨h1, h2, h3, h4, h5, h6, h7, h8⟩ := h
  obtain ⟨e1, e2, e3, e4, e5⟩ := he
  simp at e1 e2 e3 e4 e5
  constructor <;> grind

theorem RecipientInv.lock (hi : RecipientInv s) (i : ℕ) : RecipientInv (s.lock i) := by
  unfold RecipientState.lock
  cases hcall : s.calls[i]? with
  | none => exact hi
  | some x =>
    cases x with
    | passed =>
      obtain ⟨-, hnone, hrest⟩ := s.bp.detach_spec
      dsimp only
      generalize s.bp.detach = r at hnone hrest ⊢
      obtain ⟨bp, l⟩ := r
      dsimp only at hnone hrest ⊢
      -- what was in the vector is reported
      have hex : ∀ b, Exchanged .passed (.reporting l) (s.places b)
          ((({ s with bp := bp } : RecipientState).setCall i (.reporting l)).places b) b :=
        Exchanged.of_set hcall rfl
      have hvector : ∀ b, ((({ s with bp := bp } : RecipientState).setCall i (.reporting l)).places
          b).vector = 0 := by
        intro b
        simp only [RecipientState.places, RecipientState.setCall, hnone, Option.getD_none,
          List.map_nil, List.count_nil]
      have hpend : ∀ b, (l.map (·.recipient)).count b = (s.places b).vector := by
        intro b
        rw [hrest]
        rfl
      apply RecipientInv.keep hi
      · rfl
      · intro b _ h
        exact h.detached (hex b) rfl (hvector b) (hpend b)
      · intro b _ h
        obtain ⟨e1, e2, e3, e4, e5⟩ := hex b
        have hp := hpend b
        have hl : (s.places b).listed = 0 := by rw [h]
        simp only [h] at e1 e2 e3 e4 e5 hp
        simp [hp] at e1 e2 e3 e4 e5
        exact Places.ext hl e1 e2 e3 e4 e5 (hvector b)
      · exact hi.refs
    | _ => exact hi

/-- What `clearReference` of `a` does; `n b` is what `b` loses. -/
structure ReferenceCleared (s t : RecipientState) (a : ℕ) (n : ℕ → ℕ) : Prop where
  opened : t.list.isSome = s.list.isSome
  calls : t.calls = s.calls
  bp : t.bp = s.bp
  next : t.jdr.next = s.jdr.next
  lost : ∀ b, n b = if s.list.isSome then [a].count b else 0
  listed : ∀ b, (t.places b).listed + n b = (s.places b).listed
  get : ∀ b, t.jdr.get b = { s.jdr.get b with strong := (s.jdr.get b).strong - n b }
  refs : t.Counted

theorem RecipientInv.clearReference (hi : RecipientInv s)
    (hmem : ∀ l, s.list = some l → a ∈ l) : ∃ n, ReferenceCleared s (s.clearReference a) a n := by
  unfold RecipientState.clearReference
  cases hlist : s.list with
  | none =>
    refine ⟨fun _ => 0, rfl, rfl, rfl, rfl, ?_, fun _ => rfl, fun _ => rfl, hi.refs⟩
    intro b
    rw [hlist]
    rfl
  | some l =>
    have ha := hmem l hlist
    dsimp only
    rw [if_pos ha]
    refine ⟨fun b => [a].count b, by rw [hlist]; rfl, rfl, rfl, rfl, ?_, ?_, ?_, ?_⟩
    · intro b
      rw [hlist]
      rfl
    · intro b
      simp only [RecipientState.places, RecipientState.release, RecipientState.mod, hlist,
        Option.getD_some, List.count_erase, List.count_singleton]
      by_cases hba : a = b
      · have hpos := List.count_pos_iff.2 ha
        simp only [hba, beq_self_eq_true, if_true] at hpos ⊢
        omega
      · simp [hba]
    · intro b
      exact get_release _ a b
    · have hlt := hi.lt_of_listed hlist ha
      apply RecipientState.Counted.release
      · exact hi.refs
      · exact hlt
      · have hstrong := (hi.account a hlt).strong
        have hlisted : 0 < (s.places a).listed := by
          simp only [RecipientState.places, hlist, Option.getD_some]
          exact List.count_pos_iff.2 ha
        dsimp only
        omega

theorem Account.cleared {r : JavaDeathRecipient} {o : Bool} {c c' : Places} {sps : List ℕ} {n : ℕ}
    (h : Account r o c) (he : Exchanged (.clearing sps a) .done c c' b)
    (hn : n = if o then [a].count b else 0) (hl : c'.listed + n = c.listed)
    (hv : c'.vector = c.vector) :
    Account { r with strong := r.strong - n - sps.count b } o c' := by
  obtain ⟨h1, h2, h3, h4, h5, h6, h7, h8⟩ := h
  obtain ⟨e1, e2, e3, e4, e5⟩ := he
  simp only [RecipientCall.holds, RecipientCall.links, RecipientCall.clears, RecipientCall.dies,
    RecipientCall.reports, List.count_nil] at e1 e2 e3 e4 e5
  constructor <;> grind

theorem RecipientInv.clear (hi : RecipientInv s) (i : ℕ) : RecipientInv (s.clear i) := by
  unfold RecipientState.clear
  cases hcall : s.calls[i]? with
  | none => exact hi
  | some x =>
    cases x with
    | clearing sps a =>
      dsimp only
      have ha : a < s.jdr.next := by
        apply hi.born
        intro hzero
        have hpos := mem_flatMap_call (f := RecipientCall.clears) hcall (List.mem_singleton_self a)
        exact absurd (congrArg Places.clearing hzero) (Nat.ne_of_gt hpos)
      have hmem : ∀ l, s.list = some l → a ∈ l := by
        intro l hlist
        have hkept := (hi.account a ha).kept (by rw [hlist]; rfl)
        have hpos : 0 < (s.places a).clearing :=
          mem_flatMap_call (f := RecipientCall.clears) hcall (List.mem_singleton_self a)
        apply List.count_pos_iff.1
        simp only [RecipientState.places, hlist, Option.getD_some] at hkept hpos
        omega
      obtain ⟨n, hopen, hcalls, hbp, hnext, hlost, hlisted, hget, hrefs⟩ := hi.clearReference hmem
      generalize s.clearReference a = t at *
      have hex : ∀ b, Exchanged (.clearing sps a) .done (s.places b)
          (((t.setCall i .done).releaseAll sps).places b) b := by
        apply Exchanged.of_set hcall
        rw [calls_releaseAll, RecipientState.setCall, hcalls]
      have hl : ∀ b, (((t.setCall i .done).releaseAll sps).places b).listed + n b =
          (s.places b).listed := by
        intro b
        rw [← hlisted b]
        simp only [RecipientState.places, list_releaseAll, RecipientState.setCall]
      have hv : ∀ b, (((t.setCall i .done).releaseAll sps).places b).vector =
          (s.places b).vector := by
        intro b
        simp only [RecipientState.places, bp_releaseAll, RecipientState.setCall, hbp]
      apply RecipientInv.keep hi
      · rw [next_releaseAll]
        exact hnext
      · intro b hb h
        have hget' : ((t.setCall i .done).releaseAll sps).jdr.get b =
            { s.jdr.get b with strong := (s.jdr.get b).strong - n b - sps.count b } := by
          rw [get_releaseAll, RecipientState.setCall, hget b]
        have hopen' : ((t.setCall i .done).releaseAll sps).list.isSome = s.list.isSome := by
          rw [list_releaseAll]
          exact hopen
        rw [hopen', hget']
        exact h.cleared (hex b) (hlost b) (hl b) (hv b)
      · intro b hb h
        obtain ⟨e1, e2, e3, e4, e5⟩ := hex b
        have hl := hl b
        have hv := hv b
        simp only [h, RecipientCall.holds, RecipientCall.links, RecipientCall.clears,
          RecipientCall.dies, RecipientCall.reports, List.count_nil] at e1 e2 e3 e4 e5 hl hv
        apply Places.ext <;> dsimp only <;> omega
      · apply RecipientState.Counted.releaseAll
        · exact hrefs
        · intro b hb
          have hlt := hi.lt_of_holds hcall hb
          refine ⟨hlt.trans_eq hnext.symm, ?_⟩
          have hstrong := (hi.account b hlt).strong
          have hle := hlisted b
          have hholders := (hex b).holders
          simp only [RecipientCall.holds, List.count_nil] at hholders
          rw [RecipientState.setCall, hget b]
          dsimp only
          omega
    | _ => exact hi

theorem RecipientInv.report (hi : RecipientInv s) (i : ℕ) : RecipientInv (s.report i) := by
  unfold RecipientState.report
  cases hcall : s.calls[i]? with
  | none => exact hi
  | some x =>
    cases x with
    | reporting l =>
      cases l with
      | nil => exact hi
      | cons ob rest =>
        dsimp only
        have hpend : 0 < (s.places ob.recipient).pending :=
          mem_flatMap_call (f := RecipientCall.reports) hcall List.mem_cons_self
        have ha : ob.recipient < s.jdr.next := by
          apply hi.born
          intro hzero
          exact absurd (congrArg Places.pending hzero) (Nat.ne_of_gt hpend)
        have hglobal := (hi.account _ ha).global_of_pending hpend
        split_ifs with hstrong
        · -- the recipient is called
          apply RecipientInv.of_call (y := .dying ob.recipient rest)
            (f := fun x => { x with strong := x.strong + 1, told := x.told + 1 }) hi ha
          · exact Exchanged.of_set hcall rfl
          · rfl
          · rfl
          · intro b hba
            refine ⟨?_, rfl⟩
            constructor <;> simp [count_of_ne hba, Ne.symm hba]
          · intro he hl h
            exact h.reported he rfl hl rfl
          · exact hi.refs.mod (a := ob.recipient)
              (f := fun x => { x with strong := x.strong + 1, told := x.told + 1 })
              (iff_of_true (Nat.succ_pos _) hstrong)
        · -- it is too late for it
          apply RecipientInv.of_call (y := .reporting rest)
            (f := fun x => { x with gone := x.gone + 1 }) hi ha
          · exact Exchanged.of_set hcall rfl
          · rfl
          · rfl
          · intro b hba
            refine ⟨?_, rfl⟩
            constructor <;> simp [Ne.symm hba]
          · intro he hl h
            exact h.missed he rfl hl rfl (Nat.eq_zero_of_not_pos hstrong)
          · exact hi.refs.mod (a := ob.recipient) (f := fun x => { x with gone := x.gone + 1 })
              Iff.rfl
    | _ => exact hi

theorem RecipientInv.demote (hi : RecipientInv s) (i : ℕ) : RecipientInv (s.demote i) := by
  unfold RecipientState.demote
  cases hcall : s.calls[i]? with
  | none => exact hi
  | some x =>
    cases x with
    | dying a rest =>
      dsimp only
      have ha := hi.lt_of_holds hcall (List.mem_singleton_self a)
      have hpos := hi.strong_pos hcall (List.mem_singleton_self a)
      split_ifs with hopen
      · apply RecipientInv.of_call (y := .reporting rest)
          (f := fun x => { x with global := false, strong := x.strong - 1 }) hi ha
        · exact Exchanged.of_set hcall rfl
        · rfl
        · exact s.jdr.modify_modify a _ fun x => { x with strong := x.strong - 1 }
        · intro b hba
          refine ⟨?_, rfl⟩
          constructor <;> simp [count_of_ne hba]
        · intro he hl h
          have hacc := h.demote he hl rfl
          rw [hopen, Bool.not_true, Bool.and_false] at hacc
          rw [hopen]
          exact hacc
        · have hmod := hi.refs.mod (a := a) (f := fun x => { x with global := false }) Iff.rfl
          apply RecipientState.Counted.release
          · exact hmod
          · exact ha
          · simp only [RecipientState.setCall, RecipientState.mod, Heap.get_modify_self]
            exact hpos
      · apply RecipientInv.of_call (y := .reporting rest)
          (f := fun x => { x with strong := x.strong - 1 }) hi ha
        · exact Exchanged.of_set hcall rfl
        · rfl
        · rfl
        · intro b hba
          refine ⟨?_, rfl⟩
          constructor <;> simp [count_of_ne hba]
        · intro he hl h
          have hacc := h.demote he hl rfl
          rw [Bool.eq_false_iff.2 hopen, Bool.not_false, Bool.and_true] at hacc
          rw [Bool.eq_false_iff.2 hopen]
          exact hacc
        · apply RecipientState.Counted.release
          · exact hi.refs
          · exact ha
          · exact hpos
    | _ => exact hi

theorem RecipientInv.finalizer (hi : RecipientInv s) : RecipientInv s.finalizer := by
  unfold RecipientState.finalizer
  cases hlist : s.list with
  | none => exact hi
  | some l =>
    dsimp only
    split_ifs
    · exact hi
    · have hlisted : ∀ b, (s.places b).listed = l.count b := by
        intro b
        simp only [RecipientState.places, hlist, Option.getD_some]
      have hplaces : ∀ b, (({ s with list := none } : RecipientState).releaseAll l).places b =
          { s.places b with listed := 0 } := by
        intro b
        simp only [RecipientState.places, list_releaseAll, calls_releaseAll, bp_releaseAll]
        rfl
      apply RecipientInv.keep hi
      · exact next_releaseAll _ l
      · intro b _ h
        have hstrong := h.strong
        rw [hlisted b] at hstrong
        rw [hplaces b, get_releaseAll, list_releaseAll]
        constructor
        · dsimp only
          omega
        · exact h.place
        · exact h.linking
        · exact h.clearing
        · exact nofun
        · exact nofun
        · exact nofun
        · exact h.demoted
      · intro b _ h
        rw [hplaces b, h]
      · apply RecipientState.Counted.releaseAll
        · exact hi.refs
        · intro b hb
          have hlt := hi.lt_of_listed hlist hb
          have hstrong := (hi.account b hlt).strong
          rw [hlisted b] at hstrong
          refine ⟨hlt, ?_⟩
          dsimp only
          omega

theorem recipientInv_reach (h : recipientMachine.Reach (fun _ _ => True) s) : RecipientInv s := by
  apply h.invariant
  · intro s hs
    rw [show s = {} from hs]
    refine ⟨fun a ha => absurd ha (Nat.not_lt_zero a), fun _ _ => rfl, ?_⟩
    rfl
  · intro s op hi _
    cases op with
    | newRecipient r flags => exact hi.newRecipient r flags
    | link i new add => exact hi.link i new add
    | findRecipient r flags => exact hi.findRecipient r flags
    | unlink i => exact hi.unlink i
    | clear i => exact hi.clear i
    | sendObituary => exact hi.sendObituary
    | lock i => exact hi.lock i
    | report i => exact hi.report i
    | demote i => exact hi.demote i
    | finalizer => exact hi.finalizer

/-! What holds of every recipient -/

structure Recipient (s : RecipientState) (a : ℕ) : Prop where
  strong : (s.jdr.get a).strong = (s.places a).listed + (s.places a).holders
  once : (s.jdr.get a).told + (s.jdr.get a).gone ≤ 1
  linked : 0 < (s.jdr.get a).told + (s.jdr.get a).gone → (s.jdr.get a).link = .linked
  weak : (s.jdr.get a).global = false → (s.jdr.get a).told = 1
  /-- As long as the proxy has the list, a link that is made keeps its recipient, -/
  kept : s.list.isSome = true → (s.jdr.get a).link = .linked → (s.places a).listed = 1
  /-- which is told of the death, or will be, -/
  told : s.list.isSome = true → (s.jdr.get a).link = .linked →
    (s.jdr.get a).gone = 0 ∧ (s.places a).vector + (s.places a).pending + (s.jdr.get a).told = 1
  /-- and does not keep the object of Java then. -/
  demoted : s.list.isSome = true → (s.jdr.get a).told = 1 →
    (s.jdr.get a).global = false ∨ (s.places a).dying = 1
  /-- One that is not linked is there only for `clearReference`. -/
  removed : s.list.isSome = true →
    (s.jdr.get a).link = .failed ∨ (s.jdr.get a).link = .unlinked →
      (s.places a).vector + (s.places a).pending = 0 ∧ (s.places a).listed = (s.places a).clearing

theorem RecipientInv.recipient (hi : RecipientInv s) (ha : a < s.jdr.next) : Recipient s a := by
  obtain ⟨h1, h2, h3, h4, h5, h6, h7, h8⟩ := hi.account a ha
  constructor
  · exact h1
  · split_ifs at h2 <;> omega
  · intro hpos
    by_contra hne
    rw [if_neg hne] at h2
    omega
  · exact h8
  · intro ho hlink
    have hkept := h5 ho
    rw [hlink] at h4 hkept
    simp only [LinkOutcome.holds] at h4 hkept
    omega
  · intro ho hlink
    have hgone := h6 ho
    rw [if_pos hlink] at h2
    omega
  · intro ho htold
    have hdying := h7 ho
    cases hglobal : (s.jdr.get a).global with
    | false => exact .inl rfl
    | true =>
      rw [hglobal, if_pos rfl] at hdying
      exact .inr (by omega)
  · intro ho hlink
    have hkept := h5 ho
    rcases hlink with hlink | hlink
    · rw [hlink] at h2 hkept
      simp at h2 hkept
      omega
    · rw [hlink] at h2 hkept
      simp at h2 hkept
      omega

/-- The recipients in every order of links, deaths and finalizers. -/
theorem recipients_reach (h : recipientMachine.Reach (fun _ _ => True) s) :
    s.gNumDeathRefs = (s.jdr.count fun x => 0 < x.strong) ∧ ∀ a < s.jdr.next, Recipient s a :=
  have hi := recipientInv_reach h
  ⟨hi.refs, fun _ ha => hi.recipient ha⟩

/-! When every call has returned -/

/-- The commands for the driver and the vector, as in the native part. -/
theorem balanced_step (h : s.bp.Balanced) (op : RecipientOp) :
    (recipientMachine.step s op).bp.Balanced := by
  cases op with
  | newRecipient r flags =>
    simp only [recipientMachine, RecipientState.newRecipient]
    split
    · exact h
    · exact h
  | link i new add =>
    simp only [recipientMachine, RecipientState.link]
    split
    · split_ifs
      · exact h.linkToDeath _ new add
      · exact h.linkToDeath _ new add
    · exact h
  | findRecipient r flags =>
    simp only [recipientMachine, RecipientState.findRecipient]
    split
    · exact h
    · exact h
  | unlink i =>
    simp only [recipientMachine, RecipientState.unlink]
    split
    · split
      · split_ifs
        · exact h.unlinkToDeath _ 0 _
        · exact h.unlinkToDeath _ 0 _
      · exact h.unlinkToDeath _ 0 _
    · exact h
  | clear i =>
    simp only [recipientMachine, RecipientState.clear, RecipientState.clearReference]
    split
    · rw [bp_releaseAll]
      split
      · split_ifs
        · exact h
        · exact h
      · exact h
    · exact h
  | sendObituary =>
    simp only [recipientMachine, RecipientState.sendObituary]
    split_ifs
    · exact h
    · exact h
  | lock i =>
    simp only [recipientMachine, RecipientState.lock]
    split
    · exact h.detach
    · exact h
  | report i =>
    simp only [recipientMachine, RecipientState.report]
    split
    · split_ifs
      · exact h
      · exact h
      · exact h
    · exact h
  | demote i =>
    simp only [recipientMachine, RecipientState.demote]
    split
    · split_ifs
      · exact h
      · exact h
    · exact h
  | finalizer =>
    simp only [recipientMachine, RecipientState.finalizer]
    split
    · split_ifs
      · exact h
      · rw [bp_releaseAll]
        exact h
    · exact h

theorem balanced_reach (h : recipientMachine.Reach (fun _ _ => True) s) : s.bp.Balanced := by
  apply h.invariant
  · intro s hs
    rw [show s = {} from hs]
    exact ⟨rfl, nofun⟩
  · intro s op hb _
    exact balanced_step hb op

def RecipientCall.returned : RecipientCall → Bool
  | done | reporting [] => true
  | _ => false

/-- It has and knows no recipient. -/
theorem RecipientCall.eq_nil_of_returned (h : x.returned = true) :
    x.holds = [] ∧ x.links = [] ∧ x.clears = [] ∧ x.dies = [] ∧ x.reports = [] := by
  cases x with
  | done => simp
  | reporting l =>
    cases l with
    | nil => simp
    | cons ob rest => cases h
  | _ => cases h

theorem count_returned {f : RecipientCall → List ℕ} (h : ∀ x ∈ s.calls, f x = []) (a : ℕ) :
    (s.calls.flatMap f).count a = 0 := by
  rw [List.count_eq_zero, List.mem_flatMap]
  rintro ⟨x, hx, ha⟩
  rw [h x hx] at ha
  cases ha

/-- When every call has returned, the recipients that are there are those of the list, which are
the linked ones; after the obituary each of them was told once and has a weak reference only.
Without the list, none is left. -/
theorem recipients_returned (h : recipientMachine.Reach (fun _ _ => True) s)
    (hdone : ∀ x ∈ s.calls, x.returned = true) :
    s.gNumDeathRefs = (s.list.getD []).length ∧
      ∀ a < s.jdr.next, (s.jdr.get a).strong = (s.list.getD []).count a ∧
        (s.list.isSome = true → ((s.jdr.get a).link = .linked ↔ a ∈ s.list.getD []) ∧
          (s.bp.mObitsSent = true → (s.jdr.get a).link = .linked →
            (s.jdr.get a).told = 1 ∧ (s.jdr.get a).global = false)) := by
  have hi := recipientInv_reach h
  have hnil := fun x hx => RecipientCall.eq_nil_of_returned (hdone x hx)
  have hholders : ∀ a, (s.places a).holders = 0 := count_returned fun x hx => (hnil x hx).1
  have hlinking : ∀ a, (s.places a).linking = 0 := count_returned fun x hx => (hnil x hx).2.1
  have hclearing : ∀ a, (s.places a).clearing = 0 := count_returned fun x hx => (hnil x hx).2.2.1
  have hdying : ∀ a, (s.places a).dying = 0 := count_returned fun x hx => (hnil x hx).2.2.2.1
  have hpending : ∀ a, (s.places a).pending = 0 := count_returned fun x hx => (hnil x hx).2.2.2.2
  have hstrong : ∀ a < s.jdr.next, (s.jdr.get a).strong = (s.list.getD []).count a := by
    intro a ha
    have hstrong := (hi.account a ha).strong
    rw [hholders a] at hstrong
    exact hstrong
  have hcount : ∀ a < s.jdr.next, s.list.isSome = true → (s.list.getD []).count a =
      if (s.jdr.get a).link = .linked then 1 else 0 := by
    intro a ha ho
    have hkept := (hi.account a ha).kept ho
    have hlink := (hi.account a ha).linking
    rw [hlinking a] at hlink
    rw [hclearing a] at hkept
    refine hkept.trans ?_
    cases hl : (s.jdr.get a).link with
    | pending =>
      rw [hl] at hlink
      cases hlink
    | failed => rfl
    | linked => rfl
    | unlinked => rfl
  refine ⟨?_, ?_⟩
  · have hborn : ∀ a ∈ s.list.getD [], a < s.jdr.next := by
      intro a ha
      apply hi.born
      intro hzero
      have hpos : 0 < (s.places a).listed := List.count_pos_iff.2 ha
      rw [hzero] at hpos
      exact absurd hpos (lt_irrefl 0)
    have hnodup : (s.list.getD []).Nodup := by
      rw [List.nodup_iff_count_le_one]
      intro a
      cases hlist : s.list with
      | none => exact Nat.zero_le 1
      | some l =>
        by_cases ha : a ∈ l
        · have hone := hcount a (hborn a (by rw [hlist]; exact ha)) (by rw [hlist]; rfl)
          rw [hlist] at hone
          rw [hone]
          split_ifs <;> omega
        · exact (List.count_eq_zero.2 ha).trans_le (Nat.zero_le 1)
    have hperm : ((List.range s.jdr.next).filter fun a => 0 < (s.jdr.get a).strong).Perm
        (s.list.getD []) := by
      rw [List.perm_ext_iff_of_nodup (List.nodup_range.filter _) hnodup]
      intro a
      simp only [List.mem_filter, List.mem_range, decide_eq_true_eq]
      constructor
      · rintro ⟨ha, hpos⟩
        rw [hstrong a ha] at hpos
        exact List.count_pos_iff.1 hpos
      · intro ha
        refine ⟨hborn a ha, ?_⟩
        rw [hstrong a (hborn a ha)]
        exact List.count_pos_iff.2 ha
    rw [hi.refs, Heap.count, List.countP_eq_length_filter, hperm.length_eq]
  · intro a ha
    refine ⟨hstrong a ha, ?_⟩
    intro ho
    refine ⟨?_, ?_⟩
    · rw [← List.count_pos_iff, hcount a ha ho]
      split_ifs with hl
      · exact iff_of_true hl Nat.one_pos
      · exact iff_of_false hl (lt_irrefl 0)
    · intro hsent hl
      have htold := ((hi.recipient ha).told ho hl).2
      have hvector : (s.places a).vector = 0 := by
        simp only [RecipientState.places, (balanced_reach h).sent hsent, Option.getD_none,
          List.map_nil, List.count_nil]
      rw [hvector, hpending a] at htold
      have hweak := (hi.recipient ha).demoted ho (by omega)
      rw [hdying a] at hweak
      exact ⟨by omega, hweak.resolve_right (by omega)⟩

end

/-- One of two recipients is unlinked, the other one is told while a thread unlinks it too. -/
def reportedRun : List RecipientOp :=
  [.newRecipient 3 0, .link 0 true true, .newRecipient 4 0, .link 1 true true, .findRecipient 3 0,
    .unlink 2, .sendObituary, .lock 3, .findRecipient 4 0, .clear 2, .report 3, .unlink 4]

def afterReported : RecipientState := recipientMachine.exec {} reportedRun

theorem reach_afterReported : recipientMachine.Reach (fun _ _ => True) afterReported := by
  apply Machine.Reach.exec (.start rfl)
  simp [reportedRun, Machine.Admits]

theorem recipients_reach_reported : Recipient afterReported 1 ∧ afterReported.gNumDeathRefs = 1 ∧
    (afterReported.jdr.get 0).strong = 0 ∧ (afterReported.jdr.get 1).told = 1 ∧
    (afterReported.places 1).dying = 1 ∧ (afterReported.jdr.get 1).strong = 2 :=
  ⟨(recipients_reach reach_afterReported).2 1 (by decide +kernel), by decide +kernel⟩

/-- The thread that tells it returns, and then the proxy is collected. -/
theorem recipients_returned_reported :
    (((recipientMachine.step afterReported (.demote 3)).jdr.get 1).told = 1 ∧
      ((recipientMachine.step afterReported (.demote 3)).jdr.get 1).global = false) ∧
    (recipientMachine.exec afterReported [.demote 3, .finalizer]).gNumDeathRefs = 0 :=
  have hcalls : recipientMachine.Admits (fun _ _ => True) afterReported [.demote 3, .finalizer] :=
    ⟨trivial, trivial, trivial⟩
  ⟨(((recipients_returned (reach_afterReported.step (.demote 3) trivial) (by decide +kernel)).2 1
      (by decide +kernel)).2 (by decide +kernel)).2 (by decide +kernel) (by decide +kernel),
    (recipients_returned (reach_afterReported.exec hcalls) (by decide +kernel)).1⟩

end Binder

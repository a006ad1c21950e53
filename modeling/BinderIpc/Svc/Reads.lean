import BinderIpc.Svc.Codec
import BinderIpc.Svc.Manager
import BinderIpc.Lib.Run

/-! What the readers of a message touch, and where the handle comes from that
`svcmgr_handler` registers. -/

namespace Binder

/-- A build's `size_t`. -/
inductive SizeT
  | bits32 | bits64
  deriving Repr, DecidableEq

/-- 2 to the width. -/
def SizeT.values : SizeT → ℕ
  | bits32 => 2 ^ 32
  | bits64 => 2 ^ 64

/-- A message that was received; its data lies in memory. -/
structure Received (w : SizeT) where
  mem : ℕ → UInt8
  dataSize : ℕ
  offs : ℕ → ℕ
  offsetsSize : ℕ
  order : ByteOrder := .little
  dataSize_lt : dataSize < w.values

def Received.bio {w : SizeT} (msg : Received w) : Bio :=
  .initFromTxn w.values msg.mem msg.offs msg.dataSize msg.offsetsSize msg.order

inductive BioGet
  | uint32 | string16 | ref
  deriving Repr, DecidableEq

namespace BioGet

variable (M : ℕ) (bio : Bio)

def next : BioGet → Bio
  | uint32 => (bio.getUint32 M).1
  | string16 => (bio.getString16 M).1
  | ref => (bio.getRef M).1

/-- The data behind the pointers that are returned or followed: where it starts, and how long it is
taken to be. -/
def regions : BioGet → List (ℕ × ℕ)
  | uint32 => ((bio.get M 4).2.map fun ptr => (ptr, 4)).toList
  | string16 => ((bio.get M 4).2.map fun ptr => (ptr, 4)).toList ++
      ((bio.getString16 M).2.2.map fun ptr => (ptr, 2 * ((bio.getString16 M).2.1 + 1))).toList
  | ref => ((bio.getObj M).2.map fun ptr => (ptr, objectSize)).toList

/-- The entry `n` of the offsets is looked at: none before it was the one. -/
def Scans (n : ℕ) : BioGet → Prop
  | ref => n < bio.offsAvail ∧ ∀ k < n, bio.offs k ≠ bio.data
  | _ => False

/-- `sizeof(binder_size_t)` -/
def offsetSize : ℕ := 8

variable {w : SizeT} (msg : Received w)

/-- Everything that is touched lies in what was received. -/
structure Inside (bio : Bio) (op : BioGet) : Prop where
  data : ∀ r ∈ op.regions w.values bio, r.1 + r.2 ≤ msg.dataSize
  offs : ∀ n, op.Scans bio n → offsetSize * (n + 1) ≤ msg.offsetsSize

/-- With a `size_t` of 32 bits: no length wraps to a size that is there, and no offset is looked for
behind the ones that were received. -/
def Fits (bio : Bio) : BioGet → Prop
  | uint32 => True
  | string16 => w = .bits32 → 4 ≤ bio.dataAvail → 2 * (bio.lenAt + 1) + 3 < 2 ^ 32 ∨
      bio.dataAvail - 4 < Bio.roundUp (2 ^ 32) ((bio.lenAt + 1) % 2 ^ 32 * 2 % 2 ^ 32)
  | ref => w = .bits32 → msg.offsetsSize < 4 ∨
      ∃ n < msg.offsetsSize / offsetSize, bio.offs n = bio.data

end BioGet

/-- The readers, in any order. -/
def bioReader (w : SizeT) (msg : Received w) : Machine Bio BioGet where
  start bio := bio = msg.bio
  step bio op := op.next w.values bio

/-! One reader -/

section

variable {w : SizeT} {msg : Received w} {bio : Bio} {M : ℕ}

/-- What the readers leave as it is. -/
structure Reading (msg : Received w) (bio : Bio) : Prop where
  room : bio.data + bio.dataAvail ≤ msg.dataSize
  offsAvail : bio.offsAvail = msg.offsetsSize / Bio.sizeofSize w.values
  offs : bio.offs = msg.offs
  mem : bio.mem = msg.mem
  order : bio.order = msg.order

theorem Reading.init (msg : Received w) : Reading msg msg.bio :=
  ⟨(Nat.zero_add _).le, rfl, rfl, rfl, rfl⟩

theorem Reading.get (h : Reading msg bio) (size : ℕ) : Reading msg (bio.get M size).1 := by
  have hroom := h.room
  rw [Bio.get_eq]
  split_ifs with hlt
  · exact ⟨(Nat.le_add_right _ _).trans hroom, h.offsAvail, h.offs, h.mem, h.order⟩
  · refine ⟨?_, h.offsAvail, h.offs, h.mem, h.order⟩
    simp only [Bio.skip]
    omega

/-- A pointer that is not null is where the reader was, with the size behind it. -/
theorem Reading.get_some (h : Reading msg bio) {size ptr : ℕ} (hp : (bio.get M size).2 = some ptr) :
    ptr = bio.data ∧ ptr + Bio.roundUp M size ≤ msg.dataSize := by
  have hroom := h.room
  rw [Bio.get_eq] at hp
  split_ifs at hp with hlt
  cases hp
  exact ⟨rfl, by omega⟩

theorem getUint32_fst : (bio.getUint32 M).1 = (bio.get M 4).1 := by
  unfold Bio.getUint32
  generalize bio.get M 4 = q
  obtain ⟨b, p⟩ := q
  cases p <;> rfl

theorem Reading.getUint32 (h : Reading msg bio) : Reading msg (bio.getUint32 M).1 := by
  rw [getUint32_fst]
  exact h.get 4

theorem Reading.getString16 (h : Reading msg bio) : Reading msg (bio.getString16 M).1 :=
  h.getUint32.get _

theorem Reading.getObj (h : Reading msg bio) : Reading msg (bio.getObj M).1 := by
  unfold Bio.getObj
  split_ifs
  · exact h.get _
  · exact ⟨(Nat.le_add_right _ _).trans h.room, h.offsAvail, h.offs, h.mem, h.order⟩

theorem Reading.next (h : Reading msg bio) (op : BioGet) : Reading msg (op.next M bio) := by
  cases op with
  | uint32 => exact h.getUint32
  | string16 => exact h.getString16
  | ref =>
    change Reading msg (bio.getRef M).1
    rw [Bio.getRef_fst]
    exact h.getObj

theorem SizeT.le_values (w : SizeT) : 2 ^ 32 ≤ w.values := by
  cases w <;> decide

/-- The size that `bio_get_string16` asks for, where nothing wraps. -/
theorem roundUp_string {len : ℕ} (h : 2 * (len + 1) + 3 < M) :
    2 * (len + 1) ≤ Bio.roundUp M ((len + 1) % M * 2 % M) := by
  rw [Bio.roundUp_units (by omega)]
  omega

/-- How `bio_get_string16` ends. -/
theorem getString16_cases (hM : 2 ^ 31 ≤ M) (bio : Bio) :
    (bio.dataAvail < 4 ∧ (bio.getString16 M).2.2 = none) ∨
      (4 ≤ bio.dataAvail ∧ (bio.getString16 M).2.1 = bio.lenAt ∧
        (bio.getString16 M).2.2 = if bio.dataAvail - 4 <
          Bio.roundUp M ((bio.lenAt + 1) % M * 2 % M) then none else some (bio.data + 4)) := by
  by_cases h4 : 4 ≤ bio.dataAvail
  · refine .inr ⟨h4, ?_⟩
    have hav : (bio.skip 4).dataAvail = bio.dataAvail - 4 := rfl
    have hlen : bio.order.word bio.mem 4 bio.data = bio.lenAt := rfl
    simp only [Bio.getString16, Bio.getUint32_some hM h4, Bio.get_eq, hav, hlen]
    refine ⟨trivial, ?_⟩
    split_ifs <;> rfl
  · refine .inl ⟨by omega, ?_⟩
    -- the length is missing, and nothing is left for the string either
    have hround : Bio.roundUp M 4 = 4 := Bio.roundUp_eq (by omega)
    have hget : bio.getUint32 M = ({ bio with dataAvail := 0, overflow := true }, 0) := by
      rw [Bio.getUint32, Bio.get_eq, hround, if_pos (by omega)]
    have htwo := Bio.roundUp_units (show 2 * 0 + 5 < M by omega)
    simp only [Bio.getString16, hget, Bio.get_eq]
    rw [if_pos (by omega)]

theorem mem_string16 {r : ℕ × ℕ} : r ∈ BioGet.string16.regions M bio ↔
    r ∈ BioGet.uint32.regions M bio ∨
      ∃ ptr, (bio.getString16 M).2.2 = some ptr ∧ r = (ptr, 2 * ((bio.getString16 M).2.1 + 1)) := by
  simp [BioGet.regions, eq_comm]

theorem Reading.uint32_inside (h : Reading msg bio) :
    ∀ r ∈ BioGet.uint32.regions w.values bio, r.1 + r.2 ≤ msg.dataSize := fun r hr => by
  have hw := w.le_values
  obtain ⟨ptr, hptr, rfl⟩ : ∃ ptr, (bio.get w.values 4).2 = some ptr ∧ (ptr, 4) = r := by
    simpa [BioGet.regions] using hr
  have hround : Bio.roundUp w.values 4 = 4 := Bio.roundUp_eq (by omega)
  have := (h.get_some hptr).2
  omega

theorem Reading.string16_inside (h : Reading msg bio) :
    BioGet.string16.Inside msg bio ↔ BioGet.string16.Fits msg bio := by
  have hw := w.le_values
  have hroom := h.room
  have hlen := bio.lenAt_lt
  rcases getString16_cases (M := w.values) (by omega) bio with ⟨h4, hnone⟩ | ⟨h4, hl, hptr⟩
  · refine iff_of_true ⟨fun r hr => ?_, fun n => False.elim⟩ fun _ hle => absurd hle (by omega)
    rcases mem_string16.1 hr with hr | ⟨ptr, hp, -⟩
    · exact h.uint32_inside r hr
    · rw [hnone] at hp
      cases hp
  · by_cases hfar : bio.dataAvail - 4 <
        Bio.roundUp w.values ((bio.lenAt + 1) % w.values * 2 % w.values)
    · -- the pointer is null
      rw [if_pos hfar] at hptr
      refine iff_of_true ⟨fun r hr => ?_, fun n => False.elim⟩ fun hb _ => .inr ?_
      · rcases mem_string16.1 hr with hr | ⟨ptr, hp, -⟩
        · exact h.uint32_inside r hr
        · rw [hptr] at hp
          cases hp
      · subst hb
        exact hfar
    · rw [if_neg hfar] at hptr
      have hregion : (bio.data + 4, 2 * (bio.lenAt + 1)) ∈ BioGet.string16.regions w.values bio :=
        mem_string16.2 (.inr ⟨_, hptr, by rw [hl]⟩)
      constructor
      · intro hin hb _
        subst hb
        have hend := hin.data _ hregion
        have hlt : msg.dataSize < 2 ^ 32 := msg.dataSize_lt
        dsimp only at hend
        exact .inl (by omega)
      · refine fun hfits => ⟨fun r hr => ?_, fun n => False.elim⟩
        rcases mem_string16.1 hr with hr | ⟨ptr, hp, rfl⟩
        · exact h.uint32_inside r hr
        · rw [hptr] at hp
          cases hp
          have hsmall : 2 * (bio.lenAt + 1) + 3 < w.values := by
            cases w with
            | bits32 => exact (hfits rfl h4).resolve_right hfar
            | bits64 =>
              have : SizeT.bits64.values = 2 ^ 64 := rfl
              omega
          have := roundUp_string hsmall
          rw [hl]
          dsimp only
          omega

/-- The scan of the offsets stays inside them exactly when it stops there. -/
theorem Reading.scan_inside (h : Reading msg bio) :
    (∀ n, BioGet.ref.Scans bio n → BioGet.offsetSize * (n + 1) ≤ msg.offsetsSize) ↔
      BioGet.ref.Fits msg bio := by
  have havail := h.offsAvail
  unfold BioGet.offsetSize
  cases w with
  | bits64 =>
    refine iff_of_true (fun n hn => ?_) (fun hb => by cases hb)
    rw [show Bio.sizeofSize SizeT.bits64.values = 8 by decide] at havail
    have := hn.1
    omega
  | bits32 =>
    rw [show Bio.sizeofSize SizeT.bits32.values = 4 by decide] at havail
    constructor
    · intro hin _
      by_contra hno
      simp only [not_or, not_exists, not_and, not_lt, BioGet.offsetSize] at hno
      -- the first entry behind those that were received
      have := hin (msg.offsetsSize / 8) ⟨by omega, fun k hk => hno.2 k hk⟩
      omega
    · rintro hfits n ⟨hn, hbefore⟩
      rcases hfits rfl with hsmall | ⟨k, hk, hoff⟩
      · omega
      · have hle : n ≤ k := by
          by_contra hlt
          exact hbefore k (by omega) hoff
        unfold BioGet.offsetSize at hk
        omega

theorem Reading.ref_inside (h : Reading msg bio) :
    BioGet.ref.Inside msg bio ↔ BioGet.ref.Fits msg bio := by
  refine ⟨fun hin => h.scan_inside.1 hin.offs, fun hfits => ⟨fun r hr => ?_, h.scan_inside.2 hfits⟩⟩
  obtain ⟨ptr, hptr, rfl⟩ : ∃ ptr, (bio.getObj w.values).2 = some ptr ∧ (ptr, objectSize) = r := by
    simpa [BioGet.regions] using hr
  unfold Bio.getObj at hptr
  split_ifs at hptr
  have hround : Bio.roundUp w.values objectSize = objectSize := by
    have := w.le_values
    exact Bio.roundUp_eq (lt_of_lt_of_le (by decide) this)
  have := (h.get_some hptr).2
  omega

theorem Reading.inside_iff (h : Reading msg bio) (op : BioGet) :
    op.Inside msg bio ↔ op.Fits msg bio := by
  cases op with
  | uint32 => exact iff_of_true ⟨h.uint32_inside, fun n => False.elim⟩ trivial
  | string16 => exact h.string16_inside
  | ref => exact h.ref_inside

/-! Any number of readers -/

theorem Reading.admits_iff (h : Reading msg bio) (ops : List BioGet) :
    (bioReader w msg).Admits (fun bio op => op.Inside msg bio) bio ops ↔
      (bioReader w msg).Admits (fun bio op => op.Fits msg bio) bio ops := by
  induction ops generalizing bio with
  | nil => exact Iff.rfl
  | cons op ops ih => exact and_congr (h.inside_iff op) (ih (h.next op))

end

/-- Whatever is read of a message lies in it, exactly when no length wraps and no offset is looked for
behind those that came. -/
theorem reads_inside_iff (w : SizeT) (msg : Received w) (ops : List BioGet) :
    (bioReader w msg).Admits (fun bio op => op.Inside msg bio) msg.bio ops ↔
      (bioReader w msg).Admits (fun bio op => op.Fits msg bio) msg.bio ops :=
  (Reading.init msg).admits_iff ops

/-- With a `size_t` of 64 bits nothing has to be assumed. -/
theorem reads_inside_64 (msg : Received .bits64) (ops : List BioGet) :
    (bioReader .bits64 msg).Admits (fun bio op => op.Inside msg bio) msg.bio ops := by
  have hfits : ∀ (op : BioGet) (bio : Bio), op.Fits msg bio := fun op bio => by
    cases op with
    | uint32 => trivial
    | string16 => exact fun hb => by cases hb
    | ref => exact fun hb => by cases hb
  have hall : ∀ bio, (bioReader .bits64 msg).Admits (fun bio op => op.Fits msg bio) bio ops := by
    induction ops with
    | nil => exact fun _ => trivial
    | cons op ops ih => exact fun bio => ⟨hfits op bio, ih _⟩
  exact (reads_inside_iff .bits64 msg ops).2 (hall _)

/-- Four bytes that state a string of 2^32 - 1 units. -/
def hugeString : Received .bits32 where
  mem _ := 0xff
  dataSize := 4
  offs _ := 0
  offsetsSize := 0
  dataSize_lt := by decide

theorem huge_string_outside :
    ¬(bioReader .bits32 hugeString).Admits (fun bio op => op.Inside hugeString bio) hugeString.bio
      [.string16] := by
  intro h
  have hin := h.1.data (4, 2 * (2 ^ 32 - 1 + 1)) (by decide +kernel)
  revert hin
  decide +kernel

/-! The handle of `do_add_service` -/

/-- What `svcmgr_handler` answers after it has called `do_add_service` with these arguments. -/
def addResult (m : SvcMgr) (env : MacEnv) (malloc : Bool) (txn : SvcTxn) (s : List ℕ) (handle : ℕ)
    (allowIsolated : Bool) : SvcResult :=
  let (m, ok, calls) := doAddService m env malloc s handle txn.senderEuid allowIsolated txn.senderPid
  { mgr := m
    reply := if ok then .uint32 0 else .status true
    calls := .doAddService txn.senderPid handle :: calls }

/-- Where the name lies: behind the policy and the name of the interface. -/
def nameStart : ℕ := 4 + (4 + Bio.stringTake svcmgrId.length)

/-- The handle of an object that the offsets list and that follows the name `s`. -/
structure GenuineHandle (msg : Received .bits64) (s : List ℕ) (handle obj : ℕ) : Prop where
  name_length : msg.order.word msg.mem 4 nameStart = s.length
  name : s = msg.bio.string16 (nameStart + 4) s.length
  follows : obj = nameStart + 4 + Bio.roundUp (2 ^ 64) (2 * (s.length + 1))
  listed : ∃ n < msg.offsetsSize / BioGet.offsetSize, msg.offs n = obj
  inside : obj + objectSize ≤ msg.dataSize
  type : msg.order.word msg.mem 4 obj = ObjectType.handle.code
  handle : handle = msg.order.word msg.mem 4 (obj + 8)

section

variable {M ptr : ℕ} {bio : Bio} {m : SvcMgr} {env : MacEnv} {malloc : Bool} {txn : SvcTxn}

/-- A string that was found. -/
theorem getString16_found (hM : 2 ^ 34 ≤ M) (h : (bio.getString16 M).2.2 = some ptr) :
    4 + Bio.stringTake bio.lenAt ≤ bio.dataAvail ∧ bio.getString16 M =
      (bio.skip (4 + Bio.stringTake bio.lenAt), bio.lenAt, some (bio.data + 4)) := by
  have hlt := bio.lenAt_lt
  rcases getString16_cases (M := M) (by omega) bio with ⟨-, hnone⟩ | ⟨h4, -, hptr⟩
  · rw [hnone] at h
    cases h
  · have hround := Bio.roundUp_units (show 2 * bio.lenAt + 5 < M by omega)
    rw [hptr] at h
    split_ifs at h with hfar
    have hlen : bio.order.word bio.mem 4 bio.data = bio.lenAt := rfl
    have hav : (bio.skip 4).dataAvail = bio.dataAvail - 4 := rfl
    refine ⟨by unfold Bio.stringTake; omega, ?_⟩
    simp only [Bio.getString16, Bio.getUint32_some (show 2 ^ 31 ≤ M by omega) h4, hlen]
    rw [Bio.get_eq, hav, if_neg hfar, hround, Bio.skip_skip]
    rfl

/-- A handle is taken from an object at a listed offset. -/
theorem getRef_found (hM : 2 ^ 31 ≤ M) (h : (bio.getRef M).2 ≠ 0) :
    objectSize ≤ bio.dataAvail ∧ (∃ n < bio.offsAvail, bio.offs n = bio.data) ∧
      bio.order.word bio.mem 4 bio.data = ObjectType.handle.code ∧
      (bio.getRef M).2 = bio.order.word bio.mem 4 (bio.data + 8) := by
  have hround : Bio.roundUp M objectSize = objectSize := Bio.roundUp_eq (lt_of_lt_of_le (by decide) hM)
  by_cases hoff : ∃ n < bio.offsAvail, bio.offs n = bio.data
  · by_cases hle : objectSize ≤ bio.dataAvail
    · rw [Bio.getRef_some hM hle hoff] at h ⊢
      dsimp only at h ⊢
      split_ifs at h ⊢ with htype
      · exact ⟨hle, hoff, htype, rfl⟩
      · exact absurd rfl h
    · refine absurd ?_ h
      rw [Bio.getRef, Bio.getObj, if_pos (by simpa using hoff), Bio.get_eq, if_pos (by omega)]
  · refine absurd ?_ h
    rw [Bio.getRef, Bio.getObj, if_neg (by simpa using hoff)]

theorem checkMacPermsFromLookup_adds {spid uid pid h : ℕ} {perm : MacPerm} {name : List ℕ} :
    .doAddService pid h ∉ (checkMacPermsFromLookup env spid uid perm name).2 := by
  unfold checkMacPermsFromLookup
  split <;> simp [checkMacPerms]

theorem svcCanRegister_adds {spid uid pid h : ℕ} {name : List ℕ} :
    .doAddService pid h ∉ (svcCanRegister env name spid uid).2 := by
  unfold svcCanRegister
  split
  · simp
  · exact checkMacPermsFromLookup_adds

/-- `do_add_service` does not call itself. -/
theorem doAddService_adds {s : List ℕ} {handle uid spid pid h : ℕ} {allowIsolated : Bool} :
    .doAddService pid h ∉ (doAddService m env malloc s handle uid allowIsolated spid).2.2 := by
  have hreg := @svcCanRegister_adds env spid uid pid h s
  unfold doAddService
  split
  · simp
  · cases hr : svcCanRegister env s spid uid with
    | mk ok calls =>
      rw [hr] at hreg
      cases ok with
      | false => exact hreg
      | true =>
        dsimp only
        cases m.findSvc s with
        | some si => exact hreg
        | none => cases malloc <;> exact hreg

theorem addResult_adds {s : List ℕ} {handle pid h : ℕ} {allowIsolated : Bool}
    (hcall : .doAddService pid h ∈ (addResult m env malloc txn s handle allowIsolated).calls) :
    h = handle := by
  rcases List.mem_cons.1 hcall with heq | hmem
  · cases heq
    rfl
  · exact absurd hmem doAddService_adds

theorem getService_adds (pid h : ℕ) : .doAddService pid h ∉ (getService M m env txn bio).calls := by
  unfold getService
  split
  · simp
  · simp only [List.mem_cons, reduceCtorEq, false_or]
    unfold doFindService
    split
    · simp
    · dsimp only
      split_ifs
      · simp
      · simp
      · exact checkMacPermsFromLookup_adds
      · exact checkMacPermsFromLookup_adds

theorem listServices_adds (pid h : ℕ) :
    .doAddService pid h ∉ (listServices M m env txn bio).calls := by
  simp [listServices, svcCanList, checkMacPermsFromGetcon, checkMacPerms]

/-- The fields that `SVC_MGR_ADD_SERVICE` reads. -/
theorem addService_cases (bio : Bio) (hM : 2 ^ 34 ≤ M) :
    addService M m env malloc txn bio = { mgr := m } ∨
      (4 + Bio.stringTake bio.lenAt ≤ bio.dataAvail ∧
        ∃ allowIsolated, addService M m env malloc txn bio = addResult m env malloc txn
          ((bio.skip (4 + Bio.stringTake bio.lenAt)).string16 (bio.data + 4) bio.lenAt)
          ((bio.skip (4 + Bio.stringTake bio.lenAt)).getRef M).2 allowIsolated) := by
  cases hptr : (bio.getString16 M).2.2 with
  | none =>
    left
    unfold addService
    generalize bio.getString16 M = q at hptr
    obtain ⟨b, len, p⟩ := q
    cases hptr
    rfl
  | some ptr =>
    obtain ⟨hle, heq⟩ := getString16_found hM hptr
    exact .inr ⟨hle, (((bio.skip (4 + Bio.stringTake bio.lenAt)).getRef M).1.getUint32 M).2 ≠ 0,
      by rw [addService, heq]; rfl⟩

/-- What the handler has read when it comes to the request. -/
theorem svcmgrHandler_cases (bio : Bio) (hM : 2 ^ 34 ≤ M) :
    (∀ pid h, .doAddService pid h ∉ (svcmgrHandler M m env malloc txn bio).calls) ∨
      (nameStart ≤ bio.dataAvail ∧ svcmgrHandler M m env malloc txn bio =
        addService M m env malloc txn (bio.skip nameStart)) := by
  unfold svcmgrHandler
  by_cases htarget : txn.target ≠ 0
  · rw [if_pos htarget]
    simp
  by_cases hping : txn.code = pingTransaction
  · rw [if_neg htarget, if_pos hping]
    simp
  rw [if_neg htarget, if_neg hping]
  by_cases h4 : 4 ≤ bio.dataAvail
  · rw [Bio.getUint32_some (by omega) h4]
    dsimp only
    cases hptr : ((bio.skip 4).getString16 M).2.2 with
    | none =>
      left
      generalize (bio.skip 4).getString16 M = q at hptr
      obtain ⟨b, len, p⟩ := q
      cases hptr
      simp
    | some ptr =>
      obtain ⟨hle, heq⟩ := getString16_found hM hptr
      rw [heq]
      dsimp only
      split_ifs with hid
      · simp
      · exact .inl getService_adds
      · right
        have hlen : (bio.skip 4).lenAt = svcmgrId.length := by
          by_contra hne
          exact hid (.inl hne)
        rw [hlen] at hle ⊢
        have hav : (bio.skip 4).dataAvail = bio.dataAvail - 4 := rfl
        rw [Bio.skip_skip]
        exact ⟨by unfold nameStart; omega, rfl⟩
      · exact .inl listServices_adds
      · simp
  · left
    have hround : Bio.roundUp M 4 = 4 := Bio.roundUp_eq (by omega)
    have hget : bio.getUint32 M = ({ bio with dataAvail := 0, overflow := true }, 0) := by
      rw [Bio.getUint32, Bio.get_eq, hround, if_pos (by omega)]
    rw [hget]
    dsimp only
    rcases getString16_cases (M := M) (by omega)
      { bio with dataAvail := 0, overflow := true } with ⟨-, hnone⟩ | ⟨h4, -⟩
    · generalize Bio.getString16 M { bio with dataAvail := 0, overflow := true } = q at hnone
      obtain ⟨b, len, p⟩ := q
      cases hnone
      simp
    · cases h4

/-- A handle that `svcmgr_handler` calls `do_add_service` with is the one of an object that the
offsets list, right behind the name. -/
theorem add_handle_genuine (msg : Received .bits64) (m : SvcMgr) (env : MacEnv) (malloc : Bool)
    (txn : SvcTxn) :
    (∀ pid h, .doAddService pid h ∉ (svcmgrHandler (2 ^ 64) m env malloc txn msg.bio).calls) ∨
      ∃ s handle allowIsolated, svcmgrHandler (2 ^ 64) m env malloc txn msg.bio =
          addResult m env malloc txn s handle allowIsolated ∧
        (∀ pid h, .doAddService pid h ∈ (svcmgrHandler (2 ^ 64) m env malloc txn msg.bio).calls →
          h = handle) ∧
        (handle ≠ 0 → ∃ obj, GenuineHandle msg s handle obj) := by
  rcases svcmgrHandler_cases msg.bio (show 2 ^ 34 ≤ 2 ^ 64 by norm_num) with hno | ⟨hle, heq⟩
  · exact .inl hno
  obtain ⟨bio, hbio⟩ : ∃ bio, bio = msg.bio.skip nameStart := ⟨_, rfl⟩
  rw [heq, ← hbio]
  rcases addService_cases bio (show 2 ^ 34 ≤ 2 ^ 64 by norm_num) with hnone | ⟨hlen, allowIsolated, hadd⟩
  · left
    rw [hnone]
    simp
  · refine .inr ⟨_, _, allowIsolated, hadd, fun pid h hcall => addResult_adds (hadd ▸ hcall),
      fun hne => ⟨nameStart + (4 + Bio.stringTake bio.lenAt), ?_⟩⟩
    obtain ⟨hobj, hlisted, htype, hhandle⟩ := getRef_found (by norm_num) hne
    have hlt := bio.lenAt_lt
    have hround : Bio.roundUp (2 ^ 64) (2 * (bio.lenAt + 1)) = Bio.stringTake bio.lenAt :=
      Bio.roundUp_eq (by omega)
    have hpos : (bio.skip (4 + Bio.stringTake bio.lenAt)).data =
        nameStart + (4 + Bio.stringTake bio.lenAt) := by
      rw [hbio]
      change 0 + nameStart + _ = _
      rw [Nat.zero_add]
    have hname : ((bio.skip (4 + Bio.stringTake bio.lenAt)).string16 (bio.data + 4)
        bio.lenAt).length = bio.lenAt := by simp [Bio.string16]
    have hstart : bio.data = nameStart := by
      rw [hbio]
      exact Nat.zero_add _
    have hav : bio.dataAvail = msg.dataSize - nameStart := by rw [hbio]; rfl
    have hav' : (bio.skip (4 + Bio.stringTake bio.lenAt)).dataAvail =
        bio.dataAvail - (4 + Bio.stringTake bio.lenAt) := rfl
    have hle' : nameStart ≤ msg.dataSize := hle
    have hlen' : bio.lenAt = msg.order.word msg.mem 4 nameStart := by
      rw [Bio.lenAt, hstart, hbio]
      rfl
    rw [hpos] at hlisted htype hhandle
    rw [hbio] at htype hhandle hlisted
    refine ⟨?_, ?_, ?_, ?_, by omega, ?_, ?_⟩
    · rw [hname, hlen']
    · rw [hname, hstart, hbio]
      rfl
    · rw [hname, hround]
      omega
    · rw [hbio]
      exact hlisted
    · rw [hbio]
      exact htype
    · rw [hbio]
      exact hhandle

end

end Binder

import BinderIpc.Svc.Reads

/-! Where the writers of a message write. Addresses count from the start of the
buffer that `bio_init` was given: first the entries of the offsets, then the data. -/

namespace Binder

/-- `bio_put_obj` -/
def Bio.putObj (M : ℕ) (bio : Bio) (ptr : ℕ) : Bio :=
  match bio.allocObj M with
  | (bio, some obj) =>
    (((bio.write (obj + 4) (bio.order.bytes 4 Bio.refFlags)).write obj
      (bio.order.bytes 4 ObjectType.binder.code)).write (obj + 8) (bio.order.bytes 8 ptr)).write
      (obj + 16) (bio.order.bytes 8 0)
  | (bio, none) => bio

inductive BioPut
  | item (x : BioItem) | obj (ptr : ℕ)
  deriving Repr, DecidableEq

def BioPut.put (M : ℕ) (bio : Bio) : BioPut → Bio
  | item x => x.put M bio
  | obj ptr => bio.putObj M ptr

/-- A call of `bio_alloc`, or of `bio_alloc_obj`. -/
inductive Take
  | data (size : ℕ) | object
  deriving Repr, DecidableEq

namespace Take

variable (M : ℕ) (bio : Bio)

def alloc : Take → Bio × Option ℕ
  | data size => bio.alloc M size
  | object => bio.allocObj M

/-- What is written behind the pointer. -/
def size : Take → ℕ
  | data size => size
  | object => objectSize

end Take

/-- The calls that a writer makes. -/
def BioPut.takes : BioPut → List Take
  | item (.uint32 _) => [.data 4]
  | item (.string16 str) | item (.string16X str) =>
    .data 4 :: ((BioItem.body (str.map (List.takeWhile (· ≠ 0)))).map fun s =>
      Take.data (2 * (s.length + 1))).toList
  | item (.ref handle) => [if handle ≠ 0 then .object else .data objectSize]
  | obj _ => [.object]

/-- The bytes that `bio_init` sets aside for the offsets. -/
def reserved (w : SizeT) (maxoffs : ℕ) : ℕ := maxoffs * Bio.sizeofSize w.values % w.values

section

variable (w : SizeT) (maxdata maxoffs : ℕ)

/-- What is written by one call lies where it belongs; a lack of room is noted. -/
structure Take.Inside (bio : Bio) (x : Take) : Prop where
  data : ∀ ptr, (x.alloc w.values bio).2 = some ptr → reserved w maxoffs + ptr + x.size ≤ maxdata
  entry : x = .object → (x.alloc w.values bio).2 ≠ none → bio.offsUsed < maxoffs ∧
    BioGet.offsetSize * (bio.offsUsed + 1) ≤ reserved w maxoffs
  full : (x.alloc w.values bio).2 = none → (x.alloc w.values bio).1.overflow = true
  stays : bio.overflow = true → (x.alloc w.values bio).1.overflow = true

/-- The next entry of the offsets, if there is to be one, lies in what is set aside. -/
def Take.Fits (bio : Bio) : Take → Prop
  | data _ => True
  | object => objectSize ≤ bio.dataAvail → 0 < bio.offsAvail →
      BioGet.offsetSize * (bio.offsUsed + 1) ≤ reserved w maxoffs

/-- The calls of one writer, in their order. -/
def taker : Machine Bio Take where
  start _ := True
  step bio x := (x.alloc w.values bio).1

/-- Every call of a writer keeps to its place, and so do the bytes and the entries that change; the
flag is what the calls make of it. -/
structure BioPut.Inside (bio : Bio) (op : BioPut) : Prop where
  calls : (taker w).Admits (Take.Inside w maxdata maxoffs) bio op.takes
  noted : (op.put w.values bio).overflow = ((taker w).exec bio op.takes).overflow
  bytes : ∀ i, (op.put w.values bio).mem i ≠ bio.mem i → reserved w maxoffs + i < maxdata
  entries : ∀ n, (op.put w.values bio).offs n ≠ bio.offs n →
    BioGet.offsetSize * (n + 1) ≤ reserved w maxoffs

abbrev BioPut.Fits (bio : Bio) (op : BioPut) : Prop :=
  (taker w).Admits (Take.Fits w maxoffs) bio op.takes

/-- The writers, in any order, from `bio_init` on. -/
def bioWriter (stack : ℕ → UInt8) (order : ByteOrder) : Machine Bio BioPut where
  start bio := bio = .init w.values stack maxdata maxoffs order
  step bio op := op.put w.values bio

end

/-! One call -/

section

variable {w : SizeT} {maxdata maxoffs M : ℕ} {bio b : Bio}

/-- What the writers keep; without room nothing is known of the pointers. -/
structure Putting (w : SizeT) (maxdata maxoffs : ℕ) (bio : Bio) : Prop where
  room : 0 < bio.dataAvail → reserved w maxoffs + bio.data + bio.dataAvail ≤ maxdata
  entries : 0 < bio.dataAvail → bio.offsUsed + bio.offsAvail = maxoffs

theorem Putting.init (stack : ℕ → UInt8) (order : ByteOrder) :
    Putting w maxdata maxoffs (.init w.values stack maxdata maxoffs order) := by
  unfold Bio.init
  dsimp only
  split_ifs with hlt
  · exact ⟨fun h => absurd h (lt_irrefl 0), fun h => absurd h (lt_irrefl 0)⟩
  · refine ⟨fun _ => ?_, fun _ => Nat.zero_add _⟩
    unfold reserved
    dsimp only
    omega

theorem allocObj_eq (M : ℕ) (bio : Bio) : bio.allocObj M =
    if bio.dataAvail < Bio.roundUp M objectSize then ({ bio with overflow := true }, none)
    else if bio.offsAvail = 0 then
      ({ bio.skip (Bio.roundUp M objectSize) with overflow := true }, none)
    else ({ bio.skip (Bio.roundUp M objectSize) with
      offsAvail := bio.offsAvail - 1
      offs := fun n => if n = bio.offsUsed then bio.data else bio.offs n
      offsUsed := bio.offsUsed + 1 }, some bio.data) := by
  unfold Bio.allocObj
  rw [Bio.alloc_eq]
  split_ifs with hlt hnone
  · rfl
  · exact if_pos hnone
  · exact if_neg hnone

/-- A size that is asked for is not 0, and far from wrapping. -/
def Take.Modest (x : Take) : Prop := 0 < x.size ∧ x.size ≤ 2 ^ 30

theorem Take.roundUp_size {x : Take} (hx : x.Modest) :
    x.size ≤ Bio.roundUp w.values x.size := by
  have hw := w.le_values
  have hsize := hx.2
  rw [Bio.roundUp_eq (by omega)]
  omega

theorem modest_object : Take.object.Modest := ⟨by decide, by decide⟩

theorem BioPut.modest (op : BioPut) {x : Take} (hx : x ∈ op.takes) : x.Modest := by
  have hfour : (Take.data 4).Modest := ⟨by decide, by decide⟩
  have hstring : ∀ str : Option (List ℕ), x ∈ Take.data 4 ::
      ((BioItem.body (str.map (List.takeWhile (· ≠ 0)))).map fun s =>
        Take.data (2 * (s.length + 1))).toList → x.Modest := fun str hx => by
    rcases List.mem_cons.1 hx with rfl | hx
    · exact hfour
    · obtain ⟨s, hs, rfl⟩ := Option.map_eq_some_iff.1 (Option.mem_toList.1 hx)
      have hlen : s.length < Bio.maxBioSize / 2 := by
        simpa using (Option.filter_eq_some_iff.1 hs).2
      unfold Bio.maxBioSize at hlen
      exact ⟨Nat.mul_pos (by decide) (Nat.succ_pos _), by change 2 * (s.length + 1) ≤ _; omega⟩
  cases op with
  | obj ptr =>
    cases List.mem_singleton.1 hx
    exact modest_object
  | item y =>
    cases y with
    | uint32 n =>
      cases List.mem_singleton.1 hx
      exact hfour
    | string16 str => exact hstring str hx
    | string16X str => exact hstring str hx
    | ref handle =>
      have hx := List.mem_singleton.1 hx
      split_ifs at hx <;> subst hx
      · exact modest_object
      · exact ⟨by decide, by decide⟩

theorem Putting.alloc (h : Putting w maxdata maxoffs bio) (x : Take) :
    Putting w maxdata maxoffs (x.alloc w.values bio).1 := by
  have hroom := h.room
  have hentries := h.entries
  cases x with
  | data size =>
    rw [Take.alloc, Bio.alloc_eq]
    split_ifs
    · exact ⟨hroom, hentries⟩
    · refine ⟨fun hpos => ?_, fun hpos => hentries ?_⟩ <;> dsimp only at hpos ⊢ <;> omega
  | object =>
    rw [Take.alloc, allocObj_eq]
    split_ifs
    · exact ⟨hroom, hentries⟩
    · refine ⟨fun hpos => ?_, fun hpos => hentries ?_⟩ <;> dsimp only [Bio.skip] at hpos ⊢ <;> omega
    · refine ⟨fun hpos => ?_, fun hpos => ?_⟩ <;> dsimp only [Bio.skip] at hpos ⊢ <;> omega

theorem Putting.inside_iff (h : Putting w maxdata maxoffs bio) {x : Take} (hx : x.Modest) :
    x.Inside w maxdata maxoffs bio ↔ x.Fits w maxoffs bio := by
  have hroom := h.room
  have hentries := h.entries
  have hround := Take.roundUp_size (w := w) hx
  have hpos := hx.1
  cases x with
  | data size =>
    refine iff_of_true ?_ trivial
    change size ≤ Bio.roundUp w.values size at hround
    change 0 < size at hpos
    refine ⟨fun ptr hptr => ?_, (fun hf => by cases hf), fun hnone => ?_, fun hover => ?_⟩
    · rw [Take.alloc, Bio.alloc_eq] at hptr
      split_ifs at hptr
      cases hptr
      change reserved w maxoffs + bio.data + size ≤ maxdata
      omega
    · rw [Take.alloc, Bio.alloc_eq] at hnone ⊢
      split_ifs at hnone ⊢
      rfl
    · rw [Take.alloc, Bio.alloc_eq]
      split_ifs
      · rfl
      · exact hover
  | object =>
    have hsize : Bio.roundUp w.values objectSize = objectSize := by
      have hw := w.le_values
      exact Bio.roundUp_eq (lt_of_lt_of_le (by decide) hw)
    have hobj : 0 < objectSize := by decide
    constructor
    · intro hin hle hfree
      refine (hin.entry rfl ?_).2
      rw [Take.alloc, allocObj_eq, if_neg (by omega), if_neg (by omega)]
      exact Option.some_ne_none _
    · refine fun hfits => ⟨fun ptr hptr => ?_, fun _ hsome => ?_, fun hnone => ?_, fun hover => ?_⟩
      · rw [Take.alloc, allocObj_eq] at hptr
        split_ifs at hptr
        cases hptr
        change reserved w maxoffs + bio.data + objectSize ≤ maxdata
        omega
      · rw [Take.alloc, allocObj_eq] at hsome
        split_ifs at hsome with hlt hnone
        · exact absurd rfl hsome
        · exact absurd rfl hsome
        · exact ⟨by omega, hfits (by omega) (by omega)⟩
      · rw [Take.alloc, allocObj_eq] at hnone ⊢
        split_ifs at hnone ⊢
        · rfl
        · rfl
      · rw [Take.alloc, allocObj_eq]
        split_ifs
        · rfl
        · rfl
        · exact hover

theorem Putting.admits_iff (h : Putting w maxdata maxoffs bio) {l : List Take}
    (hl : ∀ x ∈ l, x.Modest) :
    (taker w).Admits (Take.Inside w maxdata maxoffs) bio l ↔
      (taker w).Admits (Take.Fits w maxoffs) bio l := by
  induction l generalizing bio with
  | nil => exact Iff.rfl
  | cons x l ih =>
    exact and_congr (h.inside_iff (hl x (by simp))) (ih (h.alloc x) fun y hy => hl y (by simp [hy]))

theorem Putting.exec (h : Putting w maxdata maxoffs bio) (l : List Take) :
    Putting w maxdata maxoffs ((taker w).exec bio l) := by
  induction l generalizing bio with
  | nil => exact h
  | cons x l ih => exact ih (h.alloc x)

/-! The writers -/

/-- The places that are written behind the pointers, each with its size. -/
def written (w : SizeT) : Bio → List Take → List (ℕ × ℕ)
  | _, [] => []
  | bio, x :: l => ((x.alloc w.values bio).2.map (·, x.size)).toList ++
      written w (x.alloc w.values bio).1 l

theorem written_append (l l' : List Take) (bio : Bio) : written w bio (l ++ l') =
    written w bio l ++ written w ((taker w).exec bio l) l' := by
  induction l generalizing bio with
  | nil => rfl
  | cons x l ih =>
    simp only [List.cons_append, written, ih, List.append_assoc]
    rfl

theorem alloc_mem (x : Take) (bio : Bio) (mem : ℕ → UInt8) :
    x.alloc M { bio with mem := mem } = ({ (x.alloc M bio).1 with mem := mem }, (x.alloc M bio).2) := by
  cases x with
  | data size =>
    rw [Take.alloc, Take.alloc, Bio.alloc_eq, Bio.alloc_eq]
    split_ifs <;> rfl
  | object =>
    rw [Take.alloc, Take.alloc, allocObj_eq, allocObj_eq]
    split_ifs <;> rfl

theorem taker_mem (l : List Take) (bio : Bio) (mem : ℕ → UInt8) :
    (taker w).exec { bio with mem := mem } l = { (taker w).exec bio l with mem := mem } ∧
      written w { bio with mem := mem } l = written w bio l := by
  induction l generalizing bio with
  | nil => exact ⟨rfl, rfl⟩
  | cons x l ih =>
    obtain ⟨h1, h2⟩ := ih (x.alloc w.values bio).1
    simp only [Machine.exec, List.foldl_cons, taker, written, alloc_mem] at h1 ⊢
    exact ⟨h1, by rw [h2]⟩

/-- What a writer does: its calls, and what it writes behind their pointers. -/
structure Writer (w : SizeT) (bio : Bio) (l : List Take) (b : Bio) : Prop where
  space : ∃ mem, b = { (taker w).exec bio l with mem := mem }
  bytes : ∀ i, b.mem i ≠ bio.mem i → ∃ r ∈ written w bio l, r.1 ≤ i ∧ i < r.1 + r.2

theorem Writer.append {c : Bio} {l l' : List Take} (h : Writer w bio l b) (h' : Writer w b l' c) :
    Writer w bio (l ++ l') c := by
  obtain ⟨mem, hb⟩ := h.space
  obtain ⟨mem', hc⟩ := h'.space
  obtain ⟨hexec, hwritten⟩ := taker_mem (w := w) l' ((taker w).exec bio l) mem
  rw [← hb] at hexec hwritten
  refine ⟨⟨mem', ?_⟩, fun i hi => ?_⟩
  · rw [hc, hexec, Machine.exec, Machine.exec, Machine.exec, List.foldl_append]
  · rw [written_append]
    by_cases hbi : b.mem i = bio.mem i
    · obtain ⟨r, hr, hin⟩ := h'.bytes i fun he => hi (he.trans hbi)
      rw [hwritten] at hr
      exact ⟨r, List.mem_append_right _ hr, hin⟩
    · obtain ⟨r, hr, hin⟩ := h.bytes i hbi
      exact ⟨r, List.mem_append_left _ hr, hin⟩

theorem store_changed {mem : ℕ → UInt8} {ptr i : ℕ} {bs : List UInt8}
    (h : store mem ptr bs i ≠ mem i) : ptr ≤ i ∧ i < ptr + bs.length := by
  by_contra hno
  refine h ?_
  unfold store
  split_ifs with hle
  · rw [List.getD_eq_getElem?_getD, List.getElem?_eq_none (by omega)]
    rfl
  · rfl

/-- One call, and what is written behind its pointer. -/
theorem writer_fill (x : Take) (bio : Bio) {g : Bio → ℕ → ℕ → UInt8}
    (hg : ∀ c ptr i, g c ptr i ≠ c.mem i → ptr ≤ i ∧ i < ptr + x.size) :
    Writer w bio [x] (match x.alloc w.values bio with
      | (c, some ptr) => { c with mem := g c ptr }
      | (c, none) => c) := by
  have hmem : (x.alloc w.values bio).1.mem = bio.mem :=
    congrArg (fun q : Bio × Option ℕ => q.1.mem) (alloc_mem x bio bio.mem)
  have hexec : (taker w).exec bio [x] = (x.alloc w.values bio).1 := rfl
  have hwritten : written w bio [x] = ((x.alloc w.values bio).2.map (·, x.size)).toList :=
    List.append_nil _
  rcases heq : x.alloc w.values bio with ⟨c, p⟩
  rw [heq] at hmem hexec hwritten
  cases p with
  | none => exact ⟨⟨c.mem, by rw [hexec]⟩, fun i hi => absurd (congrFun hmem i) hi⟩
  | some ptr =>
    refine ⟨⟨g c ptr, by rw [hexec]⟩, fun i hi => ⟨(ptr, x.size), ?_, hg c ptr i ?_⟩⟩
    · simp [hwritten]
    · rwa [hmem]

/-- An object is filled in. -/
theorem write_object {ptr i : ℕ} {b1 b2 b3 b4 : List UInt8} (h1 : b1.length = 4)
    (h2 : b2.length = 4) (h3 : b3.length ≤ 8) (h4 : b4.length = 8) {mem : ℕ → UInt8}
    (hi : store (store (store (store mem (ptr + 4) b1) ptr b2) (ptr + 8) b3) (ptr + 16) b4 i ≠ mem i) :
    ptr ≤ i ∧ i < ptr + objectSize := by
  have hsize : objectSize = 24 := rfl
  by_contra hno
  have hout : ∀ (mem : ℕ → UInt8) (k : ℕ) (bs : List UInt8), k + bs.length ≤ 24 →
      store mem (ptr + k) bs i = mem i := fun mem k bs hk => by
    by_contra hne
    have := store_changed hne
    omega
  have hfirst : store (store mem (ptr + 4) b1) ptr b2 i = store mem (ptr + 4) b1 i :=
    hout _ 0 b2 (by omega)
  rw [hout _ 16 b4 (by omega), hout _ 8 b3 (by omega), hfirst, hout _ 4 b1 (by omega)] at hi
  exact hi rfl

theorem putUint32_writer (bio : Bio) (n : ℕ) :
    Writer w bio [.data 4] (bio.putUint32 w.values n) := by
  refine writer_fill (.data 4) bio (g := fun c ptr => store c.mem ptr (c.order.bytes 4 n))
    fun c ptr i hi => ?_
  have hlen := c.order.length_bytes 4 n
  have := store_changed hi
  rwa [hlen] at this

theorem putString16_writer (bio : Bio) (str : Option (List ℕ)) :
    Writer w bio (BioPut.item (.string16 str)).takes (bio.putString16 w.values str) := by
  have hw := w.le_values
  cases str with
  | none => exact putUint32_writer bio _
  | some s =>
    unfold Bio.putString16
    dsimp only [BioPut.takes, Option.map_some]
    split_ifs with hlong
    · have hbody : BioItem.body (some (s.takeWhile (· ≠ 0))) = none := by
        rw [BioItem.body, Option.filter_some, if_neg (by simpa using hlong)]
      rw [hbody]
      exact putUint32_writer bio _
    · have hbody : BioItem.body (some (s.takeWhile (· ≠ 0))) = some (s.takeWhile (· ≠ 0)) := by
        rw [BioItem.body, Option.filter_some, if_pos (by simpa using hlong)]
      rw [hbody]
      set str := s.takeWhile (· ≠ 0)
      unfold Bio.maxBioSize at hlong
      have hsize : (str.length + 1) % w.values * 2 % w.values = 2 * (str.length + 1) := by
        rw [Nat.mod_eq_of_lt (show str.length + 1 < w.values by omega), Nat.mod_eq_of_lt (by omega),
          Nat.mul_comm]
      rw [hsize]
      refine (putUint32_writer bio str.length).append
        (writer_fill (.data (2 * (str.length + 1))) _
          (g := fun c ptr => store c.mem ptr (Bio.units c.order str)) fun c ptr i hi => ?_)
      have hlen := length_units c.order str
      have := store_changed hi
      rwa [hlen] at this

theorem putRef_writer (bio : Bio) (handle : ℕ) :
    Writer w bio (BioPut.item (.ref handle)).takes (bio.putRef w.values handle) := by
  have hfill : ∀ x : Take, x.size = objectSize → Writer w bio [x]
      (match x.alloc w.values bio with
        | (c, some ptr) => { c with mem := store (store (store (store c.mem (ptr + 4)
            (c.order.bytes 4 Bio.refFlags)) ptr (c.order.bytes 4 ObjectType.handle.code)) (ptr + 8)
            (c.order.bytes 4 handle)) (ptr + 16) (c.order.bytes 8 0) }
        | (c, none) => c) := fun x hx =>
    writer_fill x bio fun c ptr i hi => by
      rw [hx]
      refine write_object ?_ ?_ ?_ ?_ hi <;> simp
  dsimp only [BioPut.takes]
  unfold Bio.putRef
  split_ifs
  · exact hfill .object rfl
  · exact hfill (.data objectSize) rfl

theorem putObj_writer (bio : Bio) (ptr : ℕ) :
    Writer w bio [.object] (bio.putObj w.values ptr) := by
  refine writer_fill .object bio (g := fun c obj => store (store (store (store c.mem (obj + 4)
    (c.order.bytes 4 Bio.refFlags)) obj (c.order.bytes 4 ObjectType.binder.code)) (obj + 8)
    (c.order.bytes 8 ptr)) (obj + 16) (c.order.bytes 8 0)) fun c obj i hi => ?_
  refine write_object ?_ ?_ ?_ ?_ hi <;> simp

theorem put_writer (bio : Bio) (op : BioPut) : Writer w bio op.takes (op.put w.values bio) := by
  cases op with
  | obj ptr => exact putObj_writer bio ptr
  | item x =>
    cases x with
    | uint32 n => exact putUint32_writer bio n
    | string16 str => exact putString16_writer bio str
    | string16X str => exact putString16_writer bio str
    | ref handle => exact putRef_writer bio handle

theorem written_inside {l : List Take}
    (h : (taker w).Admits (Take.Inside w maxdata maxoffs) bio l) :
    ∀ r ∈ written w bio l, reserved w maxoffs + r.1 + r.2 ≤ maxdata := by
  induction l generalizing bio with
  | nil => exact fun r hr => by cases hr
  | cons x l ih =>
    intro r hr
    rcases List.mem_append.1 hr with hr | hr
    · obtain ⟨ptr, hptr, rfl⟩ := Option.map_eq_some_iff.1 (Option.mem_toList.1 hr)
      exact h.1.data ptr hptr
    · exact ih h.2 r hr

/-- An entry changes by the call that hands it out. -/
theorem entries_inside {l : List Take} {n : ℕ}
    (h : (taker w).Admits (Take.Inside w maxdata maxoffs) bio l)
    (hn : ((taker w).exec bio l).offs n ≠ bio.offs n) :
    BioGet.offsetSize * (n + 1) ≤ reserved w maxoffs := by
  induction l generalizing bio with
  | nil => exact absurd rfl hn
  | cons x l ih =>
    by_cases hfirst : (x.alloc w.values bio).1.offs n = bio.offs n
    · exact ih h.2 fun he => hn (he.trans hfirst)
    · cases x with
      | data size =>
        rw [Take.alloc, Bio.alloc_eq] at hfirst
        split_ifs at hfirst
        · exact absurd rfl hfirst
        · exact absurd rfl hfirst
      | object =>
        have hentry := h.1.entry rfl
        rw [Take.alloc, allocObj_eq] at hfirst hentry
        split_ifs at hfirst hentry
        · exact absurd rfl hfirst
        · exact absurd rfl hfirst
        · have hused : n = bio.offsUsed := by
            by_contra hne
            exact hfirst (if_neg hne)
          rw [hused]
          exact (hentry (Option.some_ne_none _)).2

/-- A writer keeps to its place exactly when there is room for its entry. -/
theorem Putting.put_inside_iff (h : Putting w maxdata maxoffs bio) (op : BioPut) :
    op.Inside w maxdata maxoffs bio ↔ op.Fits w maxoffs bio := by
  have hiff := h.admits_iff (l := op.takes) fun x => op.modest
  refine ⟨fun hin => hiff.1 hin.calls, fun hfits => ?_⟩
  have hcalls := hiff.2 hfits
  obtain ⟨⟨mem, hspace⟩, hbytes⟩ := put_writer (w := w) bio op
  refine ⟨hcalls, by rw [hspace], fun i hi => ?_, fun n hn => ?_⟩
  · obtain ⟨r, hr, hle, hlt⟩ := hbytes i hi
    have := written_inside hcalls r hr
    omega
  · rw [hspace] at hn
    exact entries_inside hcalls hn

theorem Putting.put (h : Putting w maxdata maxoffs bio) (op : BioPut) :
    Putting w maxdata maxoffs (op.put w.values bio) := by
  obtain ⟨mem, hspace⟩ := (put_writer (w := w) bio op).space
  have hexec := h.exec op.takes
  rw [hspace]
  exact ⟨hexec.room, hexec.entries⟩

theorem Putting.puts_iff {stack : ℕ → UInt8} {order : ByteOrder} (h : Putting w maxdata maxoffs bio)
    (ops : List BioPut) :
    (bioWriter w maxdata maxoffs stack order).Admits (BioPut.Inside w maxdata maxoffs) bio ops ↔
      (bioWriter w maxdata maxoffs stack order).Admits (BioPut.Fits w maxoffs) bio ops := by
  induction ops generalizing bio with
  | nil => exact Iff.rfl
  | cons op ops ih => exact and_congr (h.put_inside_iff op) (ih (h.put op))

end

/-- Whatever is written lies where it belongs, exactly when no entry of the offsets is handed out
behind the place that was set aside for them. -/
theorem writes_inside_iff (w : SizeT) (stack : ℕ → UInt8) (order : ByteOrder) (maxdata maxoffs : ℕ)
    (ops : List BioPut) :
    (bioWriter w maxdata maxoffs stack order).Admits (BioPut.Inside w maxdata maxoffs)
        (.init w.values stack maxdata maxoffs order) ops ↔
      (bioWriter w maxdata maxoffs stack order).Admits (BioPut.Fits w maxoffs)
        (.init w.values stack maxdata maxoffs order) ops :=
  (Putting.init stack order).puts_iff ops

/-- With a `size_t` of 64 bits it is enough that the number of entries does not make the product
wrap. -/
theorem writes_inside_64 (stack : ℕ → UInt8) (order : ByteOrder) (maxdata maxoffs : ℕ)
    (hoffs : maxoffs * 8 < 2 ^ 64) (ops : List BioPut) :
    (bioWriter .bits64 maxdata maxoffs stack order).Admits (BioPut.Inside .bits64 maxdata maxoffs)
      (.init SizeT.bits64.values stack maxdata maxoffs order) ops := by
  have hreserved : reserved .bits64 maxoffs = maxoffs * 8 := Nat.mod_eq_of_lt hoffs
  have htake : ∀ (x : Take) (bio : Bio), x.Modest → Putting .bits64 maxdata maxoffs bio →
      x.Fits .bits64 maxoffs bio := fun x bio _ h => by
    cases x with
    | data size => trivial
    | object =>
      intro hle hfree
      have hobj : 0 < objectSize := by decide
      have := h.entries (by omega)
      unfold BioGet.offsetSize
      omega
  have htakes : ∀ (l : List Take) (bio : Bio), (∀ x ∈ l, x.Modest) →
      Putting .bits64 maxdata maxoffs bio →
        (taker .bits64).Admits (Take.Fits .bits64 maxoffs) bio l := fun l => by
    induction l with
    | nil => exact fun _ _ _ => trivial
    | cons x l ih =>
      exact fun bio hl h => ⟨htake x bio (hl x (by simp)) h,
        ih _ (fun y hy => hl y (by simp [hy])) (h.alloc x)⟩
  refine (writes_inside_iff .bits64 stack order maxdata maxoffs ops).2 ?_
  have hputs : ∀ bio, Putting .bits64 maxdata maxoffs bio →
      (bioWriter .bits64 maxdata maxoffs stack order).Admits (BioPut.Fits .bits64 maxoffs) bio ops := by
    induction ops with
    | nil => exact fun _ _ => trivial
    | cons op ops ih => exact fun bio h => ⟨htakes _ _ (fun x => op.modest) h, ih _ (h.put op)⟩
  exact hputs _ (.init stack order)

/-- Room for one entry of 4 bytes is set aside, and one of 8 bytes is written. -/
theorem entry_outside :
    ¬(bioWriter .bits32 512 1 (fun _ => 0) .little).Admits (BioPut.Inside .bits32 512 1)
      (.init SizeT.bits32.values (fun _ => 0) 512 1) [.obj 0] := by
  intro h
  have hentry := h.1.calls.1.entry rfl (by decide +kernel)
  revert hentry
  decide +kernel

end Binder

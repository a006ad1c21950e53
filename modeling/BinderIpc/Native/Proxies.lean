import BinderIpc.Driver.RefTable
import BinderIpc.Driver.Write
import BinderIpc.Lib.Run

/-! The proxies of one process, its threads' buffers of commands, and the
references that the driver keeps for it. Every thread appends to its own `mOut`
and the driver executes the commands of a thread in order, at any time. -/

namespace Binder

/-- A command in an `mOut`. -/
inductive OutCommand
  | ref (c : RefCommand) (handle : ℕ)
  | freeBuffer (parcel : ℕ)
  deriving Repr, DecidableEq

/-- A parcel that came from the driver: on its way, with the user, destroyed, or freed. -/
inductive ParcelState
  | queued | received | destroyed | freed
  deriving Repr, DecidableEq

/-- An object of type `BINDER_TYPE_HANDLE`, or `BINDER_TYPE_WEAK_HANDLE`, in a parcel; `node` is
what the handle names when the object is translated. -/
structure ParcelObject where
  parcel : ℕ
  handle : ℕ
  strong : Bool
  node : ℕ
  deriving Repr, DecidableEq

/-- A `BpBinder` with its `RefBase` counts; a strong reference counts weakly too. `named` lists
the nodes that the handle named in the parcels it was read from while it was held. -/
structure BpBinder where
  mHandle : ℕ
  strong : ℕ
  weak : ℕ
  destroyed : Bool := false
  named : List ℕ := []
  deriving Repr, DecidableEq

structure HandleState where
  obj : Objects := {}
  parcels : List ParcelState := []
  /-- the objects of the parcels that are not freed -/
  objects : List ParcelObject := []
  /-- the commands that are not flushed, each with the thread that appended it -/
  mOut : List (ℕ × OutCommand) := []
  proxies : List BpBinder := []
  /-- `mHandleToObject` -/
  handleToObject : ℕ → Option ℕ := fun _ => none

inductive HandleAct
  /-- a step of the driver that counts nothing for this process -/
  | others (o : Objects)
  | newParcel
  /-- a handle is put into a parcel that is on its way -/
  | translate (parcel node : ℕ) (strong : Bool) (targetList : Option ListHead)
  | receive (parcel : ℕ)
  /-- a thread reads an object of a parcel; `ping` tells whether the context manager answers -/
  | readBinder (T i : ℕ) (ping : Bool)
  | copyStrong (i : ℕ)
  | decStrong (T i : ℕ)
  | incWeak (i : ℕ)
  | decWeak (i : ℕ)
  /-- the destructor, once the weak count is 0 -/
  | destroy (T i : ℕ)
  /-- the destructor of a parcel -/
  | destroyParcel (T parcel : ℕ)
  /-- the driver executes the first command of a thread -/
  | flush (T : ℕ) (kzalloc : Bool)

/-- The first command of `T`, and what remains. -/
def takeFirst (T : ℕ) : List (ℕ × OutCommand) → Option (OutCommand × List (ℕ × OutCommand))
  | [] => none
  | (U, c) :: l =>
    if U = T then some (c, l) else (takeFirst T l).map fun r => (r.1, (U, c) :: r.2)

namespace HandleState

variable (s : HandleState)

def append (T : ℕ) (cmds : List OutCommand) : HandleState :=
  { s with mOut := s.mOut ++ cmds.map (T, ·) }

def setProxy (i : ℕ) (b : BpBinder) : HandleState := { s with proxies := s.proxies.set i b }

/-- `forceIncStrong`, with `onFirstRef` when the strong count was 0. -/
def forceIncStrong (T i node : ℕ) (b : BpBinder) : HandleState :=
  if b.strong = 0 then
    (s.setProxy i { b with strong := 1, weak := b.weak + 1, named := [node] }).append T
      [.ref .acquire b.mHandle]
  else
    s.setProxy i
      { b with strong := b.strong + 1, weak := b.weak + 1, named := node :: b.named }

/-- The entry of the handle table whose weak count can be raised. -/
def lookupHandle (handle : ℕ) : Option (ℕ × BpBinder) :=
  (s.handleToObject handle).bind fun i =>
    (s.proxies[i]?).bind fun b => if b.weak = 0 then none else some (i, b)

/-- `new BpBinder`, put into the handle table. -/
def newProxy (T : ℕ) (b : BpBinder) : HandleState :=
  { s with
    proxies := s.proxies ++ [b]
    handleToObject := fun k => if k = b.mHandle then some s.proxies.length else s.handleToObject k
    mOut := s.mOut ++ [(T, .ref .increfs b.mHandle)] }

def getStrongProxyForHandle (T : ℕ) (x : ParcelObject) (ping : Bool) : HandleState :=
  match s.lookupHandle x.handle with
  | some (i, b) => s.forceIncStrong T i x.node b
  | none =>
    if x.handle = 0 ∧ ping = false then s
    else
      (s.newProxy T { mHandle := x.handle, strong := 1, weak := 1, named := [x.node] }).append T
        [.ref .acquire x.handle]

def getWeakProxyForHandle (T : ℕ) (x : ParcelObject) : HandleState :=
  match s.lookupHandle x.handle with
  | some (i, b) => s.setProxy i { b with weak := b.weak + 1 }
  | none => s.newProxy T { mHandle := x.handle, strong := 0, weak := 1 }

/-- An object of a parcel that is with the user is read. -/
def readBinder (T i : ℕ) (ping : Bool) : HandleState :=
  match s.objects[i]? with
  | none => s
  | some x =>
    if s.parcels[x.parcel]? = some .received then
      if x.strong then s.getStrongProxyForHandle T x ping else s.getWeakProxyForHandle T x
    else s

/-- What is done to a proxy that is there. -/
def onProxy (i : ℕ) (f : BpBinder → HandleState) : HandleState := (s.proxies[i]?).elim s f

/-- `decStrong`, with `onLastStrongRef`; the weak reference is dropped later. -/
def decStrong (T i : ℕ) : HandleState :=
  s.onProxy i fun b =>
    if b.strong = 0 then s
    else if b.strong = 1 then
      (s.setProxy i { b with strong := 0 }).append T [.ref .release b.mHandle]
    else s.setProxy i { b with strong := b.strong - 1 }

/-- `~BpBinder`, with `expungeHandle` -/
def destroy (T i : ℕ) : HandleState :=
  s.onProxy i fun b =>
    if b.weak = 0 ∧ b.strong = 0 ∧ b.destroyed = false then
      ({ s.setProxy i { b with destroyed := true } with
        handleToObject := fun k =>
          if k = b.mHandle ∧ s.handleToObject k = some i then none
          else s.handleToObject k }).append T [.ref .decrefs b.mHandle]
    else s

/-- `IPCThreadState::freeBuffer` -/
def destroyParcel (T parcel : ℕ) : HandleState :=
  if s.parcels[parcel]? = some .received then
    { s with parcels := s.parcels.set parcel .destroyed }.append T [.freeBuffer parcel]
  else s

/-- The objects of a parcel. -/
def objectsOf (parcel : ℕ) : List ParcelObject := s.objects.filter (·.parcel = parcel)

/-- A handle for `node` in the target process `p`, as `binder_transaction` makes it. -/
def translate (p parcel node : ℕ) (strong : Bool) (targetList : Option ListHead) : HandleState :=
  if s.parcels[parcel]? = some .queued then
    match binderGetRefForNode s.obj p node true with
    | (o, none) => { s with obj := o }
    | (o, some r) =>
      { s with
        obj := (binderIncRef o r strong targetList).1
        objects := s.objects ++ [⟨parcel, (o.ref.get r).desc, strong, node⟩] }
  else s

end HandleState

/-- The handles of a parcel are released. -/
def releaseHandles (p : ℕ) (o : Objects) (xs : List ParcelObject) : Objects :=
  xs.foldl (fun o x => (binderGetRef o p x.handle).elim o (binderDecRef o · x.strong)) o

/-- The driver executes a command of the process `p`. -/
def HandleState.execute (s : HandleState) (p : ℕ) (kzalloc : Bool) : OutCommand → HandleState
  | .ref c handle => { s with obj := refCommand s.obj p c handle kzalloc }
  | .freeBuffer parcel =>
    if s.parcels[parcel]? = some .destroyed then
      { s with
        obj := releaseHandles p s.obj (s.objectsOf parcel)
        objects := s.objects.filter (·.parcel ≠ parcel)
        parcels := s.parcels.set parcel .freed }
    else s

def HandleState.flush (s : HandleState) (p T : ℕ) (kzalloc : Bool) : HandleState :=
  match takeFirst T s.mOut with
  | none => s
  | some (c, rest) => { s with mOut := rest }.execute p kzalloc c

/-- The process `p`, from when it has no references. -/
def handleMachine (p : ℕ) : Machine HandleState HandleAct where
  start s := (s.obj.own p).refsByDesc = [] ∧ (s.obj.own p).refsByNode = [] ∧
    s = { obj := s.obj }
  step s
    | .others o => { s with obj := o }
    | .newParcel => { s with parcels := s.parcels ++ [.queued] }
    | .translate parcel node strong targetList => s.translate p parcel node strong targetList
    | .receive parcel =>
      if s.parcels[parcel]? = some .queued then
        { s with parcels := s.parcels.set parcel .received }
      else s
    | .readBinder T i ping => s.readBinder T i ping
    | .copyStrong i => s.onProxy i fun b =>
      if b.strong = 0 then s
      else s.setProxy i { b with strong := b.strong + 1, weak := b.weak + 1 }
    | .decStrong T i => s.decStrong T i
    | .incWeak i => s.onProxy i fun b =>
      if b.weak = 0 then s else s.setProxy i { b with weak := b.weak + 1 }
    | .decWeak i => s.onProxy i fun b =>
      if b.strong < b.weak then s.setProxy i { b with weak := b.weak - 1 } else s
    | .destroy T i => s.destroy T i
    | .destroyParcel T parcel => s.destroyParcel T parcel
    | .flush T kzalloc => s.flush p T kzalloc

/-- What the rest of the driver may do to the references of the process: leave them alone, or make
one that a failed transaction does not count. -/
def Apart (p : ℕ) (s : HandleState) : HandleAct → Prop
  | .others o => SameRefs p s.obj o ∨
    ∃ n, refForNode s.obj p n = none ∧ SameRefs p (newRef s.obj p n) o
  | _ => True

/-- When everything is flushed, a proxy that is held has its reference, to the node it was
received for. -/
def HeldProxies (p : ℕ) (s : HandleState) : Prop :=
  s.mOut = [] → ∀ b ∈ s.proxies, 0 < b.strong → ∃ r, binderGetRef s.obj p b.mHandle = some r ∧
    0 < (s.obj.ref.get r).strong ∧ ∀ n ∈ b.named, (s.obj.ref.get r).node = n

/-- How many objects of the list count strongly for a handle. -/
def strongObjects (h : ℕ) (xs : List ParcelObject) : ℕ := xs.countP fun x => x.strong && x.handle = h

/-- No last strong count of a handle goes while a `BC_ACQUIRE` for it is in an `mOut`; handle 0
still names the context manager when it is acquired; and a strong handle is counted when it is
put into a parcel. -/
def Orderly (p : ℕ) (s : HandleState) : HandleAct → Prop
  | .flush T _ =>
    match takeFirst T s.mOut with
    | some (.ref .release h, rest) =>
      strongCount s.obj p h = 1 → ∀ q ∈ rest, q.2 ≠ .ref .acquire h
    | some (.ref .acquire 0, _) => ∀ n, s.obj.contextMgrNode = some n → namedNode s.obj p 0 = some n
    | some (.freeBuffer parcel, rest) => ∀ h, 0 < strongObjects h (s.objectsOf parcel) →
      strongCount s.obj p h ≤ strongObjects h (s.objectsOf parcel) →
        ∀ q ∈ rest, q.2 ≠ .ref .acquire h
    | _ => True
  | .translate _ node true targetList => ∀ r,
    (binderGetRefForNode s.obj p node true).2 = some r →
      Countable (binderGetRefForNode s.obj p node true).1 r targetList
  | _ => True

/-! The ledger: what is counted, against what holds -/

def queued (c : OutCommand) (l : List (ℕ × OutCommand)) : ℕ := l.countP (·.2 = c)

/-- The proxies for a handle that are strongly referenced. -/
def held (h : ℕ) (bs : List BpBinder) : ℕ := bs.countP fun b => b.mHandle = h && 0 < b.strong

structure ProxyLedger (p : ℕ) (s : HandleState) : Prop where
  table : RefTable s.obj p
  ledger : ∀ h, strongCount s.obj p h + queued (.ref .acquire h) s.mOut =
    strongObjects h s.objects + held h s.proxies + queued (.ref .release h) s.mOut
  covered : ∀ h, 0 < queued (.ref .acquire h) s.mOut → 0 < strongCount s.obj p h
  objects : ∀ x ∈ s.objects, x.strong = true → namedNode s.obj p x.handle = some x.node
  named : ∀ b ∈ s.proxies, 0 < b.strong → ∀ n ∈ b.named, namedNode s.obj p b.mHandle = some n
  entries : ∀ k i, s.handleToObject k = some i → ∃ b, s.proxies[i]? = some b ∧ b.mHandle = k

section

variable {p : ℕ} {s s' : HandleState} {h i T : ℕ} {b b' : BpBinder} {x : ParcelObject}

theorem takeFirst_split {l rest : List (ℕ × OutCommand)} {c : OutCommand}
    (hl : takeFirst T l = some (c, rest)) : ∃ l₁ l₂, l = l₁ ++ (T, c) :: l₂ ∧ rest = l₁ ++ l₂ := by
  induction l generalizing rest with
  | nil => cases hl
  | cons q l ih =>
    obtain ⟨U, c'⟩ := q
    unfold takeFirst at hl
    split_ifs at hl with hU
    · obtain ⟨rfl, rfl⟩ : c' = c ∧ l = rest := by simpa using hl
      exact ⟨[], l, by rw [hU]; rfl, rfl⟩
    · obtain ⟨⟨c₀, rest₀⟩, htake, heq⟩ := Option.map_eq_some_iff.1 hl
      obtain ⟨rfl, rfl⟩ : c₀ = c ∧ (U, c') :: rest₀ = rest := by simpa using heq
      obtain ⟨l₁, l₂, rfl, rfl⟩ := ih htake
      exact ⟨(U, c') :: l₁, l₂, rfl, rfl⟩

theorem queued_takeFirst {l rest : List (ℕ × OutCommand)} {c : OutCommand}
    (hl : takeFirst T l = some (c, rest)) (c' : OutCommand) :
    queued c' l = queued c' rest + if c = c' then 1 else 0 := by
  obtain ⟨l₁, l₂, rfl, rfl⟩ := takeFirst_split hl
  simp only [queued, List.countP_append, List.countP_cons, decide_eq_true_eq]
  omega

theorem queued_append (c : OutCommand) (l : List (ℕ × OutCommand)) (cmds : List OutCommand) :
    queued c (l ++ cmds.map (T, ·)) = queued c l + cmds.count c := by
  unfold queued
  rw [List.countP_append, List.countP_map, List.count]
  congr 1

theorem queued_pos {c : OutCommand} {l : List (ℕ × OutCommand)} :
    0 < queued c l ↔ ∃ q ∈ l, q.2 = c := by
  simp [queued, List.countP_pos_iff]

theorem held_pos (hb : b ∈ s.proxies) (hs : 0 < b.strong) : 0 < held b.mHandle s.proxies :=
  List.countP_pos_iff.2 ⟨b, hb, by simp [hs]⟩

theorem strongObjects_pos {xs : List ParcelObject} (hx : x ∈ xs) (hs : x.strong = true) :
    0 < strongObjects x.handle xs :=
  List.countP_pos_iff.2 ⟨x, hx, by simp [hs]⟩

/-- Whether a proxy is among those that `held` counts. -/
def BpBinder.holds (b : BpBinder) (h : ℕ) : ℕ := if b.mHandle = h ∧ 0 < b.strong then 1 else 0

theorem held_set {bs : List BpBinder} (hb : bs[i]? = some b) :
    held h (bs.set i b') + b.holds h = held h bs + b'.holds h := by
  obtain ⟨hi, rfl⟩ := List.getElem?_eq_some_iff.1 hb
  have hset := List.countP_set (p := fun b : BpBinder => b.mHandle = h && 0 < b.strong) (a := b') hi
  have hle : BpBinder.holds bs[i] h ≤ held h bs := by
    unfold BpBinder.holds
    split_ifs with hc
    · obtain ⟨rfl, hs⟩ := hc
      exact List.countP_pos_iff.2 ⟨bs[i], List.getElem_mem hi, by simp [hs]⟩
    · exact Nat.zero_le _
  simp only [Bool.and_eq_true, decide_eq_true_eq] at hset
  change held h (bs.set i b') = held h bs - BpBinder.holds bs[i] h + b'.holds h at hset
  omega

theorem held_append (bs : List BpBinder) : held h (bs ++ [b]) = held h bs + b.holds h := by
  simp [held, BpBinder.holds, List.countP_append, List.countP_cons]

/-- What holds a handle is counted for it. -/
theorem pos_of_ledger
    (hledger : strongCount s.obj p h + queued (.ref .acquire h) s.mOut =
      strongObjects h s.objects + held h s.proxies + queued (.ref .release h) s.mOut)
    (hcovered : 0 < queued (.ref .acquire h) s.mOut → 0 < strongCount s.obj p h)
    (hpos : 0 < strongObjects h s.objects + held h s.proxies + queued (.ref .release h) s.mOut) :
    0 < strongCount s.obj p h := by
  by_cases hq : 0 < queued (.ref .acquire h) s.mOut
  · exact hcovered hq
  · omega

theorem ProxyLedger.pos (hs : ProxyLedger p s)
    (hpos : 0 < strongObjects h s.objects + held h s.proxies + queued (.ref .release h) s.mOut) :
    0 < strongCount s.obj p h :=
  pos_of_ledger (hs.ledger h) (hs.covered h) hpos

/-- A step of the user's side: some proxies and some commands more. -/
theorem ProxyLedger.proxies (hs : ProxyLedger p s) (hobj : s'.obj = s.obj)
    (hobjects : s'.objects = s.objects) (cmds : List OutCommand)
    (hout : s'.mOut = s.mOut ++ cmds.map (T, ·))
    (hheld : ∀ k, held k s'.proxies + cmds.count (.ref .release k) =
      held k s.proxies + cmds.count (.ref .acquire k))
    (hnew : ∀ k, OutCommand.ref .acquire k ∈ cmds → 0 < strongCount s.obj p k)
    (hnamed : ∀ b ∈ s'.proxies, b ∈ s.proxies ∨
      (0 < b.strong → ∀ n ∈ b.named, namedNode s.obj p b.mHandle = some n))
    (hentries : ∀ k i, s'.handleToObject k = some i →
      ∃ b, s'.proxies[i]? = some b ∧ b.mHandle = k) : ProxyLedger p s' where
  table := hobj ▸ hs.table
  ledger k := by
    have hl := hs.ledger k
    have hh := hheld k
    rw [hobj, hobjects, hout, queued_append, queued_append]
    omega
  covered k hq := by
    rw [hobj]
    rw [hout, queued_append] at hq
    by_cases hmem : OutCommand.ref .acquire k ∈ cmds
    · exact hnew k hmem
    · rw [List.count_eq_zero.2 hmem, add_zero] at hq
      exact hs.covered k hq
  objects := by
    rw [hobj, hobjects]
    exact hs.objects
  named b hb hpos := by
    rw [hobj]
    rcases hnamed b hb with hb | hb
    · exact hs.named b hb hpos
    · exact hb hpos
  entries := hentries

theorem ProxyLedger.setProxy (hs : ProxyLedger p s) (hb : s.proxies[i]? = some b) (b' : BpBinder)
    (hhandle : b'.mHandle = b.mHandle) (cmds : List OutCommand)
    (hheld : ∀ k, b'.holds k + cmds.count (.ref .release k) =
      b.holds k + cmds.count (.ref .acquire k))
    (hnew : ∀ k, OutCommand.ref .acquire k ∈ cmds → 0 < strongCount s.obj p k)
    (hnamed : 0 < b'.strong → ∀ n ∈ b'.named, namedNode s.obj p b'.mHandle = some n) :
    ProxyLedger p ((s.setProxy i b').append T cmds) := by
  refine hs.proxies (T := T) rfl rfl cmds rfl (fun k => ?_) hnew (fun b₀ hb₀ => ?_)
    fun k j hk => ?_
  · have hset : held k (s.proxies.set i b') + b.holds k = held k s.proxies + b'.holds k := held_set hb
    have hh := hheld k
    change held k (s.proxies.set i b') + _ = _
    omega
  · rcases List.mem_or_eq_of_mem_set hb₀ with hmem | rfl
    · exact .inl hmem
    · exact .inr hnamed
  · obtain ⟨b₀, hget, hh⟩ := hs.entries k j hk
    change ∃ b, (s.proxies.set i b')[j]? = some b ∧ b.mHandle = k
    rw [List.getElem?_set]
    by_cases hij : i = j
    · subst hij
      rw [hget] at hb
      obtain rfl : b₀ = b := Option.some.inj hb
      have hlt : i < s.proxies.length := (List.getElem?_eq_some_iff.1 hget).1
      exact ⟨b', by simp [hlt], hhandle.trans hh⟩
    · exact ⟨b₀, by rw [if_neg hij, hget], hh⟩

/-- A change to a proxy after which it is held as before. -/
theorem ProxyLedger.keepProxy (hs : ProxyLedger p s) (hb : s.proxies[i]? = some b)
    (hhandle : b'.mHandle = b.mHandle) (hstrong : 0 < b'.strong ↔ 0 < b.strong)
    (hnamed : ∀ n ∈ b'.named, n ∈ b.named ∨ namedNode s.obj p b.mHandle = some n) :
    ProxyLedger p (s.setProxy i b') := by
  have hset := hs.setProxy (T := 0) hb b' hhandle []
    (fun k => by simp only [BpBinder.holds, hhandle, hstrong]; rfl) (fun k hk => by cases hk)
    fun hpos n hn => by
      rw [hhandle]
      rcases hnamed n hn with hn | hn
      · exact hs.named b (List.mem_of_getElem? hb) (hstrong.1 hpos) n hn
      · exact hn
  have heq : (s.setProxy i b').append 0 [] = s.setProxy i b' := by
    simp [HandleState.append]
  rwa [heq] at hset

theorem ProxyLedger.onProxy (hs : ProxyLedger p s) {f : BpBinder → HandleState}
    (hf : ∀ b, s.proxies[i]? = some b → ProxyLedger p (f b)) : ProxyLedger p (s.onProxy i f) := by
  unfold HandleState.onProxy
  cases hb : s.proxies[i]? with
  | none => exact hs
  | some b => exact hf b hb

theorem ProxyLedger.decStrong (hs : ProxyLedger p s) : ProxyLedger p (s.decStrong T i) := by
  refine hs.onProxy fun b hb => ?_
  split_ifs with h0 h1
  · exact hs
  · refine hs.setProxy hb { b with strong := 0 } rfl _ (fun k => ?_) (fun k hk => ?_)
      fun hpos => absurd hpos (lt_irrefl 0)
    · simp only [BpBinder.holds, h1, lt_irrefl, and_false, if_false, List.count_singleton,
        beq_iff_eq, OutCommand.ref.injEq, true_and, reduceCtorEq, false_and, zero_lt_one, and_true,
        zero_add, add_zero]
    · simp at hk
  · exact hs.keepProxy hb rfl (by dsimp only; omega) fun n hn => .inl hn

theorem ProxyLedger.destroy (hs : ProxyLedger p s) : ProxyLedger p (s.destroy T i) := by
  refine hs.onProxy fun b hb => ?_
  split_ifs with hc
  · have hset := hs.setProxy (T := T) hb { b with destroyed := true } rfl
      [.ref .decrefs b.mHandle] (fun k => by simp [BpBinder.holds])
      (fun k hk => by simp at hk) fun hpos => absurd hpos (by simp [hc.2.1])
    refine ⟨hset.table, hset.ledger, hset.covered, hset.objects, hset.named, fun k j hk => ?_⟩
    refine hset.entries k j ?_
    change (if k = b.mHandle ∧ s.handleToObject k = some i then none else s.handleToObject k) =
      some j at hk
    split_ifs at hk
    exact hk
  · exact hs

theorem ProxyLedger.lookupHandle (hs : ProxyLedger p s) (hb : s.lookupHandle h = some (i, b)) :
    s.proxies[i]? = some b ∧ b.mHandle = h := by
  unfold HandleState.lookupHandle at hb
  obtain ⟨j, hj, hb⟩ := Option.bind_eq_some_iff.1 hb
  obtain ⟨b₀, hget, hb⟩ := Option.bind_eq_some_iff.1 hb
  split_ifs at hb
  obtain ⟨rfl, rfl⟩ : j = i ∧ b₀ = b := by simpa using hb
  obtain ⟨b₁, hget₁, hh⟩ := hs.entries h j hj
  rw [hget] at hget₁
  obtain rfl : b₀ = b₁ := Option.some.inj hget₁
  exact ⟨hget, hh⟩

/-- `new BpBinder` -/
theorem ProxyLedger.newProxy (hs : ProxyLedger p s) (b : BpBinder) (cmds : List OutCommand)
    (hheld : ∀ k, b.holds k + cmds.count (.ref .release k) = cmds.count (.ref .acquire k))
    (hnew : ∀ k, OutCommand.ref .acquire k ∈ cmds → 0 < strongCount s.obj p k)
    (hnamed : 0 < b.strong → ∀ n ∈ b.named, namedNode s.obj p b.mHandle = some n) :
    ProxyLedger p ((s.newProxy T b).append T cmds) := by
  have hproxies : ((s.newProxy T b).append T cmds).proxies = s.proxies ++ [b] := rfl
  have hout : ((s.newProxy T b).append T cmds).mOut =
      s.mOut ++ (OutCommand.ref .increfs b.mHandle :: cmds).map (T, ·) :=
    List.append_assoc ..
  refine hs.proxies (T := T) rfl rfl _ hout (fun k => ?_) (fun k hk => ?_) (fun b₀ hb₀ => ?_)
    fun k j hk => ?_
  · have hh := hheld k
    rw [hproxies, held_append, List.count_cons_of_ne (by simp), List.count_cons_of_ne (by simp)]
    omega
  · exact hnew k (by simpa using hk)
  · rw [hproxies, List.mem_append, List.mem_singleton] at hb₀
    rcases hb₀ with hb₀ | rfl
    · exact .inl hb₀
    · exact .inr hnamed
  · rw [hproxies]
    change (if k = b.mHandle then some s.proxies.length else s.handleToObject k) = some j at hk
    split_ifs at hk with hkb
    · obtain rfl : s.proxies.length = j := Option.some.inj hk
      exact ⟨b, by simp, hkb.symm⟩
    · obtain ⟨b₀, hget, hh⟩ := hs.entries k j hk
      have hlt := (List.getElem?_eq_some_iff.1 hget).1
      exact ⟨b₀, by rw [List.getElem?_append_left hlt, hget], hh⟩

theorem ProxyLedger.getStrongProxyForHandle (hs : ProxyLedger p s) (hx : x ∈ s.objects)
    (hstrong : x.strong = true) (ping : Bool) :
    ProxyLedger p (s.getStrongProxyForHandle T x ping) := by
  -- the parcel that is read holds the handle
  have hpos : 0 < strongCount s.obj p x.handle :=
    hs.pos (by have := strongObjects_pos hx hstrong; omega)
  have hname := hs.objects x hx hstrong
  have hacquire : ∀ k, OutCommand.ref .acquire k ∈ [OutCommand.ref .acquire x.handle] →
      0 < strongCount s.obj p k := fun k hk => by
    obtain rfl : k = x.handle := by simpa using hk
    exact hpos
  unfold HandleState.getStrongProxyForHandle
  split
  · rename_i j b hlook
    obtain ⟨hb, hh⟩ := hs.lookupHandle hlook
    unfold HandleState.forceIncStrong
    split_ifs with h0
    · rw [hh]
      refine hs.setProxy hb _ hh.symm _ (fun k => ?_) hacquire fun _ n hn => ?_
      · simp [BpBinder.holds, h0, hh, List.count_singleton]
      · obtain rfl : n = x.node := by simpa using hn
        rw [← hh]
        rw [← hh] at hname
        exact hname
    · refine hs.keepProxy hb rfl (by dsimp only; omega) fun n hn => ?_
      rw [hh]
      rcases List.mem_cons.1 hn with rfl | hn
      · exact .inr hname
      · exact .inl hn
  · split_ifs
    · exact hs
    · refine hs.newProxy _ _ (fun k => ?_) hacquire fun _ n hn => ?_
      · simp [BpBinder.holds, List.count_singleton]
      · obtain rfl : n = x.node := by simpa using hn
        exact hname

theorem ProxyLedger.readBinder (hs : ProxyLedger p s) (ping : Bool) :
    ProxyLedger p (s.readBinder T i ping) := by
  unfold HandleState.readBinder
  split
  · exact hs
  · rename_i x hx
    split_ifs with hparcel hstrong
    · exact hs.getStrongProxyForHandle (List.mem_of_getElem? hx) hstrong ping
    · unfold HandleState.getWeakProxyForHandle
      split
      · rename_i j b hlook
        exact hs.keepProxy (hs.lookupHandle hlook).1 rfl Iff.rfl fun n hn => .inl hn
      · have hnew := hs.newProxy (T := T)
          { mHandle := x.handle, strong := 0, weak := 1 } [] (fun k => by simp [BpBinder.holds])
          (fun k hk => by cases hk) fun hpos => absurd hpos (lt_irrefl 0)
        have heq : ∀ s₀ : HandleState, s₀.append T [] = s₀ := fun s₀ => by simp [HandleState.append]
        rwa [heq] at hnew
    · exact hs

/-- A step of the driver's side: the counts change by `d`, and so does what they are held for. -/
theorem ProxyLedger.recount (hs : ProxyLedger p s) (s' : HandleState) {d : ℕ → ℤ}
    (hd : Recount p d s.obj s'.obj)
    (hproxies : s'.proxies = s.proxies) (htable : s'.handleToObject = s.handleToObject)
    (hledger : ∀ k, d k + queued (.ref .acquire k) s'.mOut + strongObjects k s.objects +
        queued (.ref .release k) s.mOut =
      queued (.ref .acquire k) s.mOut + strongObjects k s'.objects + queued (.ref .release k) s'.mOut)
    (hcovered : ∀ k, 0 < queued (.ref .acquire k) s'.mOut → 0 < strongCount s.obj p k + d k)
    (hobjects : ∀ x ∈ s'.objects, x.strong = true →
      x ∈ s.objects ∨ namedNode s'.obj p x.handle = some x.node) : ProxyLedger p s' := by
  have hledger' : ∀ k, strongCount s'.obj p k + queued (.ref .acquire k) s'.mOut =
      strongObjects k s'.objects + held k s'.proxies + queued (.ref .release k) s'.mOut := by
    intro k
    have hl := hs.ledger k
    have hk := hledger k
    rw [hd.strong, hproxies]
    omega
  have hcovered' : ∀ k, 0 < queued (.ref .acquire k) s'.mOut → 0 < strongCount s'.obj p k :=
    fun k hk => by
      rw [hd.strong]
      exact hcovered k hk
  have hpos' : ∀ k, 0 < strongObjects k s'.objects + held k s'.proxies +
      queued (.ref .release k) s'.mOut → 0 < strongCount s'.obj p k := fun k =>
    pos_of_ledger (hledger' k) (hcovered' k)
  refine ⟨hd.table, hledger', hcovered', fun x hx hstrong => ?_, fun b hb hpos n hn => ?_, ?_⟩
  · rcases hobjects x hx hstrong with hx₀ | hname
    · have h₀ := strongObjects_pos hx₀ hstrong
      have h₁ := strongObjects_pos hx hstrong
      rw [hd.node x.handle (hs.pos (by omega)) (hpos' _ (by omega))]
      exact hs.objects x hx₀ hstrong
    · exact hname
  · have h₁ := held_pos hb hpos
    rw [hproxies] at hb
    have h₀ := held_pos hb hpos
    rw [hd.node b.mHandle (hs.pos (by omega)) (hpos' _ (by omega))]
    exact hs.named b hb hpos n hn
  · rw [hproxies, htable]
    exact hs.entries

theorem ProxyLedger.translate (hs : ProxyLedger p s) {parcel node : ℕ} {strong : Bool}
    {targetList : Option ListHead}
    (hok : Orderly p s (.translate parcel node strong targetList)) :
    ProxyLedger p (s.translate p parcel node strong targetList) := by
  unfold HandleState.translate
  split_ifs
  · obtain ⟨hget, hspec⟩ := binderGetRefForNode_recount (n := node) hs.table true
    have hcountable : strong = true → ∀ r, (binderGetRefForNode s.obj p node true).2 = some r →
        Countable (binderGetRefForNode s.obj p node true).1 r targetList := fun he => by
      subst he
      exact hok
    generalize binderGetRefForNode s.obj p node true = q at hget hspec hcountable ⊢
    obtain ⟨o, _ | r⟩ := q
    · exact hs.recount { s with obj := o } hget rfl rfl (fun k => by ring)
        (fun k hk => by simpa using hs.covered k hk) fun x hx _ => .inl hx
    · obtain ⟨hr, hn⟩ := hspec r rfl
      have hinc := binderIncRef_recount hget.table hr strong targetList
        fun he => binderIncRef_ok (hcountable he r rfl)
      have hd := (hget.trans hinc fun _ => .inl le_rfl).congr fun k => zero_add _
      refine hs.recount { s with
        obj := (binderIncRef o r strong targetList).1
        objects := s.objects ++ [⟨parcel, (o.ref.get r).desc, strong, node⟩] } hd rfl rfl
        (fun k => ?_) (fun k hk => ?_) fun x hx hstrong => ?_
      · have hone : strongObjects k (s.objects ++ [⟨parcel, (o.ref.get r).desc, strong, node⟩]) =
            strongObjects k s.objects +
              if k = (o.ref.get r).desc then if strong then 1 else 0 else 0 := by
          cases strong <;>
            simp [strongObjects, List.countP_append, List.countP_cons, eq_comm (a := k)]
        dsimp only
        rw [hone]
        split_ifs <;> push_cast <;> ring
      · have hc := hs.covered k hk
        split_ifs <;> omega
      · rcases List.mem_append.1 hx with hx | hx
        · exact .inl hx
        · right
          obtain rfl : x = ⟨parcel, (o.ref.get r).desc, strong, node⟩ := by simpa using hx
          rw [← hn]
          exact binderIncRef_namedNode hr hd.table
  · exact hs

/-- The release of the handles of a parcel, when they are all counted. -/
theorem releaseHandles_recount {o : Objects} (ht : RefTable o p) (xs : List ParcelObject)
    (hxs : ∀ k, (strongObjects k xs : ℤ) ≤ strongCount o p k ∨ strongObjects k xs = 0) :
    Recount p (fun k => -(strongObjects k xs : ℤ)) o (releaseHandles p o xs) := by
  induction xs generalizing o with
  | nil => exact ((KeepsRefs.refl o).same.recount ht).congr fun k => by simp [strongObjects]
  | cons x xs ih =>
    have hcons : ∀ k, strongObjects k (x :: xs) = strongObjects k xs +
        if k = x.handle then if x.strong then 1 else 0 else 0 := fun k => by
      cases hs : x.strong <;> simp [strongObjects, List.countP_cons, hs, eq_comm (a := k)]
    have hx : Recount p (fun k => -(if k = x.handle then if x.strong then 1 else 0 else 0 : ℤ)) o
        ((binderGetRef o p x.handle).elim o (binderDecRef o · x.strong)) := by
      cases hget : binderGetRef o p x.handle with
      | none =>
        refine ((KeepsRefs.refl o).same.recount ht).congr fun k => ?_
        have hzero : strongCount o p x.handle = 0 := by
          unfold strongCount
          rw [hget]
          rfl
        have hx := hxs x.handle
        have hc := hcons x.handle
        rw [hzero] at hx
        split_ifs with hk hstrong
        · rw [if_pos rfl, if_pos hstrong] at hc
          omega
        · simp
        · simp
      | some r =>
        obtain ⟨hr, hd⟩ := mem_of_binderGetRef hget
        have hdec := binderDecRef_recount ht hr x.strong fun hstrong => by
          have hx := hxs x.handle
          have hc := hcons x.handle
          rw [if_pos rfl, if_pos hstrong] at hc
          rw [← ht.strongCount_desc hr, hd]
          omega
        refine hdec.congr fun k => ?_
        rw [hd]
        split_ifs <;> rfl
    have hrest := ih hx.table fun k => by
      have hk := hxs k
      have hc := hcons k
      have hs := hx.strong k
      rw [hs]
      split_ifs at hc ⊢ <;> omega
    refine (hx.trans hrest fun k => .inr (by omega)).congr fun k => ?_
    rw [hcons]
    split_ifs <;> push_cast <;> ring

theorem strongObjects_filter (s : HandleState) (parcel k : ℕ) :
    strongObjects k s.objects = strongObjects k (s.objectsOf parcel) +
      strongObjects k (s.objects.filter (·.parcel ≠ parcel)) := by
  unfold strongObjects HandleState.objectsOf
  have hsplit := List.countP_eq_countP_filter_add s.objects
    (fun x => x.strong && x.handle = k) (fun x => x.parcel = parcel)
  simpa using hsplit

theorem ProxyLedger.flush (hs : ProxyLedger p s) {kzalloc : Bool} (hok : Orderly p s (.flush T kzalloc)) :
    ProxyLedger p (s.flush p T kzalloc) := by
  unfold HandleState.flush
  change (match takeFirst T s.mOut with
    | some (.ref .release h, rest) =>
      strongCount s.obj p h = 1 → ∀ q ∈ rest, q.2 ≠ .ref .acquire h
    | some (.ref .acquire 0, _) => ∀ n, s.obj.contextMgrNode = some n → namedNode s.obj p 0 = some n
    | some (.freeBuffer parcel, rest) => ∀ h, 0 < strongObjects h (s.objectsOf parcel) →
      strongCount s.obj p h ≤ strongObjects h (s.objectsOf parcel) →
        ∀ q ∈ rest, q.2 ≠ .ref .acquire h
    | _ => True) at hok
  cases htake : takeFirst T s.mOut with
  | none => exact hs
  | some q =>
    obtain ⟨c, rest⟩ := q
    rw [htake] at hok
    have hqueued := queued_takeFirst htake
    have hnone : ∀ k, (∀ q ∈ rest, q.2 ≠ .ref .acquire k) → queued (.ref .acquire k) rest = 0 :=
      fun k hk => by
        by_contra hne
        obtain ⟨q, hq, he⟩ := queued_pos.1 (Nat.pos_of_ne_zero hne)
        exact hk q hq he
    have hcovered : ∀ k, 0 < queued (.ref .acquire k) rest → 0 < strongCount s.obj p k :=
      fun k hk => hs.covered k (by rw [hqueued]; omega)
    cases c with
    | ref c target =>
      have hpos : c.delta ≠ 0 → 0 < strongCount s.obj p target := fun hc => by
        cases c with
        | increfs | decrefs => exact absurd rfl hc
        | acquire => exact hs.covered target (by rw [hqueued]; simp)
        | release => exact hs.pos (by rw [hqueued (.ref .release target)]; simp)
      have hd := refCommand_recount hs.table c target kzalloc (fun hc ht => by
        subst hc
        subst ht
        exact hok) hpos
      refine hs.recount { s with
        mOut := rest, obj := refCommand s.obj p c target kzalloc } hd rfl rfl
        (fun k => ?_) (fun k hk => ?_) fun x hx _ => .inl hx
      · dsimp only
        rw [hqueued (.ref .acquire k), hqueued (.ref .release k)]
        cases c <;> by_cases hkt : k = target <;>
          simp [RefCommand.delta, hkt, eq_comm (a := target)] <;> ring
      · have hk₀ := hcovered k hk
        by_cases hkt : k = target
        · subst hkt
          rw [if_pos rfl]
          cases c with
          | release =>
            have hne : strongCount s.obj p k ≠ 1 := fun h1 => by
              have hz := hnone k (hok h1)
              change 0 < queued (.ref .acquire k) rest at hk
              omega
            simp only [RefCommand.delta]
            omega
          | increfs | acquire | decrefs =>
            simp only [RefCommand.delta]
            omega
        · rw [if_neg hkt, add_zero]
          exact hk₀
    | freeBuffer parcel =>
      unfold HandleState.execute
      dsimp only
      have hq : ∀ k c', queued (.ref c' k) s.mOut = queued (.ref c' k) rest := fun k c' => by
        rw [hqueued]
        simp
      split_ifs
      · have hsplit := strongObjects_filter s parcel
        -- a handle with an acquire on its way keeps one count at least
        have hkeep : ∀ k, 0 < queued (.ref .acquire k) rest →
            0 < strongCount s.obj p k - strongObjects k (s.objectsOf parcel) := fun k hk => by
          have hk₀ := hcovered k hk
          by_cases hzero : strongObjects k (s.objectsOf parcel) = 0
          · omega
          · by_contra hle
            have hz := hnone k (hok k (Nat.pos_of_ne_zero hzero) (by omega))
            omega
        have hd := releaseHandles_recount hs.table (s.objectsOf parcel) fun k => by
          have hl := hs.ledger k
          have hk := hkeep k
          have hs' := hsplit k
          rw [hq k .acquire] at hl
          omega
        refine hs.recount { s with
          mOut := rest
          obj := releaseHandles p s.obj (s.objectsOf parcel)
          objects := s.objects.filter (·.parcel ≠ parcel)
          parcels := s.parcels.set parcel .freed } hd rfl rfl (fun k => ?_) (fun k hk => ?_)
          fun x hx _ => .inl (List.mem_of_mem_filter hx)
        · dsimp only
          rw [hq, hq, hsplit k]
          push_cast
          ring
        · have hk' := hkeep k hk
          omega
      · refine hs.recount { s with mOut := rest } ((KeepsRefs.refl _).same.recount hs.table)
          rfl rfl (fun k => ?_) (fun k hk => ?_) fun x hx _ => .inl hx
        · dsimp only
          rw [hq, hq]
          ring
        · rw [add_zero]
          exact hcovered k hk

/-- One step. -/
theorem ProxyLedger.step (hs : ProxyLedger p s) (a : HandleAct) (hapart : Apart p s a)
    (hok : Orderly p s a) : ProxyLedger p ((handleMachine p).step s a) := by
  cases a with
  | others o =>
    have hd : Recount p (fun _ => 0) s.obj o := by
      rcases hapart with hsame | ⟨n, hnone, hsame⟩
      · exact hsame.recount hs.table
      · have hnew := (newRef_recount hs.table hnone).1
        exact (hnew.trans (hsame.recount hnew.table) fun _ => .inl le_rfl).congr fun _ => add_zero _
    exact hs.recount { s with obj := o } hd rfl rfl (fun k => by ring)
      (fun k hk => by simpa using hs.covered k hk) fun x hx _ => .inl hx
  | newParcel => exact ⟨hs.table, hs.ledger, hs.covered, hs.objects, hs.named, hs.entries⟩
  | translate parcel node strong targetList => exact hs.translate hok
  | receive parcel =>
    change ProxyLedger p (if _ then _ else _)
    split_ifs
    · exact ⟨hs.table, hs.ledger, hs.covered, hs.objects, hs.named, hs.entries⟩
    · exact hs
  | readBinder T i ping => exact hs.readBinder ping
  | copyStrong i =>
    refine hs.onProxy fun b hb => ?_
    split_ifs with h0
    · exact hs
    · exact hs.keepProxy hb rfl (by dsimp only; omega) fun n hn => .inl hn
  | decStrong T i => exact hs.decStrong
  | incWeak i =>
    refine hs.onProxy fun b hb => ?_
    split_ifs
    · exact hs
    · exact hs.keepProxy hb rfl Iff.rfl fun n hn => .inl hn
  | decWeak i =>
    refine hs.onProxy fun b hb => ?_
    split_ifs
    · exact hs.keepProxy hb rfl Iff.rfl fun n hn => .inl hn
    · exact hs
  | destroy T i => exact hs.destroy
  | destroyParcel T parcel =>
    change ProxyLedger p (s.destroyParcel T parcel)
    unfold HandleState.destroyParcel
    split_ifs
    · have hq : ∀ c k, queued (.ref c k) (s.mOut ++ [OutCommand.freeBuffer parcel].map (T, ·)) =
          queued (.ref c k) s.mOut := fun c k => by
        rw [queued_append]
        simp
      refine ⟨hs.table, fun k => ?_, fun k hk => hs.covered k ?_, hs.objects, hs.named, hs.entries⟩
      · have hl := hs.ledger k
        rw [← hq .acquire k, ← hq .release k] at hl
        exact hl
      · rw [← hq .acquire k]
        exact hk
    · exact hs
  | flush T kzalloc => exact hs.flush hok

theorem ProxyLedger.start (hstart : (handleMachine p).start s) : ProxyLedger p s := by
  obtain ⟨hdesc, hnode, heq⟩ := hstart
  have hget : ∀ k, binderGetRef s.obj p k = none := fun k => by
    unfold binderGetRef
    rw [hdesc]
    rfl
  have hout : s.mOut = [] := by rw [heq]
  have hobjects : s.objects = [] := by rw [heq]
  have hproxies : s.proxies = [] := by rw [heq]
  have htable : ∀ k, s.handleToObject k = none := by rw [heq]; exact fun _ => rfl
  have hcount : ∀ k, strongCount s.obj p k = 0 := fun k => by
    unfold strongCount
    rw [hget]
    rfl
  have ht : RefTable s.obj p := by
    constructor
    all_goals simp [hdesc, hnode]
  refine ⟨ht, fun k => ?_, fun k hk => ?_, fun x hx => ?_, fun b hb => ?_, fun k i hk => ?_⟩
  · rw [hcount, hout, hobjects, hproxies]
    rfl
  · rw [hout] at hk
    exact absurd hk (lt_irrefl 0)
  · rw [hobjects] at hx
    cases hx
  · rw [hproxies] at hb
    cases hb
  · rw [htable] at hk
    cases hk

theorem ProxyLedger.heldProxies (hs : ProxyLedger p s) : HeldProxies p s := by
  intro _ b hb hpos
  have hp := held_pos hb hpos
  obtain ⟨r, hget, hr⟩ := exists_of_strongCount (hs.pos (h := b.mHandle) (by omega))
  refine ⟨r, hget, hr, fun n hn => ?_⟩
  have hname := hs.named b hb hpos n hn
  unfold namedNode at hname
  rw [hget] at hname
  exact Option.some.inj hname

end

/-- In a run whose steps are all orderly every proxy that is held keeps its reference. -/
theorem proxies_valid {p : ℕ} {s : HandleState}
    (h : (handleMachine p).Reach (fun s a => Apart p s a ∧ Orderly p s a) s) : HeldProxies p s := by
  have hinv : ProxyLedger p s := by
    induction h with
    | start h => exact .start h
    | step _ a ha ih => exact ih.step a ha.1 ha.2
  exact hinv.heldProxies

/-- Process 9 has a node; process 1 has no reference yet. -/
def nodeOfNine : Objects := { node := Heap.empty.alloc { proc := some 9 } }

/-- Thread 1 reads a handle, and thread 2 destroys the parcel. -/
def readAndDestroy : List HandleAct :=
  [.newParcel, .translate 0 0 true (some (.threadTodo 5)), .receive 0, .readBinder 1 0 true,
    .destroyParcel 2 0]

def afterHandleActs (as : List HandleAct) : HandleState :=
  (handleMachine 1).exec { obj := nodeOfNine } as

theorem start_nodeOfNine : (handleMachine 1).start { obj := nodeOfNine } := ⟨rfl, rfl, rfl⟩

theorem proxies_valid_reader_first : HeldProxies 1
    (afterHandleActs (readAndDestroy ++ [.flush 1 true, .flush 1 true, .flush 2 true])) := by
  have hadm : (handleMachine 1).Admits (fun s a => Apart 1 s a ∧ Orderly 1 s a) { obj := nodeOfNine }
      (readAndDestroy ++ [.flush 1 true, .flush 1 true, .flush 2 true]) :=
    ⟨⟨trivial, trivial⟩, ⟨trivial, fun _ _ => .inr (.inl rfl)⟩, ⟨trivial, trivial⟩,
      ⟨trivial, trivial⟩, ⟨trivial, trivial⟩, ⟨trivial, trivial⟩, ⟨trivial, trivial⟩,
      ⟨trivial, fun _ _ _ _ hq => absurd hq List.not_mem_nil⟩, trivial⟩
  exact proxies_valid (.exec (.start start_nodeOfNine) hadm)

/-- The parcel is freed before the commands of its reader are executed. -/
theorem proxy_dropped : ¬∀ s, (handleMachine 1).Reach (Apart 1) s → HeldProxies 1 s := by
  intro hall
  have hreach : (handleMachine 1).Reach (Apart 1)
      (afterHandleActs (readAndDestroy ++ [.flush 2 true, .flush 1 true, .flush 1 true])) :=
    .exec (.start start_nodeOfNine) (by simp [readAndDestroy, Machine.Admits, Apart])
  obtain ⟨r, hget, -⟩ := hall _ hreach (by decide +kernel)
    { mHandle := 1, strong := 1, weak := 1, named := [0] } (by decide +kernel) (by decide)
  have hnone : binderGetRef (afterHandleActs (readAndDestroy ++
      [.flush 2 true, .flush 1 true, .flush 1 true])).obj 1 1 = none := by decide +kernel
  rw [hnone] at hget
  cases hget

end Binder

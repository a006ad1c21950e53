import BinderIpc.Svc.Reads
import BinderIpc.Svc.Store

/-! How a client lists the services: the handler's reply on its way through the
buffer of `binder_parse`, and the loop of `ServiceManagerProxy.listServices`. -/

namespace Binder

def SvcReply.put (M : ℕ) (reply : Bio) : SvcReply → Bio
  | status _ => reply
  | ref handle => reply.putRef M handle
  | string16 name => reply.putString16 M (some name)
  | uint32 n => reply.putUint32 M n

/-- `binder_parse` and `binder_send_reply`: the reply as the caller receives it, unless it is the
status code of a failure. `rdata` is what the stack holds behind the offsets. -/
def sendReply (M : ℕ) (rdata : ℕ → UInt8) (order : ByteOrder) (reply : SvcReply) : Option Bio :=
  if reply = .status true then none
  else some ((reply.put M (Bio.init M rdata 256 4 order)).received M)

/-- The string that `bio_get_string16` finds. -/
def Bio.readString16 (M : ℕ) (bio : Bio) : Option (List ℕ) :=
  let r := bio.getString16 M
  r.2.2.map fun ptr => r.1.string16 ptr r.2.1

/-- `SVC_MGR_LIST_SERVICES` with index `n`. -/
def ListRequest (M : ℕ) (txn : SvcTxn) (msg : Bio) (n : ℕ) : Prop :=
  txn.target = 0 ∧ txn.code = 4 ∧
    ((msg.getUint32 M).1.readString16 M = some svcmgrId ∧
      (((msg.getUint32 M).1.getString16 M).1.getUint32 M).2 = n)

instance (M : ℕ) (txn : SvcTxn) (msg : Bio) (n : ℕ) : Decidable (ListRequest M txn msg n) :=
  inferInstanceAs (Decidable (_ ∧ _))

def SvcMgr.names (m : SvcMgr) : List (List ℕ) := m.svclist.map m.nameAt

section

variable {M n : ℕ} {m : SvcMgr} {env : MacEnv} {malloc : Bool} {txn : SvcTxn} {msg : Bio}
  {s : List ℕ}

theorem svcmgrHandler_list (malloc : Bool) (hreq : ListRequest M txn msg n)
    (hcan : (svcCanList env txn.senderPid txn.senderEuid).1 = true) :
    (svcmgrHandler M m env malloc txn msg).mgr = m ∧
      (svcmgrHandler M m env malloc txn msg).reply =
        (m.names[n]?).elim (.status true) .string16 := by
  obtain ⟨htarget, hcode, hid, rfl⟩ := hreq
  have hping : ¬(4 : ℕ) = pingTransaction := by decide
  unfold Bio.readString16 at hid
  unfold svcmgrHandler
  rw [if_neg (by simpa using htarget), hcode, if_neg hping]
  generalize hu : msg.getUint32 M = u at hid ⊢
  obtain ⟨msg1, policy⟩ := u
  dsimp only at hid ⊢
  generalize hg : msg1.getString16 M = g at hid ⊢
  obtain ⟨msg2, len, ptr⟩ := g
  cases ptr with
  | none => cases hid
  | some ptr =>
    have hstr : msg2.string16 ptr len = svcmgrId := by simpa using hid
    have hlen : len = svcmgrId.length := by rw [← hstr, Bio.string16]; simp
    simp only [hlen, ne_eq, not_true_eq_false, false_or]
    rw [if_neg (by rw [← hlen, hstr]; simp), if_neg (by decide), if_neg (by decide), if_pos trivial]
    unfold listServices
    dsimp only
    refine ⟨rfl, ?_⟩
    rw [if_pos hcan, SvcMgr.names, List.getElem?_map]
    cases m.svclist[(msg2.getUint32 M).2]? <;> rfl

/-! The reply buffer -/

/-- The content of a name. -/
def Named (s : List ℕ) : Prop := ∀ u ∈ s, u ≠ 0 ∧ u < 2 ^ 16

/-- The longest name that fits into the reply. -/
def listLimit (M : ℕ) : ℕ := if M = 2 ^ 32 then 117 else 109

/-- The buffer that the offsets leave for the reply. -/
def replyRoom (M : ℕ) : ℕ := 256 - 4 * Bio.sizeofSize M

theorem init_reply (hM : M = 2 ^ 32 ∨ M = 2 ^ 64) (rdata : ℕ → UInt8) (order : ByteOrder) :
    Bio.init M rdata 256 4 order =
      { mem := rdata, dataAvail := replyRoom M, offsAvail := 4, order := order } := by
  rcases hM with rfl | rfl
  · rfl
  · rfl

/-- Where the room ends. -/
theorem stringTake_le (hM : M = 2 ^ 32 ∨ M = 2 ^ 64) (len : ℕ) :
    4 + Bio.stringTake len ≤ replyRoom M ↔ len ≤ listLimit M := by
  unfold Bio.stringTake listLimit
  rcases hM with rfl | rfl
  · have hroom : replyRoom (2 ^ 32) = 240 := rfl
    rw [hroom, if_pos rfl]
    omega
  · have hroom : replyRoom (2 ^ 64) = 224 := rfl
    rw [hroom, if_neg (by norm_num)]
    omega

theorem putString16_reply (hM : M = 2 ^ 32 ∨ M = 2 ^ 64) (hs : Named s) (hlen : s.length ≤ 127)
    (rdata : ℕ → UInt8) (order : ByteOrder) :
    (Bio.init M rdata 256 4 order).putString16 M (some s) =
      let bio := ((Bio.init M rdata 256 4 order).skip 4).write 0 (order.bytes 4 s.length)
      if s.length ≤ listLimit M then
        (bio.skip (Bio.stringTake s.length)).write 4 (Bio.units order s)
      else { bio with overflow := true } := by
  have hbig : 2 ^ 31 ≤ M := by rcases hM with rfl | rfl <;> norm_num
  have htake : s.takeWhile (· ≠ 0) = s :=
    List.takeWhile_eq_self_iff.2 fun u hu => by simpa using (hs u hu).1
  have hshort : ¬Bio.maxBioSize / 2 ≤ s.length := by
    have : Bio.maxBioSize / 2 = 2 ^ 29 := rfl
    omega
  have hround := Bio.roundUp_units (show 2 * s.length + 5 < M by omega)
  have hroom := stringTake_le hM s.length
  have h4 : 4 ≤ replyRoom M := by rcases hM with rfl | rfl <;> decide
  rw [init_reply hM]
  set bio : Bio := { mem := rdata, dataAvail := replyRoom M, offsAvail := 4, order := order }
  have hput : bio.putUint32 M s.length = (bio.skip 4).write 0 (order.bytes 4 s.length) :=
    Bio.putUint32_some hbig h4
  have havail : ((bio.skip 4).write 0 (order.bytes 4 s.length)).dataAvail = replyRoom M - 4 := rfl
  simp only [Bio.putString16, htake, if_neg hshort, hput]
  unfold Bio.stringTake at hroom ⊢
  rw [Bio.alloc_eq, hround, havail]
  split_ifs with h1 h2 h2
  · omega
  · rfl
  · rfl
  · omega

/-- A length without the string. -/
theorem readString16_truncated {r : Bio} (len : ℕ) (hM : 2 ^ 31 ≤ M) (hlen : r.lenAt = len)
    (havail : r.dataAvail = 4) (hshort : len < 2 ^ 29) : r.readString16 M = none := by
  have hround := Bio.roundUp_units (show 2 * len + 5 < M by omega)
  have hword : r.order.word r.mem 4 r.data = len := hlen
  have hrest : (r.skip 4).dataAvail = 0 := Nat.sub_eq_zero_of_le havail.le
  have hnone : (r.getString16 M).2.2 = none := by
    rw [Bio.getString16, Bio.getUint32_some hM havail.ge]
    dsimp only
    rw [hword, Bio.get_eq, hround, hrest, if_pos (by omega)]
  rw [Bio.readString16, hnone]
  rfl

theorem sendReply_string16 (hM : M = 2 ^ 32 ∨ M = 2 ^ 64) (hs : Named s) (hlen : s.length ≤ 127)
    (rdata : ℕ → UInt8) (order : ByteOrder) :
    (sendReply M rdata order (.string16 s)).bind (Bio.readString16 M) = some s ↔
      s.length ≤ listLimit M := by
  have hbig : 2 ^ 31 ≤ M := by rcases hM with rfl | rfl <;> norm_num
  have hput := putString16_reply hM hs hlen rdata order
  have hsend : sendReply M rdata order (.string16 s) =
      some (((Bio.init M rdata 256 4 order).putString16 M (some s)).received M) :=
    if_neg (by simp)
  rw [hsend, Option.bind_some]
  have hstart : (Bio.init M rdata 256 4 order).data = 0 := by rw [init_reply hM]
  constructor
  · intro hread
    by_contra hlong
    -- only the length is in the reply
    rw [hput, if_neg hlong, init_reply hM] at hread
    have hlenAt := (Stored.order_word (stored_store rdata 0 (order.bytes 4 s.length))).trans
      (Nat.mod_eq_of_lt (by omega))
    have hnone := hread.symm.trans (readString16_truncated s.length hbig hlenAt rfl (by omega))
    cases hnone
  · intro hle
    rw [if_pos hle] at hput
    have hno : ((BioItem.string16 (some s)).put M (Bio.init M rdata 256 4 order)).overflow = false := by
      change ((Bio.init M rdata 256 4 order).putString16 M (some s)).overflow = false
      rw [hput, init_reply hM]
      rfl
    have ht : (Bio.init M rdata 256 4 order).Tidy := by
      rw [init_reply hM]
      exact fun n hn => absurd hn (Nat.not_lt_zero n)
    have htyped : (BioItem.string16 (some s)).Typed := fun t ht u hu => by
      cases ht
      exact hs u hu
    obtain ⟨hdata, hat⟩ := Bio.put_ok hbig ht htyped hno
    rw [hstart] at hdata hat
    have hplain : (BioItem.string16 (some s)).plain = true := by
      have : Bio.maxBioSize / 2 = 2 ^ 29 := rfl
      simp [BioItem.plain, this]
      omega
    have hget := congrArg Prod.snd (BioItem.get_at hbig htyped hplain hat hdata.ge)
    exact BioValue.string16.inj hget

/-! The names stay in the list -/

variable {x : SvcMgr × List StoreEvent} {store : SvcStore} {h : ℕ}

theorem names_assign (m : SvcMgr) (si h : ℕ) (out : List SvcCommand) :
    SvcMgr.names { m.setHandle si h with out := out } = m.names := by
  refine List.map_congr_left fun sj _ => ?_
  exact m.info.apply_get_modify si sj (fun x => { x with handle := h }) (·.name) fun _ => rfl

theorem names_svcinfoDeath (m : SvcMgr) (si : ℕ) : (svcinfoDeath m si).names = m.names := by
  rw [svcinfoDeath_eq, names_assign]

/-- A name that is added is in the list, or is put at its head. -/
theorem names_doAddService (hi : StoreInv m store) {env : MacEnv} {malloc : Bool} {uid spid : ℕ}
    {allowIsolated : Bool}
    (hok : (doAddService m env malloc s h uid allowIsolated spid).2.1 = true) :
    (s ∈ m.names ∧ (doAddService m env malloc s h uid allowIsolated spid).1.names = m.names) ∨
      (s ∉ m.names ∧
        (doAddService m env malloc s h uid allowIsolated spid).1.names = s :: m.names) := by
  obtain ⟨sj, heq⟩ := doAddService_added hok
  rw [heq]
  cases hf : m.findSvc s with
  | some si =>
    obtain ⟨hsi, hn⟩ := findSvc_mem hf
    refine .inl ⟨List.mem_map.2 ⟨si, hsi, hn⟩, ?_⟩
    exact (names_assign (svcinfoDeath m si) si h _).trans (names_svcinfoDeath m si)
  | none =>
    refine .inr ⟨fun hmem => ?_, ?_⟩
    · obtain ⟨si, hsi, hn⟩ := List.mem_map.1 hmem
      have := List.find?_eq_none.1 hf si hsi
      simp only [decide_eq_true_eq] at this
      exact this hn
    · set m' := ((newSvc m s h allowIsolated).write (.acquire h)).write (.linkToDeath h sj)
      have hget : ∀ sk, m'.info.get sk = if sk = m.info.next then
          { handle := h, allowIsolated := allowIsolated, name := s } else m.info.get sk :=
        fun _ => rfl
      have hhead : m'.nameAt m.info.next = s := by simp [SvcMgr.nameAt, hget]
      have hrest : m.svclist.map m'.nameAt = m.names := List.map_congr_left fun sk hsk => by
        rw [SvcMgr.nameAt, hget, if_neg (hi.bound sk hsk).ne, SvcMgr.nameAt]
      have hcons : m'.names = m'.nameAt m.info.next :: m.svclist.map m'.nameAt := rfl
      rw [hcons, hhead, hrest]

/-- What one operation does to the names. -/
theorem names_step (hx : storeMachine.Reach (fun _ _ => True) x) (op : SvcOp) :
    (storeMachine.step x op).1.names = x.1.names ∨
      ∃ env malloc s handle uid allowIsolated spid,
        op = .add env malloc s handle uid allowIsolated spid ∧ s ∉ x.1.names ∧
          s.length ≤ 127 ∧ (storeMachine.step x op).1.names = s :: x.1.names := by
  cases op with
  | find env s uid spid => exact .inl rfl
  | death si =>
    refine .inl ?_
    change (if si ∈ x.1.svclist then _ else x).1.names = x.1.names
    split_ifs
    · exact names_svcinfoDeath ..
    · rfl
  | add env malloc s handle uid allowIsolated spid =>
    by_cases hok : (doAddService x.1 env malloc s handle uid allowIsolated spid).2.1 = true
    · rcases names_doAddService (storeInv_reach hx) hok with ⟨-, hsame⟩ | ⟨hs, hcons⟩
      · exact .inl hsame
      · obtain ⟨⟨-, -, hlen⟩, -⟩ := doAddService_checked hok
        exact .inr ⟨env, malloc, s, handle, uid, allowIsolated, spid, rfl, hs, hlen, hcons⟩
    · have hsame := doAddService_refused (Bool.eq_false_iff.2 hok)
      exact .inl (congrArg SvcMgr.names hsame)

/-! Every name that can be registered can be listed, if it is short enough -/

/-- The name of an added service has 16-bit units and no NUL. -/
def SvcOp.Named : SvcOp → Prop
  | add _ _ s _ _ _ _ => Binder.Named s
  | find _ _ _ _ => True
  | death _ => True

theorem added_listed (hx : storeMachine.Reach (fun _ op => op.Named) x) :
    ∀ s h, .added s h ∈ x.2 → s ∈ x.1.names ∧ s.length ≤ 127 ∧ Named s := by
  induction hx with
  | start h =>
    cases h
    simp
  | @step x hx op hop ih =>
    have hnames := names_step (hx.mono fun _ _ _ => trivial) op
    have hkeep : ∀ s ∈ x.1.names, s ∈ (storeMachine.step x op).1.names := by
      rcases hnames with heq | ⟨_, _, _, _, _, _, _, -, -, -, heq⟩
      · exact fun s hs => heq ▸ hs
      · exact fun s hs => heq ▸ List.mem_cons_of_mem _ hs
    intro s h hmem
    by_cases hold : .added s h ∈ x.2
    · exact ⟨hkeep s (ih s h hold).1, (ih s h hold).2⟩
    · cases op with
      | find env s uid spid => exact absurd hmem hold
      | death si =>
        have : .added s h ∈ (if si ∈ x.1.svclist then (svcinfoDeath x.1 si,
            x.2 ++ [.died (x.1.info.get si).name]) else x).2 := hmem
        split_ifs at this
        · exact absurd this (by simp [hold])
        · exact absurd this hold
      | add env malloc t handle uid allowIsolated spid =>
        have hin : .added s h ∈ if (doAddService x.1 env malloc t handle uid allowIsolated spid).2.1
          then x.2 ++ [.added t handle] else x.2 := hmem
        split_ifs at hin with hok
        · obtain ⟨rfl, rfl⟩ : s = t ∧ h = handle := by simpa [hold] using hin
          obtain ⟨⟨-, -, hlen⟩, -⟩ := doAddService_checked hok
          refine ⟨?_, hlen, hop⟩
          have hi := storeInv_reach hx
          rcases names_doAddService hi hok with ⟨hs, heq⟩ | ⟨-, heq⟩
          · exact heq ▸ hs
          · exact heq ▸ List.mem_cons_self
        · exact absurd hin hold

theorem listed_name_decodes (hM : M = 2 ^ 32 ∨ M = 2 ^ 64)
    (hx : storeMachine.Reach (fun _ op => op.Named) x) (hadd : .added s h ∈ x.2) :
    (∃ n : ℕ, x.1.names[n]? = some s) ∧
      ∀ (n : ℕ) (env : MacEnv) (malloc : Bool) (txn : SvcTxn) (msg : Bio) (rdata : ℕ → UInt8)
        (order : ByteOrder), x.1.names[n]? = some s → ListRequest M txn msg n →
        (svcCanList env txn.senderPid txn.senderEuid).1 = true →
        ((sendReply M rdata order (svcmgrHandler M x.1 env malloc txn msg).reply).bind
          (Bio.readString16 M) = some s ↔ s.length ≤ listLimit M) := by
  obtain ⟨hmem, hlen, hs⟩ := added_listed hx s h hadd
  refine ⟨List.mem_iff_getElem?.1 hmem, fun n env malloc txn msg rdata order hn hreq hcan => ?_⟩
  rw [(svcmgrHandler_list malloc hreq hcan).2, hn]
  exact sendReply_string16 hM hs hlen rdata order

/-- The request for the name at position `n`. -/
def listMessage (n : ℕ) : Bio :=
  ((Bio.init (2 ^ 64) (fun _ => 0) 512 4).putAll (2 ^ 64)
    [.uint32 0, .string16 (some svcmgrId), .uint32 n]).received (2 ^ 64)

def listTxn : SvcTxn := { code := 4, senderPid := 100, senderEuid := 1000 }

/-- A service with a name of `len` units. -/
def registered (len : ℕ) : SvcMgr × List StoreEvent :=
  storeMachine.exec ({}, []) [.add {} true (List.replicate len 65) 7 1000 false 100]

theorem listed_name_decodes_short :
    (sendReply (2 ^ 64) (fun _ => 0) .little
      (svcmgrHandler (2 ^ 64) (registered 109).1 {} true listTxn (listMessage 0)).reply).bind
      (Bio.readString16 (2 ^ 64)) = some (List.replicate 109 65) := by
  have hx : storeMachine.Reach (fun _ op => op.Named) (registered 109) :=
    .step (.start rfl) _ fun u hu => by rw [List.eq_of_mem_replicate hu]; decide
  have hadd : .added (List.replicate 109 65) 7 ∈ (registered 109).2 := by decide +kernel
  exact ((listed_name_decodes (.inr rfl) hx hadd).2 0 {} true listTxn (listMessage 0)
    (fun _ => 0) .little (by decide +kernel) (by decide +kernel) (by decide +kernel)).2
    (by decide +kernel)

/-- A name of 110 units is registered, but its reply holds the length alone. -/
theorem long_name_not_listed :
    .added (List.replicate 110 65) 7 ∈ (registered 110).2 ∧
      (registered 110).1.names[0]? = some (List.replicate 110 65) ∧
      ListRequest (2 ^ 64) listTxn (listMessage 0) 0 ∧
      (sendReply (2 ^ 64) (fun _ => 0) .little
        (svcmgrHandler (2 ^ 64) (registered 110).1 {} true listTxn (listMessage 0)).reply).bind
        (Bio.readString16 (2 ^ 64)) = none := by
  decide +kernel

end

/-! The loop of `listServices` while other clients add services and services die -/

/-- `android_os_Parcel_readString`. `Parcel::readString16Inplace` gives the length and where the
units are. -/
def androidOsParcelReadString (readString16Inplace : Bio → Option (ℕ × ℕ)) (parcel : Bio) :
    Option (List ℕ) :=
  (readString16Inplace parcel).map fun (len, str) => parcel.string16 str len

/-- A string that is in the parcel with its length and its terminator is found. -/
def ReadsInplace (readString16Inplace : Bio → Option (ℕ × ℕ)) : Prop :=
  ∀ parcel : Bio, parcel.lenAt < 2 ^ 31 - 1 → 4 + Bio.stringTake parcel.lenAt ≤ parcel.dataAvail →
    readString16Inplace parcel = some (parcel.lenAt, parcel.data + 4)

/-- What `bio_get_string16` would find is read. -/
theorem ReadsInplace.readString {readString16Inplace : Bio → Option (ℕ × ℕ)} {M : ℕ} {parcel : Bio}
    {s : List ℕ} (hread : ReadsInplace readString16Inplace) (hM : 2 ^ 31 ≤ M)
    (hs : parcel.readString16 M = some s) (hlen : s.length < 2 ^ 29) :
    androidOsParcelReadString readString16Inplace parcel = some s := by
  obtain ⟨ptr, hptr, hstr⟩ := Option.map_eq_some_iff.1 hs
  have hunits : s.length = (parcel.getString16 M).2.1 := by
    rw [← hstr, Bio.string16, List.length_map, List.length_range]
  rcases getString16_cases hM parcel with ⟨-, hnone⟩ | ⟨h4, hl, hp⟩
  · rw [hnone] at hptr
    cases hptr
  have hlenAt : parcel.lenAt < 2 ^ 29 := by omega
  have hround := Bio.roundUp_units (show 2 * parcel.lenAt + 5 < M by omega)
  rw [hp, hround] at hptr
  split_ifs at hptr with hfar
  have hroom : 4 + Bio.stringTake parcel.lenAt ≤ parcel.dataAvail := by
    unfold Bio.stringTake
    omega
  rw [Bio.getString16_some hM hlenAt hroom] at hstr
  rw [androidOsParcelReadString, hread parcel (by omega) hroom]
  cases hptr
  exact congrArg some hstr

structure Enumeration where
  store : SvcMgr × List StoreEvent
  /-- the names in the list when the loop started -/
  initial : List (List ℕ)
  /-- the index of the next request -/
  n : ℕ := 0
  /-- what `readString` found -/
  services : List (Option (List ℕ)) := []
  done : Bool := false

inductive EnumerationAct
  | op (op : SvcOp)
  | request (env : MacEnv) (malloc : Bool) (txn : SvcTxn) (msg : Bio) (rdata : ℕ → UInt8)
    (order : ByteOrder)

namespace Enumeration

variable (readString16Inplace : Bio → Option (ℕ × ℕ))

def request (e : Enumeration) (reply : Option Bio) : Enumeration :=
  match reply with
  | none => { e with n := e.n + 1, done := true }
  | some bio =>
    { e with
      n := e.n + 1
      services := e.services ++ [androidOsParcelReadString readString16Inplace bio] }

def step (M : ℕ) (e : Enumeration) : EnumerationAct → Enumeration
  | .op op => { e with store := storeMachine.step e.store op }
  | .request env malloc txn msg rdata order =>
    let r := svcmgrHandler M e.store.1 env malloc txn msg
    ({ e with store := (r.mgr, e.store.2) }).request readString16Inplace
      (sendReply M rdata order r.reply)

end Enumeration

/-- The name is short enough for the reply. -/
def SvcOp.Listable (M : ℕ) : SvcOp → Prop
  | add _ _ s _ _ _ _ => Binder.Named s ∧ s.length ≤ listLimit M
  | find _ _ _ _ => True
  | death _ => True

namespace Enumeration

def machine (readString16Inplace : Bio → Option (ℕ × ℕ)) (M : ℕ) :
    Machine Enumeration EnumerationAct where
  start e := storeMachine.Reach (fun _ op => op.Listable M) e.store ∧
    e = { store := e.store, initial := e.store.1.names }
  step := step readString16Inplace M

/-- The client may list, and its index of 32 bits reaches the end of the list. -/
def Admits (M : ℕ) (e : Enumeration) : EnumerationAct → Prop
  | .op op => op.Listable M
  | .request env _ txn msg _ _ => e.done = false ∧ ListRequest M txn msg (e.n % 2 ^ 32) ∧
    (svcCanList env txn.senderPid txn.senderEuid).1 = true ∧ e.store.1.names.length < 2 ^ 32

/-- How many names were put at the head since the loop started. -/
def inserted (e : Enumeration) : ℕ := e.store.1.names.length - e.initial.length

/-- How often a name was returned. -/
def returned (e : Enumeration) (s : List ℕ) : ℕ := e.services.count (some s)

end Enumeration

structure EnumerationInv (M : ℕ) (e : Enumeration) : Prop where
  store : storeMachine.Reach (fun _ op => op.Listable M) e.store
  short : ∀ s ∈ e.store.1.names, Named s ∧ s.length ≤ listLimit M
  names : ∃ new, e.store.1.names = new ++ e.initial
  ended : e.n ≤ e.store.1.names.length + if e.done then 1 else 0
  most : ∀ (j : ℕ) s, e.initial[j]? = some s → e.returned s ≤ e.inserted + 1
  /-- the cursor has not come to the name since the last one was inserted -/
  ahead : ∀ (j : ℕ) s, e.initial[j]? = some s → e.n ≤ e.inserted + j → e.returned s ≤ e.inserted
  passed : ∀ (j : ℕ) s, e.initial[j]? = some s → e.inserted + j < e.n → 1 ≤ e.returned s
  complete : e.done = true → ∀ (j : ℕ) s, e.initial[j]? = some s → 1 ≤ e.returned s

section

variable {M : ℕ} {e : Enumeration} {env : MacEnv} {malloc : Bool} {txn : SvcTxn} {msg : Bio}
  {rdata : ℕ → UInt8} {order : ByteOrder} {readString16Inplace : Bio → Option (ℕ × ℕ)}

theorem EnumerationInv.inserted_add (hi : EnumerationInv M e) :
    e.store.1.names.length = e.inserted + e.initial.length := by
  obtain ⟨new, heq⟩ := hi.names
  have : e.inserted = new.length := by simp [Enumeration.inserted, heq]
  rw [this, heq, List.length_append]

/-- A name of the start has moved on by the number of insertions. -/
theorem EnumerationInv.position (hi : EnumerationInv M e) {j : ℕ} {s : List ℕ}
    (hj : e.initial[j]? = some s) : e.store.1.names[e.inserted + j]? = some s := by
  obtain ⟨new, heq⟩ := hi.names
  have : e.inserted = new.length := by simp [Enumeration.inserted, heq]
  rw [this, heq, List.getElem?_append_right (Nat.le_add_right ..), Nat.add_sub_cancel_left, hj]

theorem EnumerationInv.distinct (hi : EnumerationInv M e) : e.store.1.names.Nodup :=
  (storeInv_reach hi.store).distinct

theorem listable_names {x : SvcMgr × List StoreEvent}
    (h : storeMachine.Reach (fun _ op => op.Listable M) x) :
    ∀ s ∈ x.1.names, Named s ∧ s.length ≤ listLimit M := by
  induction h with
  | start h =>
    cases h
    exact fun s hs => absurd hs List.not_mem_nil
  | step hx op hop ih =>
    rcases names_step (hx.mono fun _ _ _ => trivial) op with
      heq | ⟨_, _, t, _, _, _, _, rfl, -, -, heq⟩
    · exact fun s hs => ih s (heq ▸ hs)
    · intro s hs
      rcases List.mem_cons.1 (heq ▸ hs) with rfl | hs
      · exact hop
      · exact ih s hs

theorem EnumerationInv.op (hi : EnumerationInv M e) {op : SvcOp} (hop : op.Listable M) :
    EnumerationInv M { e with store := storeMachine.step e.store op } := by
  have hstore := hi.store.step op hop
  rcases names_step (hi.store.mono fun _ _ _ => trivial) op with
    hsame | ⟨_, _, s, _, _, _, _, rfl, -, -, hcons⟩
  · have hins : Enumeration.inserted { e with store := storeMachine.step e.store op } =
        e.inserted := by simp [Enumeration.inserted, hsame]
    refine ⟨hstore, ?_, ?_, ?_, ?_, ?_, ?_, hi.complete⟩
    · exact fun t ht => hi.short t (hsame ▸ ht)
    · exact hi.names.imp fun new heq => hsame.trans heq
    · exact (hi.ended.trans_eq (by rw [hsame]))
    · exact fun j t hj => (hi.most j t hj).trans_eq (by rw [hins])
    · exact fun j t hj hle => (hi.ahead j t hj (by rwa [hins] at hle)).trans_eq hins.symm
    · exact fun j t hj hlt => hi.passed j t hj (by rwa [hins] at hlt)
  · set e' : Enumeration := { e with store := storeMachine.step e.store _ } with he'
    have hins : e'.inserted = e.inserted + 1 := by
      have hlen := hi.inserted_add
      have : e'.store.1.names.length = e.store.1.names.length + 1 := by rw [he', hcons]; rfl
      have hinit : e'.initial = e.initial := rfl
      unfold Enumeration.inserted at hlen ⊢
      rw [this, hinit]
      omega
    refine ⟨hstore, ?_, ?_, ?_, ?_, ?_, ?_, hi.complete⟩
    · intro t ht
      rcases List.mem_cons.1 (hcons ▸ ht) with rfl | ht
      · exact hop
      · exact hi.short t ht
    · obtain ⟨new, heq⟩ := hi.names
      exact ⟨s :: new, by rw [he', hcons, heq, List.cons_append]⟩
    · refine hi.ended.trans (Nat.add_le_add_right ?_ _)
      rw [he', hcons, List.length_cons]
      omega
    · exact fun j t hj => (hi.most j t hj).trans (by rw [hins]; omega)
    · exact fun j t hj _ => (hi.most j t hj).trans_eq hins.symm
    · exact fun j t hj hlt => hi.passed j t hj (by
        have hn : e'.n = e.n := rfl
        omega)

/-- What a request of the loop brings. -/
theorem EnumerationInv.reply (hread : ReadsInplace readString16Inplace)
    (hM : M = 2 ^ 32 ∨ M = 2 ^ 64) (hi : EnumerationInv M e)
    (hadm : e.Admits M (.request env malloc txn msg rdata order)) :
    e.step readString16Inplace M (.request env malloc txn msg rdata order) =
      match e.store.1.names[e.n]? with
      | none => { e with n := e.n + 1, done := true }
      | some s => { e with n := e.n + 1, services := e.services ++ [some s] } := by
  obtain ⟨hdone, hreq, hcan, hlen⟩ := hadm
  have hn : e.n % 2 ^ 32 = e.n := Nat.mod_eq_of_lt (by
    have := hi.ended
    rw [hdone] at this
    simp only [Bool.false_eq_true, if_false] at this
    omega)
  rw [hn] at hreq
  obtain ⟨hmgr, hreply⟩ := svcmgrHandler_list malloc hreq hcan
  have hstore : ((svcmgrHandler M e.store.1 env malloc txn msg).mgr, e.store.2) = e.store := by
    rw [hmgr]
  rw [Enumeration.step, hstore, hreply]
  cases hs : e.store.1.names[e.n]? with
  | none => rfl
  | some s =>
    have hshort := hi.short s (List.mem_of_getElem? hs)
    have hlim : listLimit M ≤ 127 := by unfold listLimit; split_ifs <;> decide
    have hdec := (sendReply_string16 hM hshort.1 (hshort.2.trans hlim) rdata order).2 hshort.2
    have hsend : ∃ bio, sendReply M rdata order (.string16 s) = some bio :=
      ⟨_, if_neg (by simp)⟩
    obtain ⟨bio, hb⟩ := hsend
    rw [hb] at hdec
    have hbig : 2 ^ 31 ≤ M := by rcases hM with rfl | rfl <;> norm_num
    have hstring := hread.readString hbig hdec (by omega)
    have hb' : sendReply M rdata order ((some s).elim (.status true) .string16) = some bio := hb
    rw [hb', Enumeration.request, hstring]

theorem EnumerationInv.request (hread : ReadsInplace readString16Inplace)
    (hM : M = 2 ^ 32 ∨ M = 2 ^ 64) (hi : EnumerationInv M e)
    (hadm : e.Admits M (.request env malloc txn msg rdata order)) :
    EnumerationInv M (e.step readString16Inplace M (.request env malloc txn msg rdata order)) := by
  rw [hi.reply hread hM hadm]
  have hlen := hi.inserted_add
  have hended := hi.ended
  rw [hadm.1] at hended
  simp only [Bool.false_eq_true, if_false] at hended
  have hlt : ∀ {j s}, e.initial[j]? = some s → j < e.initial.length :=
    fun hj => (List.getElem?_eq_some_iff.1 hj).1
  cases hs : e.store.1.names[e.n]? with
  | none =>
    -- the cursor is behind every name
    have hn : e.store.1.names.length ≤ e.n := List.getElem?_eq_none_iff.1 hs
    refine ⟨hi.store, hi.short, hi.names, ?_, hi.most, ?_, ?_, ?_⟩
    · simp only [if_true]
      omega
    · intro j s hj hle
      have := hlt hj
      have hle : e.n + 1 ≤ e.inserted + j := hle
      omega
    · intro j s hj _
      have := hlt hj
      exact hi.passed j s hj (by omega)
    · intro _ j s hj
      have := hlt hj
      exact hi.passed j s hj (by omega)
  | some s =>
    set e' : Enumeration := { e with n := e.n + 1, services := e.services ++ [some s] } with he'
    have hins : e'.inserted = e.inserted := rfl
    have hcount : ∀ t, e'.returned t = e.returned t + if s = t then 1 else 0 := fun t => by
      simp [he', Enumeration.returned, List.count_append, List.count_singleton]
    have hat : ∀ {j t}, e.initial[j]? = some t → (s = t ↔ e.n = e.inserted + j) := by
      intro j t hj
      have hpos := hi.position hj
      constructor
      · rintro rfl
        have hn := (List.getElem?_eq_some_iff.1 hs).1
        exact (List.getElem?_inj hn hi.distinct).1 (hs.trans hpos.symm)
      · intro heq
        rw [heq, hpos] at hs
        exact (Option.some_inj.1 hs).symm
    refine ⟨hi.store, hi.short, hi.names, ?_, ?_, ?_, ?_, ?_⟩
    · have hn := (List.getElem?_eq_some_iff.1 hs).1
      exact Nat.le_add_right_of_le hn
    · intro j t hj
      rw [hcount, hins]
      split_ifs with heq
      · have := hi.ahead j t hj (((hat hj).1 heq).le)
        omega
      · exact hi.most j t hj
    · intro j t hj hle
      have hle : e.n + 1 ≤ e.inserted + j := hle
      rw [hcount, hins, if_neg fun heq => by have := (hat hj).1 heq; omega]
      exact hi.ahead j t hj (by omega)
    · intro j t hj hlt'
      have hlt' : e.inserted + j < e.n + 1 := hlt'
      rw [hcount]
      by_cases heq : s = t
      · rw [if_pos heq]
        omega
      · have hne : e.n ≠ e.inserted + j := fun h => heq ((hat hj).2 h)
        rw [if_neg heq]
        exact hi.passed j t hj (by omega)
    · intro hd
      exact absurd (hadm.1.symm.trans hd) (by decide)

/-- The enumeration ends, and returns every name of the start at least once and at most once more
for every name that is inserted meanwhile. -/
theorem listServices_complete (hread : ReadsInplace readString16Inplace)
    (hM : M = 2 ^ 32 ∨ M = 2 ^ 64)
    (h : (Enumeration.machine readString16Inplace M).Reach (Enumeration.Admits M) e) :
    e.n ≤ e.store.1.names.length + 1 ∧
      ∀ s ∈ e.initial, e.returned s ≤ e.inserted + 1 ∧ (e.done = true → 1 ≤ e.returned s) := by
  have hi : EnumerationInv M e := by
    refine h.invariant (I := EnumerationInv M) (fun e hstart => ?_) fun e act hi hadm => ?_
    · obtain ⟨hstore, heq⟩ := hstart
      have hshort := listable_names hstore
      rw [heq]
      refine ⟨hstore, hshort, ⟨[], rfl⟩, Nat.zero_le _, ?_, ?_, ?_, ?_⟩
      · exact fun _ _ _ => Nat.zero_le _
      · exact fun _ _ _ _ => Nat.zero_le _
      · exact fun _ _ _ hlt => absurd hlt (Nat.not_lt_zero _)
      · exact fun hd => absurd hd Bool.false_ne_true
    · cases act with
      | op op => exact hi.op hadm
      | request env malloc txn msg rdata order => exact hi.request hread hM hadm
  refine ⟨hi.ended.trans (by split_ifs <;> omega), fun s hs => ?_⟩
  obtain ⟨j, hj⟩ := List.mem_iff_getElem?.1 hs
  exact ⟨hi.most j s hj, fun hd => hi.complete hd j s hj⟩

/-- `Parcel::readString16Inplace` for these replies. -/
def readInplace (parcel : Bio) : Option (ℕ × ℕ) :=
  if parcel.lenAt < 2 ^ 31 - 1 ∧ 4 + Bio.stringTake parcel.lenAt ≤ parcel.dataAvail then
    some (parcel.lenAt, parcel.data + 4)
  else none

theorem readsInplace : ReadsInplace readInplace := fun _ hlen hroom => if_pos ⟨hlen, hroom⟩

/-- One service; a second one is added between two requests. -/
def twiceRun : List EnumerationAct :=
  let request := fun n => .request {} true listTxn (listMessage n) (fun _ => 0) .little
  [request 0, .op (.add {} true [66] 8 1000 false 101), request 1, request 2]

def enumerated : Enumeration :=
  (Enumeration.machine readInplace (2 ^ 64)).exec
    { store := registered 1, initial := (registered 1).1.names } twiceRun

theorem enumerated_reach :
    (Enumeration.machine readInplace (2 ^ 64)).Reach (Enumeration.Admits (2 ^ 64)) enumerated := by
  have hstart : storeMachine.Reach (fun _ op => op.Listable (2 ^ 64)) (registered 1) := by
    refine .step (.start rfl) _ ⟨fun u hu => ?_, by decide⟩
    rw [List.eq_of_mem_replicate hu]
    decide
  have hadd : SvcOp.Listable (2 ^ 64) (.add {} true [66] 8 1000 false 101) := by
    refine ⟨fun u hu => ?_, by decide⟩
    rw [List.eq_of_mem_singleton hu]
    decide
  have h0 : (Enumeration.machine readInplace (2 ^ 64)).Reach (Enumeration.Admits (2 ^ 64))
      { store := registered 1, initial := (registered 1).1.names } := .start ⟨hstart, rfl⟩
  refine h0.exec ⟨?_, hadd, ?_, ?_, trivial⟩
  · unfold Enumeration.Admits; decide +kernel
  · unfold Enumeration.Admits; decide +kernel
  · unfold Enumeration.Admits; decide +kernel

theorem listServices_complete_twice :
    enumerated.n ≤ enumerated.store.1.names.length + 1 ∧
      (1 ≤ enumerated.returned [65] ∧ enumerated.returned [65] ≤ 2) := by
  have h := listServices_complete readsInplace (.inr rfl) enumerated_reach
  have hs := h.2 [65] (by decide +kernel)
  have hins : enumerated.inserted = 1 := by decide +kernel
  rw [hins] at hs
  exact ⟨h.1, hs.2 (by decide +kernel), hs.1⟩

/-- The name of the start is returned twice. -/
theorem name_returned_twice :
    (Enumeration.machine readInplace (2 ^ 64)).Reach (Enumeration.Admits (2 ^ 64)) enumerated ∧
      enumerated.done = true ∧ [65] ∈ enumerated.initial ∧ enumerated.returned [65] = 2 :=
  ⟨enumerated_reach, by decide +kernel, by decide +kernel, by decide +kernel⟩

end

end Binder

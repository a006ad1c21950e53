import BinderIpc.Svc.Bio
import BinderIpc.Lib.Heap

/-! `service_manager`: the list of services, the permission checks and the
handler of its transactions. What the handler calls, and with whose process id,
is listed. -/

namespace Binder

inductive MacPerm
  | add | list | find
  deriving Repr, DecidableEq

/-- `struct audit_data` -/
structure AuditData where
  pid : ℕ
  uid : ℕ
  name : Option (List ℕ)
  deriving Repr, DecidableEq

/-- What the security policy answers; contexts are numbers. The user ids are libcutils' and may be
split in any way. -/
structure MacEnv where
  getpidcon : ℕ → Option ℕ := fun _ => some 0
  lookup : List ℕ → Option ℕ := fun _ => some 0
  checkAccess : ℕ → ℕ → MacPerm → AuditData → Bool := fun _ _ _ _ => true
  serviceManagerContext : ℕ := 0
  multiuserGetAppId : ℕ → ℕ := fun uid => uid % 100000
  aidApp : ℕ := 10000
  aidUser : ℕ := 100000
  aidIsolatedStart : ℕ := 99000
  aidIsolatedEnd : ℕ := 99999

/-- The functions that are told on whose behalf they act. -/
inductive SvcCall
  | doAddService (pid handle : ℕ) | doFindService (pid : ℕ) | svcCanList (pid : ℕ)
  | checkMacPerms (pid : ℕ)
  deriving Repr, DecidableEq

def SvcCall.pid : SvcCall → ℕ
  | doAddService pid _ | doFindService pid | svcCanList pid | checkMacPerms pid => pid

/-- The string in `buf`; a unit that narrows to a NUL ends it. -/
def str8 (x : List ℕ) : List ℕ := (((x.take 127).takeWhile (· ≠ 0)).map (· % 256)).takeWhile (· ≠ 0)

def checkMacPerms (env : MacEnv) (spid uid tctx : ℕ) (perm : MacPerm) (name : Option (List ℕ)) :
    Bool × List SvcCall :=
  (match env.getpidcon spid with
    | none => false
    | some sctx => env.checkAccess sctx tctx perm { pid := spid, uid := uid, name := name },
    [.checkMacPerms spid])

def checkMacPermsFromGetcon (env : MacEnv) (spid uid : ℕ) (perm : MacPerm) : Bool × List SvcCall :=
  checkMacPerms env spid uid env.serviceManagerContext perm none

def checkMacPermsFromLookup (env : MacEnv) (spid uid : ℕ) (perm : MacPerm) (name : List ℕ) :
    Bool × List SvcCall :=
  match env.lookup name with
  | none => (false, [])
  | some tctx => checkMacPerms env spid uid tctx perm (some name)

def svcCanRegister (env : MacEnv) (name : List ℕ) (spid uid : ℕ) : Bool × List SvcCall :=
  if env.aidApp ≤ env.multiuserGetAppId uid then (false, [])
  else checkMacPermsFromLookup env spid uid .add (str8 name)

def svcCanList (env : MacEnv) (spid uid : ℕ) : Bool × List SvcCall :=
  checkMacPermsFromGetcon env spid uid .list

def svcCanFind (env : MacEnv) (name : List ℕ) (spid uid : ℕ) : Bool × List SvcCall :=
  checkMacPermsFromLookup env spid uid .find (str8 name)

/-! The list -/

structure SvcInfo where
  handle : ℕ := 0
  allowIsolated : Bool := false
  /-- `len` units -/
  name : List ℕ := []
  deriving Repr, DecidableEq, Inhabited

/-- The commands for the driver; an entry stands for the address of its death field. -/
inductive SvcCommand
  | acquire (handle : ℕ) | release (handle : ℕ) | linkToDeath (handle entry : ℕ)
  deriving Repr, DecidableEq

structure SvcMgr where
  info : Heap SvcInfo := .empty
  /-- `svclist`, from its head on -/
  svclist : List ℕ := []
  /-- the commands that were written, in order -/
  out : List SvcCommand := []

namespace SvcMgr

variable (m : SvcMgr)

def write (c : SvcCommand) : SvcMgr := { m with out := m.out ++ [c] }

def setHandle (si handle : ℕ) : SvcMgr :=
  { m with info := m.info.modify si fun x => { x with handle := handle } }

def findSvc (s : List ℕ) : Option ℕ := m.svclist.find? fun si => (m.info.get si).name = s

end SvcMgr

def svcinfoDeath (m : SvcMgr) (si : ℕ) : SvcMgr :=
  if (m.info.get si).handle ≠ 0 then
    (m.write (.release (m.info.get si).handle)).setHandle si 0
  else m

def doFindService (m : SvcMgr) (env : MacEnv) (s : List ℕ) (uid spid : ℕ) : ℕ × List SvcCall :=
  match m.findSvc s with
  | none => (0, [])
  | some si =>
    let x := m.info.get si
    if x.handle = 0 then (0, [])
    else if x.allowIsolated = false ∧ env.aidIsolatedStart ≤ uid % env.aidUser ∧
        uid % env.aidUser ≤ env.aidIsolatedEnd then (0, [])
    else
      let (ok, calls) := svcCanFind env s spid uid
      (if ok then x.handle else 0, calls)

/-- `malloc`, and the entry at the head of the list. -/
def newSvc (m : SvcMgr) (s : List ℕ) (handle : ℕ) (allowIsolated : Bool) : SvcMgr :=
  { m with
    info := m.info.alloc { handle := handle, allowIsolated := allowIsolated, name := s }
    svclist := m.info.next :: m.svclist }

/-- The flag tells whether it returned 0. -/
def doAddService (m : SvcMgr) (env : MacEnv) (malloc : Bool) (s : List ℕ) (handle uid : ℕ)
    (allowIsolated : Bool) (spid : ℕ) : SvcMgr × Bool × List SvcCall :=
  if handle = 0 ∨ s.length = 0 ∨ 127 < s.length then (m, false, [])
  else
    match svcCanRegister env s spid uid with
    | (false, calls) => (m, false, calls)
    | (true, calls) =>
      let linked := fun (m : SvcMgr) si =>
        ((m.write (.acquire handle)).write (.linkToDeath handle si), true, calls)
      match m.findSvc s with
      | some si => linked ((svcinfoDeath m si).setHandle si handle) si
      | none =>
        if malloc then linked (newSvc m s handle allowIsolated) m.info.next
        else (m, false, calls)

/-- What `do_add_service` asks of its arguments before it looks for the name. -/
def addable (env : MacEnv) (s : List ℕ) (handle uid spid : ℕ) : Bool :=
  (handle ≠ 0 ∧ s.length ≠ 0 ∧ s.length ≤ 127) ∧ (svcCanRegister env s spid uid).1 = true

/-! Transactions -/

/-- What `svcmgr_handler` reads of `struct binder_transaction_data`. -/
structure SvcTxn where
  target : ℕ := 0
  code : ℕ := 0
  senderPid : ℕ := 0
  senderEuid : ℕ := 0
  deriving Repr, DecidableEq

/-- `B_PACK_CHARS('_','P','N','G')` -/
def pingTransaction : ℕ := 0x5f504e47

/-- `android.os.IServiceManager` -/
def svcmgrId : List ℕ :=
  [97, 110, 100, 114, 111, 105, 100, 46, 111, 115, 46, 73, 83, 101, 114, 118, 105, 99, 101, 77, 97,
    110, 97, 103, 101, 114]

/-- What goes into the reply. -/
inductive SvcReply
  | status (failed : Bool)
  /-- `bio_put_ref`, `bio_put_string16`, `bio_put_uint32` -/
  | ref (handle : ℕ) | string16 (name : List ℕ) | uint32 (n : ℕ)
  deriving Repr, DecidableEq

structure SvcResult where
  mgr : SvcMgr
  reply : SvcReply := .status true
  calls : List SvcCall := []

/-- `SVC_MGR_GET_SERVICE` and `SVC_MGR_CHECK_SERVICE` -/
def getService (M : ℕ) (m : SvcMgr) (env : MacEnv) (txn : SvcTxn) (msg : Bio) : SvcResult :=
  match msg.getString16 M with
  | (_, _, none) => { mgr := m }
  | (msg, len, some ptr) =>
    let (handle, calls) := doFindService m env (msg.string16 ptr len) txn.senderEuid txn.senderPid
    { mgr := m
      reply := if handle = 0 then .uint32 0 else .ref handle
      calls := .doFindService txn.senderPid :: calls }

def addService (M : ℕ) (m : SvcMgr) (env : MacEnv) (malloc : Bool) (txn : SvcTxn) (msg : Bio) :
    SvcResult :=
  match msg.getString16 M with
  | (_, _, none) => { mgr := m }
  | (msg, len, some ptr) =>
    let s := msg.string16 ptr len
    let (msg, handle) := msg.getRef M
    let (_, allowIsolated) := msg.getUint32 M
    let (m, ok, calls) := doAddService m env malloc s handle txn.senderEuid (allowIsolated ≠ 0)
      txn.senderPid
    { mgr := m
      reply := if ok then .uint32 0 else .status true
      calls := .doAddService txn.senderPid handle :: calls }

def listServices (M : ℕ) (m : SvcMgr) (env : MacEnv) (txn : SvcTxn) (msg : Bio) : SvcResult :=
  let (_, n) := msg.getUint32 M
  let (ok, calls) := svcCanList env txn.senderPid txn.senderEuid
  { mgr := m
    reply :=
      if ok then (m.svclist[n]?).elim (.status true) fun si => .string16 (m.info.get si).name
      else .status true
    calls := .svcCanList txn.senderPid :: calls }

def svcmgrHandler (M : ℕ) (m : SvcMgr) (env : MacEnv) (malloc : Bool) (txn : SvcTxn) (msg : Bio) :
    SvcResult :=
  if txn.target ≠ 0 then { mgr := m }
  else if txn.code = pingTransaction then { mgr := m, reply := .status false }
  else
    let (msg, _) := msg.getUint32 M
    match msg.getString16 M with
    | (_, _, none) => { mgr := m }
    | (msg, len, some ptr) =>
      if len ≠ svcmgrId.length ∨ msg.string16 ptr len ≠ svcmgrId then { mgr := m }
      else if txn.code = 1 ∨ txn.code = 2 then getService M m env txn msg
      else if txn.code = 3 then addService M m env malloc txn msg
      else if txn.code = 4 then listServices M m env txn msg
      else { mgr := m }

end Binder

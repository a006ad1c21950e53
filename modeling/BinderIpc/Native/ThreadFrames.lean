import BinderIpc.Lib.Run
import BinderIpc.Wire.Commands

/-! One thread as `IPCThreadState` runs it. Its C++ frames are explicit: the loops of
`joinThreadPool` and `handlePolledCommands`, a call of `waitForResponse`, and the code of the process that these run. That
code may call out again at any depth; what it does and what the driver sends are inputs. -/

namespace Binder

/-- `status_t`; errors are negative. -/
abbrev Status := ℤ

namespace Status

def noError : Status := 0
def unknownError : Status := -2147483648
def failedTransaction : Status := unknownError + 2
def deadObject : Status := -32
def timedOut : Status := -110
def connRefused : Status := -111
def badF : Status := -9

end Status

/-- `flags & TF_ONE_WAY` -/
def TransactionWords.oneWay (tr : TransactionWords) : Bool := tr.flags &&& 0x01#32 ≠ 0

/-- `flags & TF_STATUS_CODE` -/
def TransactionWords.statusCode (tr : TransactionWords) : Bool := tr.flags &&& 0x08#32 ≠ 0

/-- A pid and a uid. -/
structure Identity where
  pid : BitVec 32
  uid : BitVec 32
  deriving Repr, DecidableEq

def TransactionWords.sender (tr : TransactionWords) : Identity := ⟨tr.senderPid, tr.senderEuid⟩

/-- The fields that `executeCommand` saves around a transaction. -/
structure CallerState where
  /-- `mCallingPid` and `mCallingUid` -/
  calling : Identity
  mStrictModePolicy : BitVec 32 := 0
  mLastTransactionBinderFlags : BitVec 32 := 0
  deriving Repr, DecidableEq

/-- `((int64_t)mCallingUid<<32) | mCallingPid`; the pid is signed. -/
def Identity.token (x : Identity) : BitVec 64 :=
  x.uid.setWidth 64 <<< 32 ||| x.pid.signExtend 64

/-- `(int)token` and `(int)(token>>32)` -/
def identityOf (token : BitVec 64) : Identity :=
  ⟨token.setWidth 32, (token.sshiftRight 32).setWidth 32⟩

/-- What `writeTransactionData` asks a `Parcel`. -/
structure ParcelWords where
  errorCheck : Status := .noError
  ipcData : BitVec 64 := 0
  ipcDataSize : BitVec 64 := 0
  ipcObjects : BitVec 64 := 0
  ipcObjectsCount : BitVec 64 := 0
  deriving Repr, DecidableEq

/-- `writeTransactionData`, with the address of the status buffer; the error when there is none. -/
def transactionOf (binderFlags handle code : BitVec 32) (data : ParcelWords)
    (statusBuffer : Option (BitVec 64)) : Except Status TransactionWords :=
  let tr : TransactionWords := { target := handle.setWidth 64, code := code, flags := binderFlags }
  if data.errorCheck = .noError then
    .ok { tr with
      dataSize := data.ipcDataSize
      buffer := data.ipcData
      offsetsSize := data.ipcObjectsCount * 8
      offsets := data.ipcObjects }
  else
    match statusBuffer with
    | some p => .ok { tr with flags := binderFlags ||| 0x08, dataSize := 4, buffer := p }
    | none => .error data.errorCheck

/-- A command that is read from `mIn`, with what its case reads. -/
inductive ReturnCommand
  | error (err : Status)
  | ok
  | transaction (tr : TransactionWords)
  /-- `status` is the word that the buffer begins with -/
  | reply (tr : TransactionWords) (status : Status)
  | acquireResult (result : BitVec 32)
  | deadReply | transactionComplete | failedReply
  | increfs (refs obj : BitVec 64)
  | acquire (refs obj : BitVec 64)
  | release (refs obj : BitVec 64)
  | decrefs (refs obj : BitVec 64)
  | attemptAcquire (refs obj : BitVec 64) (success : Bool)
  | noop | spawnLooper | finished
  | deadBinder (proxy : BitVec 64)
  | clearDeathNotificationDone (proxy : BitVec 64)
  | bad (cmd : BitVec 32)
  deriving Repr, DecidableEq

inductive ThreadFrame
  /-- code of the process: what the thread was started for, or a destructor -/
  | code
  | joinThreadPool (isMain : Bool)
  | handlePolledCommands
  /-- `waitForResponse`, with a `Parcel` for the reply or without -/
  | waitForResponse (reply : Bool)
  /-- `BBinder::transact` runs; the saved fields are local to `executeCommand` -/
  | transact (tr : TransactionWords) (orig : CallerState)
  /-- `sendReply` runs -/
  | sendReply (tr : TransactionWords) (orig : CallerState)
  /-- `sendObituary` runs the recipients of a proxy -/
  | sendObituary (proxy : BitVec 64)
  deriving Repr, DecidableEq

inductive ThreadEvent
  /-- a command was appended to `mOut` -/
  | wrote (c : BcCommand)
  | began (tr : TransactionWords)
  /-- the saved fields were put back -/
  | ended (tr : TransactionWords)
  /-- `BR_REPLY` was read -/
  | replied (tr : TransactionWords)
  /-- a reply parcel came from another thread -/
  | took (buffer : BitVec 64)
  /-- a reply parcel went to another thread -/
  | gave (buffer : BitVec 64)
  /-- the caller was cleared, and the code has the token -/
  | cleared (token : BitVec 64)
  | restored (token : BitVec 64)
  | policySet (policy : BitVec 32) | flagsSet (flags : BitVec 32)
  | spawned
  | weakReleased (proxy : BitVec 64)
  deriving Repr, DecidableEq

structure IpcThread where
  caller : CallerState
  mLastError : Status := .noError
  frames : List ThreadFrame := [.code]
  /-- the buffers that the reply parcels in its hands refer to -/
  held : List (BitVec 64) := []
  aborted : Bool := false
  log : List ThreadEvent := []
  deriving Repr, DecidableEq

namespace IpcThread

variable (own : Identity) (t : IpcThread)

def note (e : ThreadEvent) : IpcThread := { t with log := t.log ++ [e] }

def write (c : BcCommand) : IpcThread := t.note (.wrote c)

/-- `freeBuffer` on the thread that destroys the parcel, whichever one received it -/
def freeBuffer (buffer : BitVec 64) : IpcThread := t.write (.freeBuffer buffer)

def push (f : ThreadFrame) : IpcThread := { t with frames := f :: t.frames }

/-- `clearCaller`, with `getpid()` and `getuid()` -/
def clearCaller : IpcThread := { t with caller := { t.caller with calling := own } }

def clearCallingIdentity : IpcThread := (t.clearCaller own).note (.cleared t.caller.calling.token)

def restoreCallingIdentity (token : BitVec 64) : IpcThread :=
  { t with caller := { t.caller with calling := identityOf token } }.note (.restored token)

/-- `android_os_Binder_restoreCallingIdentity` throws for some tokens. -/
def restoreFromJava (token : BitVec 64) : IpcThread :=
  let uid := (identityOf token).uid.toInt
  if 0 < uid ∧ uid < 999 then t else t.restoreCallingIdentity token

/-- The end of `executeCommand`. -/
def result (err : Status) : IpcThread × Option Status :=
  ({ t with mLastError := if err = .noError then t.mLastError else err }, some err)

/-- `executeCommand`; no result as long as code of the process runs. What `BR_RELEASE` and
`BR_DECREFS` put off is worked off between commands. -/
def executeCommand : ReturnCommand → IpcThread × Option Status
  | .error err => t.result err
  | .acquire refs obj => (t.write (.refDone true refs obj)).result .noError
  | .increfs refs obj => (t.write (.refDone false refs obj)).result .noError
  | .attemptAcquire _ _ success =>
    (t.write (.acquireResult (if success then 1 else 0))).result .noError
  | .ok | .release _ _ | .decrefs _ _ | .noop => t.result .noError
  | .transaction tr =>
    ({ t.push (.transact tr t.caller) with
      caller := { t.caller with calling := tr.sender, mLastTransactionBinderFlags := tr.flags } }.note
        (.began tr), none)
  | .deadBinder proxy => (t.push (.sendObituary proxy), none)
  | .clearDeathNotificationDone proxy => (t.note (.weakReleased proxy)).result .noError
  | .finished => t.result .timedOut
  | .spawnLooper => (t.note .spawned).result .noError
  | .reply _ _ | .acquireResult _ | .deadReply | .transactionComplete | .failedReply | .bad _ =>
    t.result .unknownError

/-- The end of the case `BR_TRANSACTION`: the fields are put back, and the parcels destroyed. -/
def endTransaction (tr : TransactionWords) (orig : CallerState) (frames : List ThreadFrame) : IpcThread :=
  ({ t with caller := orig, frames := frames }.note (.ended tr)).freeBuffer tr.buffer

/-- `waitForResponse` returns. The code that called goes on; a call by `sendReply` was the last
thing that `executeCommand` had to do. -/
def finish (frames : List ThreadFrame) (err : Status) : IpcThread :=
  let t := { t with mLastError := if err = .noError then t.mLastError else err, frames := frames }
  match frames with
  | .sendReply tr orig :: frames => t.endTransaction tr orig frames
  | _ => t

/-- What `waitForResponse` does when `executeCommand` has a result. -/
def afterExecute (frames : List ThreadFrame) : IpcThread × Option Status → IpcThread
  | (t, some err) => if err = .noError then t else t.finish frames err
  | (t, none) => t

/-- A command in the loop of `waitForResponse`, which is the topmost frame. -/
def waitForResponse (reply : Bool) (frames : List ThreadFrame) : ReturnCommand → IpcThread
  | .transactionComplete => if reply then t else t.finish frames .noError
  | .deadReply => t.finish frames .deadObject
  | .failedReply => t.finish frames .failedTransaction
  -- no caller gives an `acquireResult`
  | .acquireResult _ => t
  | .reply tr status =>
    let t := t.note (.replied tr)
    if reply then
      if tr.statusCode then (t.freeBuffer tr.buffer).finish frames status
      else { t with held := tr.buffer :: t.held }.finish frames .noError
    else t.freeBuffer tr.buffer
  | cmd => afterExecute frames (t.executeCommand cmd)

/-- `getAndExecuteCommand` has returned to `joinThreadPool`, which is the topmost frame. -/
def loopPool (isMain : Bool) (frames : List ThreadFrame) (err : Status) : IpcThread :=
  if err < .noError ∧ err ≠ .timedOut ∧ err ≠ .connRefused ∧ err ≠ .badF then { t with aborted := true }
  else if (err = .timedOut ∧ isMain = false) ∨ err = .connRefused ∨ err = .badF then
    { t with frames := frames }.write .exitLooper
  else t

/-- `talkWithDriver` has read a command. -/
def receive (cmd : ReturnCommand) : IpcThread :=
  match t.frames with
  | .waitForResponse reply :: frames => t.waitForResponse reply frames cmd
  | .joinThreadPool isMain :: frames =>
    match t.executeCommand cmd with
    | (t, some err) => t.loopPool isMain frames err
    | (t, none) => t
  -- the loop goes on whatever the result is
  | .handlePolledCommands :: _ => (t.executeCommand cmd).1
  | _ => t

/-- `talkWithDriver` has failed. -/
def talkFails (err : Status) : IpcThread :=
  match t.frames with
  | .waitForResponse _ :: frames => t.finish frames err
  | .joinThreadPool isMain :: frames => t.loopPool isMain frames err
  | _ => t

def transact (handle code flags : BitVec 32) (data : ParcelWords) : IpcThread :=
  match transactionOf (flags ||| 0x10) handle code data none with
  | .error err => { t with mLastError := err }
  | .ok tr => (t.write (.transaction false tr)).push (.waitForResponse !tr.oneWay)

/-- `BBinder::transact` has returned. -/
def returnTransact (tr : TransactionWords) (orig : CallerState) (frames : List ThreadFrame)
    (error : Status) (reply : ParcelWords) (statusBuffer : BitVec 64) : IpcThread :=
  if tr.oneWay then t.endTransaction tr orig frames
  else
    let reply := if error < .noError then { reply with errorCheck := error } else reply
    match transactionOf 0 (-1) 0 reply (some statusBuffer) with
    | .error _ => { t with frames := frames }.endTransaction tr orig frames
    | .ok words =>
      { t with frames := .sendReply tr orig :: frames }.write (.transaction true words) |>.push
        (.waitForResponse false)

/-- The code that runs returns. The code that the thread was started for does not. -/
def returns (error : Status) (reply : ParcelWords) (statusBuffer : BitVec 64) : IpcThread :=
  match t.frames with
  | .transact tr orig :: frames => t.returnTransact tr orig frames error reply statusBuffer
  | .sendObituary proxy :: frames => { t with frames := frames }.write (.deadBinderDone proxy)
  | .code :: f :: frames => { t with frames := f :: frames }
  | _ => t

end IpcThread

/-- Code of the process runs. -/
def ThreadFrame.runs : ThreadFrame → Bool
  | code | transact _ _ | sendObituary _ => true
  | _ => false

/-- The commands that a proxy appends. -/
def BcCommand.fromProxy : BcCommand → Bool
  | ref _ _ | requestDeathNotification _ _ | clearDeathNotification _ _ => true
  | _ => false

inductive ThreadAct
  | receive (cmd : ReturnCommand)
  | talkFails (err : Status)
  /-- `processPendingDerefs` of the pool runs a destructor -/
  | destructor
  | clearCallingIdentity
  | restoreCallingIdentity (token : BitVec 64) (java : Bool)
  | setStrictModePolicy (policy : BitVec 32)
  | setLastTransactionBinderFlags (flags : BitVec 32)
  | transact (handle code flags : BitVec 32) (data : ParcelWords)
  | write (c : BcCommand)
  /-- a reply parcel is destroyed -/
  | destroyReply (buffer : BitVec 64)
  /-- another thread hands over a reply parcel -/
  | takeReply (buffer : BitVec 64)
  /-- a reply parcel is handed to another thread -/
  | giveReply (buffer : BitVec 64)
  | joinThreadPool (isMain : Bool)
  | setupPolling
  | handlePolledCommands
  /-- `mIn` is empty at the end of a turn of `handlePolledCommands` -/
  | drained
  | returns (error : Status) (reply : ParcelWords) (statusBuffer : BitVec 64)
  deriving Repr, DecidableEq

/-- What the code that runs may do. -/
def ThreadAct.byCode (own : Identity) (t : IpcThread) : ThreadAct → IpcThread
  | clearCallingIdentity => t.clearCallingIdentity own
  | restoreCallingIdentity token java =>
    if java then t.restoreFromJava token else t.restoreCallingIdentity token
  | setStrictModePolicy policy =>
    { t with caller := { t.caller with mStrictModePolicy := policy } }.note (.policySet policy)
  | setLastTransactionBinderFlags flags =>
    { t with caller := { t.caller with mLastTransactionBinderFlags := flags } }.note (.flagsSet flags)
  | transact handle code flags data => t.transact handle code flags data
  | write c => if c.fromProxy then t.write c else t
  | destroyReply buffer =>
    if buffer ∈ t.held then { t with held := t.held.erase buffer }.freeBuffer buffer else t
  | joinThreadPool isMain =>
    (t.write (if isMain then .enterLooper else .registerLooper)).push (.joinThreadPool isMain)
  | setupPolling => t.write .enterLooper
  | handlePolledCommands => t.push .handlePolledCommands
  | returns error reply statusBuffer => t.returns error reply statusBuffer
  | receive _ | talkFails _ | destructor | drained | takeReply _ | giveReply _ => t

def IpcThread.step (own : Identity) (t : IpcThread) (a : ThreadAct) : IpcThread :=
  if t.aborted then t
  else
    match a with
    | .receive cmd => t.receive cmd
    | .talkFails err => if err < .noError then t.talkFails err else t
    | .drained =>
      match t.frames with
      | .handlePolledCommands :: frames => { t with frames := frames }
      | _ => t
    | .destructor => if t.frames.head?.any (· matches .joinThreadPool _) then t.push .code else t
    -- a parcel is memory of the process: it changes hands whatever its threads do
    | .takeReply buffer => { t with held := buffer :: t.held }.note (.took buffer)
    | .giveReply buffer =>
      if buffer ∈ t.held then { t with held := t.held.erase buffer }.note (.gave buffer) else t
    | a => if t.frames.head?.any (·.runs) then a.byCode own t else t

def IpcThread.fresh (own : Identity) : IpcThread := { caller := { calling := own } }

/-- A thread of a process with these ids. -/
def ipcThreadMachine (own : Identity) : Machine IpcThread ThreadAct where
  start t := t = .fresh own
  step := IpcThread.step own

/-! The threads of a process -/

/-- What a thread does by itself. -/
def ThreadAct.alone : ThreadAct → Bool
  | takeReply _ | giveReply _ => false
  | _ => true

structure IpcProcess where
  threads : List IpcThread := []
  deriving Repr, DecidableEq

inductive ProcessAct
  /-- a thread gets its `IPCThreadState` -/
  | begin
  | thread (i : ℕ) (a : ThreadAct)
  /-- a reply parcel that thread `i` has is in the hands of thread `j` from now on -/
  | handOver (i j : ℕ) (buffer : BitVec 64)
  deriving Repr, DecidableEq

namespace IpcProcess

variable (own : Identity) (p : IpcProcess)

def on (i : ℕ) (a : ThreadAct) : IpcProcess := { p with threads := p.threads.modify i (·.step own a) }

/-- A thread that aborts takes the process with it. -/
def step (a : ProcessAct) : IpcProcess :=
  if p.threads.any (·.aborted) then p
  else
    match a with
    | .begin => { p with threads := p.threads ++ [.fresh own] }
    | .thread i a => if a.alone then p.on own i a else p
    | .handOver i j buffer =>
      if p.threads[i]?.any (buffer ∈ ·.held) ∧ j < p.threads.length then
        (p.on own i (.giveReply buffer)).on own j (.takeReply buffer)
      else p

end IpcProcess

def ipcProcessMachine (own : Identity) : Machine IpcProcess ProcessAct where
  start p := p = {}
  step := IpcProcess.step own

end Binder

import BinderIpc.Native.ThreadFrames
import Mathlib.Logic.Relation
import Mathlib.Data.List.Forall2
import Mathlib.Data.List.Induction
import Mathlib.Data.List.Perm.Basic

/-! What holds of one thread at any depth of calls: whom its code sees as the caller, and what it
answers. -/

namespace Binder

/-! Tokens -/

theorem Identity.identityOf_token {x : Identity} (hpid : x.pid.msb = false) :
    identityOf x.token = x := by
  have hsign : x.pid.signExtend 64 = x.pid.setWidth 64 := BitVec.signExtend_eq_setWidth_of_msb_false hpid
  have hlow : x.token.setWidth 32 = x.pid := by
    apply BitVec.eq_of_getLsbD_eq
    intro i hi
    simp [token, hsign, hi]
  have hhigh : (x.token.sshiftRight 32).setWidth 32 = x.uid := by
    apply BitVec.eq_of_getLsbD_eq
    intro i hi
    have hword : i < 64 := by omega
    have htop : 32 + i < 64 := by omega
    rw [BitVec.getLsbD_setWidth, BitVec.getLsbD_sshiftRight]
    simp [token, hsign, hi, hword, htop]
  rw [identityOf, hlow, hhigh]

/-! The elementary changes of a thread -/

/-- A transaction that is executed, with the saved fields and whether it was answered. -/
structure Running where
  tr : TransactionWords
  orig : CallerState
  answered : Bool
  deriving DecidableEq

def ThreadFrame.running : ThreadFrame → Option Running
  | transact tr orig => some ⟨tr, orig, false⟩
  | sendReply tr orig => some ⟨tr, orig, true⟩
  | _ => none

/-- What the results are about. -/
structure ThreadView where
  caller : CallerState
  running : List Running
  held : List (BitVec 64)
  log : List ThreadEvent

def IpcThread.view (t : IpcThread) : ThreadView :=
  ⟨t.caller, t.frames.filterMap ThreadFrame.running, t.held, t.log⟩

/-- An event that is about no transaction, caller or buffer. -/
def ThreadEvent.quiet : ThreadEvent → Bool
  | wrote (.transaction reply _) => !reply
  | wrote (.freeBuffer _) => false
  | wrote _ | spawned | weakReleased _ => true
  | _ => false

/-- Code of the process sets one of its fields. -/
inductive Sets (own : Identity) (given : BitVec 64 → Prop) (c : CallerState) :
    ThreadEvent → CallerState → Prop
  | clear : Sets own given c (.cleared c.calling.token) { c with calling := own }
  | restore {token : BitVec 64} (h : given token) :
    Sets own given c (.restored token) { c with calling := identityOf token }
  | policy (policy : BitVec 32) :
    Sets own given c (.policySet policy) { c with mStrictModePolicy := policy }
  | flags (flags : BitVec 32) :
    Sets own given c (.flagsSet flags) { c with mLastTransactionBinderFlags := flags }

/-- `given` are the tokens that may be restored, `sent` the transactions that may arrive, and
`handed` says that reply parcels may come from other threads and go to them. -/
inductive Move (own : Identity) (given : ThreadView → BitVec 64 → Prop) (sent : TransactionWords → Prop)
    (handed : Prop) (v : ThreadView) : ThreadView → Prop
  | quiet {e : ThreadEvent} (h : e.quiet = true) : Move own given sent handed v { v with log := v.log ++ [e] }
  | sets {e : ThreadEvent} {c : CallerState} (h : Sets own (given v) v.caller e c) :
    Move own given sent handed v { v with caller := c, log := v.log ++ [e] }
  | began {tr : TransactionWords} (h : sent tr) : Move own given sent handed v { v with
      caller := { v.caller with calling := tr.sender, mLastTransactionBinderFlags := tr.flags }
      running := ⟨tr, v.caller, false⟩ :: v.running
      log := v.log ++ [.began tr] }
  | answered {tr words : TransactionWords} {orig : CallerState} {rs : List Running}
      (hr : v.running = ⟨tr, orig, false⟩ :: rs) (h : tr.oneWay = false) :
    Move own given sent handed v { v with
      running := ⟨tr, orig, true⟩ :: rs, log := v.log ++ [.wrote (.transaction true words)] }
  | ended {r : Running} {rs : List Running} (hr : v.running = r :: rs)
      (h : r.answered = !r.tr.oneWay) :
    Move own given sent handed v { v with
      caller := r.orig, running := rs,
      log := v.log ++ [.ended r.tr, .wrote (.freeBuffer r.tr.buffer)] }
  | kept (tr : TransactionWords) : Move own given sent handed v { v with
      held := tr.buffer :: v.held, log := v.log ++ [.replied tr] }
  | freed (tr : TransactionWords) : Move own given sent handed v { v with
      log := v.log ++ [.replied tr, .wrote (.freeBuffer tr.buffer)] }
  | destroyed {b : BitVec 64} (h : b ∈ v.held) : Move own given sent handed v { v with
      held := v.held.erase b, log := v.log ++ [.wrote (.freeBuffer b)] }
  | took (b : BitVec 64) (hh : handed) : Move own given sent handed v { v with
      held := b :: v.held, log := v.log ++ [.took b] }
  | gave {b : BitVec 64} (h : b ∈ v.held) (hh : handed) : Move own given sent handed v { v with
      held := v.held.erase b, log := v.log ++ [.gave b] }

/-- What is answered is a call that waits for it. -/
def Synchronous (rs : List Running) : Prop := ∀ r ∈ rs, r.answered = true → r.tr.oneWay = false

section

variable {own : Identity} {given : ThreadView → BitVec 64 → Prop} {sent : TransactionWords → Prop}
  {handed : Prop}

/-- Several changes. -/
abbrev Moves (own : Identity) (given : ThreadView → BitVec 64 → Prop) (sent : TransactionWords → Prop)
    (handed : Prop) : ThreadView → ThreadView → Prop :=
  Relation.ReflTransGen (Move own given sent handed)

theorem Move.synchronous {v v' : ThreadView} (h : Move own given sent handed v v')
    (hs : Synchronous v.running) : Synchronous v'.running := by
  cases h with
  | quiet h => exact hs
  | sets h => exact hs
  | began h =>
    intro r hr ha
    rcases List.mem_cons.1 hr with rfl | hr
    · cases ha
    · exact hs r hr ha
  | answered hv h =>
    intro r hr ha
    rw [hv] at hs
    rcases List.mem_cons.1 hr with rfl | hr
    · exact h
    · exact hs r (by simp [hr]) ha
  | ended hv h =>
    intro r hr ha
    rw [hv] at hs
    exact hs r (by simp [hr]) ha
  | kept tr => exact hs
  | freed tr => exact hs
  | destroyed h => exact hs
  | took b hh => exact hs
  | gave h hh => exact hs

theorem Moves.keeps {P : ThreadView → Prop} (hP : ∀ v v', Move own given sent handed v v' → P v → P v')
    {v v' : ThreadView} (h : Moves own given sent handed v v') (hi : P v) : P v' := by
  induction h with
  | refl => exact hi
  | tail _ hm ih => exact hP _ _ hm ih

/-! Each function is made of such changes -/

section

variable {t : IpcThread} {frames : List ThreadFrame}

theorem view_push {f : ThreadFrame} (hf : f.running = none) : (t.push f).view = t.view := by
  simp [IpcThread.view, IpcThread.push, hf]

theorem running_rest {f : ThreadFrame} (hf : t.frames = f :: frames) (hn : f.running = none) :
    frames.filterMap ThreadFrame.running = t.view.running := by
  unfold IpcThread.view
  rw [hf, List.filterMap_cons_none hn]

theorem running_top {f : ThreadFrame} {r : Running} (hf : t.frames = f :: frames)
    (hr : f.running = some r) : t.view.running = r :: frames.filterMap ThreadFrame.running := by
  unfold IpcThread.view
  rw [hf, List.filterMap_cons_some hr]

/-- Frames that execute no transaction come and go. -/
theorem view_frames (hf : frames.filterMap ThreadFrame.running = t.view.running) (err : Status) :
    ({ t with mLastError := err, frames := frames } : IpcThread).view = t.view := by
  simp only [IpcThread.view] at hf ⊢
  rw [hf]

theorem write_moves (t : IpcThread) {c : BcCommand} (hc : (ThreadEvent.wrote c).quiet = true) :
    Moves own given sent handed t.view (t.write c).view := .single (.quiet hc)

theorem endTransaction_moves {tr : TransactionWords} {orig : CallerState} {a : Bool}
    (hr : t.view.running = ⟨tr, orig, a⟩ :: frames.filterMap ThreadFrame.running)
    (ha : a = !tr.oneWay) : Moves own given sent handed t.view (t.endTransaction tr orig frames).view := by
  have h : Move own given sent handed t.view _ := .ended hr ha
  apply Relation.ReflTransGen.single
  simpa [IpcThread.view, IpcThread.endTransaction, IpcThread.freeBuffer, IpcThread.write,
    IpcThread.note] using h

/-- A wait returns to its caller, which may be `sendReply`. -/
theorem finish_moves (hs : Synchronous t.view.running) (err : Status)
    (hf : frames.filterMap ThreadFrame.running = t.view.running) :
    Moves own given sent handed t.view (t.finish frames err).view := by
  unfold IpcThread.finish
  dsimp only
  have hview := view_frames hf (if err = .noError then t.mLastError else err)
  split
  · rename_i tr orig frames
    rw [← hview]
    have hr : t.view.running = ⟨tr, orig, true⟩ :: frames.filterMap ThreadFrame.running := hf.symm
    apply endTransaction_moves (a := true)
    · rw [hview]
      exact hr
    · rw [hr] at hs
      have hone : tr.oneWay = false := hs ⟨tr, orig, true⟩ (by simp) rfl
      rw [hone]
      rfl
  · rw [hview]

theorem executeCommand_moves (t : IpcThread) (cmd : ReturnCommand)
    (hsent : ∀ tr, cmd = .transaction tr → sent tr) :
    Moves own given sent handed t.view (t.executeCommand cmd).1.view := by
  cases cmd with
  | transaction tr => exact .single (.began (hsent tr rfl))
  | deadBinder proxy =>
    have hview : (t.push (.sendObituary proxy)).view = t.view := view_push rfl
    change Moves _ _ _ _ t.view (t.push (.sendObituary proxy)).view
    rw [hview]
  | acquire refs obj => exact write_moves t rfl
  | increfs refs obj => exact write_moves t rfl
  | attemptAcquire refs obj success => exact write_moves t rfl
  | clearDeathNotificationDone proxy => exact .single (.quiet rfl)
  | spawnLooper => exact .single (.quiet rfl)
  | _ => exact .refl

/-- What has a result leaves the frames as they were. -/
theorem executeCommand_frames {t' : IpcThread} {cmd : ReturnCommand} {err : Status}
    (h : t.executeCommand cmd = (t', some err)) : t'.view.running = t.view.running := by
  cases cmd with
  | transaction tr => cases h
  | deadBinder proxy => cases h
  | _ =>
    cases h
    rfl

theorem waitForResponse_moves {reply : Bool} (hf : t.frames = .waitForResponse reply :: frames)
    (hs : Synchronous t.view.running) (cmd : ReturnCommand)
    (hsent : ∀ tr, cmd = .transaction tr → sent tr) :
    Moves own given sent handed t.view (t.waitForResponse reply frames cmd).view := by
  have hrun := running_rest hf rfl
  have hother : ∀ cmd' : ReturnCommand, (∀ tr, cmd' = .transaction tr → sent tr) →
      Moves own given sent handed t.view (IpcThread.afterExecute frames (t.executeCommand cmd')).view := by
    intro cmd' hsent'
    have hexec : Moves own given sent handed t.view (t.executeCommand cmd').1.view :=
      executeCommand_moves t cmd' hsent'
    unfold IpcThread.afterExecute
    split
    · rename_i t' err he
      rw [he] at hexec
      have hframes := executeCommand_frames he
      split_ifs
      · exact hexec
      · exact hexec.trans (finish_moves (hframes ▸ hs) err (hrun.trans hframes.symm))
    · rename_i t' he
      rw [he] at hexec
      exact hexec
  cases cmd with
  | transactionComplete =>
    unfold IpcThread.waitForResponse
    dsimp only
    split_ifs
    · exact .refl
    · exact finish_moves hs _ hrun
  | deadReply => exact finish_moves hs _ hrun
  | failedReply => exact finish_moves hs _ hrun
  | acquireResult result => exact .refl
  | reply tr status =>
    have hfreed : Moves own given sent handed t.view ((t.note (.replied tr)).freeBuffer tr.buffer).view := by
      have h : Move own given sent handed t.view _ := .freed tr
      apply Relation.ReflTransGen.single
      simpa [IpcThread.view, IpcThread.freeBuffer, IpcThread.write, IpcThread.note] using h
    have hkept : Moves own given sent handed t.view
        { t.note (.replied tr) with held := tr.buffer :: t.held }.view := .single (.kept tr)
    unfold IpcThread.waitForResponse
    dsimp only
    split_ifs
    · exact hfreed.trans (finish_moves (by exact hs) status hrun)
    · exact hkept.trans (finish_moves (by exact hs) _ hrun)
    · exact hfreed
  | _ => exact hother _ hsent

theorem loopPool_moves {isMain : Bool} (hrun : frames.filterMap ThreadFrame.running = t.view.running)
    (err : Status) : Moves own given sent handed t.view (t.loopPool isMain frames err).view := by
  unfold IpcThread.loopPool
  split_ifs
  · exact .refl
  · have hview : ({ t with frames := frames } : IpcThread).view = t.view := view_frames hrun _
    rw [← hview]
    exact write_moves _ rfl
  · exact .refl

theorem receive_moves (hs : Synchronous t.view.running) (cmd : ReturnCommand)
    (hsent : ∀ tr, cmd = .transaction tr → sent tr) :
    Moves own given sent handed t.view (t.receive cmd).view := by
  unfold IpcThread.receive
  split
  · rename_i hf
    exact waitForResponse_moves hf hs cmd hsent
  · rename_i isMain frames hf
    have hrun := running_rest hf rfl
    have hexec : Moves own given sent handed t.view (t.executeCommand cmd).1.view :=
      executeCommand_moves t cmd hsent
    split
    · rename_i t' err he
      rw [he] at hexec
      exact hexec.trans (loopPool_moves (hrun.trans (executeCommand_frames he).symm) err)
    · rename_i t' he
      rw [he] at hexec
      exact hexec
  · exact executeCommand_moves t cmd hsent
  · exact .refl

theorem talkFails_moves (hs : Synchronous t.view.running) (err : Status) :
    Moves own given sent handed t.view (t.talkFails err).view := by
  unfold IpcThread.talkFails
  split
  · rename_i hf
    exact finish_moves hs err (running_rest hf rfl)
  · rename_i hf
    exact loopPool_moves (running_rest hf rfl) err
  · exact .refl

theorem transact_moves (handle code flags : BitVec 32) (data : ParcelWords) :
    Moves own given sent handed t.view (t.transact handle code flags data).view := by
  unfold IpcThread.transact
  split
  · exact .refl
  · rename_i tr _
    rw [view_push rfl]
    exact write_moves t rfl

/-- With a status buffer there is always something to send. -/
theorem transactionOf_buffer (flags handle code : BitVec 32) (data : ParcelWords) (p : BitVec 64) :
    ∃ tr, transactionOf flags handle code data (some p) = .ok tr := by
  unfold transactionOf
  dsimp only
  split_ifs
  · exact ⟨_, rfl⟩
  · exact ⟨_, rfl⟩

theorem returns_moves (error : Status) (reply : ParcelWords) (statusBuffer : BitVec 64) :
    Moves own given sent handed t.view (t.returns error reply statusBuffer).view := by
  unfold IpcThread.returns
  split
  · rename_i tr orig frames hf
    have hr : t.view.running = ⟨tr, orig, false⟩ :: frames.filterMap ThreadFrame.running :=
      running_top hf rfl
    unfold IpcThread.returnTransact
    dsimp only
    split_ifs with hone
    · exact endTransaction_moves hr (by simp [hone])
    all_goals
      obtain ⟨words, hw⟩ := transactionOf_buffer 0 (-1) 0 _ statusBuffer
      rw [hw]
      exact .single (.answered hr (by simpa using hone))
  · rename_i proxy frames hf
    have hview : ({ t with frames := frames } : IpcThread).view = t.view :=
      view_frames (running_rest hf rfl) _
    rw [← hview]
    exact write_moves _ rfl
  · rename_i f frames hf
    have hview : ({ t with frames := f :: frames } : IpcThread).view = t.view :=
      view_frames (running_rest hf rfl) _
    rw [hview]
  · exact .refl

end

theorem BcCommand.quiet_of_fromProxy {c : BcCommand} (hc : c.fromProxy = true) :
    (ThreadEvent.wrote c).quiet = true := by
  cases c with
  | transaction reply tr => cases hc
  | freeBuffer buffer => cases hc
  | _ => rfl

/-- The tokens that are restored and the transactions that arrive satisfy the predicates. -/
def ThreadAct.Within (given : BitVec 64 → Prop) (sent : TransactionWords → Prop) : ThreadAct → Prop
  | restoreCallingIdentity token _ => given token
  | receive (.transaction tr) => sent tr
  | _ => True

theorem step_moves {t : IpcThread} {a : ThreadAct} (hs : Synchronous t.view.running)
    (ha : a.Within (given t.view) sent) (hh : a.alone = true ∨ handed) :
    Moves own given sent handed t.view (t.step own a).view := by
  have hcode : Moves own given sent handed t.view (a.byCode own t).view := by
    cases a with
    | clearCallingIdentity => exact .single (.sets .clear)
    | restoreCallingIdentity token java =>
      have hstep : Moves own given sent handed t.view (t.restoreCallingIdentity token).view :=
        .single (.sets (.restore ha))
      unfold ThreadAct.byCode
      dsimp only
      split_ifs
      · unfold IpcThread.restoreFromJava
        dsimp only
        split_ifs
        · exact .refl
        · exact hstep
      · exact hstep
    | setStrictModePolicy policy => exact .single (.sets (.policy policy))
    | setLastTransactionBinderFlags flags => exact .single (.sets (.flags flags))
    | transact handle code flags data => exact transact_moves handle code flags data
    | write c =>
      unfold ThreadAct.byCode
      dsimp only
      split_ifs with hc
      · exact write_moves t (BcCommand.quiet_of_fromProxy hc)
      · exact .refl
    | destroyReply buffer =>
      unfold ThreadAct.byCode
      dsimp only
      split_ifs with hb
      · exact .single (.destroyed hb)
      · exact .refl
    | joinThreadPool isMain =>
      unfold ThreadAct.byCode
      dsimp only
      rw [view_push rfl]
      cases isMain <;> exact write_moves t rfl
    | setupPolling => exact write_moves t rfl
    | handlePolledCommands =>
      have hview : (t.push .handlePolledCommands).view = t.view := view_push rfl
      change Moves _ _ _ _ t.view (t.push .handlePolledCommands).view
      rw [hview]
    | returns error reply statusBuffer => exact returns_moves error reply statusBuffer
    | receive cmd => exact .refl
    | talkFails err => exact .refl
    | destructor => exact .refl
    | takeReply buffer => exact .refl
    | giveReply buffer => exact .refl
    | drained => exact .refl
  have hrest : Moves own given sent handed t.view
      (if t.frames.head?.any (·.runs) then a.byCode own t else t).view := by
    split_ifs
    · exact hcode
    · exact .refl
  unfold IpcThread.step
  by_cases habort : t.aborted = true
  · rw [if_pos habort]
  · rw [if_neg habort]
    cases a with
    | receive cmd =>
      apply receive_moves hs cmd
      rintro tr rfl
      exact ha
    | talkFails err =>
      dsimp only
      split_ifs
      · exact talkFails_moves hs err
      · exact .refl
    | destructor =>
      dsimp only
      split_ifs
      · rw [view_push rfl]
      · exact .refl
    | takeReply buffer => exact .single (.took buffer (hh.resolve_left Bool.false_ne_true))
    | giveReply buffer =>
      dsimp only
      split_ifs with hb
      · exact .single (.gave hb (hh.resolve_left Bool.false_ne_true))
      · exact .refl
    | drained =>
      dsimp only
      split
      · rename_i frames hf
        have hview : ({ t with frames := frames } : IpcThread).view = t.view :=
          view_frames (running_rest hf rfl) _
        rw [hview]
      · exact .refl
    | _ => exact hrest

/-- What every change keeps holds of every run. -/
theorem view_invariant (given : ThreadView → BitVec 64 → Prop) (sent : TransactionWords → Prop)
    {P : ThreadView → Prop}
    (hP : ∀ v v', Move own given sent True v v' → P v → P v')
    (hstart : P ⟨{ calling := own }, [], [], []⟩) {t : IpcThread}
    (h : (ipcThreadMachine own).Reach (fun t a => a.Within (given t.view) sent) t) : P t.view := by
  suffices hboth : Synchronous t.view.running ∧ P t.view from hboth.2
  apply h.invariant (I := fun t => Synchronous t.view.running ∧ P t.view)
  · intro t ht
    cases ht
    exact ⟨fun r hr => absurd hr (List.not_mem_nil), hstart⟩
  · intro t a hi ha
    have hmoves : Moves own given sent True t.view (t.step own a).view :=
      step_moves hi.1 ha (.inr trivial)
    exact ⟨hmoves.keeps (P := (Synchronous ·.running)) (fun _ _ hm hs => hm.synchronous hs) hi.1,
      hmoves.keeps hP hi.2⟩

/-- The same for runs without a condition. -/
theorem any_invariant {P : ThreadView → Prop}
    (hP : ∀ v v', Move own (fun _ _ => True) (fun _ => True) True v v' → P v → P v')
    (hstart : P ⟨{ calling := own }, [], [], []⟩) {t : IpcThread}
    (h : (ipcThreadMachine own).Reach (fun _ _ => True) t) : P t.view := by
  apply view_invariant _ _ hP hstart
  apply h.mono
  intro t a _
  unfold ThreadAct.Within
  split <;> trivial

end

/-! The caller, as each transaction has it -/

/-- A transaction begins with the fields of what it interrupts, and what it sets is its own. -/
def callerStep (own : Identity) : List CallerState → ThreadEvent → List CallerState
  | c :: cs, .began tr =>
    { c with calling := tr.sender, mLastTransactionBinderFlags := tr.flags } :: c :: cs
  | _ :: cs, .ended _ => cs
  | c :: cs, .cleared _ => { c with calling := own } :: cs
  | c :: cs, .restored token => { c with calling := identityOf token } :: cs
  | c :: cs, .policySet policy => { c with mStrictModePolicy := policy } :: cs
  | c :: cs, .flagsSet flags => { c with mLastTransactionBinderFlags := flags } :: cs
  | cs, _ => cs

/-- The fields of the transactions that run, and last those of the thread's own code. -/
def callers (own : Identity) (log : List ThreadEvent) : List CallerState :=
  log.foldl (callerStep own) [{ calling := own }]

section

variable {own : Identity} {given : ThreadView → BitVec 64 → Prop} {sent : TransactionWords → Prop}
  {handed : Prop}

theorem callerStep_quiet {e : ThreadEvent} (he : e.quiet = true) (cs : List CallerState) :
    callerStep own cs e = cs := by
  cases e with
  | wrote c => cases cs <;> rfl
  | spawned => cases cs <;> rfl
  | weakReleased proxy => cases cs <;> rfl
  | _ => cases he

theorem Move.callers {v v' : ThreadView} (h : Move own given sent handed v v')
    (hi : callers own v.log = v.caller :: v.running.map (·.orig)) :
    callers own v'.log = v'.caller :: v'.running.map (·.orig) := by
  unfold Binder.callers at hi ⊢
  cases h with
  | quiet h =>
    rw [List.foldl_append, hi]
    exact callerStep_quiet h _
  | sets h =>
    rw [List.foldl_append, hi]
    cases h with
    | clear => rfl
    | restore h => rfl
    | policy policy => rfl
    | flags flags => rfl
  | began h =>
    rw [List.foldl_append, hi]
    rfl
  | answered hr h =>
    rw [List.foldl_append, hi, hr]
    rfl
  | ended hr h =>
    rw [List.foldl_append, hi, hr]
    rfl
  | kept tr =>
    rw [List.foldl_append, hi]
    rfl
  | freed tr =>
    rw [List.foldl_append, hi]
    rfl
  | destroyed h =>
    rw [List.foldl_append, hi]
    rfl
  | took b hh =>
    rw [List.foldl_append, hi]
    rfl
  | gave h hh =>
    rw [List.foldl_append, hi]
    rfl

end

/-- The fields that the frames have saved, the innermost first. -/
def IpcThread.saved (t : IpcThread) : List CallerState := t.view.running.map (·.orig)

/-- A thread of the pool serves a client, clears its identity and calls out; while it waits it
serves another client, and then it goes on with the first. -/
def nestedCalls : List ThreadAct :=
  [.joinThreadPool true,
    .receive (.transaction { senderPid := 7, senderEuid := 10001, buffer := 0x1000 }),
    .clearCallingIdentity, .transact 3 1 0 {}, .receive .transactionComplete,
    .receive (.transaction { senderPid := 9, senderEuid := 10002, buffer := 0x2000 }),
    .returns .noError {} 0x500, .receive .transactionComplete,
    .receive (.reply { buffer := 0x3000 } .noError),
    .restoreCallingIdentity (Identity.token ⟨7, 10001⟩) true, .destroyReply 0x3000]

def serverIds : Identity := ⟨100, 1000⟩

def afterNestedCalls : IpcThread :=
  (ipcThreadMachine serverIds).exec { caller := { calling := serverIds } } nestedCalls

theorem reach_afterNestedCalls :
    (ipcThreadMachine serverIds).Reach (fun _ _ => True) afterNestedCalls := by
  apply Machine.Reach.exec (.start rfl)
  simp [nestedCalls, Machine.Admits]

/-- One set of fields that is saved and put back does for a set of fields for each transaction. -/
theorem callers_reach {own : Identity} {t : IpcThread}
    (h : (ipcThreadMachine own).Reach (fun _ _ => True) t) :
    callers own t.log = t.caller :: t.saved :=
  any_invariant (P := fun v => callers own v.log = v.caller :: v.running.map (·.orig))
    (fun _ _ hm hi => hm.callers hi) rfl h

theorem callers_reach_nested : callers serverIds afterNestedCalls.log =
    [{ calling := ⟨7, 10001⟩ }, { calling := serverIds }] :=
  (callers_reach reach_afterNestedCalls).trans (by decide +kernel)

/-! Answers -/

/-- Transactions that run, the innermost first, and whether they were answered. A one-way
transaction is never answered, any other just once and before it ends. -/
def answerStep : Option (List (TransactionWords × Bool)) → ThreadEvent →
    Option (List (TransactionWords × Bool))
  | some rs, .began tr => some ((tr, false) :: rs)
  | some ((tr, false) :: rs), .wrote (.transaction true _) =>
    if tr.oneWay then none else some ((tr, true) :: rs)
  | _, .wrote (.transaction true _) => none
  | some ((tr, answered) :: rs), .ended tr' =>
    if tr = tr' ∧ answered = !tr.oneWay then some rs else none
  | _, .ended _ => none
  | rs, _ => rs

def answers (log : List ThreadEvent) : Option (List (TransactionWords × Bool)) :=
  log.foldl answerStep (some [])

/-- The command is a `BC_REPLY`. -/
def ThreadEvent.isAnswer : ThreadEvent → Bool
  | wrote (.transaction true _) => true
  | _ => false

def ThreadEvent.isCall : ThreadEvent → Bool
  | began tr => !tr.oneWay
  | _ => false

/-- Calls that wait for an answer. -/
def unanswered (rs : List Running) : ℕ := rs.countP fun r => !r.tr.oneWay && !r.answered

/-- In every run the thread answers each call once, the innermost first. -/
structure Answering (v : ThreadView) : Prop where
  nested : answers v.log = some (v.running.map fun r => (r.tr, r.answered))
  count : v.log.countP (·.isAnswer) + unanswered v.running = v.log.countP (·.isCall)

section

variable {own : Identity} {given : ThreadView → BitVec 64 → Prop} {sent : TransactionWords → Prop}
  {handed : Prop}

theorem answerStep_quiet {e : ThreadEvent} (he : e.quiet = true)
    (rs : List (TransactionWords × Bool)) : answerStep (some rs) e = some rs := by
  cases e with
  | wrote c =>
    cases c with
    | transaction reply tr =>
      cases reply with
      | true => cases he
      | false => rfl
    | freeBuffer buffer => cases he
    | _ => rfl
  | spawned => rfl
  | weakReleased proxy => rfl
  | _ => cases he

theorem quiet_counts {e : ThreadEvent} (he : e.quiet = true) :
    e.isAnswer = false ∧ e.isCall = false := by
  cases e with
  | wrote c =>
    cases c with
    | transaction reply tr =>
      cases reply with
      | true => cases he
      | false => exact ⟨rfl, rfl⟩
    | _ => exact ⟨rfl, rfl⟩
  | _ => first | exact ⟨rfl, rfl⟩ | cases he

theorem Sets.counts {c c' : CallerState} {P : BitVec 64 → Prop} {e : ThreadEvent}
    (h : Sets own P c e c') :
    e.isAnswer = false ∧ e.isCall = false ∧ ∀ rs, answerStep (some rs) e = some rs := by
  cases h <;> exact ⟨rfl, rfl, fun _ => rfl⟩

theorem Answering.log {v v' : ThreadView} {es : List ThreadEvent} (hi : Answering v)
    (hlog : v'.log = v.log ++ es)
    (hnested : es.foldl answerStep (some (v.running.map fun r => (r.tr, r.answered))) =
      some (v'.running.map fun r => (r.tr, r.answered)))
    (hcount : es.countP (·.isAnswer) + unanswered v'.running =
      unanswered v.running + es.countP (·.isCall)) : Answering v' where
  nested := by
    have hbefore := hi.nested
    unfold answers at hbefore ⊢
    rw [hlog, List.foldl_append, hbefore]
    exact hnested
  count := by
    have hbefore := hi.count
    rw [hlog, List.countP_append, List.countP_append]
    omega

theorem Move.answering {v v' : ThreadView} (h : Move own given sent handed v v') (hi : Answering v) :
    Answering v' := by
  cases h with
  | quiet h =>
    obtain ⟨h1, h2⟩ := quiet_counts h
    exact hi.log rfl (answerStep_quiet h _) (by simp [h1, h2])
  | sets h =>
    obtain ⟨h1, h2, h3⟩ := h.counts
    exact hi.log rfl (h3 _) (by simp [h1, h2])
  | began h =>
    apply hi.log rfl rfl
    simp [unanswered, List.countP_cons, ThreadEvent.isAnswer, ThreadEvent.isCall]
  | answered hr h =>
    apply hi.log rfl
    · rw [hr]
      exact if_neg (by simp [h])
    · simp [unanswered, ThreadEvent.isAnswer, ThreadEvent.isCall, hr, h]
      omega
  | ended hr h =>
    apply hi.log rfl
    · rw [hr]
      exact congrArg (answerStep · _) (if_pos ⟨rfl, h⟩)
    · simp [unanswered, ThreadEvent.isAnswer, ThreadEvent.isCall, hr, h]
  | kept tr => exact hi.log rfl rfl (Nat.add_comm _ _)
  | freed tr => exact hi.log rfl rfl (Nat.add_comm _ _)
  | destroyed h => exact hi.log rfl rfl (Nat.add_comm _ _)
  | took b hh => exact hi.log rfl rfl (Nat.add_comm _ _)
  | gave h hh => exact hi.log rfl rfl (Nat.add_comm _ _)

theorem answering_reach {t : IpcThread} (h : (ipcThreadMachine own).Reach (fun _ _ => True) t) :
    Answering t.view := any_invariant (fun _ _ hm hi => hm.answering hi) ⟨rfl, rfl⟩ h

theorem answering_reach_nested : Answering afterNestedCalls.view ∧
    afterNestedCalls.log.countP (·.isAnswer) = 1 :=
  ⟨answering_reach reach_afterNestedCalls, by decide +kernel⟩

end

/-! Tokens that are used where they were given -/

/-- A transaction that runs, or last the thread's own code, with the tokens that its code has. -/
structure Activation where
  sender : Identity
  tokens : List (BitVec 64) := []

def activationStep : List Activation → ThreadEvent → List Activation
  | as, .began tr => { sender := tr.sender } :: as
  | _ :: as, .ended _ => as
  | a :: as, .cleared token => { a with tokens := token :: a.tokens } :: as
  | as, _ => as

def activations (own : Identity) (log : List ThreadEvent) : List Activation :=
  log.foldl activationStep [{ sender := own }]

/-- The code that runs was given this token, and not by code that it interrupts or that it called. -/
def OwnToken (own : Identity) (v : ThreadView) (token : BitVec 64) : Prop :=
  ∃ a ∈ (activations own v.log).head?, token ∈ a.tokens

/-- The kernel's pids are not negative. -/
def PositivePid (tr : TransactionWords) : Prop := tr.senderPid.msb = false

/-- The identity is the process's own or the one of the sender. -/
def Activation.Knows (own : Identity) (a : Activation) (x : Identity) : Prop := x = own ∨ x = a.sender

structure Activation.Good (own : Identity) (c : CallerState) (a : Activation) : Prop where
  pid : a.sender.pid.msb = false
  calling : a.Knows own c.calling
  tokens : ∀ token ∈ a.tokens, a.Knows own (identityOf token)

/-- Every transaction that runs sees its own sender or the process. -/
structure KnownCallers (own : Identity) (v : ThreadView) : Prop where
  good : List.Forall₂ (Activation.Good own) (v.caller :: v.running.map (·.orig)) (activations own v.log)
  senders : (activations own v.log).map (·.sender) = v.running.map (·.tr.sender) ++ [own]

section

variable {own : Identity} {v v' : ThreadView}

theorem activationStep_quiet {e : ThreadEvent} (he : e.quiet = true) (as : List Activation) :
    activationStep as e = as := by
  cases e with
  | wrote c => cases as <;> rfl
  | spawned => cases as <;> rfl
  | weakReleased proxy => cases as <;> rfl
  | _ => cases he

theorem activationStep_wrote (as : List Activation) (c : BcCommand) :
    activationStep as (.wrote c) = as := by
  cases as <;> rfl

theorem activations_snoc (log : List ThreadEvent) (e : ThreadEvent) :
    activations own (log ++ [e]) = activationStep (activations own log) e := List.foldl_append ..

theorem KnownCallers.same (hi : KnownCallers own v) {es : List ThreadEvent}
    (hlog : v'.log = v.log ++ es) (hes : ∀ e ∈ es, ∀ as, activationStep as e = as)
    (hcaller : v'.caller = v.caller)
    (horig : v'.running.map (·.orig) = v.running.map (·.orig))
    (htr : v'.running.map (·.tr.sender) = v.running.map (·.tr.sender)) : KnownCallers own v' := by
  have hacts : activations own v'.log = activations own v.log := by
    rw [hlog]
    clear hlog
    induction es using List.reverseRecOn with
    | nil => rw [List.append_nil]
    | append_singleton es e ih =>
      rw [← List.append_assoc, activations_snoc, hes e (by simp)]
      exact ih fun e' he' => hes e' (by simp [he'])
  constructor
  · rw [hacts, hcaller, horig]
    exact hi.good
  · rw [hacts, htr]
    exact hi.senders

theorem Activation.Good.token (hown : own.pid.msb = false) {c : CallerState} {a : Activation}
    (h : a.Good own c) : a.Knows own (identityOf c.calling.token) := by
  have hpid : c.calling.pid.msb = false := by
    rcases h.calling with hc | hc
    · rw [hc]
      exact hown
    · rw [hc]
      exact h.pid
  rw [Identity.identityOf_token hpid]
  exact h.calling

theorem Sets.known (hown : own.pid.msb = false) {e : ThreadEvent} {c : CallerState}
    {a : Activation} {as : List Activation} (hg : a.Good own v.caller)
    (hacts : activations own v.log = a :: as) (h : Sets own (OwnToken own v) v.caller e c) :
    ∃ a', activationStep (a :: as) e = a' :: as ∧ a'.Good own c ∧ a'.sender = a.sender := by
  cases h with
  | clear =>
    refine ⟨_, rfl, ⟨hg.pid, Or.inl rfl, ?_⟩, rfl⟩
    intro token htoken
    rcases List.mem_cons.1 htoken with rfl | htoken
    · exact hg.token hown
    · exact hg.tokens token htoken
  | restore h =>
    obtain ⟨b, hb, htoken⟩ := h
    rw [hacts] at hb
    cases hb
    exact ⟨a, rfl, ⟨hg.pid, hg.tokens _ htoken, hg.tokens⟩, rfl⟩
  | policy policy => exact ⟨a, rfl, ⟨hg.pid, hg.calling, hg.tokens⟩, rfl⟩
  | flags flags => exact ⟨a, rfl, ⟨hg.pid, hg.calling, hg.tokens⟩, rfl⟩

theorem Move.known (hown : own.pid.msb = false) (h : Move own (OwnToken own) PositivePid True v v')
    (hi : KnownCallers own v) : KnownCallers own v' := by
  cases h with
  | quiet h => exact hi.same rfl (by simpa using activationStep_quiet h) rfl rfl rfl
  | sets h =>
    obtain ⟨hgood, hsenders⟩ := hi
    cases hacts : activations own v.log with
    | nil =>
      rw [hacts] at hgood
      cases hgood
    | cons a as =>
      rw [hacts] at hgood hsenders
      obtain ⟨hg, hrest⟩ := List.forall₂_cons.1 hgood
      obtain ⟨a', ha', hg', hsender⟩ := h.known hown hg hacts
      constructor
      · rw [activations_snoc, hacts, ha']
        exact .cons hg' hrest
      · rw [activations_snoc, hacts, ha', List.map_cons, hsender]
        exact hsenders
  | began h =>
    constructor
    · rw [activations_snoc]
      exact .cons ⟨h, Or.inr rfl, nofun⟩ hi.good
    · rw [activations_snoc]
      exact congrArg (_ :: ·) hi.senders
  | answered hr h => exact hi.same rfl (by simp [activationStep]) rfl (by simp [hr]) (by simp [hr])
  | @ended r rs hr h =>
    obtain ⟨hgood, hsenders⟩ := hi
    cases hacts : activations own v.log with
    | nil =>
      rw [hacts] at hgood
      cases hgood
    | cons a as =>
      rw [hacts, hr] at hgood hsenders
      obtain ⟨-, hrest⟩ := List.forall₂_cons.1 hgood
      have hstep : activations own (v.log ++ [.ended r.tr, .wrote (.freeBuffer r.tr.buffer)]) = as := by
        rw [List.append_cons, activations_snoc, activations_snoc, hacts]
        exact activationStep_wrote as _
      constructor
      · rw [hstep]
        exact hrest
      · rw [hstep]
        exact (List.cons.inj hsenders).2
  | kept tr => exact hi.same rfl (by simp [activationStep]) rfl rfl rfl
  | freed tr => exact hi.same rfl (by simp [activationStep]) rfl rfl rfl
  | destroyed h => exact hi.same rfl (by simp [activationStep]) rfl rfl rfl
  | took b hh => exact hi.same rfl (by simp [activationStep]) rfl rfl rfl
  | gave h hh => exact hi.same rfl (by simp [activationStep]) rfl rfl rfl

end

/-- The transaction that the topmost code works for. -/
def IpcThread.innermost (t : IpcThread) : Option TransactionWords :=
  t.view.running.head?.map (·.tr)

/-- Code that restores only tokens of its own sees its sender or the process, never anyone else. -/
theorem calling_identity {own : Identity} (hown : own.pid.msb = false) {t : IpcThread}
    (h : (ipcThreadMachine own).Reach (fun t a => a.Within (OwnToken own t.view) PositivePid) t) :
    t.caller.calling = own ∨ ∃ tr, t.innermost = some tr ∧ t.caller.calling = tr.sender := by
  have hstart : KnownCallers own ⟨{ calling := own }, [], [], []⟩ :=
    ⟨.cons ⟨hown, Or.inl rfl, nofun⟩ .nil, rfl⟩
  obtain ⟨hgood, hsenders⟩ := view_invariant _ _ (fun _ _ hm => hm.known hown) hstart h
  cases hacts : activations own t.view.log with
  | nil =>
    rw [hacts] at hgood
    cases hgood
  | cons a as =>
    rw [hacts] at hgood hsenders
    obtain ⟨hg, -⟩ := List.forall₂_cons.1 hgood
    rcases hg.calling with hcalling | hcalling
    · exact Or.inl hcalling
    · unfold IpcThread.innermost
      cases hr : t.view.running with
      | nil =>
        rw [hr] at hsenders
        exact Or.inl (hcalling.trans (List.cons.inj hsenders).1)
      | cons r rs =>
        rw [hr] at hsenders
        exact Or.inr ⟨r.tr, rfl, hcalling.trans (List.cons.inj hsenders).1⟩

theorem calling_identity_nested : afterNestedCalls.caller.calling = serverIds ∨
    ∃ tr, afterNestedCalls.innermost = some tr ∧ afterNestedCalls.caller.calling = tr.sender := by
  have hpid : serverIds.pid.msb = false := by decide
  apply calling_identity hpid
  apply Machine.Reach.exec (.start rfl)
  exact ⟨trivial, rfl, trivial, trivial, trivial, rfl, trivial, trivial, trivial,
    ⟨_, rfl, by decide +kernel⟩, trivial, trivial⟩

end Binder

import BinderIpc.Driver.Grows
import BinderIpc.Svc.Manager

/-! On whose behalf `service_manager` acts. A run of the driver is watched by an
observer who notes for every transaction the process that issued it. -/

namespace Binder

/-! The handler -/

theorem checkMacPermsFromLookup_pid {env : MacEnv} {spid uid : ℕ} {perm : MacPerm} {name : List ℕ} :
    ∀ c ∈ (checkMacPermsFromLookup env spid uid perm name).2, c.pid = spid := by
  unfold checkMacPermsFromLookup checkMacPerms
  split <;> simp [SvcCall.pid]

theorem doFindService_pid {m : SvcMgr} {env : MacEnv} {s : List ℕ} {uid spid : ℕ} :
    ∀ c ∈ (doFindService m env s uid spid).2, c.pid = spid := by
  unfold doFindService
  split
  · simp
  · dsimp only
    split
    · simp
    · split
      · simp
      · exact checkMacPermsFromLookup_pid

theorem svcCanRegister_pid {env : MacEnv} {name : List ℕ} {spid uid : ℕ} :
    ∀ c ∈ (svcCanRegister env name spid uid).2, c.pid = spid := by
  unfold svcCanRegister
  split
  · simp
  · exact checkMacPermsFromLookup_pid

theorem doAddService_pid {m : SvcMgr} {env : MacEnv} {malloc : Bool} {s : List ℕ}
    {handle uid : ℕ} {allowIsolated : Bool} {spid : ℕ} :
    ∀ c ∈ (doAddService m env malloc s handle uid allowIsolated spid).2.2, c.pid = spid := by
  have hreg := @svcCanRegister_pid env s spid uid
  unfold doAddService
  split
  · simp
  · cases hr : svcCanRegister env s spid uid with
    | mk ok calls =>
      rw [hr] at hreg
      cases ok with
      | false => exact hreg
      | true =>
        dsimp only
        cases m.findSvc s with
        | some si => exact hreg
        | none => cases malloc <;> exact hreg

/-- Every check is made on behalf of the process that the transaction names. -/
theorem svcmgrHandler_pid {M : ℕ} {m : SvcMgr} {env : MacEnv} {malloc : Bool} {txn : SvcTxn}
    {msg : Bio} : ∀ c ∈ (svcmgrHandler M m env malloc txn msg).calls, c.pid = txn.senderPid := by
  unfold svcmgrHandler
  split
  · simp
  split
  · simp
  dsimp only
  split
  · simp
  split
  · simp
  split
  · unfold getService
    split
    · simp
    · simpa [SvcCall.pid] using doFindService_pid
  split
  · unfold addService
    split
    · simp
    · simpa [SvcCall.pid] using doAddService_pid
  split
  · simp [listServices, SvcCall.pid, svcCanList, checkMacPermsFromGetcon, checkMacPerms]
  · simp

/-! The observer -/

/-- The process id of the process of a thread. -/
def Driver.processId (s : Driver) (T : ℕ) : ℕ := (s.proc.get (s.thread.get T).proc).pid

def Action.positive : Action → Bool
  | openProc pid => 0 < pid
  | _ => true

/-- Process ids are positive. -/
def positivePids : Driver × (ℕ → Option ℕ) → Action → Prop := fun _ a => a.positive = true

instance (x : Driver × (ℕ → Option ℕ)) (a : Action) : Decidable (positivePids x a) :=
  inferInstanceAs (Decidable (a.positive = true))

variable (L : Layout) (rb : RbTree ℕ)

/-- The driver, with the process id of the issuer of every transaction. -/
def issuing : Machine (Driver × (ℕ → Option ℕ)) Action where
  start x := x = ({}, fun _ => none)
  step x a :=
    let s := (driverMachine L rb).step x.1 a
    (s, fun t => if x.1.txn.next ≤ t ∧ t < s.txn.next then a.writer.map x.1.processId else x.2 t)

structure IssuerInv (x : Driver × (ℕ → Option ℕ)) : Prop where
  sender : ∀ t S, (x.1.txn.get t).fromThread = some S → t < x.1.txn.next ∧
    S < x.1.thread.next ∧ x.2 t = some (x.1.processId S)
  issuer : ∀ t p, x.2 t = some p → 0 < p
  thread : ∀ T < x.1.thread.next, (x.1.thread.get T).proc < x.1.proc.next
  pid : ∀ p < x.1.proc.next, 0 < (x.1.proc.get p).pid

variable {L rb} {x : Driver × (ℕ → Option ℕ)}

/-- A step that changes no transaction and makes no thread that is not in a process. -/
theorem IssuerInv.create (h : IssuerInv x) {s : Driver} (htxn : s.txn = x.1.txn)
    (hthread : x.1.thread.next ≤ s.thread.next)
    (hid : ∀ T < x.1.thread.next, s.processId T = x.1.processId T)
    (h1 : ∀ T < s.thread.next, (s.thread.get T).proc < s.proc.next)
    (h2 : ∀ p < s.proc.next, 0 < (s.proc.get p).pid) : IssuerInv (s, x.2) where
  sender t S hS := by
    obtain ⟨h3, h4, h5⟩ := h.sender t S (htxn ▸ hS)
    exact ⟨htxn ▸ h3, h4.trans_le hthread, by rw [hid S h4]; exact h5⟩
  issuer := h.issuer
  thread := h1
  pid := h2

theorem IssuerInv.openProc (h : IssuerInv x) {pid : ℕ} (hpos : 0 < pid) :
    IssuerInv (binderOpen x.1 pid, x.2) := by
  have hp : ∀ p < x.1.proc.next,
      (x.1.proc.alloc { pid := pid }).get p = x.1.proc.get p := fun p hp =>
    x.1.proc.get_alloc_ne p _ hp.ne
  have hself : (x.1.proc.alloc { pid := pid }).get x.1.proc.next = { pid := pid } :=
    x.1.proc.get_alloc_self _
  refine h.create rfl le_rfl (fun T hT => ?_) (fun T hT => ?_) fun p hlt => ?_
  · exact congrArg BinderProc.pid (hp _ (h.thread T hT))
  · exact (h.thread T hT).trans (Nat.lt_succ_self _)
  · rcases Nat.lt_succ_iff_lt_or_eq.1 hlt with hlt | rfl
    · exact (congrArg BinderProc.pid (hp p hlt)).symm ▸ h.pid p hlt
    · exact (congrArg BinderProc.pid hself).symm ▸ hpos

theorem IssuerInv.getThread (h : IssuerInv x) {p : ℕ} (pid : ℕ) (hp : p < x.1.proc.next) :
    IssuerInv (newThread x.1 p pid, x.2) := by
  have hpid : ∀ q, ((newThread x.1 p pid).proc.get q).pid = (x.1.proc.get q).pid := by
    intro q
    simp only [newThread, Driver.modProc, Heap.get_modify]
    split_ifs with hq
    · rw [hq]
    · rfl
  have hth : ∀ T, T < x.1.thread.next →
      (newThread x.1 p pid).thread.get T = x.1.thread.get T := fun T hT =>
    x.1.thread.get_alloc_ne T _ hT.ne
  have hself : (newThread x.1 p pid).thread.get x.1.thread.next =
      { proc := p, pid := pid, looper := { needReturn := true } } :=
    x.1.thread.get_alloc_self _
  refine h.create rfl (Nat.le_succ _) (fun T hT => ?_) (fun T hT => ?_) fun q hq => ?_
  · rw [Driver.processId, hpid, hth T hT, Driver.processId]
  · rcases Nat.lt_succ_iff_lt_or_eq.1 hT with hlt | rfl
    · rw [hth T hlt]
      exact h.thread T hlt
    · rw [hself]
      exact hp
  · rw [hpid]
    exact h.pid q hq

theorem IssuerInv.step (h : IssuerInv x) (a : Action) (ha : a.positive = true) :
    IssuerInv ((issuing L rb).step x a) := by
  have hnot : ∀ {s : Driver}, s.txn = x.1.txn →
      (s, fun t => if x.1.txn.next ≤ t ∧ t < s.txn.next then a.writer.map x.1.processId else x.2 t) =
        (s, x.2) := by
    intro s hs
    refine Prod.ext rfl (funext fun t => if_neg fun ht => ?_)
    rw [hs] at ht
    omega
  by_cases hen : a.enabled L x.1 = true
  swap
  · have hs : (driverMachine L rb).step x.1 a = x.1 := if_neg hen
    have hx : (issuing L rb).step x a = x := by
      simp only [issuing, hs]
      exact hnot rfl
    rwa [hx]
  have hs : (driverMachine L rb).step x.1 a = a.apply L rb x.1 := if_pos hen
  simp only [issuing, hs]
  cases hc : a.creates with
  | false =>
    have hg := apply_grows L rb x.1 a hc
    have hid : ∀ T, (a.apply L rb x.1).processId T = x.1.processId T := fun T => by
      rw [Driver.processId, hg.pid, hg.owner, Driver.processId]
    refine ⟨fun t S hS => ?_, fun t p hp => ?_, fun T hT => ?_, fun p hp => ?_⟩
    · by_cases ht : x.1.txn.next ≤ t ∧ t < (a.apply L rb x.1).txn.next
      · have hw := hg.fresh t ht.2 ht.1 S hS
        have hT : S < x.1.thread.next := by
          cases a <;> cases hw
          simp only [Action.enabled, Bool.and_eq_true] at hen
          exact (Driver.ready_spec hen.1).1
        refine ⟨ht.2, by rw [hg.threadNext]; exact hT, ?_⟩
        dsimp only
        rw [if_pos ht, hw, hid]
        rfl
      · obtain ⟨h1, h2, h3⟩ := h.sender t S (hg.sender t (by omega) S hS)
        refine ⟨h1.trans_le hg.txnNext, by rw [hg.threadNext]; exact h2, ?_⟩
        dsimp only
        rw [if_neg ht, hid]
        exact h3
    · dsimp only at hp
      split_ifs at hp
      · obtain ⟨T, hT, rfl⟩ := Option.map_eq_some_iff.1 hp
        cases a <;> cases hT
        simp only [Action.enabled, Bool.and_eq_true] at hen
        exact h.pid _ (h.thread _ (Driver.ready_spec hen.1).1)
      · exact h.issuer t p hp
    · rw [hg.owner, hg.procNext]
      exact h.thread T (by rwa [← hg.threadNext])
    · rw [hg.pid]
      exact h.pid p (by rwa [← hg.procNext])
  | true =>
    cases a with
    | openProc pid =>
      have hopen := h.openProc (by simpa [Action.positive] using ha)
      rwa [← hnot (s := binderOpen x.1 pid) rfl] at hopen
    | getThread p pid =>
      have hp : p < x.1.proc.next := by
        simp only [Action.enabled, Driver.isOpen, Bool.and_eq_true, decide_eq_true_eq] at hen
        exact hen.1
      simp only [Action.apply, binderGetThread]
      split
      · rw [hnot rfl]
        exact h
      · have hthread := h.getThread pid hp
        rwa [← hnot (s := newThread x.1 p pid) rfl] at hthread
    | _ => cases hc

theorem issuing_inv (h : (issuing L rb).Reach positivePids x) : IssuerInv x := by
  refine h.invariant (fun x hx => ?_) fun x a hi ha => hi.step a ha
  cases hx
  refine ⟨fun t S hS => ?_, fun t p hp => ?_, fun T hT => ?_, fun p hp => ?_⟩
  · cases hS
  · cases hp
  · cases hT
  · cases hp

/-- The words of a request to list the services: the strict mode policy, the name
of the interface, and the index 0. -/
def listRequest : Bio where
  mem := overlay (leBytes 4 0 ++ leBytes 4 svcmgrId.length ++ svcmgrId.flatMap (leBytes 2)) fun _ => 0
  dataAvail := 68

/-- The handler acts for the process that issued a transaction just if the
transaction still knows its sender when it is read. -/
theorem svcmgr_caller_iff (h : (issuing L rb).Reach positivePids x) (a : Action) {T t pid : ℕ}
    (hnew : Event.br T (.transaction t pid) ∈ ((driverMachine L rb).step x.1 a).history)
    (hold : Event.br T (.transaction t pid) ∉ x.1.history) :
    (∀ (M : ℕ) (m : SvcMgr) (env : MacEnv) (malloc : Bool) (txn : SvcTxn) (msg : Bio),
        txn.senderPid = pid →
        ∀ c ∈ (svcmgrHandler M m env malloc txn msg).calls, x.2 t = some c.pid) ↔
      (x.1.txn.get t).fromThread ≠ none := by
  have hi := issuing_inv h
  have htold : pid = x.1.senderPid t := by
    cases hc : a.creates with
    | false =>
      rcases (step_grows L rb x.1 a hc).events _ hnew with he | he | ⟨T', t', he⟩
      · exact absurd he hold
      · cases he
      · cases he
        rfl
    | true =>
      have hh : ((driverMachine L rb).step x.1 a).history = x.1.history := by
        cases a <;> cases hc
        · simp only [driverMachine, Action.apply]
          split_ifs <;> rfl
        · simp only [driverMachine, Action.apply, binderGetThread]
          split_ifs <;> rfl
      exact absurd (hh ▸ hnew) hold
  constructor
  · intro hall hnone
    have hcalls : (svcmgrHandler (2 ^ 64) {} {} true { code := 4, senderPid := pid }
        listRequest).calls = [.svcCanList pid, .checkMacPerms pid] := by rfl
    have hx := hall (2 ^ 64) {} {} true { code := 4, senderPid := pid } listRequest rfl
      (.svcCanList pid) (by rw [hcalls]; simp)
    have hzero : pid = 0 := by rw [htold, Driver.senderPid, hnone]; rfl
    exact absurd (hi.issuer t pid hx) (by omega)
  · intro hfrom M m env malloc txn msg hpid c hc
    obtain ⟨S, hS⟩ := Option.ne_none_iff_exists'.1 hfrom
    rw [svcmgrHandler_pid c hc, hpid, htold, (hi.sender t S hS).2.2, Driver.senderPid, hS]
    rfl

/-- Process 0 is the context manager and its thread 0 waits in a read; thread 1 of
process 1 asks it for the list of services. -/
def callRun (oneWay : Bool) : List Action :=
  [.openProc 50, .getThread 0 50, .setContextMgr 0 1000 true, .mmap 0 0x10000 0x8000 {},
    .openProc 100, .getThread 1 100, .read 0 256 0 false fun _ => false,
    .write 1 (.transaction { code := 4, flags := { oneWay := oneWay } }) {}, .lookForWork 0]

def afterCall (oneWay : Bool) : Driver × (ℕ → Option ℕ) :=
  (issuing layout32 .plain).exec ({}, fun _ => none) (callRun oneWay)

theorem reach_afterCall (oneWay : Bool) :
    (issuing layout32 .plain).Reach positivePids (afterCall oneWay) := by
  refine .exec (.start rfl) ?_
  cases oneWay <;> decide +kernel

theorem svcmgr_caller_call :
    .svcCanList 100 ∈ (svcmgrHandler (2 ^ 64) {} {} true { code := 4, senderPid := 100 }
      listRequest).calls ∧ (afterCall false).2 0 = some 100 :=
  ⟨by decide +kernel, (svcmgr_caller_iff (reach_afterCall false) (.resume 0 fun _ => false)
    (T := 0) (t := 0) (by decide +kernel) (by decide +kernel)).2 (by decide +kernel) (2 ^ 64) {} {}
    true { code := 4, senderPid := 100 } listRequest rfl (.svcCanList 100) (by decide +kernel)⟩

/-- A one-way request for the list is checked as if process 0 had made it. -/
theorem svcmgr_caller_oneWay : ¬∀ x, (issuing layout32 .plain).Reach positivePids x →
    ∀ (a : Action) (T t pid : ℕ),
      Event.br T (.transaction t pid) ∈ ((driverMachine layout32 .plain).step x.1 a).history →
      Event.br T (.transaction t pid) ∉ x.1.history →
      ∀ (M : ℕ) (m : SvcMgr) (env : MacEnv) (malloc : Bool) (txn : SvcTxn) (msg : Bio),
        txn.senderPid = pid →
        ∀ c ∈ (svcmgrHandler M m env malloc txn msg).calls, x.2 t = some c.pid := by
  intro hall
  have hlist := hall _ (reach_afterCall true) (.resume 0 fun _ => false) 0 0 0
    (by decide +kernel) (by decide +kernel) (2 ^ 64) {} {} true { code := 4 } listRequest rfl
    (.svcCanList 0) (by decide +kernel)
  revert hlist
  decide +kernel

end Binder

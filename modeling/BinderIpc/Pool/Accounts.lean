import BinderIpc.Pool.Frames
import BinderIpc.Txn.Reports
import Mathlib.Data.Finset.Card

/-! The accounts of a thread pool: how many loopers were asked for, how many came,
and how many threads wait. -/

namespace Binder

/-- The threads inside the wait for work of process `p`. -/
def Driver.waiters (s : Driver) (p : ℕ) : Finset ℕ :=
  (Finset.range s.thread.next).filter fun T =>
    (s.thread.get T).waits = true ∧ (s.thread.get T).proc = p

structure PoolHolds (s : Driver) (p : ℕ) : Prop where
  requested : (s.proc.get p).requestedThreads = 0 ∨ (s.proc.get p).requestedThreads = 1
  bounded : (s.proc.get p).requestedThreads + (s.proc.get p).requestedThreadsStarted ≤
    (s.proc.get p).maxThreads
  ready : (s.proc.get p).readyThreads = (s.waiters p).card

/-- `requested_threads` of process `p` is raised at most once, and that with one `BR_SPAWN_LOOPER`
at the end of a read that returns. -/
inductive AsksOnce (p : ℕ) (s s' : Driver) : Prop
  | none {l : List Event} (history : s'.history = s.history ++ l)
    (asked : ∀ T, .br T .spawnLooper ∈ l → (s.thread.get T).proc ≠ p)
    (requested : (s'.proc.get p).requestedThreads ≤ (s.proc.get p).requestedThreads)
  | one {T c : ℕ} {l : List Event}
    (history : s'.history = s.history ++ l ++ [.br T .spawnLooper, .readDone T c])
    (owner : (s.thread.get T).proc = p) (others : ∀ e ∈ l, e.asksLooper = false)
    (requested : (s'.proc.get p).requestedThreads = (s.proc.get p).requestedThreads + 1)

/-- Process `p` does not lower its maximum, and its threads read to buffers that can be written
where `BR_SPAWN_LOOPER` goes. -/
def poolGuard (p : ℕ) (s : Driver) : Action → Prop
  | .setMaxThreads T maxThreads =>
    (s.thread.get T).proc = p → (s.proc.get p).maxThreads ≤ maxThreads
  | .read T _ _ _ fault | .resume T fault => (s.thread.get T).proc = p → fault 0 = false
  | _ => True

/-- What a step makes of the pool of process `p`. -/
def Accounts (p : ℕ) (s s' : Driver) : Prop := PoolHolds s' p ∧ AsksOnce p s s'

/-- A part of a step in which no looper is asked for. -/
structure Unasked (p : ℕ) (s s' : Driver) : Prop where
  holds : PoolHolds s' p
  requested : (s'.proc.get p).requestedThreads = (s.proc.get p).requestedThreads
  owner : ∀ T, (s'.thread.get T).proc = (s.thread.get T).proc
  asked : NotAsked s s'

variable {L : Layout} {rb : RbTree ℕ} {s s' s'' : Driver} {T ptr p : ℕ} {fault : ℕ → Bool}

theorem NotAsked.asksOnce (h : NotAsked s s')
    (hle : (s'.proc.get p).requestedThreads ≤ (s.proc.get p).requestedThreads) :
    AsksOnce p s s' := by
  obtain ⟨l, hl, hplain⟩ := h
  exact .none hl (fun T hT => absurd (hplain _ hT) (by simp [Event.asksLooper])) hle

theorem SamePools.waiters (h : SamePools s s') (p : ℕ) : s'.waiters p = s.waiters p := by
  unfold Driver.waiters
  rw [h.next]
  simp only [h.waits, h.owner]

theorem SamePools.requested (h : SamePools s s') (p : ℕ) :
    (s'.proc.get p).requestedThreads = (s.proc.get p).requestedThreads :=
  congrArg PoolCounts.requested (h.pool p)

theorem PoolHolds.congr (h : PoolHolds s p) (hpool : (s'.proc.get p).pool = (s.proc.get p).pool)
    (hwaiters : s'.waiters p = s.waiters p) : PoolHolds s' p := by
  have hrequested : (s'.proc.get p).requestedThreads = (s.proc.get p).requestedThreads :=
    congrArg PoolCounts.requested hpool
  have hstarted : (s'.proc.get p).requestedThreadsStarted = (s.proc.get p).requestedThreadsStarted :=
    congrArg PoolCounts.started hpool
  have hmax : (s'.proc.get p).maxThreads = (s.proc.get p).maxThreads :=
    congrArg PoolCounts.maxThreads hpool
  have hready : (s'.proc.get p).readyThreads = (s.proc.get p).readyThreads :=
    congrArg PoolCounts.ready hpool
  constructor
  · rw [hrequested]
    exact h.requested
  · rw [hrequested, hstarted, hmax]
    exact h.bounded
  · rw [hready, hwaiters]
    exact h.ready

theorem PoolHolds.same (h : PoolHolds s p) (hs : SamePools s s') : PoolHolds s' p :=
  h.congr (hs.pool p) (hs.waiters p)

namespace Unasked

theorem refl (h : PoolHolds s p) : Unasked p s s := ⟨h, rfl, fun _ => rfl, .refl s⟩

theorem trans (h : Unasked p s s') (h' : Unasked p s' s'') : Unasked p s s'' where
  holds := h'.holds
  requested := h'.requested.trans h.requested
  owner T := (h'.owner T).trans (h.owner T)
  asked := h.asked.trans h'.asked

theorem same (h : Unasked p s s') (hs : SamePools s' s'') : Unasked p s s'' where
  holds := h.holds.same hs
  requested := (hs.requested p).trans h.requested
  owner T := (hs.owner T).trans (h.owner T)
  asked := h.asked.trans hs.asked

theorem accounts (h : Unasked p s s') : Accounts p s s' :=
  ⟨h.holds, h.asked.asksOnce h.requested.le⟩

end Unasked

/-! Waiting -/

/-- A thread begins to wait, or stops. -/
theorem waiters_modThread {f : BinderThread → BinderThread} (hT : T < s.thread.next)
    (hf : (f (s.thread.get T)).proc = (s.thread.get T).proc) (p : ℕ) :
    (s.modThread T f).waiters p =
      if (f (s.thread.get T)).waits = true ∧ (s.thread.get T).proc = p then
        insert T (s.waiters p) else (s.waiters p).erase T := by
  ext S
  have hget : (s.modThread T f).thread.get S =
      if S = T then f (s.thread.get T) else s.thread.get S := s.thread.get_modify T S f
  have hnext : (s.modThread T f).thread.next = s.thread.next := rfl
  by_cases hS : S = T
  · subst hS
    rw [if_pos rfl] at hget
    have hmem : S ∈ (s.modThread S f).waiters p ↔
        (f (s.thread.get S)).waits = true ∧ (s.thread.get S).proc = p := by
      simp [Driver.waiters, hget, hnext, hf, hT]
    rw [hmem]
    split_ifs with hw
    · simpa using hw
    · simpa using hw
  · rw [if_neg hS] at hget
    have hmem : S ∈ (s.modThread T f).waiters p ↔ S ∈ s.waiters p := by
      simp only [Driver.waiters, Finset.mem_filter, Finset.mem_range, hget, hnext]
    rw [hmem]
    split_ifs <;> simp [hS]

theorem mem_waiters (hT : T < s.thread.next) : T ∈ s.waiters (s.thread.get T).proc ↔
    (s.thread.get T).waits = true := by
  simp [Driver.waiters, hT]

theorem mem_waiters_owner {p : ℕ} (hT : T ∈ s.waiters p) : (s.thread.get T).proc = p := by
  simp only [Driver.waiters, Finset.mem_filter] at hT
  exact hT.2.2

/-- `ready_threads` is counted along with the thread. -/
theorem unasked_wait (h : PoolHolds s p) (hT : T < s.thread.next) {d : ℤ}
    {f : BinderThread → BinderThread} (hthread : s'.thread = s.thread)
    (hhistory : s'.history = s.history)
    (hproc : ∀ p, s'.proc.get p = { s.proc.get p with readyThreads := (s.proc.get p).readyThreads +
      if p = (s.thread.get T).proc then d else 0 })
    (hf : (f (s.thread.get T)).proc = (s.thread.get T).proc)
    (hd : (if (f (s.thread.get T)).waits then 1 else 0) =
      (if (s.thread.get T).waits then 1 else 0) + d) : Unasked p s (s'.modThread T f) := by
  have hwaiters : ∀ p, (s'.modThread T f).waiters p = (s.modThread T f).waiters p := by
    intro p
    unfold Driver.waiters Driver.modThread
    rw [hthread]
  have hpool : ∀ p, (s'.modThread T f).proc.get p = { s.proc.get p with
      readyThreads := (s.proc.get p).readyThreads + if p = (s.thread.get T).proc then d else 0 } :=
    hproc
  refine ⟨⟨?_, ?_, ?_⟩, by rw [hpool], fun S => ?_,
    ⟨[], by rw [List.append_nil]; exact hhistory, by simp⟩⟩
  · rw [hpool]
    exact h.requested
  · rw [hpool]
    exact h.bounded
  · rw [hpool, hwaiters, waiters_modThread hT hf]
    change (s.proc.get p).readyThreads + _ = _
    rw [h.ready]
    by_cases hp : (s.thread.get T).proc = p
    · subst hp
      rw [if_pos rfl]
      have hmem := mem_waiters (s := s) hT
      cases hwas : (s.thread.get T).waits <;> cases hnow : (f (s.thread.get T)).waits <;>
        rw [hwas] at hmem hd <;> rw [hnow] at hd
      · rw [if_neg (by simp), Finset.erase_eq_of_notMem (by simpa using hmem)]
        simpa using hd.symm
      · rw [if_pos (by simp), Finset.card_insert_of_notMem (by simpa using hmem)]
        simp at hd
        rw [← hd]
        push_cast
        rfl
      · rw [if_neg (by simp)]
        have hcard := Finset.card_erase_add_one (hmem.2 rfl)
        simp at hd
        omega
      · rw [if_pos (by simp), Finset.insert_eq_of_mem (hmem.2 rfl)]
        simpa using hd
    · rw [if_neg (fun h => hp h.symm), if_neg (fun h => hp h.2), add_zero,
        Finset.erase_eq_of_notMem fun hmem => hp (mem_waiters_owner hmem)]
  · have hget : (s'.modThread T f).thread.get S =
        if S = T then f (s.thread.get T) else s.thread.get S := by
      rw [← hthread]
      exact s'.thread.get_modify T S f
    rw [hget]
    split_ifs with hS
    · rw [hS, hf]
    · rfl

/-- Where `ready_threads` of the thread's process is raised or lowered if the thread waits for it. -/
theorem ready_changed {w : Bool} {d : ℤ} {g : BinderProc → BinderProc}
    (hg : ∀ x, g x = { x with readyThreads := x.readyThreads + d }) (p : ℕ) :
    (if w then s.modProc (s.thread.get T).proc g else s).proc.get p =
      { s.proc.get p with readyThreads := (s.proc.get p).readyThreads +
          if p = (s.thread.get T).proc then (if w then d else 0) else 0 } := by
  cases w with
  | false => simp
  | true =>
    simp only [if_true, Driver.modProc, Heap.get_modify]
    split_ifs with hp
    · rw [hg, hp]
    · rw [add_zero]

theorem stopWaiting_unasked (h : PoolHolds s p) (hT : T < s.thread.next) {f : ReadFrame}
    (hf : (s.thread.get T).asleep = some f) : Unasked p s (stopWaiting s T f) := by
  have hwaits : (s.thread.get T).waits = f.waitForProcWork := by
    rw [BinderThread.waits, hf]
    rfl
  unfold stopWaiting
  refine unasked_wait h hT (d := if f.waitForProcWork then -1 else 0) ?_ ?_ (fun p => ?_) rfl ?_
  · split_ifs <;> rfl
  · split_ifs <;> rfl
  · exact ready_changed (fun x => rfl) p
  · rw [hwaits]
    cases f.waitForProcWork <;> rfl

/-! The end of a read -/

/-- Where the end of a read raises the count. -/
def askForLooper (s : Driver) (p : ℕ) : Driver :=
  s.modProc p fun x => { x with requestedThreads := x.requestedThreads + 1 }

theorem askForLooper_same (s : Driver) (p : ℕ) : (askForLooper s p).proc.get p =
    { s.proc.get p with requestedThreads := (s.proc.get p).requestedThreads + 1 } := by
  simp [askForLooper, Driver.modProc]

theorem askForLooper_ne {p q : ℕ} (hp : p ≠ q) : (askForLooper s q).proc.get p = s.proc.get p := by
  simp [askForLooper, Driver.modProc, Heap.get_modify, hp]

/-- A looper is asked for in another process. -/
theorem holds_askForLooper_ne (h : PoolHolds s p) {q : ℕ} (hp : p ≠ q) :
    PoolHolds (askForLooper s q) p :=
  h.congr (congrArg BinderProc.pool (askForLooper_ne hp)) rfl

/-- None was asked for, and none waits, so that there is room for one. -/
theorem holds_askForLooper (h : PoolHolds s p)
    (hnone : (s.proc.get p).requestedThreads + (s.proc.get p).readyThreads = 0)
    (hroom : (s.proc.get p).requestedThreadsStarted < (s.proc.get p).maxThreads) :
    PoolHolds (askForLooper s p) p := by
  have hready := h.ready
  have hcard : (0 : ℤ) ≤ (s.waiters p).card := Int.natCast_nonneg _
  have hzero : (s.proc.get p).requestedThreads = 0 := by
    rcases h.requested with hr | hr <;> omega
  refine ⟨Or.inr ?_, ?_, ?_⟩
  · rw [askForLooper_same]
    change (s.proc.get p).requestedThreads + 1 = 1
    rw [hzero, zero_add]
  · rw [askForLooper_same]
    change (s.proc.get p).requestedThreads + 1 + (s.proc.get p).requestedThreadsStarted ≤
      (s.proc.get p).maxThreads
    omega
  · rw [askForLooper_same]
    exact hready

theorem readDone_accounts (h : Unasked p s s')
    (hfault : (s.thread.get T).proc = p → fault 0 = false) :
    Accounts p s (readDone s' T ptr fault) := by
  obtain ⟨l, hl, hplain⟩ := h.asked
  have hquiet : ∀ S, .br S .spawnLooper ∉ l := fun S hS =>
    absurd (hplain _ hS) (by simp [Event.asksLooper])
  have hnote : ∀ (s' : Driver) e, PoolHolds s' p → PoolHolds (s'.note e) p := fun s' e h =>
    h.congr rfl rfl
  have howner := h.owner T
  change Accounts p s (if _ then
    (if fault 0 then askForLooper s' (s'.thread.get T).proc else
      ((askForLooper s' (s'.thread.get T).proc).note (.br T .spawnLooper)).note (.readDone T ptr))
    else s'.note (.readDone T ptr))
  split_ifs with hask hf
  · have hp : p ≠ (s'.thread.get T).proc := by
      intro hp
      rw [hfault (howner ▸ hp.symm)] at hf
      cases hf
    have hasked : NotAsked s (askForLooper s' (s'.thread.get T).proc) := ⟨l, hl, hplain⟩
    refine ⟨holds_askForLooper_ne h.holds hp, hasked.asksOnce ?_⟩
    rw [askForLooper_ne hp, h.requested]
  · obtain ⟨hnone, hroom, -⟩ := hask
    have hhistory : (((askForLooper s' (s'.thread.get T).proc).note
        (.br T .spawnLooper)).note (.readDone T ptr)).history =
          s.history ++ l ++ [.br T .spawnLooper, .readDone T ptr] := by
      simp [Driver.note, askForLooper, Driver.modProc, hl]
    by_cases hp : (s'.thread.get T).proc = p
    · subst hp
      refine ⟨hnote _ _ (hnote _ _ (holds_askForLooper h.holds hnone hroom)),
        .one hhistory howner.symm hplain ?_⟩
      change ((askForLooper s' _).proc.get _).requestedThreads = _
      rw [askForLooper_same, ← h.requested]
    · have hp' : p ≠ (s'.thread.get T).proc := fun h => hp h.symm
      refine ⟨hnote _ _ (hnote _ _ (holds_askForLooper_ne h.holds hp')),
        .none (hhistory.trans (List.append_assoc _ _ _)) (fun S hS => ?_) ?_⟩
      · simp only [List.mem_append, List.mem_cons, List.not_mem_nil, or_false] at hS
        rcases hS with hS | hS | hS
        · exact absurd hS (hquiet S)
        · cases hS
          rwa [← howner]
        · cases hS
      · change ((askForLooper s' _).proc.get p).requestedThreads ≤ _
        rw [askForLooper_ne hp', h.requested]
  · exact (h.same (pools_note _ rfl)).accounts

theorem reportErrors_accounts (h : Unasked p s s')
    (hfault : (s.thread.get T).proc = p → fault 0 = false) {size : ℕ} :
    Accounts p s (reportErrors s' T size ptr fault) := by
  have hnote : ∀ (s' : Driver) e, SamePools s' (s'.note (.br T (.returnError e))) := fun s' e =>
    pools_note s' rfl
  have hreport : ∀ (s' : Driver) e ptr, Unasked p s s' → Accounts p s
      (if fault ptr then s' else readDone ((s'.note (.br T (.returnError e))).modThread T fun y =>
        { y with returnError := .ok }) T (ptr + 4) fault) := by
    intro s' e ptr h
    split_ifs
    · exact h.accounts
    · refine readDone_accounts ((h.same (hnote s' e)).same ?_) hfault
      exact pools_modThread _ T (fun _ => rfl) fun _ => rfl
  unfold reportErrors
  dsimp only
  by_cases h2 : (s'.thread.get T).returnError2 = .ok
  · rw [if_pos h2]
    exact hreport s' _ ptr h
  · rw [if_neg h2]
    have h₂ := h.same (hnote s' (s'.thread.get T).returnError2)
    split_ifs
    · exact h.accounts
    · exact readDone_accounts h₂ hfault
    · have h₃ := h₂.same (pools_modThread _ T (f := fun y => { y with returnError2 := .ok })
        (fun _ => rfl) fun _ => rfl)
      rename_i hlast _ _
      have hr := hreport _ (s'.thread.get T).returnError (ptr + 4) h₃
      rwa [if_pos (by assumption)] at hr
    · have h₃ := h₂.same (pools_modThread _ T (f := fun y => { y with returnError2 := .ok })
        (fun _ => rfl) fun _ => rfl)
      have hr := hreport _ (s'.thread.get T).returnError (ptr + 4) h₃
      rwa [if_neg (by assumption)] at hr

theorem waitForWork_accounts (h : Unasked p s s')
    (hfault : (s.thread.get T).proc = p → fault 0 = false) (hT : T < s'.thread.next)
    (hw : (s'.thread.get T).waits = false) {size : ℕ} {nonBlock : Bool} :
    Accounts p s (waitForWork s' T size ptr nonBlock fault) := by
  unfold waitForWork
  dsimp only
  by_cases herr : (s'.thread.get T).returnError ≠ .ok ∧ ptr < size
  · rw [if_pos herr]
    exact reportErrors_accounts h hfault
  · rw [if_neg herr]
    generalize ((s'.thread.get T).transactionStack.isNone &&
      s'.obj.todo.isEmpty (.threadTodo T)) = w
    refine (h.trans (unasked_wait h.holds hT (d := if w then 1 else 0) ?_ ?_ (fun p => ?_) rfl ?_)).accounts
    · cases w <;> rfl
    · cases w <;> rfl
    · exact ready_changed (fun x => rfl) p
    · rw [hw]
      cases w <;> rfl

theorem readLoop_accounts {f : ReadFrame} (k : ℕ) (h : Unasked p s s')
    (hfault : (s.thread.get T).proc = p → fault 0 = false)
    (hT : T < s'.thread.next) (hw : (s'.thread.get T).waits = false) :
    Accounts p s (readLoop L T f fault k s' ptr) := by
  induction k generalizing s' ptr with
  | zero => exact h.accounts
  | succ k ih =>
    unfold readLoop
    cases nextWork s' T f.waitForProcWork with
    | none =>
      dsimp only
      split_ifs
      · exact waitForWork_accounts h hfault hT hw
      · exact readDone_accounts h hfault
    | some w =>
      dsimp only
      split_ifs
      · exact readDone_accounts h hfault
      · have hitem := readItem_pools s' T fault w ptr
        generalize readItem s' T ptr fault w = r at hitem ⊢
        obtain ⟨s₁, turn⟩ := r
        have h₁ := h.same hitem
        cases turn with
        | next ptr' =>
          refine ih h₁ (hitem.next ▸ hT) ?_
          rw [hitem.waits]
          exact hw
        | fault => exact h₁.accounts
        | done ptr' => exact readDone_accounts h₁ hfault

/-! Every step -/

theorem registerLooper_accounts (h : PoolHolds s p) : Accounts p s (registerLooper s T) := by
  have hlooper : ∀ (s' : Driver) (g : Looper → Looper),
      SamePools s' (s'.modThread T fun y => { y with looper := g y.looper }) := fun s' g =>
    pools_modThread s' T (fun _ => rfl) fun _ => rfl
  have hregistered := fun s' => hlooper s' fun l => { l with registered := true }
  have hinvalid := ((Unasked.refl h).same (hlooper s fun l => { l with invalid := true })).same
    (hregistered _)
  unfold registerLooper
  dsimp only
  split_ifs with hentered hzero
  · exact hinvalid.accounts
  · exact hinvalid.accounts
  · -- a looper that was asked for has come
    have hproc : ∀ p, (s.modProc (s.thread.get T).proc fun p =>
        { p with
          requestedThreads := p.requestedThreads - 1
          requestedThreadsStarted := p.requestedThreadsStarted + 1 }).proc.get p =
        { s.proc.get p with
          requestedThreads := (s.proc.get p).requestedThreads -
            if p = (s.thread.get T).proc then 1 else 0
          requestedThreadsStarted := (s.proc.get p).requestedThreadsStarted +
            if p = (s.thread.get T).proc then 1 else 0 } := by
      intro p
      simp only [Driver.modProc, Heap.get_modify]
      split_ifs with hp
      · rw [hp]
      · rw [sub_zero, add_zero]
    have hholds : PoolHolds (s.modProc (s.thread.get T).proc fun p =>
        { p with
          requestedThreads := p.requestedThreads - 1
          requestedThreadsStarted := p.requestedThreadsStarted + 1 }) p := by
      have hbounded := h.bounded
      refine ⟨?_, ?_, ?_⟩
      · rw [hproc]
        dsimp only
        split_ifs with heq
        · subst heq
          rcases h.requested with hr | hr
          · exact absurd hr hzero
          · omega
        · simpa using h.requested
      · rw [hproc]
        dsimp only
        omega
      · rw [hproc]
        exact h.ready
    have hsame := hregistered (s.modProc (s.thread.get T).proc fun p =>
      { p with
        requestedThreads := p.requestedThreads - 1
        requestedThreadsStarted := p.requestedThreadsStarted + 1 })
    have hasked : NotAsked s (s.modProc (s.thread.get T).proc fun p =>
      { p with
        requestedThreads := p.requestedThreads - 1
        requestedThreadsStarted := p.requestedThreadsStarted + 1 }) := ⟨[], by simp [Driver.modProc], by simp⟩
    refine ⟨hholds.same hsame, (hasked.trans hsame.asked).asksOnce ?_⟩
    rw [hsame.requested, hproc]
    dsimp only
    split_ifs <;> omega

theorem holds_openProc (h : PoolHolds s p) (ht : ThreadInv s) (pid : ℕ) :
    PoolHolds (binderOpen s pid) p := by
  by_cases hp : p = s.proc.next
  · have hnew : (binderOpen s pid).proc.get p = { pid := pid } := hp ▸ s.proc.get_alloc_self _
    have hnone : (binderOpen s pid).waiters p = ∅ := by
      refine Finset.eq_empty_of_forall_notMem fun T hT => ?_
      simp only [Driver.waiters, Finset.mem_filter, Finset.mem_range] at hT
      have hlt := ht.proc T hT.1
      have hown : (s.thread.get T).proc = p := hT.2.2
      omega
    refine ⟨Or.inl ?_, ?_, ?_⟩
    · rw [hnew]
    · rw [hnew]
      exact le_rfl
    · rw [hnew, hnone]
      rfl
  · have hold : (binderOpen s pid).proc.get p = s.proc.get p := s.proc.get_alloc_ne p _ hp
    have hsame : (binderOpen s pid).waiters p = s.waiters p := rfl
    exact h.congr (congrArg BinderProc.pool hold) hsame

theorem waiters_newThread (p pid q : ℕ) : (newThread s p pid).waiters q = s.waiters q := by
  have hself : (newThread s p pid).thread.get s.thread.next =
      { proc := p, pid := pid, looper := { needReturn := true } } := s.thread.get_alloc_self _
  have hold : ∀ T, T ≠ s.thread.next → (newThread s p pid).thread.get T = s.thread.get T := fun T hT =>
    s.thread.get_alloc_ne T _ hT
  have hnext : (newThread s p pid).thread.next = s.thread.next + 1 := rfl
  ext T
  simp only [Driver.waiters, Finset.mem_filter, Finset.mem_range, hnext]
  by_cases hT : T = s.thread.next
  · subst hT
    rw [hself]
    simp [BinderThread.waits]
  · rw [hold T hT]
    have hlt : T < s.thread.next + 1 ↔ T < s.thread.next := by omega
    rw [hlt]

theorem pool_newThread (q pid : ℕ) :
    ((newThread s q pid).proc.get p).pool = (s.proc.get p).pool :=
  s.proc.apply_get_modify q p (fun x => { x with
    threads := treeInsert (fun T => ((newThread s q pid).thread.get T).pid) s.thread.next x.threads })
    (·.pool) fun _ => rfl

theorem openProc_accounts (h : PoolHolds s p) (ht : ThreadInv s) (pid : ℕ) :
    Accounts p s (binderOpen s pid) := by
  have hle : ((binderOpen s pid).proc.get p).requestedThreads ≤ (s.proc.get p).requestedThreads := by
    by_cases hp : p = s.proc.next
    · have hnew : (binderOpen s pid).proc.get p = { pid := pid } := hp ▸ s.proc.get_alloc_self _
      have hnone : ((binderOpen s pid).proc.get p).requestedThreads = 0 :=
        congrArg BinderProc.requestedThreads hnew
      have hr := h.requested
      omega
    · exact (congrArg BinderProc.requestedThreads (s.proc.get_alloc_ne p _ hp)).le
  exact ⟨holds_openProc h ht pid, .none (List.append_nil _).symm (by simp) hle⟩

theorem resumeRead_accounts (h : PoolHolds s p) (hT : T < s.thread.next)
    (hfault : (s.thread.get T).proc = p → fault 0 = false) : Accounts p s (resumeRead L s T fault) := by
  unfold resumeRead
  split
  · exact (Unasked.refl h).accounts
  · rename_i f hf
    have hstop := stopWaiting_unasked h hT hf
    split
    · exact (Unasked.refl h).accounts
    · exact hstop.accounts
    · refine readLoop_accounts _ hstop hfault ?_ ?_
      · unfold stopWaiting
        split_ifs <;> exact hT
      · simp [stopWaiting, Driver.modThread, BinderThread.waits]

theorem setMaxThreads_accounts (h : PoolHolds s p) {maxThreads : ℤ}
    (hmax : (s.thread.get T).proc = p → (s.proc.get p).maxThreads ≤ maxThreads) :
    Accounts p s (s.modProc (s.thread.get T).proc fun p => { p with maxThreads := maxThreads }) := by
  have hproc : (s.modProc (s.thread.get T).proc fun p =>
      { p with maxThreads := maxThreads }).proc.get p = { s.proc.get p with
        maxThreads := if p = (s.thread.get T).proc then maxThreads
          else (s.proc.get p).maxThreads } := by
    simp only [Driver.modProc, Heap.get_modify]
    split_ifs with hp
    · rw [hp]
    · rfl
  have hrequested := congrArg BinderProc.requestedThreads hproc
  have hstarted := congrArg BinderProc.requestedThreadsStarted hproc
  have hraised := congrArg BinderProc.maxThreads hproc
  refine ⟨⟨?_, ?_, ?_⟩, .none (List.append_nil _).symm (by simp) hrequested.le⟩
  · exact h.requested.imp hrequested.trans hrequested.trans
  · have hb := h.bounded
    refine ((congrArg₂ (· + ·) hrequested hstarted).trans_le ?_).trans hraised.ge
    change (s.proc.get p).requestedThreads + (s.proc.get p).requestedThreadsStarted ≤
      if p = (s.thread.get T).proc then maxThreads else (s.proc.get p).maxThreads
    split_ifs with hp
    · have hle := hmax hp.symm
      omega
    · exact hb
  · exact (congrArg BinderProc.readyThreads hproc).trans h.ready

theorem apply_accounts (h : PoolHolds s p) (ht : ThreadInv s) {a : Action}
    (hen : a.enabled L s = true) (hok : poolGuard p s a) : Accounts p s (a.apply L rb s) := by
  have hself := Unasked.refl h
  cases a with
  | openProc pid => exact openProc_accounts h ht pid
  | getThread q pid =>
    simp only [Action.apply, binderGetThread]
    split_ifs
    · exact hself.accounts
    · have hpool : ((newThread s q pid).proc.get p).pool = (s.proc.get p).pool := pool_newThread q pid
      refine ⟨h.congr hpool (waiters_newThread q pid p), .none (List.append_nil _).symm (by simp) ?_⟩
      exact (congrArg PoolCounts.requested hpool).le
  | mmap q base size env =>
    simp only [Action.apply, driverMmap]
    split_ifs
    · exact hself.accounts
    · split
      · exact hself.accounts
      · rename_i area _
        exact ((hself.same (pools_modProc s q (f := fun x => { x with area := area }) fun _ => rfl)).same
          (pools_modObj _ _)).accounts
  | vmaClose q =>
    have hsame : SamePools s (binderVmaClose s q) := pools_modProc s q fun _ => rfl
    exact (hself.same hsame).accounts
  | flush q =>
    have hsame : SamePools s (binderFlush s q) := pools_modProc s q fun _ => rfl
    exact (hself.same hsame).accounts
  | close q =>
    have hsame : SamePools s (binderRelease s q) := pools_modProc s q fun _ => rfl
    exact (hself.same hsame).accounts
  | deferredFunc q env => exact (hself.same (binderDeferredFunc_pools L rb s q env)).accounts
  | write T c env =>
    change Accounts p s (if (s.thread.get T).returnError = .ok then binderCommand L rb s T env c else s)
    split_ifs
    · by_cases hc : c = .registerLooper
      · rw [hc]
        exact registerLooper_accounts h
      · exact (hself.same (binderCommand_pools L rb s T env c hc)).accounts
    · exact hself.accounts
  | read T size consumed nonBlock fault =>
    simp only [Action.enabled, Bool.and_eq_true] at hen
    obtain ⟨hT, -, hawake, -⟩ := Driver.ready_spec hen.1
    have hw : (s.thread.get T).waits = false := by rw [BinderThread.waits, hawake]; rfl
    change Accounts p s (binderThreadRead s T size consumed nonBlock fault)
    unfold binderThreadRead
    split_ifs
    · exact hself.accounts
    · exact waitForWork_accounts hself hok hT hw
    · exact waitForWork_accounts hself hok hT hw
  | lookForWork T => exact (hself.same (lookForWork_pools s T)).accounts
  | resume T fault => exact resumeRead_accounts h (of_decide_eq_true hen) hok
  | interrupt T =>
    change Accounts p s (interruptRead s T)
    unfold interruptRead
    split
    · exact hself.accounts
    · rename_i f hf
      split_ifs
      · exact hself.accounts
      · exact (stopWaiting_unasked h (of_decide_eq_true hen) hf).accounts
  | ioctlDone T =>
    have hsame : SamePools s (clearNeedReturn s T) :=
      pools_modThread s T (fun _ => rfl) fun _ => rfl
    exact (hself.same hsame).accounts
  | setMaxThreads T maxThreads => exact setMaxThreads_accounts h hok
  | setContextMgr T euid kzalloc =>
    change Accounts p s (setCtxMgr s T euid kzalloc)
    unfold setCtxMgr
    split_ifs
    · exact hself.accounts
    · have huid : SamePools s { s with contextMgrUid := some (s.contextMgrUid.getD euid) } :=
        { SamePools.refl s with }
      exact ((hself.same huid).same (pools_modObj _ _)).accounts
  | threadExit T => exact (hself.same (binderFreeThread_pools s T)).accounts

theorem step_accounts (h : PoolHolds s p) (ht : ThreadInv s) {a : Action}
    (hok : poolGuard p s a) : Accounts p s ((driverMachine L rb).step s a) := by
  change Accounts p s (if a.enabled L s then a.apply L rb s else s)
  split_ifs with hen
  · exact apply_accounts h ht hen hok
  · exact (Unasked.refl h).accounts

/-- The accounts of a process's pool are right in every run, and every looper is asked for once. -/
theorem pool_accounts (h : (driverMachine L rb).Reach (poolGuard p) s) :
    PoolHolds s p ∧ ∀ a, poolGuard p s a → AsksOnce p s ((driverMachine L rb).step s a) := by
  have hthreads : ∀ s, (driverMachine L rb).Reach (poolGuard p) s → ThreadInv s := fun s hs =>
    threadInv_reach hs
  have hholds : PoolHolds s p := by
    refine h.invariant_of (I := ThreadInv) hthreads (J := fun s => PoolHolds s p) ?_ ?_
    · rintro s rfl
      exact ⟨Or.inl rfl, le_rfl, rfl⟩
    · intro s a ht _ hi hok
      exact (step_accounts hi ht hok).1
  exact ⟨hholds, fun a hok => (step_accounts hholds (hthreads s h) hok).2⟩

/-- The main thread of a pool is about to return from its first read. -/
def startedPool : Driver :=
  (driverMachine layout32 .plain).exec {}
    [.openProc 100, .getThread 0 100, .setMaxThreads 0 4, .write 0 .enterLooper {},
      .read 0 256 0 false fun _ => false, .lookForWork 0]

theorem pool_accounts_started : PoolHolds startedPool 0 ∧
    AsksOnce 0 startedPool
      ((driverMachine layout32 .plain).step startedPool (.resume 0 fun _ => false)) := by
  have hreach : (driverMachine layout32 .plain).Reach (poolGuard 0) startedPool :=
    .exec (.start rfl) ⟨trivial, trivial, by intro; decide, trivial, fun _ => rfl, trivial, trivial⟩
  exact ⟨(pool_accounts hreach).1, (pool_accounts hreach).2 _ fun _ => rfl⟩

example : ((((driverMachine layout32 .plain).step startedPool (.resume 0 fun _ => false)).proc.get
    0).requestedThreads, (startedPool.proc.get 0).requestedThreads) = (1, 0) := by decide +kernel

end Binder

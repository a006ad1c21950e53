import BinderIpc.Lib.HeapCount
import BinderIpc.Lib.Run
import Mathlib.Data.Int.Notation

/-! Java objects and their native counterparts. A `Binder` of the process has a
`JavaBBinder`, made anew when the last one is gone; a `BpBinder` has a `BinderProxy`,
made anew when the collector has cleared its `mSelf`. Both sides count references. -/

namespace Binder

/-- `sp<IBinder>`: a `BpBinder` or a `JavaBBinder`. -/
inductive NativeRef
  | bpBinder (n : ℕ) | javaBBinder (b : ℕ)
  deriving Repr, DecidableEq

/-- A `BinderProxy` or a `Binder`. -/
inductive JavaRef
  | binderProxy (p : ℕ) | binder (o : ℕ)
  deriving Repr, DecidableEq

/-! Proxies -/

structure RemoteBinder where
  /-- the strong count -/
  strong : ℕ := 0
  /-- the strong references of native code -/
  own : ℕ := 0
  destroyed : Bool := false
  /-- the proxy whose `mSelf` is attached -/
  attached : Option ℕ := none
  deriving Repr, DecidableEq, Inhabited

structure JavaProxy where
  mObject : Option ℕ := none
  /-- Java code has a reference -/
  held : Bool := false
  /-- `mSelf` is cleared -/
  cleared : Bool := false
  deriving Repr, DecidableEq, Inhabited

structure RemoteTable where
  remote : Heap RemoteBinder := .empty
  proxy : Heap JavaProxy := .empty
  gNumProxyRefs : ℤ := 0

namespace RemoteTable

variable (s : RemoteTable)

def modRemote (n : ℕ) (f : RemoteBinder → RemoteBinder) : RemoteTable :=
  { s with remote := s.remote.modify n f }

def modProxy (p : ℕ) (f : JavaProxy → JavaProxy) : RemoteTable :=
  { s with proxy := s.proxy.modify p f }

/-- `detachObject`, of a proxy that is no longer in the working set -/
def detach (n : ℕ) : RemoteTable :=
  { s.modRemote n fun x => { x with attached := none } with gNumProxyRefs := s.gNumProxyRefs - 1 }

/-- A new proxy for `n`, which it keeps. -/
def newProxy (n : ℕ) : RemoteTable :=
  { s.modRemote n fun x => { x with strong := x.strong + 1, attached := some s.proxy.next } with
    proxy := s.proxy.alloc { mObject := some n, held := true }
    gNumProxyRefs := s.gNumProxyRefs + 1 }

def createProxy (n : ℕ) (newObject : Bool) : RemoteTable × Option ℕ :=
  if newObject then (s.newProxy n, some s.proxy.next) else (s, none)

/-- The part of `javaObjectForIBinder` under `mProxyLock`. -/
def proxyFor (n : ℕ) (newObject : Bool) : RemoteTable × Option ℕ :=
  match (s.remote.get n).attached with
  | some p =>
    if (s.proxy.get p).cleared then (s.detach n).createProxy n newObject
    else (s.modProxy p fun x => { x with held := true }, some p)
  | none => s.createProxy n newObject

def take (n : ℕ) : RemoteTable := s.modRemote n fun x => { x with strong := x.strong + 1, own := x.own + 1 }

/-- A `BinderProxy` in `ibinderForJavaObject` -/
def nativeOf (p : ℕ) : RemoteTable × Option ℕ :=
  match (s.proxy.get p).mObject with
  | some n => (s.take n, some n)
  | none => (s, none)

def release (n : ℕ) : RemoteTable :=
  s.modRemote n fun x => { x with strong := x.strong - 1, own := x.own - 1 }

/-- `android_os_BinderProxy_destroy` -/
def destroyProxy (p : ℕ) : RemoteTable :=
  match (s.proxy.get p).mObject with
  | some n =>
    (s.modProxy p fun x => { x with mObject := none }).modRemote n fun x => { x with strong := x.strong - 1 }
  | none => s

/-- `~BpBinder`, with `proxy_cleanup` -/
def destroyRemote (n : ℕ) : RemoteTable :=
  let s' := s.modRemote n fun x => { x with destroyed := true, attached := none }
  match (s.remote.get n).attached with
  | some _ => { s' with gNumProxyRefs := s.gNumProxyRefs - 1 }
  | none => s'

end RemoteTable

inductive RemoteAct
  | newRemote
  | proxyFor (n : ℕ) (newObject : Bool)
  | nativeOf (p : ℕ)
  /-- a `wp` is promoted, or the handle table gives the proxy out again -/
  | promote (n : ℕ)
  | release (n : ℕ)
  /-- Java code gives up its last reference -/
  | drop (p : ℕ)
  /-- the collector clears `mSelf` -/
  | clear (p : ℕ)
  | finalizer (p : ℕ)
  | destroyRemote (n : ℕ)
  deriving Repr, DecidableEq

/-- Native code calls with references that it has, Java code with objects that it has; a proxy is
collected when nothing refers to it, and a `BpBinder` when its count is 0. -/
def RemoteAct.enabled (s : RemoteTable) : RemoteAct → Bool
  | newRemote | drop _ => true
  | proxyFor n _ | release n => n < s.remote.next && 0 < (s.remote.get n).own
  | nativeOf p => (s.proxy.get p).held
  | promote n => n < s.remote.next && !(s.remote.get n).destroyed
  | clear p => p < s.proxy.next && !(s.proxy.get p).held
  | finalizer p => (s.proxy.get p).cleared
  | destroyRemote n => n < s.remote.next && (s.remote.get n).strong = 0 && !(s.remote.get n).destroyed

def RemoteAct.apply (s : RemoteTable) : RemoteAct → RemoteTable
  | newRemote => { s with remote := s.remote.alloc { strong := 1, own := 1 } }
  | proxyFor n newObject => (s.proxyFor n newObject).1
  | nativeOf p => (s.nativeOf p).1
  | promote n => s.take n
  | release n => s.release n
  | drop p => s.modProxy p fun x => { x with held := false }
  | clear p => s.modProxy p fun x => { x with cleared := true }
  | finalizer p => s.destroyProxy p
  | destroyRemote n => s.destroyRemote n

/-! Binders of the process -/

structure JavaBBinder where
  /-- `mObject`, a global reference as long as the `JavaBBinder` lives -/
  object : ℕ := 0
  strong : ℕ := 0
  deriving Repr, DecidableEq, Inhabited

structure JavaBBinderHolder where
  mBinder : Option ℕ := none
  deriving Repr, DecidableEq

structure JavaBinder where
  /-- `mObject`; the holder has no other owner -/
  holder : Option JavaBBinderHolder := none
  held : Bool := false
  deriving Repr, DecidableEq, Inhabited

structure LocalTable where
  bbinder : Heap JavaBBinder := .empty
  binder : Heap JavaBinder := .empty
  gNumLocalRefs : ℤ := 0

namespace LocalTable

variable (s : LocalTable)

def modBBinder (b : ℕ) (f : JavaBBinder → JavaBBinder) : LocalTable :=
  { s with bbinder := s.bbinder.modify b f }

def modBinder (o : ℕ) (f : JavaBinder → JavaBinder) : LocalTable :=
  { s with binder := s.binder.modify o f }

/-- `new JavaBBinder`, and the holder's new `mBinder` -/
def newBBinder (o : ℕ) : LocalTable :=
  { s.modBinder o fun x => { x with holder := some { mBinder := some s.bbinder.next } } with
    bbinder := s.bbinder.alloc { object := o, strong := 1 }
    gNumLocalRefs := s.gNumLocalRefs + 1 }

/-- `JavaBBinderHolder::get`; a reference to a `JavaBBinder` with count 0 is not promoted. -/
def holderGet (o : ℕ) (jbh : JavaBBinderHolder) : LocalTable × ℕ :=
  match jbh.mBinder.filter fun b => 0 < (s.bbinder.get b).strong with
  | some b => (s.modBBinder b fun x => { x with strong := x.strong + 1 }, b)
  | none => (s.newBBinder o, s.bbinder.next)

/-- A `Binder` in `ibinderForJavaObject` -/
def nativeOf (o : ℕ) : LocalTable × Option ℕ :=
  match (s.binder.get o).holder with
  | some jbh =>
    let r := s.holderGet o jbh
    (r.1, some r.2)
  | none => (s, none)

/-- A `JavaBBinder` in `javaObjectForIBinder` -/
def objectOf (b : ℕ) : LocalTable × ℕ :=
  (s.modBinder (s.bbinder.get b).object fun x => { x with held := true }, (s.bbinder.get b).object)

/-- `decStrong`, with `~JavaBBinder` at 0 -/
def release (b : ℕ) : LocalTable :=
  { s.modBBinder b fun x => { x with strong := x.strong - 1 } with
    gNumLocalRefs := if (s.bbinder.get b).strong = 1 then s.gNumLocalRefs - 1 else s.gNumLocalRefs }

end LocalTable

inductive LocalAct
  /-- `new Binder`; `android_os_Binder_init` may find no memory -/
  | newBinder (init : Bool)
  | nativeOf (o : ℕ)
  | objectOf (b : ℕ)
  /-- an `sp` is copied -/
  | copy (b : ℕ)
  | release (b : ℕ)
  | drop (o : ℕ)
  | finalizer (o : ℕ)
  deriving Repr, DecidableEq

/-- A `Binder` is collected when neither Java code nor a global reference has it. -/
def LocalAct.enabled (s : LocalTable) : LocalAct → Bool
  | newBinder _ | drop _ => true
  | nativeOf o => (s.binder.get o).held
  | objectOf b | copy b | release b => 0 < (s.bbinder.get b).strong
  | finalizer o => !(s.binder.get o).held &&
      (List.range s.bbinder.next).all fun b => (s.bbinder.get b).object ≠ o || (s.bbinder.get b).strong = 0

def LocalAct.apply (s : LocalTable) : LocalAct → LocalTable
  | newBinder init =>
    { s with binder := s.binder.alloc { holder := if init then some {} else none, held := true } }
  | nativeOf o => (s.nativeOf o).1
  | objectOf b => (s.objectOf b).1
  | copy b => s.modBBinder b fun x => { x with strong := x.strong + 1 }
  | release b => s.release b
  | drop o => s.modBinder o fun x => { x with held := false }
  -- `android_os_Binder_destroy`
  | finalizer o => s.modBinder o fun x => { x with holder := none }

/-! Both -/

structure JniState where
  remotes : RemoteTable := {}
  locals : LocalTable := {}

def javaObjectForIBinder (s : JniState) (val : NativeRef) (newObject : Bool) : JniState × Option JavaRef :=
  match val with
  | .bpBinder n =>
    let r := s.remotes.proxyFor n newObject
    ({ s with remotes := r.1 }, r.2.map .binderProxy)
  | .javaBBinder b =>
    let r := s.locals.objectOf b
    ({ s with locals := r.1 }, some (.binder r.2))

def ibinderForJavaObject (s : JniState) (obj : JavaRef) : JniState × Option NativeRef :=
  match obj with
  | .binderProxy p =>
    let r := s.remotes.nativeOf p
    ({ s with remotes := r.1 }, r.2.map .bpBinder)
  | .binder o =>
    let r := s.locals.nativeOf o
    ({ s with locals := r.1 }, r.2.map .javaBBinder)

def jniMachine : Machine JniState (RemoteAct ⊕ LocalAct) where
  start s := s = {}
  step s a := match a with
    | .inl a => if a.enabled s.remotes then { s with remotes := a.apply s.remotes } else s
    | .inr a => if a.enabled s.locals then { s with locals := a.apply s.locals } else s

/-! What holds of the proxies -/

/-- The proxies that keep `n`. -/
def RemoteTable.keepers (s : RemoteTable) (n : ℕ) : ℕ := s.proxy.count fun x => x.mObject = some n

theorem RemoteTable.keepers_modRemote (s : RemoteTable) (n m : ℕ) (f : RemoteBinder → RemoteBinder) :
    (s.modRemote n f).keepers m = s.keepers m := rfl

structure RemoteInv (s : RemoteTable) : Prop where
  strong : ∀ n < s.remote.next, (s.remote.get n).strong = (s.remote.get n).own + s.keepers n
  bounds : ∀ p n, (s.proxy.get p).mObject = some n → p < s.proxy.next ∧ n < s.remote.next
  destroyed : ∀ n < s.remote.next, (s.remote.get n).destroyed = true →
    (s.remote.get n).strong = 0 ∧ (s.remote.get n).attached = none
  attached : ∀ n p, (s.remote.get n).attached = some p → p < s.proxy.next ∧
    ((s.proxy.get p).cleared = false → (s.proxy.get p).mObject = some n)
  uncleared : ∀ p n, (s.proxy.get p).mObject = some n → (s.proxy.get p).cleared = false →
    (s.remote.get n).attached = some p
  object : ∀ p < s.proxy.next, (s.proxy.get p).cleared = false → (s.proxy.get p).mObject ≠ none
  held : ∀ p, (s.proxy.get p).held = true → p < s.proxy.next ∧ (s.proxy.get p).cleared = false
  refs : s.gNumProxyRefs = s.remote.count fun x => x.attached.isSome

section

variable {s : RemoteTable} {n p : ℕ}

theorem RemoteInv.live_of_own (hi : RemoteInv s) (hn : n < s.remote.next) (hown : 0 < (s.remote.get n).own) :
    (s.remote.get n).destroyed = false := by
  by_contra hd
  have hzero := (hi.destroyed n hn (Bool.not_eq_false _ ▸ hd)).1
  have hstrong := hi.strong n hn
  omega

theorem RemoteInv.live_of_keeper (hi : RemoteInv s) (hp : (s.proxy.get p).mObject = some n) :
    n < s.remote.next ∧ 0 < s.keepers n ∧ (s.remote.get n).destroyed = false := by
  obtain ⟨hlt, hn⟩ := hi.bounds p n hp
  have hpos : 0 < s.keepers n := s.proxy.count_pos_of _ hlt (decide_eq_true hp)
  refine ⟨hn, hpos, ?_⟩
  by_contra hd
  have hzero := (hi.destroyed n hn (Bool.not_eq_false _ ▸ hd)).1
  have hstrong := hi.strong n hn
  omega

/-- Only the counts of a live `BpBinder` change. -/
theorem RemoteInv.recount (hi : RemoteInv s) (hn : n < s.remote.next) (hlive : (s.remote.get n).destroyed = false)
    {f : RemoteBinder → RemoteBinder} (hatt : ∀ x, (f x).attached = x.attached)
    (hdest : ∀ x, (f x).destroyed = x.destroyed)
    (hbal : (f (s.remote.get n)).strong = (f (s.remote.get n)).own + s.keepers n) :
    RemoteInv (s.modRemote n f) := by
  have hatts : ∀ m, ((s.modRemote n f).remote.get m).attached = (s.remote.get m).attached := fun m =>
    s.remote.apply_get_modify n m f RemoteBinder.attached hatt
  refine ⟨fun m hm => ?_, hi.bounds, fun m hm hd => ?_, fun m p hp => hi.attached m p (hatts m ▸ hp),
    fun p m hp hc => (hatts m).trans (hi.uncleared p m hp hc), hi.object, hi.held, ?_⟩
  · rw [RemoteTable.keepers_modRemote]
    by_cases hmn : m = n
    · subst hmn
      simpa only [RemoteTable.modRemote, Heap.get_modify_self] using hbal
    · simpa only [RemoteTable.modRemote, Heap.get_modify_ne _ _ _ _ hmn] using hi.strong m hm
  · by_cases hmn : m = n
    · subst hmn
      simp only [RemoteTable.modRemote, Heap.get_modify_self, hdest, hlive] at hd
      exact absurd hd Bool.false_ne_true
    · simp only [RemoteTable.modRemote, Heap.get_modify_ne _ _ _ _ hmn] at hd ⊢
      exact hi.destroyed m hm hd
  · refine hi.refs.trans (congrArg Nat.cast (Eq.symm ?_))
    exact s.remote.count_modify_eq _ (by rw [hatt])

theorem RemoteInv.take (hi : RemoteInv s) (hn : n < s.remote.next)
    (hlive : (s.remote.get n).destroyed = false) : RemoteInv (s.take n) := by
  refine hi.recount hn hlive (fun _ => rfl) (fun _ => rfl) ?_
  have hstrong := hi.strong n hn
  simp only
  omega

theorem RemoteInv.release (hi : RemoteInv s) (hn : n < s.remote.next) (hown : 0 < (s.remote.get n).own) :
    RemoteInv (s.release n) := by
  refine hi.recount hn (hi.live_of_own hn hown) (fun _ => rfl) (fun _ => rfl) ?_
  have hstrong := hi.strong n hn
  simp only
  omega

/-- Java code gets a reference, gives one up, or a proxy that it has none to is cleared. -/
theorem RemoteInv.modProxy (hi : RemoteInv s) {f : JavaProxy → JavaProxy}
    (hobj : ∀ x, (f x).mObject = x.mObject)
    (hclear : (f (s.proxy.get p)).cleared = false → (s.proxy.get p).cleared = false)
    (hheld : (f (s.proxy.get p)).held = true → p < s.proxy.next ∧ (f (s.proxy.get p)).cleared = false) :
    RemoteInv (s.modProxy p f) := by
  have hobjs : ∀ q, ((s.modProxy p f).proxy.get q).mObject = (s.proxy.get q).mObject := fun q =>
    s.proxy.apply_get_modify p q f JavaProxy.mObject hobj
  have hclears : ∀ q, ((s.modProxy p f).proxy.get q).cleared = false → (s.proxy.get q).cleared = false := by
    intro q hq
    by_cases hqp : q = p
    · subst hqp
      simp only [RemoteTable.modProxy, Heap.get_modify_self] at hq
      exact hclear hq
    · simpa only [RemoteTable.modProxy, Heap.get_modify_ne _ _ _ _ hqp] using hq
  have hkeep : ∀ m, (s.modProxy p f).keepers m = s.keepers m := fun m =>
    s.proxy.count_modify_eq _ (by rw [hobj])
  refine ⟨fun m hm => ?_, fun q m hq => hi.bounds q m (hobjs q ▸ hq), hi.destroyed, fun m q hq => ?_,
    fun q m hq hc => hi.uncleared q m (hobjs q ▸ hq) (hclears q hc),
    fun q hq hc => by rw [hobjs]; exact hi.object q hq (hclears q hc), fun q hq => ?_, hi.refs⟩
  · rw [hkeep]
    exact hi.strong m hm
  · obtain ⟨hlt, himp⟩ := hi.attached m q hq
    exact ⟨hlt, fun hc => (hobjs q).trans (himp (hclears q hc))⟩
  · by_cases hqp : q = p
    · subst hqp
      simp only [RemoteTable.modProxy, Heap.get_modify_self] at hq ⊢
      exact hheld hq
    · simp only [RemoteTable.modProxy, Heap.get_modify_ne _ _ _ _ hqp] at hq ⊢
      exact hi.held q hq

/-- Once the collector has cleared the attached proxy, `n` has no uncleared one. -/
theorem RemoteInv.detach (hi : RemoteInv s) (hn : n < s.remote.next)
    (hatt : (s.remote.get n).attached = some p) (hc : (s.proxy.get p).cleared = true) :
    RemoteInv (s.detach n) := by
  refine ⟨fun m hm => ?_, hi.bounds, fun m hm hd => ?_, fun m q hq => ?_, fun q m hq hqc => ?_,
    hi.object, hi.held, ?_⟩
  · have hstrong := hi.strong m hm
    simp only [RemoteTable.detach, RemoteTable.modRemote, Heap.get_modify]
    split_ifs with hmn
    · subst hmn
      exact hstrong
    · exact hstrong
  · simp only [RemoteTable.detach, RemoteTable.modRemote, Heap.get_modify] at hd ⊢
    split_ifs at hd ⊢ with hmn
    · subst hmn
      exact ⟨(hi.destroyed m hm hd).1, rfl⟩
    · exact hi.destroyed m hm hd
  · simp only [RemoteTable.detach, RemoteTable.modRemote, Heap.get_modify] at hq
    split_ifs at hq
    exact hi.attached m q hq
  · have hold := hi.uncleared q m hq hqc
    simp only [RemoteTable.detach, RemoteTable.modRemote, Heap.get_modify]
    rw [if_neg]
    · exact hold
    · rintro rfl
      rw [hatt, Option.some_inj] at hold
      subst hold
      exact absurd (hc.symm.trans hqc) (Bool.noConfusion)
  · have hcount := s.remote.count_modify (f := fun x => { x with attached := none })
      (fun x => x.attached.isSome) hn
    have hrefs := hi.refs
    simp only [hatt, Option.isSome_some, Option.isSome_none, if_true, Bool.false_eq_true, if_false] at hcount
    simp only [RemoteTable.detach, RemoteTable.modRemote]
    omega

/-- A `BpBinder` without a proxy gets one. -/
theorem RemoteInv.newProxy (hi : RemoteInv s) (hn : n < s.remote.next)
    (hlive : (s.remote.get n).destroyed = false) (hatt : (s.remote.get n).attached = none) :
    RemoteInv (s.newProxy n) := by
  have hkeep : ∀ m, (s.newProxy n).keepers m = s.keepers m + if n = m then 1 else 0 := by
    intro m
    have hcount := s.proxy.count_alloc { mObject := some n, held := true } fun x => x.mObject = some m
    simp only [Option.some_inj, decide_eq_true_eq] at hcount
    exact hcount
  have hfresh : ∀ m, (s.remote.get m).attached ≠ some s.proxy.next := fun m hm =>
    absurd (hi.attached m _ hm).1 (Nat.lt_irrefl _)
  refine ⟨fun m hm => ?_, fun q m hq => ?_, fun m hm hd => ?_, fun m q hq => ?_, fun q m hq hqc => ?_,
    fun q hq hc => ?_, fun q hq => ?_, ?_⟩
  · have hstrong := hi.strong m hm
    rw [hkeep]
    simp only [RemoteTable.newProxy, RemoteTable.modRemote, Heap.get_modify]
    split_ifs with h1 h2 h2
    · subst h1
      simp only
      omega
    · exact absurd h1.symm h2
    · exact absurd h2.symm h1
    · exact hstrong
  · simp only [RemoteTable.newProxy, Heap.get_alloc] at hq
    split_ifs at hq with hqn
    · obtain rfl := Option.some_inj.1 hq
      exact ⟨hqn ▸ Nat.lt_succ_self _, hn⟩
    · exact ⟨Nat.lt_succ_of_lt (hi.bounds q m hq).1, (hi.bounds q m hq).2⟩
  · simp only [RemoteTable.newProxy, RemoteTable.modRemote, Heap.get_modify] at hd ⊢
    split_ifs at hd ⊢ with hmn
    · subst hmn
      exact absurd (hd.symm.trans hlive) Bool.noConfusion
    · exact hi.destroyed m hm hd
  · simp only [RemoteTable.newProxy, RemoteTable.modRemote, Heap.get_modify, Heap.get_alloc, Heap.next_alloc]
      at hq ⊢
    split_ifs at hq with hmn
    · obtain rfl := Option.some_inj.1 hq
      subst hmn
      exact ⟨Nat.lt_succ_self _, fun _ => by rw [if_pos rfl]⟩
    · have hne : q ≠ s.proxy.next := fun he => hfresh m (he ▸ hq)
      rw [if_neg hne]
      exact ⟨Nat.lt_succ_of_lt (hi.attached m q hq).1, (hi.attached m q hq).2⟩
  · simp only [RemoteTable.newProxy, RemoteTable.modRemote, Heap.get_modify, Heap.get_alloc] at hq hqc ⊢
    split_ifs at hq hqc with hqn
    · obtain rfl := Option.some_inj.1 hq
      rw [if_pos rfl, hqn]
    · have hold := hi.uncleared q m hq hqc
      rw [if_neg]
      · exact hold
      · rintro rfl
        exact absurd (hatt.symm.trans hold) (Option.some_ne_none _).symm
  · simp only [RemoteTable.newProxy, Heap.get_alloc, Heap.next_alloc] at hq hc ⊢
    split_ifs at hc ⊢ with hqn
    · exact Option.some_ne_none _
    · exact hi.object q (by omega) hc
  · simp only [RemoteTable.newProxy, Heap.get_alloc, Heap.next_alloc] at hq ⊢
    split_ifs at hq ⊢ with hqn
    · exact ⟨hqn ▸ Nat.lt_succ_self _, rfl⟩
    · exact ⟨Nat.lt_succ_of_lt (hi.held q hq).1, (hi.held q hq).2⟩
  · have hcount := s.remote.count_modify
      (f := fun x => { x with strong := x.strong + 1, attached := some s.proxy.next })
      (fun x => x.attached.isSome) hn
    have hrefs := hi.refs
    simp only [hatt, Option.isSome_some, Option.isSome_none, if_true, Bool.false_eq_true, if_false] at hcount
    simp only [RemoteTable.newProxy, RemoteTable.modRemote]
    omega

/-- The finalizer of a proxy that was cleared. -/
theorem RemoteInv.destroyProxy (hi : RemoteInv s) (hc : (s.proxy.get p).cleared = true) :
    RemoteInv (s.destroyProxy p) := by
  unfold RemoteTable.destroyProxy
  split
  · rename_i n hp
    obtain ⟨hn, hpos, hlive⟩ := hi.live_of_keeper hp
    have hlt := (hi.bounds p n hp).1
    -- without the object the proxy is no keeper, and the count goes down with it
    have hkeep : ∀ m, ((s.modProxy p fun x => { x with mObject := none }).modRemote n
        fun x => { x with strong := x.strong - 1 }).keepers m + (if n = m then 1 else 0) = s.keepers m := by
      intro m
      have hcount := s.proxy.count_modify (f := fun x => { x with mObject := none })
        (fun x => x.mObject = some m) hlt
      simp only [hp, Option.some_inj, decide_eq_true_eq, reduceCtorEq, decide_false, Bool.false_eq_true,
        if_false, Nat.add_zero] at hcount
      exact hcount
    have hatts : ∀ m, (((s.modProxy p fun x => { x with mObject := none }).modRemote n
        fun x => { x with strong := x.strong - 1 }).remote.get m).attached = (s.remote.get m).attached :=
      fun m => s.remote.apply_get_modify n m (fun x => { x with strong := x.strong - 1 })
        RemoteBinder.attached fun _ => rfl
    have hobjs : ∀ q, q ≠ p → (s.modProxy p fun x => { x with mObject := none }).proxy.get q =
        s.proxy.get q := fun q hq => s.proxy.get_modify_ne p q (fun x => { x with mObject := none }) hq
    have hnone : ((s.modProxy p fun x => { x with mObject := none }).proxy.get p).mObject = none := by
      simp only [RemoteTable.modProxy, Heap.get_modify_self]
    have hcleared : ((s.modProxy p fun x => { x with mObject := none }).proxy.get p).cleared = true := by
      simpa only [RemoteTable.modProxy, Heap.get_modify_self] using hc
    refine ⟨fun m hm => ?_, fun q m hq => ?_, fun m hm hd => ?_, fun m q hq => ?_, fun q m hq hqc => ?_,
      fun q hq hqc => ?_, fun q hq => ?_, ?_⟩
    · have hstrong := hi.strong m hm
      have hless := hkeep m
      simp only [RemoteTable.modRemote, RemoteTable.modProxy, Heap.get_modify] at hless ⊢
      split_ifs with hmn
      · subst hmn
        simp only [if_true] at hless ⊢
        omega
      · rw [if_neg (Ne.symm hmn)] at hless
        exact hstrong.trans (congrArg _ hless.symm)
    · have hqp : q ≠ p := fun he => absurd (he ▸ hq) (hnone ▸ Option.some_ne_none m).symm
      exact hi.bounds q m (hobjs q hqp ▸ hq)
    · simp only [RemoteTable.modRemote, RemoteTable.modProxy, Heap.get_modify] at hd ⊢
      split_ifs at hd ⊢ with hmn
      · subst hmn
        exact absurd (hd.symm.trans hlive) Bool.noConfusion
      · exact hi.destroyed m hm hd
    · obtain ⟨hq', himp⟩ := hi.attached m q (hatts m ▸ hq)
      refine ⟨hq', fun hqc => ?_⟩
      have hqp : q ≠ p := fun he => absurd ((he ▸ hqc).symm.trans hcleared) Bool.noConfusion
      exact (congrArg _ (hobjs q hqp)).trans (himp (hobjs q hqp ▸ hqc))
    · have hqp : q ≠ p := fun he => absurd ((he ▸ hqc).symm.trans hcleared) Bool.noConfusion
      exact (hatts m).trans (hi.uncleared q m (hobjs q hqp ▸ hq) (hobjs q hqp ▸ hqc))
    · have hqp : q ≠ p := fun he => absurd ((he ▸ hqc).symm.trans hcleared) Bool.noConfusion
      exact hobjs q hqp ▸ hi.object q hq (hobjs q hqp ▸ hqc)
    · by_cases hqp : q = p
      · subst hqp
        simp only [RemoteTable.modRemote, RemoteTable.modProxy, Heap.get_modify_self] at hq
        exact absurd (hc.symm.trans (hi.held q hq).2) Bool.noConfusion
      · exact hobjs q hqp ▸ hi.held q (hobjs q hqp ▸ hq)
    · refine hi.refs.trans (congrArg Nat.cast (Eq.symm ?_))
      exact s.remote.count_modify_eq (f := fun x => { x with strong := x.strong - 1 })
        (fun x => x.attached.isSome) rfl
  · exact hi

/-- Nothing refers to a `BpBinder` whose count is 0. -/
theorem RemoteInv.destroyRemote (hi : RemoteInv s) (hn : n < s.remote.next)
    (hzero : (s.remote.get n).strong = 0) : RemoteInv (s.destroyRemote n) := by
  have hnone : ∀ q, (s.proxy.get q).mObject ≠ some n := fun q hq => by
    have hpos := (hi.live_of_keeper hq).2.1
    have hstrong := hi.strong n hn
    omega
  have hcore : ∀ refs : ℤ, refs = ((s.remote.modify n fun x =>
      { x with destroyed := true, attached := none }).count fun x => x.attached.isSome) →
      RemoteInv { s.modRemote n (fun x => { x with destroyed := true, attached := none }) with
        gNumProxyRefs := refs } := by
    intro refs hrefs
    refine ⟨fun m hm => ?_, hi.bounds, fun m hm hd => ?_, fun m q hq => ?_, fun q m hq hqc => ?_,
      hi.object, hi.held, hrefs⟩
    · have hstrong := hi.strong m hm
      simp only [RemoteTable.modRemote, Heap.get_modify]
      split_ifs with hmn
      · subst hmn
        exact hstrong
      · exact hstrong
    · simp only [RemoteTable.modRemote, Heap.get_modify] at hd ⊢
      split_ifs at hd ⊢ with hmn
      · exact ⟨hzero, rfl⟩
      · exact hi.destroyed m hm hd
    · simp only [RemoteTable.modRemote, Heap.get_modify] at hq
      split_ifs at hq
      exact hi.attached m q hq
    · have hmn : m ≠ n := fun he => hnone q (he ▸ hq)
      simp only [RemoteTable.modRemote, Heap.get_modify_ne _ _ _ _ hmn]
      exact hi.uncleared q m hq hqc
  have hcount := s.remote.count_modify (f := fun x => { x with destroyed := true, attached := none })
    (fun x => x.attached.isSome) hn
  have hrefs := hi.refs
  unfold RemoteTable.destroyRemote
  split
  · rename_i p hatt
    refine hcore _ ?_
    simp only [hatt, Option.isSome_some, Option.isSome_none, if_true, Bool.false_eq_true, if_false] at hcount
    omega
  · rename_i hatt
    refine hcore s.gNumProxyRefs ?_
    simp only [hatt, Option.isSome_none, Bool.false_eq_true, if_false] at hcount
    omega

theorem RemoteInv.createProxy (hi : RemoteInv s) (hn : n < s.remote.next)
    (hlive : (s.remote.get n).destroyed = false) (hatt : (s.remote.get n).attached = none)
    (newObject : Bool) : RemoteInv (s.createProxy n newObject).1 := by
  unfold RemoteTable.createProxy
  split
  · exact hi.newProxy hn hlive hatt
  · exact hi

theorem RemoteInv.proxyFor (hi : RemoteInv s) (hn : n < s.remote.next)
    (hlive : (s.remote.get n).destroyed = false) (newObject : Bool) :
    RemoteInv (s.proxyFor n newObject).1 := by
  unfold RemoteTable.proxyFor
  split
  · rename_i p hatt
    split
    · rename_i hc
      refine (hi.detach hn hatt hc).createProxy hn ?_ ?_ newObject
      · simpa only [RemoteTable.detach, RemoteTable.modRemote, Heap.get_modify_self] using hlive
      · simp only [RemoteTable.detach, RemoteTable.modRemote, Heap.get_modify_self]
    · rename_i hc
      have hunc : (s.proxy.get p).cleared = false := by simpa using hc
      exact hi.modProxy (fun _ => rfl) (fun _ => hunc) fun _ => ⟨(hi.attached n p hatt).1, hunc⟩
  · rename_i hatt
    exact hi.createProxy hn hlive hatt newObject

theorem RemoteInv.newRemote (hi : RemoteInv s) :
    RemoteInv { s with remote := s.remote.alloc { strong := 1, own := 1 } } := by
  have hnone : s.keepers s.remote.next = 0 := by
    refine (s.proxy.count_eq_zero_iff _).2 fun p _ => decide_eq_false fun hp => ?_
    exact absurd (hi.bounds p _ hp).2 (Nat.lt_irrefl _)
  refine ⟨fun m hm => ?_, fun q m hq => ?_, fun m hm hd => ?_, fun m q hq => ?_, fun q m hq hqc => ?_,
    hi.object, hi.held, ?_⟩
  · change _ = _ + s.keepers m
    simp only [Heap.get_alloc, Heap.next_alloc] at hm ⊢
    split_ifs with hmn
    · rw [hmn, hnone]
    · exact hi.strong m (by omega)
  · exact ⟨(hi.bounds q m hq).1, Nat.lt_succ_of_lt (hi.bounds q m hq).2⟩
  · simp only [Heap.get_alloc, Heap.next_alloc] at hm hd ⊢
    split_ifs at hd ⊢ with hmn
    exact hi.destroyed m (by omega) hd
  · simp only [Heap.get_alloc] at hq
    split_ifs at hq
    exact hi.attached m q hq
  · have hmn : m ≠ s.remote.next := fun he => absurd (hi.bounds q m hq).2 (he ▸ Nat.lt_irrefl _)
    simp only [Heap.get_alloc, if_neg hmn]
    exact hi.uncleared q m hq hqc
  · have hcount := s.remote.count_alloc { strong := 1, own := 1 } fun x => x.attached.isSome
    simp only [Option.isSome_none, Bool.false_eq_true, if_false, Nat.add_zero] at hcount
    exact hi.refs.trans (congrArg Nat.cast hcount.symm)

theorem RemoteInv.start : RemoteInv {} :=
  ⟨fun _ hm => absurd hm (Nat.not_lt_zero _), fun _ _ hq => absurd hq.symm (Option.some_ne_none _),
    fun _ hm => absurd hm (Nat.not_lt_zero _), fun _ _ hq => absurd hq.symm (Option.some_ne_none _),
    fun _ _ hq => absurd hq.symm (Option.some_ne_none _), fun _ hq => absurd hq (Nat.not_lt_zero _),
    fun _ hq => absurd hq Bool.false_ne_true, rfl⟩

theorem RemoteInv.apply (hi : RemoteInv s) {a : RemoteAct} (ha : a.enabled s = true) :
    RemoteInv (a.apply s) := by
  cases a with
  | newRemote => exact hi.newRemote
  | proxyFor n newObject =>
    simp only [RemoteAct.enabled, Bool.and_eq_true, decide_eq_true_eq] at ha
    exact hi.proxyFor ha.1 (hi.live_of_own ha.1 ha.2) newObject
  | nativeOf p =>
    simp only [RemoteAct.apply, RemoteTable.nativeOf]
    split
    · rename_i n hp
      exact hi.take (hi.bounds p n hp).2 (hi.live_of_keeper hp).2.2
    · exact hi
  | promote n =>
    simp only [RemoteAct.enabled, Bool.and_eq_true, decide_eq_true_eq, Bool.not_eq_true'] at ha
    exact hi.take ha.1 ha.2
  | release n =>
    simp only [RemoteAct.enabled, Bool.and_eq_true, decide_eq_true_eq] at ha
    exact hi.release ha.1 ha.2
  | drop p => exact hi.modProxy (fun _ => rfl) id fun hh => absurd hh Bool.false_ne_true
  | clear p =>
    simp only [RemoteAct.enabled, Bool.and_eq_true, decide_eq_true_eq, Bool.not_eq_true'] at ha
    refine hi.modProxy (fun _ => rfl) (fun hc => absurd hc.symm Bool.false_ne_true) fun hh => ?_
    exact absurd (hh.symm.trans ha.2) Bool.noConfusion
  | finalizer p => exact hi.destroyProxy ha
  | destroyRemote n =>
    simp only [RemoteAct.enabled, Bool.and_eq_true, decide_eq_true_eq] at ha
    exact hi.destroyRemote ha.1.1 ha.1.2

end

/-! What holds of the `Binder` objects -/

structure LocalInv (s : LocalTable) : Prop where
  live : ∀ b, 0 < (s.bbinder.get b).strong → b < s.bbinder.next ∧
    (s.binder.get (s.bbinder.get b).object).holder = some { mBinder := some b }
  known : ∀ o b, (s.binder.get o).holder = some { mBinder := some b } →
    b < s.bbinder.next ∧ (s.bbinder.get b).object = o
  bound : ∀ o, (s.binder.get o).holder ≠ none → o < s.binder.next
  refs : s.gNumLocalRefs = s.bbinder.count fun x => 0 < x.strong

section

variable {s : LocalTable} {b o : ℕ}

/-- The count of a live `JavaBBinder` changes. -/
theorem LocalInv.recount (hi : LocalInv s) (hb : 0 < (s.bbinder.get b).strong) (k : ℕ) (refs : ℤ)
    (hrefs : refs = s.gNumLocalRefs - if k = 0 then 1 else 0) :
    LocalInv { s.modBBinder b (fun x => { x with strong := k }) with gNumLocalRefs := refs } := by
  have hobjs : ∀ c, ((s.modBBinder b fun x => { x with strong := k }).bbinder.get c).object =
      (s.bbinder.get c).object := fun c =>
    s.bbinder.apply_get_modify b c (fun x => { x with strong := k }) JavaBBinder.object fun _ => rfl
  have hlive : ∀ c, 0 < ((s.modBBinder b fun x => { x with strong := k }).bbinder.get c).strong →
      0 < (s.bbinder.get c).strong := by
    intro c hc
    by_cases hcb : c = b
    · exact hcb ▸ hb
    · simpa only [LocalTable.modBBinder, Heap.get_modify_ne _ _ _ _ hcb] using hc
  refine ⟨fun c hc => ?_, fun o' c ho => ?_, hi.bound, ?_⟩
  · rw [hobjs]
    exact hi.live c (hlive c hc)
  · rw [hobjs]
    exact hi.known o' c ho
  · have hcount := s.bbinder.count_modify (f := fun x => { x with strong := k })
      (fun x => 0 < x.strong) (hi.live b hb).1
    have hold := hi.refs
    simp only [hb, decide_true, if_true, decide_eq_true_eq] at hcount
    simp only [LocalTable.modBBinder]
    split_ifs at hrefs hcount <;> omega

/-- Only a reference of Java code comes or goes. -/
theorem LocalInv.modHeld (hi : LocalInv s) (v : Bool) :
    LocalInv (s.modBinder o fun x => { x with held := v }) := by
  have hholder : ∀ q, ((s.modBinder o fun x => { x with held := v }).binder.get q).holder =
      (s.binder.get q).holder := fun q =>
    s.binder.apply_get_modify o q (fun x => { x with held := v }) JavaBinder.holder fun _ => rfl
  refine ⟨fun b hb => ?_, fun q b hq => hi.known q b (hholder q ▸ hq),
    fun q hq => hi.bound q (hholder q ▸ hq), hi.refs⟩
  exact ⟨(hi.live b hb).1, (hholder _).trans (hi.live b hb).2⟩

/-- A `Binder` whose last `JavaBBinder` is gone gets a new one. -/
theorem LocalInv.newBBinder (hi : LocalInv s) (ho : o < s.binder.next)
    (hgone : ∀ b, 0 < (s.bbinder.get b).strong → (s.bbinder.get b).object ≠ o) :
    LocalInv (s.newBBinder o) := by
  refine ⟨fun b hb => ?_, fun q b hq => ?_, fun q hq => ?_, ?_⟩
  · simp only [LocalTable.newBBinder, LocalTable.modBinder, Heap.get_alloc, Heap.get_modify,
      Heap.next_alloc] at hb ⊢
    split_ifs at hb ⊢ with h1 h2 h2
    · exact ⟨h1 ▸ Nat.lt_succ_self _, by simp only [h1]⟩
    · exact absurd rfl h2
    · exact absurd h2 (hgone b hb)
    · exact ⟨Nat.lt_succ_of_lt (hi.live b hb).1, (hi.live b hb).2⟩
  · simp only [LocalTable.newBBinder, LocalTable.modBinder, Heap.get_modify, Heap.get_alloc,
      Heap.next_alloc] at hq ⊢
    split_ifs at hq with hqo
    · obtain rfl : s.bbinder.next = b := by simpa using hq
      rw [if_pos rfl, hqo]
      exact ⟨Nat.lt_succ_self _, rfl⟩
    · obtain ⟨hlt, hobj⟩ := hi.known q b hq
      rw [if_neg (Nat.ne_of_lt hlt)]
      exact ⟨Nat.lt_succ_of_lt hlt, hobj⟩
  · simp only [LocalTable.newBBinder, LocalTable.modBinder, Heap.get_modify, Heap.next_modify] at hq ⊢
    split_ifs at hq with hqo
    · exact hqo ▸ ho
    · exact hi.bound q hq
  · have hcount := s.bbinder.count_alloc { object := o, strong := 1 } fun x => 0 < x.strong
    have hold := hi.refs
    simp only [Nat.lt_one_iff, decide_true, if_true] at hcount
    simp only [LocalTable.newBBinder]
    omega

theorem LocalInv.holderGet (hi : LocalInv s) {jbh : JavaBBinderHolder} (hh : (s.binder.get o).holder = some jbh) :
    LocalInv (s.holderGet o jbh).1 := by
  unfold LocalTable.holderGet
  split
  · rename_i b hb
    have hlive : 0 < (s.bbinder.get b).strong := by simpa using (Option.filter_eq_some_iff.1 hb).2
    refine hi.recount hlive ((s.bbinder.get b).strong + 1) s.gNumLocalRefs ?_
    simp
  · rename_i hnone
    refine hi.newBBinder (hi.bound o (hh ▸ Option.some_ne_none _)) fun b hb hobj => ?_
    have hlast := (hi.live b hb).2
    rw [hobj, hh, Option.some_inj] at hlast
    subst hlast
    have hdead : (s.bbinder.get b).strong = 0 := by simpa using hnone
    omega

theorem LocalInv.release (hi : LocalInv s) (hb : 0 < (s.bbinder.get b).strong) : LocalInv (s.release b) := by
  refine hi.recount hb ((s.bbinder.get b).strong - 1) _ ?_
  split_ifs <;> omega

theorem LocalInv.newBinder (hi : LocalInv s) (init : Bool) :
    LocalInv { s with binder := s.binder.alloc { holder := if init then some {} else none, held := true } } := by
  have hfresh : ∀ q, (s.binder.get q).holder ≠ none → q ≠ s.binder.next := fun q hq =>
    Nat.ne_of_lt (hi.bound q hq)
  refine ⟨fun b hb => ?_, fun q b hq => ?_, fun q hq => ?_, hi.refs⟩
  · obtain ⟨hlt, hh⟩ := hi.live b hb
    refine ⟨hlt, ?_⟩
    simp only [Heap.get_alloc, if_neg (hfresh _ (hh ▸ Option.some_ne_none _))]
    exact hh
  · simp only [Heap.get_alloc] at hq
    split_ifs at hq
    · exact absurd hq (by simp)
    · exact hi.known q b hq
  · simp only [Heap.get_alloc, Heap.next_alloc] at hq ⊢
    split_ifs at hq with hqn
    · exact hqn ▸ Nat.lt_succ_self _
    · exact hqn ▸ Nat.lt_succ_self _
    · exact Nat.lt_succ_of_lt (hi.bound q hq)

/-- No live `JavaBBinder` refers to a `Binder` that is finalized. -/
theorem LocalInv.finalizer (hi : LocalInv s) (hgone : ∀ b, 0 < (s.bbinder.get b).strong →
    (s.bbinder.get b).object ≠ o) : LocalInv (s.modBinder o fun x => { x with holder := none }) := by
  refine ⟨fun b hb => ?_, fun q b hq => ?_, fun q hq => ?_, hi.refs⟩
  · simp only [LocalTable.modBinder, Heap.get_modify_ne _ _ _ _ (hgone b hb)]
    exact hi.live b hb
  · simp only [LocalTable.modBinder, Heap.get_modify] at hq
    split_ifs at hq
    exact hi.known q b hq
  · simp only [LocalTable.modBinder, Heap.get_modify] at hq
    split_ifs at hq
    · exact absurd rfl hq
    · exact hi.bound q hq

theorem LocalInv.start : LocalInv {} :=
  ⟨fun _ hb => absurd hb (Nat.lt_irrefl 0), fun _ _ hq => absurd hq.symm (Option.some_ne_none _),
    fun _ hq => absurd rfl hq, rfl⟩

theorem LocalInv.apply (hi : LocalInv s) {a : LocalAct} (ha : a.enabled s = true) : LocalInv (a.apply s) := by
  cases a with
  | newBinder init => exact hi.newBinder init
  | nativeOf o =>
    simp only [LocalAct.apply, LocalTable.nativeOf]
    split
    · rename_i jbh hh
      exact hi.holderGet hh
    · exact hi
  | objectOf b => exact hi.modHeld true
  | copy b =>
    refine hi.recount (of_decide_eq_true ha) ((s.bbinder.get b).strong + 1) s.gNumLocalRefs ?_
    simp
  | release b => exact hi.release (of_decide_eq_true ha)
  | drop o => exact hi.modHeld false
  | finalizer o =>
    simp only [LocalAct.enabled, Bool.and_eq_true, List.all_eq_true, List.mem_range, decide_eq_true_eq,
      Bool.or_eq_true] at ha
    refine hi.finalizer fun b hb => ?_
    obtain h | h := ha.2 b (hi.live b hb).1
    · exact h
    · omega

end

/-! Runs -/

/-- What holds of the objects of both kinds in every state that the process reaches. -/
structure Counterparts (s : JniState) : Prop where
  /-- a proxy refers to an object that is there -/
  dangling : ∀ p n, (s.remotes.proxy.get p).mObject = some n → (s.remotes.remote.get n).destroyed = false
  counted : ∀ n < s.remotes.remote.next,
    (s.remotes.remote.get n).strong = (s.remotes.remote.get n).own + s.remotes.keepers n
  /-- Java code can get hold of one proxy at most -/
  oneProxy : ∀ p q n, (s.remotes.proxy.get p).mObject = some n → (s.remotes.proxy.get q).mObject = some n →
    (s.remotes.proxy.get p).cleared = false → (s.remotes.proxy.get q).cleared = false → p = q
  oneBBinder : ∀ b c, 0 < (s.locals.bbinder.get b).strong → 0 < (s.locals.bbinder.get c).strong →
    (s.locals.bbinder.get b).object = (s.locals.bbinder.get c).object → b = c
  /-- a `Binder` is not finalized as long as its `JavaBBinder` lives -/
  unfinalized : ∀ b, 0 < (s.locals.bbinder.get b).strong →
    (s.locals.binder.get (s.locals.bbinder.get b).object).holder ≠ none
  proxyRefs : s.remotes.gNumProxyRefs = s.remotes.remote.count fun x => x.attached.isSome
  localRefs : s.locals.gNumLocalRefs = s.locals.bbinder.count fun x => 0 < x.strong

structure JniState.Inv (s : JniState) : Prop where
  remotes : RemoteInv s.remotes
  locals : LocalInv s.locals

theorem jniInv_step {s : JniState} (hi : s.Inv) (a : RemoteAct ⊕ LocalAct) : (jniMachine.step s a).Inv := by
  cases a with
  | inl a =>
    simp only [jniMachine]
    split_ifs with ha
    · exact ⟨hi.remotes.apply ha, hi.locals⟩
    · exact hi
  | inr a =>
    simp only [jniMachine]
    split_ifs with ha
    · exact ⟨hi.remotes, hi.locals.apply ha⟩
    · exact hi

theorem jniInv_reach {s : JniState} (h : jniMachine.Reach (fun _ _ => True) s) : s.Inv := by
  refine h.invariant (I := JniState.Inv) ?_ fun s a hi _ => jniInv_step hi a
  rintro s rfl
  exact ⟨RemoteInv.start, LocalInv.start⟩

theorem counterparts_reach {s : JniState} (h : jniMachine.Reach (fun _ _ => True) s) : Counterparts s := by
  have hi := jniInv_reach h
  refine ⟨fun p n hp => (hi.remotes.live_of_keeper hp).2.2, hi.remotes.strong, fun p q n hp hq hpc hqc => ?_,
    fun b c hb hc hobj => ?_, fun b hb => ?_, hi.remotes.refs, hi.locals.refs⟩
  · have hatt := hi.remotes.uncleared p n hp hpc
    exact Option.some_inj.1 (hatt.symm.trans (hi.remotes.uncleared q n hq hqc))
  · have hholder := (hi.locals.live b hb).2
    rw [hobj, (hi.locals.live c hc).2] at hholder
    simpa using hholder.symm
  · exact (hi.locals.live b hb).2 ▸ Option.some_ne_none _

/-- A proxy is collected and another one made before the finalizer of the first runs; a `Binder`
loses its `JavaBBinder` and gets a second one. -/
def collectedRun : List (RemoteAct ⊕ LocalAct) :=
  [.inl .newRemote, .inl (.proxyFor 0 true), .inl (.drop 0), .inl (.clear 0), .inl (.proxyFor 0 true),
    .inl (.finalizer 0), .inl (.release 0), .inr (.newBinder true), .inr (.nativeOf 0), .inr (.release 0),
    .inr (.nativeOf 0)]

def afterCollected : JniState := jniMachine.exec {} collectedRun

theorem reach_afterCollected : jniMachine.Reach (fun _ _ => True) afterCollected := by
  apply Machine.Reach.exec (.start rfl)
  simp [collectedRun, Machine.Admits]

theorem counterparts_reach_collected : Counterparts afterCollected ∧
    (afterCollected.remotes.proxy.get 1).mObject = some 0 ∧
    (afterCollected.remotes.proxy.get 0).mObject = none ∧ (afterCollected.remotes.remote.get 0).strong = 1 ∧
    (afterCollected.locals.bbinder.get 1).object = 0 ∧ afterCollected.locals.gNumLocalRefs = 1 :=
  ⟨counterparts_reach reach_afterCollected, by decide +kernel⟩

/-! The same object -/

/-- Native code has a reference. -/
def JniState.hasNative (s : JniState) : NativeRef → Bool
  | .bpBinder n => n < s.remotes.remote.next && 0 < (s.remotes.remote.get n).own
  | .javaBBinder b => 0 < (s.locals.bbinder.get b).strong

/-- Java code has a reference. -/
def JniState.hasJava (s : JniState) : JavaRef → Bool
  | .binderProxy p => (s.remotes.proxy.get p).held
  | .binder o => (s.locals.binder.get o).held

/-- The native object that a Java object was made for, or was made of. -/
def JniState.Paired (s : JniState) : NativeRef → JavaRef → Prop
  | .bpBinder n, .binderProxy p => (s.remotes.proxy.get p).mObject = some n
  | .javaBBinder b, .binder o => b < s.locals.bbinder.next ∧ (s.locals.bbinder.get b).object = o
  | _, _ => False

section

variable {s : JniState} {val : NativeRef} {obj : JavaRef}

theorem paired_remote {s : RemoteTable} {n p : ℕ} (hi : RemoteInv s) {a : RemoteAct}
    (ha : a.enabled s = true) (hp : (s.proxy.get p).mObject = some n) (hheld : (s.proxy.get p).held = true) :
    ((a.apply s).proxy.get p).mObject = some n := by
  have hlt := (hi.bounds p n hp).1
  have hmod : ∀ (q : ℕ) (f : JavaProxy → JavaProxy), (∀ x, (f x).mObject = x.mObject) →
      ((s.modProxy q f).proxy.get p).mObject = some n := fun q f hf =>
    (s.proxy.apply_get_modify q p f JavaProxy.mObject hf).trans hp
  have hnew : ∀ (t : RemoteTable) (m : ℕ) (new : Bool), t.proxy = s.proxy →
      ((t.createProxy m new).1.proxy.get p).mObject = some n := by
    intro t m new ht
    unfold RemoteTable.createProxy
    split
    · simp only [RemoteTable.newProxy, ht, Heap.get_alloc_ne _ _ _ (Nat.ne_of_lt hlt)]
      exact hp
    · exact ht ▸ hp
  cases a with
  | newRemote | promote _ | release _ => exact hp
  | proxyFor m new =>
    simp only [RemoteAct.apply, RemoteTable.proxyFor]
    split
    · split
      · exact hnew _ m new rfl
      · exact hmod _ _ fun _ => rfl
    · exact hnew s m new rfl
  | nativeOf q =>
    simp only [RemoteAct.apply, RemoteTable.nativeOf]
    split <;> exact hp
  | drop q => exact hmod q _ fun _ => rfl
  | clear q => exact hmod q _ fun _ => rfl
  | finalizer q =>
    -- a proxy that Java code has is not cleared
    have hqp : p ≠ q := by
      rintro rfl
      exact absurd (ha.symm.trans (hi.held p hheld).2) Bool.noConfusion
    simp only [RemoteAct.apply, RemoteTable.destroyProxy]
    split
    · simp only [RemoteTable.modRemote, RemoteTable.modProxy, Heap.get_modify_ne _ _ _ _ hqp]
      exact hp
    · exact hp
  | destroyRemote m =>
    simp only [RemoteAct.apply, RemoteTable.destroyRemote]
    split <;> exact hp

theorem paired_local {s : LocalTable} {b o : ℕ} (hb : b < s.bbinder.next)
    (hobj : (s.bbinder.get b).object = o) (a : LocalAct) :
    b < (a.apply s).bbinder.next ∧ ((a.apply s).bbinder.get b).object = o := by
  have hmod : ∀ (c : ℕ) (f : JavaBBinder → JavaBBinder), (∀ x, (f x).object = x.object) →
      b < (s.modBBinder c f).bbinder.next ∧ ((s.modBBinder c f).bbinder.get b).object = o := fun c f hf =>
    ⟨hb, (s.bbinder.apply_get_modify c b f JavaBBinder.object hf).trans hobj⟩
  cases a with
  | newBinder _ | objectOf _ | drop _ | finalizer _ => exact ⟨hb, hobj⟩
  | nativeOf q =>
    simp only [LocalAct.apply, LocalTable.nativeOf]
    split
    · simp only [LocalTable.holderGet]
      split
      · exact hmod _ _ fun _ => rfl
      · simp only [LocalTable.newBBinder, Heap.next_alloc, Heap.get_alloc_ne _ _ _ (Nat.ne_of_lt hb)]
        exact ⟨Nat.lt_succ_of_lt hb, hobj⟩
    · exact ⟨hb, hobj⟩
  | copy c => exact hmod c _ fun _ => rfl
  | release c => exact hmod c _ fun _ => rfl

theorem paired_step (hi : s.Inv) (hp : s.Paired val obj) (hj : s.hasJava obj = true)
    (a : RemoteAct ⊕ LocalAct) : (jniMachine.step s a).Paired val obj := by
  cases a with
  | inl a =>
    simp only [jniMachine]
    split_ifs with ha
    · cases val <;> cases obj
      · exact paired_remote hi.remotes ha hp hj
      · exact hp
      · exact hp
      · exact hp
    · exact hp
  | inr a =>
    simp only [jniMachine]
    split_ifs with ha
    · cases val <;> cases obj
      · exact hp
      · exact hp
      · exact hp
      · exact paired_local hp.1 hp.2 a
    · exact hp

/-- `Paired` holds as long as Java code keeps its reference. -/
theorem paired_exec (hi : s.Inv) (hp : s.Paired val obj) {as : List (RemoteAct ⊕ LocalAct)}
    (has : jniMachine.Admits (fun s _ => s.hasJava obj = true) s as) :
    (jniMachine.exec s as).Inv ∧ (jniMachine.exec s as).Paired val obj := by
  induction as generalizing s with
  | nil => exact ⟨hi, hp⟩
  | cons a as ih => exact ih (jniInv_step hi a) (paired_step hi hp has.1 a) has.2

/-- Two objects that are paired and in use are turned into one another. -/
theorem paired_same (hi : s.Inv) (hp : s.Paired val obj) (hj : s.hasJava obj = true)
    (hn : s.hasNative val = true) (new : Bool) :
    (javaObjectForIBinder s val new).2 = some obj ∧ (ibinderForJavaObject s obj).2 = some val := by
  cases val with
  | bpBinder n =>
    cases obj with
    | binderProxy p =>
      have hunc := (hi.remotes.held p hj).2
      have hatt := hi.remotes.uncleared p n hp hunc
      have hobj : (s.remotes.proxy.get p).mObject = some n := hp
      refine ⟨?_, ?_⟩
      · simp [javaObjectForIBinder, RemoteTable.proxyFor, hatt, hunc]
      · simp [ibinderForJavaObject, RemoteTable.nativeOf, hobj]
    | binder o => exact absurd hp id
  | javaBBinder b =>
    cases obj with
    | binderProxy p => exact absurd hp id
    | binder o =>
      have hlive : 0 < (s.locals.bbinder.get b).strong := of_decide_eq_true hn
      obtain ⟨-, rfl⟩ := hp
      have hholder := (hi.locals.live b hlive).2
      refine ⟨rfl, ?_⟩
      simp [ibinderForJavaObject, LocalTable.nativeOf, hholder, LocalTable.holderGet,
        Option.filter, hlive]

theorem got_object (hi : s.Inv) {t : JniState} {new : Bool} (hn : s.hasNative val = true)
    (hgot : javaObjectForIBinder s val new = (t, some obj)) : t.Inv ∧ t.Paired val obj := by
  cases val with
  | bpBinder n =>
    simp only [JniState.hasNative, Bool.and_eq_true, decide_eq_true_eq] at hn
    have hinv := hi.remotes.proxyFor hn.1 (hi.remotes.live_of_own hn.1 hn.2) new
    simp only [javaObjectForIBinder, Prod.mk.injEq, Option.map_eq_some_iff] at hgot
    obtain ⟨rfl, p, hp, rfl⟩ := hgot
    refine ⟨⟨hinv, hi.locals⟩, ?_⟩
    have hnew : ∀ x : RemoteTable, (x.createProxy n new).2 = some p →
        ((x.createProxy n new).1.proxy.get p).mObject = some n := by
      intro x hx
      unfold RemoteTable.createProxy at hx ⊢
      split_ifs at hx ⊢
      · obtain rfl := Option.some_inj.1 hx
        simp only [RemoteTable.newProxy, Heap.get_alloc_self]
    simp only [JniState.Paired, RemoteTable.proxyFor] at hp ⊢
    split at hp
    · rename_i q hatt
      split_ifs at hp ⊢ with hc
      · exact hnew _ hp
      · obtain rfl := Option.some_inj.1 hp
        simp only [RemoteTable.modProxy, Heap.get_modify_self]
        exact (hi.remotes.attached n q hatt).2 (by simpa using hc)
    · exact hnew s.remotes hp
  | javaBBinder b =>
    simp only [javaObjectForIBinder, Prod.mk.injEq, Option.some_inj] at hgot
    obtain ⟨rfl, rfl⟩ := hgot
    exact ⟨⟨hi.remotes, hi.locals.modHeld true⟩, (hi.locals.live b (of_decide_eq_true hn)).1, rfl⟩

theorem got_native (hi : s.Inv) {t : JniState} (hgot : ibinderForJavaObject s obj = (t, some val)) :
    t.Inv ∧ t.Paired val obj := by
  cases obj with
  | binderProxy p =>
    simp only [ibinderForJavaObject, RemoteTable.nativeOf] at hgot
    split at hgot
    · rename_i n hp
      simp only [Option.map_some, Prod.mk.injEq, Option.some_inj] at hgot
      obtain ⟨rfl, rfl⟩ := hgot
      have hlive := hi.remotes.live_of_keeper hp
      exact ⟨⟨hi.remotes.take hlive.1 hlive.2.2, hi.locals⟩, hp⟩
    · exact absurd (congrArg Prod.snd hgot).symm (Option.some_ne_none _)
  | binder o =>
    simp only [ibinderForJavaObject, LocalTable.nativeOf] at hgot
    split at hgot
    · rename_i jbh hh
      simp only [Option.map_some, Prod.mk.injEq, Option.some_inj] at hgot
      obtain ⟨rfl, rfl⟩ := hgot
      refine ⟨⟨hi.remotes, hi.locals.holderGet hh⟩, ?_⟩
      simp only [JniState.Paired, LocalTable.holderGet]
      split
      · rename_i b hb
        have hmem := (Option.filter_eq_some_iff.1 hb).1
        obtain ⟨hlt, hobj⟩ := hi.locals.known o b (by rw [hh, ← hmem])
        refine ⟨hlt, ?_⟩
        simpa only [LocalTable.modBBinder, Heap.get_modify_self] using hobj
      · simp only [LocalTable.newBBinder, Heap.next_alloc, Heap.get_alloc_self]
        exact ⟨Nat.lt_succ_self _, trivial⟩
    · exact absurd (congrArg Prod.snd hgot).symm (Option.some_ne_none _)

end

/-- An object that came out of one of the two functions goes on to be the other's counterpart, as
long as Java code has its object; other threads may do anything meanwhile. -/
theorem same_counterpart {s t : JniState} (h : jniMachine.Reach (fun _ _ => True) s) {val : NativeRef}
    {obj : JavaRef} {new : Bool}
    (hgot : (s.hasNative val = true ∧ javaObjectForIBinder s val new = (t, some obj)) ∨
      ibinderForJavaObject s obj = (t, some val))
    {as : List (RemoteAct ⊕ LocalAct)}
    (has : jniMachine.Admits (fun s _ => s.hasJava obj = true) t as)
    (hj : (jniMachine.exec t as).hasJava obj = true) (hn : (jniMachine.exec t as).hasNative val = true)
    (new' : Bool) : (javaObjectForIBinder (jniMachine.exec t as) val new').2 = some obj ∧
      (ibinderForJavaObject (jniMachine.exec t as) obj).2 = some val := by
  have hi := jniInv_reach h
  obtain ⟨hit, hp⟩ : t.Inv ∧ t.Paired val obj := by
    obtain ⟨hval, hgot⟩ | hgot := hgot
    · exact got_object hi hval hgot
    · exact got_native hi hgot
  obtain ⟨hie, hpe⟩ := paired_exec hit hp has
  exact paired_same hie hpe hj hn new'

/-- Native code gives its references up and gets the object back from Java code. -/
theorem same_counterpart_collected :
    (javaObjectForIBinder (jniMachine.exec (javaObjectForIBinder (jniMachine.step afterCollected
        (.inl (.nativeOf 1))) (.bpBinder 0) true).1
      [.inl (.release 0), .inr (.release 1), .inl (.nativeOf 1)]) (.bpBinder 0) false).2 =
        some (.binderProxy 1) :=
  have hgot : javaObjectForIBinder (jniMachine.step afterCollected (.inl (.nativeOf 1))) (.bpBinder 0) true =
      (_, some (.binderProxy 1)) := rfl
  (same_counterpart (reach_afterCollected.step (.inl (.nativeOf 1)) trivial)
    (.inl ⟨by decide +kernel, hgot⟩) (by decide +kernel) (by decide +kernel) (by decide +kernel) false).1

end Binder

import BinderIpc.Svc.Manager
import BinderIpc.Lib.Run
import Mathlib.Logic.Function.Basic

/-! The names of `service_manager` and the lives of its services. Of the driver
there are the references that the process of `service_manager` holds: one for a
node, deleted with its death record when nothing holds it any more, and with one
death record at most. Reading a command and obeying it is one step, and so is a
call of `do_add_service`; buffers come and go in between. -/

namespace Binder

inductive NoticeState
  | idle | queued | delivered
  deriving Repr, DecidableEq

/-- A reference; the death record has the entry that is its cookie. -/
structure SvcRef where
  node : ℕ
  strong : ℕ := 0
  weak : ℕ := 0
  death : Option (ℕ × NoticeState) := none
  deriving Repr, DecidableEq

namespace SvcRef

def count (strong : Bool) (r : SvcRef) : ℕ := if strong then r.strong else r.weak

def raise (strong : Bool) (r : SvcRef) : SvcRef :=
  if strong then { r with strong := r.strong + 1 } else { r with weak := r.weak + 1 }

def lower (strong : Bool) (r : SvcRef) : SvcRef :=
  if strong then { r with strong := r.strong - 1 } else { r with weak := r.weak - 1 }

/-- The owner of the node has died. -/
def queue (r : SvcRef) : SvcRef :=
  match r.death with
  | some (cookie, .idle) => { r with death := some (cookie, .queued) }
  | _ => r

end SvcRef

structure SvcWorld where
  mgr : SvcMgr := {}
  byDesc : ℕ → Option SvcRef := fun _ => none
  byNode : ℕ → Option ℕ := fun _ => none
  /-- the processes that have died -/
  dead : ℕ → Bool := fun _ => false
  /-- what the buffers that were not freed yet hold: handles, and how -/
  buffers : List (ℕ × Bool) := []
  /-- the node that was added last under a name -/
  last : List ℕ → Option ℕ := fun _ => none

namespace SvcWorld

variable (w : SvcWorld)

def setRef (h : ℕ) (r : SvcRef) : SvcWorld :=
  { w with byDesc := Function.update w.byDesc h (some r) }

def deleteRef (h : ℕ) (r : SvcRef) : SvcWorld :=
  { w with
    byDesc := Function.update w.byDesc h none
    byNode := Function.update w.byNode r.node none }

@[simp] theorem byDesc_setRef (h : ℕ) (r : SvcRef) (g : ℕ) :
    (w.setRef h r).byDesc g = if g = h then some r else w.byDesc g := Function.update_apply ..

@[simp] theorem byDesc_deleteRef (h : ℕ) (r : SvcRef) (g : ℕ) :
    (w.deleteRef h r).byDesc g = if g = h then none else w.byDesc g := Function.update_apply ..

/-- `binder_inc_ref` -/
def inc (h : ℕ) (strong : Bool) : SvcWorld :=
  (w.byDesc h).elim w fun r => w.setRef h (r.raise strong)

/-- `binder_dec_ref` -/
def dec (h : ℕ) (strong : Bool) : SvcWorld :=
  (w.byDesc h).elim w fun r =>
    if r.count strong = 0 then w
    else if (r.lower strong).strong = 0 ∧ (r.lower strong).weak = 0 then w.deleteRef h r
    else w.setRef h (r.lower strong)

/-- `BC_REQUEST_DEATH_NOTIFICATION`; `owner` tells whose a node is. -/
def link (owner : ℕ → ℕ) (kzalloc : Bool) (h cookie : ℕ) : SvcWorld :=
  (w.byDesc h).elim w fun r =>
    if r.death.isSome || !kzalloc then w
    else
      w.setRef h { r with
        death := some (cookie, if w.dead (owner r.node) then .queued else .idle) }

def command (owner : ℕ → ℕ) (kzalloc : Bool) : SvcCommand → SvcWorld
  | .acquire h => w.inc h true
  | .release h => w.dec h true
  | .linkToDeath h cookie => w.link owner kzalloc h cookie

/-- The driver executes what was written. -/
def obey (owner : ℕ → ℕ) (kzalloc : Bool) (m : SvcMgr) : SvcWorld :=
  m.out.foldl (fun w c => w.command owner kzalloc c) { w with mgr := { m with out := [] } }

end SvcWorld

inductive SvcStep
  /-- a buffer brings a reference to node `n`; a new one gets the handle `h` -/
  | receive (n h : ℕ) (strong : Bool)
  | free (h : ℕ) (strong : Bool)
  /-- `do_add_service`, with a handle that a buffer holds -/
  | add (name : List ℕ) (h uid spid : ℕ) (allowIsolated malloc kzalloc : Bool)
  | die (p : ℕ)
  /-- `BR_DEAD_BINDER` for the reference `h` is read and handled -/
  | notice (h : ℕ)
  deriving DecidableEq

/-- The handle that a buffer brings for `n`. -/
def SvcWorld.receive (w : SvcWorld) (n h : ℕ) (strong : Bool) : SvcWorld :=
  match w.byNode n with
  | some g => { w.inc g strong with buffers := (g, strong) :: w.buffers }
  | none =>
    if h = 0 ∨ (w.byDesc h).isSome then w
    else
      { w.setRef h (SvcRef.raise strong { node := n }) with
        byNode := Function.update w.byNode n (some h)
        buffers := (h, strong) :: w.buffers }

variable (env : MacEnv) (owner : ℕ → ℕ)

def SvcWorld.add (w : SvcWorld) (name : List ℕ) (h uid spid : ℕ)
    (allowIsolated malloc kzalloc : Bool) : SvcWorld :=
  let r := doAddService w.mgr env malloc name h uid allowIsolated spid
  let w' := w.obey owner kzalloc r.1
  if r.2.1 then { w' with last := Function.update w'.last name ((w.byDesc h).map (·.node)) } else w'

def svcWorld : Machine SvcWorld SvcStep where
  start w := w = {}
  step w a := match a with
    | .receive n h strong => w.receive n h strong
    | .free h strong =>
      if (h, strong) ∈ w.buffers then
        { w with buffers := w.buffers.erase (h, strong) }.dec h strong
      else w
    | .add name h uid spid allowIsolated malloc kzalloc =>
      if (h, true) ∈ w.buffers then w.add env owner name h uid spid allowIsolated malloc kzalloc
      else w
    | .die p =>
      { w with
        dead := Function.update w.dead p true
        byDesc := fun h => (w.byDesc h).map fun r => if owner r.node = p then r.queue else r }
    | .notice h =>
      match w.byDesc h with
      | none => w
      | some r =>
        match r.death with
        | some (si, .queued) =>
          (w.setRef h { r with death := some (si, .delivered) }).obey owner true
            (svcinfoDeath w.mgr si)
        | _ => w

/-- `do_find_service` when permission is granted. -/
def SvcWorld.Finds (w : SvcWorld) (name : List ℕ) (h : ℕ) : Prop :=
  ∀ uid spid, (svcCanFind env name spid uid).1 = true →
    ¬(env.aidIsolatedStart ≤ uid % env.aidUser ∧ uid % env.aidUser ≤ env.aidIsolatedEnd) →
    (doFindService w.mgr env name uid spid).1 = h

/-- Every name leads to the service that was added last under it while that is
alive, and to nothing otherwise. -/
def SvcWorld.NamesTrack (w : SvcWorld) : Prop :=
  ∀ name, match w.last name with
    | some n =>
      if w.dead (owner n) then w.Finds env name 0
      else ∃ h r, h ≠ 0 ∧ w.byDesc h = some r ∧ r.node = n ∧ w.Finds env name h
    | none => w.Finds env name 0

/-- No `BR_DEAD_BINDER` is due. -/
def SvcWorld.Settled (w : SvcWorld) : Prop :=
  ∀ h r, w.byDesc h = some r → r.death.all (·.2 ≠ .queued) = true

/-- The reference `h` has no death record but an undelivered one for this very
name, and the handle that the name had is held for nothing else. -/
def SvcWorld.sole (w : SvcWorld) (name : List ℕ) (h : ℕ) : Bool :=
  ((w.byDesc h).all fun r => r.death.all fun d =>
    d.2 ≠ .delivered && w.mgr.findSvc name = some d.1) &&
  ((w.mgr.findSvc name).all fun si =>
    let g := (w.mgr.info.get si).handle
    g = 0 || g = h || (w.byDesc g).all fun r => r.strong = 1 && r.weak = 0)

/-- `do_add_service` will not return -1. -/
def SvcWorld.accepts (w : SvcWorld) (name : List ℕ) (h uid spid : ℕ) (malloc : Bool) : Bool :=
  addable env name h uid spid && (malloc || (w.mgr.findSvc name).isSome)

/-- Every service that is added gets a death record of its own. -/
def addsSole (w : SvcWorld) : SvcStep → Prop
  | .add name h uid spid _ malloc kzalloc =>
    w.accepts env name h uid spid malloc = true → kzalloc = true ∧ w.sole name h = true
  | _ => True

instance (w : SvcWorld) : ∀ a, Decidable (addsSole env w a)
  | .add _ _ _ _ _ _ _ => inferInstanceAs (Decidable (_ → _))
  | .receive _ _ _ | .free _ _ | .die _ | .notice _ => isTrue trivial

end Binder

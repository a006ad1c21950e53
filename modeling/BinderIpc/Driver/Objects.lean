import BinderIpc.Driver.State
import Mathlib.Data.List.Sort

/-! Nodes and references: the counting functions, the translation of the objects
of a transaction into the target process, and its undoing when the buffer goes.
A tree of nodes or references is kept as the sequence of its elements. -/

namespace Binder

open Objects

/-- `rb_link_node` and `rb_insert_color`, in a tree ordered by `key`. -/
def treeInsert (key : ℕ → ℕ) (a : ℕ) (l : List ℕ) : List ℕ :=
  l.takeWhile (key · < key a) ++ a :: l.dropWhile (key · < key a)

/-! Nodes -/

def binderGetNode (o : Objects) (p ptr : ℕ) : Option ℕ :=
  (o.own p).nodes.find? fun n => (o.node.get n).ptr = ptr

def binderNewNode (o : Objects) (p ptr cookie : ℕ) (kzalloc : Bool) : Objects × Option ℕ :=
  if (binderGetNode o p ptr).isSome || !kzalloc then (o, none)
  else
    let n := o.node.next
    let o := { o with node := o.node.alloc { proc := some p, ptr := ptr, cookie := cookie } }
    (o.modOwn p fun w => { w with nodes := treeInsert (fun n => (o.node.get n).ptr) n w.nodes },
      some n)

/-- One more of the count that `strong` and `internal` choose; references count weakly by being there. -/
def BinderNode.raise (strong internal : Bool) (x : BinderNode) : BinderNode :=
  match strong, internal with
  | true, true => { x with internalStrongRefs := x.internalStrongRefs + 1 }
  | true, false => { x with localStrongRefs := x.localStrongRefs + 1 }
  | false, true => x
  | false, false => { x with localWeakRefs := x.localWeakRefs + 1 }

/-- One less. -/
def BinderNode.lower (strong internal : Bool) (x : BinderNode) : BinderNode :=
  match strong, internal with
  | true, true => { x with internalStrongRefs := x.internalStrongRefs - 1 }
  | true, false => { x with localStrongRefs := x.localStrongRefs - 1 }
  | false, true => x
  | false, false => { x with localWeakRefs := x.localWeakRefs - 1 }

/-- The result tells whether it returned 0. -/
def binderIncNode (o : Objects) (n : ℕ) (strong internal : Bool) (targetList : Option ListHead) :
    Objects × Bool :=
  let x := o.node.get n
  if strong then
    if internal && targetList.isNone && x.internalStrongRefs = 0 &&
        !(o.contextMgrNode = some n && x.hasStrongRef) then (o, false)
    else
      let o := o.modNode n (.raise strong internal)
      match targetList, x.hasStrongRef with
      | some l, false => ({ o with todo := o.todo.moveTail l (.node n) }, true)
      | _, _ => (o, true)
  else
    let o := o.modNode n (.raise strong internal)
    if !x.hasWeakRef && !o.todo.linked (.node n) then
      match targetList with
      | some l => ({ o with todo := o.todo.addTail l (.node n) }, true)
      | none => (o, false)
    else (o, true)

/-- The end of `binder_dec_node`: the owner is told, or the node is freed. -/
def nodeUnheld (o : Objects) (n : ℕ) : Objects :=
  let x := o.node.get n
  match x.proc, x.hasStrongRef || x.hasWeakRef with
  | some p, true =>
    if o.todo.linked (.node n) then o else { o with todo := o.todo.addTail (.procTodo p) (.node n) }
  | proc, _ =>
    if x.refs = [] ∧ x.localStrongRefs = 0 ∧ x.localWeakRefs = 0 then
      let o := { o with todo := o.todo.del (.node n) }
      let o := match proc with
        | some p => o.modOwn p fun w => { w with nodes := w.nodes.erase n }
        | none => { o with deadNodes := o.deadNodes.erase n }
      o.modNode n fun x => { x with freed := x.freed + 1 }
    else o

def binderDecNode (o : Objects) (n : ℕ) (strong internal : Bool) : Objects :=
  let o := o.modNode n (.lower strong internal)
  let x := o.node.get n
  if if strong then x.localStrongRefs ≠ 0 ∨ x.internalStrongRefs ≠ 0
    else x.localWeakRefs ≠ 0 ∨ x.refs ≠ [] then o
  else nodeUnheld o n

/-! References -/

def binderGetRef (o : Objects) (p desc : ℕ) : Option ℕ :=
  (o.own p).refsByDesc.find? fun r => (o.ref.get r).desc = desc

/-- The loop that looks for the first unused descriptor from `desc` on. -/
def unusedDesc (o : Objects) : ℕ → List ℕ → ℕ
  | desc, [] => desc
  | desc, r :: l => if desc < (o.ref.get r).desc then desc else unusedDesc o ((o.ref.get r).desc + 1) l

def refForNode (o : Objects) (p n : ℕ) : Option ℕ :=
  (o.own p).refsByNode.find? fun r => (o.ref.get r).node = n

/-- The part of `binder_get_ref_for_node` that makes a reference. -/
def newRef (o : Objects) (p n : ℕ) : Objects :=
  let r := o.ref.next
  let desc := unusedDesc o (if o.contextMgrNode = some n then 0 else 1) (o.own p).refsByDesc
  let o := o.bugOn ((o.own p).refsByDesc.any fun r => (o.ref.get r).desc = desc) .descInUse
  let o := { o with ref := o.ref.alloc { proc := p, node := n, desc := desc } }
  let o := o.modOwn p fun w =>
    { w with
      refsByNode := treeInsert (fun r => (o.ref.get r).node) r w.refsByNode
      refsByDesc := treeInsert (fun r => (o.ref.get r).desc) r w.refsByDesc }
  o.modNode n fun x => { x with refs := r :: x.refs }

def binderGetRefForNode (o : Objects) (p n : ℕ) (kzalloc : Bool) : Objects × Option ℕ :=
  match refForNode o p n with
  | some r => (o, some r)
  | none => if kzalloc then (newRef o p n, some o.ref.next) else (o, none)

/-- `list_del` and `kfree` of a death record. -/
def freeDeath (o : Objects) (d : ℕ) : Objects :=
  let o := { o with todo := o.todo.del (.death d) }
  o.modDeath d fun x => { x with freed := x.freed + 1 }

def binderDeleteRef (o : Objects) (r : ℕ) : Objects :=
  let x := o.ref.get r
  let o := o.modOwn x.proc fun w =>
    { w with refsByDesc := w.refsByDesc.erase r, refsByNode := w.refsByNode.erase r }
  let o := if x.strong ≠ 0 then binderDecNode o x.node true true else o
  let o := o.modNode x.node fun y => { y with refs := y.refs.erase r }
  let o := binderDecNode o x.node false true
  let o := match x.death with
    | some d => freeDeath o d
    | none => o
  o.modRef r fun x => { x with freed := x.freed + 1 }

def BinderRef.count (strong : Bool) (x : BinderRef) : ℤ := if strong then x.strong else x.weak

def BinderRef.raise (strong : Bool) (x : BinderRef) : BinderRef :=
  if strong then { x with strong := x.strong + 1 } else { x with weak := x.weak + 1 }

def BinderRef.lower (strong : Bool) (x : BinderRef) : BinderRef :=
  if strong then { x with strong := x.strong - 1 } else { x with weak := x.weak - 1 }

def binderIncRef (o : Objects) (r : ℕ) (strong : Bool) (targetList : Option ListHead) :
    Objects × Bool :=
  let x := o.ref.get r
  match if x.count strong = 0 then binderIncNode o x.node strong true targetList else (o, true) with
  | (o, true) => (o.modRef r (.raise strong), true)
  | (o, false) => (o, false)

def binderDecRef (o : Objects) (r : ℕ) (strong : Bool) : Objects :=
  let x := o.ref.get r
  if x.count strong = 0 then o
  else
    let o := o.modRef r (.lower strong)
    let o := if strong ∧ (o.ref.get r).strong = 0 then binderDecNode o x.node true true else o
    if (o.ref.get r).strong = 0 ∧ (o.ref.get r).weak = 0 then binderDeleteRef o r else o

/-! Objects in a buffer -/

/-- The types of a `struct flat_binder_object`. -/
inductive ObjectType
  | binder | weakBinder | handle | weakHandle | fd
  deriving Repr, DecidableEq

def ObjectType.code : ObjectType → ℕ
  | binder => 0x73622a85
  | weakBinder => 0x77622a85
  | handle => 0x73682a85
  | weakHandle => 0x77682a85
  | fd => 0x66642a85

def objectType (code : ℕ) : Option ObjectType :=
  [.binder, .weakBinder, .handle, .weakHandle, .fd].find? (·.code = code)

/-- Word `k` of the object at offset `off`: the type, the flags, the binder or
handle in two words, the cookie in two words. -/
def objectWord (data : List ℕ) (off k : ℕ) : ℕ := data.getD (off / 4 + k) 0

def objectQuad (data : List ℕ) (off k : ℕ) : ℕ :=
  objectWord data off k + 2 ^ 32 * objectWord data off (k + 1)

def setWord (off k v : ℕ) (data : List ℕ) : List ℕ := data.set (off / 4 + k) v

def setQuad (off k v : ℕ) (data : List ℕ) : List ℕ :=
  setWord off (k + 1) (v / 2 ^ 32 % 2 ^ 32) (setWord off k (v % 2 ^ 32) data)

/-- `sizeof(struct flat_binder_object)` -/
def objectSize : ℕ := 24

/-- The test that an offset has to pass. -/
def badOffset (L : Layout) (dataSize off : ℕ) : Bool :=
  L.sub dataSize objectSize < off || dataSize < objectSize || off % 4 ≠ 0

/-- What the rest of the kernel answers for one object. -/
structure ObjectEnv where
  kzallocNode : Bool := true
  kzallocRef : Bool := true
  fget : Bool := true
  unusedFd : Option ℕ := some 0

/-- Who sends the objects, and to whom. -/
structure Transfer where
  proc : ℕ
  thread : ℕ
  targetProc : ℕ
  acceptFds : Bool

def handleType (strong : Bool) : ObjectType := if strong then .handle else .weakHandle

def binderType (strong : Bool) : ObjectType := if strong then .binder else .weakBinder

/-- The node that an object of the sender names, made when there is none. -/
def senderNode (env : ObjectEnv) (x : Transfer) (o : Objects) (data : List ℕ) (off : ℕ) :
    Objects × Option ℕ :=
  match binderGetNode o x.proc (objectQuad data off 2) with
  | some n => (o, some n)
  | none =>
    match binderNewNode o x.proc (objectQuad data off 2) (objectQuad data off 4)
        env.kzallocNode with
    | (o, none) => (o, none)
    | (o, some n) =>
      (o.modNode n fun y => { y with acceptFds := (objectWord data off 1).testBit 8 }, some n)

/-- `BINDER_TYPE_BINDER` and `BINDER_TYPE_WEAK_BINDER` -/
def translateBinder (env : ObjectEnv) (x : Transfer) (o : Objects) (data : List ℕ) (off : ℕ)
    (strong : Bool) : Objects × List ℕ × Bool :=
  match senderNode env x o data off with
  | (o, none) => (o, data, false)
  | (o, some n) =>
    if objectQuad data off 4 ≠ (o.node.get n).cookie then (o, data, false)
    else
      match binderGetRefForNode o x.targetProc n env.kzallocRef with
      | (o, none) => (o, data, false)
      | (o, some r) =>
        ((binderIncRef o r strong (some (.threadTodo x.thread))).1,
          setWord off 2 (o.ref.get r).desc (setWord off 0 (handleType strong).code data), true)

/-- `BINDER_TYPE_HANDLE` and `BINDER_TYPE_WEAK_HANDLE` -/
def translateHandle (env : ObjectEnv) (x : Transfer) (o : Objects) (data : List ℕ) (off : ℕ)
    (strong : Bool) : Objects × List ℕ × Bool :=
  match binderGetRef o x.proc (objectWord data off 2) with
  | none => (o, data, false)
  | some r =>
    let n := (o.ref.get r).node
    let y := o.node.get n
    if y.proc = some x.targetProc then
      ((binderIncNode o n strong false none).1,
        setQuad off 4 y.cookie
          (setQuad off 2 y.ptr (setWord off 0 (binderType strong).code data)), true)
    else
      match binderGetRefForNode o x.targetProc n env.kzallocRef with
      | (o, none) => (o, data, false)
      | (o, some r) =>
        ((binderIncRef o r strong none).1, setWord off 2 (o.ref.get r).desc data, true)

/-- `BINDER_TYPE_FD` -/
def translateFd (env : ObjectEnv) (x : Transfer) (o : Objects) (data : List ℕ) (off : ℕ) :
    Objects × List ℕ × Bool :=
  if !x.acceptFds || !env.fget || !(o.own x.targetProc).files then (o, data, false)
  else
    match env.unusedFd with
    | none => (o, data, false)
    | some fd =>
      (o.modOwn x.targetProc fun w => { w with fds := w.fds ++ [fd] }, setWord off 2 fd data, true)

/-- One turn of the loop of `binder_transaction`; the flag is false when it leaves the loop. -/
def translateObject (L : Layout) (env : ObjectEnv) (x : Transfer) (dataSize : ℕ) (o : Objects)
    (data : List ℕ) (off : ℕ) : Objects × List ℕ × Bool :=
  if badOffset L dataSize off then (o, data, false)
  else
    match objectType (objectWord data off 0) with
    | some .binder => translateBinder env x o data off true
    | some .weakBinder => translateBinder env x o data off false
    | some .handle => translateHandle env x o data off true
    | some .weakHandle => translateHandle env x o data off false
    | some .fd => translateFd env x o data off
    | none => (o, data, false)

/-- The loop over the offsets, from the `k`th on; an error leaves the index of
the offset it stopped at. -/
def translateObjects (L : Layout) (env : ℕ → ObjectEnv) (x : Transfer) (dataSize : ℕ) :
    List ℕ → ℕ → Objects → List ℕ → Objects × List ℕ × Option ℕ
  | [], _, o, data => (o, data, none)
  | off :: offs, k, o, data =>
    match translateObject L (env k) x dataSize o data off with
    | (o, data, true) => translateObjects L env x dataSize offs (k + 1) o data
    | (o, data, false) => (o, data, some k)

/-! Release -/

def releaseBinder (p : ℕ) (o : Objects) (data : List ℕ) (off : ℕ) (strong : Bool) : Objects :=
  match binderGetNode o p (objectQuad data off 2) with
  | none => o
  | some n => binderDecNode o n strong false

def releaseHandle (p : ℕ) (o : Objects) (data : List ℕ) (off : ℕ) (strong : Bool) : Objects :=
  match binderGetRef o p (objectWord data off 2) with
  | none => o
  | some r => binderDecRef o r strong

def releaseFd (p : ℕ) (o : Objects) (data : List ℕ) (off : ℕ) : Objects :=
  if (o.own p).files then o.modOwn p fun w => { w with fds := w.fds.erase (objectWord data off 2) }
  else o

/-- One turn of the loop of `binder_transaction_buffer_release`. -/
def releaseObject (L : Layout) (p dataSize : ℕ) (data : List ℕ) (failed : Bool) (o : Objects)
    (off : ℕ) : Objects :=
  if badOffset L dataSize off then o
  else
    match objectType (objectWord data off 0) with
    | some .binder => releaseBinder p o data off true
    | some .weakBinder => releaseBinder p o data off false
    | some .handle => releaseHandle p o data off true
    | some .weakHandle => releaseHandle p o data off false
    | some .fd => if failed then releaseFd p o data off else o
    | none => o

/-- `failedAt` counts the offsets before the one at which the translation failed. -/
def binderTransactionBufferRelease (L : Layout) (o : Objects) (p : ℕ) (b : BinderBuffer)
    (failedAt : Option ℕ) : Objects :=
  let o := match b.targetNode with
    | some n => binderDecNode o n true false
    | none => o
  let offs := match failedAt with
    | some k => b.offsets.take k
    | none => b.offsets
  offs.foldl (releaseObject L p b.dataSize b.data failedAt.isSome) o

end Binder

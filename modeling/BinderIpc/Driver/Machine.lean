import BinderIpc.Driver.Read
import BinderIpc.Alloc.Runs

/-! The driver as a machine. A step is what one thread does, or the deferred
work of one process, while it holds the lock; a guard keeps out what the system
call layer keeps out. -/

namespace Binder

open Driver

inductive Action
  /-- `binder_open` -/
  | openProc (pid : ℕ)
  | mmap (p base size : ℕ) (env : PageEnv)
  | vmaClose (p : ℕ)
  | flush (p : ℕ)
  /-- `binder_release`, when the last descriptor is closed -/
  | close (p : ℕ)
  | deferredFunc (p : ℕ) (env : ℕ → PageEnv)
  /-- `binder_get_thread` at the first call of a thread -/
  | getThread (p pid : ℕ)
  /-- one command of a `BINDER_WRITE_READ` -/
  | write (T : ℕ) (c : Command) (env : CommandEnv)
  /-- the read of a `BINDER_WRITE_READ` -/
  | read (T size consumed : ℕ) (nonBlock : Bool) (fault : ℕ → Bool)
  | lookForWork (T : ℕ)
  | resume (T : ℕ) (fault : ℕ → Bool)
  | interrupt (T : ℕ)
  /-- the end of a call -/
  | ioctlDone (T : ℕ)
  | setMaxThreads (T : ℕ) (maxThreads : ℤ)
  | setContextMgr (T euid : ℕ) (kzalloc : Bool)
  | threadExit (T : ℕ)

/-- A process whose file is open. -/
def Driver.isOpen (s : Driver) (p : ℕ) : Bool := p < s.proc.next && !(s.proc.get p).closed

/-- A thread that may enter the driver. -/
def Driver.ready (s : Driver) (T : ℕ) : Bool :=
  let y := s.thread.get T
  T < s.thread.next && y.freed = 0 && y.asleep.isNone && s.isOpen y.proc

/-- No call into the driver is under way. -/
def Driver.quiet (s : Driver) (p : ℕ) : Bool :=
  (s.proc.get p).threads.all fun T => (s.thread.get T).asleep.isNone

def binderOpen (s : Driver) (pid : ℕ) : Driver := { s with proc := s.proc.alloc { pid := pid } }

def driverMmap (L : Layout) (rb : RbTree ℕ) (s : Driver) (p base size : ℕ) (env : PageEnv) : Driver :=
  if (s.proc.get p).area.bufferSize ≠ 0 then s
  else
    match binderMmap L rb base size env with
    | none => s
    | some area =>
      (s.modProc p fun x => { x with area := area }).modObj fun o =>
        o.modOwn p fun w => { w with files := true }

def binderVmaClose (s : Driver) (p : ℕ) : Driver :=
  s.modProc p fun x =>
    { x with area := { x.area with vma := false }, deferred := { x.deferred with putFiles := true } }

def binderFlush (s : Driver) (p : ℕ) : Driver :=
  s.modProc p fun x => { x with deferred := { x.deferred with flush := true } }

def binderRelease (s : Driver) (p : ℕ) : Driver :=
  s.modProc p fun x => { x with closed := true, deferred := { x.deferred with release := true } }

/-- `binder_get_thread` when the thread is not in the tree. -/
def newThread (s : Driver) (p pid : ℕ) : Driver :=
  let T := s.thread.next
  let s := { s with
    thread := s.thread.alloc { proc := p, pid := pid, looper := { needReturn := true } } }
  s.modProc p fun x => { x with threads := treeInsert (fun T => (s.thread.get T).pid) T x.threads }

def binderGetThread (s : Driver) (p pid : ℕ) : Driver :=
  if (s.proc.get p).threads.any fun T => (s.thread.get T).pid = pid then s else newThread s p pid

def setCtxMgr (s : Driver) (T euid : ℕ) (kzalloc : Bool) : Driver :=
  if s.obj.contextMgrNode.isSome || s.contextMgrUid.any (· ≠ euid) then s
  else
    let s := { s with contextMgrUid := some (s.contextMgrUid.getD euid) }
    s.modObj fun o =>
      match binderNewNode o (s.thread.get T).proc 0 0 kzalloc with
      | (o, none) => { o with contextMgrNode := none }
      | (o, some n) =>
        { o with contextMgrNode := some n }.modNode n fun x =>
          { x with
            localWeakRefs := x.localWeakRefs + 1, localStrongRefs := x.localStrongRefs + 1
            hasStrongRef := true, hasWeakRef := true }

def clearNeedReturn (s : Driver) (T : ℕ) : Driver :=
  s.modThread T fun y => { y with looper := { y.looper with needReturn := false } }

variable (L : Layout) (rb : RbTree ℕ)

instance (base size : ℕ) : Decidable (Mapped L base size) :=
  decidable_of_iff (L.page ∣ base ∧ L.page ∣ size ∧ 0 < size ∧ base + size < L.sizes)
    ⟨fun h => ⟨h.1, h.2.1, h.2.2.1, h.2.2.2⟩, fun h => ⟨h.1, h.2, h.3, h.4⟩⟩

/-- Sizes that a sender states are `size_t`. -/
def Command.sized : Command → Bool
  | transaction tr | reply tr => tr.dataSize < L.sizes && tr.offsetsSize < L.sizes
  | _ => true

/-- What the system call layer lets through. -/
def Action.enabled (s : Driver) : Action → Bool
  | openProc _ => true
  | mmap p base size _ => s.isOpen p && decide (Mapped L base size)
  | vmaClose p => s.isOpen p && (s.proc.get p).area.vma
  | flush p => s.isOpen p
  | close p => s.isOpen p && s.quiet p && !(s.proc.get p).area.vma
  | deferredFunc p _ => p < s.proc.next && !(s.proc.get p).released
  | getThread p _ => s.isOpen p
  | write T c _ => s.ready T && c.sized L
  | read T size _ _ _ => s.ready T && size < L.sizes
  | lookForWork T | resume T _ | interrupt T => T < s.thread.next
  | ioctlDone T | setMaxThreads T _ | setContextMgr T _ _ | threadExit T => s.ready T

def Action.apply (s : Driver) : Action → Driver
  | openProc pid => binderOpen s pid
  | mmap p base size env => driverMmap L rb s p base size env
  | vmaClose p => binderVmaClose s p
  | flush p => binderFlush s p
  | close p => binderRelease s p
  | deferredFunc p env => binderDeferredFunc L rb env s p
  | getThread p pid => binderGetThread s p pid
  | write T c env => writeCommand L rb s T env c
  | read T size consumed nonBlock fault => binderThreadRead s T size consumed nonBlock fault
  | lookForWork T => Binder.lookForWork s T
  | resume T fault => resumeRead L s T fault
  | interrupt T => interruptRead s T
  | ioctlDone T => clearNeedReturn s T
  | setMaxThreads T maxThreads =>
    s.modProc (s.thread.get T).proc fun p => { p with maxThreads := maxThreads }
  | setContextMgr T euid kzalloc => setCtxMgr s T euid kzalloc
  | threadExit T => binderFreeThread s T

def driverMachine : Machine Driver Action where
  start s := s = {}
  step s a := if a.enabled L s then a.apply L rb s else s

end Binder

import BinderIpc.Alloc.Quota
import BinderIpc.Alloc.Residency
import BinderIpc.Txn.Commands
import BinderIpc.Wire.ReadFraming

/-! The driver as a user of the allocator: whatever the driver does to the area of a
process, the allocator's machine can do. -/

namespace Binder

variable (L : Layout) (rb : RbTree ℕ)

/-- The allocator reaches the area, or it was never mapped. -/
def ReachedArea (A : BinderArea) : Prop :=
  AreaReach L rb A ∨ (A.buffers = [] ∧ A.allocatedBuffers = .leaf ∧ A.vma = false)

def Driver.AreasReached (s : Driver) : Prop := ∀ p, ReachedArea L rb (s.proc.get p).area

/-- Part of a step that uses the areas as the allocator allows. -/
def AreasKept (s s' : Driver) : Prop := s.AreasReached L rb → s'.AreasReached L rb

variable {L rb} {s s' s'' : Driver} {A : BinderArea} {a p T t : ℕ}

theorem ReachedArea.inv (h : ReachedArea L rb A) (hne : A.buffers ≠ []) : AreaInv L A := by
  rcases h with h | ⟨hnil, -, -⟩
  · exact areaReach_inv h
  · exact absurd hnil hne

theorem ReachedArea.fill {f : BinderBuffer → BinderBuffer} (h : ReachedArea L rb A)
    (hf : ∀ b, SameExtent b (f b)) : ReachedArea L rb (A.modBuffer a f) := by
  rcases h with h | ⟨h1, h2, h3⟩
  · exact Or.inl (h.step (.fill a f) hf)
  · exact Or.inr ⟨by simp [BinderArea.modBuffer, setBuffer, h1], h2, h3⟩

theorem ReachedArea.free {env : PageEnv} (h : ReachedArea L rb A)
    (ha : a ∈ addrsWhere (!·.free) A.buffers) : ReachedArea L rb (binderFreeBuf L rb A a env) := by
  rcases h with h | ⟨h1, -, -⟩
  · exact Or.inl (h.step (.free a env) ha)
  · simp [h1, addrsWhere] at ha

theorem ReachedArea.alloc {env : PageEnv} {d o : ℕ} {isAsync : Bool} (h : ReachedArea L rb A)
    (hd : d < L.sizes) (ho : o < L.sizes) :
    ReachedArea L rb (binderAllocBuf L rb A env d o isAsync).1 := by
  rcases h with h | ⟨h1, h2, h3⟩
  · exact Or.inl (h.step (.alloc d o isAsync env) ⟨hd, ho⟩)
  · rw [binderAllocBuf, if_pos (by simp [h3])]
    exact Or.inr ⟨h1, h2, h3⟩

theorem ReachedArea.vmaClose (h : ReachedArea L rb A) : ReachedArea L rb { A with vma := false } := by
  rcases h with h | ⟨h1, h2, -⟩
  · exact Or.inl (h.step .vmaClose trivial)
  · exact Or.inr ⟨h1, h2, rfl⟩

namespace AreasKept

theorem refl (s : Driver) : AreasKept L rb s s := id

theorem trans (h : AreasKept L rb s s') (h' : AreasKept L rb s' s'') : AreasKept L rb s s'' :=
  fun hs => h' (h hs)

theorem ite {c : Prop} [Decidable c] (h : AreasKept L rb s s') (h' : AreasKept L rb s s'') :
    AreasKept L rb s (if c then s' else s'') := by
  split_ifs <;> assumption

theorem foldl {α : Type*} {f : Driver → α → Driver} {l : List α}
    (hf : ∀ s, ∀ a ∈ l, AreasKept L rb s (f s a)) (s : Driver) : AreasKept L rb s (l.foldl f s) := by
  induction l generalizing s with
  | nil => exact .refl s
  | cons a l ih => exact (hf s a (by simp)).trans (ih (fun s b hb => hf s b (by simp [hb])) _)

/-- Anything but the processes changes. -/
theorem rest (h : s'.proc = s.proc) : AreasKept L rb s s' := by
  intro hs p
  rw [h]
  exact hs p

/-- What follows a change of anything but the processes. -/
theorem after (h : AreasKept L rb s' s'') (h' : s'.proc = s.proc) : AreasKept L rb s s'' :=
  (rest h').trans h

/-- The area of `p` changes. -/
theorem setProc {f : BinderProc → BinderProc}
    (hf : ReachedArea L rb (s.proc.get p).area → ReachedArea L rb (f (s.proc.get p)).area) :
    AreasKept L rb s (s.modProc p f) := by
  intro hs q
  simp only [Driver.modProc, Heap.get_modify]
  split_ifs
  · exact hf (hs p)
  · exact hs q

/-- Anything but the area of `p` changes. -/
theorem modProc {f : BinderProc → BinderProc} (hf : ∀ x, (f x).area = x.area) :
    AreasKept L rb s (s.modProc p f) := by
  apply setProc
  intro h
  rw [hf]
  exact h

theorem modBuffer {f : BinderBuffer → BinderBuffer} (b : ℕ × ℕ) (hf : ∀ B, SameExtent B (f B)) :
    AreasKept L rb s (s.modBuffer b f) := setProc fun h => h.fill hf

theorem freeBuf {env : PageEnv} (ha : a ∈ addrsWhere (!·.free) (s.proc.get p).area.buffers) :
    AreasKept L rb s (s.modProc p fun x => { x with area := binderFreeBuf L rb x.area a env }) :=
  setProc fun h => h.free ha

end AreasKept

/-! The functions -/

/-- A buffer forgets its transaction. -/
theorem sameExtent_forget (B : BinderBuffer) : SameExtent B { B with transaction := none } :=
  ⟨rfl, rfl, rfl, rfl, rfl⟩

section

variable (s) (T t p)

theorem forgetTransaction_areas (o : Option (ℕ × ℕ)) : AreasKept L rb s (forgetTransaction s o) := by
  cases o with
  | none => exact .refl s
  | some b => exact .modBuffer b sameExtent_forget

theorem freeTransaction_areas : AreasKept L rb s (freeTransaction s t) :=
  (forgetTransaction_areas s _).trans (.rest rfl)

theorem binderPopTransaction_areas (o : Option ℕ) : AreasKept L rb s (binderPopTransaction s o t) := by
  unfold binderPopTransaction
  refine AreasKept.trans ?_ (freeTransaction_areas _ t)
  cases o with
  | none => exact .rest rfl
  | some T => exact .rest rfl

theorem failSender_areas (e : ReturnError) : AreasKept L rb s (failSender s T t e) := by
  unfold failSender
  refine AreasKept.ite ?_ (.rest rfl)
  refine AreasKept.trans ?_ (.rest rfl)
  exact (binderPopTransaction_areas (s.modThread T .shiftError) t (some T)).after rfl

theorem failUpwards_areas (e : ReturnError) (k : ℕ) : AreasKept L rb s (failUpwards e k s t) := by
  induction k generalizing s t with
  | zero => exact .refl s
  | succ k ih =>
    unfold failUpwards
    split
    · exact failSender_areas s _ t e
    · dsimp only
      split
      · exact binderPopTransaction_areas s t none
      · exact (binderPopTransaction_areas s t none).trans (ih _ _)

theorem binderSendFailedReply_areas (e : ReturnError) : AreasKept L rb s (binderSendFailedReply s t e) :=
  (failUpwards_areas _ t e _).after rfl

theorem releaseItem_areas (w : Work) : AreasKept L rb s (releaseItem s w) := by
  cases w with
  | transaction t =>
    refine AreasKept.ite ?_ ?_
    · exact (binderSendFailedReply_areas _ t _).after rfl
    · exact (freeTransaction_areas _ t).after rfl
  | transactionComplete t => exact .refl s
  | node n => exact .refl s
  | death d =>
    rw [releaseItem]
    split <;> exact .rest rfl

theorem binderReleaseWork_areas (l : ListHead) : AreasKept L rb s (binderReleaseWork s l) := by
  have hloop : ∀ (k : ℕ) (s : Driver), AreasKept L rb s (releaseWorkLoop l k s) := by
    intro k
    induction k with
    | zero => exact fun s => .refl s
    | succ k ih =>
      intro s
      unfold releaseWorkLoop
      split
      · exact .refl s
      · refine AreasKept.trans ?_ (ih _)
        exact (releaseItem_areas _ _).after rfl
  exact hloop _ s

theorem leaveTransactions_areas (k : ℕ) (o : Option ℕ) :
    AreasKept L rb s (leaveTransactions T k s o) := by
  induction k generalizing s o with
  | zero => cases o <;> exact .refl s
  | succ k ih =>
    cases o with
    | none => exact .refl s
    | some t =>
      unfold leaveTransactions
      refine AreasKept.ite ?_ (.ite ?_ (.rest rfl))
      · refine AreasKept.trans ?_ (ih _ _)
        exact (forgetTransaction_areas s (s.txn.get t).buffer).trans (.rest rfl)
      · exact (ih _ _).after rfl

theorem binderFreeThread_areas : AreasKept L rb s (binderFreeThread s T) := by
  unfold binderFreeThread
  refine AreasKept.trans ?_ (.rest rfl)
  refine AreasKept.trans ?_ (binderReleaseWork_areas _ _)
  have h : AreasKept L rb s (leaveTransactions T s.txn.next
      (s.modProc (s.thread.get T).proc fun p => { p with threads := p.threads.erase T })
      (s.thread.get T).transactionStack) := by
    refine AreasKept.trans ?_ (leaveTransactions_areas _ T _ _)
    exact .modProc fun _ => rfl
  split
  · exact h.trans (binderSendFailedReply_areas _ _ _)
  · exact h

theorem releaseNode_areas (n : ℕ) : AreasKept L rb s (releaseNode p s n) := by
  unfold releaseNode binderNodeRelease
  refine AreasKept.trans ?_ (.rest rfl)
  exact (binderReleaseWork_areas _ _).after rfl

theorem detachBuffer_areas (b : ℕ × ℕ) : AreasKept L rb s (detachBuffer s b) := by
  unfold detachBuffer
  split
  · exact (AreasKept.modBuffer b sameExtent_forget).after rfl
  · exact .refl s

end

/-! Freeing all that a process has -/

/-- An allocated buffer. -/
def Driver.Taken (s : Driver) (b : ℕ × ℕ) : Prop :=
  b.2 ∈ addrsWhere (!·.free) (s.proc.get b.1).area.buffers

theorem Driver.Taken.inv {b : ℕ × ℕ} (hs : s.AreasReached L rb) (h : s.Taken b) :
    AreaInv L (s.proc.get b.1).area := by
  apply (hs b.1).inv
  intro hnil
  simp [Driver.Taken, hnil, addrsWhere] at h

theorem mem_taken_modBuffer {A : BinderArea} {a' : ℕ} {f : BinderBuffer → BinderBuffer}
    (hf : ∀ B, SameExtent B (f B)) : a ∈ addrsWhere (!·.free) (A.modBuffer a' f).buffers ↔
      a ∈ addrsWhere (!·.free) A.buffers := by
  have hsame : ∀ B : BinderBuffer, (if B.addr = a' then f B else B).free = B.free ∧
      (if B.addr = a' then f B else B).addr = B.addr := by
    intro B
    split_ifs
    · exact ⟨(hf B).free, (hf B).addr⟩
    · exact ⟨rfl, rfl⟩
  simp only [mem_addrsWhere, BinderArea.modBuffer, setBuffer, List.mem_map]
  constructor
  · rintro ⟨-, ⟨B, hB, rfl⟩, hfree, haddr⟩
    rw [(hsame B).1] at hfree
    exact ⟨B, hB, hfree, (hsame B).2.symm.trans haddr⟩
  · rintro ⟨B, hB, hfree, haddr⟩
    refine ⟨_, ⟨B, hB, rfl⟩, ?_, (hsame B).2.trans haddr⟩
    rw [(hsame B).1]
    exact hfree

theorem taken_modBuffer {b c : ℕ × ℕ} {f : BinderBuffer → BinderBuffer} (hf : ∀ B, SameExtent B (f B)) :
    (s.modBuffer c f).Taken b ↔ s.Taken b := by
  simp only [Driver.Taken, Driver.modBuffer, Driver.modProc, Heap.get_modify]
  split_ifs with h
  · rw [h]
    exact mem_taken_modBuffer hf
  · exact Iff.rfl

/-- The other buffers stay allocated. -/
theorem taken_freeBuf {A : BinderArea} {a' : ℕ} {env : PageEnv} (hi : AreaInv L A)
    (ha : a ∈ addrsWhere (!·.free) A.buffers) (ha' : a' ∈ addrsWhere (!·.free) A.buffers) (hne : a' ≠ a) :
    a' ∈ addrsWhere (!·.free) (binderFreeBuf L rb A a env).buffers := by
  obtain ⟨B, hB, hfree, rfl⟩ := mem_addrsWhere.1 ha
  obtain ⟨C, hC, hCfree, rfl⟩ := mem_addrsWhere.1 ha'
  have hlive := hi.liveAt_eq hB (by simpa using hfree)
  have hbufs := binderFreeBuf_liveBuffers (R := rb) (E := env) hi (Option.isSome_iff_exists.2 ⟨B, hlive⟩)
  have hmem : C ∈ liveBuffers (binderFreeBuf L rb A B.addr env).buffers := by
    rw [hbufs]
    exact List.mem_filter.2 ⟨List.mem_filter.2 ⟨hC, hCfree⟩, decide_eq_true hne⟩
  exact List.mem_map.2 ⟨C, hmem, rfl⟩

theorem detach_taken {b c : ℕ × ℕ} : (detachBuffer s c).Taken b ↔ s.Taken b := by
  unfold detachBuffer
  split
  · exact taken_modBuffer (s := s.modTxn _ _) sameExtent_forget
  · exact Iff.rfl

theorem releaseBuffer_eq (env : ℕ → PageEnv) : releaseBuffer L rb env p s a =
    (detachBuffer s (p, a)).modProc p fun x => { x with area := binderFreeBuf L rb x.area a (env a) } := rfl

theorem releaseBuffers_areas (env : ℕ → PageEnv) {l : List ℕ} (hl : l.Nodup)
    (ht : ∀ a ∈ l, s.Taken (p, a)) : AreasKept L rb s (l.foldl (releaseBuffer L rb env p) s) := by
  induction l generalizing s with
  | nil => exact .refl s
  | cons a l ih =>
    intro hs
    have hta : (detachBuffer s (p, a)).Taken (p, a) := detach_taken.2 (ht a (by simp))
    have hs₁ := detachBuffer_areas s (p, a) hs
    have hs₂ : (releaseBuffer L rb env p s a).AreasReached L rb := AreasKept.freeBuf hta hs₁
    refine ih (List.nodup_cons.1 hl).2 (fun a' ha' => ?_) hs₂
    have hne : a' ≠ a := fun he => (List.nodup_cons.1 hl).1 (he ▸ ha')
    have hta' : (detachBuffer s (p, a)).Taken (p, a') := detach_taken.2 (ht a' (by simp [ha']))
    rw [releaseBuffer_eq]
    simp only [Driver.Taken, Driver.modProc, Heap.get_modify_self]
    exact taken_freeBuf (hta.inv hs₁) hta hta' hne

/-- Every buffer in the tree is allocated, and none is there twice. -/
theorem allocated_taken (hs : s.AreasReached L rb) (p : ℕ) :
    (s.proc.get p).area.allocatedBuffers.inorder.Nodup ∧
      ∀ a ∈ (s.proc.get p).area.allocatedBuffers.inorder, s.Taken (p, a) := by
  rcases hs p with h | ⟨-, h, -⟩
  · have hi := areaReach_inv h
    refine ⟨?_, fun a ha => ?_⟩
    · exact (hi.represents.allocatedOrder.imp fun h => Nat.ne_of_lt h)
    · rw [Driver.Taken, ← hi.allocTree]
      exact ha
  · rw [h]
    exact ⟨List.nodup_nil, fun a ha => absurd ha List.not_mem_nil⟩

/-- `binder_deferred_release` up to the buffers. -/
def beforeBuffers (s : Driver) (p : ℕ) : Driver :=
  let s := (s.proc.get p).threads.foldl binderFreeThread (releaseStart s p)
  let s := (s.obj.own p).nodes.foldl (releaseNode p) s
  let s := s.modObj fun o => (o.own p).refsByDesc.foldl binderDeleteRef o
  binderReleaseWork (binderReleaseWork s (.procTodo p)) (.deliveredDeath p)

theorem binderDeferredRelease_eq (env : ℕ → PageEnv) : binderDeferredRelease L rb env s p =
    (((beforeBuffers s p).proc.get p).area.allocatedBuffers.inorder.foldl (releaseBuffer L rb env p)
      (beforeBuffers s p)).modProc p fun x => { x with released := true } := rfl

theorem beforeBuffers_areas (s : Driver) (p : ℕ) : AreasKept L rb s (beforeBuffers s p) := by
  unfold beforeBuffers
  refine AreasKept.trans ?_ (binderReleaseWork_areas _ _)
  refine AreasKept.trans ?_ (binderReleaseWork_areas _ _)
  refine AreasKept.trans ?_ (.rest rfl)
  refine AreasKept.trans ?_ (.foldl (fun s n _ => releaseNode_areas s p n) _)
  refine AreasKept.trans ?_ (.foldl (fun s T _ => binderFreeThread_areas s T) _)
  exact .rest rfl

theorem binderDeferredRelease_areas (s : Driver) (p : ℕ) (env : ℕ → PageEnv) :
    AreasKept L rb s (binderDeferredRelease L rb env s p) := by
  rw [binderDeferredRelease_eq]
  refine AreasKept.trans ?_ (.modProc fun _ => rfl)
  intro hs
  have h := beforeBuffers_areas s p hs
  obtain ⟨hnodup, htaken⟩ := allocated_taken h p
  exact releaseBuffers_areas env hnodup htaken h

theorem binderDeferredFunc_areas (s : Driver) (p : ℕ) (env : ℕ → PageEnv) :
    AreasKept L rb s (binderDeferredFunc L rb env s p) := by
  have hflush : ∀ s : Driver, AreasKept L rb s (binderDeferredFlush s p) := by
    intro s
    refine AreasKept.foldl (fun s T _ => ?_) s
    exact .rest rfl
  have hbefore : AreasKept L rb s (beforeRelease s p) := by
    unfold beforeRelease
    refine AreasKept.trans ?_ (.ite (hflush _) (.refl _))
    have hproc : AreasKept L rb s (s.modProc p fun x => { x with deferred := {} }) := .modProc fun _ => rfl
    exact hproc.trans (.ite (.rest rfl) (.refl _))
  rw [binderDeferredFunc_eq]
  exact .ite (hbefore.trans (binderDeferredRelease_areas _ p env)) hbefore

/-! Transactions -/

/-- What the allocator has handed out is allocated. -/
theorem ReachedArea.handed {env : PageEnv} {d o : ℕ} {isAsync : Bool} (h : ReachedArea L rb A)
    (hd : d < L.sizes) (ho : o < L.sizes) {r : BinderArea × Option ℕ}
    (hr : binderAllocBuf L rb A env d o isAsync = r) (ha : r.2 = some a) :
    a ∈ addrsWhere (!·.free) r.1.buffers := by
  rcases h with h | ⟨-, -, hv⟩
  · have hr' : binderAllocBuf L rb A env d o isAsync = (r.1, some a) := by rw [hr, ← ha]
    obtain ⟨B, hB, -⟩ := (binderAllocBuf_handed (areaReach_inv h) hd ho hr').1.at_eq
    exact mem_allocated hB
  · rw [binderAllocBuf, if_pos (by simp [hv])] at hr
    subst hr
    exact absurd ha.symm (Option.some_ne_none _)

theorem failTransaction_areas (s : Driver) (T : ℕ) (f : Failure) :
    AreasKept L rb s (failTransaction s T f) := by
  unfold failTransaction
  dsimp only
  split
  · exact (binderSendFailedReply_areas _ _ _).after rfl
  · exact .rest rfl

theorem replyTarget_areas (s : Driver) (T : ℕ) : AreasKept L rb s (replyTarget s T).1 := by
  unfold replyTarget
  split
  · exact .refl s
  · dsimp only
    split_ifs
    · exact .refl s
    · split
      · exact .rest rfl
      · split_ifs <;> exact .rest rfl

theorem queueTransaction_areas (s : Driver) (T t : ℕ) (target : Target) :
    AreasKept L rb s (queueTransaction s T t target) := by
  unfold queueTransaction
  dsimp only
  refine AreasKept.trans ?_ (.rest rfl)
  split
  · dsimp only
    refine AreasKept.trans ?_ (.rest rfl)
    exact (binderPopTransaction_areas _ _ _).after rfl
  · split_ifs
    · exact .rest rfl
    · split
      · exact .rest rfl
      · split_ifs <;> exact .rest rfl

theorem sameExtent_fill (tr : TransactionData) (target : Target) (t : ℕ) (B : BinderBuffer) :
    SameExtent B (fillBuffer tr target t B) := ⟨rfl, rfl, rfl, rfl, rfl⟩

theorem sameExtent_data (data : List ℕ) (B : BinderBuffer) : SameExtent B { B with data := data } :=
  ⟨rfl, rfl, rfl, rfl, rfl⟩

theorem placeBuffer_areas (s : Driver) (tr : TransactionData) (target : Target) (t : ℕ) {A : BinderArea}
    (a : ℕ) (hA : ReachedArea L rb (s.proc.get target.proc).area → ReachedArea L rb A) :
    AreasKept L rb s (placeBuffer s tr target t A a) := by
  unfold placeBuffer
  refine AreasKept.trans ?_ (.rest rfl)
  refine AreasKept.trans ?_ (.modBuffer _ (sameExtent_fill tr target t))
  refine AreasKept.trans ?_ (.rest rfl)
  exact .setProc (f := fun x => { x with area := A }) hA

theorem placeBuffer_taken (s : Driver) (tr : TransactionData) (target : Target) (t : ℕ) {A : BinderArea}
    (ha : a ∈ addrsWhere (!·.free) A.buffers) : (placeBuffer s tr target t A a).Taken (target.proc, a) := by
  refine (taken_modBuffer (s := (s.modProc target.proc fun p => { p with area := A }).modTxn t fun x =>
    { x with buffer := some (target.proc, a) }) (sameExtent_fill tr target t)).2 ?_
  simp only [Driver.Taken, Driver.modTxn, Driver.modProc, Heap.get_modify_self]
  exact ha

theorem undoBuffer_areas (s : Driver) (T t : ℕ) (env : TransactionEnv) (target : Target)
    (b : BinderBuffer) (k : ℕ) (ha : s.Taken (target.proc, a)) :
    AreasKept L rb s (undoBuffer L rb s T t env target a b k) := by
  unfold undoBuffer
  refine AreasKept.trans ?_ (failTransaction_areas _ T _)
  refine AreasKept.trans ?_ (.rest rfl)
  refine AreasKept.trans ?_ (.freeBuf ?_)
  · exact (AreasKept.modBuffer _ sameExtent_forget).after rfl
  · exact (taken_modBuffer (s := s.modObj _) sameExtent_forget).2 ha

theorem deliverBuffer_areas (s : Driver) (T t : ℕ) (tr : TransactionData) (env : TransactionEnv)
    (target : Target) (b : BinderBuffer) (ha : s.Taken (target.proc, a)) :
    AreasKept L rb s (deliverBuffer L rb s T t tr env target a b) := by
  unfold deliverBuffer
  dsimp only
  have hdata : AreasKept L rb s ((s.modObj fun _ => (translateBuffer L s.obj (transferOf s T target) env
      tr b).1).modBuffer (target.proc, a) fun B => { B with
        data := (translateBuffer L s.obj (transferOf s T target) env tr b).2.1 }) :=
    (AreasKept.modBuffer _ (sameExtent_data _)).after rfl
  split
  · exact hdata.trans (queueTransaction_areas _ T t target)
  · refine hdata.trans (undoBuffer_areas _ T t env target _ _ ?_)
    exact (taken_modBuffer (s := s.modObj _) (sameExtent_data _)).2 ha

theorem sendTransaction_areas (s : Driver) (T : ℕ) (tr : TransactionData) (env : TransactionEnv)
    (target : Target) (hd : tr.dataSize < L.sizes) (ho : tr.offsetsSize < L.sizes) :
    AreasKept L rb s (sendTransaction L rb s T tr env target) := by
  rw [sendTransaction_eq]
  refine AreasKept.ite (failTransaction_areas s T _) ?_
  dsimp only
  intro hs
  generalize hr : binderAllocBuf L rb (s.proc.get target.proc).area env.alloc tr.dataSize
    tr.offsetsSize (!target.inReplyTo.isSome && tr.flags.oneWay) = r
  have hA : ReachedArea L rb r.1 := hr ▸ (hs target.proc).alloc hd ho
  have htaken : ∀ a, r.2 = some a → a ∈ addrsWhere (!·.free) r.1.buffers := fun a ha =>
    (hs target.proc).handed hd ho hr ha
  revert hs
  split
  · refine AreasKept.trans ?_ (failTransaction_areas _ T _)
    refine AreasKept.trans ?_ (.rest rfl)
    exact (AreasKept.setProc (f := fun x => { x with area := r.1 }) fun _ => hA).after rfl
  · rename_i a hsome
    have hplace : AreasKept L rb { s with txn := s.txn.alloc (newTransaction T tr target) } _ :=
      placeBuffer_areas _ tr target s.txn.next a fun _ => hA
    split
    · exact hplace.after rfl
    · refine (hplace.trans (deliverBuffer_areas _ T _ tr env target _ ?_)).after rfl
      exact placeBuffer_taken _ tr target _ (htaken a hsome)

theorem binderTransaction_areas (s : Driver) (T : ℕ) (tr : TransactionData) (reply : Bool)
    (env : TransactionEnv) (hd : tr.dataSize < L.sizes) (ho : tr.offsetsSize < L.sizes) :
    AreasKept L rb s (binderTransaction L rb s T tr reply env) := by
  have h : AreasKept L rb s (if reply then replyTarget s T else (s, callTarget s T tr)).1 := by
    cases reply
    · exact .refl s
    · exact replyTarget_areas s T
  unfold binderTransaction
  split
  · rename_i he
    rw [he] at h
    exact h.trans (failTransaction_areas _ T _)
  · rename_i he
    rw [he] at h
    exact h.trans (sendTransaction_areas _ T tr env _ hd ho)

/-! The other commands -/

theorem freeBuffer_areas (s : Driver) (T a : ℕ) (env : PageEnv) :
    AreasKept L rb s (freeBuffer L rb s T a env) := by
  unfold freeBuffer
  dsimp only
  split
  · exact .refl s
  · rename_i b hb
    refine AreasKept.ite (.refl s) ?_
    intro hs
    obtain ⟨a', hlookup, -⟩ := Option.bind_eq_some_iff.1 hb
    have hta := (allocated_taken hs (s.thread.get T).proc).2 a (binderBufferLookup_mem hlookup).2
    have htaken := (detach_taken (c := ((s.thread.get T).proc, a))).2 hta
    revert hs
    refine AreasKept.trans ?_ (.freeBuf ?_)
    · refine AreasKept.trans ?_ (.rest rfl)
      exact (detachBuffer_areas s _).trans (.ite (.rest rfl) (.refl _))
    · split_ifs <;> exact htaken

theorem writeCommand_areas (s : Driver) (T : ℕ) (env : CommandEnv) (c : Command) (hc : c.sized L = true) :
    AreasKept L rb s (writeCommand L rb s T env c) := by
  refine AreasKept.ite ?_ (.refl s)
  cases c with
  | ref c target => exact .rest rfl
  | refDone strong ptr cookie => exact .rest rfl
  | freeBuffer a => exact freeBuffer_areas s T a env.free
  | transaction tr =>
    simp only [Command.sized, Bool.and_eq_true, decide_eq_true_eq] at hc
    exact binderTransaction_areas s T tr false env.transaction hc.1 hc.2
  | reply tr =>
    simp only [Command.sized, Bool.and_eq_true, decide_eq_true_eq] at hc
    exact binderTransaction_areas s T tr true env.transaction hc.1 hc.2
  | registerLooper =>
    change AreasKept L rb s (Binder.registerLooper s T)
    unfold Binder.registerLooper
    dsimp only
    refine AreasKept.trans ?_ (.rest rfl)
    exact .ite (.rest rfl) (.ite (.rest rfl) (.modProc fun _ => rfl))
  | enterLooper | exitLooper => exact .rest rfl
  | requestDeathNotification target cookie =>
    change AreasKept L rb s (Binder.requestDeathNotification s T target cookie env.kzalloc)
    unfold Binder.requestDeathNotification
    dsimp only
    split
    · exact .refl s
    · split_ifs <;> exact .rest rfl
  | clearDeathNotification target cookie =>
    change AreasKept L rb s (Binder.clearDeathNotification s T target cookie)
    unfold Binder.clearDeathNotification
    dsimp only
    split
    · exact .refl s
    · split
      · exact .refl s
      · split_ifs <;> exact .rest rfl
  | deadBinderDone cookie =>
    change AreasKept L rb s (Binder.deadBinderDone s T cookie)
    unfold Binder.deadBinderDone
    dsimp only
    split
    · exact .refl s
    · split_ifs <;> exact .rest rfl

/-! Reading -/

variable {fault : ℕ → Bool}

theorem readDone_areas (s : Driver) (T ptr : ℕ) : AreasKept L rb s (readDone s T ptr fault) := by
  unfold readDone
  dsimp only
  refine AreasKept.ite ?_ (.rest rfl)
  have h : AreasKept L rb s (s.modProc (s.thread.get T).proc fun p =>
      { p with requestedThreads := p.requestedThreads + 1 }) := .modProc fun _ => rfl
  exact .ite h (h.trans (.rest rfl))

theorem reportErrors_areas (s : Driver) (T size ptr : ℕ) :
    AreasKept L rb s (reportErrors s T size ptr fault) := by
  unfold reportErrors
  dsimp only
  split_ifs
  · exact .refl s
  · exact (readDone_areas _ T _).after rfl
  · exact .refl s
  · exact (readDone_areas _ T _).after rfl
  · exact .rest rfl
  · exact (readDone_areas _ T _).after rfl

theorem waitForWork_areas (s : Driver) (T size ptr : ℕ) (nonBlock : Bool) :
    AreasKept L rb s (waitForWork s T size ptr nonBlock fault) := by
  unfold waitForWork
  refine AreasKept.ite (reportErrors_areas s T size ptr) ?_
  refine AreasKept.trans ?_ (.rest rfl)
  exact .ite (.modProc fun _ => rfl) (.refl s)

theorem stopWaiting_areas (s : Driver) (T : ℕ) (f : ReadFrame) :
    AreasKept L rb s (stopWaiting s T f) := by
  unfold stopWaiting
  refine AreasKept.trans ?_ (.rest rfl)
  exact .ite (.modProc fun _ => rfl) (.refl s)

theorem readTransaction_areas (s : Driver) (T t ptr : ℕ) :
    AreasKept L rb s (readTransaction s T t ptr fault).1 := by
  unfold readTransaction
  dsimp only
  split
  · exact .rest rfl
  · dsimp only
    have hallow : ∀ (s' : Driver) (o : Option (ℕ × ℕ)), s'.proc = s.proc → AreasKept L rb s (o.elim s' fun b =>
        s'.modBuffer b fun b => { b with allowUserFree := true }) := by
      intro s' o hs'
      cases o with
      | none => exact .rest hs'
      | some b =>
        exact (AreasKept.modBuffer (f := fun B => { B with allowUserFree := true }) b fun _ =>
          ⟨rfl, rfl, rfl, rfl, rfl⟩).after hs'
    refine AreasKept.trans (hallow _ (s.txn.get t).buffer ?_) (.ite (.rest rfl) (freeTransaction_areas _ t))
    rfl

theorem readItem_areas (s : Driver) (T : ℕ) (w : Work) (ptr : ℕ) :
    AreasKept L rb s (readItem s T ptr fault w).1 := by
  cases w with
  | transaction t => exact readTransaction_areas s T t ptr
  | transactionComplete t =>
    simp only [readItem]
    split_ifs
    · exact .refl s
    · exact .rest rfl
  | node n =>
    simp only [readItem, readNode]
    split
    · split_ifs <;> exact .rest rfl
    · exact .rest rfl
  | death d =>
    simp only [readItem, readDeath]
    split
    · exact .refl s
    · split_ifs <;> exact .rest rfl

theorem readLoop_areas (s : Driver) (T : ℕ) (f : ReadFrame) (k ptr : ℕ) :
    AreasKept L rb s (readLoop L T f fault k s ptr) := by
  induction k generalizing s ptr with
  | zero => exact .refl s
  | succ k ih =>
    unfold readLoop
    split
    · exact .ite (waitForWork_areas s T _ _ _) (readDone_areas s T _)
    · rename_i w _
      refine AreasKept.ite (readDone_areas s T _) ?_
      have hitem : AreasKept L rb s (readItem s T ptr fault w).1 := readItem_areas s T w ptr
      split
      · rename_i he
        rw [he] at hitem
        exact hitem.trans (ih _ _)
      · rename_i he
        rw [he] at hitem
        exact hitem
      · rename_i he
        rw [he] at hitem
        exact hitem.trans (readDone_areas _ T _)

/-! Every step -/

theorem apply_areas {a : Action} (ha : a.enabled L s = true) : AreasKept L rb s (a.apply L rb s) := by
  cases a with
  | openProc pid =>
    intro hs q
    simp only [Action.apply, binderOpen, Heap.get_alloc]
    split_ifs
    · exact Or.inr ⟨rfl, rfl, rfl⟩
    · exact hs q
  | getThread p pid =>
    refine AreasKept.ite (.refl s) ?_
    refine AreasKept.trans (.rest rfl) (.modProc fun _ => rfl)
  | mmap p base size env =>
    simp only [Action.enabled, Bool.and_eq_true, decide_eq_true_eq] at ha
    simp only [Action.apply, driverMmap]
    split_ifs
    · exact .refl s
    · split
      · exact .refl s
      · rename_i A hA
        refine AreasKept.trans ?_ (.rest rfl)
        exact .setProc (f := fun x => { x with area := A }) fun _ => Or.inl (.start ⟨_, _, _, ha.2, hA⟩)
  | vmaClose p => exact .setProc fun h => h.vmaClose
  | flush p => exact .modProc fun _ => rfl
  | close p => exact .modProc fun _ => rfl
  | deferredFunc p env => exact binderDeferredFunc_areas s p env
  | write T c env =>
    simp only [Action.enabled, Bool.and_eq_true] at ha
    exact writeCommand_areas s T env c ha.2
  | read T size consumed nonBlock fault =>
    simp only [Action.apply, binderThreadRead]
    split_ifs
    · exact .refl s
    · exact waitForWork_areas s T _ _ _
    · exact waitForWork_areas s T _ _ _
  | lookForWork T =>
    simp only [Action.apply, Binder.lookForWork]
    split
    · exact .refl s
    · split_ifs
      · exact .refl s
      · exact .rest rfl
      · exact .refl s
  | resume T fault =>
    simp only [Action.apply, resumeRead]
    split
    · exact .refl s
    · split
      · exact .refl s
      · exact stopWaiting_areas s T _
      · exact (stopWaiting_areas s T _).trans (readLoop_areas _ T _ _ _)
  | interrupt T =>
    simp only [Action.apply, interruptRead]
    split
    · exact .refl s
    · exact .ite (.refl s) (stopWaiting_areas s T _)
  | ioctlDone T => exact .rest rfl
  | setMaxThreads T n => exact .modProc fun _ => rfl
  | setContextMgr T euid kzalloc =>
    simp only [Action.apply, setCtxMgr]
    split_ifs
    · exact .refl s
    · exact .rest rfl
  | threadExit T => exact binderFreeThread_areas s T

theorem areasReached_reach (h : (driverMachine L rb).Reach (fun _ _ => True) s) : s.AreasReached L rb := by
  refine h.invariant (I := Driver.AreasReached L rb) (fun s hs => ?_) fun s a hi _ => ?_
  · cases hs
    exact fun p => Or.inr ⟨rfl, rfl, rfl⟩
  · by_cases ha : a.enabled L s = true
    · rw [show (driverMachine L rb).step s a = a.apply L rb s from if_pos ha]
      exact apply_areas ha hi
    · rw [show (driverMachine L rb).step s a = s from if_neg ha]
      exact hi

/-- What the results on the allocator say of the area of a process. -/
structure AreaSound (L : Layout) (rb : RbTree ℕ) (A : BinderArea) : Prop where
  reached : ReachedArea L rb A
  represents : A.buffers ≠ [] → AreaRepresents L A
  resident : A.buffers ≠ [] → PagesResident L rb A
  quota : A.buffers ≠ [] → Quota L A

/-- A run of the driver is a run of the allocator for each process. -/
theorem areas_reach (h : (driverMachine L rb).Reach (fun _ _ => True) s) (p : ℕ) :
    AreaSound L rb (s.proc.get p).area := by
  have hr := areasReached_reach h p
  have hreach : (s.proc.get p).area.buffers ≠ [] → AreaReach L rb (s.proc.get p).area := fun hne =>
    hr.resolve_right fun hbare => hne hbare.1
  refine ⟨hr, fun hne => ?_, fun hne => ?_, fun hne => areaReach_quota (hreach hne)⟩
  · exact (areaReach_inv (hreach hne)).represents
  · exact (areaReach_pages (hreach hne)).resident (areaReach_inv (hreach hne))

/-- The client of `callingClient` sends data as well, one way. -/
def twoCalls : List Action :=
  callingClient ++ [.write 1 (.transaction
    { dataSize := 12, data := [1, 2, 3], flags := { oneWay := true } }) {}]

theorem areas_reach_client : AreaSound layout32 .plain ((afterActions twoCalls).proc.get 0).area ∧
    ((afterActions twoCalls).proc.get 0).area.buffers.map (·.free) = [false, false, true] :=
  ⟨areas_reach (reach_afterActions twoCalls) 0, by decide +kernel⟩

/-! The memory of a transaction -/

/-- The data and the offsets of `B` fill the byte at `x`. -/
def Fills (L : Layout) (B : BinderBuffer) (x : ℕ) : Prop :=
  bufData L B.addr ≤ x ∧ x < bufData L B.addr + L.alignUp B.dataSize + L.alignUp B.offsetsSize

/-- The bytes of an allocated buffer are in the area, their pages are there, and they are bytes
neither of another allocated buffer nor of a header. -/
structure OwnMemory (L : Layout) (A : BinderArea) (B : BinderBuffer) : Prop where
  inside : ∀ x, Fills L B x → A.buffer ≤ x ∧ x < A.buffer + A.bufferSize
  resident : ∀ x, Fills L B x → A.pages ((x - A.buffer) / L.page) = true
  apart : ∀ C ∈ A.buffers, C.free = false → C.addr ≠ B.addr → ∀ x, Fills L B x → ¬Fills L C x
  headers : ∀ C ∈ A.buffers, ∀ x, Fills L B x → x < C.addr ∨ C.addr + L.hdr ≤ x

section

variable {A : BinderArea} {B C : BinderBuffer} {x : ℕ}

/-- A byte of `B` is in the gap behind the header of `B`. -/
theorem AreaInv.fills_lt (hi : AreaInv L A) (hB : B ∈ A.buffers) (hf : B.free = false) (hx : Fills L B x) :
    x < bufData L B.addr + binderBufferSize L A B.addr := by
  have hholds := hi.represents.holds B hB hf
  have hlt := hx.2
  omega

theorem AreaInv.gap_le_limit (hi : AreaInv L A) (hB : B ∈ A.buffers) :
    bufData L B.addr + binderBufferSize L A B.addr ≤ A.limit := by
  obtain ⟨pre, post, hs⟩ := List.append_of_mem hB
  rw [hi.split_size hs]
  have htiled := hi.split_tiled L hs
  exact (htiled.suffix.sublist (List.sublist_cons_self _ _)).startOf_le_limit

/-- The gap behind another header does not contain a byte of `B`. -/
theorem AreaInv.fills_apart (hi : AreaInv L A) (hB : B ∈ A.buffers) (hC : C ∈ A.buffers)
    (hf : B.free = false) (hne : C.addr ≠ B.addr) (hx : Fills L B x) :
    x < C.addr ∨ bufData L C.addr + binderBufferSize L A C.addr ≤ x := by
  have hend := hi.fills_lt hB hf hx
  have hdis := hi.represents.disjoint
  have hbegin := hx.1
  rcases Nat.lt_or_gt_of_ne hne with hlt | hlt
  · have hle := hdis C hC B hB hlt
    unfold bufData at hbegin
    omega
  · have hle := hdis B hB C hC hlt
    omega

theorem AreaInv.fills_inside (hi : AreaInv L A) (hB : B ∈ A.buffers) (hf : B.free = false)
    (hx : Fills L B x) : A.buffer ≤ x ∧ x < A.buffer + A.bufferSize := by
  have hend := hi.fills_lt hB hf hx
  have hlimit := hi.gap_le_limit hB
  have hbase := hi.base_le L (List.mem_map_of_mem (f := (·.addr)) hB)
  have hbegin := hx.1
  unfold BinderArea.limit at hlimit
  unfold bufData at hbegin
  omega

/-- A page that is absent is inside the gap of a free buffer. -/
theorem AreaInv.fills_resident (hi : AreaInv L A) (hp : PagesInv L A) (hB : B ∈ A.buffers)
    (hf : B.free = false) (hx : Fills L B x) : A.pages ((x - A.buffer) / L.page) = true := by
  obtain ⟨hlow, hhigh⟩ := hi.fills_inside hB hf hx
  have hpage := L.page_pos
  have hdiv := Nat.div_add_mod' (x - A.buffer) L.page
  have hmod := Nat.mod_lt (x - A.buffer) hpage
  set i := (x - A.buffer) / L.page with hi'
  have hq : A.pageAddr L i = A.buffer + i * L.page := rfl
  by_contra habsent
  obtain ⟨C, hC, hCf, hdata⟩ := (hp.absent hi (i := i) (by omega)).1 (by simpa using habsent)
  obtain ⟨h1, h2⟩ := (inData_iff (hp.dvd_pageAddr i)).1 hdata
  have hne : C.addr ≠ B.addr := by
    intro he
    rw [hi.unique hB hC he, hf] at hCf
    exact Bool.false_ne_true hCf
  rcases hi.fills_apart hB hC hf hne hx with h | h <;> omega

theorem AreaInv.ownMemory (hi : AreaInv L A) (hp : PagesInv L A) (hB : B ∈ A.buffers)
    (hf : B.free = false) : OwnMemory L A B := by
  refine ⟨fun x hx => hi.fills_inside hB hf hx, fun x hx => hi.fills_resident hp hB hf hx,
    fun C hC hCf hne x hx hx' => ?_, fun C hC x hx => ?_⟩
  · have hend := hi.fills_lt hC hCf hx'
    have hbegin := hx'.1
    unfold bufData at hbegin
    rcases hi.fills_apart hB hC hf hne hx with h | h <;> omega
  · by_cases hne : C.addr = B.addr
    · have hbegin := hx.1
      unfold bufData at hbegin
      omega
    · rcases hi.fills_apart hB hC hf hne hx with h | h
      · exact Or.inl h
      · unfold bufData at h
        omega

end

/-- In every reached state the contents of a transaction are in memory that is mapped and that
nothing else uses. -/
theorem own_memory (h : (driverMachine L rb).Reach (fun _ _ => True) s) {p a : ℕ} {B : BinderBuffer}
    (hB : s.liveAt (p, a) = some B) : OwnMemory L (s.proc.get p).area B := by
  obtain ⟨hmem, hfree, -⟩ := liveAt_some (p := (s.proc.get p).area) hB
  have hne : (s.proc.get p).area.buffers ≠ [] := List.ne_nil_of_mem hmem
  have hreach := (areas_reach h p).reached.resolve_right fun hbare => hne hbare.1
  exact (areaReach_inv hreach).ownMemory (areaReach_pages hreach) hmem hfree

theorem own_memory_client : ∃ B, (afterActions twoCalls).liveAt (0, 0x10028) = some B ∧
    OwnMemory layout32 ((afterActions twoCalls).proc.get 0).area B := by
  have hsome : ((afterActions twoCalls).liveAt (0, 0x10028)).isSome = true := by decide +kernel
  obtain ⟨B, hB⟩ := Option.isSome_iff_exists.1 hsome
  exact ⟨B, hB, own_memory (reach_afterActions twoCalls) hB⟩

end Binder

import BinderIpc.Wire.Write
import BinderIpc.Alloc.Runs

/-! The driver executes the commands of a stream one after the other, over any
number of calls, exactly when no executed command is wider or narrower for the
driver than for its writer. -/

namespace Binder

variable {σ : Type*} {user kernel : PointerWidth} {h : Handler σ} {m : UserMemory}
  {fault : ℕ → Bool} {x : Written} {xs : List Written} {w : WriteState σ} {ptr size : ℕ}

/-! One command -/

theorem meant_binderDone (b : BitVec 64) :
    (Written.binderDone b).meant .eight = .freeBuffer b := by
  have hpow : 256 ^ PointerWidth.eight.bytes = 2 ^ 64 := by norm_num [PointerWidth.bytes]
  rw [Written.meant, hpow, Nat.mod_eq_of_lt b.isLt, BitVec.ofNat_toNat, BitVec.setWidth_eq]

theorem Written.four_le (x : Written) : 4 ≤ (x.bytes user).length := by
  cases x with
  | command c => rw [bytes, c.length_bytes]; omega
  | binderDone b => simp [bytes]

/-- A command that is not to be executed is not executed, whatever its width. -/
theorem readCommand_refused {e : Errno} (hs : Stored m.byte ptr (x.bytes user))
    (he : x.refusal user m.fault ptr = some e) : readCommand kernel m ptr = .error e := by
  cases x with
  | command c =>
    simp only [Written.refusal, Written.meant, Written.bytes, c.length_bytes,
      Nat.add_sub_cancel_left] at he
    rw [readCommand_stored hs]
    split_ifs at he ⊢ <;> cases he <;> rfl
  | binderDone b =>
    simp only [Written.refusal, Written.meant, BcCommand.unsupported, Written.bytes,
      List.length_append, length_le32, length_leBytes, Nat.add_sub_cancel_left] at he
    rw [Written.bytes, stored_append] at hs
    unfold readCommand UserMemory.getUser32 UserMemory.getUser64
    by_cases hf : faults m.fault ptr 4 = true
    · simp only [hf, if_true, Option.some.injEq] at he ⊢
      subst he
      rfl
    · simp only [hf, Bool.false_eq_true, if_false] at he ⊢
      split_ifs at he with hp
      obtain ⟨n, hn⟩ : ∃ n, 8 = user.bytes + n := by
        cases user
        · exact ⟨4, rfl⟩
        · exact ⟨0, rfl⟩
      have h8 : faults m.fault (ptr + 4) 8 = true := by rw [hn, faults_add, hp, Bool.true_or]
      cases he
      simp [bind, Except.bind, hs.1.word32_eq, BcCode.ofWord_word, h8]

theorem readCommand_fits (hs : Stored m.byte ptr (x.bytes user))
    (he : x.refusal user m.fault ptr = none) (hx : x.Fits user kernel) :
    readCommand kernel m ptr = .ok (x.meant user, ptr + (x.bytes user).length) := by
  have hcommand : ∀ c, Stored m.byte ptr c.bytes → (Written.command c).refusal user m.fault ptr = none →
      c.advance kernel = c.bytes.length →
      readCommand kernel m ptr = .ok (c, ptr + c.bytes.length) := by
    intro c hs he hc
    simp only [Written.refusal, Written.meant, Written.bytes, c.length_bytes,
      Nat.add_sub_cancel_left] at he
    rw [readCommand_stored hs]
    split_ifs at he ⊢
    rw [hc]
  cases x with
  | command c =>
    refine hcommand c hs he ?_
    cases c with
    | deadBinderDone cookie =>
      obtain rfl : kernel = .eight := hx
      simp [BcCommand.advance, BcCommand.bytes, BcCommand.payload, PointerWidth.bytes]
    | _ => rfl
  | binderDone b =>
    obtain rfl : user = .eight := hx
    rw [meant_binderDone]
    refine hcommand (.freeBuffer b) hs ?_ rfl
    rw [← he, Written.refusal, Written.refusal, meant_binderDone]
    rfl

theorem readCommand_advance {c : BcCommand} {n : ℕ} (hr : readCommand kernel m ptr = .ok (c, n)) :
    n = ptr + c.advance kernel := by
  unfold readCommand at hr
  simp only [bind, Except.bind] at hr
  split at hr
  · cases hr
  split at hr <;>
    (try simp only [getRef, getRefDone, getTransaction, getDeathRequest, bind, Except.bind, pure,
      Except.pure] at hr) <;>
    (repeat' split at hr) <;> cases hr <;>
    simp [BcCommand.advance, BcCommand.bytes, BcCommand.payload, Nat.add_assoc]

/-! Traces -/

/-- Every command of the trace left `f` more bytes behind it than the one before, from `a` on. -/
def Stamped (f : BcCommand → ℕ) : ℕ → List (BcCommand × ℕ) → ℕ → Prop
  | a, [], b => a = b
  | a, (c, e) :: l, b => e = a + f c ∧ Stamped f e l b

theorem Stamped.snoc {f : BcCommand → ℕ} {l : List (BcCommand × ℕ)} {a b : ℕ} (c : BcCommand)
    (hl : Stamped f a l b) : Stamped f a (l ++ [(c, b + f c)]) (b + f c) := by
  induction l generalizing a with
  | nil =>
    cases hl
    exact ⟨rfl, rfl⟩
  | cons e l ih => exact ⟨hl.1, ih hl.2⟩

/-- The trace of the commands `xs`, executed from `a` on. -/
def stamps (user : PointerWidth) : ℕ → List Written → List (BcCommand × ℕ)
  | _, [] => []
  | a, x :: xs =>
    (x.meant user, a + (x.bytes user).length) :: stamps user (a + (x.bytes user).length) xs

@[simp] theorem length_stamps (a : ℕ) : (stamps user a xs).length = xs.length := by
  induction xs generalizing a with
  | nil => rfl
  | cons x xs ih => simp [stamps, ih]

theorem stamps_append (a : ℕ) (xs ys : List Written) : stamps user a (xs ++ ys) =
    stamps user a xs ++ stamps user (a + (streamBytes user xs).length) ys := by
  induction xs generalizing a with
  | nil => rfl
  | cons x xs ih => simp [stamps, ih, streamBytes, Nat.add_assoc]

/-- The driver moves as far as the writer only where the two agree. -/
theorem Stamped.fits {a b : ℕ} (hs : Stamped (·.advance kernel) a (stamps user a xs) b) :
    ∀ x ∈ xs, x.Fits user kernel := by
  induction xs generalizing a with
  | nil => simp
  | cons x xs ih =>
    obtain ⟨h1, h2⟩ := hs
    have hx : x.Fits user kernel := by
      cases x with
      | command c =>
        cases c with
        | deadBinderDone cookie =>
          cases kernel
          · simp [BcCommand.advance, Written.meant, Written.bytes, BcCommand.bytes,
              BcCommand.payload, PointerWidth.bytes] at h1
          · rfl
        | _ => trivial
      | binderDone b =>
        cases user
        · simp [BcCommand.advance, Written.meant, Written.bytes, BcCommand.bytes,
            BcCommand.payload, PointerWidth.bytes] at h1
        · rfl
    rintro y (_ | ⟨_, hy⟩)
    · exact hx
    · exact ih h2 y hy

theorem writeLoop_stamped {a k : ℕ} (hw : Stamped (·.advance kernel) a w.trace w.consumed) :
    let r := (writeLoop kernel h m size k w).1
    Stamped (·.advance kernel) a r.trace r.consumed := by
  induction k generalizing w with
  | zero => exact hw
  | succ k ih =>
    unfold writeLoop
    split_ifs
    · split
      · exact hw
      · rename_i c n hr
        refine ih ?_
        rw [readCommand_advance hr]
        exact hw.snoc c
    · exact hw

/-! One call -/

theorem obey_stamps (user : PointerWidth) (h : Handler σ) (fault : ℕ → Bool) (xs : List Written)
    (w : WriteState σ) :
    ∃ n ≤ xs.length,
      (obey user h fault xs w).1.trace = w.trace ++ stamps user w.consumed (xs.take n) ∧
      (obey user h fault xs w).1.consumed = w.consumed + (streamBytes user (xs.take n)).length := by
  induction xs generalizing w with
  | nil => exact ⟨0, le_rfl, by simp [obey, stamps], by simp [obey, streamBytes]⟩
  | cons x xs ih =>
    have hstop : ∃ n ≤ (x :: xs).length,
        w.trace = w.trace ++ stamps user w.consumed ((x :: xs).take n) ∧
        w.consumed = w.consumed + (streamBytes user ((x :: xs).take n)).length :=
      ⟨0, Nat.zero_le _, by simp [stamps], by simp [streamBytes]⟩
    unfold obey
    split_ifs
    · split
      · exact hstop
      · obtain ⟨n, hn, h1, h2⟩ :=
          ih (w.did h (x.meant user) (w.consumed + (x.bytes user).length))
        refine ⟨n + 1, by simpa using hn, ?_, ?_⟩
        · rw [h1]
          simp [WriteState.did, stamps]
        · rw [h2]
          simp [WriteState.did, streamBytes, Nat.add_assoc]
    · exact hstop

theorem writeLoop_eq_obey {k : ℕ} (hmem : Stored m.byte w.consumed (streamBytes user xs))
    (hsize : size = w.consumed + (streamBytes user xs).length) (hk : size - w.consumed ≤ k)
    (hfit : ∀ x ∈ xs.take ((obey user h m.fault xs w).1.trace.length - w.trace.length),
      x.Fits user kernel) :
    writeLoop kernel h m size k w = obey user h m.fault xs w := by
  induction xs generalizing w k with
  | nil =>
    have hend : ¬w.consumed < size := by
      simp only [streamBytes, List.flatMap_nil, List.length_nil] at hsize
      omega
    cases k with
    | zero => rfl
    | succ k => rw [writeLoop, if_neg fun hc => hend hc.1, obey]
  | cons x xs ih =>
    have hx : 4 ≤ (x.bytes user).length := x.four_le
    rw [streamBytes, List.flatMap_cons, ← streamBytes] at hmem hsize
    rw [List.length_append] at hsize
    obtain ⟨h1, h2⟩ := stored_append.1 hmem
    obtain ⟨k, rfl⟩ : ∃ k', k = k' + 1 := ⟨k - 1, by omega⟩
    have hlt : w.consumed < size := by omega
    unfold writeLoop
    by_cases hok : h.ok w.state = true
    · cases he : x.refusal user m.fault w.consumed with
      | some e =>
        rw [if_pos ⟨hlt, hok⟩, readCommand_refused h1 he]
        simp [obey, hok, he]
      | none =>
        have hobey : obey user h m.fault (x :: xs) w = obey user h m.fault xs
            (w.did h (x.meant user) (w.consumed + (x.bytes user).length)) := by
          simp [obey, hok, he]
        rw [hobey] at hfit ⊢
        obtain ⟨n, -, htr, -⟩ := obey_stamps user h m.fault xs
          (w.did h (x.meant user) (w.consumed + (x.bytes user).length))
        have hlen : (w.did h (x.meant user) (w.consumed + (x.bytes user).length)).trace.length =
            w.trace.length + 1 := by simp [WriteState.did]
        rw [htr, List.length_append, hlen] at hfit
        have hfx : x.Fits user kernel := hfit x (by
          rw [Nat.add_assoc, Nat.add_sub_cancel_left, Nat.add_comm, List.take_succ_cons]
          simp)
        rw [if_pos ⟨hlt, hok⟩, readCommand_fits h1 he hfx]
        refine ih h2 (by simp only [WriteState.did]; omega) (by simp only [WriteState.did]; omega) ?_
        intro y hy
        refine hfit y ?_
        rw [htr, List.length_append, Nat.add_sub_cancel_left] at hy
        rw [Nat.add_assoc, Nat.add_sub_cancel_left, Nat.add_comm, List.take_succ_cons]
        exact List.mem_cons_of_mem _ hy
    · rw [if_neg fun hc => hok hc.2]
      simp [obey, hok]

/-! Many calls -/

theorem obeyAll_concat (rounds : List (Round σ)) (round : Round σ) (s : σ) :
    obeyAll user h xs (rounds ++ [round]) s =
      let r := (obeyAll user h xs rounds s).1
      obey user h round.fault (xs.drop r.trace.length) { r with state := round.before r.state } := by
  simp [obeyAll]

/-- Over all calls together the commands are executed in order, none twice and none left out. -/
theorem obeyAll_stamps (user : PointerWidth) (h : Handler σ) (xs : List Written)
    (rounds : List (Round σ)) (s : σ) :
    let r := (obeyAll user h xs rounds s).1
    r.trace.length ≤ xs.length ∧ r.trace = stamps user 0 (xs.take r.trace.length) ∧
      r.consumed = (streamBytes user (xs.take r.trace.length)).length := by
  induction rounds using List.reverseRecOn with
  | nil => simp [obeyAll, stamps, streamBytes]
  | append_singleton rounds round ih =>
    rw [obeyAll_concat]
    obtain ⟨hle, htr, hcons⟩ := ih
    set r := (obeyAll user h xs rounds s).1
    obtain ⟨n, hn, h1, h2⟩ := obey_stamps user h round.fault
      (xs.drop r.trace.length) { r with state := round.before r.state }
    have htake : xs.take (r.trace.length + n) =
        xs.take r.trace.length ++ (xs.drop r.trace.length).take n := List.take_add
    have hlen : (r.trace ++ stamps user r.consumed ((xs.drop r.trace.length).take n)).length =
        r.trace.length + n := by
      rw [List.length_append, length_stamps, List.length_take, min_eq_left hn]
    rw [List.length_drop] at hn
    intro q
    have hqt : q.trace = r.trace ++ stamps user r.consumed ((xs.drop r.trace.length).take n) := h1
    have hql : q.trace.length = r.trace.length + n := by rw [hqt, hlen]
    refine ⟨by omega, ?_, ?_⟩
    · rw [hql, htake, stamps_append, ← htr, Nat.zero_add, ← hcons]
      exact hqt
    · rw [hql, htake, streamBytes, List.flatMap_append, List.length_append, ← streamBytes, ← hcons]
      exact h2

theorem submitAll_concat (rounds : List (Round σ)) (round : Round σ) (s : σ) :
    submitAll user kernel h xs (rounds ++ [round]) s =
      let r := (submitAll user kernel h xs rounds s).1
      binderThreadWrite kernel h ⟨overlay (streamBytes user xs) round.rest, round.fault⟩
        (streamBytes user xs).length { r with state := round.before r.state } := by
  simp [submitAll]

theorem submitAll_stamped (user kernel : PointerWidth) (h : Handler σ) (xs : List Written)
    (rounds : List (Round σ)) (s : σ) :
    let r := (submitAll user kernel h xs rounds s).1
    Stamped (·.advance kernel) 0 r.trace r.consumed := by
  induction rounds using List.reverseRecOn with
  | nil => rfl
  | append_singleton rounds round ih =>
    rw [submitAll_concat]
    exact writeLoop_stamped ih

theorem submitAll_eq_obeyAll (rounds : List (Round σ)) (s : σ)
    (hfit : ∀ x ∈ xs.take (obeyAll user h xs rounds s).1.trace.length, x.Fits user kernel) :
    submitAll user kernel h xs rounds s = obeyAll user h xs rounds s := by
  induction rounds using List.reverseRecOn with
  | nil => rfl
  | append_singleton rounds round ih =>
    obtain ⟨hle, -, hcons⟩ := obeyAll_stamps user h xs rounds s
    rw [obeyAll_concat] at hfit
    rw [submitAll_concat, obeyAll_concat]
    set r := (obeyAll user h xs rounds s).1
    obtain ⟨n, hn, h1, -⟩ := obey_stamps user h round.fault
      (xs.drop r.trace.length) { r with state := round.before r.state }
    rw [List.length_drop] at hn
    have hlen : (obey user h round.fault (xs.drop r.trace.length)
        { r with state := round.before r.state }).1.trace.length = r.trace.length + n := by
      rw [h1, List.length_append, length_stamps, List.length_take, List.length_drop, min_eq_left hn]
    have htake : xs.take (r.trace.length + n) =
        xs.take r.trace.length ++ (xs.drop r.trace.length).take n := List.take_add
    dsimp only at hfit
    rw [hlen, htake] at hfit
    rw [ih fun x hx => hfit x (List.mem_append_left _ hx)]
    have hbytes : streamBytes user xs =
        streamBytes user (xs.take r.trace.length) ++ streamBytes user (xs.drop r.trace.length) := by
      rw [streamBytes, streamBytes, streamBytes, ← List.flatMap_append, List.take_append_drop]
    have hlength : (streamBytes user xs).length =
        r.consumed + (streamBytes user (xs.drop r.trace.length)).length := by
      rw [hbytes, List.length_append, hcons]
    have hmem := stored_overlay (streamBytes user (xs.take r.trace.length))
      (streamBytes user (xs.drop r.trace.length)) [] round.rest
    rw [List.append_nil, ← hbytes, ← hcons] at hmem
    refine writeLoop_eq_obey hmem hlength le_rfl fun x hx => hfit x (List.mem_append_right _ ?_)
    dsimp only at hx
    rwa [hlen, Nat.add_sub_cancel_left] at hx

theorem submitAll_framed (user kernel : PointerWidth) (h : Handler σ) (xs : List Written)
    (rounds : List (Round σ)) (s : σ) :
    submitAll user kernel h xs rounds s = obeyAll user h xs rounds s ↔
      ∀ x ∈ xs.take (obeyAll user h xs rounds s).1.trace.length, x.Fits user kernel := by
  constructor
  · intro he
    have hs := submitAll_stamped user kernel h xs rounds s
    dsimp only at hs
    rw [he, (obeyAll_stamps user h xs rounds s).2.1] at hs
    exact hs.fits
  · exact submitAll_eq_obeyAll rounds s

/-! The driver's own commands -/

/-- What a structure that was copied in points to. `memory` gives the words of
4 and of 8 bytes at an address. -/
def TransactionWords.data (memory : ℕ → ℕ → List ℕ) (tr : TransactionWords) : TransactionData where
  handle := (tr.target.setWidth 32).toNat
  code := tr.code.toNat
  flags := { oneWay := tr.flags.getLsbD 0, acceptFds := tr.flags.getLsbD 4 }
  dataSize := tr.dataSize.toNat
  offsetsSize := tr.offsetsSize.toNat
  data := memory 4 tr.buffer.toNat
  offsets := memory 8 tr.offsets.toNat

/-- A refused command never gets here. -/
def BcCommand.command (memory : ℕ → ℕ → List ℕ) : BcCommand → Option Command
  | ref c target => some (.ref c target.toNat)
  | refDone strong ptr cookie => some (.refDone strong ptr.toNat cookie.toNat)
  | freeBuffer dataPtr => some (.freeBuffer dataPtr.toNat)
  | transaction false tr => some (.transaction (tr.data memory))
  | transaction true tr => some (.reply (tr.data memory))
  | registerLooper => some .registerLooper
  | enterLooper => some .enterLooper
  | exitLooper => some .exitLooper
  | requestDeathNotification target cookie =>
    some (.requestDeathNotification target.toNat cookie.toNat)
  | clearDeathNotification target cookie => some (.clearDeathNotification target.toNat cookie.toNat)
  | deadBinderDone cookie => some (.deadBinderDone cookie.toNat)
  | attemptAcquire _ _ | acquireResult _ => none

def driverHandler (L : Layout) (rb : RbTree ℕ) (T : ℕ) (env : CommandEnv)
    (memory : ℕ → ℕ → List ℕ) : Handler Driver where
  ok s := (s.thread.get T).returnError = .ok
  exec s c := (c.command memory).elim s (binderCommand L rb s T env)

/-- Where pointers have 4 bytes, the driver reads the upper half of the cookie as the next command. -/
theorem submitAll_cut : ¬∀ (user kernel : PointerWidth) (h : Handler Driver) (xs : List Written)
    (rounds : List (Round Driver)) (s : Driver),
    submitAll user kernel h xs rounds s = obeyAll user h xs rounds s := by
  intro hall
  have he := congrArg (fun r => r.1.consumed) (hall .four .four
    (driverHandler layout32 .plain 0 {} fun _ _ => []) [.command (.deadBinderDone 0x1000)] [{}] {})
  revert he
  decide

end Binder

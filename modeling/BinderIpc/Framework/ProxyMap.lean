import BinderIpc.Lib.Run
import Mathlib.Algebra.Ring.Nat
import Mathlib.Data.List.Nodup
import Mathlib.Data.List.Perm.Basic
import Mathlib.Logic.Function.Basic

/-! The map from native pointers to proxies, `BinderProxy.ProxyMap`. A weak
reference stands for its proxy; the collector may clear any of them before
every read. -/

namespace Binder

/-- What is cleared, and what will be before each of the next reads. -/
structure Collector where
  cleared : ℕ → Bool := fun _ => false
  later : List (ℕ → Bool) := []

/-- The collector runs, then a weak reference is read. -/
def Collector.tick (c : Collector) : Collector :=
  match c.later with
  | [] => c
  | f :: later => { cleared := fun p => c.cleared p || f p, later := later }

/-- One row of `mMainIndexKeys` and of `mMainIndexValues`. -/
structure Bucket where
  keys : List (Option (BitVec 64)) := [none]
  values : List ℕ := []
  deriving Repr, DecidableEq

/-- `remove`; the exceptions of Java are `none`. -/
def Bucket.remove (b : Bucket) (index : ℕ) : Option Bucket :=
  let size := b.values.length
  if index + 1 ≠ size then do
    let key ← b.keys[size - 1]?
    let value ← b.values[size - 1]?
    if index < b.keys.length ∧ index < size then
      some { keys := b.keys.set index key, values := (b.values.set index value).take (size - 1) }
    else none
  else some { b with values := b.values.take (size - 1) }

/-- The loop of `get` from entry `i` on, with `n` entries to go. -/
def Bucket.getLoop (b : Bucket) (key : BitVec 64) (c : Collector) :
    ℕ → ℕ → Option (Bucket × Collector × Option ℕ)
  | _, 0 => some (b, c, none)
  | i, n + 1 => do
    let foundKey ← (← b.keys[i]?)
    if key = foundKey then
      let bp ← b.values[i]?
      let c := c.tick
      if c.cleared bp then return (← b.remove i, c, none) else return (b, c, some bp)
    else b.getLoop key c (i + 1) n

/-- `Math.floorMod` of an `int` -/
def floorMod (x : BitVec 32) (m : ℕ) : ℕ := (x.toInt % m).toNat

/-- The search of `set` for a cleared reference from entry `i` on, with `n` entries to go, and
`mRandom`. Nothing is left of the search when there is none. -/
def Bucket.setLoop (b : Bucket) (key : BitVec 64) (value : ℕ) (random : BitVec 32) :
    Collector → ℕ → ℕ → Option (Option Bucket × BitVec 32 × Collector)
  | c, _, 0 => some (none, random, c)
  | c, i, n + 1 => do
    let v ← b.values[i]?
    let c := c.tick
    if c.cleared v then
      if b.keys.length ≤ i then none
      else
        let size := b.values.length
        let b : Bucket := { keys := b.keys.set i (some key), values := b.values.set i value }
        if i + 1 < size then
          let random := random + 1
          let rnd := floorMod random (size - (i + 1))
          let v ← b.values[i + 1 + rnd]?
          let c := c.tick
          if c.cleared v then return (some (← b.remove (i + 1 + rnd)), random, c)
          else return (some b, random, c)
        else return (some b, random, c)
    else b.setLoop key value random c (i + 1) n

/-- The new entry at the end, in a longer array of keys if there is no room. -/
def Bucket.add (b : Bucket) (key : BitVec 64) (value : ℕ) : Option Bucket :=
  let size := b.values.length
  if b.keys.length = size then
    some { keys := b.keys ++ some key :: List.replicate (size / 2 + 1) none
           values := b.values ++ [value] }
  else if size < b.keys.length then
    some { keys := b.keys.set size (some key), values := b.values ++ [value] }
  else none

def crashAtSize : ℕ := 20000

def warnIncrement : ℕ := 10

structure ProxyMap where
  buckets : ℕ → Option Bucket := fun _ => none
  random : BitVec 32 := 0
  warnBucketSize : ℕ := 20
  /-- `Build.IS_DEBUGGABLE` -/
  debuggable : Bool := false

namespace ProxyMap

def hash (arg : BitVec 64) : ℕ :=
  (((arg.sshiftRight 2 ^^^ arg.sshiftRight 10).setWidth 32) &&& 0xff#32).toNat

variable (m : ProxyMap)

def write (h : ℕ) (b : Bucket) : ProxyMap :=
  { m with buckets := fun g => if g = h then some b else m.buckets g }

def rows : List Bucket := (List.range 256).filterMap m.buckets

def size : ℕ := (m.rows.map fun b => b.values.length).sum

/-- `unclearedSize`, with a run of the collector before every read -/
def unclearedSize (c : Collector) : ℕ × Collector :=
  (m.rows.flatMap fun b => b.values).foldl
    (fun (r : ℕ × Collector) v => (r.1 + if r.2.tick.cleared v then 0 else 1, r.2.tick)) (0, c)

def get (c : Collector) (key : BitVec 64) : Option (ProxyMap × Collector × Option ℕ) :=
  match m.buckets (hash key) with
  | none => some (m, c, none)
  | some b => do
    let (b, c, bp) ← b.getLoop key c 0 b.values.length
    return (m.write (hash key) b, c, bp)

/-- What `set` does after an entry was added to a bucket of `size` entries; the flag tells
whether it throws the `AssertionError`. -/
def grown (c : Collector) (size : ℕ) : ProxyMap × Collector × Bool :=
  if m.warnBucketSize ≤ size then
    let m' := { m with warnBucketSize := m.warnBucketSize + warnIncrement }
    if m.debuggable ∧ crashAtSize ≤ m.size then
      let (uncleared, c) := m.unclearedSize c
      (m', c, crashAtSize ≤ uncleared)
    else (m', c, false)
  else (m, c, false)

def set (c : Collector) (key : BitVec 64) (value : ℕ) : Option (ProxyMap × Collector × Bool) := do
  let b := (m.buckets (hash key)).getD {}
  let size := b.values.length
  let (found, random, c) ← b.setLoop key value m.random c 0 size
  let m := { m with random := random }
  match found with
  | some b => return (m.write (hash key) b, c, false)
  | none => return (m.write (hash key) (← b.add key value)).grown c size

end ProxyMap

/-! A bucket as a list of entries -/

abbrev ProxyEntry := BitVec 64 × ℕ

/-- The bucket holds the entries; behind their keys the array may have others. -/
structure Bucket.Holds (b : Bucket) (l : List ProxyEntry) : Prop where
  keys : ∃ stale, b.keys = l.map (fun x => some x.1) ++ stale
  values : b.values = l.map Prod.snd

/-- The last entry moves to `i`. -/
def removeAt (l : List ProxyEntry) (i : ℕ) : List ProxyEntry :=
  match l[l.length - 1]? with
  | none => []
  | some x => (l.set i x).take (l.length - 1)

/-- Only entries whose reference is cleared have gone. -/
structure Pruned (cleared : ℕ → Bool) (l l' : List ProxyEntry) : Prop where
  sub : l' ⊆ l
  kept : ∀ x ∈ l, cleared x.2 = false → x ∈ l'
  nodup : (l.map Prod.fst).Nodup → (l'.map Prod.fst).Nodup

section

variable {b : Bucket} {l l' : List ProxyEntry} {c : Collector} {key k : BitVec 64} {value i n : ℕ}

theorem Pruned.refl (cleared : ℕ → Bool) (l : List ProxyEntry) : Pruned cleared l l :=
  ⟨List.Subset.refl l, fun _ h _ => h, id⟩

theorem Bucket.Holds.length (h : b.Holds l) : b.values.length = l.length := by
  rw [h.values, List.length_map]

theorem Bucket.Holds.le (h : b.Holds l) : l.length ≤ b.keys.length := by
  obtain ⟨stale, hk⟩ := h.keys
  simp [hk]

theorem Bucket.Holds.keyAt (h : b.Holds l) (hi : i < l.length) : b.keys[i]? = some (some l[i].1) := by
  obtain ⟨stale, hk⟩ := h.keys
  rw [hk, List.getElem?_append_left (by simpa using hi)]
  simp [hi]

theorem Bucket.Holds.valueAt (h : b.Holds l) (hi : i < l.length) : b.values[i]? = some l[i].2 := by
  rw [h.values]
  simp [hi]

/-- What `Tick` may do. -/
theorem Collector.tick_mono (c : Collector) {p : ℕ} (h : c.cleared p = true) :
    c.tick.cleared p = true := by
  unfold Collector.tick
  cases c.later with
  | nil => exact h
  | cons f later => simp [h]

theorem Bucket.Holds.set (h : b.Holds l) (hi : i < l.length) (key : BitVec 64) (value : ℕ) :
    Bucket.Holds { keys := b.keys.set i (some key), values := b.values.set i value }
      (l.set i (key, value)) := by
  obtain ⟨stale, hk⟩ := h.keys
  refine ⟨⟨stale, ?_⟩, ?_⟩
  · simp only [hk, List.map_set]
    rw [List.set_append_left _ _ (by simpa using hi)]
  · simp [h.values, List.map_set]

theorem Bucket.Holds.take (h : b.Holds l) (n : ℕ) :
    Bucket.Holds { b with values := b.values.take n } (l.take n) := by
  obtain ⟨stale, hk⟩ := h.keys
  refine ⟨⟨(l.drop n).map (fun x => some x.1) ++ stale, ?_⟩, ?_⟩
  · rw [← List.append_assoc, ← List.map_append, List.take_append_drop]
    exact hk
  · simp only [h.values, List.map_take]

theorem Bucket.Holds.remove (h : b.Holds l) (hi : i < l.length) :
    ∃ b', b.remove i = some b' ∧ b'.Holds (removeAt l i) := by
  have hlast : l.length - 1 < l.length := by omega
  have hsome : l[l.length - 1]? = some l[l.length - 1] := List.getElem?_eq_getElem hlast
  have hle := h.le
  unfold Bucket.remove removeAt
  rw [hsome, h.length]
  by_cases hne : i + 1 ≠ l.length
  · rw [if_pos hne, h.keyAt hlast, h.valueAt hlast]
    refine ⟨_, if_pos ⟨by omega, hi⟩, ?_⟩
    exact (h.set hi _ _).take _
  · obtain rfl : i = l.length - 1 := by omega
    rw [if_neg hne]
    refine ⟨_, rfl, ?_⟩
    dsimp only
    rw [List.set_getElem_self]
    exact h.take _

theorem removeAt_perm (hi : i < l.length) : (removeAt l i).Perm (l.eraseIdx i) := by
  have hne : l ≠ [] := List.ne_nil_of_length_pos (by omega)
  obtain ⟨l, x, rfl⟩ : ∃ l' x, l = l' ++ [x] :=
    ⟨l.dropLast, l.getLast hne, (List.dropLast_append_getLast hne).symm⟩
  rw [List.length_append, List.length_singleton] at hi
  have hrem : removeAt (l ++ [x]) i = ((l ++ [x]).set i x).take l.length := by
    simp [removeAt]
  rw [hrem]
  by_cases hlast : i = l.length
  · subst hlast
    rw [List.eraseIdx_append_of_length_le (Nat.le_refl _)]
    simp
  · have hlt : i < l.length := by omega
    rw [List.set_append_left _ _ hlt, List.take_left' (by simp),
      List.eraseIdx_append_of_lt_length hlt]
    exact (List.set_perm_cons_eraseIdx hlt x).trans (List.perm_append_singleton x _).symm

/-- A cleared entry goes. -/
theorem pruned_removeAt {cleared : ℕ → Bool} (hi : i < l.length)
    (hc : cleared l[i].2 = true) : Pruned cleared l (removeAt l i) := by
  have hperm := removeAt_perm hi
  refine ⟨fun x hx => List.mem_of_mem_eraseIdx (hperm.mem_iff.1 hx), fun x hx hx' => ?_, fun hnd => ?_⟩
  · rw [hperm.mem_iff]
    rcases List.mem_cons.1 ((List.getElem_cons_eraseIdx_perm hi).mem_iff.2 hx) with rfl | hmem
    · exact absurd (hc.symm.trans hx') (by decide)
    · exact hmem
  · rw [(hperm.map Prod.fst).nodup_iff]
    exact hnd.sublist ((List.eraseIdx_sublist l i).map Prod.fst)

/-- What `get` finds. -/
theorem Bucket.Holds.getLoop (h : b.Holds l) (key : BitVec 64) :
    ∀ (n i : ℕ) (c : Collector), i + n = l.length → (∀ x ∈ l.take i, x.1 ≠ key) →
      ∃ b' c' r l', b.getLoop key c i n = some (b', c', r) ∧ b'.Holds l' ∧
        (∀ p, c.cleared p = true → c'.cleared p = true) ∧
        Pruned c'.cleared l l' ∧
        match r with
        | some p => (key, p) ∈ l'
        | none => (l.map Prod.fst).Nodup → ∀ x ∈ l', x.1 ≠ key
  | 0, i, c, hn, hno => by
    have htake : l.take i = l := by rw [List.take_of_length_le (by omega)]
    refine ⟨b, c, none, l, rfl, h, fun _ h => h, .refl _ _, fun _ x hx => hno x ?_⟩
    rw [htake]
    exact hx
  | n + 1, i, c, hn, hno => by
    have hi : i < l.length := by omega
    rw [Bucket.getLoop, h.keyAt hi, h.valueAt hi]
    simp only [Option.bind_eq_bind, Option.bind_some]
    by_cases hkey : key = l[i].1
    · rw [if_pos hkey]
      by_cases hc : c.tick.cleared l[i].2 = true
      · obtain ⟨b', hrem, hb'⟩ := h.remove hi
        rw [if_pos hc, hrem]
        refine ⟨b', c.tick, none, removeAt l i, rfl, hb', fun _ => c.tick_mono,
          pruned_removeAt hi hc, fun hnd x hx hxk => ?_⟩
        -- the keys of the other entries are different
        have hmem := (removeAt_perm hi).mem_iff.1 hx
        have hperm := (List.getElem_cons_eraseIdx_perm hi).map Prod.fst
        have hcons := hperm.nodup_iff.2 hnd
        rw [List.map_cons, List.nodup_cons] at hcons
        exact hcons.1 (List.mem_map.2 ⟨x, hmem, hxk.trans hkey⟩)
      · rw [if_neg hc]
        refine ⟨b, c.tick, some l[i].2, l, rfl, h, fun _ => c.tick_mono, .refl _ _, ?_⟩
        rw [hkey]
        exact List.getElem_mem hi
    · rw [if_neg hkey]
      refine h.getLoop key n (i + 1) c (by omega) fun x hx => ?_
      rw [List.take_add_one, List.mem_append, List.getElem?_eq_getElem hi] at hx
      rcases hx with hx | hx
      · exact hno x hx
      · obtain rfl : x = l[i] := by simpa using hx
        exact fun heq => hkey heq.symm


theorem floorMod_lt (x : BitVec 32) {m : ℕ} (hm : 0 < m) : floorMod x m < m := by
  unfold floorMod
  have h0 := Int.emod_nonneg x.toInt (b := m) (by omega)
  have h1 := Int.emod_lt_of_pos x.toInt (b := m) (by omega)
  omega

/-- Entries of a bucket, with one more. -/
structure Inserted (cleared : ℕ → Bool) (l l' : List ProxyEntry) (x : ProxyEntry) : Prop where
  new : x ∈ l'
  sub : l' ⊆ x :: l
  kept : ∀ y ∈ l, cleared y.2 = false → y ∈ l'
  nodup : (l.map Prod.fst).Nodup → x.1 ∉ l.map Prod.fst → (l'.map Prod.fst).Nodup

/-- A cleared entry is overwritten. -/
theorem inserted_set {cleared : ℕ → Bool} (hi : i < l.length) (hc : cleared l[i].2 = true)
    (x : ProxyEntry) : Inserted cleared l (l.set i x) x where
  new := List.mem_set hi x
  sub y hy := (List.mem_or_eq_of_mem_set hy).elim (List.mem_cons_of_mem _) fun h => by simp [h]
  kept y hy hy' := by
    obtain ⟨j, hj, rfl⟩ := List.getElem_of_mem hy
    have hne : i ≠ j := fun heq => by
      subst heq
      exact absurd (hc.symm.trans hy') (by decide)
    have hget : (l.set i x)[j]? = some l[j] := by
      rw [List.getElem?_set_ne hne]
      exact List.getElem?_eq_getElem hj
    exact List.mem_of_getElem? hget
  nodup hnd hx := by
    rw [List.map_set]
    exact hnd.set hx

/-- The pruning of an entry behind the new one. -/
theorem Inserted.prune {cleared : ℕ → Bool} {x : ProxyEntry} {l₁ l₂ : List ProxyEntry}
    (h : Inserted cleared l l₁ x) {cleared' : ℕ → Bool}
    (hmono : ∀ p, cleared p = true → cleared' p = true) (hp : Pruned cleared' l₁ l₂) (hx : x ∈ l₂) :
    Inserted cleared' l l₂ x where
  new := hx
  sub y hy := h.sub (hp.sub hy)
  kept y hy hy' := hp.kept y (h.kept y hy (by
    by_contra hne
    exact absurd ((hmono _ (by simpa using hne)).symm.trans hy') (by decide))) hy'
  nodup hnd hk := hp.nodup (h.nodup hnd hk)

/-- What the search of `set` does. -/
theorem Bucket.Holds.setLoop (h : b.Holds l) (key : BitVec 64) (value : ℕ) (random : BitVec 32) :
    ∀ (n i : ℕ) (c : Collector), i + n = l.length →
      ∃ found random' c', b.setLoop key value random c i n = some (found, random', c') ∧
        (∀ p, c.cleared p = true → c'.cleared p = true) ∧
        ∀ b', found = some b' → ∃ l', b'.Holds l' ∧ Inserted c'.cleared l l' (key, value)
  | 0, i, c, _ => ⟨none, random, c, rfl, fun _ h => h, fun _ h => by cases h⟩
  | n + 1, i, c, hn => by
    have hi : i < l.length := by omega
    have hle := h.le
    rw [Bucket.setLoop, h.valueAt hi]
    simp only [Option.bind_eq_bind, Option.bind_some]
    by_cases hc : c.tick.cleared l[i].2 = true
    · rw [if_pos hc, if_neg (by omega)]
      have hset := h.set hi key value
      have hins := inserted_set hi hc (key, value)
      by_cases hmore : i + 1 < b.values.length
      · rw [if_pos hmore]
        rw [h.length] at hmore ⊢
        set rnd := floorMod (random + 1) (l.length - (i + 1)) with hrnd
        have hlt : rnd < l.length - (i + 1) := floorMod_lt _ (by omega)
        have hj : i + 1 + rnd < (l.set i (key, value)).length := by rw [List.length_set]; omega
        have hval := hset.valueAt hj
        dsimp only at hval ⊢
        rw [hval]
        simp only [Option.bind_some]
        by_cases hc2 : c.tick.tick.cleared (l.set i (key, value))[i + 1 + rnd].2 = true
        · obtain ⟨b', hrem, hb'⟩ := hset.remove hj
          rw [if_pos hc2, hrem]
          refine ⟨some b', random + 1, c.tick.tick, rfl, fun _ hp => c.tick.tick_mono (c.tick_mono hp),
            fun b'' hb'' => ?_⟩
          cases hb''
          refine ⟨_, hb', hins.prune (fun _ => c.tick.tick_mono) (pruned_removeAt hj hc2) ?_⟩
          -- the new entry lies before the one that goes
          rw [(removeAt_perm hj).mem_iff]
          have hget : (l.set i (key, value))[i]? = some (key, value) := by simp [hi]
          exact List.mem_eraseIdx_iff_getElem?.2 ⟨i, by omega, hget⟩
        · rw [if_neg hc2]
          refine ⟨_, random + 1, c.tick.tick, rfl, fun _ hp => c.tick.tick_mono (c.tick_mono hp),
            fun b'' hb'' => ?_⟩
          cases hb''
          exact ⟨_, hset, hins.prune (fun _ => c.tick.tick_mono) (.refl _ _) hins.new⟩
      · rw [if_neg hmore]
        refine ⟨_, random, c.tick, rfl, fun _ => c.tick_mono, fun b'' hb'' => ?_⟩
        cases hb''
        exact ⟨_, hset, hins⟩
    · rw [if_neg hc]
      obtain ⟨found, random', c', heq, hmono, hfound⟩ := h.setLoop key value random n (i + 1) c.tick
        (by omega)
      exact ⟨found, random', c', heq, fun p hp => hmono p (c.tick_mono hp), hfound⟩

theorem Bucket.Holds.add (h : b.Holds l) (key : BitVec 64) (value : ℕ) :
    ∃ b', b.add key value = some b' ∧ b'.Holds (l ++ [(key, value)]) := by
  obtain ⟨stale, hk⟩ := h.keys
  have hle := h.le
  unfold Bucket.add
  rw [h.length]
  by_cases hfull : b.keys.length = l.length
  · have hstale : stale = [] := by
      have := congrArg List.length hk
      simp only [List.length_append, List.length_map] at this
      exact List.eq_nil_of_length_eq_zero (by omega)
    rw [if_pos hfull]
    refine ⟨_, rfl, ⟨List.replicate (l.length / 2 + 1) none, ?_⟩, by simp [h.values]⟩
    rw [hk, hstale, List.append_nil, List.map_append, List.append_assoc]
    rfl
  · rw [if_neg hfull, if_pos (by omega)]
    cases stale with
    | nil => simp [hk] at hfull
    | cons x stale =>
      refine ⟨_, rfl, ⟨stale, ?_⟩, by simp [h.values]⟩
      rw [hk, List.set_append_right _ _ (by simp), List.map_append, List.append_assoc]
      simp

theorem inserted_append (cleared : ℕ → Bool) (l : List ProxyEntry) (x : ProxyEntry) :
    Inserted cleared l (l ++ [x]) x where
  new := by simp
  sub y hy := by simpa [or_comm] using hy
  kept y hy _ := by simp [hy]
  nodup hnd hx := by
    rw [List.map_append, List.map_singleton, List.nodup_append]
    exact ⟨hnd, by simp, fun a ha b hb => by
      obtain rfl : b = x.1 := by simpa using hb
      exact fun heq => hx (heq ▸ ha)⟩

end

/-! The map -/

namespace ProxyMap

/-- The buckets hold the entries. -/
def Holds (m : ProxyMap) (ent : ℕ → List ProxyEntry) : Prop :=
  ∀ h, match m.buckets h with
    | none => ent h = []
    | some b => b.Holds (ent h)

section

variable {m : ProxyMap} {ent : ℕ → List ProxyEntry} {c : Collector} {key : BitVec 64} {value : ℕ}

theorem Holds.write (hm : m.Holds ent) {h : ℕ} {b : Bucket} {l : List ProxyEntry}
    (hb : b.Holds l) : (m.write h b).Holds (Function.update ent h l) := by
  intro g
  by_cases hg : g = h
  · subst hg
    simpa [ProxyMap.write] using hb
  · have := hm g
    simpa [ProxyMap.write, hg] using this

theorem Holds.congr {m' : ProxyMap} (h : m'.buckets = m.buckets) (hm : m.Holds ent) :
    m'.Holds ent := fun g => by
  rw [h]
  exact hm g

theorem Holds.get (hm : m.Holds ent) (c : Collector) (key : BitVec 64) :
    ∃ m' c' r l', m.get c key = some (m', c', r) ∧
      m'.Holds (Function.update ent (hash key) l') ∧
      (∀ p, c.cleared p = true → c'.cleared p = true) ∧ Pruned c'.cleared (ent (hash key)) l' ∧
      match r with
      | some p => (key, p) ∈ l'
      | none => ((ent (hash key)).map Prod.fst).Nodup → ∀ x ∈ l', x.1 ≠ key := by
  have hrow := hm (hash key)
  unfold ProxyMap.get
  cases hb : m.buckets (hash key) with
  | none =>
    rw [hb] at hrow
    refine ⟨m, c, none, [], rfl, ?_, fun _ h => h, ?_, fun _ x hx => absurd hx List.not_mem_nil⟩
    · rw [← show ent (hash key) = [] from hrow, Function.update_eq_self]
      exact hm
    · rw [show ent (hash key) = [] from hrow]
      exact .refl _ _
  | some b =>
    rw [hb] at hrow
    have hlen := Bucket.Holds.length hrow
    obtain ⟨b', c', r, l', heq, hb', hmono, hpruned, hr⟩ :=
      Bucket.Holds.getLoop hrow key b.values.length 0 c (by omega) (by simp)
    dsimp only
    rw [heq]
    exact ⟨_, c', r, l', rfl, hm.write hb', hmono, hpruned, hr⟩

theorem grown_spec (m : ProxyMap) (c : Collector) (size : ℕ) :
    (m.grown c size).1.buckets = m.buckets ∧
      ∀ p, c.cleared p = true → (m.grown c size).2.1.cleared p = true := by
  have hcount : ∀ (l : List ℕ) (n : ℕ) (c : Collector) (p : ℕ), c.cleared p = true →
      (l.foldl (fun (r : ℕ × Collector) v => (r.1 + if r.2.tick.cleared v then 0 else 1, r.2.tick))
        (n, c)).2.cleared p = true := by
    intro l
    induction l with
    | nil => exact fun _ _ _ h => h
    | cons v l ih => exact fun n c p h => ih _ _ p (c.tick_mono h)
  unfold ProxyMap.grown
  split_ifs
  · exact ⟨rfl, fun p hp => hcount _ 0 c p hp⟩
  · exact ⟨rfl, fun _ h => h⟩
  · exact ⟨rfl, fun _ h => h⟩

theorem Holds.set (hm : m.Holds ent) (c : Collector) (key : BitVec 64) (value : ℕ) :
    ∃ m' c' t l', m.set c key value = some (m', c', t) ∧
      m'.Holds (Function.update ent (hash key) l') ∧
      (∀ p, c.cleared p = true → c'.cleared p = true) ∧
      Inserted c'.cleared (ent (hash key)) l' (key, value) := by
  have hrow : ((m.buckets (hash key)).getD {}).Holds (ent (hash key)) := by
    have := hm (hash key)
    cases hb : m.buckets (hash key) with
    | none =>
      rw [hb] at this
      rw [show ent (hash key) = [] from this]
      exact ⟨⟨[none], rfl⟩, rfl⟩
    | some b =>
      rw [hb] at this
      exact this
  have hlen := hrow.length
  obtain ⟨found, random, c', heq, hmono, hfound⟩ :=
    hrow.setLoop key value m.random ((m.buckets (hash key)).getD {}).values.length 0 c (by omega)
  have hm' : ({ m with random := random } : ProxyMap).Holds ent := hm
  unfold ProxyMap.set
  dsimp only
  rw [heq]
  simp only [Option.bind_eq_bind, Option.bind_some]
  cases found with
  | some b =>
    obtain ⟨l', hb, hins⟩ := hfound b rfl
    exact ⟨_, c', false, l', rfl, hm'.write hb, hmono, hins⟩
  | none =>
    obtain ⟨b, hadd, hb⟩ := hrow.add key value
    obtain ⟨hsame, hmono'⟩ := grown_spec (({ m with random := random } : ProxyMap).write (hash key) b)
      c' ((m.buckets (hash key)).getD {}).values.length
    rw [hadd]
    exact ⟨_, _, _, _, rfl, Holds.congr hsame (Holds.write hm' hb),
      fun p hp => hmono' p (hmono p hp), inserted_append _ _ _⟩

end

/-- The pointer has the proxy. -/
def Entry (m : ProxyMap) (key : BitVec 64) (p : ℕ) : Prop :=
  ∃ (b : Bucket) (i : ℕ), m.buckets (hash key) = some b ∧ b.keys[i]? = some (some key) ∧ b.values[i]? = some p

theorem Holds.entry_iff {m : ProxyMap} {ent : ℕ → List ProxyEntry} (hm : m.Holds ent)
    {key : BitVec 64} {p : ℕ} : m.Entry key p ↔ (key, p) ∈ ent (hash key) := by
  have hrow := hm (hash key)
  constructor
  · rintro ⟨b, i, hb, hk, hv⟩
    rw [hb] at hrow
    have hrow : b.Holds (ent (hash key)) := hrow
    have hi : i < (ent (hash key)).length := by
      have := (List.getElem?_eq_some_iff.1 hv).1
      rwa [hrow.length] at this
    rw [hrow.keyAt hi] at hk
    rw [hrow.valueAt hi] at hv
    have heq : (key, p) = (ent (hash key))[i] :=
      Prod.ext (by simpa using hk.symm) (by simpa using hv.symm)
    exact heq ▸ List.getElem_mem hi
  · intro hmem
    cases hb : m.buckets (hash key) with
    | none =>
      rw [hb] at hrow
      rw [show ent (hash key) = [] from hrow] at hmem
      exact absurd hmem List.not_mem_nil
    | some b =>
      rw [hb] at hrow
      have hrow : b.Holds (ent (hash key)) := hrow
      obtain ⟨i, hi, heq⟩ := List.getElem_of_mem hmem
      exact ⟨b, i, hb, by rw [hrow.keyAt hi, heq], by rw [hrow.valueAt hi, heq]⟩

end ProxyMap

/-! `getInstance` -/

structure ProxyState where
  map : ProxyMap := {}
  cleared : ℕ → Bool := fun _ => false
  /-- the pointer of every proxy, in the order of their construction -/
  made : List (BitVec 64) := []
  /-- the proxy that was last returned for a pointer -/
  last : BitVec 64 → Option ℕ := fun _ => none
  /-- what the last call returned, unless it threw -/
  result : Option ℕ := none
  /-- an index or a null pointer exception was thrown -/
  failed : Bool := false

namespace ProxyState

variable (s : ProxyState)

def returns (key : BitVec 64) (bp : ℕ) : ProxyState :=
  { s with result := some bp, last := Function.update s.last key (some bp) }

/-- `throws` tells whether the constructor or the registration throws. -/
def getInstance (key : BitVec 64) (later : List (ℕ → Bool)) (throws : Bool) : ProxyState :=
  match s.map.get { cleared := s.cleared, later := later } key with
  | none => { s with result := none, failed := true }
  | some (m, c, some bp) => { s with map := m, cleared := c.cleared }.returns key bp
  | some (m, c, none) =>
    if throws then { s with map := m, cleared := c.cleared, result := none }
    else
      match m.set c key s.made.length with
      | none => { s with result := none, failed := true }
      | some (m, c, assertion) =>
        let s' := { s with map := m, cleared := c.cleared, made := s.made ++ [key] }
        if assertion then { s' with result := none } else s'.returns key s.made.length

end ProxyState

inductive ProxyAct
  | collect (f : ℕ → Bool)
  | getInstance (key : BitVec 64) (later : List (ℕ → Bool)) (throws : Bool)

/-- The counter of the map starts anywhere. -/
def proxyMachine : Machine ProxyState ProxyAct where
  start s := ∃ random debuggable, s = { map := { random := random, debuggable := debuggable } }
  step s
    | .collect f => { s with cleared := fun p => s.cleared p || f p }
    | .getInstance key later throws => s.getInstance key later throws

/-! The invariant -/

structure ProxyInv (s : ProxyState) (ent : ℕ → List ProxyEntry) : Prop where
  holds : s.map.Holds ent
  nodup : ∀ h, ((ent h).map Prod.fst).Nodup
  placed : ∀ h, ∀ x ∈ ent h, ProxyMap.hash x.1 = h ∧ s.made[x.2]? = some x.1
  last : ∀ k p, s.last k = some p → s.cleared p = false → (k, p) ∈ ent (ProxyMap.hash k)
  fine : s.failed = false

section

variable {s : ProxyState} {ent : ℕ → List ProxyEntry} {key : BitVec 64} {l : List ProxyEntry}

/-- The entries of one bucket are replaced. -/
theorem ProxyInv.update (hi : ProxyInv s ent) {m : ProxyMap} {cleared : ℕ → Bool}
    {made : List (BitVec 64)} {last : BitVec 64 → Option ℕ} (result : Option ℕ)
    (hm : m.Holds (Function.update ent (ProxyMap.hash key) l)) (hnd : (l.map Prod.fst).Nodup)
    (hmade : s.made <+: made)
    (hplaced : ∀ x ∈ l, x ∈ ent (ProxyMap.hash key) ∨ x.1 = key ∧ made[x.2]? = some x.1)
    (hmono : ∀ p, s.cleared p = true → cleared p = true)
    (hkept : ∀ x ∈ ent (ProxyMap.hash key), cleared x.2 = false → x ∈ l)
    (hlast : ∀ k p, last k = some p → s.last k = some p ∨ k = key ∧ (key, p) ∈ l) :
    ProxyInv { s with map := m, cleared := cleared, made := made, last := last, result := result }
      (Function.update ent (ProxyMap.hash key) l) := by
  have hget : ∀ {i : ℕ} {k : BitVec 64}, s.made[i]? = some k → made[i]? = some k := fun hik => by
    obtain ⟨rest, rfl⟩ := hmade
    rw [List.getElem?_append_left (List.getElem?_eq_some_iff.1 hik).1, hik]
  refine ⟨hm, fun h => ?_, fun h x hx => ?_, fun k p hk hp => ?_, hi.fine⟩
  · by_cases hh : h = ProxyMap.hash key
    · subst hh
      simpa using hnd
    · simpa [hh] using hi.nodup h
  · by_cases hh : h = ProxyMap.hash key
    · subst hh
      rw [Function.update_self] at hx
      rcases hplaced x hx with hold | ⟨hk, hmk⟩
      · exact ⟨(hi.placed _ x hold).1, hget (hi.placed _ x hold).2⟩
      · exact ⟨by rw [hk], hmk⟩
    · rw [Function.update_of_ne hh] at hx
      exact ⟨(hi.placed _ x hx).1, hget (hi.placed _ x hx).2⟩
  · have hcl : s.cleared p = false := by
      by_contra hne
      exact absurd ((hmono p (by simpa using hne)).symm.trans hp) (by decide)
    rcases hlast k p hk with hold | ⟨rfl, hnew⟩
    · have hmem := hi.last k p hold hcl
      by_cases hh : ProxyMap.hash k = ProxyMap.hash key
      · rw [hh, Function.update_self]
        exact hkept _ (hh ▸ hmem) hp
      · rwa [Function.update_of_ne hh]
    · rwa [Function.update_self]

/-- What a call does. -/
structure ProxyStep (s : ProxyState) (ent : ℕ → List ProxyEntry) (key : BitVec 64)
    (s' : ProxyState) (ent' : ℕ → List ProxyEntry) : Prop where
  inv : ProxyInv s' ent'
  mono : ∀ p, s.cleared p = true → s'.cleared p = true
  kept : ∀ h, ∀ x ∈ ent h, s'.cleared x.2 = false → x ∈ ent' h
  /-- a pointer whose proxy is still there gets this one -/
  found : ∀ p, (key, p) ∈ ent (ProxyMap.hash key) → s'.cleared p = false → s'.result = some p
  own : ∀ p, s'.result = some p → s'.made[p]? = some key

theorem ProxyInv.getInstance (hi : ProxyInv s ent) (key : BitVec 64) (later : List (ℕ → Bool))
    (throws : Bool) : ∃ ent', ProxyStep s ent key (s.getInstance key later throws) ent' := by
  obtain ⟨m, c, r, l, hget, hm, hmono, hpruned, hr⟩ :=
    hi.holds.get { cleared := s.cleared, later := later } key
  have hnd := hi.nodup (ProxyMap.hash key)
  have hl := hpruned.nodup hnd
  have hkeep : ∀ {l' : List ProxyEntry} {cleared : ℕ → Bool},
      (∀ x ∈ ent (ProxyMap.hash key), cleared x.2 = false → x ∈ l') →
      ∀ h, ∀ x ∈ ent h, cleared x.2 = false → x ∈ Function.update ent (ProxyMap.hash key) l' h := by
    intro l' cleared hall h x hx hc
    by_cases hh : h = ProxyMap.hash key
    · subst hh
      rw [Function.update_self]
      exact hall x hx hc
    · rwa [Function.update_of_ne hh]
  unfold ProxyState.getInstance
  rw [hget]
  cases r with
  | some bp =>
    refine ⟨_, hi.update (some bp) hm hl (List.prefix_refl _)
      (fun x hx => .inl (hpruned.sub hx)) hmono hpruned.kept fun k p hk => ?_, hmono, hkeep hpruned.kept, fun p hp hc => ?_, fun p hp => ?_⟩
    · by_cases hkk : k = key
      · subst hkk
        have : bp = p := by simpa using hk
        exact .inr ⟨rfl, this ▸ hr⟩
      · exact .inl (by simpa [hkk] using hk)
    · -- the keys of a bucket are distinct
      have hmem := hpruned.kept _ hp hc
      have heq := List.inj_on_of_nodup_map hl hmem hr rfl
      exact congrArg (fun x : ProxyEntry => some x.2) heq.symm
    · obtain rfl : bp = p := Option.some_inj.1 hp
      exact (hi.placed _ _ (hpruned.sub hr)).2
  | none =>
    have hno := hr hnd
    have hgone : ∀ p, (key, p) ∈ ent (ProxyMap.hash key) → c.cleared p = true := fun p hp => by
      by_contra hne
      exact hno _ (hpruned.kept _ hp (by simpa using hne)) rfl
    cases throws with
    | true =>
      refine ⟨_, hi.update none hm hl (List.prefix_refl _)
        (fun x hx => .inl (hpruned.sub hx)) hmono hpruned.kept fun k p hk => .inl hk, hmono, hkeep hpruned.kept, fun p hp hc => ?_,
        fun p hp => by cases hp⟩
      exact absurd ((hgone p hp).symm.trans hc) (by decide)
    | false =>
      obtain ⟨m', c', t, l', hset, hm', hmono', hins⟩ := hm.set c key s.made.length
      rw [Function.update_self] at hins
      rw [Function.update_idem] at hm'
      have hl' := hins.nodup hl fun hmem => by
        obtain ⟨x, hx, hk⟩ := List.mem_map.1 hmem
        exact hno x hx hk
      have hmono2 : ∀ p, s.cleared p = true → c'.cleared p = true := fun p hp => hmono' p (hmono p hp)
      have hkept2 : ∀ x ∈ ent (ProxyMap.hash key), c'.cleared x.2 = false → x ∈ l' := fun x hx hc =>
        hins.kept x (hpruned.kept x hx (by
          by_contra hne
          exact absurd ((hmono' _ (by simpa using hne)).symm.trans hc) (by decide))) hc
      have hnew : (s.made ++ [key])[s.made.length]? = some key := by simp
      have hplaced : ∀ x ∈ l', x ∈ ent (ProxyMap.hash key) ∨
          x.1 = key ∧ (s.made ++ [key])[x.2]? = some x.1 := fun x hx => by
        rcases List.mem_cons.1 (hins.sub hx) with rfl | hx
        · exact .inr ⟨rfl, hnew⟩
        · exact .inl (hpruned.sub hx)
      have hcontra : ∀ p, (key, p) ∈ ent (ProxyMap.hash key) → c'.cleared p = false → False :=
        fun p hp hc => absurd ((hmono' p (hgone p hp)).symm.trans hc) (by decide)
      dsimp only
      rw [if_neg Bool.false_ne_true, hset]
      cases t with
      | true =>
        exact ⟨_, hi.update none hm' hl' (List.prefix_append ..) hplaced hmono2 hkept2
          fun k p hk => .inl hk, hmono2, hkeep hkept2, fun p hp hc => (hcontra p hp hc).elim,
          fun p hp => by cases hp⟩
      | false =>
        refine ⟨_, hi.update (some s.made.length) hm' hl' (List.prefix_append ..) hplaced hmono2
          hkept2 fun k p hk => ?_, hmono2, hkeep hkept2, fun p hp hc => (hcontra p hp hc).elim,
          fun p hp => ?_⟩
        · by_cases hkk : k = key
          · subst hkk
            have : s.made.length = p := by simpa using hk
            exact .inr ⟨rfl, this ▸ hins.new⟩
          · exact .inl (by simpa [hkk] using hk)
        · obtain rfl : s.made.length = p := Option.some_inj.1 hp
          exact hnew

theorem ProxyInv.collect (hi : ProxyInv s ent) (f : ℕ → Bool) :
    ProxyInv { s with cleared := fun p => s.cleared p || f p } ent where
  holds := hi.holds
  nodup := hi.nodup
  placed := hi.placed
  last k p hk hp := hi.last k p hk (by
    have hp : (s.cleared p || f p) = false := hp
    exact (Bool.or_eq_false_iff.1 hp).1)
  fine := hi.fine

theorem proxyInv_reach {s : ProxyState} (h : proxyMachine.Reach (fun _ _ => True) s) :
    ∃ ent, ProxyInv s ent := by
  refine h.invariant (I := fun s => ∃ ent, ProxyInv s ent) (fun s hs => ?_) fun s a hi _ => ?_
  · obtain ⟨random, debuggable, rfl⟩ := hs
    exact ⟨fun _ => [], fun _ => rfl, fun _ => List.nodup_nil,
      fun _ _ hx => absurd hx List.not_mem_nil, fun _ _ hk _ => by simp at hk,
      rfl⟩
  · obtain ⟨ent, hi⟩ := hi
    cases a with
    | collect f => exact ⟨ent, hi.collect f⟩
    | getInstance key later throws =>
      obtain ⟨ent', hs⟩ := hi.getInstance key later throws
      exact ⟨ent', hs.inv⟩

/-- What clients may rely on. -/
structure ProxyState.Correct (s : ProxyState) : Prop where
  fine : s.failed = false
  /-- the keys array and the value list of a bucket are parallel -/
  parallel : ∀ h b, s.map.buckets h = some b → b.values.length ≤ b.keys.length ∧
    ∀ i < b.values.length, ∃ k, b.keys[i]? = some (some k) ∧ ProxyMap.hash k = h
  distinct : ∀ h b, s.map.buckets h = some b → ∀ i < b.values.length, ∀ j < b.values.length,
    b.keys[i]? = b.keys[j]? → i = j
  /-- the proxy last returned is returned again, unless it is cleared -/
  same : ∀ key later throws p, s.last key = some p →
    (s.getInstance key later throws).cleared p = false →
    (s.getInstance key later throws).result = some p
  kept : ∀ key later throws k p, s.map.Entry k p →
    (s.getInstance key later throws).cleared p = false →
    (s.getInstance key later throws).map.Entry k p
  /-- what is returned was made for the pointer -/
  own : ∀ key later throws p, (s.getInstance key later throws).result = some p →
    (s.getInstance key later throws).made[p]? = some key

theorem proxyMap_correct {s : ProxyState} (h : proxyMachine.Reach (fun _ _ => True) s) :
    s.Correct := by
  obtain ⟨ent, hi⟩ := proxyInv_reach h
  have hrow : ∀ {h b}, s.map.buckets h = some b → b.Holds (ent h) := fun {h b} hb => by
    have := hi.holds h
    rwa [hb] at this
  refine ⟨hi.fine, fun h b hb => ?_, fun h b hb i hin j hj hij => ?_, fun key later throws p hp hc => ?_,
    fun key later throws k p hk hc => ?_, fun key later throws p hp => ?_⟩
  · have hb := hrow hb
    refine ⟨by rw [hb.length]; exact hb.le, fun i hin => ?_⟩
    rw [hb.length] at hin
    exact ⟨_, hb.keyAt hin, (hi.placed h _ (List.getElem_mem hin)).1⟩
  · have hb := hrow hb
    rw [hb.length] at hin hj
    rw [hb.keyAt hin, hb.keyAt hj] at hij
    have hmap : ((ent h).map Prod.fst).get ⟨i, by simpa using hin⟩ =
        ((ent h).map Prod.fst).get ⟨j, by simpa using hj⟩ := by simpa using hij
    exact Fin.val_eq_of_eq (List.nodup_iff_injective_get.1 (hi.nodup h) hmap)
  · obtain ⟨ent', hs⟩ := hi.getInstance key later throws
    have hold : s.cleared p = false := by
      by_contra hne
      exact absurd ((hs.mono p (by simpa using hne)).symm.trans hc) (by decide)
    exact hs.found p (hi.last key p hp hold) hc
  · obtain ⟨ent', hs⟩ := hi.getInstance key later throws
    rw [hs.inv.holds.entry_iff]
    exact hs.kept _ _ (hi.holds.entry_iff.1 hk) hc
  · obtain ⟨ent', hs⟩ := hi.getInstance key later throws
    exact hs.own p hp

/-- Three pointers of one bucket; the first two proxies are cleared while the third is searched,
and the first pointer comes back. -/
def proxyRun : List ProxyAct :=
  [.getInstance 0 [] false, .getInstance 1 [] false, .getInstance 2 [] false,
    .getInstance 3 [fun _ => false, fun p => p < 2] false, .getInstance 0 [] false]

theorem proxyMap_correct_run :
    (proxyMachine.exec { map := { random := -1 } } proxyRun).Correct ∧
      (proxyMachine.exec { map := { random := -1 } } proxyRun).result = some 4 := by
  have h0 : proxyMachine.Reach (fun _ _ => True) { map := { random := -1 } } := .start ⟨-1, false, rfl⟩
  exact ⟨proxyMap_correct (h0.exec (by simp [Machine.Admits, proxyRun])), by decide +kernel⟩

end

end Binder

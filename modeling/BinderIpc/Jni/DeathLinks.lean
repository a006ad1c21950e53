import BinderIpc.Native.Obituaries
import Mathlib.Data.List.Nodup

/-! `BinderProxy.linkToDeath` and `unlinkToDeath` on a remote object that is
alive. A link is recorded twice: a `JavaDeathRecipient` in the list of the proxy,
which is searched for the recipient, and an obituary of the `BpBinder`, which is
searched for the `JavaDeathRecipient` and the flags. -/

namespace Binder

structure BinderProxyState where
  bp : BpDeath := {}
  /-- the Java object of every `JavaDeathRecipient` that was made -/
  made : List ℕ := []
  /-- `DeathRecipientList` -/
  list : List ℕ := []
  deriving Repr, DecidableEq

namespace BinderProxyState

variable (s : BinderProxyState)

/-- `JavaDeathRecipient::matches` -/
def recipientIs (a obj : ℕ) : Bool := s.made[a]? = some obj

/-- `DeathRecipientList::find` -/
def find (recipient : ℕ) : Option ℕ := s.list.find? (s.recipientIs · recipient)

/-- `JavaDeathRecipient::clearReference`, with `DeathRecipientList::remove` -/
def clearReference (a : ℕ) : BinderProxyState := { s with list := s.list.erase a }

/-- `new JavaDeathRecipient` -/
def newRecipient (r : ℕ) : BinderProxyState :=
  { s with made := s.made ++ [r], list := s.list ++ [s.made.length] }

/-- The flag tells whether no exception was thrown. -/
def linkToDeath (recipient : Option ℕ) (flags : ℕ) (new add : Bool) : BinderProxyState × Bool :=
  match recipient with
  | none => (s, false)
  | some r =>
    let jdr := s.made.length
    let (bp, err) := s.bp.linkToDeath { recipient := jdr, flags := flags } new add
    let s := { s.newRecipient r with bp := bp }
    if err ≠ .noError then (s.clearReference jdr, false) else (s, true)

/-- The flag is true for `JNI_TRUE`; otherwise an exception is thrown. -/
def unlinkToDeath (recipient : Option ℕ) (flags : ℕ) : BinderProxyState × Bool :=
  match recipient with
  | none => (s, false)
  | some r =>
    match s.find r with
    | none => (s, false)
    | some origJDR =>
      let (bp, err, dr) := s.bp.unlinkToDeath (some origJDR) 0 flags
      let s := { s with bp := bp }
      let s := match dr with
        | some ob => s.clearReference ob.recipient
        | none => s
      (s, err = .noError || err = .deadObject)

/-- The obituaries of the `BpBinder`. -/
def obituaries : List Obituary := s.bp.mObituaries.getD []

/-- The recipient and the flags of a link. -/
def key (ob : Obituary) : ℕ × ℕ := (s.made.getD ob.recipient 0, ob.flags)

end BinderProxyState

inductive ProxyDeathOp
  | link (recipient : Option ℕ) (flags : ℕ) (new add : Bool)
  | unlink (recipient : Option ℕ) (flags : ℕ)
  deriving Repr, DecidableEq

/-- The proxy, with the links and the unlinks that succeeded. -/
structure DeathLinks where
  proxy : BinderProxyState := {}
  linked : List (ℕ × ℕ) := []
  unlinked : List (ℕ × ℕ) := []
  deriving Repr, DecidableEq

def deathLinkMachine : Machine DeathLinks ProxyDeathOp where
  start s := s = {}
  step s
    | .link recipient flags new add =>
      let r := s.proxy.linkToDeath recipient flags new add
      { s with
        proxy := r.1
        linked := s.linked ++ if r.2 then (recipient.map (·, flags)).toList else [] }
    | .unlink recipient flags =>
      let r := s.proxy.unlinkToDeath recipient flags
      { s with
        proxy := r.1
        unlinked := s.unlinked ++ if r.2 then (recipient.map (·, flags)).toList else [] }

/-- One link is gone from both records, and nothing else. -/
def RemovesOne (s s' : BinderProxyState) (r flags : ℕ) : Prop :=
  ∃ a l₁ l₂ ob v₁ v₂, s.made[a]? = some r ∧ ob.recipient = a ∧ ob.flags = flags ∧
    s.list = l₁ ++ a :: l₂ ∧ s'.list = l₁ ++ l₂ ∧
    s.obituaries = v₁ ++ ob :: v₂ ∧ s'.obituaries = v₁ ++ v₂

/-- `unlinkToDeath` as it should be. -/
structure UnlinkAgrees (s : DeathLinks) (r flags : ℕ) : Prop where
  succeeds : (s.proxy.unlinkToDeath (some r) flags).2 = true ↔
    s.unlinked.count (r, flags) < s.linked.count (r, flags)
  removes : (s.proxy.unlinkToDeath (some r) flags).2 = true →
    RemovesOne s.proxy (s.proxy.unlinkToDeath (some r) flags).1 r flags
  keeps : (s.proxy.unlinkToDeath (some r) flags).2 = false →
    (s.proxy.unlinkToDeath (some r) flags).1 = s.proxy

/-- If the recipient is linked with these flags, then the oldest of its links has them. -/
def OldestFits (s : BinderProxyState) (r flags : ℕ) : Prop :=
  (r, flags) ∈ s.obituaries.map s.key →
    ∀ ob, s.obituaries.find? (fun ob => s.recipientIs ob.recipient r) = some ob → ob.flags = flags

/-! Both records -/

/-- They hold the same links in the same order, those that were made and not removed. -/
structure DeathLinksInv (s : DeathLinks) : Prop where
  alive : s.proxy.bp.mObitsSent = false
  same : s.proxy.obituaries.map (·.recipient) = s.proxy.list
  nodup : s.proxy.list.Nodup
  below : ∀ a ∈ s.proxy.list, a < s.proxy.made.length
  ledger : ∀ k, s.linked.count k =
    s.unlinked.count k + (s.proxy.obituaries.map s.proxy.key).count k

section

variable {s : DeathLinks} {p : BinderProxyState} {r flags : ℕ}

theorem key_clearReference (p : BinderProxyState) (a : ℕ) : (p.clearReference a).key = p.key := rfl

theorem key_newRecipient {ob : Obituary} (h : ob.recipient < p.made.length) (bp : BpDeath) :
    ({ p.newRecipient r with bp := bp } : BinderProxyState).key ob = p.key ob := by
  simp [BinderProxyState.key, BinderProxyState.newRecipient, List.getElem?_append_left h]

theorem DeathLinksInv.recipient_lt (h : DeathLinksInv s) {ob : Obituary}
    (hob : ob ∈ s.proxy.obituaries) : ob.recipient < s.proxy.made.length :=
  h.below _ (h.same ▸ List.mem_map_of_mem hob)

theorem DeathLinksInv.link (h : DeathLinksInv s) (recipient : Option ℕ) (flags : ℕ) (new add : Bool) :
    DeathLinksInv (deathLinkMachine.step s (.link recipient flags new add)) := by
  cases recipient with
  | none => simpa [deathLinkMachine, BinderProxyState.linkToDeath] using h
  | some r =>
    have hcases := s.proxy.bp.linkToDeath_cases
      { recipient := s.proxy.made.length, flags := flags } new add
    simp only [deathLinkMachine, BinderProxyState.linkToDeath]
    generalize s.proxy.bp.linkToDeath _ new add = t at hcases ⊢
    obtain ⟨bp, err⟩ := t
    have hfresh : s.proxy.made.length ∉ s.proxy.list := fun hm => lt_irrefl _ (h.below _ hm)
    have hkeys : ∀ bp : BpDeath, s.proxy.obituaries.map
        ({ s.proxy.newRecipient r with bp := bp } : BinderProxyState).key =
          s.proxy.obituaries.map s.proxy.key := fun bp =>
      List.map_congr_left fun ob hob => key_newRecipient (h.recipient_lt hob) bp
    have hbelow : ∀ a ∈ s.proxy.list ++ [s.proxy.made.length],
        a < (s.proxy.made ++ [r]).length := fun a ha => by
      rw [List.length_append, List.length_singleton]
      rcases List.mem_append.1 ha with ha | ha
      · exact Nat.lt_succ_of_lt (h.below a ha)
      · rw [List.mem_singleton.1 ha]
        exact Nat.lt_succ_self _
    rcases hcases with ⟨hsent, -⟩ | ⟨-, herr, hsent, hvec⟩ | ⟨-, herr, hsent, hvec⟩
    · rw [h.alive] at hsent
      cases hsent
    · dsimp only at herr hsent hvec
      subst herr
      have hobs : BinderProxyState.obituaries { s.proxy.newRecipient r with bp := bp } =
          s.proxy.obituaries ++ [{ recipient := s.proxy.made.length, flags := flags }] := by
        simp [BinderProxyState.obituaries, hvec]
      simp only [ne_eq, not_true_eq_false, if_false, if_true]
      refine ⟨hsent, ?_, ?_, hbelow, fun k => ?_⟩
      · rw [hobs, List.map_append, h.same]
        rfl
      · exact List.nodup_append.2 ⟨h.nodup, List.nodup_singleton _, fun a ha b hb hab =>
          hfresh (List.mem_singleton.1 hb ▸ hab ▸ ha)⟩
      · have hlast : BinderProxyState.key { s.proxy.newRecipient r with bp := bp }
            { recipient := s.proxy.made.length, flags := flags } = (r, flags) := by
          simp [BinderProxyState.key, BinderProxyState.newRecipient]
        have hk := h.ledger k
        rw [hobs, List.map_append, List.map_singleton, hkeys, hlast]
        simp only [List.count_append, Option.map_some, Option.toList_some]
        omega
    · dsimp only at herr hsent hvec
      subst herr
      have hobs : BinderProxyState.obituaries
          (BinderProxyState.clearReference { s.proxy.newRecipient r with bp := bp }
            s.proxy.made.length) = s.proxy.obituaries := hvec
      have hlist : (s.proxy.list ++ [s.proxy.made.length]).erase s.proxy.made.length =
          s.proxy.list := by
        rw [List.erase_append_right _ hfresh, List.erase_cons_head, List.append_nil]
      simp only [ne_eq, reduceCtorEq, not_false_eq_true, if_true]
      refine ⟨hsent, ?_, ?_, ?_, fun k => ?_⟩
      · rw [hobs, h.same]
        exact hlist.symm
      · change ((s.proxy.list ++ [s.proxy.made.length]).erase s.proxy.made.length).Nodup
        rw [hlist]
        exact h.nodup
      · exact fun a ha => hbelow a (List.mem_append_left _ (hlist ▸ ha))
      · have hk := h.ledger k
        rw [← hkeys bp] at hk
        rw [hobs, key_clearReference]
        simpa using hk

theorem fits_recipient {a : ℕ} {ob : Obituary} :
    ob.fits (some a) 0 flags = true ↔ ob.recipient = a ∧ ob.flags = flags := by
  simp [Obituary.fits, @eq_comm _ a]

/-- The search in the list finds the recipient of the oldest obituary. -/
theorem DeathLinksInv.find_eq (h : DeathLinksInv s) (r : ℕ) : s.proxy.find r =
    (s.proxy.obituaries.find? fun ob => s.proxy.recipientIs ob.recipient r).map (·.recipient) := by
  rw [BinderProxyState.find, ← h.same, List.find?_map]
  rfl

/-- What `unlinkToDeath` does: it goes by the oldest link of the recipient. -/
theorem DeathLinksInv.unlink_cases (h : DeathLinksInv s) (r flags : ℕ) :
    ((∀ ob ∈ s.proxy.obituaries, s.proxy.recipientIs ob.recipient r = false) ∧
      s.proxy.unlinkToDeath (some r) flags = (s.proxy, false)) ∨
    ∃ v₁ ob v₂, s.proxy.obituaries = v₁ ++ ob :: v₂ ∧
      s.proxy.recipientIs ob.recipient r = true ∧
      (∀ ob ∈ v₁, s.proxy.recipientIs ob.recipient r = false) ∧
      ((ob.flags ≠ flags ∧ s.proxy.unlinkToDeath (some r) flags = (s.proxy, false)) ∨
        (ob.flags = flags ∧ ∃ p, s.proxy.unlinkToDeath (some r) flags = (p, true) ∧
          p.bp.mObitsSent = false ∧ p.made = s.proxy.made ∧
          p.list = v₁.map (·.recipient) ++ v₂.map (·.recipient) ∧ p.obituaries = v₁ ++ v₂)) := by
  have hfind := h.find_eq r
  cases hold : s.proxy.obituaries.find? fun ob => s.proxy.recipientIs ob.recipient r with
  | none =>
    rw [hold] at hfind
    refine .inl ⟨fun ob hob => by simpa using List.find?_eq_none.1 hold ob hob, ?_⟩
    simp [BinderProxyState.unlinkToDeath, hfind]
  | some ob =>
    rw [hold] at hfind
    obtain ⟨his, v₁, v₂, hsplit, hbefore⟩ := List.find?_eq_some_iff_append.1 hold
    refine .inr ⟨v₁, ob, v₂, hsplit, his, fun x hx => by simpa using hbefore x hx, ?_⟩
    -- no other obituary has this `JavaDeathRecipient`
    have hnd := h.nodup
    rw [← h.same, hsplit, List.map_append, List.map_cons] at hnd
    have hother : ∀ x ∈ v₁ ++ v₂, x.recipient ≠ ob.recipient := fun x hx he => by
      have hmem := List.mem_map_of_mem (f := (·.recipient)) hx
      rw [List.map_append] at hmem
      exact (List.nodup_middle.1 hnd).notMem (he ▸ hmem)
    have hbp := s.proxy.bp.unlinkToDeath_cases (some ob.recipient) 0 flags
    have hun : s.proxy.unlinkToDeath (some r) flags =
        let t := s.proxy.bp.unlinkToDeath (some ob.recipient) 0 flags
        ((match t.2.2 with
          | some ob => { s.proxy with bp := t.1 }.clearReference ob.recipient
          | none => { s.proxy with bp := t.1 }), t.2.1 = .noError || t.2.1 = .deadObject) := by
      simp only [BinderProxyState.unlinkToDeath, hfind]
      rfl
    by_cases hflags : ob.flags = flags
    · refine .inr ⟨hflags, ?_⟩
      have hfits : ob.fits (some ob.recipient) 0 flags = true := fits_recipient.2 ⟨rfl, hflags⟩
      have hno : ∀ x ∈ v₁, ¬x.fits (some ob.recipient) 0 flags = true := fun x hx hf =>
        hother x (List.mem_append_left _ hx) (fits_recipient.1 hf).1
      have hfirst : s.proxy.obituaries.find? (·.fits (some ob.recipient) 0 flags) = some ob := by
        rw [hsplit]
        exact List.find?_eq_some_iff_append.2 ⟨hfits, v₁, v₂, rfl, fun x hx => by simpa using hno x hx⟩
      rcases hbp with ⟨hsent, -⟩ | ⟨-, hnone, -⟩ | ⟨-, ob', hfound, ht, hsent, hvec⟩
      · rw [h.alive] at hsent
        cases hsent
      · cases hfirst.symm.trans hnone
      · obtain rfl : ob = ob' := Option.some.inj (hfirst.symm.trans hfound)
        refine ⟨BinderProxyState.clearReference { s.proxy with
          bp := (s.proxy.bp.unlinkToDeath (some ob.recipient) 0 flags).1 } ob.recipient, ?_, hsent,
          rfl, ?_, ?_⟩
        · rw [hun]
          simp only [ht]
          rfl
        · change s.proxy.list.erase ob.recipient = _
          rw [← h.same, hsplit, List.map_append, List.map_cons, List.erase_append_right,
            List.erase_cons_head]
          exact fun hm => (List.nodup_middle.1 hnd).notMem (List.mem_append_left _ hm)
        · refine hvec.trans ?_
          change s.proxy.obituaries.eraseP _ = _
          rw [hsplit, List.eraseP_append_right _ hno, List.eraseP_cons_of_pos hfits]
    · refine .inl ⟨hflags, ?_⟩
      rcases hbp with ⟨hsent, -⟩ | ⟨-, -, ht⟩ | ⟨-, ob', hfound, -⟩
      · rw [h.alive] at hsent
        cases hsent
      · rw [hun, ht]
        rfl
      · obtain ⟨h1, h2⟩ := fits_recipient.1 (List.find?_some hfound)
        have hmem : ob' ∈ v₁ ++ ob :: v₂ := hsplit ▸ List.mem_of_find?_eq_some hfound
        rcases List.mem_append.1 hmem with hm | hm
        · exact absurd h1 (hother ob' (List.mem_append_left _ hm))
        · rcases List.mem_cons.1 hm with rfl | hm
          · exact absurd h2 hflags
          · exact absurd h1 (hother ob' (List.mem_append_right _ hm))

theorem DeathLinksInv.unlink (h : DeathLinksInv s) (recipient : Option ℕ) (flags : ℕ) :
    DeathLinksInv (deathLinkMachine.step s (.unlink recipient flags)) := by
  have hkeep : DeathLinksInv { s with unlinked := s.unlinked ++ [] } := by simpa using h
  cases recipient with
  | none => exact hkeep
  | some r =>
    rcases h.unlink_cases r flags with ⟨-, hr⟩ | ⟨v₁, ob, v₂, hsplit, his, -, hr⟩
    · simp only [deathLinkMachine, hr]
      exact hkeep
    · rcases hr with ⟨-, hr⟩ | ⟨hflags, p, hr, hsent, hmade, hlist, hobs⟩
      · simp only [deathLinkMachine, hr]
        exact hkeep
      · simp only [deathLinkMachine, hr, if_true, Option.map_some, Option.toList_some]
        have hsame := h.same
        rw [hsplit, List.map_append, List.map_cons] at hsame
        have hnd := h.nodup
        rw [← hsame] at hnd
        have hkey : p.key = s.proxy.key := by
          funext x
          rw [BinderProxyState.key, BinderProxyState.key, hmade]
        refine ⟨hsent, ?_, ?_, fun a ha => ?_, fun k => ?_⟩
        · rw [hobs, hlist, List.map_append]
        · rw [hlist]
          exact (List.nodup_cons.1 (List.nodup_middle.1 hnd)).2
        · rw [hmade]
          refine h.below a ?_
          rw [hlist] at ha
          rw [← hsame]
          rcases List.mem_append.1 ha with ha | ha
          · exact List.mem_append_left _ ha
          · exact List.mem_append_right _ (List.mem_cons_of_mem _ ha)
        · have hk := h.ledger k
          have hob : s.proxy.key ob = (r, flags) := by
            have his' : s.proxy.made[ob.recipient]? = some r := by
              simpa [BinderProxyState.recipientIs] using his
            rw [BinderProxyState.key, hflags, List.getD_eq_getElem?_getD, his', Option.getD_some]
          rw [hsplit, List.map_append, List.map_cons, hob] at hk
          simp only [hobs, hkey, List.map_append, List.count_append, List.count_cons, beq_iff_eq,
            List.count_nil] at hk ⊢
          omega

theorem deathLinksInv_reach {ok : DeathLinks → ProxyDeathOp → Prop}
    (h : deathLinkMachine.Reach ok s) : DeathLinksInv s := by
  refine h.invariant (fun s hs => ?_) fun s op hi _ => ?_
  · cases hs
    exact ⟨rfl, rfl, List.nodup_nil, nofun, fun _ => rfl⟩
  · cases op with
    | link recipient flags new add => exact hi.link recipient flags new add
    | unlink recipient flags => exact hi.unlink recipient flags

theorem mem_key_iff {v : List Obituary} (h : ∀ ob ∈ v, ob.recipient < p.made.length) :
    (r, flags) ∈ v.map p.key ↔ ∃ ob ∈ v, p.recipientIs ob.recipient r = true ∧ ob.flags = flags := by
  rw [List.mem_map]
  refine exists_congr fun ob => and_congr_right fun hob => ?_
  simp only [BinderProxyState.key, Prod.mk.injEq, BinderProxyState.recipientIs, decide_eq_true_eq,
    List.getD_eq_getElem?_getD, List.getElem?_eq_getElem (h ob hob), Option.getD_some,
    Option.some.injEq]

end

/-- A recipient and flags are unlinked as they should be exactly when its oldest link has them, or
none of its links has. -/
theorem unlink_agrees {s : DeathLinks} (h : deathLinkMachine.Reach (fun _ _ => True) s) (r flags : ℕ) :
    UnlinkAgrees s r flags ↔ OldestFits s.proxy r flags := by
  have hi := deathLinksInv_reach h
  have hlinked : s.unlinked.count (r, flags) < s.linked.count (r, flags) ↔
      (r, flags) ∈ s.proxy.obituaries.map s.proxy.key := by
    rw [hi.ledger, ← List.count_pos_iff]
    omega
  have hmem : (r, flags) ∈ s.proxy.obituaries.map s.proxy.key ↔
      ∃ ob ∈ s.proxy.obituaries, s.proxy.recipientIs ob.recipient r = true ∧ ob.flags = flags :=
    mem_key_iff fun ob => hi.recipient_lt
  rcases hi.unlink_cases r flags with ⟨hno, hr⟩ | ⟨v₁, ob, v₂, hsplit, his, hbefore, hr⟩
  · -- the recipient has no link
    have hnone : (r, flags) ∉ s.proxy.obituaries.map s.proxy.key := fun hm => by
      obtain ⟨ob, hob, his, -⟩ := hmem.1 hm
      rw [hno ob hob] at his
      cases his
    refine iff_of_true ⟨?_, ?_, ?_⟩ fun hm => absurd hm hnone
    · rw [hr, hlinked]
      exact iff_of_false nofun hnone
    · rw [hr]
      nofun
    · rw [hr]
      exact fun _ => rfl
  · have hfirst : s.proxy.obituaries.find? (fun ob => s.proxy.recipientIs ob.recipient r) = some ob :=
      List.find?_eq_some_iff_append.2 ⟨his, v₁, v₂, hsplit, fun x hx => by simpa using hbefore x hx⟩
    have hthere : ob ∈ s.proxy.obituaries := List.mem_of_find?_eq_some hfirst
    rcases hr with ⟨hflags, hr⟩ | ⟨hflags, p, hr, -, -, hlist, hobs⟩
    · constructor
      · intro ha hm
        have hsucc := ha.succeeds.2 (hlinked.2 hm)
        rw [hr] at hsucc
        cases hsucc
      · intro hfits
        have hnone : (r, flags) ∉ s.proxy.obituaries.map s.proxy.key := fun hm =>
          hflags (hfits hm ob hfirst)
        refine ⟨?_, ?_, ?_⟩
        · rw [hr, hlinked]
          exact iff_of_false nofun hnone
        · rw [hr]
          nofun
        · rw [hr]
          exact fun _ => rfl
    · have hin : (r, flags) ∈ s.proxy.obituaries.map s.proxy.key :=
        hmem.2 ⟨ob, hthere, his, hflags⟩
      refine iff_of_true ⟨?_, ?_, ?_⟩ fun _ ob' hob' => ?_
      · rw [hr, hlinked]
        exact iff_of_true rfl hin
      · intro _
        have hmade : s.proxy.made[ob.recipient]? = some r := by
          simpa [BinderProxyState.recipientIs] using his
        refine ⟨ob.recipient, v₁.map (·.recipient), v₂.map (·.recipient), ob, v₁, v₂, hmade, rfl,
          hflags, ?_, ?_, hsplit, ?_⟩
        · rw [← hi.same, hsplit, List.map_append, List.map_cons]
        · rw [hr]
          exact hlist
        · rw [hr]
          exact hobs
      · rw [hr]
        nofun
      · rw [hfirst] at hob'
        cases hob'
        exact hflags

/-- Recipient 5 is linked with flags 0 and then with flags 1. -/
def linkedTwice : List ProxyDeathOp := [.link (some 5) 0 true true, .link (some 5) 1 true true]

theorem unlink_agrees_oldest :
    UnlinkAgrees (deathLinkMachine.exec {} linkedTwice) 5 0 ∧
      ((deathLinkMachine.exec {} linkedTwice).proxy.unlinkToDeath (some 5) 0).2 = true := by
  have hreach : deathLinkMachine.Reach (fun _ _ => True) (deathLinkMachine.exec {} linkedTwice) :=
    .exec (.start rfl) (by simp [Machine.Admits, linkedTwice])
  have hagrees := (unlink_agrees hreach 5 0).2 fun _ ob hob => by
    have hflags : ((deathLinkMachine.exec {} linkedTwice).proxy.obituaries.find? fun ob =>
      (deathLinkMachine.exec {} linkedTwice).proxy.recipientIs ob.recipient 5).map (·.flags) =
        some 0 := by decide
    rw [hob] at hflags
    exact Option.some_inj.1 hflags
  exact ⟨hagrees, hagrees.succeeds.2 (by decide)⟩

/-- The newer link cannot be removed before the older one. -/
theorem unlink_newer_fails : ¬∀ s, deathLinkMachine.Reach (fun _ _ => True) s → ∀ r flags,
    UnlinkAgrees s r flags := by
  intro hall
  have hreach : deathLinkMachine.Reach (fun _ _ => True) (deathLinkMachine.exec {} linkedTwice) :=
    .exec (.start rfl) (by simp [Machine.Admits, linkedTwice])
  have hsucc := (hall _ hreach 5 1).succeeds
  revert hsucc
  decide

end Binder

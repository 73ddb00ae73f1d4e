import MailBridge.Proofs.Recovery
import MailBridge.Proofs.Stability

/-! # Whether a new epoch is told

A round can begin a new epoch in two of its changes. A full listing begins one if the remote mailbox
was made anew or the damage cannot be mended, and the tally tells of it. A batch for which there are
not enough UIDs begins one before the listing that follows, and the tally is that of the listing: it
tells of an epoch only if the listing begins another.
-/

namespace MailBridge

namespace Mailbox

variable {m m' : Mailbox} {now : Instant} {tally : Tally}

theorem raiseUidNext_validity (m : Mailbox) :
    m.raiseUidNext.uids.validity = m.uids.validity := by
  unfold raiseUidNext
  split
  · rfl
  · exact UidSpace.raiseAbove_validity ..

theorem mend_validity (now : Instant) (invalidate : Bool) (m : Mailbox) :
    (m.mend now invalidate).2.uids.validity =
      if (m.mend now invalidate).1 then m.uids.validity.next now else m.uids.validity := by
  have hrenewed : (m.invalidate now).2.uids.validity = m.uids.validity.next now := by
    rw [(invalidate_eq now m).1, UidSpace.renew_validity]
  unfold mend
  split
  · exact hrenewed
  · split
    · rfl
    · split
      · exact raiseUidNext_validity m
      · exact hrenewed

theorem mend_fst_of_sound (hnone : m.desync? = none) (now : Instant) (invalidate : Bool) :
    (m.mend now invalidate).1 = invalidate := by
  unfold mend
  rw [hnone]
  cases invalidate <;> rfl

theorem mend_distinct (now : Instant) (invalidate : Bool) (m : Mailbox) :
    (m.mend now invalidate).2.store.Distinct := by
  obtain ⟨_, hrenewed⟩ | ⟨_, ho, _⟩ := mend_spec now invalidate m
  · rw [hrenewed]
    exact (orderly_invalidate now m).distinct
  · exact ho.distinct

theorem Settled.validity (hd : m.store.Distinct) (h : Settled m m') :
    m'.uids.validity = m.uids.validity := by
  obtain ⟨between, ⟨edits, htends, rfl⟩, hflushed⟩ := h
  have hcontinues := continues_editAll hd fun e he => Edit.renews_of_tends (htends e he)
  obtain rfl | rfl := hflushed
  · exact hcontinues.validity
  · rw [(flushed_spec _).1, hcontinues.validity]

/-- The epoch after a change is the one before it, or a later one of which the tally tells. -/
def TellsEpoch (m : Mailbox) (tally : Tally) (m' : Mailbox) : Prop :=
  ∃ now, m'.uids.validity =
    if tally.invalidated then m.uids.validity.next now else m.uids.validity

namespace TellsEpoch

theorem of_eq (h : m.TellsEpoch tally m') {n n' : Mailbox} (huids : n.uids = m.uids)
    (huids' : n'.uids = m'.uids) : n.TellsEpoch tally n' := by
  obtain ⟨now, hvalidity⟩ := h
  exact ⟨now, by rw [huids, huids', hvalidity]⟩

theorem le (h : m.TellsEpoch tally m') : m.uids.validity.val ≤ m'.uids.validity.val := by
  obtain ⟨now, hvalidity⟩ := h
  rw [hvalidity]
  split
  · exact UidValidity.le_next ..
  · exact Nat.le_refl _

/-- As long as a later epoch can be told from this one, one has begun exactly if the tally tells
so. -/
theorem ne_iff (h : m.TellsEpoch tally m') (hroom : m.uids.validity.val < maxWord) :
    m'.uids.validity ≠ m.uids.validity ↔ tally.invalidated = true := by
  obtain ⟨now, hvalidity⟩ := h
  cases htold : tally.invalidated with
  | false => simpa [htold] using hvalidity
  | true =>
      refine iff_of_true (fun hsame => ?_) rfl
      rw [htold, if_pos rfl] at hvalidity
      have hlt := UidValidity.lt_next hroom now
      rw [← hvalidity, hsame] at hlt
      exact Nat.lt_irrefl _ hlt

end TellsEpoch

theorem reconcile_tellsEpoch {settings : SyncSettings} {sessions : Nat} {invalidate : Bool}
    {prepared : List MessageContent} {listing : Listing} {cursor : Option String}
    {corrections : List Correction}
    (hok : m.reconcile settings sessions now invalidate prepared listing cursor =
      (.ok (tally, corrections), m')) :
    m.TellsEpoch tally m' := by
  have hsettled := settled_reconcile settings sessions now invalidate prepared listing cursor m
  rw [hok] at hsettled
  refine ⟨now, ?_⟩
  rw [hsettled.validity (mend_distinct ..), mend_validity, (mends_reconcile hok).2.1]

theorem applyBatch_tellsEpoch {settings : SyncSettings} {sessions : Nat}
    {since? : Option (Option String)} {events : List Prepared} {cursor : Option String}
    (ho : m.Orderly) (hok : m.applyBatch settings sessions since? events cursor = (.ok tally, m')) :
    m.TellsEpoch tally m' := by
  have hsettled := settled_applyBatch settings sessions since? events cursor m
  rw [hok] at hsettled
  refine ⟨0, ?_⟩
  rw [hsettled.validity ho.distinct, (mends_applyBatch ho hok).2, if_neg Bool.false_ne_true]

end Mailbox

namespace Site

open Mailbox

variable {s s' : Site} {tally : Tally} {since? : Option (Option String)} {batch : EventBatch}

/-- A full listing tells whether it began a new epoch. Where the identities were sound, it begins
one exactly if the remote mailbox was made anew. -/
theorem resyncFrom_tellsEpoch {fallback : Option String} (h : s.Undisturbed)
    (hok : s.resyncFrom fallback = (.ok tally, s')) :
    s.shared.mailbox.TellsEpoch tally s'.shared.mailbox ∧
      (s.shared.mailbox.desync? = none →
        tally.invalidated = s.remote.listing.answer.recreated) := by
  obtain ⟨before, invalidate, prepared, corrections, m', _, _, hundisturbed, hreconcile, hkept⟩ :=
    resyncFrom_kept hok
  obtain ⟨hshared, hinvalidate⟩ := hundisturbed h
  refine ⟨?_, fun hnone => ?_⟩
  · have huids : s.shared.mailbox.uids = before.shared.mailbox.startJournal.uids := by
      rw [hshared]
      rfl
    refine (reconcile_tellsEpoch hreconcile).of_eq huids ?_
    rw [hkept, kept_eq]
  · have hnone' : before.shared.mailbox.startJournal.desync? = none := by
      rw [hshared]
      exact hnone
    rw [(mends_reconcile hreconcile).2.1, mend_fst_of_sound hnone', hinvalidate, hnone]
    exact Bool.or_false _

theorem apply_tellsEpoch (h : s.Undisturbed) (hroom : ¬ s.Exhausts since? batch)
    (hok : s.apply since? batch = (.ok tally, s')) :
    s.shared.mailbox.TellsEpoch tally s'.shared.mailbox := by
  unfold apply at hok
  split at hok
  · exact (resyncFrom_tellsEpoch h hok).1
  · next hlists =>
    obtain ⟨hgap, hnone⟩ : batch.gap = false ∧ s.shared.mailbox.desync? = none := by
      simpa using hlists
    split at hok
    · next hevents => exact absurd ⟨hgap, hnone, congrArg Prod.fst hevents⟩ hroom
    · next s₁ hevents =>
      -- the batch has been taken back, so the listing finds the epoch as it was
      obtain ⟨hunchanged, _, t, hrecords, ht⟩ := applyEvents_failed h hnone hevents
      have hundisturbed : s₁.Undisturbed := by
        unfold Undisturbed
        rw [ht, hrecords.remote]
        exact h
      have huids : s₁.shared.mailbox.keepChanges.uids = s.shared.mailbox.keepChanges.uids := by
        rw [hunchanged.outside]
      exact (resyncFrom_tellsEpoch hundisturbed hok).1.of_eq huids.symm rfl
    · obtain ⟨events, t, _, hresult, hsite⟩ := applyEvents_alone h since? batch
      rw [hok] at hresult hsite
      have hshared := congrArg Site.shared hsite
      dsimp only at hresult hshared
      cases hmutate : (s.shared.mutate
          (·.applyBatch s.settings s.shared.sessions since? events batch.cursor)).1 with
      | error e =>
          rw [hmutate] at hresult
          cases hresult
      | ok tally' =>
          rw [hmutate] at hresult
          cases hresult
          obtain ⟨hbatch, _⟩ := SharedMailbox.conclude_ok hmutate
          have ho : s.shared.mailbox.startJournal.Orderly :=
            ⟨(desync?_eq_none.1 hnone).1.distinct, (desync?_eq_none.1 hnone).1.below⟩
          refine (applyBatch_tellsEpoch ho (Prod.ext hbatch rfl)).of_eq rfl ?_
          rw [hshared, SharedMailbox.mailbox_mutate_of_kept hmutate, kept_eq]

/-- A batch for which there are not enough UIDs has begun a new epoch by the time it comes to its
end, but the tally tells only of what the listing did after that. -/
theorem apply_of_exhausts_ok (h : s.Undisturbed) (hexhausts : s.Exhausts since? batch)
    (hok : s.apply since? batch = (.ok tally, s')) :
    (s.shared.mailbox.uids.validity.next s.clock).val ≤ s'.shared.mailbox.uids.validity.val ∧
      tally.invalidated = s.remote.listing.answer.recreated := by
  obtain ⟨e, _, hfailed, _⟩ | ⟨validity, t, hrenewed, hrecords, happly⟩ :=
    apply_of_exhausts h hexhausts
  · rw [hok] at hfailed
    cases hfailed
  · obtain ⟨hstore, hpending, huids⟩ := SharedMailbox.invalidate_ok hrenewed
    have hshared : t.shared = (s.shared.invalidate s.clock).2 := hrecords.passes.shared
    rw [← hshared] at hstore hpending huids
    rw [happly] at hok
    obtain ⟨htells, htold⟩ := resyncFrom_tellsEpoch (hrecords.passes.undisturbed h) hok
    refine ⟨?_, ?_⟩
    · have hle := htells.le
      rw [huids, UidSpace.renew_validity] at hle
      exact hle
    · rw [htold (desync?_of_empty hstore hpending), hrecords.remote]

end Site

namespace Errand

variable {errand : Errand} {s s' : Site} {tally : Tally}

/-- A round that nobody disturbs and that comes to its end began a new epoch exactly if the tally
tells so or the batch ran out of UIDs; and if it did, the tally is silent unless the remote mailbox
was made anew. -/
theorem run_tells_renewal (halone : s.Alone)
    (hvalidity : s.shared.mailbox.uids.validity.val < maxWord)
    (hok : errand.run s = (.ok tally, s')) :
    (s'.shared.mailbox.uids.validity ≠ s.shared.mailbox.uids.validity ↔
        tally.invalidated = true ∨ errand.RunsOut s) ∧
      (errand.RunsOut s → tally.invalidated = s.remote.listing.answer.recreated) := by
  by_cases hout : errand.RunsOut s
  · obtain ⟨s₁, since?, batch, hbrings, hexhausts⟩ := hout
    obtain ⟨hshared, hclock, hundisturbed⟩ := hbrings.alone halone
    rw [hbrings.run_eq] at hok
    obtain ⟨hlater, htold⟩ := Site.apply_of_exhausts_ok hundisturbed hexhausts hok
    rw [hbrings.listing halone] at htold
    refine ⟨iff_of_true (fun hsame => ?_) (.inr ⟨_, _, _, hbrings, hexhausts⟩), fun _ => htold⟩
    have hlt := UidValidity.lt_next hvalidity s.clock
    rw [hshared, hclock, hsame] at hlater
    exact absurd (Nat.lt_of_lt_of_le hlt hlater) (Nat.lt_irrefl _)
  · refine ⟨?_, fun h => absurd h hout⟩
    rw [or_iff_left hout]
    obtain rfl | ⟨s₁, since?, batch, hbrings, happly⟩ := run_cases hok
    · exact (Site.resyncFrom_tellsEpoch halone.1 hok).1.ne_iff hvalidity
    · obtain ⟨hshared, _, hundisturbed⟩ := hbrings.alone halone
      rw [← hshared] at hvalidity ⊢
      exact (Site.apply_tellsEpoch hundisturbed (fun h => hout ⟨_, _, _, hbrings, h⟩)
        happly).ne_iff hvalidity

/-- The round that a full mailbox runs out of UIDs in begins an epoch, and its tally is silent. -/
theorem run_tells_renewal_of_full : full.Alone ∧
    full.shared.mailbox.uids.validity.val < maxWord ∧
    ∃ tally s', (apply none oneMore).run full = (.ok tally, s') ∧
      tally.invalidated = full.remote.listing.answer.recreated ∧
      s'.shared.mailbox.uids.validity ≠ full.shared.mailbox.uids.validity := by
  have hvalidity : full.shared.mailbox.uids.validity.val < maxWord := by decide +kernel
  have hrunsOut : (apply none oneMore).RunsOut full :=
    ⟨_, _, _, .apply none oneMore, exhausts_full⟩
  obtain ⟨hiff, htold⟩ := run_tells_renewal alone_full hvalidity (Prod.ext run_full rfl)
  exact ⟨alone_full, hvalidity, _, _, Prod.ext run_full rfl, htold hrunsOut, hiff.2 (.inr hrunsOut)⟩

/-- A tally that tells of no new epoch although one has begun. -/
theorem full_renewed_silently : full.Alone ∧
    full.shared.mailbox.checkIntegrity = .ok () ∧
    full.shared.mailbox.uids.validity.val < maxWord ∧
    ((apply none oneMore).run full).1 =
      .ok { resynced := true, invalidated := false, created := 2 } ∧
    ((apply none oneMore).run full).2.shared.mailbox.uids.validity ≠
      full.shared.mailbox.uids.validity := by
  have hvalidity : full.shared.mailbox.uids.validity.val < maxWord := by decide +kernel
  refine ⟨alone_full, rfl, hvalidity, run_full, fun hsame => ?_⟩
  have hlt := UidValidity.lt_next hvalidity full.clock
  have hle : (full.shared.mailbox.uids.validity.next full.clock).val ≤
      ((apply none oneMore).run full).2.shared.mailbox.uids.validity.val :=
    (Site.apply_of_exhausts_ok alone_full.1 exhausts_full (Prod.ext run_full rfl)).1
  rw [hsame] at hle
  exact absurd (hlt.trans_le hle) (Nat.lt_irrefl _)

end Errand

end MailBridge

import MailBridge.Proofs.Mending
import MailBridge.Proofs.Recovery

/-! # Rounds that keep UIDs

A round that comes to its end without having run out of UIDs begins no new epoch in a sound mailbox
whose remote mailbox was not made anew. A message whose remote name was known keeps its UID, and all
UIDs that the round issues are those that were still to be issued: neither a gap in the events, nor
a listing that repeats messages, nor messages that come and go within a batch make clients fetch
again what they have.
-/

namespace MailBridge

namespace Mailbox

variable {m m' m'' : Mailbox} {uids : List Uid} {tally : Tally}

/-- Messages have been looked after, and those that wait may then have been expunged: their UIDs are
told. -/
def SettledTelling (m : Mailbox) (uids : List Uid) (m' : Mailbox) : Prop :=
  ∃ between sessions, EditedBy Edit.tends m between ∧
    between.flushUnlessSelected sessions = (uids, m')

theorem telling_applyBatch {settings : SyncSettings} {sessions : Nat}
    {since? : Option (Option String)} {events : List Prepared} {cursor : Option String}
    (hok : m.applyBatch settings sessions since? events cursor = (.ok tally, m')) :
    m.SettledTelling tally.expunged m' := by
  unfold applyBatch at hok
  split at hok
  · cases hok
  · have htended := tended_applyEvents settings.updatesFlags {} events m
    split at hok
    · cases hok
    · next m₁ hevents =>
      rw [hevents] at htended
      have hcursor : EditedBy Edit.tends m₁
          (if cursor.isSome then m₁.setCursor cursor else m₁) := by
        split
        · exact .single (.setCursor cursor) rfl rfl
        · exact .refl m₁
      cases hok
      exact ⟨_, sessions, htended.trans hcursor, rfl⟩

theorem telling_reconcile {settings : SyncSettings} {sessions : Nat} {now : Instant}
    {invalidate : Bool} {prepared : List MessageContent} {listing : Listing}
    {cursor : Option String} {corrections : List Correction}
    (hok : m.reconcile settings sessions now invalidate prepared listing cursor =
      (.ok (tally, corrections), m')) :
    (m.mend now invalidate).2.SettledTelling tally.expunged m' := by
  have htended := tended_correctAll settings.updatesFlags prepared listing.taken
    { resynced := true, invalidated := (m.mend now invalidate).1 }
    ((m.mend now invalidate).2.store.corrections listing.messages) (m.mend now invalidate).2
  unfold reconcile at hok
  dsimp only at hok
  split at hok
  · cases hok
  · next hcorrected =>
    rw [hcorrected] at htended
    cases hok
    exact ⟨_, sessions, htended.trans (.single (.setCursor cursor) rfl rfl), rfl⟩

theorem mend_of_sound (hnone : m.desync? = none) (now : Instant) :
    m.mend now false = (false, m) := by
  unfold mend
  rw [hnone]
  rfl

/-! ## What keeps UIDs -/

/-- A mailbox that has kept its UIDs, and the UIDs that were expunged on the way. A message that
was not there before has a new name and a new UID. -/
structure Steady (m : Mailbox) (uids : List Uid) (m' : Mailbox) : Prop where
  validity : m'.uids.validity = m.uids.validity
  bound : m.uids.bound ≤ m'.uids.bound
  origin : ∀ r' ∈ m'.store.messages,
    (∃ r ∈ m.store.messages, r'.uid = r.uid ∧ r'.remoteId = r.remoteId) ∨
      m.uids.bound ≤ r'.uid.val ∧ ∀ r ∈ m.store.messages, r.remoteId ≠ r'.remoteId
  expunged : ∀ uid ∈ uids,
    (∃ r ∈ m.store.messages, r.uid = uid) ∨ m.uids.bound ≤ uid.val

theorem Steady.of_eq (h : m.Steady uids m') {n n' : Mailbox} (huids : n.uids = m.uids)
    (hmessages : n.store.messages = m.store.messages) (huids' : n'.uids = m'.uids)
    (hmessages' : n'.store.messages = m'.store.messages) : n.Steady uids n' where
  validity := by rw [huids, huids', h.validity]
  bound := by rw [huids, huids']; exact h.bound
  origin := by rw [huids, hmessages, hmessages']; exact h.origin
  expunged := by rw [huids, hmessages]; exact h.expunged

theorem EditedBy.steady (hd : m.store.Distinct) (hi : m.Indexed) (h : EditedBy Edit.tends m m') :
    m.Steady [] m' := by
  obtain ⟨hkeeps, _⟩ := h.persists hd
  obtain ⟨edits, htends, rfl⟩ := h
  have hcontinues := continues_editAll hd fun e he => Edit.renews_of_tends (htends e he)
  have hindexed := Indexed.editAll hd hi edits
  refine ⟨hcontinues.validity, hcontinues.bound, fun r' hr' => ?_, nofun⟩
  rcases hcontinues.origin r' hr' with ⟨r, hr, hbecomes⟩ | hnew
  · exact .inl ⟨r, hr, hbecomes.uid, hbecomes.remoteId⟩
  · -- a message with the same name would still be there, and then it would be this one
    by_cases hknown : ∃ r ∈ m.store.messages, r.remoteId = r'.remoteId
    · obtain ⟨r, hr, hname⟩ := hknown
      obtain ⟨x, hx, hpersists⟩ := hkeeps r hr
      have huid := (hindexed r'.remoteId).uid_eq hr' hx rfl (hpersists.remoteId.trans hname)
      exact .inl ⟨r, hr, huid.trans hpersists.uid, hname.symm⟩
    · exact .inr ⟨hnew, fun r hr hname => hknown ⟨r, hr, hname⟩⟩

theorem expunged_flushPending (m : Mailbox) :
    ∀ uid ∈ m.flushPending.1, ∃ r ∈ m.store.messages, r.uid = uid := by
  unfold flushPending
  split
  · nofun
  · unfold settleRemoval
    dsimp only
    split
    · nofun
    · intro uid huid
      obtain ⟨r, hr, rfl⟩ := List.mem_map.1 huid
      exact ⟨r, (MessageStore.mem_removed.1 hr).1, rfl⟩

theorem Steady.flushUnlessSelected (h : m.Steady [] m') {sessions : Nat}
    (hflush : m'.flushUnlessSelected sessions = (uids, m'')) : m.Steady uids m'' := by
  unfold Mailbox.flushUnlessSelected at hflush
  split at hflush
  · have huids : m'.flushPending.1 = uids := congrArg Prod.fst hflush
    have hmailbox : m'.flushPending.2 = m'' := congrArg Prod.snd hflush
    obtain ⟨hspace, _, hsub⟩ := flushed_spec m'
    rw [hmailbox] at hspace hsub
    refine ⟨?_, ?_, fun r hr => h.origin r (hsub r hr), fun uid huid => ?_⟩
    · rw [hspace]
      exact h.validity
    · rw [hspace]
      exact h.bound
    · obtain ⟨r', hr', rfl⟩ := expunged_flushPending m' uid (huids ▸ huid)
      exact (h.origin r' hr').imp (fun ⟨r, hr, hsame, _⟩ => ⟨r, hr, hsame.symm⟩) And.left
  · cases hflush
    exact h

theorem SettledTelling.steady (hsound : m.checkIntegrity = .ok ())
    (h : m.SettledTelling uids m') : m.Steady uids m' := by
  obtain ⟨ho, hi⟩ := checkIntegrity_iff.1 hsound
  obtain ⟨between, sessions, htended, hflush⟩ := h
  exact (htended.steady ho.distinct hi).flushUnlessSelected hflush

theorem Steady.kept (h : m.startJournal.Steady uids m') :
    m.Steady uids (m'.editAll [.commit, .takeUnsaved]).keepChanges := by
  rw [kept_eq]
  exact h.of_eq rfl rfl rfl rfl

end Mailbox

namespace Site

open Mailbox

variable {s s' : Site} {tally : Tally} {since? : Option (Option String)} {batch : EventBatch}

theorem resyncFrom_steady {fallback : Option String} (h : s.Undisturbed)
    (hsound : s.shared.mailbox.checkIntegrity = .ok ())
    (hlisting : s.remote.listing.answer.recreated = false)
    (hok : s.resyncFrom fallback = (.ok tally, s')) :
    s.shared.mailbox.Steady tally.expunged s'.shared.mailbox := by
  obtain ⟨before, invalidate, prepared, corrections, m', _, _, hundisturbed, hreconcile, hkept⟩ :=
    resyncFrom_kept hok
  obtain ⟨hshared, hinvalidate⟩ := hundisturbed h
  have hnone : s.shared.mailbox.desync? = none := desync?_eq_none.2 (checkIntegrity_iff.1 hsound)
  have hnone' : s.shared.mailbox.startJournal.desync? = none := hnone
  obtain rfl : invalidate = false := by rw [hinvalidate, hlisting, hnone]; rfl
  have htelling := telling_reconcile hreconcile
  rw [hshared, mend_of_sound hnone'] at htelling
  rw [hkept]
  exact (htelling.steady (m := s.shared.mailbox.startJournal) hsound).kept

/-- A batch that finds enough UIDs keeps those that have been issued, even if it does not match and
all messages are listed instead. -/
theorem apply_steady (h : s.Undisturbed) (hsound : s.shared.mailbox.checkIntegrity = .ok ())
    (hlisting : s.remote.listing.answer.recreated = false) (hroom : ¬ s.Exhausts since? batch)
    (hok : s.apply since? batch = (.ok tally, s')) :
    s.shared.mailbox.Steady tally.expunged s'.shared.mailbox := by
  have hnone : s.shared.mailbox.desync? = none := desync?_eq_none.2 (checkIntegrity_iff.1 hsound)
  unfold apply at hok
  split at hok
  · exact resyncFrom_steady h hsound hlisting hok
  · next hlists =>
    have hgap : batch.gap = false := by simpa [hnone] using hlists
    split at hok
    · next hevents => exact absurd ⟨hgap, hnone, congrArg Prod.fst hevents⟩ hroom
    · next s₁ hevents =>
      -- the batch has been taken back, so the listing finds the mailbox as it was
      obtain ⟨hunchanged, _, t, hrecords, ht⟩ := applyEvents_failed h hnone hevents
      have hremote : s₁.remote = s.remote := by
        rw [ht]
        exact hrecords.remote
      have hundisturbed : s₁.Undisturbed := by
        unfold Undisturbed
        rw [hremote]
        exact h
      have hsteady := resyncFrom_steady hundisturbed
        (SharedMailbox.sound_of_unchanged hunchanged hsound) (hremote ▸ hlisting) hok
      have huids : s₁.shared.mailbox.keepChanges.uids = s.shared.mailbox.keepChanges.uids := by
        rw [hunchanged.outside]
      exact hsteady.of_eq huids.symm hunchanged.messages.symm rfl rfl
    · obtain ⟨events, t, _, hresult, hsite⟩ := applyEvents_alone h since? batch
      rw [hok] at hresult hsite
      have hshared := congrArg Site.shared hsite
      dsimp only at hresult hshared
      cases hmutate : (s.shared.mutate
          (·.applyBatch s.settings s.shared.sessions since? events batch.cursor)).1 with
      | error e =>
          rw [hmutate] at hresult
          cases hresult
      | ok tally' =>
          rw [hmutate] at hresult
          cases hresult
          obtain ⟨hbatch, _⟩ := SharedMailbox.conclude_ok hmutate
          have htelling := telling_applyBatch (Prod.ext hbatch rfl)
          rw [hshared, SharedMailbox.mailbox_mutate_of_kept hmutate]
          exact (htelling.steady (m := s.shared.mailbox.startJournal) hsound).kept

end Site

namespace Errand

open Mailbox

variable {errand : Errand} {s s' : Site} {tally : Tally}

theorem run_steady (halone : s.Alone) (hsound : s.shared.mailbox.checkIntegrity = .ok ())
    (hlisting : s.remote.listing.answer.recreated = false) (hroom : ¬ errand.RunsOut s)
    (hok : errand.run s = (.ok tally, s')) :
    s.shared.mailbox.Steady tally.expunged s'.shared.mailbox := by
  have happly {s₁ : Site} {since? : Option (Option String)} {batch : EventBatch}
      (hbrings : errand.Brings s s₁ since? batch) (hremote : s₁.remote.listing = s.remote.listing) :
      s.shared.mailbox.Steady tally.expunged s'.shared.mailbox := by
    obtain ⟨hshared, _, hundisturbed⟩ := hbrings.alone halone
    rw [hbrings.run_eq] at hok
    rw [← hshared] at hsound ⊢
    rw [← hremote] at hlisting
    exact Site.apply_steady hundisturbed hsound hlisting
      (fun hexhausts => hroom ⟨_, _, _, hbrings, hexhausts⟩) hok
  cases errand with
  | apply since? batch => exact happly (.apply since? batch) rfl
  | resync => exact Site.resyncFrom_steady halone.1 hsound hlisting hok
  | sync =>
      cases hfetch : s.fetch s.shared.mailbox.cursor with
      | mk result s₁ =>
          cases result with
          | ok batch =>
              obtain ⟨batches, _, _, _, _, rfl⟩ := (Site.fetch_passes halone hfetch).2 _ rfl
              exact happly (.sync hfetch) rfl
          | error halt =>
              simp only [run, Site.sync, hfetch] at hok
              cases hok

/-- A round that comes to its end without having run out of UIDs begins no new epoch. Messages that
are there before and after it have the same UID exactly if they have the same remote name, and all
other UIDs, those of messages that have gone again included, are among those that were still to be
issued. -/
theorem run_keeps_uids (halone : s.Alone) (hsound : s.shared.mailbox.checkIntegrity = .ok ())
    (hlisting : s.remote.listing.answer.recreated = false) (hroom : ¬ errand.RunsOut s)
    (hok : errand.run s = (.ok tally, s')) :
    s'.shared.mailbox.uids.validity = s.shared.mailbox.uids.validity ∧
    (∀ r ∈ s.shared.mailbox.store.messages, ∀ r' ∈ s'.shared.mailbox.store.messages,
      r'.remoteId = r.remoteId ↔ r'.uid = r.uid) ∧
    (∀ uid : Uid, (∃ r' ∈ s'.shared.mailbox.store.messages, r'.uid = uid) ∨ uid ∈ tally.expunged →
      (∀ r ∈ s.shared.mailbox.store.messages, r.uid ≠ uid) →
        ∃ next, s.shared.mailbox.uids.next? = some next ∧ next.val ≤ uid.val) := by
  obtain ⟨hvalidity, _, horigin, hexpunged⟩ := run_steady halone hsound hlisting hroom hok
  obtain ⟨ho, hi⟩ := checkIntegrity_iff.1 hsound
  -- a UID that is not below the bound is one that was still to be issued
  have hnext {uid : Uid} (hbound : s.shared.mailbox.uids.bound ≤ uid.val) :
      ∃ next, s.shared.mailbox.uids.next? = some next ∧ next.val ≤ uid.val := by
    cases hnext : s.shared.mailbox.uids.next? with
    | none =>
        rw [UidSpace.bound_of_exhausted hnext] at hbound
        have hlt := uid.val_lt
        omega
    | some next => exact ⟨next, rfl, UidSpace.bound_of_next? hnext ▸ hbound⟩
  refine ⟨hvalidity, fun r hr r' hr' => ?_, fun uid hcases hnew => ?_⟩
  · rcases horigin r' hr' with ⟨x, hx, huid, hname⟩ | ⟨hbound, hunknown⟩
    · rw [huid, hname]
      constructor
      · exact fun hsame => (hi r.remoteId).uid_eq hx hr hsame rfl
      · exact fun hsame => by rw [ho.distinct.eq_of_uid_eq hx hr hsame]
    · constructor
      · exact fun hsame => absurd hsame.symm (hunknown r hr)
      · intro hsame
        have hbelow := ho.below r hr
        rw [hsame] at hbound
        omega
  · rcases hcases with ⟨r', hr', rfl⟩ | huid
    · rcases horigin r' hr' with ⟨r, hr, huid, _⟩ | ⟨hbound, _⟩
      · exact absurd huid.symm (hnew r hr)
      · exact hnext hbound
    · rcases hexpunged uid huid with ⟨r, hr, hsame⟩ | hbound
      · exact absurd hsame (hnew r hr)
      · exact hnext hbound

/-- A batch in which a new message goes again and an old one comes again after it has gone. -/
def restless : EventBatch where
  events :=
    [.created { id := "c" }, .removed "c", .removed "b", .created { id := "d" },
      .created { id := "b" }]

theorem run_restless : (apply none restless).run Site.withLeftovers =
    (.ok { created := 2, updated := 1, removed := 2,
           expunged := [⟨⟨2, by decide, by decide⟩⟩, ⟨⟨3, by decide, by decide⟩⟩] },
      ((apply none restless).run Site.withLeftovers).2) :=
  Prod.ext rfl rfl

theorem not_runsOut_restless : ¬ (apply none restless).RunsOut Site.withLeftovers := by
  rintro ⟨_, _, _, hbrings, hexhausts⟩
  cases hbrings
  have hroom : (Site.withLeftovers.applyEvents none restless).1 ≠
      .error (.failed (.mailbox .uidsExhausted)) := by decide +kernel
  exact hroom hexhausts.exhausted

theorem run_keeps_uids_restless : Site.withLeftovers.Alone ∧
    Site.withLeftovers.shared.mailbox.checkIntegrity = .ok () ∧
    Site.withLeftovers.remote.listing.answer.recreated = false ∧
    ¬ (apply none restless).RunsOut Site.withLeftovers ∧
    ∃ tally s', (apply none restless).run Site.withLeftovers = (.ok tally, s') ∧
      s'.shared.mailbox.uids.validity = Site.withLeftovers.shared.mailbox.uids.validity ∧
      ∀ r ∈ Site.withLeftovers.shared.mailbox.store.messages,
        ∀ r' ∈ s'.shared.mailbox.store.messages, r'.remoteId = r.remoteId ↔ r'.uid = r.uid := by
  have halone : Site.withLeftovers.Alone := ⟨⟨rfl, rfl⟩, nofun⟩
  refine ⟨halone, rfl, rfl, not_runsOut_restless, _, _, run_restless, ?_⟩
  obtain ⟨hvalidity, hsame, _⟩ := run_keeps_uids halone rfl rfl not_runsOut_restless run_restless
  exact ⟨hvalidity, hsame⟩

end Errand

end MailBridge

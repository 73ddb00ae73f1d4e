import Mathlib.Data.List.TakeWhile
import MailBridge.Proofs.Alone

/-! # What a failed round leaves

A round that fails leaves the mailbox and the cache as they were, whatever part of it failed, unless
a batch ran out of UIDs: then a new epoch has been begun and kept before all messages are listed,
and it stays if the listing fails.
-/

namespace MailBridge

namespace Mailbox

variable {m m' : Mailbox}

theorem not_reassigns {edits : List Edit} {between : Mailbox} (hd : m.store.Distinct)
    (hi : m.Indexed) (hno : ∀ e ∈ edits, e.renews = false)
    (htended : EditedBy Edit.tends m.startJournal between)
    (hsub : ∀ r ∈ (m.startJournal.editAll edits).store.messages, r ∈ between.store.messages)
    (id : RemoteId) : ¬ m.Reassigns edits id := by
  rintro ⟨r, hr, r', hr', hid, hid', hne⟩
  have hall : (edits.takeWhile fun e => !e.renews) = edits :=
    List.takeWhile_eq_self_iff.2 fun e he => by simp [hno e he]
  rw [hall] at hr'
  obtain ⟨x, hx, hpersists⟩ := (htended.persists (m := m.startJournal) hd).1 r hr
  -- the message is still there, so the index is right about its name
  have hindexed : between.Indexed := by
    obtain ⟨edits', _, rfl⟩ := htended
    exact Indexed.editAll (m := m.startJournal) hd hi edits'
  have hsame := (hindexed id).uid_eq hx (hsub r' hr') (hpersists.remoteId.trans hid) hid'
  exact hne (hpersists.uid.symm.trans hsame)

theorem Settled.rollback (hd : m.store.Distinct) (h : Settled m.startJournal m') :
    ∃ edits store, m' = m.startJournal.editAll edits ∧
      m'.rollback = { m.keepChanges with store } ∧ store.messages = m.store.messages ∧
      (m.Indexed → store = m.store) := by
  obtain ⟨between, htended, hcases⟩ := h
  obtain ⟨edits, hno, hedits, hsub⟩ : ∃ edits : List Edit, (∀ e ∈ edits, e.renews = false) ∧
      m' = m.startJournal.editAll edits ∧
      ∀ r ∈ m'.store.messages, r ∈ between.store.messages := by
    obtain ⟨edits, htends, hbetween⟩ := htended
    have hno : ∀ e ∈ edits, e.renews = false := fun e he => Edit.renews_of_tends (htends e he)
    rcases hcases with rfl | rfl
    · exact ⟨edits, hno, hbetween, fun r hr => hr⟩
    · refine ⟨edits ++ [.flushPending], ?_, ?_, fun r hr => ?_⟩
      · intro e he
        rcases List.mem_append.1 he with he | he
        · exact hno e he
        · rw [List.mem_singleton.1 he]
          rfl
      · rw [editAll_append, ← hbetween]
        rfl
      · rw [(flushPending_spec between).1] at hr
        exact (MessageStore.mem_removeWhere.1 hr).1
  obtain ⟨store, hrollback, hmessages⟩ := rollback_restores hd edits
  refine ⟨edits, store, hedits, hedits ▸ hrollback, hmessages, fun hi => ?_⟩
  refine MessageStore.ext_parts hmessages (OrderedMap.ext_get? fun id => ?_)
  have hname := uidOf?_rollback hd hi edits
    (not_reassigns hd hi hno htended (hedits ▸ hsub) id)
  rw [hrollback] at hname
  exact hname

end Mailbox

namespace SharedMailbox

open Mailbox

/-- The shared mailbox is as it was: the cache, the sessions, and all of the mailbox but for an
index that was not right before. The journal counts for nothing while no change is under way. -/
structure Unchanged (s s' : SharedMailbox) : Prop where
  cache : s'.cache? = s.cache?
  sessions : s'.sessions = s.sessions
  outside : s'.mailbox.keepChanges = { s.mailbox.keepChanges with store := s'.mailbox.store }
  messages : s'.mailbox.store.messages = s.mailbox.store.messages
  index : s.mailbox.Indexed → s'.mailbox.store = s.mailbox.store

variable {s s' s'' : SharedMailbox}

theorem Unchanged.refl (s : SharedMailbox) : s.Unchanged s := ⟨rfl, rfl, rfl, rfl, fun _ => rfl⟩

theorem Unchanged.indexed (h : s.Unchanged s') (hi : s.mailbox.Indexed) : s'.mailbox.Indexed := by
  intro id
  rw [h.index hi]
  exact hi id

theorem Unchanged.trans (h : s.Unchanged s') (h' : s'.Unchanged s'') : s.Unchanged s'' where
  cache := h'.cache.trans h.cache
  sessions := h'.sessions.trans h.sessions
  outside := by rw [h'.outside, h.outside]
  messages := h'.messages.trans h.messages
  index hi := (h'.index (h.indexed hi)).trans (h.index hi)

/-- Of a mailbox with a right index, nothing at all is different. -/
theorem Unchanged.keepChanges_eq (h : s.Unchanged s') (hi : s.mailbox.Indexed) :
    s'.mailbox.keepChanges = s.mailbox.keepChanges := by
  have houtside := h.outside
  rw [h.index hi] at houtside
  exact houtside

theorem Unchanged.idle_eq (h : s.Unchanged s') (hi : s.mailbox.Indexed) : s'.idle = s.idle := by
  unfold idle
  rw [h.keepChanges_eq hi, h.cache, h.sessions]

theorem unchanged_restore {m : Mailbox} (h : m.keepChanges = s.mailbox.keepChanges) :
    s.Unchanged { s with mailbox := m } := by
  have hstore : m.store = s.mailbox.store := by
    have hkept : m.keepChanges.store = s.mailbox.keepChanges.store := by rw [h]
    exact hkept
  exact ⟨rfl, rfl, by rw [h, hstore]; rfl, by rw [hstore], fun _ => hstore⟩

theorem Unchanged.mutate {α : Type} (h : s.Unchanged s') (hi : s.mailbox.Indexed)
    (f : Mailbox → Except MailboxError α × Mailbox) : s'.mutate f = s.mutate f := by
  have hstart : s'.mailbox.startJournal = s.mailbox.startJournal := by
    have hkept : s'.mailbox.keepChanges.startJournal = s.mailbox.keepChanges.startJournal := by
      rw [h.keepChanges_eq hi]
    exact hkept
  unfold SharedMailbox.mutate conclude save
  rw [hstart, h.cache, h.sessions]

variable {α : Type} {f : Mailbox → Except MailboxError α × Mailbox} {e : MailboxError}

theorem unchanged_of_renewed {now : Instant}
    (h : Mailbox.Edited (s.mailbox.startJournal.invalidate now).2 (f s.mailbox.startJournal).2)
    (hfailed : (s.mutate f).1 = .error e) : s.Unchanged (s.mutate f).2 := by
  obtain ⟨edits, heq⟩ := h
  have hedits : (f s.mailbox.startJournal).2 =
      s.mailbox.startJournal.editAll (.invalidate now :: edits) := heq
  rw [mutate_error hedits hfailed, rollback_of_renewed]
  exact unchanged_restore rfl

theorem unchanged_of_settled (hd : s.mailbox.store.Distinct)
    (h : Settled s.mailbox.startJournal (f s.mailbox.startJournal).2)
    (hfailed : (s.mutate f).1 = .error e) : s.Unchanged (s.mutate f).2 := by
  obtain ⟨edits, store, hedits, hrollback, hmessages, hindex⟩ := h.rollback hd
  rw [mutate_error hedits hfailed, ← hedits, hrollback]
  exact ⟨rfl, rfl, rfl, hmessages, hindex⟩

theorem unchanged_applyBatch {settings : SyncSettings} {since? : Option (Option String)}
    {events : List Prepared} {cursor : Option String} (hd : s.mailbox.store.Distinct)
    (hfailed : (s.mutate (·.applyBatch settings s.sessions since? events cursor)).1 = .error e) :
    s.Unchanged (s.mutate (·.applyBatch settings s.sessions since? events cursor)).2 :=
  unchanged_of_settled hd (settled_applyBatch ..) hfailed

/-- A listing that cannot be matched leaves the mailbox alone, even if it is damaged. -/
theorem unchanged_reconcile {settings : SyncSettings} {now : Instant} {invalidate : Bool}
    {prepared : List MessageContent} {listing : Listing} {cursor : Option String}
    (hfailed : (s.mutate (·.reconcile settings s.sessions now invalidate prepared listing
      cursor)).1 = .error e) :
    s.Unchanged (s.mutate (·.reconcile settings s.sessions now invalidate prepared listing
      cursor)).2 := by
  have hsettled := settled_reconcile settings s.sessions now invalidate prepared listing cursor
    s.mailbox.startJournal
  rcases mend_cases now invalidate s.mailbox.startJournal with hrenewed | ⟨htended, hmendable⟩
  · rw [hrenewed] at hsettled
    exact unchanged_of_renewed hsettled.edited hfailed
  · -- UIDs that are repeated cannot be mended
    have hdistinct : s.mailbox.store.Distinct := by
      refine MessageStore.duplicateUid?_eq_none.1 (Option.eq_none_iff_forall_ne_some.2 ?_)
      intro uid hdup
      have hdesync : s.mailbox.startJournal.desync? = some (.duplicateUid uid) := by
        unfold Mailbox.desync? startJournal
        simp only [hdup]
      cases hmendable _ hdesync
    obtain ⟨between, htended', hcases⟩ := hsettled
    exact unchanged_of_settled hdistinct ⟨between, htended.trans htended', hcases⟩ hfailed

theorem unchanged_invalidate {now : Instant} (hfailed : (s.invalidate now).1 = .error e) :
    s.Unchanged (s.invalidate now).2 :=
  unchanged_of_renewed (Mailbox.Edited.refl _) hfailed

end SharedMailbox

/-! ## Rounds -/

/-- What synchronization is asked for. -/
inductive Errand where
  | sync
  /-- To apply a batch that was asked for with a cursor, if it is known with which. -/
  | apply (since? : Option (Option String)) (batch : EventBatch)
  | resync

namespace Site

variable {s s' : Site} {halt : Halt} {since? : Option (Option String)} {batch : EventBatch}

/-- The events of the batch use up the UIDs of a sound mailbox before all are applied. -/
structure Exhausts (since? : Option (Option String)) (batch : EventBatch) (s : Site) : Prop where
  gap : batch.gap = false
  sound : s.shared.mailbox.desync? = none
  exhausted : (s.applyEvents since? batch).1 = .error (.failed (.mailbox .uidsExhausted))

theorem outcome_eq_error {α : Type} {result : Except MailboxError α}
    (h : outcome result = .error halt) : ∃ e, result = .error e ∧ halt = .failed (.mailbox e) := by
  cases result with
  | error e =>
      cases h
      exact ⟨e, rfl, rfl⟩
  | ok a => cases h

theorem resyncFrom_error {fallback : Option String} (h : s.Undisturbed)
    (herror : (s.resyncFrom fallback).1 = .error halt) :
    s.shared.Unchanged (s.resyncFrom fallback).2.shared := by
  cases hlist : s.list with
  | mk result s' =>
      cases result with
      | error halt' =>
          have hshared := (list_passes h hlist).shared
          simp only [resyncFrom, hlist, hshared]
          exact .refl s.shared
      | ok listing =>
          obtain ⟨prepared, _, hresult, hshared⟩ := resyncFrom_eq h hlist fallback
          rw [hresult] at herror
          obtain ⟨e, hfailed, _⟩ := outcome_eq_error herror
          rw [hshared]
          refine SharedMailbox.unchanged_reconcile (e := e) ?_
          cases hmutate : (s.shared.mutate (s.matching listing fallback prepared)).1 with
          | error e' =>
              rw [hmutate] at hfailed
              cases hfailed
              exact hmutate
          | ok a =>
              rw [hmutate] at hfailed
              cases hfailed

theorem applyEvents_failed (h : s.Undisturbed) (hsound : s.shared.mailbox.desync? = none)
    (hfailed : s.applyEvents since? batch = (.error halt, s')) :
    s.shared.Unchanged s'.shared ∧ (∃ e, halt = .failed (.mailbox e)) ∧
      ∃ t, s.Records t ∧ s' = { t with shared := s'.shared } := by
  obtain ⟨events, t, hrecords, hresult, hsite⟩ := applyEvents_alone h since? batch
  rw [hfailed] at hresult hsite
  obtain ⟨e, hmutate, hhalt⟩ := outcome_eq_error hresult.symm
  have hshared := congrArg Site.shared hsite
  have hdistinct := (Mailbox.desync?_eq_none.1 hsound).1.distinct
  dsimp only at hshared
  refine ⟨?_, ⟨e, hhalt⟩, t, hrecords, by rw [hshared]; exact hsite⟩
  rw [hshared]
  exact SharedMailbox.unchanged_applyBatch hdistinct hmutate

/-- When the UIDs run out, a new epoch is begun from the mailbox as it was before the batch, and
then all messages are listed. -/
theorem apply_of_exhausts (h : s.Undisturbed) (hexhausts : s.Exhausts since? batch) :
    (∃ e, (s.shared.invalidate s.clock).1 = .error e ∧
      (s.apply since? batch).1 = .error (.failed (.mailbox e)) ∧
      (s.apply since? batch).2.shared = (s.shared.invalidate s.clock).2) ∨
    ∃ validity t, (s.shared.invalidate s.clock).1 = .ok validity ∧
      Records { s with shared := (s.shared.invalidate s.clock).2 } t ∧
      s.apply since? batch = t.resyncFrom batch.cursor := by
  obtain ⟨hgap, hsound, hexhausted⟩ := hexhausts
  obtain ⟨s₁, hevents⟩ : ∃ s₁,
      s.applyEvents since? batch = (.error (.failed (.mailbox .uidsExhausted)), s₁) :=
    ⟨_, Prod.ext hexhausted rfl⟩
  obtain ⟨hunchanged, _, t, hrecords, ht⟩ := applyEvents_failed h hsound hevents
  obtain ⟨hvalidity, t', hrecords', hsite⟩ := invalidate_eq s₁
  -- the mailbox from which the epoch begins is the one before the batch
  have hclock : s₁.clock = s.clock := by
    rw [ht]
    exact hrecords.passes.clock
  have hsame : s₁.shared.invalidate s₁.clock = s.shared.invalidate s.clock := by
    rw [hclock]
    exact hunchanged.mutate (Mailbox.desync?_eq_none.1 hsound).2
      fun m => (.ok (m.invalidate s.clock).1, (m.invalidate s.clock).2)
  rw [hsame] at hvalidity hsite
  unfold apply
  simp only [hgap, hsound, Option.isSome_none, Bool.or_self, Bool.false_eq_true, if_false, hevents]
  cases hinvalidate : s₁.invalidate with
  | mk result s₂ =>
      rw [hinvalidate] at hvalidity hsite
      dsimp only at hvalidity hsite
      subst hsite
      cases hmutate : (s.shared.invalidate s.clock).1 with
      | error e =>
          rw [hmutate] at hvalidity
          subst hvalidity
          exact .inl ⟨e, rfl, rfl, rfl⟩
      | ok validity =>
          rw [hmutate] at hvalidity
          subst hvalidity
          refine .inr ⟨validity, _, rfl, (hrecords.reshare _).trans ?_, rfl⟩
          have hreshared := hrecords'.reshare (s.shared.invalidate s.clock).2
          rw [ht] at hreshared
          exact hreshared

theorem apply_error (h : s.Undisturbed) (herror : (s.apply since? batch).1 = .error halt) :
    s.shared.Unchanged (s.apply since? batch).2.shared ∨
      s.Exhausts since? batch ∧ ∃ validity, (s.shared.invalidate s.clock).1 = .ok validity ∧
        (s.shared.invalidate s.clock).2.Unchanged (s.apply since? batch).2.shared := by
  by_cases hexhausts : s.Exhausts since? batch
  · rcases apply_of_exhausts h hexhausts with ⟨e, hfailed, _, hshared⟩ | ⟨validity, t, hok, ht, heq⟩
    · rw [hshared]
      exact .inl (SharedMailbox.unchanged_invalidate hfailed)
    · rw [heq] at herror ⊢
      have hunchanged := resyncFrom_error (ht.passes.undisturbed h) herror
      rw [ht.passes.shared] at hunchanged
      exact .inr ⟨hexhausts, validity, hok, hunchanged⟩
  left
  by_cases hlists : (batch.gap || s.shared.mailbox.desync?.isSome) = true
  · have heq : s.apply since? batch = s.resyncFrom batch.cursor := by
      unfold apply
      rw [if_pos hlists]
    rw [heq] at herror ⊢
    exact resyncFrom_error h herror
  · obtain ⟨hgap, hsound⟩ : batch.gap = false ∧ s.shared.mailbox.desync? = none := by
      simpa using hlists
    unfold apply at herror ⊢
    rw [if_neg hlists] at herror ⊢
    split at herror
    · next hevents => exact absurd ⟨hgap, hsound, congrArg Prod.fst hevents⟩ hexhausts
    · next s₁ hevents =>
      obtain ⟨hunchanged, _, t, ht, hs₁⟩ := applyEvents_failed h hsound hevents
      refine hunchanged.trans (resyncFrom_error ?_ herror)
      rw [hs₁]
      exact ht.passes.undisturbed h
    · exact (applyEvents_failed h hsound (Prod.ext herror rfl)).1

end Site

namespace Errand

def run : Errand → Site → Except Halt Tally × Site
  | sync, s => s.sync
  | apply since? batch, s => s.apply since? batch
  | resync, s => s.resync

/-- The errand comes to applying a batch at a site. -/
inductive Brings (s : Site) : Errand → Site → Option (Option String) → EventBatch → Prop
  | sync {batch : EventBatch} {s' : Site}
      (fetched : s.fetch s.shared.mailbox.cursor = (.ok batch, s')) :
      Brings s .sync (s'.report (.fetched s'.name batch.events.length))
        (some s.shared.mailbox.cursor) batch
  | apply (since? : Option (Option String)) (batch : EventBatch) :
      Brings s (.apply since? batch) s since? batch

/-- The errand comes to applying a batch for which the UIDs of a sound mailbox do not suffice. -/
def RunsOut (errand : Errand) (s : Site) : Prop :=
  ∃ s' since? batch, errand.Brings s s' since? batch ∧ s'.Exhausts since? batch

variable {errand : Errand} {s s' : Site} {since? : Option (Option String)} {batch : EventBatch}

theorem Brings.run_eq (h : errand.Brings s s' since? batch) :
    errand.run s = s'.apply since? batch := by
  cases h with
  | sync fetched => simp only [run, Site.sync, fetched]
  | apply => rfl

theorem Brings.alone (h : errand.Brings s s' since? batch) (halone : s.Alone) :
    s'.shared = s.shared ∧ s'.clock = s.clock ∧ s'.Undisturbed := by
  cases h with
  | sync fetched =>
      obtain ⟨batches, hpasses⟩ := (Site.fetch_passes halone fetched).2 _ rfl
      exact ⟨hpasses.shared, hpasses.clock, hpasses.undisturbed halone.1⟩
  | apply => exact ⟨rfl, rfl, halone.1⟩

/-- What an errand that fails leaves: the mailbox and the cache as they were, unless a batch ran out
of UIDs. Then the new epoch may stay that was begun for it. -/
theorem run_failed {halt : Halt} (halone : s.Alone) (hfailed : (errand.run s).1 = .error halt) :
    s.shared.Unchanged (errand.run s).2.shared ∨
      errand.RunsOut s ∧ ∃ validity, (s.shared.invalidate s.clock).1 = .ok validity ∧
        (s.shared.invalidate s.clock).2.Unchanged (errand.run s).2.shared := by
  have happly {s' : Site} {since? : Option (Option String)} {batch : EventBatch}
      (hbrings : errand.Brings s s' since? batch) : s.shared.Unchanged (errand.run s).2.shared ∨
        errand.RunsOut s ∧ ∃ validity, (s.shared.invalidate s.clock).1 = .ok validity ∧
          (s.shared.invalidate s.clock).2.Unchanged (errand.run s).2.shared := by
    obtain ⟨hshared, hclock, hundisturbed⟩ := hbrings.alone halone
    rw [hbrings.run_eq] at hfailed ⊢
    rcases Site.apply_error hundisturbed hfailed with hunchanged | ⟨hexhausts, hrenewed⟩
    · exact .inl (hshared ▸ hunchanged)
    · rw [hshared, hclock] at hrenewed
      exact .inr ⟨⟨s', since?, batch, hbrings, hexhausts⟩, hrenewed⟩
  cases errand with
  | apply since? batch => exact happly (.apply since? batch)
  | resync => exact .inl (Site.resyncFrom_error halone.1 hfailed)
  | sync =>
      cases hfetch : s.fetch s.shared.mailbox.cursor with
      | mk result s' =>
          cases result with
          | ok batch => exact happly (.sync hfetch)
          | error halt' =>
              left
              simp only [run, Site.sync, hfetch, (Site.fetch_passes halone hfetch).1]
              exact .refl s.shared

/-- A site where the last UID has been issued to the only message. The remote account has changed
its flags and has one message more. -/
def full : Site where
  shared :=
    { mailbox := (Mailbox.ofSaved "INBOX" ⟨⟨.one⟩, some .greatest⟩ ∅ .zero none ∅).editAll
        [.receive { remoteId := "a" }, .commit, .takeUnsaved] }
  remote :=
    { listing :=
        { answer :=
            { messages := [{ id := "a", flags := OrderedSet.insert .flagged ∅ }, { id := "b" }]
              taken := 1 } } }
  decryption? := none
  settings := {}
  clock := 0
  elapsed := 0

theorem alone_full : full.Alone := ⟨⟨rfl, rfl⟩, nofun⟩

theorem resync_full : (resync.run full).1 = .error (.failed (.mailbox .uidsExhausted)) := by
  decide +kernel

/-- A full listing that fails halfway leaves the flags of the message that it had changed. -/
theorem run_failed_of_full : full.Alone ∧
    (resync.run full).1 = .error (.failed (.mailbox .uidsExhausted)) ∧
    full.shared.Unchanged (resync.run full).2.shared := by
  refine ⟨alone_full, resync_full, ?_⟩
  rcases run_failed alone_full resync_full with hunchanged | ⟨⟨_, _, _, hbrings, _⟩, _⟩
  · exact hunchanged
  · cases hbrings

/-- The same site, where the remote account does not answer the next question. -/
def unlistable : Site := { full with remote := { full.remote with outages := [{ length := 1 }] } }

/-- The batch has failed, and still the messages and their UIDs are void. -/
theorem failed_apply_voids : unlistable.Alone ∧
    ((apply none { events := [.created { id := "b" }] }).run unlistable).1 =
      .error (.failed (.unreachable RemoteScript.unreachable "INBOX")) ∧
    unlistable.shared.mailbox.store.messages.map (·.remoteId) = ["a"] ∧
    ((apply none { events := [.created { id := "b" }] }).run
      unlistable).2.shared.mailbox.store.messages = [] ∧
    ((apply none { events := [.created { id := "b" }] }).run
      unlistable).2.shared.mailbox.uids.validity ≠ unlistable.shared.mailbox.uids.validity := by
  refine ⟨alone_full, rfl, rfl, rfl, by decide +kernel⟩

end Errand

end MailBridge

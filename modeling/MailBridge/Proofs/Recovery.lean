import Mathlib.Data.List.Basic
import MailBridge.Proofs.Failure

/-! # What happens when UIDs run out

A batch for which the UIDs do not suffice is taken back, and with it the count of the UIDs that it
used up. The new epoch that is begun for it therefore goes on with the UIDs that were left before
the batch, unless there were none. So all messages are listed, but they find room only if there were
enough UIDs left.
-/

namespace MailBridge

namespace UidSpace

/-- The number of UIDs left to issue. -/
def room (s : UidSpace) : Nat := maxWord + 1 - s.bound

theorem bound_le (s : UidSpace) : s.bound ≤ maxWord + 1 := by
  cases hnext : s.next? with
  | none => exact (bound_of_exhausted hnext).le
  | some next =>
      rw [bound_of_next? hnext]
      exact next.val_lt.le

theorem bound_renew (now : Instant) (s : UidSpace) :
    (s.renew now).bound = if s.next?.isSome then s.bound else 1 := by
  unfold renew
  split <;> rfl

theorem next?_renew (now : Instant) (s : UidSpace) : (s.renew now).next?.isSome = true := by
  unfold renew
  split
  · assumption
  · rfl

theorem issue?_eq_none {s : UidSpace} : s.issue? = none ↔ s.bound = maxWord + 1 := by
  unfold issue? bound
  cases s.next? with
  | none => simp
  | some next =>
      have hlt := next.val_lt
      simp only [Option.map_some, Option.elim_some, reduceCtorEq, false_iff]
      omega

end UidSpace

namespace RemoteMessage

theorem nodup_firstListed (l : List RemoteMessage) : ((firstListed l).map (·.id)).Nodup := by
  induction l with
  | nil => exact .nil
  | cons first rest ih =>
      rw [firstListed, List.map_cons, List.nodup_cons]
      refine ⟨fun hmem => ?_, ih.sublist (List.filter_sublist.map _)⟩
      obtain ⟨other, hother, hid⟩ := List.mem_map.1 hmem
      exact of_decide_eq_true (List.mem_filter.1 hother).2 hid

end RemoteMessage

theorem OrderedSet.nodup_toList {κ : Type} [KeyOrder κ] (s : OrderedSet κ) : s.toList.Nodup := by
  refine s.ascending.imp fun {a b} hlt heq => ?_
  rw [heq] at hlt
  exact KeyOrder.irrefl b hlt

theorem Listing.size_roster (l : Listing) :
    (RemoteMessage.firstListed l.messages).length = l.roster.size := by
  have hperm : ((RemoteMessage.firstListed l.messages).map (·.id)).Perm l.roster.toList := by
    refine (List.perm_ext_iff_of_nodup (RemoteMessage.nodup_firstListed _)
      (OrderedSet.nodup_toList _)).2 fun id => ?_
    rw [List.mem_map, ← OrderedSet.mem_def, Listing.mem_roster]
    exact RemoteMessage.mem_firstListed
  rw [← List.length_map (f := (·.id)), hperm.length_eq]
  rfl

namespace Mailbox

variable {m : Mailbox} {prepared : List MessageContent}

theorem receive_new (ho : m.Orderly) {content : MessageContent}
    (hnew : m.store.uidOf? content.remoteId = none) :
    (m.uids.bound = maxWord + 1 ∧ (m.receive content).1 = .error .uidsExhausted) ∨
      ∃ receipt m', m.receive content = (.ok receipt, m') ∧
        m'.uids.bound = m.uids.bound + 1 ∧ m'.pending = m.pending := by
  unfold receive
  rw [hnew]
  dsimp only
  cases issued : m.uids.issue? with
  | none => exact .inl ⟨UidSpace.issue?_eq_none.1 issued, rfl⟩
  | some issue =>
      obtain ⟨uid, uids⟩ := issue
      obtain ⟨hbound, hnext, _⟩ := UidSpace.issue?_eq_some issued
      have hbelow : ∀ x ∈ m.store.messages, x.uid.val < uid.val := hbound ▸ ho.below
      obtain ⟨store, hstore⟩ := Option.isSome_iff_exists.1
        (append?_isSome (r := .arrive content uid m.modseq.next) hbelow hnew)
      right
      refine ⟨⟨uid, true⟩,
        markUnsaved uid { ((advance { m with uids }).note uid) with store }, ?_, ?_, ?_⟩
      · simp only [note_store, note_modseq, advance, hstore]
      · simpa [markUnsaved, advance] using hnext
      · exact note_pending ..

theorem find?_prepared {id : RemoteId} (h : ∃ content ∈ prepared, content.remoteId = id) :
    ∃ content, prepared.find? (·.remoteId == id) = some content ∧ content.remoteId = id := by
  obtain ⟨known, hknown, hname⟩ := h
  have hsome : (prepared.find? (·.remoteId == id)).isSome = true :=
    List.find?_isSome.2 ⟨known, hknown, by simp [hname]⟩
  obtain ⟨content, hcontent⟩ := Option.isSome_iff_exists.1 hsome
  exact ⟨content, hcontent, by simpa using List.find?_some hcontent⟩

theorem absent_receive {m' : Mailbox} {content : MessageContent} {receipt : Receipt}
    {id : RemoteId} (h : m.Coherent) (hok : m.receive content = (.ok receipt, m'))
    (hne : id ≠ content.remoteId) (habsent : m.presence id = .absent) :
    m'.presence id = .absent := by
  rw [presence_receive h hok, Presence.after, if_neg fun hboth => hne hboth.1]
  exact habsent

/-- Creating new messages runs out of UIDs exactly if there are more messages than UIDs left. -/
theorem correctAll_create (updatesFlags : Bool) (taken : Instant) (tally : Tally)
    {ids : List RemoteId} (ho : m.Orderly) (h : m.Coherent) (hnodup : ids.Nodup)
    (hnew : ∀ id ∈ ids, m.presence id = .absent)
    (hprepared : ∀ id ∈ ids, ∃ content ∈ prepared, content.remoteId = id) :
    (ids.length ≤ m.uids.room → ∃ m', m.correctAll updatesFlags prepared taken tally
      (ids.map .create) = (.ok { tally with created := tally.created + ids.length }, m') ∧
        m'.pending = m.pending) ∧
    (m.uids.room < ids.length → (m.correctAll updatesFlags prepared taken tally
      (ids.map .create)).1 = .error .uidsExhausted) := by
  induction ids generalizing m tally with
  | nil => exact ⟨fun _ => ⟨m, rfl, rfl⟩, fun hlt => absurd hlt (Nat.not_lt_zero _)⟩
  | cons id rest ih =>
      obtain ⟨hid, hrest⟩ := List.nodup_cons.1 hnodup
      obtain ⟨hnewId, hnewRest⟩ := List.forall_mem_cons.1 hnew
      obtain ⟨hpreparedId, hpreparedRest⟩ := List.forall_mem_cons.1 hprepared
      obtain ⟨content, hcontent, hname⟩ := find?_prepared hpreparedId
      have hunknown : m.store.uidOf? content.remoteId = none := by
        rw [hname]
        exact presence_eq_absent.1 hnewId
      rw [List.map_cons]
      unfold correctAll
      simp only [correct, hcontent]
      rcases receive_new ho hunknown with ⟨hbound, herror⟩ | ⟨receipt, m', hok, hbound, hpending⟩
      · have hroom : m.uids.room = 0 := by rw [UidSpace.room, hbound, Nat.sub_self]
        cases hreceive : m.receive content with
        | mk result m' =>
            rw [hreceive] at herror
            cases herror
            simp [hroom]
      · -- the message that has come takes one UID and no name that is still to come
        have hedited : Edited m m' := edited_by (.receive content) (congrArg Prod.snd hok)
        have ho' : m'.Orderly := by
          obtain ⟨edits, rfl⟩ := hedited
          exact ho.editAll edits
        have hnew' : ∀ other ∈ rest, m'.presence other = .absent := by
          intro other hother
          have hne : other ≠ content.remoteId := fun heq => hid (hname ▸ heq ▸ hother)
          exact absent_receive h hok hne (hnewRest other hother)
        have hle := m'.uids.bound_le
        have hroom : m.uids.room = m'.uids.room + 1 := by
          unfold UidSpace.room
          omega
        simp only [hok, hroom, List.length_cons, Nat.add_le_add_iff_right, Nat.add_lt_add_iff_right]
        obtain ⟨hfits, hshort⟩ := ih { tally with created := tally.created + 1 } ho'
          (h.edited hedited) hrest hnew' hpreparedRest
        refine ⟨fun hle => ?_, hshort⟩
        obtain ⟨m'', hcreated, hleft⟩ := hfits hle
        rw [Nat.add_assoc, Nat.add_comm 1] at hcreated
        exact ⟨m'', hcreated, hleft.trans hpending⟩

/-- The names that are listed, in the order in which the messages came. -/
def listedInOrder (listing : Listing) : List RemoteId :=
  ((RemoteMessage.firstListed listing.messages).mergeSort RemoteMessage.cameBefore).map (·.id)

theorem listedInOrder_spec (listing : Listing) :
    (listedInOrder listing).Nodup ∧ (listedInOrder listing).length = listing.roster.size ∧
      ∀ id, id ∈ listedInOrder listing ↔ id ∈ listing.roster := by
  have hperm : (listedInOrder listing).Perm
      ((RemoteMessage.firstListed listing.messages).map (·.id)) := (List.mergeSort_perm ..).map _
  refine ⟨hperm.nodup_iff.2 (RemoteMessage.nodup_firstListed _), ?_, fun id => ?_⟩
  · rw [hperm.length_eq, List.length_map, Listing.size_roster]
  · rw [hperm.mem_iff, Listing.mem_roster, List.mem_map]
    exact RemoteMessage.mem_firstListed

theorem corrections_empty (listing : Listing) :
    (∅ : MessageStore).corrections listing.messages = (listedInOrder listing).map .create := by
  have hunknown (id : RemoteId) : (∅ : MessageStore).getByRemoteId? id = none := rfl
  have hmessages : (∅ : MessageStore).messages = [] := rfl
  unfold MessageStore.corrections listedInOrder
  simp only [hunknown, hmessages, Option.isNone_none, List.filter_true, List.filter_false,
    List.filter_nil, List.map_nil, List.nil_append, List.map_map, Function.comp_def]

theorem Coherent.hasOne {id : RemoteId} (h : m.Coherent) (hp : m.presence id ≠ .absent) :
    m.HasOne id := by
  obtain ⟨r, hr, hid⟩ := mem_roster.1 (h.mem_roster_iff.2 hp)
  exact ⟨r, hr, hid, fun r' hr' hid' => h.eq_of_remoteId hr' hr (hid'.trans hid.symm)⟩

theorem flushUnlessSelected_of_empty (h : m.pending = ∅) (sessions : Nat) :
    m.flushUnlessSelected sessions = ([], m) := by
  have hflush : m.flushPending = ([], m) := if_pos (by rw [h]; rfl)
  exact (congrArg (ite _ · _) hflush).trans (ite_self _)

theorem orderly_of_empty (hstore : m.store = ∅) : m.Orderly := by
  refine ⟨?_, fun r hr => ?_⟩
  · rw [hstore]
    exact Ascending.nil
  · rw [hstore] at hr
    cases hr

theorem coherent_of_empty (hstore : m.store = ∅) (hpending : m.pending = ∅) : m.Coherent := by
  refine ⟨(orderly_of_empty hstore).distinct, fun id => ?_, fun uid huid => ?_⟩
  · rw [hstore]
    exact .empty id
  · rw [hpending] at huid
    exact absurd huid OrderedSet.mem_empty

theorem desync?_of_empty (hstore : m.store = ∅) (hpending : m.pending = ∅) : m.desync? = none :=
  desync?_eq_none.2 ⟨orderly_of_empty hstore, (coherent_of_empty hstore hpending).indexed⟩

theorem mend_empty (hstore : m.store = ∅) (hpending : m.pending = ∅)
    (hnext : m.uids.next?.isSome = true) (now : Instant) (invalidate : Bool) :
    (m.mend now invalidate).1 = invalidate ∧ (m.mend now invalidate).2.store = ∅ ∧
      (m.mend now invalidate).2.pending = ∅ ∧
      (m.mend now invalidate).2.uids.bound = m.uids.bound := by
  rw [mend_eq (orderly_of_empty hstore), desync?_of_empty hstore hpending, Option.isSome_none,
    Bool.or_false]
  cases invalidate with
  | true =>
      refine ⟨rfl, (Mailbox.invalidate_eq now m).2.1, rfl, ?_⟩
      exact (congrArg UidSpace.bound (Mailbox.invalidate_eq now m).1).trans
        ((UidSpace.bound_renew now m.uids).trans (if_pos hnext))
  | false => exact ⟨rfl, hstore, hpending, rfl⟩

/-- An empty mailbox matches a listing exactly if there are as many UIDs left as names listed. All
of them are counted as created then, and nothing else is. -/
theorem reconcile_empty {settings : SyncSettings} {sessions : Nat} {now : Instant}
    {invalidate : Bool} {listing : Listing} {cursor : Option String} (hstore : m.store = ∅)
    (hpending : m.pending = ∅) (hnext : m.uids.next?.isSome = true)
    (hprepared : ∀ id ∈ listing.roster, ∃ content ∈ prepared, content.remoteId = id) :
    (listing.roster.size ≤ m.uids.room → ∃ corrections m',
      m.reconcile settings sessions now invalidate prepared listing cursor =
        (.ok ({ created := listing.roster.size, resynced := true, invalidated := invalidate },
          corrections), m') ∧
        ∀ id ∈ listing.roster, m'.HasOne id) ∧
    (m.uids.room < listing.roster.size →
      (m.reconcile settings sessions now invalidate prepared listing cursor).1 =
        .error .uidsExhausted) := by
  obtain ⟨hsame, hstore', hpending', hbound⟩ := mend_empty hstore hpending hnext now invalidate
  have hroom : (m.mend now invalidate).2.uids.room = m.uids.room := by
    rw [UidSpace.room, hbound, UidSpace.room]
  unfold reconcile
  generalize hmend : m.mend now invalidate = mended at hsame hstore' hpending' hroom
  obtain ⟨invalidated, m₁⟩ := mended
  dsimp only at hsame hstore' hpending' hroom ⊢
  subst hsame
  have h : m₁.Coherent := coherent_of_empty hstore' hpending'
  have habsent (id : RemoteId) : m₁.presence id = .absent := by
    rw [presence_eq_absent, hstore']
    rfl
  obtain ⟨hnodup, hlength, hmem⟩ := listedInOrder_spec listing
  obtain ⟨hfits, hshort⟩ := correctAll_create settings.updatesFlags listing.taken
    { resynced := true, invalidated } (orderly_of_empty hstore') h hnodup
    (fun id _ => habsent id) fun id hid => hprepared id ((hmem id).1 hid)
  rw [hstore', corrections_empty, ← hroom, ← hlength]
  refine ⟨fun hle => ?_, fun hlt => ?_⟩
  · obtain ⟨m₂, hok, hleft⟩ := hfits hle
    obtain ⟨h₂, _, hpresence⟩ := correctAll_ok h hok
    have hcursor : (m₂.setCursor cursor).Coherent := h₂.editAll [.setCursor cursor]
    have hquiet : (m₂.setCursor cursor).pending = ∅ := by
      unfold setCursor
      split <;> exact hleft.trans hpending'
    rw [hok]
    dsimp only
    rw [flushUnlessSelected_of_empty hquiet, Nat.zero_add]
    refine ⟨_, _, rfl, fun id hid => hcursor.hasOne ?_⟩
    have hpresent := (Presence.foldl_comes id (listedInOrder listing) .absent).trans
      (if_pos ⟨(hmem id).2 hid, rfl⟩)
    rw [presence_setCursor, hpresence, List.map_map, habsent]
    exact ne_of_eq_of_ne hpresent nofun
  · have herror := hshort hlt
    split
    · next hcorrect =>
      rw [hcorrect] at herror
      cases herror
      rfl
    · next hcorrect =>
      rw [hcorrect] at herror
      cases herror

end Mailbox

namespace SharedMailbox

variable {α : Type} {f : Mailbox → Except MailboxError α × Mailbox} {s : SharedMailbox}

theorem mutate_of_error {e : MailboxError} (hf : (f s.mailbox.startJournal).1 = .error e) :
    (s.mutate f).1 = .error e := by
  unfold mutate conclude
  simp only [hf]

theorem mutate_of_ok {a : α} (hf : (f s.mailbox.startJournal).1 = .ok a) :
    (s.mutate f).1 = .ok a ∨ s.cache? ≠ none ∧
      ∃ cause name, (s.mutate f).1 = .error (.notPersisted cause name) := by
  unfold mutate conclude
  simp only [hf]
  split
  · next hsave =>
    refine .inr ⟨fun hnone => ?_, _, _, rfl⟩
    simp only [save, hnone] at hsave
    cases hsave
  · exact .inl rfl

theorem cache?_mutate (h : s.cache? = none) : (s.mutate f).2.cache? = none := by
  unfold mutate conclude
  rcases f s.mailbox.startJournal with ⟨_ | _, m⟩
  · exact h
  · simp only [save, h]

theorem mailbox_mutate_of_kept {a : α} (h : (s.mutate f).1 = .ok a) :
    (s.mutate f).2.mailbox =
      ((f s.mailbox.startJournal).2.editAll [.commit, .takeUnsaved]).keepChanges := by
  obtain ⟨_, cache?, heq⟩ := conclude_ok h
  exact congrArg SharedMailbox.mailbox heq

theorem invalidate_ok {now : Instant} {validity : UidValidity}
    (hok : (s.invalidate now).1 = .ok validity) :
    (s.invalidate now).2.mailbox.store = ∅ ∧ (s.invalidate now).2.mailbox.pending = ∅ ∧
      (s.invalidate now).2.mailbox.uids = s.mailbox.uids.renew now := by
  have hkept : (s.invalidate now).2.mailbox =
      (((s.mailbox.startJournal.invalidate now).2).editAll [.commit, .takeUnsaved]).keepChanges :=
    mailbox_mutate_of_kept hok
  obtain ⟨huids, hstore, _⟩ := Mailbox.invalidate_eq now s.mailbox.startJournal
  rw [hkept, Mailbox.kept_eq]
  exact ⟨hstore, rfl, huids⟩

end SharedMailbox

namespace Site

variable {s s' : Site} {since? : Option (Option String)} {batch : EventBatch} {listing : Listing}

theorem prepared_of_empty {prepared : List MessageContent} (hstore : s.shared.mailbox.store = ∅)
    (hids : prepared.map (·.remoteId) = (s.wanted listing).map (·.id)) :
    ∀ id ∈ listing.roster, ∃ content ∈ prepared, content.remoteId = id := by
  intro id hid
  obtain ⟨message, hmessage, hname⟩ :=
    RemoteMessage.mem_firstListed.2 (Listing.mem_roster.1 hid)
  have hwanted : message ∈ s.wanted listing := by
    refine List.mem_filter.2 ⟨hmessage, ?_⟩
    rw [hstore]
    exact Bool.or_true _
  have hmem : id ∈ prepared.map (·.remoteId) := by
    rw [hids]
    exact List.mem_map.2 ⟨message, hwanted, hname⟩
  exact List.mem_map.1 hmem

/-- All messages of a listing are matched from nothing. -/
theorem resyncFrom_empty {fallback : Option String} (h : s.Undisturbed)
    (hlisted : s.list.1 = .ok listing) (hstore : s.shared.mailbox.store = ∅)
    (hpending : s.shared.mailbox.pending = ∅)
    (hnext : s.shared.mailbox.uids.next?.isSome = true)
    (hsaved : s.shared.cache? ≠ none → ∀ cause name, (s.resyncFrom fallback).1 ≠
      .error (.failed (.mailbox (.notPersisted cause name)))) :
    (listing.roster.size ≤ s.shared.mailbox.uids.room →
      (s.resyncFrom fallback).1 = .ok
          { created := listing.roster.size, resynced := true, invalidated := listing.recreated } ∧
        ∀ id ∈ listing.roster, (s.resyncFrom fallback).2.shared.mailbox.HasOne id) ∧
    (s.shared.mailbox.uids.room < listing.roster.size →
      (s.resyncFrom fallback).1 = .error (.failed (.mailbox .uidsExhausted))) := by
  have hlist : s.list = (.ok listing, s.list.2) := Prod.ext hlisted rfl
  obtain ⟨prepared, hids, hresult, hshared⟩ := resyncFrom_eq h hlist fallback
  obtain ⟨hfits, hshort⟩ := Mailbox.reconcile_empty (m := s.shared.mailbox.startJournal)
    hstore hpending hnext (prepared_of_empty hstore hids)
  refine ⟨fun hle => ?_, fun hlt => ?_⟩
  · obtain ⟨corrections, m', hok, hone⟩ := hfits hle
    have hrenewing : s.renewing listing = listing.recreated := by
      rw [renewing, Mailbox.desync?_of_empty hstore hpending, Option.any_none, Bool.or_false]
    have hmatching : s.matching listing fallback prepared s.shared.mailbox.startJournal =
        (.ok ({ created := listing.roster.size, resynced := true,
                invalidated := listing.recreated }, corrections), m') := by
      rw [← hrenewing]
      exact hok
    rcases SharedMailbox.mutate_of_ok (congrArg Prod.fst hmatching) with
      hkept | ⟨hcache, cause, name, hno⟩
    · rw [hkept] at hresult
      refine ⟨hresult, fun id hid => ?_⟩
      rw [hshared, SharedMailbox.mailbox_mutate_of_kept hkept, hmatching, Mailbox.kept_eq]
      exact hone id hid
    · rw [hno] at hresult
      exact absurd hresult (hsaved hcache cause name)
  · have hmatching : (s.matching listing fallback prepared s.shared.mailbox.startJournal).1 =
        .error .uidsExhausted := hshort hlt
    rw [hresult, SharedMailbox.mutate_of_error hmatching]
    rfl

/-- A batch for which UIDs have run out ends in a new epoch, with all listed messages or without
UIDs for them. -/
theorem apply_starved (h : s.Undisturbed) (hexhausts : s.Exhausts since? batch)
    (hlisted : s.list.1 = .ok listing)
    (hsaved : s.shared.cache? ≠ none → ∀ cause name, (s.apply since? batch).1 ≠
      .error (.failed (.mailbox (.notPersisted cause name)))) :
    (listing.roster.size ≤ (s.shared.mailbox.uids.renew s.clock).room →
      (s.apply since? batch).1 = .ok
          { created := listing.roster.size, resynced := true, invalidated := listing.recreated } ∧
        ∀ id ∈ listing.roster, (s.apply since? batch).2.shared.mailbox.HasOne id) ∧
    ((s.shared.mailbox.uids.renew s.clock).room < listing.roster.size →
      (s.apply since? batch).1 = .error (.failed (.mailbox .uidsExhausted))) := by
  rcases apply_of_exhausts h hexhausts with
    ⟨e, hfailed, herror, _⟩ | ⟨validity, t, hok, hrecords, happly⟩
  · -- beginning an epoch does not fail by itself
    rcases SharedMailbox.mutate_of_ok (s := s.shared) (f := fun m =>
      ((.ok (m.invalidate s.clock).1 : Except MailboxError _), (m.invalidate s.clock).2)) rfl with
      hkept | ⟨hcache, cause, name, hno⟩
    · have hkept' : (s.shared.invalidate s.clock).1 = _ := hkept
      rw [hkept'] at hfailed
      cases hfailed
    · have hno' : (s.shared.invalidate s.clock).1 = _ := hno
      rw [hno'] at hfailed
      cases hfailed
      exact absurd herror (hsaved hcache cause name)
  · obtain ⟨hstore, hpending, huids⟩ := SharedMailbox.invalidate_ok hok
    have htshared : t.shared = (s.shared.invalidate s.clock).2 := hrecords.passes.shared
    have htlisted : t.list.1 = .ok listing := by
      have hcomes := list_fst.1 hlisted
      obtain ⟨calls, notices, rfl⟩ := hrecords
      exact list_fst.2 hcomes
    have htcache : t.shared.cache? ≠ none → s.shared.cache? ≠ none := fun hcache hnone =>
      hcache (htshared ▸ SharedMailbox.cache?_mutate hnone)
    rw [← htshared] at hstore hpending huids
    rw [happly] at hsaved ⊢
    rw [← huids]
    refine resyncFrom_empty (hrecords.passes.undisturbed h) htlisted hstore hpending ?_
      (hsaved ∘ htcache)
    rw [huids]
    exact UidSpace.next?_renew ..

end Site

namespace Errand

variable {errand : Errand} {s s' : Site} {since? : Option (Option String)} {batch : EventBatch}
  {listing : Listing}

/-- Once UIDs have run out, the mailbox gets all listed messages exactly if there are no more of
them than UIDs were left before the batch, or than there are UIDs at all if none were left. -/
theorem recovery (halone : s.Alone) (hbrings : errand.Brings s s' since? batch)
    (hexhausts : s'.Exhausts since? batch) (hlisted : s'.list.1 = .ok listing)
    (hsaved : ∀ cause name,
      (errand.run s).1 ≠ .error (.failed (.mailbox (.notPersisted cause name)))) :
    (listing.roster.size ≤ (s.shared.mailbox.uids.renew s.clock).room → ∃ tally,
      (errand.run s).1 = .ok tally ∧
        ∀ id ∈ listing.roster, (errand.run s).2.shared.mailbox.HasOne id) ∧
    ((s.shared.mailbox.uids.renew s.clock).room < listing.roster.size →
      (errand.run s).1 = .error (.failed (.mailbox .uidsExhausted))) := by
  obtain ⟨hshared, hclock, hundisturbed⟩ := hbrings.alone halone
  rw [hbrings.run_eq] at hsaved ⊢
  obtain ⟨hfits, hshort⟩ := Site.apply_starved hundisturbed hexhausts hlisted fun _ => hsaved
  rw [hshared, hclock] at hfits hshort
  exact ⟨fun hle => ⟨_, hfits hle⟩, hshort⟩

/-- A message that the remote account has more than the full mailbox. -/
def oneMore : EventBatch := { events := [.created { id := "b" }] }

theorem exhausts_full : full.Exhausts none oneMore := ⟨rfl, rfl, rfl⟩

theorem run_full : ((apply none oneMore).run full).1 = .ok { resynced := true, created := 2 } :=
  ((Site.apply_starved alone_full.1 exhausts_full rfl fun h => absurd rfl h).1
    (by decide +kernel)).1

/-- Where no UID was left before the batch, the new epoch has room for both messages. -/
theorem recovery_of_full : full.Alone ∧ full.Exhausts none oneMore ∧
    full.list.1 = .ok full.remote.listing.answer ∧
    full.remote.listing.answer.roster.toList = ["a", "b"] ∧ ∃ tally,
      ((apply none oneMore).run full).1 = .ok tally ∧
        ∀ id ∈ full.remote.listing.answer.roster,
          ((apply none oneMore).run full).2.shared.mailbox.HasOne id := by
  refine ⟨alone_full, exhausts_full, rfl, rfl, ?_⟩
  refine (recovery alone_full (.apply none oneMore) exhausts_full rfl ?_).1 (by decide +kernel)
  intro cause name hfailed
  rw [run_full] at hfailed
  cases hfailed

/-- A site where one UID is left, and the remote account has two messages. -/
def scarce : Site where
  shared := { mailbox := .ofSaved "INBOX" ⟨⟨.one⟩, some .greatest⟩ ∅ .zero none ∅ }
  remote := { listing := { answer := { messages := [{ id := "a" }, { id := "b" }], taken := 0 } } }
  decryption? := none
  settings := {}
  clock := 0
  elapsed := 0

/-- The new epoch goes on with the one UID, so the listing does not find room in it. -/
theorem recovery_starved : scarce.Alone ∧ scarce.shared.mailbox.desync? = none ∧
    scarce.Exhausts none { events := [.created { id := "a" }, .created { id := "b" }] } ∧
    scarce.list.1 = .ok scarce.remote.listing.answer ∧
    scarce.remote.listing.answer.roster.size < maxWord ∧
    ((apply none { events := [.created { id := "a" }, .created { id := "b" }] }).run scarce).1 =
      .error (.failed (.mailbox .uidsExhausted)) := by
  have halone : scarce.Alone := ⟨⟨rfl, rfl⟩, nofun⟩
  have hexhausts : scarce.Exhausts none
      { events := [.created { id := "a" }, .created { id := "b" }] } := ⟨rfl, rfl, rfl⟩
  refine ⟨halone, rfl, hexhausts, rfl, by decide +kernel, ?_⟩
  exact (Site.apply_starved halone.1 hexhausts rfl fun h => absurd rfl h).2
    (by decide +kernel)

end Errand

end MailBridge

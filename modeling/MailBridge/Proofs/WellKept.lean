import MailBridge.Proofs.Noting
import MailBridge.Proofs.Standing

/-! # What holds after every operation

The identities of a mailbox that began well stay sound, whatever is asked of it and whether it
fails or not. A message under a new remote name then finds its place unless there are no UIDs left.
-/

namespace MailBridge

namespace Mailbox

variable {m : Mailbox}

theorem append?_isSome {r : Message} (hbelow : ∀ x ∈ m.store.messages, x.uid.val < r.uid.val)
    (hnew : m.store.uidOf? r.remoteId = none) : (m.store.append? r).isSome = true := by
  have hcontains : m.store.index.contains r.remoteId = false := OrderedMap.contains_eq_false.2 hnew
  simpa [MessageStore.append?, hcontains] using hbelow

/-- Taking content in fails for want of a UID, and for nothing else. -/
theorem receive_error (ho : m.Orderly) (hi : m.Indexed) {content : MessageContent}
    {e : MailboxError} (h : (m.receive content).1 = .error e) : e = .uidsExhausted := by
  unfold receive at h
  split at h
  · next uid hname =>
    -- the index names a message that is there
    obtain ⟨r, hr, _, hu⟩ := (hi content.remoteId uid).1 hname
    have found : m.store.get? uid = some r := (MessageStore.get?_eq_some ho.distinct).2 ⟨hr, hu⟩
    simp only [found] at h
    split at h <;> cases h
  · next hnew =>
    split at h
    · cases h
      rfl
    · next uid uids issued =>
      -- the UID is above all others
      obtain ⟨hbound, _, _⟩ := UidSpace.issue?_eq_some issued
      have hbelow : ∀ x ∈ m.store.messages, x.uid.val < uid.val := hbound ▸ ho.below
      have hadded := append?_isSome (r := .arrive content uid m.modseq.next) hbelow hnew
      obtain ⟨store, hstore⟩ := Option.isSome_iff_exists.1 hadded
      simp only [note_store, note_modseq, advance, hstore] at h
      cases h

theorem not_strays_receive (h : m.checkIntegrity = .ok ()) (content : MessageContent) :
    ¬ (Edit.receive content).Strays m := by
  rintro ⟨name, uid, herror⟩
  obtain ⟨ho, hi⟩ := checkIntegrity_iff.1 h
  cases receive_error ho hi herror

/-- How a mailbox begins well: as a new one, or as one that was saved with sound identities and
with no message changed after the changes that it has counted. -/
inductive BeginsWell : Mailbox → Prop
  | create (name : String) (now : Instant) : BeginsWell (create name now)
  | ofSaved {name : String} {uids : UidSpace} {store : MessageStore} {modseq : ModSeq}
      {cursor : Option String} {pending : OrderedSet Uid}
      (sound : (ofSaved name uids store modseq cursor pending).checkIntegrity = .ok ())
      (stamped : (ofSaved name uids store modseq cursor pending).Stamped) :
      BeginsWell (ofSaved name uids store modseq cursor pending)

/-- What is relied on at all times. -/
structure WellKept (m : Mailbox) : Prop where
  sound : m.checkIntegrity = .ok ()
  ascending : m.store.messages.Pairwise fun a b => a.uid.val < b.uid.val
  names : (m.store.messages.map (·.remoteId)).Nodup
  indexed : ∀ id uid, m.store.uidOf? id = some uid ↔
    ∃ r ∈ m.store.messages, r.remoteId = id ∧ r.uid = uid
  queued : ∀ uid ∈ m.pending, ∃ r ∈ m.store.messages, r.uid = uid
  stamped : ∀ r ∈ m.store.messages, r.modseq.val ≤ m.modseq.val
  receives : ∀ content e, (∀ r ∈ m.store.messages, r.remoteId ≠ content.remoteId) →
    (m.receive content).1 = .error e → e = .uidsExhausted

theorem nodup_remoteIds (hd : m.store.Distinct) (hi : m.Indexed) :
    (m.store.messages.map (·.remoteId)).Nodup := by
  refine List.pairwise_map.2 (hd.imp_of_mem fun {a b} ha hb hab heq => ?_)
  have huid := (hi b.remoteId).uid_eq ha hb heq rfl
  rw [huid] at hab
  exact Nat.lt_irrefl _ hab

theorem queued_ofSaved (name : String) (uids : UidSpace) (store : MessageStore) (modseq : ModSeq)
    (cursor : Option String) (pending : OrderedSet Uid) :
    (ofSaved name uids store modseq cursor pending).Queued := by
  intro uid huid
  obtain ⟨_, hlive⟩ := OrderedSet.mem_filter.1 huid
  obtain ⟨r, found⟩ := Option.isSome_iff_exists.1 hlive
  obtain ⟨i, _, hr⟩ := Option.bind_eq_some_iff.1 found
  exact ⟨r, List.mem_of_getElem? hr, uid_of_found found⟩

theorem Initial.queued (h : m.Initial) : m.Queued := by
  cases h with
  | create => exact queued_of_pending rfl
  | ofSaved name uids store modseq cursor pending =>
      exact queued_ofSaved name uids store modseq cursor pending

theorem BeginsWell.initial (h : m.BeginsWell) : m.Initial := by
  cases h with
  | create name now => exact .create name now
  | ofSaved => exact .ofSaved ..

theorem BeginsWell.sound (h : m.BeginsWell) : m.checkIntegrity = .ok () := by
  cases h with
  | create => rfl
  | ofSaved sound => exact sound

theorem BeginsWell.stamped (h : m.BeginsWell) : m.Stamped := by
  cases h with
  | create => exact fun r hr => nomatch hr
  | ofSaved _ stamped => exact stamped

theorem Queued.of_eq {m' : Mailbox} (h : m.Queued)
    (hmessages : m'.store.messages = m.store.messages) (hpending : m'.pending = m.pending) :
    m'.Queued := by
  unfold Queued
  rw [hmessages, hpending]
  exact h

theorem wellKept_of_invariants (ho : m.Orderly) (hi : m.Indexed) (hq : m.Queued)
    (hs : m.Stamped) : m.WellKept where
  sound := checkIntegrity_iff.2 ⟨ho, hi⟩
  ascending := ho.distinct
  names := nodup_remoteIds ho.distinct hi
  indexed := hi
  queued := hq
  stamped := hs
  receives _ _ _ := receive_error ho hi

theorem Stamped.editAll (hd : m.store.Distinct) (h : m.Stamped) (edits : List Edit) :
    (m.editAll edits).Stamped :=
  (editAll_preserves (P := fun m => m.store.Distinct ∧ m.Stamped)
    (fun h s => ⟨s.distinct h.1, s.stamped h.1 h.2⟩) (fun h s => ⟨s.distinct h.1, s.stamped h.2⟩)
    (fun now _ => ⟨(orderly_invalidate now _).distinct, stamped_invalidate now _⟩) edits ⟨hd, h⟩).2

/-- A mailbox that began well is well kept after any operations, those that fail included. -/
theorem wellKept_editAll (h : m.BeginsWell) (edits : List Edit) : (m.editAll edits).WellKept := by
  obtain ⟨ho, hi⟩ := checkIntegrity_iff.1 h.sound
  exact wellKept_of_invariants (ho.editAll edits) (Indexed.editAll ho.distinct hi edits)
    (h.initial.queued.editAll ho.distinct edits) (h.stamped.editAll ho.distinct edits)

/-- A saved mailbox with one message, which waits to be expunged. -/
def savedQueued : Mailbox :=
  let r : Message := { remoteId := "a", uid := .least, modseq := .zero }
  ofSaved "INBOX" ⟨⟨.one⟩, Uid.least.next?⟩
    ⟨[r], OrderedMap.insert ∅ "a" .least, List.pairwise_singleton ..⟩ .zero none
    (OrderedSet.insert .least ∅)

theorem savedQueued_beginsWell : savedQueued.BeginsWell :=
  .ofSaved rfl fun r hr => by simp_all [ofSaved, commit]

theorem wellKept_of_saved :
    savedQueued.BeginsWell ∧
      (savedQueued.editAll
        [.setFlags 0 .greatest ∅ .add, .receive { remoteId := "b" }, .flushPending,
          .receive { remoteId := "a" }]).WellKept :=
  ⟨savedQueued_beginsWell, wellKept_editAll savedQueued_beginsWell _⟩

end Mailbox

namespace SharedMailbox

open Mailbox

theorem queued_perform {s : SharedMailbox} (hd : s.mailbox.store.Distinct)
    (h : s.mailbox.Queued) (c : Change) : (s.perform c).mailbox.Queued := by
  rcases perform_restores_or_keeps hd c with ⟨store, heq, hmessages⟩ | ⟨cache?, heq⟩
  · rw [heq]
    exact h.of_eq hmessages rfl
  · rw [heq]
    exact Queued.editAll (m := s.mailbox.startJournal) hd h _

/-- Whatever others do, UIDs stay as they should be and waiting messages are there. -/
theorem orderly_queued_leads {s s' : SharedMailbox} (ho : s.mailbox.Orderly)
    (h : s.mailbox.Queued) (hleads : Leads s s') : s'.mailbox.Orderly ∧ s'.mailbox.Queued := by
  induction hleads with
  | refl => exact ⟨ho, h⟩
  | tail _ hstep ih =>
      cases hstep with
      | change c => exact ⟨orderly_perform ih.1 c, queued_perform ih.1.distinct ih.2 c⟩
      | aside => exact ih

end SharedMailbox

end MailBridge

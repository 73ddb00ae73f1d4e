import MailBridge.Proofs.Holding

/-! # The messages after a change

What comes in about a remote name concerns the message with that name and no other, as long as the
index is right. So the messages after a change are those before it, with that one amended; only
content under a name that was not known adds a message.
-/

namespace MailBridge

namespace Message

variable (r : Message) (content : MessageContent) (next : ModSeq)

/-- The message when content with its name has come in. -/
def refreshed : Message := if r.isRefreshedBy content then r.refresh content next else r

@[simp] theorem refreshed_uid : (r.refreshed content next).uid = r.uid := by
  unfold refreshed
  split <;> rfl

@[simp] theorem refreshed_remoteId : (r.refreshed content next).remoteId = r.remoteId := by
  unfold refreshed
  split <;> rfl

@[simp] theorem refreshed_flags : (r.refreshed content next).flags = r.flags := by
  unfold refreshed
  split <;> rfl

@[simp] theorem refreshed_localChanges :
    (r.refreshed content next).localChanges = r.localChanges := by
  unfold refreshed
  split <;> rfl

@[simp] theorem refreshed_decodeError :
    (r.refreshed content next).decodeError = content.decodeError := by
  unfold refreshed
  split
  · rfl
  · next hsame =>
    simp only [isRefreshedBy, Bool.or_eq_true, bne_iff_ne, not_or, Decidable.not_not] at hsame
    exact hsame.2

end Message

namespace Mailbox

variable {m m' : Mailbox} {id : RemoteId} {uid : Uid} {r' : Message}

/-- Where the message with a UID is amended, the one with its name is. -/
theorem mem_amended (hd : m.store.Distinct) (hi : m.Indexed) (hd' : m'.store.Distinct)
    (hname : m.store.uidOf? id = some uid) {f : Message → Message}
    (hget : ∀ other, m'.store.get? other =
      if other = uid then (m.store.get? other).map f else m.store.get? other) :
    r' ∈ m'.store.messages ↔
      ∃ r ∈ m.store.messages, (if r.remoteId = id then f r else r) = r' := by
  -- the message with the UID is the one with the name
  have huid {r : Message} (hr : r ∈ m.store.messages) : r.uid = uid ↔ r.remoteId = id := by
    obtain ⟨x, hx, hxid, hxuid⟩ := (hi id uid).1 hname
    refine ⟨fun h => ?_, fun h => (hi id).uid_eq hr hx h hxid |>.trans hxuid⟩
    have hsame := MessageStore.get?_of_mem hd hr
    rw [h, ← hxuid, MessageStore.get?_of_mem hd hx] at hsame
    exact Option.some.inj hsame ▸ hxid
  constructor
  · intro hr'
    have hfound := MessageStore.get?_of_mem hd' hr'
    rw [hget] at hfound
    split at hfound
    · next heq =>
      obtain ⟨r, hr, rfl⟩ := Option.map_eq_some_iff.1 hfound
      obtain ⟨hmem, hru⟩ := (MessageStore.get?_eq_some hd).1 hr
      exact ⟨r, hmem, if_pos ((huid hmem).1 (hru.trans heq))⟩
    · next hne =>
      obtain ⟨hmem, _⟩ := (MessageStore.get?_eq_some hd).1 hfound
      exact ⟨r', hmem, if_neg fun h => hne ((huid hmem).2 h)⟩
  · rintro ⟨r, hr, rfl⟩
    have hfound := hget r.uid
    rw [MessageStore.get?_of_mem hd hr] at hfound
    split
    · next hid =>
      rw [if_pos ((huid hr).2 hid), Option.map_some] at hfound
      exact ((MessageStore.get?_eq_some hd').1 hfound).1
    · next hid =>
      rw [if_neg fun h => hid ((huid hr).1 h)] at hfound
      exact ((MessageStore.get?_eq_some hd').1 hfound).1

theorem mem_of_unknown (hi : m.Indexed) (hname : m.store.uidOf? id = none)
    (f : Message → Message) : r' ∈ m.store.messages ↔
      ∃ r ∈ m.store.messages, (if r.remoteId = id then f r else r) = r' := by
  have hother := (hi id).eq_none.1 hname
  constructor
  · exact fun hr' => ⟨r', hr', if_neg (hother r' hr')⟩
  · rintro ⟨r, hr, rfl⟩
    rwa [if_neg (hother r hr)]

theorem mem_mergeFlags (hd : m.store.Distinct) (hi : m.Indexed) (id : RemoteId) (remote : Flags)
    (taken : Instant) : r' ∈ (m.mergeFlags id remote taken).2.store.messages ↔
      ∃ r ∈ m.store.messages,
        (if r.remoteId = id then r.merged remote taken m.modseq.next else r) = r' := by
  cases hname : m.store.uidOf? id with
  | none =>
      unfold mergeFlags
      simp only [hname]
      exact mem_of_unknown hi hname (·.merged remote taken m.modseq.next)
  | some uid =>
      exact mem_amended hd hi (distinct_editAll hd [.mergeFlags id remote taken]) hname
        (get?_mergeFlags hname remote taken)

theorem mem_markRemoved (hd : m.store.Distinct) (hi : m.Indexed) (id : RemoteId) :
    r' ∈ (m.markRemoved id).2.store.messages ↔
      ∃ r ∈ m.store.messages,
        (if r.remoteId = id then r.withdrawn m.modseq.next else r) = r' := by
  cases hname : m.store.uidOf? id with
  | none =>
      unfold markRemoved
      simp only [hname]
      exact mem_of_unknown hi hname (·.withdrawn m.modseq.next)
  | some uid =>
      exact mem_amended hd hi (distinct_editAll hd [.markRemoved id]) hname
        (get?_markRemoved hname)

theorem mem_receive_known {content : MessageContent} (hd : m.store.Distinct) (hi : m.Indexed)
    (hname : m.store.uidOf? content.remoteId = some uid) :
    r' ∈ (m.receive content).2.store.messages ↔
      ∃ r ∈ m.store.messages,
        (if r.remoteId = content.remoteId then r.refreshed content m.modseq.next else r) = r' := by
  have hd' : (m.receive content).2.store.Distinct := distinct_editAll hd [.receive content]
  refine mem_amended hd hi hd' hname fun other => ?_
  unfold receive
  simp only [hname]
  split
  · next hnone => exact get?_unchanged (by rw [hnone, Option.map_none]) other
  · next r found =>
    split
    · next hnews =>
      simp only [markUnsaved, change_store]
      exact get?_changed (f := (·.refreshed content m.modseq.next)) found (if_pos hnews) rfl other
    · next hsame =>
      refine get?_unchanged ?_ other
      rw [found, Option.map_some, Message.refreshed, if_neg hsame]

/-- Content of an unknown name arrives as a new message, whose UID nobody has. -/
theorem mem_receive_new {content : MessageContent} {receipt : Receipt}
    (hname : m.store.uidOf? content.remoteId = none)
    (hok : m.receive content = (.ok receipt, m')) :
    r' ∈ m'.store.messages ↔
      r' ∈ m.store.messages ∨ r' = .arrive content receipt.uid m.modseq.next := by
  unfold receive at hok
  simp only [hname] at hok
  split at hok
  · cases hok
  · split at hok
    · cases hok
    · next store added =>
      cases hok
      rw [note_store, note_modseq] at added
      obtain ⟨_, _, hmessages, _⟩ := MessageStore.append?_eq_some added
      simp only [markUnsaved]
      rw [hmessages, List.mem_append, List.mem_singleton]
      rfl

theorem correct_cases {updatesFlags : Bool} {prepared : List MessageContent} {taken : Instant}
    {tally tally' : Tally} {correction : Correction}
    (hok : m.correct updatesFlags prepared taken tally correction = (.ok tally', m')) :
    (∃ id, correction = .remove id ∧ m' = (m.markRemoved id).2) ∨
      (∃ id flags, correction = .mergeFlags id flags ∧
        m' = if updatesFlags then (m.mergeFlags id flags taken).2 else m) ∨
      ∃ content ∈ prepared, ∃ receipt, correction = .create content.remoteId ∧
        m.receive content = (.ok receipt, m') := by
  cases correction with
  | remove id =>
      simp only [correct] at hok
      split at hok <;> next hresult =>
        cases hok
        exact .inl ⟨id, rfl, by rw [hresult]⟩
  | mergeFlags id flags =>
      simp only [correct] at hok
      refine .inr (.inl ⟨id, flags, rfl, ?_⟩)
      cases updatesFlags with
      | true =>
          simp only [if_true] at hok ⊢
          split at hok <;> next hresult =>
            cases hok
            rw [hresult]
      | false =>
          cases hok
          rfl
  | create id =>
      simp only [correct] at hok
      split at hok
      · cases hok
      · next content hcontent =>
        have hid : content.remoteId = id := by simpa using List.find?_some hcontent
        split at hok
        · cases hok
        · next receipt _ hreceived =>
          cases hok
          exact .inr (.inr ⟨content, List.mem_of_find?_eq_some hcontent, receipt,
            congrArg Correction.create hid.symm, hreceived⟩)

/-- What is mended has sound identities, and only messages that were there before. -/
theorem mend_sound (ho : m.Orderly) (now : Instant) (invalidate : Bool) :
    (m.mend now invalidate).2.store.Distinct ∧ (m.mend now invalidate).2.Indexed ∧
      ∀ r ∈ (m.mend now invalidate).2.store.messages, r ∈ m.store.messages := by
  rw [mend_eq ho]
  split
  · refine ⟨(orderly_invalidate now m).distinct, indexed_invalidate now m, ?_⟩
    rw [(invalidate_eq now m).2.1]
    exact fun r hr => nomatch hr
  · next hsound =>
    simp only [Bool.or_eq_true, not_or, Option.not_isSome_iff_eq_none] at hsound
    exact ⟨ho.distinct, (desync?_eq_none.1 hsound.2).2, fun r hr => hr⟩

theorem mem_of_mem_flushUnlessSelected {sessions : Nat}
    (h : r' ∈ (m.flushUnlessSelected sessions).2.store.messages) : r' ∈ m.store.messages := by
  unfold flushUnlessSelected at h
  split at h
  · exact (flushed_spec m).2.2 r' h
  · exact h

end Mailbox

end MailBridge

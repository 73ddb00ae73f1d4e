import MailBridge.Proofs.Edit
import MailBridge.Proofs.Integrity

/-! # Where the messages of a mailbox come from

Within an epoch, a message of a mailbox was there before under the same UID and remote name, or
its UID is one that was still to be issued. As long as the count of changes goes on, a message
whose modification sequence is not new has kept its flags.
-/

namespace MailBridge

/-- A message as it has become since a mailbox had counted the given changes. -/
structure Message.Becomes (seen : ModSeq) (counting : Prop) (old new : Message) : Prop where
  uid : new.uid = old.uid
  remoteId : new.remoteId = old.remoteId
  stamp : counting → (new.modseq = old.modseq ∧
    Flags.withoutRecent new.flags = Flags.withoutRecent old.flags) ∨ seen.val < new.modseq.val

theorem Message.Becomes.refl {seen : ModSeq} {counting : Prop} (r : Message) :
    r.Becomes seen counting r := ⟨rfl, rfl, fun _ => .inl ⟨rfl, rfl⟩⟩

namespace ModSeq

theorem le_next (n : ModSeq) : n.val ≤ n.next.val := by
  have := n.le_maxLong
  show n.val ≤ min (n.val + 1) maxLong
  omega

theorem lt_next {n : ModSeq} (h : n.next.val < maxLong) : n.val < n.next.val := by
  change min (n.val + 1) maxLong < maxLong at h
  show n.val < min (n.val + 1) maxLong
  omega

end ModSeq

namespace Mailbox

/-- A mailbox as it has become within an epoch. -/
structure Continues (m m' : Mailbox) : Prop where
  validity : m'.uids.validity = m.uids.validity
  bound : m.uids.bound ≤ m'.uids.bound
  modseq : m.modseq.val ≤ m'.modseq.val
  origin : ∀ r' ∈ m'.store.messages,
    (∃ r ∈ m.store.messages, r.Becomes m.modseq (m'.modseq.val < maxLong) r') ∨
      m.uids.bound ≤ r'.uid.val

/-- No message of the mailbox was changed after the changes that the mailbox has counted. -/
def Stamped (m : Mailbox) : Prop := ∀ r ∈ m.store.messages, r.modseq.val ≤ m.modseq.val

theorem Continues.of_eq {m m' : Mailbox} (hstore : m'.store.messages = m.store.messages)
    (huids : m'.uids = m.uids) (hmodseq : m'.modseq = m.modseq) : m.Continues m' where
  validity := by rw [huids]
  bound := Nat.le_of_eq (by rw [huids])
  modseq := Nat.le_of_eq (by rw [hmodseq])
  origin r hr := .inl ⟨r, hstore ▸ hr, .refl r⟩

theorem Continues.refl (m : Mailbox) : m.Continues m := .of_eq rfl rfl rfl

theorem Continues.trans {m m' m'' : Mailbox} (h : m.Continues m') (h' : m'.Continues m'') :
    m.Continues m'' where
  validity := h'.validity.trans h.validity
  bound := Nat.le_trans h.bound h'.bound
  modseq := Nat.le_trans h.modseq h'.modseq
  origin r'' hr'' := by
    rcases h'.origin r'' hr'' with ⟨r', hr', hbecomes'⟩ | hnew
    · rcases h.origin r' hr' with ⟨r, hr, hbecomes⟩ | hnew
      · refine .inl ⟨r, hr, hbecomes'.uid.trans hbecomes.uid,
          hbecomes'.remoteId.trans hbecomes.remoteId, ?_⟩
        intro hcounting
        rcases hbecomes'.stamp hcounting with ⟨hmodseq', hflags'⟩ | hlater
        · rw [hmodseq', hflags']
          exact hbecomes.stamp (Nat.lt_of_le_of_lt h'.modseq hcounting)
        · exact .inr (Nat.lt_of_le_of_lt h.modseq hlater)
      · exact .inr (hbecomes'.uid ▸ hnew)
    · exact .inr (Nat.le_trans h.bound hnew)

/-! ## Upkeep -/

theorem Upkeep.distinct {m m' : Mailbox} (h : m.store.Distinct) (s : Upkeep m m') :
    m'.store.Distinct := by
  cases s with
  | note uid => rwa [note_store]
  | mark => exact h
  | forget => exact h
  | commit =>
      unfold Mailbox.commit
      split <;> exact h
  | raise => exact h
  | touch => exact h.update _
  | change =>
      simp only [Mailbox.change, advance, note_store]
      exact h.update _
  | remove =>
      simp only [advance]
      rw [noteRemoved_eq]
      exact h.removeWhere _

/-- What a single step makes of a message. -/
structure Retains (m m' : Mailbox) (old new : Message) : Prop where
  uid : new.uid = old.uid
  remoteId : new.remoteId = old.remoteId
  stamp : (new.modseq = old.modseq ∧
      Flags.withoutRecent new.flags = Flags.withoutRecent old.flags) ∨
    (new.modseq = m.modseq.next ∧ m'.modseq = m.modseq.next)

theorem Retains.refl {m m' : Mailbox} (r : Message) : Retains m m' r r :=
  ⟨rfl, rfl, .inl ⟨rfl, rfl⟩⟩

theorem Retains.becomes {m m' : Mailbox} {old new : Message} (h : Retains m m' old new) :
    old.Becomes m.modseq (m'.modseq.val < maxLong) new := by
  refine ⟨h.uid, h.remoteId, ?_⟩
  intro hcounting
  rcases h.stamp with hsame | ⟨hnew, hnext⟩
  · exact .inl hsame
  · rw [hnext] at hcounting
    rw [hnew]
    exact .inr (ModSeq.lt_next hcounting)

theorem retains_update {m m' : Mailbox} {old r : Message} (h : m.store.Distinct)
    (hstore : m'.store = m.store.update r) (found : m.store.get? r.uid = some old)
    (hretains : Retains m m' old r) :
    ∀ r' ∈ m'.store.messages, ∃ r ∈ m.store.messages, Retains m m' r r' := by
  intro r' hr'
  rw [hstore, MessageStore.mem_update h] at hr'
  rcases hr' with ⟨rfl, _⟩ | ⟨hr', _⟩
  · exact ⟨old, ((MessageStore.get?_eq_some h).1 found).1, hretains⟩
  · exact ⟨r', hr', .refl r'⟩

theorem Upkeep.retains {m m' : Mailbox} (h : m.store.Distinct) (s : Upkeep m m') :
    ∀ r' ∈ m'.store.messages, ∃ r ∈ m.store.messages, Retains m m' r r' := by
  cases s with
  | note uid =>
      rw [note_store]
      exact fun r hr => ⟨r, hr, .refl r⟩
  | mark => exact fun r hr => ⟨r, hr, .refl r⟩
  | forget => exact fun r hr => ⟨r, hr, .refl r⟩
  | commit =>
      unfold Mailbox.commit
      split <;> exact fun r hr => ⟨r, hr, .refl r⟩
  | raise => exact fun r hr => ⟨r, hr, .refl r⟩
  | touch found name modseq flags =>
      exact retains_update h rfl found ⟨(uid_of_found found).symm, name, .inl ⟨modseq, flags⟩⟩
  | @change old r found name modseq =>
      have hnext : (m.change r).modseq = m.modseq.next := by simp [Mailbox.change, advance]
      exact retains_update h (by simp [Mailbox.change, advance]) found
        ⟨(uid_of_found found).symm, name, .inr ⟨modseq, hnext⟩⟩
  | remove =>
      simp only [advance]
      rw [noteRemoved_eq]
      intro r hr
      exact ⟨r, (MessageStore.mem_removeWhere.1 hr).1, .refl r⟩

theorem Upkeep.modseq {m m' : Mailbox} (s : Upkeep m m') :
    m'.modseq = m.modseq ∨ m'.modseq = m.modseq.next := by
  cases s with
  | note uid => exact .inl (note_modseq ..)
  | mark => exact .inl rfl
  | forget => exact .inl rfl
  | commit =>
      unfold Mailbox.commit
      split <;> exact .inl rfl
  | raise => exact .inl rfl
  | touch => exact .inl (note_modseq ..)
  | change => exact .inr (by simp [Mailbox.change, advance])
  | remove =>
      simp only [advance]
      rw [noteRemoved_eq]
      exact .inr rfl

theorem Upkeep.uids {m m' : Mailbox} (s : Upkeep m m') :
    m'.uids.validity = m.uids.validity ∧ m.uids.bound ≤ m'.uids.bound := by
  cases s with
  | note uid => simp
  | mark => simp
  | forget => simp
  | commit =>
      unfold Mailbox.commit
      split <;> simp
  | raise uid => exact ⟨UidSpace.raiseAbove_validity .., UidSpace.bound_le_raiseAbove ..⟩
  | touch => simp
  | change => simp [Mailbox.change, advance]
  | remove =>
      simp only [advance]
      rw [noteRemoved_eq]
      exact ⟨rfl, Nat.le_refl _⟩

theorem Upkeep.modseq_le {m m' : Mailbox} (s : Upkeep m m') : m.modseq.val ≤ m'.modseq.val := by
  rcases s.modseq with heq | heq
  · simp [heq]
  · rw [heq]
    exact m.modseq.le_next

theorem Upkeep.continues {m m' : Mailbox} (h : m.store.Distinct) (s : Upkeep m m') :
    m.Continues m' where
  validity := s.uids.1
  bound := s.uids.2
  modseq := s.modseq_le
  origin r' hr' := by
    obtain ⟨r, hr, hretains⟩ := s.retains h r' hr'
    exact .inl ⟨r, hr, hretains.becomes⟩

theorem Upkeep.orderly {m m' : Mailbox} (h : m.Orderly) (s : Upkeep m m') : m'.Orderly where
  distinct := s.distinct h.distinct
  below r' hr' := by
    obtain ⟨r, hr, hretains⟩ := s.retains h.distinct r' hr'
    rw [hretains.uid]
    exact Nat.lt_of_lt_of_le (h.below r hr) s.uids.2

theorem Upkeep.stamped {m m' : Mailbox} (h : m.store.Distinct) (hstamped : m.Stamped)
    (s : Upkeep m m') : m'.Stamped := by
  intro r' hr'
  obtain ⟨r, hr, hretains⟩ := s.retains h r' hr'
  rcases hretains.stamp with ⟨hsame, _⟩ | ⟨hnew, hnext⟩
  · rw [hsame]
    exact Nat.le_trans (hstamped r hr) s.modseq_le
  · simp [hnew, hnext]

/-! ## Admission -/

/-- What admitting a message changes: the UID is the bound, and all other messages stay. -/
theorem Admission.messages {m m' : Mailbox} (s : Admission m m') :
    m'.uids.validity = m.uids.validity ∧ m'.uids.bound = m.uids.bound + 1 ∧
      m'.modseq = m.modseq.next ∧
      (m'.store.messages = m.store.messages ∨
        ∃ r, m'.store.messages = m.store.messages ++ [r] ∧ r.uid.val = m.uids.bound ∧
          r.modseq = m'.modseq) := by
  cases s with
  | spend issued =>
      obtain ⟨_, hbound, hvalidity⟩ := UidSpace.issue?_eq_some issued
      simp [advance, hbound, hvalidity]
  | @enter r uids store issued modseq added =>
      obtain ⟨huid, hbound, hvalidity⟩ := UidSpace.issue?_eq_some issued
      obtain ⟨_, _, hmessages, _⟩ := MessageStore.append?_eq_some added
      have hmodseq : (note r.uid (advance { m with uids })).modseq = m.modseq.next := note_modseq ..
      refine ⟨?_, ?_, hmodseq, .inr ⟨r, hmessages, huid, modseq.trans hmodseq.symm⟩⟩
      · rwa [Mailbox.markUnsaved, note_uids]
      · rwa [Mailbox.markUnsaved, note_uids]

theorem Admission.continues {m m' : Mailbox} (s : Admission m m') : m.Continues m' := by
  obtain ⟨hvalidity, hbound, hmodseq, hmessages⟩ := s.messages
  refine ⟨hvalidity, by omega, by rw [hmodseq]; exact m.modseq.le_next, ?_⟩
  intro r' hr'
  rcases hmessages with heq | ⟨r, heq, huid, _⟩
  · rw [heq] at hr'
    exact .inl ⟨r', hr', .refl r'⟩
  · rw [heq] at hr'
    rcases List.mem_append.1 hr' with hold | hnew
    · exact .inl ⟨r', hold, .refl r'⟩
    · rw [List.mem_singleton.1 hnew]
      exact .inr (Nat.le_of_eq huid.symm)

theorem Admission.distinct {m m' : Mailbox} (h : m.store.Distinct) (s : Admission m m') :
    m'.store.Distinct := by
  cases s with
  | spend =>
      rw [note_store]
      exact h
  | enter _ _ added => exact h.append? added

theorem Admission.orderly {m m' : Mailbox} (h : m.Orderly) (s : Admission m m') : m'.Orderly := by
  refine ⟨s.distinct h.distinct, ?_⟩
  obtain ⟨_, hbound, _, hmessages⟩ := s.messages
  intro r' hr'
  rcases hmessages with heq | ⟨r, heq, huid, _⟩
  · rw [heq] at hr'
    have := h.below r' hr'
    omega
  · rw [heq] at hr'
    rcases List.mem_append.1 hr' with hold | hnew
    · have := h.below r' hold
      omega
    · rw [List.mem_singleton.1 hnew]
      omega

theorem Admission.stamped {m m' : Mailbox} (h : m.Stamped) (s : Admission m m') : m'.Stamped := by
  obtain ⟨_, _, hmodseq, hmessages⟩ := s.messages
  have hle := m.modseq.le_next
  have hold : ∀ r ∈ m.store.messages, r.modseq.val ≤ m'.modseq.val := by
    intro r hr
    rw [hmodseq]
    exact Nat.le_trans (h r hr) hle
  intro r' hr'
  rcases hmessages with heq | ⟨r, heq, _, hstamp⟩
  · exact hold r' (heq ▸ hr')
  · rw [heq] at hr'
    rcases List.mem_append.1 hr' with hr' | hnew
    · exact hold r' hr'
    · simp [List.mem_singleton.1 hnew, hstamp]

/-! ## A new epoch -/

theorem invalidate_eq (now : Instant) (m : Mailbox) :
    (m.invalidate now).2.uids = m.uids.renew now ∧ (m.invalidate now).2.store = ∅ ∧
      (m.invalidate now).2.modseq = m.modseq.next ∧ (m.invalidate now).2.summary? = none := by
  unfold Mailbox.invalidate
  dsimp only [advance]
  rw [noteStore_eq]
  simp

theorem orderly_invalidate (now : Instant) (m : Mailbox) : (m.invalidate now).2.Orderly := by
  obtain ⟨_, hstore, _, _⟩ := invalidate_eq now m
  refine ⟨by rw [hstore]; exact Ascending.nil, ?_⟩
  intro r hr
  rw [hstore] at hr
  cases hr

theorem stamped_invalidate (now : Instant) (m : Mailbox) : (m.invalidate now).2.Stamped := by
  obtain ⟨_, hstore, _, _⟩ := invalidate_eq now m
  intro r hr
  rw [hstore] at hr
  cases hr

/-! ## Any edits -/

/-- A mailbox as it has become after any edits. The greatest UID validity has no next one, so
nothing is said of what follows it. -/
structure Later (m m' : Mailbox) : Prop where
  validity : m.uids.validity.val ≤ m'.uids.validity.val
  continues : m'.uids.validity = m.uids.validity → m'.uids.validity.val < maxWord → m.Continues m'

theorem Continues.later {m m' : Mailbox} (h : m.Continues m') : m.Later m' :=
  ⟨Nat.le_of_eq (by rw [h.validity]), fun _ _ => h⟩

theorem Later.refl (m : Mailbox) : m.Later m := (Continues.refl m).later

theorem Later.trans {m m' m'' : Mailbox} (h : m.Later m') (h' : m'.Later m'') : m.Later m'' where
  validity := Nat.le_trans h.validity h'.validity
  continues hsame hlt := by
    have hle := h.validity
    have hle' := h'.validity
    have hmid : m'.uids.validity = m.uids.validity := by
      refine UidValidity.ext_val ?_
      rw [hsame] at hle'
      omega
    exact (h.continues hmid (by omega)).trans (h'.continues (hsame.trans hmid.symm) hlt)

theorem later_invalidate (now : Instant) (m : Mailbox) : m.Later (m.invalidate now).2 := by
  have huids := (invalidate_eq now m).1
  have hvalidity : (m.invalidate now).2.uids.validity = m.uids.validity.next now := by
    rw [huids, UidSpace.renew_validity]
  refine ⟨by rw [hvalidity]; exact UidValidity.le_next .., ?_⟩
  intro hsame hlt
  have habove := UidValidity.lt_next (hsame ▸ hlt) now
  rw [← hvalidity, hsame] at habove
  exact absurd habove (Nat.lt_irrefl _)

theorem Orderly.editAll {m : Mailbox} (h : m.Orderly) (edits : List Edit) :
    (m.editAll edits).Orderly :=
  editAll_preserves (P := Orderly) (fun h s => s.orderly h) (fun h s => s.orderly h)
    (fun now _ => orderly_invalidate now _) edits h

theorem distinct_editAll {m : Mailbox} (h : m.store.Distinct) (edits : List Edit) :
    (m.editAll edits).store.Distinct :=
  editAll_preserves (P := fun m => m.store.Distinct) (fun h s => s.distinct h)
    (fun h s => s.distinct h) (fun now _ => (orderly_invalidate now _).distinct) edits h

theorem later_editAll {m : Mailbox} (h : m.store.Distinct) (edits : List Edit) :
    m.Later (m.editAll edits) :=
  (editAll_preserves (P := fun m' => m'.store.Distinct ∧ m.Later m')
    (fun h s => ⟨s.distinct h.1, h.2.trans (s.continues h.1).later⟩)
    (fun h s => ⟨s.distinct h.1, h.2.trans s.continues.later⟩)
    (fun now h => ⟨(orderly_invalidate now _).distinct, h.2.trans (later_invalidate now _)⟩)
    edits ⟨h, .refl m⟩).2

theorem continues_editAll {m : Mailbox} (h : m.store.Distinct) {edits : List Edit}
    (hno : ∀ e ∈ edits, e.renews = false) : m.Continues (m.editAll edits) :=
  (editAll_within (P := fun m' => m'.store.Distinct ∧ m.Continues m')
    (fun h s => ⟨s.distinct h.1, h.2.trans (s.continues h.1)⟩)
    (fun h s => ⟨s.distinct h.1, h.2.trans s.continues⟩) hno ⟨h, .refl m⟩).2

end Mailbox

end MailBridge

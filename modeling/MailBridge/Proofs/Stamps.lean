import MailBridge.Proofs.Figures
import MailBridge.Proofs.Marks

/-! # What modification sequences tell

A session looks at modification sequences alone to find out what it has missed. Within an epoch
this is enough. Whatever has been done to a mailbox since some earlier time, kept or taken back, a
message of which there is something else to tell has a later modification sequence than the mailbox
had at that time, and so has a message that has come; and if a message has gone, the mailbox itself
has a later one.
-/

namespace MailBridge

/-- What there is to tell of a message: its content without the mark of a recent message. -/
def Message.shown (r : Message) : MessageContent :=
  { r.toMessageContent with flags := Flags.withoutRecent r.flags }

/-- There is nothing else to tell of a message, and it has not been stamped again. -/
structure Message.Stands (old new : Message) : Prop where
  uid : new.uid = old.uid
  modseq : new.modseq = old.modseq
  shown : new.shown = old.shown

theorem Message.Stands.refl (r : Message) : r.Stands r := ⟨rfl, rfl, rfl⟩

namespace Mailbox

variable {m m' m'' : Mailbox}

/-- The later mailbox discloses by modification sequences what is different from the earlier one, as
long as it has not stopped counting. -/
structure Discloses (m m' : Mailbox) : Prop where
  modseq : m.modseq.val ≤ m'.modseq.val
  stamped : ∀ r' ∈ m'.store.messages, (∃ r ∈ m.store.messages, r.Stands r') ∨
    (m'.modseq.val < maxLong → m.modseq.val < r'.modseq.val)
  gone : ∀ r ∈ m.store.messages, (∃ r' ∈ m'.store.messages, r'.uid = r.uid) ∨
    (m'.modseq.val < maxLong → m.modseq.val < m'.modseq.val)

theorem Discloses.of_eq (hmessages : m'.store.messages = m.store.messages)
    (hmodseq : m.modseq.val ≤ m'.modseq.val) : m.Discloses m' where
  modseq := hmodseq
  stamped r' hr' := .inl ⟨r', hmessages ▸ hr', .refl r'⟩
  gone r hr := .inl ⟨r, hmessages ▸ hr, rfl⟩

theorem Discloses.refl (m : Mailbox) : m.Discloses m := .of_eq rfl (Nat.le_refl _)

theorem Discloses.trans (h : m.Discloses m') (h' : m'.Discloses m'') : m.Discloses m'' where
  modseq := Nat.le_trans h.modseq h'.modseq
  stamped r'' hr'' := by
    have hle := h.modseq
    rcases h'.stamped r'' hr'' with ⟨r', hr', hstands'⟩ | hlater
    · rcases h.stamped r' hr' with ⟨r, hr, hstands⟩ | hlater
      · exact .inl ⟨r, hr, hstands'.uid.trans hstands.uid, hstands'.modseq.trans hstands.modseq,
          hstands'.shown.trans hstands.shown⟩
      · refine .inr fun hcounting => ?_
        rw [hstands'.modseq]
        exact hlater (Nat.lt_of_le_of_lt h'.modseq hcounting)
    · exact .inr fun hcounting => Nat.lt_of_le_of_lt hle (hlater hcounting)
  gone r hr := by
    have hle := h.modseq
    have hle' := h'.modseq
    rcases h.gone r hr with ⟨r', hr', huid⟩ | hlater
    · rcases h'.gone r' hr' with ⟨r'', hr'', huid'⟩ | hlater
      · exact .inl ⟨r'', hr'', huid'.trans huid⟩
      · exact .inr fun hcounting => Nat.lt_of_le_of_lt hle (hlater hcounting)
    · refine .inr fun hcounting => ?_
      exact Nat.lt_of_lt_of_le (hlater (Nat.lt_of_le_of_lt hle' hcounting)) hle'

/-! ## Edits within an epoch -/

/-- A message may change in what there is to tell of it if it is stamped as the next change. -/
theorem discloses_update {old r : Message} (hd : m.store.Distinct)
    (found : m.store.get? r.uid = some old) (hstore : m'.store = m.store.update r)
    (h : old.Stands r ∧ m'.modseq = m.modseq ∨
      r.modseq = m.modseq.next ∧ m'.modseq = m.modseq.next) : m.Discloses m' where
  modseq := by
    rcases h with ⟨_, hsame⟩ | ⟨_, hnext⟩
    · exact Nat.le_of_eq (by rw [hsame])
    · rw [hnext]
      exact m.modseq.le_next
  stamped r' hr' := by
    rw [hstore, MessageStore.mem_update hd] at hr'
    rcases hr' with ⟨rfl, _⟩ | ⟨hr', _⟩
    · rcases h with ⟨hstands, _⟩ | ⟨hstamp, hnext⟩
      · exact .inl ⟨old, ((MessageStore.get?_eq_some hd).1 found).1, hstands⟩
      · refine .inr fun hcounting => ?_
        rw [hnext] at hcounting
        rw [hstamp]
        exact ModSeq.lt_next hcounting
    · exact .inl ⟨r', hr', .refl r'⟩
  gone x hx := by
    rw [hstore]
    exact .inl (exists_mem_update ⟨x, hx, rfl⟩)

theorem discloses_change {old r : Message} (hd : m.store.Distinct)
    (found : m.store.get? r.uid = some old) (hstamp : r.modseq = m.modseq.next) :
    m.Discloses (m.change r) :=
  discloses_update hd found (by simp) (.inr ⟨hstamp, by simp [change, advance]⟩)

theorem discloses_change_unsaved {old r : Message} (hd : m.store.Distinct)
    (found : m.store.get? r.uid = some old) (hstamp : r.modseq = m.modseq.next) (uid : Uid) :
    m.Discloses ((m.change r).markUnsaved uid) :=
  (discloses_change hd found hstamp).trans (.of_eq rfl (Nat.le_refl _))

theorem discloses_receive (hd : m.store.Distinct) (content : MessageContent) :
    m.Discloses (m.receive content).2 := by
  unfold receive
  split
  · split
    · exact .refl m
    · next uid _ r found =>
      rw [← uid_of_found found] at found
      split
      · exact discloses_change_unsaved (r := r.refresh content m.modseq.next) hd found rfl _
      · exact .refl m
  · split
    · exact .refl m
    · next uid uids issued =>
      dsimp only
      split
      · exact .of_eq (by simp [advance]) (by simpa [advance] using m.modseq.le_next)
      · next store added =>
        rw [note_store, note_modseq] at added
        obtain ⟨_, _, hmessages, _⟩ := MessageStore.append?_eq_some added
        refine ⟨by simpa [advance, markUnsaved] using m.modseq.le_next, fun r' hr' => ?_,
          fun r hr => .inl ⟨r, ?_, rfl⟩⟩
        · simp only [markUnsaved, hmessages, List.mem_append, List.mem_singleton] at hr'
          rcases hr' with hr' | rfl
          · exact .inl ⟨r', hr', .refl r'⟩
          · refine .inr fun hcounting => ?_
            simp only [markUnsaved, note_modseq] at hcounting
            exact ModSeq.lt_next hcounting
        · simp only [markUnsaved, hmessages]
          exact List.mem_append_left _ hr

theorem discloses_setFlags (hd : m.store.Distinct) (now : Instant) (uid : Uid) (delta : Flags)
    (mode : StoreMode) : m.Discloses (m.setFlags now uid delta mode).2 := by
  unfold setFlags
  split
  · exact .refl m
  · next r found =>
    rw [← uid_of_found found] at found
    dsimp only
    split
    · exact .refl m
    · exact discloses_change_unsaved hd (r := { r with
        flags := _, localChanges := _, modseq := m.modseq.next }) found rfl _

theorem discloses_mergeFlags (hd : m.store.Distinct) (id : RemoteId) (flags : Flags)
    (taken : Instant) : m.Discloses (m.mergeFlags id flags taken).2 := by
  unfold mergeFlags
  split
  · exact .refl m
  · split
    · exact .refl m
    · next uid _ r found =>
      rw [← uid_of_found found] at found ⊢
      dsimp only
      generalize (if r.isUndecryptable = true then _ else _) = merged
      split
      · exact discloses_change_unsaved (r := { r with
          flags := merged, modseq := m.modseq.next
          localChanges := r.localChanges.forgetBefore taken }) hd found rfl _
      · split
        · -- only local changes are forgotten, of which nobody is told
          exact discloses_update (r := { r with localChanges := r.localChanges.forgetBefore taken })
            hd found (by rw [note_store]) (.inl ⟨⟨rfl, rfl, rfl⟩, note_modseq ..⟩)
        · exact .refl m

theorem discloses_markRemoved (hd : m.store.Distinct) (id : RemoteId) :
    m.Discloses (m.markRemoved id).2 := by
  unfold markRemoved
  split
  · exact .refl m
  · split
    · exact .refl m
    · next uid _ r found =>
      rw [← uid_of_found found] at found ⊢
      have hmark : m.Discloses
          (if Flags.isDeleted r.flags then m
          else m.change { r with
            flags := OrderedSet.insert .deleted r.flags, modseq := m.modseq.next }) := by
        split
        · exact .refl m
        · exact discloses_change hd found rfl
      dsimp only
      generalize (if Flags.isDeleted r.flags then m else _) = m' at hmark ⊢
      split
      · exact hmark
      · exact hmark.trans (.of_eq rfl (Nat.le_refl _))

/-- Forgetting messages that have been taken out counts as a change, unless there are none. -/
theorem discloses_settleRemoval (p : Message → Bool) (pending : OrderedSet Uid) :
    m.Discloses (settleRemoval (m.store.removeWhere p).1
      { m with store := (m.store.removeWhere p).2, pending }).2 := by
  unfold settleRemoval
  split
  · next hempty =>
    exact .of_eq (by rw [MessageStore.removeWhere_of_isEmpty hempty]) (Nat.le_refl _)
  · dsimp only
    rw [settle_foldl, noteRemoved_eq]
    refine ⟨m.modseq.le_next, fun r' hr' => ?_, fun r _ => .inr ModSeq.lt_next⟩
    exact .inl ⟨r', (MessageStore.mem_removeWhere.1 hr').1, .refl r'⟩

theorem discloses_flushPending (m : Mailbox) : m.Discloses m.flushPending.2 := by
  unfold flushPending
  split
  · exact .refl m
  · exact discloses_settleRemoval _ ∅

theorem discloses_clearRecent (hd : m.store.Distinct) (p : Uid → Bool)
    (hmodseq : m.modseq.val ≤ (m.clearRecent p).2.modseq.val) :
    m.Discloses (m.clearRecent p).2 where
  modseq := hmodseq
  stamped r' hr' := by
    rw [messages_clearRecent hd] at hr'
    obtain ⟨r, hr, rfl⟩ := List.mem_map.1 hr'
    refine .inl ⟨r, hr, ?_⟩
    unfold Message.unmarkedIf
    split
    · exact ⟨rfl, rfl, by simp [Message.shown, Message.unmarked, Flags.withoutRecent,
        OrderedSet.erase_erase]⟩
    · exact .refl r
  gone r hr := by
    have hcarried : r.Carried False (r.unmarkedIf p) := r.carried_unmarkedIf p id
    rw [messages_clearRecent hd]
    exact .inl ⟨_, List.mem_map_of_mem hr, hcarried.uid⟩

theorem discloses_apply (hd : m.store.Distinct) {e : Edit} (he : e.renews = false) :
    m.Discloses (e.apply m) := by
  have hmodseq : m.modseq.val ≤ (m.editAll [e]).modseq.val :=
    (continues_editAll hd (by simpa using he)).modseq
  have hsame (hstore : (e.apply m).store = m.store) : m.Discloses (e.apply m) :=
    .of_eq (by rw [hstore]) hmodseq
  cases e with
  | receive content => exact discloses_receive hd content
  | setFlags now uid delta mode => exact discloses_setFlags hd now uid delta mode
  | mergeFlags id flags taken => exact discloses_mergeFlags hd id flags taken
  | markRemoved id => exact discloses_markRemoved hd id
  | expunge => exact discloses_settleRemoval _ m.pending
  | flushPending => exact discloses_flushPending m
  | clearRecent p => exact discloses_clearRecent hd p hmodseq
  | raiseUidNext => exact hsame (raiseUidNext_store m)
  | commit => exact hsame (commit_store m)
  | setCursor cursor => exact hsame (setCursor_store cursor m)
  | takeUnsaved => exact hsame rfl
  | invalidate now => cases he

theorem discloses_editAll (hd : m.store.Distinct) {edits : List Edit}
    (hno : ∀ e ∈ edits, e.renews = false) : m.Discloses (m.editAll edits) := by
  induction edits generalizing m with
  | nil => exact .refl m
  | cons e rest ih =>
      obtain ⟨he, hrest⟩ := List.forall_mem_cons.1 hno
      exact (discloses_apply hd he).trans (ih (distinct_editAll hd [e]) hrest)

end Mailbox

theorem SharedMailbox.discloses_perform {s : SharedMailbox} (hd : s.mailbox.store.Distinct)
    {c : Change} (hno : ∀ e ∈ c.edits, e.renews = false) :
    s.mailbox.Discloses (s.perform c).mailbox := by
  rcases perform_restores_or_keeps hd c with ⟨store, heq, hmessages⟩ | ⟨cache?, heq⟩
  · rw [heq]
    exact .of_eq hmessages (Nat.le_refl _)
  · have hall : ∀ e ∈ c.edits ++ [.commit, .takeUnsaved], e.renews = false := by
      intro e he
      rcases List.mem_append.1 he with he | he
      · exact hno e he
      · rcases List.mem_cons.1 he with rfl | he
        · rfl
        · rw [List.mem_singleton.1 he]
          rfl
    have hedits := Mailbox.discloses_editAll (m := s.mailbox.startJournal) hd hall
    rw [heq]
    exact ⟨hedits.modseq, hedits.stamped, hedits.gone⟩

namespace Mailbox

variable {m : Mailbox}

/-- Whether a deed stays within the epoch. -/
def Deed.StaysInEpoch : Deed → Prop
  | edit e => e.renews = false
  | change _ c => ∀ e ∈ c.edits, e.renews = false

theorem distinct_doAll (hd : m.store.Distinct) (deeds : List Deed) :
    (m.doAll deeds).store.Distinct := by
  induction deeds generalizing m with
  | nil => exact hd
  | cons d rest ih =>
      refine ih ?_
      cases d with
      | edit e => exact distinct_editAll hd [e]
      | change cache? c => exact SharedMailbox.distinct_perform (s := { mailbox := m, cache? }) hd c

theorem discloses_doAll (hd : m.store.Distinct) {deeds : List Deed}
    (hstays : ∀ d ∈ deeds, d.StaysInEpoch) : m.Discloses (m.doAll deeds) := by
  induction deeds generalizing m with
  | nil => exact .refl m
  | cons d rest ih =>
      obtain ⟨hd₁, hrest⟩ := List.forall_mem_cons.1 hstays
      refine Discloses.trans ?_ (ih (distinct_doAll hd [d]) hrest)
      cases d with
      | edit e => exact discloses_apply hd hd₁
      | change cache? c =>
          exact SharedMailbox.discloses_perform (s := { mailbox := m, cache? }) hd hd₁

/-- Let a mailbox with sound identities go through any deeds within an epoch, and look at it once
before the last of them and once after. As long as modification sequences are counted, that of the
mailbox does not go down; a message that is there both times, but of which there is something else
to tell, has been stamped since, as has a message that has come; and if a message has gone, the
mailbox has counted a change. -/
theorem changes_are_stamped (hsound : m.checkIntegrity = .ok ()) (before since : List Deed)
    (hstays : ∀ d ∈ before ++ since, d.StaysInEpoch)
    (hcounting : (m.doAll (before ++ since)).modseq.val < maxLong) :
    (m.doAll before).modseq.val ≤ (m.doAll (before ++ since)).modseq.val ∧
    (∀ r ∈ (m.doAll before).store.messages, ∀ r' ∈ (m.doAll (before ++ since)).store.messages,
      r'.uid = r.uid → r'.shown ≠ r.shown → (m.doAll before).modseq.val < r'.modseq.val) ∧
    (∀ r' ∈ (m.doAll (before ++ since)).store.messages,
      (∀ r ∈ (m.doAll before).store.messages, r.uid ≠ r'.uid) →
        (m.doAll before).modseq.val < r'.modseq.val) ∧
    (∀ r ∈ (m.doAll before).store.messages,
      (∀ r' ∈ (m.doAll (before ++ since)).store.messages, r'.uid ≠ r.uid) →
        (m.doAll before).modseq.val < (m.doAll (before ++ since)).modseq.val) := by
  have hd : (m.doAll before).store.Distinct :=
    distinct_doAll (checkIntegrity_iff.1 hsound).1.distinct before
  have heq : m.doAll (before ++ since) = (m.doAll before).doAll since := List.foldl_append
  rw [heq] at hcounting ⊢
  have hdiscloses := discloses_doAll hd fun d hmem => hstays d (List.mem_append_right _ hmem)
  refine ⟨hdiscloses.modseq, fun r hr r' hr' huid htold => ?_, fun r' hr' hnew => ?_,
    fun r hr hgone => ?_⟩
  · rcases hdiscloses.stamped r' hr' with ⟨x, hx, hstands⟩ | hlater
    · -- the message that stands is the one with the UID
      rw [hd.eq_of_uid_eq hx hr (hstands.uid.symm.trans huid)] at hstands
      exact absurd hstands.shown htold
    · exact hlater hcounting
  · rcases hdiscloses.stamped r' hr' with ⟨x, hx, hstands⟩ | hlater
    · exact absurd hstands.uid.symm (hnew x hx)
    · exact hlater hcounting
  · rcases hdiscloses.gone r hr with ⟨r', hr', huid⟩ | hlater
    · exact absurd huid (hgone r' hr')
    · exact hlater hcounting

/-- A message is read, the one that waits is expunged and a third one comes; what is done then is
taken back. -/
def turnover : List Deed :=
  [.change none ⟨[.setFlags 0 ⟨.clamp 2⟩ (OrderedSet.insert .seen ∅) .add, .flushPending,
      .receive { remoteId := "c" }], .ok ()⟩,
    .change none ⟨[.markRemoved "b", .flushPending], .error (.conflict "INBOX" "given up")⟩]

theorem changes_are_stamped_of_turnover :
    let begun := savedQueued.doAll [.edit (.receive { remoteId := "b" })]
    let ended := savedQueued.doAll (.edit (.receive { remoteId := "b" }) :: turnover)
    savedQueued.checkIntegrity = .ok () ∧
      (∀ d ∈ .edit (.receive { remoteId := "b" }) :: turnover, d.StaysInEpoch) ∧
      ended.modseq.val < maxLong ∧
      (∃ r ∈ begun.store.messages, ∃ r' ∈ ended.store.messages, r'.uid = r.uid ∧
        r'.shown ≠ r.shown ∧ begun.modseq.val < r'.modseq.val) ∧
      (∃ r' ∈ ended.store.messages, r'.remoteId = "c" ∧ begun.modseq.val < r'.modseq.val) ∧
      (∃ r ∈ begun.store.messages, ∀ r' ∈ ended.store.messages, r'.uid ≠ r.uid) ∧
      begun.modseq.val < ended.modseq.val := by
  intro begun ended
  have hsound := savedQueued_beginsWell.sound
  have hstays : ∀ d ∈ [.edit (.receive { remoteId := "b" })] ++ turnover, d.StaysInEpoch := by
    simp [turnover, Deed.StaysInEpoch, Edit.renews]
  have hcounting : ended.modseq.val < maxLong := by decide
  obtain ⟨_, hchanged, hnew, hgone⟩ := changes_are_stamped hsound
    [.edit (.receive { remoteId := "b" })] turnover hstays hcounting
  have hread : ∃ r ∈ begun.store.messages, ∃ r' ∈ ended.store.messages, r'.uid = r.uid ∧
      r'.shown ≠ r.shown := by decide
  have hcome : ∃ r' ∈ ended.store.messages, r'.remoteId = "c" ∧
      ∀ r ∈ begun.store.messages, r.uid ≠ r'.uid := by decide
  have hleft : ∃ r ∈ begun.store.messages, ∀ r' ∈ ended.store.messages, r'.uid ≠ r.uid := by decide
  obtain ⟨r, hr, r', hr', huid, htold⟩ := hread
  obtain ⟨c, hc, hname, hc'⟩ := hcome
  refine ⟨hsound, hstays, hcounting, ⟨r, hr, r', hr', huid, htold, hchanged r hr r' hr' huid htold⟩,
    ⟨c, hc, hname, hnew c hc hc'⟩, hleft, ?_⟩
  obtain ⟨a, ha, ha'⟩ := hleft
  exact hgone a ha ha'

end Mailbox

end MailBridge

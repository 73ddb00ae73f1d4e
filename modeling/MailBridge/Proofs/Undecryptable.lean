import MailBridge.Proofs.Amending
import MailBridge.Proofs.Marks
import MailBridge.Proofs.Mending

/-! # The keyword of messages that could not be decrypted

That a message could not be decrypted is kept twice: as the reason why, and as a keyword that
clients see. A message that arrives gets both, and merging flags into it restores the keyword. But
content of a message that is there already only replaces the reason. So a message that could be
decrypted before, or whose keyword has gone since, may come to be undecryptable without the keyword,
and stays so until flags are merged into it or it can be decrypted after all.
-/

namespace MailBridge

namespace Message

/-- The message could not be decrypted, and lacks the keyword that says so. -/
def Silent (r : Message) : Prop := r.isUndecryptable = true ∧ Flag.undecryptable ∉ r.flags

instance (r : Message) : Decidable r.Silent := inferInstanceAs (Decidable (_ ∧ _))

theorem not_silent_arrive (content : MessageContent) (uid : Uid) (next : ModSeq) :
    ¬ (arrive content uid next).Silent := by
  intro ⟨hfailed, hbare⟩
  have hfailed' : content.decodeError.isSome = true := hfailed
  exact hbare (by simp [arrive, hfailed', OrderedSet.mem_insert])

theorem not_silent_merged (r : Message) (remote : Flags) (taken : Instant) (next : ModSeq) :
    ¬ (r.merged remote taken next).Silent := by
  intro ⟨hfailed, hbare⟩
  have hfailed' : r.isUndecryptable = true := hfailed
  exact hbare (by simp [merged, hfailed', OrderedSet.mem_insert])

theorem silent_withdrawn {r : Message} {next : ModSeq} :
    (r.withdrawn next).Silent ↔ r.Silent := by
  have hne : Flag.undecryptable ≠ .deleted := nofun
  simp [Silent, withdrawn, isUndecryptable, OrderedSet.mem_insert, hne]

theorem silent_refreshed {r : Message} {content : MessageContent} {next : ModSeq} :
    (r.refreshed content next).Silent ↔
      content.decodeError.isSome = true ∧ Flag.undecryptable ∉ r.flags := by
  simp [Silent, isUndecryptable]

end Message

namespace Prepared

/-- The event brings content of the message that could not be decrypted. -/
def Fails (id : RemoteId) : Prepared → Prop
  | create content => content.remoteId = id ∧ content.decodeError.isSome = true
  | _ => False

/-- The event leaves the reason and the keyword of the message in agreement: it brings content of it
that could be decrypted, or merges flags into it. -/
def Settles (updatesFlags : Bool) (id : RemoteId) : Prepared → Prop
  | create content => content.remoteId = id ∧ content.decodeError = none
  | update other _ _ => updatesFlags = true ∧ other = id
  | remove _ => False

end Prepared

/-- The edit neither takes content in nor changes flags as a client asks. -/
def Edit.sparesKeyword : Edit → Bool
  | receive _ | setFlags .. => false
  | _ => true

namespace Mailbox

variable {m m' : Mailbox} {id name : RemoteId} {updatesFlags : Bool} {tally tally' : Tally}

/-- Every message that could not be decrypted has the keyword that says so. -/
def Candid (m : Mailbox) : Prop := ∀ r ∈ m.store.messages, ¬ r.Silent

/-- The message with a name could not be decrypted, and lacks the keyword. -/
def SilentAt (m : Mailbox) (id : RemoteId) : Prop :=
  ∃ r ∈ m.store.messages, r.remoteId = id ∧ r.Silent

/-- The message with a name is there without the keyword. -/
def Bare (m : Mailbox) (id : RemoteId) : Prop :=
  ∃ r ∈ m.store.messages, r.remoteId = id ∧ Flag.undecryptable ∉ r.flags

theorem candid_iff : m.Candid ↔ ∀ id, ¬ m.SilentAt id := by
  constructor
  · intro h id ⟨r, hr, _, hsilent⟩
    exact h r hr hsilent
  · intro h r hr hsilent
    exact h r.remoteId ⟨r, hr, rfl, hsilent⟩

theorem SilentAt.bare (h : m.SilentAt id) : m.Bare id := by
  obtain ⟨r, hr, hid, hsilent⟩ := h
  exact ⟨r, hr, hid, hsilent.2⟩

/-! ## Batches -/

theorem silentAt_amended {f : Message → Message} (hf : ∀ r, (f r).remoteId = r.remoteId)
    (hmem : ∀ r', r' ∈ m'.store.messages ↔
      ∃ r ∈ m.store.messages, (if r.remoteId = name then f r else r) = r') :
    m'.SilentAt id ↔
      if name = id then ∃ r ∈ m.store.messages, r.remoteId = id ∧ (f r).Silent
      else m.SilentAt id := by
  unfold SilentAt
  simp only [hmem]
  by_cases hname : name = id
  · subst hname
    rw [if_pos rfl]
    constructor
    · rintro ⟨_, ⟨r, hr, rfl⟩, hid, hsilent⟩
      have hr' : r.remoteId = name := by
        split at hid
        · assumption
        · exact hid
      rw [if_pos hr'] at hsilent
      exact ⟨r, hr, hr', hsilent⟩
    · rintro ⟨r, hr, hr', hsilent⟩
      exact ⟨f r, ⟨r, hr, if_pos hr'⟩, (hf r).trans hr', hsilent⟩
  · rw [if_neg hname]
    constructor
    · rintro ⟨_, ⟨r, hr, rfl⟩, hid, hsilent⟩
      have hr' : r.remoteId ≠ name := by
        intro heq
        rw [if_pos heq, hf] at hid
        exact hname (heq.symm.trans hid)
      rw [if_neg hr'] at hid hsilent
      exact ⟨r, hr, hid, hsilent⟩
    · rintro ⟨r, hr, hid, hsilent⟩
      exact ⟨r, ⟨r, hr, if_neg fun heq => hname (heq.symm.trans hid)⟩, hid, hsilent⟩

theorem silentAt_markRemoved (hd : m.store.Distinct) (hi : m.Indexed) (name : RemoteId) :
    (m.markRemoved name).2.SilentAt id ↔ m.SilentAt id := by
  rw [silentAt_amended (f := (·.withdrawn m.modseq.next)) (fun _ => rfl)
    fun r' => mem_markRemoved hd hi name]
  simp only [Message.silent_withdrawn]
  split <;> exact Iff.rfl

theorem silentAt_mergeFlags (hd : m.store.Distinct) (hi : m.Indexed) (name : RemoteId)
    (remote : Flags) (taken : Instant) :
    (m.mergeFlags name remote taken).2.SilentAt id ↔ name ≠ id ∧ m.SilentAt id := by
  rw [silentAt_amended (f := (·.merged remote taken m.modseq.next)) (fun _ => rfl)
    fun r' => mem_mergeFlags hd hi name remote taken]
  by_cases hname : name = id <;> simp [hname, Message.not_silent_merged]

/-- Content that could not be decrypted leaves the message with its name without the keyword, if it
was without it. Content that could be decrypted does not. -/
theorem silentAt_receive {content : MessageContent} {receipt : Receipt} (hd : m.store.Distinct)
    (hi : m.Indexed) (hok : m.receive content = (.ok receipt, m')) :
    m'.SilentAt id ↔
      if content.remoteId = id then content.decodeError.isSome = true ∧ m.Bare id
      else m.SilentAt id := by
  cases hname : m.store.uidOf? content.remoteId with
  | some uid =>
      have hmem (r' : Message) : r' ∈ m'.store.messages ↔ _ := hok ▸ mem_receive_known hd hi hname
      rw [silentAt_amended (f := (·.refreshed content m.modseq.next))
        (fun r => r.refreshed_remoteId ..) hmem]
      simp only [Message.silent_refreshed, Bare]
      by_cases hid : content.remoteId = id
      · simp only [hid, if_true]
        tauto
      · simp [hid]
  | none =>
      have hnobody := (hi content.remoteId).eq_none.1 hname
      have hsame : m'.SilentAt id ↔ m.SilentAt id := by
        simp only [SilentAt, mem_receive_new hname hok]
        constructor
        · rintro ⟨r, hr | rfl, hid, hsilent⟩
          · exact ⟨r, hr, hid, hsilent⟩
          · exact absurd hsilent (Message.not_silent_arrive _ _ _)
        · rintro ⟨r, hr, hid, hsilent⟩
          exact ⟨r, .inl hr, hid, hsilent⟩
      rw [hsame]
      split
      · next hid =>
        subst hid
        constructor
        · rintro ⟨r, hr, hid, _⟩
          exact absurd hid (hnobody r hr)
        · rintro ⟨_, r, hr, hid, _⟩
          exact absurd hid (hnobody r hr)
      · exact Iff.rfl

/-- After an event, a message lacks the keyword if it did before and the event does not settle it,
or if the event brings content of it that could not be decrypted and it was there without. -/
theorem silentAt_applyEvent {event : Prepared} (hd : m.store.Distinct) (hi : m.Indexed)
    (hok : m.applyEvent updatesFlags tally event = (.ok tally', m')) :
    m'.SilentAt id ↔
      m.SilentAt id ∧ ¬ event.Settles updatesFlags id ∨ event.Fails id ∧ m.Bare id := by
  cases event with
  | create content =>
      have hafter {receipt : Receipt} (hreceived : m.receive content = (.ok receipt, m')) :
          m'.SilentAt id ↔ m.SilentAt id ∧ ¬ (Prepared.create content).Settles updatesFlags id ∨
            (Prepared.create content).Fails id ∧ m.Bare id := by
        rw [silentAt_receive hd hi hreceived]
        have hbare : m.SilentAt id → m.Bare id := SilentAt.bare
        simp only [Prepared.Settles, Prepared.Fails]
        by_cases hid : content.remoteId = id
        · cases content.decodeError <;> simp_all
        · simp [hid]
      simp only [applyEvent] at hok
      split at hok
      · cases hok
      · next hreceived =>
        split at hok <;> cases hok <;> exact hafter hreceived
  | update other flags taken =>
      simp only [applyEvent] at hok
      simp only [Prepared.Settles, Prepared.Fails, false_and, or_false]
      cases updatesFlags with
      | false =>
          cases hok
          simp
      | true =>
          have hafter : (m.mergeFlags other flags taken).2.SilentAt id ↔ _ :=
            silentAt_mergeFlags hd hi other flags taken
          simp only [if_true] at hok
          split at hok <;> next hmerged =>
            rw [hmerged] at hafter
            cases hok
            rw [hafter]
            simp [and_comm]
  | remove other =>
      have hafter : (m.markRemoved other).2.SilentAt id ↔ _ := silentAt_markRemoved hd hi other
      simp only [applyEvent] at hok
      simp only [Prepared.Settles, Prepared.Fails, not_false_eq_true, and_true, false_and, or_false]
      split at hok <;> next hremoved =>
        rw [hremoved] at hafter
        cases hok
        exact hafter

theorem applyEvent_snd (tally tally' : Tally) (event : Prepared) (m : Mailbox) :
    (m.applyEvent updatesFlags tally event).2 = (m.applyEvent updatesFlags tally' event).2 := by
  cases event with
  | create content =>
      simp only [applyEvent]
      split
      · rfl
      · split <;> rfl
  | update id flags taken =>
      simp only [applyEvent]
      split
      · split <;> rfl
      · rfl
  | remove id =>
      simp only [applyEvent]
      split <;> rfl

/-- Events leave a message undecryptable without the keyword: one of them brings content of it that
could not be decrypted when it is there without, and none of the later ones settles it. -/
inductive Relapses (updatesFlags : Bool) (id : RemoteId) : List Prepared → Mailbox → Prop
  | here {event : Prepared} {later : List Prepared} {m : Mailbox} (fails : event.Fails id)
      (bare : m.Bare id) (unsettled : ∀ event ∈ later, ¬ event.Settles updatesFlags id) :
      Relapses updatesFlags id (event :: later) m
  | later {event : Prepared} {later : List Prepared} {m : Mailbox}
      (relapses : Relapses updatesFlags id later (m.applyEvent updatesFlags {} event).2) :
      Relapses updatesFlags id (event :: later) m

theorem relapses_nil : ¬ Relapses updatesFlags id [] m := nofun

theorem relapses_cons {event : Prepared} {rest : List Prepared} :
    Relapses updatesFlags id (event :: rest) m ↔
      (event.Fails id ∧ m.Bare id ∧ ∀ later ∈ rest, ¬ later.Settles updatesFlags id) ∨
        Relapses updatesFlags id rest (m.applyEvent updatesFlags {} event).2 := by
  constructor
  · intro h
    cases h with
    | here fails bare unsettled => exact .inl ⟨fails, bare, unsettled⟩
    | later relapses => exact .inr relapses
  · rintro (⟨fails, bare, unsettled⟩ | relapses)
    · exact .here fails bare unsettled
    · exact .later relapses

theorem silentAt_applyEvents {events : List Prepared} (hd : m.store.Distinct) (hi : m.Indexed)
    (hok : m.applyEvents updatesFlags tally events = (.ok tally', m')) :
    m'.SilentAt id ↔
      (m.SilentAt id ∧ ∀ event ∈ events, ¬ event.Settles updatesFlags id) ∨
        Relapses updatesFlags id events m := by
  induction events generalizing m tally with
  | nil =>
      cases hok
      simp [relapses_nil]
  | cons event rest ih =>
      unfold applyEvents at hok
      split at hok
      · cases hok
      · next tally₁ m₁ hevent =>
        obtain ⟨edits, hedits⟩ := edited_applyEvent updatesFlags tally event m
        rw [hevent] at hedits
        subst hedits
        have hsame : (m.applyEvent updatesFlags {} event).2 = m.editAll edits := by
          rw [applyEvent_snd {} tally event m, hevent]
        rw [ih (distinct_editAll hd edits) (Indexed.editAll hd hi edits) hok,
          silentAt_applyEvent hd hi hevent, relapses_cons, List.forall_mem_cons, hsame]
        tauto

theorem silentAt_applyBatch {settings : SyncSettings} {sessions : Nat}
    {since? : Option (Option String)} {events : List Prepared} {cursor : Option String}
    (hd : m.store.Distinct) (hi : m.Indexed) (hcandid : m.Candid)
    (hok : m.applyBatch settings sessions since? events cursor = (.ok tally, m')) :
    m'.SilentAt id ↔ Relapses settings.updatesFlags id events m ∧ id ∈ m'.roster := by
  unfold applyBatch at hok
  split at hok
  · cases hok
  · split at hok
    · cases hok
    · next tally₁ m₁ hevents =>
      have happlied : m₁.SilentAt id ↔ _ := silentAt_applyEvents hd hi hevents
      rw [or_iff_right fun h => candid_iff.1 hcandid id h.1] at happlied
      obtain ⟨edits, hedits⟩ := (tended_applyEvents settings.updatesFlags {} events m).edited
      rw [hevents] at hedits
      have hindexed : m₁.store.IndexedAt id := by
        have hall := Indexed.editAll hd hi edits
        rw [← hedits] at hall
        exact hall id
      have hdistinct : m₁.store.Distinct := by
        have hall := distinct_editAll hd edits
        rwa [← hedits] at hall
      have hmoved :
          (if cursor.isSome = true then m₁.setCursor cursor else m₁).store = m₁.store := by
        split
        · exact setCursor_store cursor m₁
        · rfl
      cases hok
      rw [← happlied, mem_roster]
      constructor
      · rintro ⟨r, hr, hid, hsilent⟩
        have hthere := mem_of_mem_flushUnlessSelected hr
        rw [hmoved] at hthere
        exact ⟨⟨r, hthere, hid, hsilent⟩, r, hr, hid⟩
      · rintro ⟨⟨r, hr, hid, hsilent⟩, r', hr', hid'⟩
        have hthere := mem_of_mem_flushUnlessSelected hr'
        rw [hmoved] at hthere
        have hsame : r' = r :=
          hdistinct.eq_of_uid_eq hthere hr (hindexed.uid_eq hthere hr hid' hid)
        exact ⟨r', hr', hid', hsame ▸ hsilent⟩

/-! ## Full listings -/

theorem Candid.of_messages (h : m.Candid) (hmessages : m'.store.messages = m.store.messages) :
    m'.Candid := by
  intro r hr
  exact h r (hmessages ▸ hr)

theorem candid_invalidate (now : Instant) (m : Mailbox) : (m.invalidate now).2.Candid := by
  intro r hr
  rw [(invalidate_eq now m).2.1] at hr
  cases hr

theorem Candid.markRemoved (h : m.Candid) (hd : m.store.Distinct) (hi : m.Indexed)
    (name : RemoteId) : (m.markRemoved name).2.Candid := by
  rw [candid_iff] at h ⊢
  intro id hsilent
  exact h id ((silentAt_markRemoved hd hi name).1 hsilent)

theorem Candid.mergeFlags (h : m.Candid) (hd : m.store.Distinct) (hi : m.Indexed)
    (name : RemoteId) (remote : Flags) (taken : Instant) :
    (m.mergeFlags name remote taken).2.Candid := by
  rw [candid_iff] at h ⊢
  intro id hsilent
  exact h id ((silentAt_mergeFlags hd hi name remote taken).1 hsilent).2

theorem names_amended {f : Message → Message} (hf : ∀ r, (f r).remoteId = r.remoteId)
    (hmem : ∀ r', r' ∈ m'.store.messages ↔
      ∃ r ∈ m.store.messages, (if r.remoteId = name then f r else r) = r') :
    ∀ r' ∈ m'.store.messages, ∃ r ∈ m.store.messages, r.remoteId = r'.remoteId := by
  intro r' hr'
  obtain ⟨r, hr, rfl⟩ := (hmem r').1 hr'
  refine ⟨r, hr, ?_⟩
  split
  · exact (hf r).symm
  · rfl

/-- A correction that creates no message that is there leaves all candid, and adds no name but the
one that it creates. -/
theorem Candid.correct {prepared : List MessageContent} {taken : Instant}
    {correction : Correction} (h : m.Candid) (hd : m.store.Distinct) (hi : m.Indexed)
    (hnew : ∀ r ∈ m.store.messages, correction ≠ .create r.remoteId)
    (hok : m.correct updatesFlags prepared taken tally correction = (.ok tally', m')) :
    m'.Candid ∧ ∀ r' ∈ m'.store.messages,
      (∃ r ∈ m.store.messages, r.remoteId = r'.remoteId) ∨ correction = .create r'.remoteId := by
  obtain ⟨id, rfl, rfl⟩ | ⟨id, flags, rfl, rfl⟩ | ⟨content, _, receipt, rfl, hreceived⟩ :=
    correct_cases hok
  · have hnames := names_amended (f := (·.withdrawn m.modseq.next)) (fun _ => rfl)
      fun r' => mem_markRemoved hd hi id
    exact ⟨h.markRemoved hd hi id, fun r' hr' => .inl (hnames r' hr')⟩
  · split
    · have hnames := names_amended (f := (·.merged flags taken m.modseq.next)) (fun _ => rfl)
        fun r' => mem_mergeFlags hd hi id flags taken
      exact ⟨h.mergeFlags hd hi id flags taken, fun r' hr' => .inl (hnames r' hr')⟩
    · exact ⟨h, fun r' hr' => .inl ⟨r', hr', rfl⟩⟩
  · have hnobody : ∀ r ∈ m.store.messages, r.remoteId ≠ content.remoteId := by
      intro r hr heq
      exact hnew r hr (by rw [heq])
    constructor
    · rw [candid_iff] at h ⊢
      intro other hsilent
      rw [silentAt_receive hd hi hreceived] at hsilent
      split at hsilent
      · next heq =>
        obtain ⟨_, r, hr, hsame, _⟩ := hsilent
        exact hnobody r hr (hsame.trans heq.symm)
      · exact h other hsilent
    · intro r' hr'
      obtain hold | rfl :=
        (mem_receive_new ((hi content.remoteId).eq_none.2 hnobody) hreceived).1 hr'
      · exact .inl ⟨r', hold, rfl⟩
      · exact .inr rfl

/-- Two corrections that do not both create the message with one name. -/
def Apart (a b : Correction) : Prop := ∀ id, a = .create id → b ≠ .create id

theorem Candid.correctAll {prepared : List MessageContent} {taken : Instant}
    {corrections : List Correction} (h : m.Candid) (hd : m.store.Distinct) (hi : m.Indexed)
    (hnew : ∀ r ∈ m.store.messages, .create r.remoteId ∉ corrections)
    (hapart : corrections.Pairwise Apart)
    (hok : m.correctAll updatesFlags prepared taken tally corrections = (.ok tally', m')) :
    m'.Candid := by
  induction corrections generalizing m tally with
  | nil =>
      cases hok
      exact h
  | cons correction rest ih =>
      unfold Mailbox.correctAll at hok
      split at hok
      · cases hok
      · next hcorrect =>
        obtain ⟨hfirst, hrest⟩ := List.pairwise_cons.1 hapart
        obtain ⟨edits, hedits⟩ := edited_correct updatesFlags prepared taken tally correction m
        rw [hcorrect] at hedits
        subst hedits
        obtain ⟨hcandid, hnames⟩ := h.correct hd hi
          (fun r hr heq => hnew r hr (heq ▸ List.mem_cons_self)) hcorrect
        refine ih hcandid (distinct_editAll hd edits) (Indexed.editAll hd hi edits) ?_ hrest hok
        intro r' hr' hlater
        obtain ⟨r, hr, hname⟩ | hcreated := hnames r' hr'
        · exact hnew r hr (hname ▸ List.mem_cons_of_mem _ hlater)
        · exact hfirst _ hlater _ hcreated rfl

theorem apart_corrections (store : MessageStore) (listed : List RemoteMessage) :
    (store.corrections listed).Pairwise Apart := by
  unfold MessageStore.corrections
  dsimp only
  have hids : (((RemoteMessage.firstListed listed).filter fun l =>
      (store.getByRemoteId? l.id).isNone).mergeSort RemoteMessage.cameBefore).Pairwise
        fun a b => a.id ≠ b.id := by
    have hnodup := List.pairwise_map.1 (RemoteMessage.nodup_firstListed listed)
    exact (List.mergeSort_perm _ _).symm.pairwise (hnodup.filter _) fun h => Ne.symm h
  simp only [List.pairwise_append, List.pairwise_map, List.mem_append, List.mem_map]
  refine ⟨⟨List.pairwise_of_forall fun _ _ => nofun, List.pairwise_of_forall fun _ _ => nofun, ?_⟩,
    hids.imp ?_, ?_⟩
  · rintro _ ⟨r, _, rfl⟩
    exact fun _ _ => nofun
  · intro a b hne id heq hsame
    exact hne (Correction.create.inj (heq.trans hsame.symm))
  · rintro _ (⟨r, _, rfl⟩ | ⟨l, _, rfl⟩)
    · exact fun _ _ => nofun
    · exact fun _ _ => nofun

theorem unborn_corrections (hd : m.store.Distinct) (hi : m.Indexed) (listed : List RemoteMessage) :
    ∀ r ∈ m.store.messages, .create r.remoteId ∉ m.store.corrections listed := by
  intro r hr hmem
  simp only [MessageStore.corrections, List.mem_append, List.mem_map, List.mem_mergeSort,
    List.mem_filter, reduceCtorEq, and_false, exists_false, or_false, false_or] at hmem
  obtain ⟨l, ⟨_, hnone⟩, hid⟩ := hmem
  have hname : m.store.uidOf? r.remoteId = some r.uid := (hi _ _).2 ⟨r, hr, rfl, rfl⟩
  rw [Correction.create.inj hid, MessageStore.getByRemoteId?, hname, Option.bind_some,
    MessageStore.get?_of_mem hd hr] at hnone
  cases hnone

theorem Candid.reconcile {settings : SyncSettings} {sessions : Nat} {now : Instant}
    {invalidate : Bool} {prepared : List MessageContent} {listing : Listing}
    {cursor : Option String} {corrections : List Correction} (h : m.Candid) (ho : m.Orderly)
    (hok : m.reconcile settings sessions now invalidate prepared listing cursor =
      (.ok (tally, corrections), m')) :
    m'.Candid := by
  obtain ⟨hd, hi, hkept⟩ := mend_sound ho now invalidate
  unfold Mailbox.reconcile at hok
  dsimp only at hok
  split at hok
  · cases hok
  · next corrected hcorrect =>
    cases hok
    have hmended : (m.mend now invalidate).2.Candid := fun r hr => h r (hkept r hr)
    have hcorrected := hmended.correctAll hd hi (unborn_corrections hd hi _)
      (apart_corrections ..) hcorrect
    intro r' hr'
    have hthere := mem_of_mem_flushUnlessSelected hr'
    rw [setCursor_store] at hthere
    exact hcorrected r' hthere

/-! ## What others do -/

theorem Candid.clearRecent (h : m.Candid) (hd : m.store.Distinct) (p : Uid → Bool) :
    (m.clearRecent p).2.Candid := by
  intro r' hr' hsilent
  rw [messages_clearRecent hd] at hr'
  obtain ⟨r, hr, rfl⟩ := List.mem_map.1 hr'
  refine h r hr ?_
  unfold Message.unmarkedIf at hsilent
  split at hsilent
  · simpa [Message.Silent, Message.isUndecryptable, Message.unmarked, Flags.withoutRecent,
      Flag.undecryptable_ne_recent] using hsilent
  · exact hsilent

theorem Candid.apply {e : Edit} (hspares : e.sparesKeyword = true) (h : m.Candid)
    (hd : m.store.Distinct) (hi : m.Indexed) : (e.apply m).Candid := by
  cases e with
  | receive content => cases hspares
  | setFlags now uid delta mode => cases hspares
  | mergeFlags id flags taken => exact h.mergeFlags hd hi id flags taken
  | markRemoved id => exact h.markRemoved hd hi id
  | expunge => exact fun r hr => h r (mem_of_mem_expunge hr)
  | flushPending => exact fun r hr => h r ((flushed_spec m).2.2 r hr)
  | clearRecent p => exact h.clearRecent hd p
  | raiseUidNext => exact h.of_messages (congrArg MessageStore.messages (raiseUidNext_store m))
  | commit => exact h.of_messages (congrArg MessageStore.messages (commit_store m))
  | invalidate now => exact candid_invalidate now m
  | setCursor cursor =>
      exact h.of_messages (congrArg MessageStore.messages (setCursor_store cursor m))
  | takeUnsaved => exact h

theorem Candid.editAll {edits : List Edit} (hspare : ∀ e ∈ edits, e.sparesKeyword = true)
    (h : m.Candid) (hd : m.store.Distinct) (hi : m.Indexed) : (m.editAll edits).Candid := by
  induction edits generalizing m with
  | nil => exact h
  | cons e rest ih =>
      obtain ⟨he, hrest⟩ := List.forall_mem_cons.1 hspare
      exact ih hrest (h.apply he hd hi) (distinct_editAll hd [e]) (Indexed.editAll hd hi [e])

end Mailbox

end MailBridge

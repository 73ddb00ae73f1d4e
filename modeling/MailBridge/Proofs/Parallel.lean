import MailBridge.Proofs.Batches

/-! # Mailboxes that are alike but for the numbers of their messages

Two mailboxes that have the same under each remote name remain so when their cursors are set and
the messages that wait are expunged, and either both can be saved or neither.
-/

namespace MailBridge

namespace UidSpace

theorem ext_bound {s t : UidSpace} (hbound : s.bound = t.bound)
    (hvalidity : s.validity = t.validity) : s = t := by
  have hnext : s.next? = t.next? := by
    unfold bound at hbound
    cases hs : s.next? with
    | none =>
        cases ht : t.next? with
        | none => rfl
        | some uid =>
            have hlt := uid.val_lt
            rw [hs, ht, Option.elim_none, Option.elim_some] at hbound
            omega
    | some uid =>
        cases ht : t.next? with
        | none =>
            have hlt := uid.val_lt
            rw [hs, ht, Option.elim_none, Option.elim_some] at hbound
            omega
        | some uid' =>
            rw [hs, ht, Option.elim_some, Option.elim_some] at hbound
            rw [Uid.ext_val hbound]
  cases s
  cases t
  cases hnext
  cases hvalidity
  rfl

end UidSpace

namespace Mailbox

/-- The mailboxes differ in nothing but the UIDs and the modification sequences of their messages,
and in what follows from these. -/
structure Parallel (m n : Mailbox) : Prop where
  name : m.name = n.name
  uids : m.uids = n.uids
  cursor : m.cursor = n.cursor
  holding : ∀ id, m.holding? id = n.holding? id
  unsaved : m.unsaved.isEmpty = n.unsaved.isEmpty

/-- What a remote account can tell of two mailboxes is the same: who is in them, with which flags
and content, and who waits to be expunged. -/
structure Matches (m n : Mailbox) : Prop where
  roster : m.roster = n.roster
  messages : ∀ id, (m.store.getByRemoteId? id).map Message.unnumbered =
    (n.store.getByRemoteId? id).map Message.unnumbered
  presence : ∀ id, m.presence id = n.presence id
  uids : m.uids = n.uids
  cursor : m.cursor = n.cursor

variable {m n m' n' : Mailbox} {updatesFlags : Bool}

theorem Parallel.notes (h : m.Parallel n) : m.Notes ↔ n.Notes := by
  simp only [Notes, h.holding]

theorem Parallel.matches (h : m.Parallel n) (hm : m.Coherent) (hn : n.Coherent) : m.Matches n := by
  have hpresence (id : RemoteId) : m.presence id = n.presence id := by
    rw [presence_of_holding? hm, presence_of_holding? hn, h.holding]
  refine ⟨OrderedSet.ext fun id => ?_, fun id => ?_, hpresence, h.uids, h.cursor⟩
  · rw [hm.mem_roster_iff, hn.mem_roster_iff, hpresence]
  · rw [← message_holding?, ← message_holding?, h.holding]

theorem Matches.refl (m : Mailbox) : m.Matches m :=
  ⟨rfl, fun _ => rfl, fun _ => rfl, rfl, rfl⟩

theorem Matches.of_keepChanges_eq (h : m.keepChanges = n.keepChanges) : m.Matches n := by
  have hkept : m.keepChanges.Matches n.keepChanges := by
    rw [h]
    exact .refl _
  exact ⟨hkept.roster, hkept.messages, hkept.presence, hkept.uids, hkept.cursor⟩

theorem Matches.kept (h : m.Matches n) :
    ((m.editAll [.commit, .takeUnsaved]).keepChanges).Matches
      ((n.editAll [.commit, .takeUnsaved]).keepChanges) := by
  rw [kept_eq, kept_eq]
  exact ⟨h.roster, h.messages, h.presence, h.uids, h.cursor⟩

/-! ## Batches -/

theorem Coherent.applyEvents {tally tally' : Tally} {events : List Prepared} (h : m.Coherent)
    (hok : m.applyEvents updatesFlags tally events = (.ok tally', m')) : m'.Coherent := by
  have htended := tended_applyEvents updatesFlags tally events m
  rw [hok] at htended
  exact h.edited htended.edited

/-- Batches that make the same of each message, and bring as many that are not known, leave
mailboxes that are alike. -/
theorem parallel_applyEvents {events events' : List Prepared} {tally₁ tally₂ : Tally}
    {m₁ m₂ : Mailbox} (h : m.Coherent)
    (hok : m.applyEvents updatesFlags {} events = (.ok tally₁, m₁))
    (hok' : m.applyEvents updatesFlags {} events' = (.ok tally₂, m₂))
    (hbound : m₁.uids.bound = m₂.uids.bound) (hsame : ∀ id, m₁.holding? id = m₂.holding? id) :
    m₁.Parallel m₂ := by
  have hframe := applyEvents_frame updatesFlags {} events m
  have hframe' := applyEvents_frame updatesFlags {} events' m
  rw [hok] at hframe
  rw [hok'] at hframe'
  have hnotes : m₁.Notes ↔ m₂.Notes := by simp only [Notes, hsame]
  refine ⟨hframe.1.trans hframe'.1.symm, UidSpace.ext_bound hbound ?_,
    hframe.2.1.trans hframe'.2.1.symm, hsame, ?_⟩
  · exact hframe.2.2.trans hframe'.2.2.symm
  · by_cases hsome : m₁.Notes
    · rw [hsome.not_isEmpty, (hnotes.1 hsome).not_isEmpty]
    · rw [(unsaved_applyEvents h hok).resolve_right hsome,
        (unsaved_applyEvents h hok').resolve_right fun h' => hsome (hnotes.2 h')]

theorem Parallel.setCursor (h : m.Parallel n) (cursor : Option String) :
    (m.setCursor cursor).Parallel (n.setCursor cursor) := by
  unfold Mailbox.setCursor
  rw [h.cursor]
  split
  · exact h
  · exact ⟨h.name, h.uids, rfl, h.holding, by simp [Unsaved.isEmpty]⟩

theorem flushPending_frame (m : Mailbox) : m.flushPending.2.name = m.name ∧
    m.flushPending.2.cursor = m.cursor := by
  unfold flushPending
  split
  · exact ⟨rfl, rfl⟩
  · unfold settleRemoval
    dsimp only
    split
    · exact ⟨rfl, rfl⟩
    · rw [noteRemoved_eq, settle_foldl]
      exact ⟨rfl, rfl⟩

theorem Coherent.leaving_iff (h : m.Coherent) :
    (m.store.removeWhere fun r => decide (r.uid ∈ m.pending)).1 ≠ [] ↔
      ∃ id, m.presence id = .leaving := by
  rw [ne_eq, List.eq_nil_iff_forall_not_mem, not_forall]
  constructor
  · rintro ⟨r, hr⟩
    obtain ⟨hr, hqueued⟩ := MessageStore.mem_removed.1 (not_not.1 hr)
    refine ⟨r.remoteId, presence_eq_leaving.2 ⟨r.uid, of_decide_eq_true hqueued, ?_⟩⟩
    exact (h.indexed r.remoteId r.uid).2 ⟨r, hr, rfl, rfl⟩
  · rintro ⟨id, hleaving⟩
    obtain ⟨uid, hqueued, hname⟩ := presence_eq_leaving.1 hleaving
    obtain ⟨r, hr, _, rfl⟩ := (h.indexed id uid).1 hname
    exact ⟨r, not_not.2 (MessageStore.mem_removed.2 ⟨hr, decide_eq_true hqueued⟩)⟩

theorem isEmpty_flushPending (m : Mailbox) : m.flushPending.2.unsaved.isEmpty =
    ((m.store.removeWhere fun r => decide (r.uid ∈ m.pending)).1.isEmpty &&
      m.unsaved.isEmpty) := by
  rw [unsaved_flushPending]
  cases hgone : (m.store.removeWhere fun r => decide (r.uid ∈ m.pending)).1 with
  | nil => rfl
  | cons r rest =>
      rw [foldl_drop]
      simp [Unsaved.isEmpty]

theorem Parallel.flushPending (h : m.Parallel n) (hm : m.Coherent) (hn : n.Coherent) :
    m.flushPending.2.Parallel n.flushPending.2 := by
  have hmatches := h.matches hm hn
  have hleaving : (m.store.removeWhere fun r => decide (r.uid ∈ m.pending)).1.isEmpty =
      (n.store.removeWhere fun r => decide (r.uid ∈ n.pending)).1.isEmpty := by
    rw [Bool.eq_iff_iff, List.isEmpty_iff, List.isEmpty_iff, ← not_iff_not]
    have hsame : (∃ id, m.presence id = .leaving) ↔ ∃ id, n.presence id = .leaving := by
      simp only [hmatches.presence]
    exact hm.leaving_iff.trans (hsame.trans hn.leaving_iff.symm)
  refine ⟨?_, ?_, ?_, fun id => ?_, ?_⟩
  · rw [(flushPending_frame m).1, (flushPending_frame n).1, h.name]
  · rw [(flushed_spec m).1, (flushed_spec n).1, h.uids]
  · rw [(flushPending_frame m).2, (flushPending_frame n).2, h.cursor]
  · rw [holding?_flushPending hm, holding?_flushPending hn, h.holding]
  · rw [isEmpty_flushPending, isEmpty_flushPending, hleaving, h.unsaved]

theorem Parallel.flushUnlessSelected (h : m.Parallel n) (hm : m.Coherent) (hn : n.Coherent)
    (sessions : Nat) : (m.flushUnlessSelected sessions).2.Parallel
      (n.flushUnlessSelected sessions).2 := by
  unfold Mailbox.flushUnlessSelected
  split
  · exact h.flushPending hm hn
  · exact h

theorem applyBatch_parallel {events events' : List Prepared} {settings : SyncSettings}
    (sessions : Nat) (since? : Option (Option String)) (cursor : Option String) (h : m.Coherent)
    (hevents : (∃ tally₁ tally₂ m₁ m₂,
        m.applyEvents settings.updatesFlags {} events = (.ok tally₁, m₁) ∧
        m.applyEvents settings.updatesFlags {} events' = (.ok tally₂, m₂) ∧ m₁.Parallel m₂) ∨
      ∃ e, (m.applyEvents settings.updatesFlags {} events).1 = .error e ∧
        (m.applyEvents settings.updatesFlags {} events').1 = .error e) :
    (∃ e, (m.applyBatch settings sessions since? events cursor).1 = .error e ∧
      (m.applyBatch settings sessions since? events' cursor).1 = .error e) ∨
    ∃ tally₁ tally₂ m₁ m₂,
      m.applyBatch settings sessions since? events cursor = (.ok tally₁, m₁) ∧
      m.applyBatch settings sessions since? events' cursor = (.ok tally₂, m₂) ∧ m₁.Parallel m₂ ∧
      m₁.Coherent ∧ m₂.Coherent := by
  unfold applyBatch
  split
  · exact .inl ⟨_, rfl, rfl⟩
  · rcases hevents with ⟨tally₁, tally₂, m₁, m₂, hok, hok', hparallel⟩ | ⟨e, herror, herror'⟩
    · right
      simp only [hok, hok']
      have hcursor {m₁ : Mailbox} (h₁ : m₁.Coherent) :
          (if cursor.isSome then m₁.setCursor cursor else m₁).Coherent := by
        split
        · exact h₁.editAll [.setCursor cursor]
        · exact h₁
      have hc₁ := hcursor (h.applyEvents hok)
      have hc₂ := hcursor (h.applyEvents hok')
      have hset : (if cursor.isSome then m₁.setCursor cursor else m₁).Parallel
          (if cursor.isSome then m₂.setCursor cursor else m₂) := by
        split
        · exact hparallel.setCursor cursor
        · exact hparallel
      exact ⟨_, _, _, _, rfl, rfl, hset.flushUnlessSelected hc₁ hc₂ sessions,
        hc₁.edited (edited_flushUnlessSelected ..), hc₂.edited (edited_flushUnlessSelected ..)⟩
    · left
      refine ⟨e, ?_⟩
      split <;> split <;> simp_all

end Mailbox

namespace SharedMailbox

open Mailbox

variable {s : SharedMailbox} {m n : Mailbox}

/-- The cache does not take what a change that leaves the mailbox has to save. -/
def refuses (m : Mailbox) (s : SharedMailbox) : Bool :=
  s.cache?.any fun c => !m.unsaved.isEmpty &&
    (c.refusesMailboxes ||
      c.refusesMessages && !(m.unsaved.written.toList.filterMap m.get?).isEmpty)

theorem conclude_fst {α : Type} (a : α) (m : Mailbox) (s : SharedMailbox) :
    (s.conclude (.ok a) m).1 =
      if s.refuses m then .error (.notPersisted (.saveMailbox m.name) m.name) else .ok a := by
  -- the cache reads nothing that ending a change touches
  have hsame (c : Cache) :
      c.save m.commit.takeUnsaved.2 m.commit.takeUnsaved.1 = c.save m m.unsaved := by
    unfold Mailbox.commit
    split <;> rfl
  have hunsaved : m.commit.takeUnsaved.1 = m.unsaved := by
    unfold Mailbox.commit
    split <;> rfl
  have hname : m.commit.takeUnsaved.2.name = m.name := by
    unfold Mailbox.commit
    split <;> rfl
  unfold conclude refuses
  dsimp only
  rw [save]
  cases hcache : s.cache? with
  | none => rfl
  | some c =>
      dsimp only [Option.any_some]
      rw [hsame, hunsaved, hname]
      cases hempty : m.unsaved.isEmpty with
      | true => rfl
      | false =>
          simp only [Bool.false_eq_true, if_false, Bool.not_false, Bool.true_and]
          unfold Cache.save
          dsimp only
          generalize (c.refusesMailboxes || c.refusesMessages &&
            !(m.unsaved.written.toList.filterMap m.get?).isEmpty) = refused
          cases refused <;> rfl

theorem written_iff_notes (hm : m.Coherent) :
    (m.unsaved.written.toList.filterMap m.get?).isEmpty = false ↔ m.Notes := by
  rw [← Bool.not_eq_true, List.isEmpty_iff, List.eq_nil_iff_forall_not_mem, not_forall]
  constructor
  · rintro ⟨r, hr⟩
    obtain ⟨uid, hwritten, found⟩ := List.mem_filterMap.1 (not_not.1 hr)
    obtain ⟨hmem, hu⟩ := (MessageStore.get?_eq_some hm.distinct).1 found
    exact hm.notes ((hm.indexed r.remoteId uid).2 ⟨r, hmem, rfl, hu⟩)
      (OrderedSet.mem_def.2 hwritten)
  · rintro ⟨id, held, hheld, hunsaved⟩
    obtain ⟨uid, _, hat⟩ := Option.bind_eq_some_iff.1 hheld
    obtain ⟨r, found, rfl⟩ := Option.map_eq_some_iff.1 hat
    have hwritten : uid ∈ m.unsaved.written := of_decide_eq_true hunsaved
    exact ⟨r, not_not.2 (List.mem_filterMap.2 ⟨uid, OrderedSet.mem_def.1 hwritten, found⟩)⟩

theorem refuses_parallel (h : m.Parallel n) (hm : m.Coherent) (hn : n.Coherent)
    (s : SharedMailbox) : s.refuses m = s.refuses n := by
  have hwritten : (m.unsaved.written.toList.filterMap m.get?).isEmpty =
      (n.unsaved.written.toList.filterMap n.get?).isEmpty := by
    have hsame : (m.unsaved.written.toList.filterMap m.get?).isEmpty = false ↔
        (n.unsaved.written.toList.filterMap n.get?).isEmpty = false := by
      rw [written_iff_notes hm, written_iff_notes hn, h.notes]
    exact Bool.eq_iff_iff.2 (by simpa using not_congr hsame)
  unfold refuses
  rw [hwritten, h.unsaved]

def applyBatch (settings : SyncSettings) (since? : Option (Option String)) (cursor : Option String)
    (events : List Prepared) (s : SharedMailbox) : Except MailboxError Tally × SharedMailbox :=
  s.mutate (·.applyBatch settings s.sessions since? events cursor)

variable {settings : SyncSettings} {since? : Option (Option String)} {cursor : Option String}
  {events events' : List Prepared}

theorem applyBatch_eq {result : Except MailboxError Tally}
    (h : s.mailbox.startJournal.applyBatch settings s.sessions since? events cursor = (result, m)) :
    s.applyBatch settings since? cursor events = s.conclude result m := by
  unfold applyBatch mutate
  dsimp only
  rw [h]

/-- Batches whose outcomes are alike are both kept or both taken back, and leave the same. -/
theorem applyBatch_matches (since? : Option (Option String)) (cursor : Option String)
    (hm : s.mailbox.Coherent)
    (hevents : (∃ tally₁ tally₂ m₁ m₂,
        s.mailbox.startJournal.applyEvents settings.updatesFlags {} events = (.ok tally₁, m₁) ∧
        s.mailbox.startJournal.applyEvents settings.updatesFlags {} events' = (.ok tally₂, m₂) ∧
        m₁.Parallel m₂) ∨
      ∃ e, (s.mailbox.startJournal.applyEvents settings.updatesFlags {} events).1 = .error e ∧
        (s.mailbox.startJournal.applyEvents settings.updatesFlags {} events').1 = .error e) :
    (s.applyBatch settings since? cursor events).1.map (fun _ => ()) =
        (s.applyBatch settings since? cursor events').1.map (fun _ => ()) ∧
      (s.applyBatch settings since? cursor events).2.mailbox.Matches
        (s.applyBatch settings since? cursor events').2.mailbox := by
  have hstart : s.mailbox.startJournal.Coherent := ⟨hm.distinct, hm.indexed, hm.queued⟩
  have hrestored {events : List Prepared} {e : MailboxError}
      (herror : (s.applyBatch settings since? cursor events).1 = .error e) :
      (s.applyBatch settings since? cursor events).2.mailbox.keepChanges = s.mailbox.keepChanges :=
    (unchanged_applyBatch hm.distinct herror).keepChanges_eq hm.indexed
  have hfailed {e : MailboxError}
      (herror : (s.applyBatch settings since? cursor events).1 = .error e)
      (herror' : (s.applyBatch settings since? cursor events').1 = .error e) :
      (s.applyBatch settings since? cursor events).1.map (fun _ => ()) =
          (s.applyBatch settings since? cursor events').1.map (fun _ => ()) ∧
        (s.applyBatch settings since? cursor events).2.mailbox.Matches
          (s.applyBatch settings since? cursor events').2.mailbox :=
    ⟨by rw [herror, herror'],
      .of_keepChanges_eq ((hrestored herror).trans (hrestored herror').symm)⟩
  rcases applyBatch_parallel s.sessions since? cursor hstart hevents with
    ⟨e, herror, herror'⟩ | ⟨tally₁, tally₂, m₁, m₂, hok, hok', hparallel, h₁, h₂⟩
  · have hfirst := applyBatch_eq (s := s) (Prod.ext herror rfl)
    have hsecond := applyBatch_eq (s := s) (Prod.ext herror' rfl)
    exact hfailed (e := e) (by rw [hfirst]; rfl) (by rw [hsecond]; rfl)
  · have hfirst := conclude_fst tally₁ m₁ s
    have hsecond := conclude_fst tally₂ m₂ s
    rw [← applyBatch_eq hok, refuses_parallel hparallel h₁ h₂ s, hparallel.name] at hfirst
    rw [← applyBatch_eq hok'] at hsecond
    cases hrefuses : s.refuses m₂ with
    | true =>
        rw [hrefuses, if_pos rfl] at hfirst hsecond
        exact hfailed hfirst hsecond
    | false =>
        rw [hrefuses, if_neg Bool.false_ne_true] at hfirst hsecond
        refine ⟨by rw [hfirst, hsecond]; rfl, ?_⟩
        rw [applyBatch_eq hok] at hfirst ⊢
        rw [applyBatch_eq hok'] at hsecond ⊢
        obtain ⟨_, cache?, hkept⟩ := conclude_ok hfirst
        obtain ⟨_, cache?', hkept'⟩ := conclude_ok hsecond
        rw [hkept, hkept']
        exact (hparallel.matches h₁ h₂).kept

end SharedMailbox

end MailBridge

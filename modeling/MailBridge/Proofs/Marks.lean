import MailBridge.Proofs.Engine

/-! # The marks of recent messages

A message is recent when it comes. Its mark may be taken off, but it never comes back, whatever is
done to the mailbox; and the only edit that takes marks off is made for the sake of sessions.
-/

namespace MailBridge

namespace Message

variable {r r' r'' : Message} {sparing : Prop}

def unmarked (r : Message) : Message := { r with flags := Flags.withoutRecent r.flags }

/-- The message without the mark if it is one of those whose marks are taken off. -/
def unmarkedIf (p : Uid → Bool) (r : Message) : Message := if p r.uid then r.unmarked else r

theorem unmarked_unmarked (r : Message) : r.unmarked.unmarked = r.unmarked := by
  unfold unmarked
  rw [Flags.withoutRecent, Flags.withoutRecent, OrderedSet.erase_erase]

theorem unmarked_of_not_recent (h : Flags.isRecent r.flags = false) : r.unmarked = r := by
  have hflags : Flags.withoutRecent r.flags = r.flags := by
    refine OrderedSet.ext fun flag => ?_
    rw [Flags.withoutRecent, OrderedSet.mem_erase, and_iff_left_iff_imp]
    rintro hmem rfl
    exact absurd hmem (of_decide_eq_false h)
  unfold unmarked
  rw [hflags]

/-- A message as it has become: not recent again, and still recent if marks are spared. -/
structure Carried (sparing : Prop) (old new : Message) : Prop where
  uid : new.uid = old.uid
  remoteId : new.remoteId = old.remoteId
  lost : Flags.isRecent old.flags = false → Flags.isRecent new.flags = false
  kept : sparing → Flags.isRecent new.flags = Flags.isRecent old.flags

theorem Carried.refl (r : Message) : r.Carried sparing r := ⟨rfl, rfl, id, fun _ => rfl⟩

theorem Carried.trans (h : r.Carried sparing r') (h' : r'.Carried sparing r'') :
    r.Carried sparing r'' where
  uid := h'.uid.trans h.uid
  remoteId := h'.remoteId.trans h.remoteId
  lost hnot := h'.lost (h.lost hnot)
  kept hsparing := (h'.kept hsparing).trans (h.kept hsparing)

theorem Persists.carried (h : r.Persists r') : r.Carried sparing r' :=
  ⟨h.uid, h.remoteId, fun hnot => h.recent.trans hnot, fun _ => h.recent⟩

theorem carried_unmarkedIf (p : Uid → Bool) (r : Message) (hsparing : ¬ sparing) :
    r.Carried sparing (r.unmarkedIf p) := by
  unfold unmarkedIf
  split
  · exact ⟨rfl, rfl, fun _ => Flags.isRecent_withoutRecent r.flags, fun h => absurd h hsparing⟩
  · exact .refl r

theorem isRecent_unmarkedIf (p : Uid → Bool) (r : Message) :
    Flags.isRecent (r.unmarkedIf p).flags = (!p r.uid && Flags.isRecent r.flags) := by
  unfold unmarkedIf
  split
  · next hp =>
    rw [hp]
    exact Flags.isRecent_withoutRecent r.flags
  · next hp => rw [Bool.eq_false_iff.2 hp, Bool.not_false, Bool.true_and]

end Message

namespace Mailbox

variable {m m' m'' : Mailbox} {sparing : Prop}

/-! ## Taking marks off -/

theorem messages_clearRecentOf (hd : m.store.Distinct) (uid : Uid) :
    (clearRecentOf m uid).store.messages =
      m.store.messages.map fun r => if r.uid = uid then r.unmarked else r := by
  unfold clearRecentOf
  dsimp only
  rw [note_store]
  split
  · next hnone =>
    have hno := (MessageStore.get?_eq_none hd).1 hnone
    rw [List.map_congr_left fun r hr => if_neg (hno r hr), List.map_id', note_store]
  · next r found =>
    obtain ⟨hr, rfl⟩ := (MessageStore.get?_eq_some hd).1 found
    simp only [markUnsaved, MessageStore.messages_update hd]
    refine List.map_congr_left fun x hx => ?_
    by_cases hxr : x.uid = r.uid
    · rw [if_pos hxr, if_pos hxr, hd.eq_of_uid_eq hx hr hxr]
      rfl
    · rw [if_neg hxr, if_neg hxr]

theorem distinct_clearRecentOf (hd : m.store.Distinct) (uid : Uid) :
    (clearRecentOf m uid).store.Distinct := by
  rw [MessageStore.Distinct, messages_clearRecentOf hd]
  refine Ascending.map hd fun r _ => ?_
  split <;> rfl

theorem messages_foldl_clearRecentOf (hd : m.store.Distinct) (uids : List Uid) :
    (uids.foldl clearRecentOf m).store.messages =
      m.store.messages.map fun r => if r.uid ∈ uids then r.unmarked else r := by
  induction uids generalizing m with
  | nil => simp
  | cons uid rest ih =>
      rw [List.foldl_cons, ih (distinct_clearRecentOf hd uid), messages_clearRecentOf hd,
        List.map_map]
      refine List.map_congr_left fun r _ => ?_
      by_cases huid : r.uid = uid
      · simp only [Function.comp_apply, List.mem_cons, huid, true_or, if_true]
        split
        · exact r.unmarked_unmarked
        · rfl
      · simp only [Function.comp_apply, List.mem_cons, huid, false_or, if_false]

theorem messages_clearRecent (hd : m.store.Distinct) (p : Uid → Bool) :
    (m.clearRecent p).2.store.messages = m.store.messages.map (Message.unmarkedIf p) := by
  have hmessages : (m.clearRecent p).2.store.messages =
      (((m.store.messages.filter fun r => p r.uid && Flags.isRecent r.flags).map
        (·.uid)).foldl clearRecentOf m).store.messages := by
    unfold clearRecent
    dsimp only
    split <;> rfl
  rw [hmessages, messages_foldl_clearRecentOf hd]
  refine List.map_congr_left fun r hr => ?_
  have hmem : r.uid ∈ (m.store.messages.filter fun r => p r.uid && Flags.isRecent r.flags).map
      (·.uid) ↔ p r.uid = true ∧ Flags.isRecent r.flags = true := by
    rw [List.mem_map]
    constructor
    · rintro ⟨x, hx, huid⟩
      obtain ⟨hx, htest⟩ := List.mem_filter.1 hx
      rw [hd.eq_of_uid_eq hx hr huid] at htest
      exact Bool.and_eq_true_iff.1 htest
    · exact fun htest => ⟨r, List.mem_filter.2 ⟨hr, Bool.and_eq_true_iff.2 htest⟩, rfl⟩
  unfold Message.unmarkedIf
  by_cases hp : p r.uid = true
  · rw [if_pos hp]
    split
    · rfl
    · next hnot =>
      have hunmarked : Flags.isRecent r.flags = false :=
        Bool.eq_false_iff.2 fun hrecent => hnot (hmem.2 ⟨hp, hrecent⟩)
      exact (Message.unmarked_of_not_recent hunmarked).symm
  · rw [if_neg hp, if_neg fun h => hp (hmem.1 h).1]

/-! ## Any edits -/

/-- A mailbox as it has become, the marks of its messages included. If marks are spared, messages
that have come are recent; within an epoch they have UIDs that were still to be issued. -/
structure Carries (sparing : Prop) (m m' : Mailbox) : Prop where
  later : m.Later m'
  origin : ∀ r' ∈ m'.store.messages,
    (∃ r ∈ m.store.messages, r.Carried sparing r') ∨ (sparing → Flags.isRecent r'.flags = true)
  within : m'.uids.validity = m.uids.validity → m'.uids.validity.val < maxWord →
    ∀ r' ∈ m'.store.messages, r'.uid.val < m.uids.bound →
      ∃ r ∈ m.store.messages, r.Carried sparing r'

theorem Carries.trans (h : m.Carries sparing m') (h' : m'.Carries sparing m'') :
    m.Carries sparing m'' where
  later := h.later.trans h'.later
  origin r'' hr'' := by
    rcases h'.origin r'' hr'' with ⟨r', hr', hcarried'⟩ | hrecent
    · rcases h.origin r' hr' with ⟨r, hr, hcarried⟩ | hrecent
      · exact .inl ⟨r, hr, hcarried.trans hcarried'⟩
      · exact .inr fun hsparing => (hcarried'.kept hsparing).trans (hrecent hsparing)
    · exact .inr hrecent
  within hsame hlt r'' hr'' hissued := by
    have hle := h.later.validity
    have hle' := h'.later.validity
    have hmid : m'.uids.validity = m.uids.validity := by
      refine UidValidity.ext_val ?_
      rw [hsame] at hle'
      omega
    have hbound := (h.later.continues hmid (by omega)).bound
    obtain ⟨r', hr', hcarried'⟩ := h'.within (hsame.trans hmid.symm) hlt r'' hr'' (by omega)
    have hissued' : r'.uid.val < m.uids.bound := by rwa [← hcarried'.uid]
    obtain ⟨r, hr, hcarried⟩ := h.within hmid (by omega) r' hr' hissued'
    exact ⟨r, hr, hcarried.trans hcarried'⟩

/-- Within an epoch it is enough to know where messages come from. -/
theorem carries_of_continues (hc : m.Continues m')
    (horigin : ∀ r' ∈ m'.store.messages, (∃ r ∈ m.store.messages, r.Carried sparing r') ∨
      Flags.isRecent r'.flags = true ∧ ∀ r ∈ m.store.messages, r.uid ≠ r'.uid) :
    m.Carries sparing m' where
  later := hc.later
  origin r' hr' := (horigin r' hr').imp_right fun hnew _ => hnew.1
  within _ _ r' hr' hissued := by
    refine (horigin r' hr').resolve_right fun hnew => ?_
    rcases hc.origin r' hr' with ⟨r, hr, hbecomes⟩ | habove
    · exact hnew.2 r hr hbecomes.uid.symm
    · exact absurd hissued (Nat.not_lt_of_le habove)

theorem Carries.of_eq (hmessages : m'.store.messages = m.store.messages) (huids : m'.uids = m.uids)
    (hmodseq : m'.modseq = m.modseq) : m.Carries sparing m' :=
  carries_of_continues (.of_eq hmessages huids hmodseq) fun r hr =>
    .inl ⟨r, hmessages ▸ hr, .refl r⟩

theorem Carries.refl (m : Mailbox) : m.Carries sparing m := .of_eq rfl rfl rfl

theorem carries_tended (hd : m.store.Distinct) (h : EditedBy Edit.tends m m') :
    m.Carries sparing m' := by
  obtain ⟨hkeeps, horigin⟩ := h.persists hd
  obtain ⟨edits, htends, rfl⟩ := h
  refine carries_of_continues
    (continues_editAll hd fun e he => Edit.renews_of_tends (htends e he)) fun r' hr' => ?_
  by_cases hold : ∃ r ∈ m.store.messages, r.uid = r'.uid
  · obtain ⟨r, hr, huid⟩ := hold
    obtain ⟨x, hx, hpersists⟩ := hkeeps r hr
    have hsame : x = r' :=
      (distinct_editAll hd edits).eq_of_uid_eq hx hr' (hpersists.uid.trans huid)
    exact .inl ⟨r, hr, (hsame ▸ hpersists).carried⟩
  · refine (horigin r' hr').imp (fun ⟨r, hr, hpersists⟩ => ⟨r, hr, hpersists.carried⟩)
      fun hrecent => ⟨hrecent, fun r hr huid => hold ⟨r, hr, huid⟩⟩

theorem carries_apply (hd : m.store.Distinct) (e : Edit) (h : sparing → e.sparesMarks = true) :
    m.Carries sparing (e.apply m) := by
  have hsub {m' : Mailbox} (hc : m.Continues m')
      (hmem : ∀ r ∈ m'.store.messages, r ∈ m.store.messages) : m.Carries sparing m' :=
    carries_of_continues hc fun r hr => .inl ⟨r, hmem r hr, .refl r⟩
  have hcontinues (he : e.renews = false) : m.Continues (m.editAll [e]) :=
    continues_editAll hd fun _ he' => List.mem_singleton.1 he' ▸ he
  cases e with
  | expunge => exact hsub (hcontinues rfl) fun r => mem_of_mem_expunge
  | flushPending => exact hsub (hcontinues rfl) (flushed_spec m).2.2
  | clearRecent p =>
      refine carries_of_continues (hcontinues rfl) fun r' hr' => .inl ?_
      have hr'' : r' ∈ (m.clearRecent p).2.store.messages := hr'
      rw [messages_clearRecent hd] at hr''
      obtain ⟨r, hr, rfl⟩ := List.mem_map.1 hr''
      exact ⟨r, hr, r.carried_unmarkedIf p fun hsparing => absurd (h hsparing) Bool.false_ne_true⟩
  | invalidate now =>
      have hstore : (m.invalidate now).2.store = ∅ := (invalidate_eq now m).2.1
      have hnone : ∀ r ∈ (Edit.apply m (.invalidate now)).store.messages, False := by
        intro r hr
        have hr' : r ∈ (m.invalidate now).2.store.messages := hr
        rw [hstore] at hr'
        cases hr'
      exact ⟨later_invalidate now m, fun r hr => (hnone r hr).elim,
        fun _ _ r hr => (hnone r hr).elim⟩
  | _ => exact carries_tended hd (.single _ rfl rfl)

theorem carries_editAll (hd : m.store.Distinct) {edits : List Edit}
    (h : sparing → ∀ e ∈ edits, e.sparesMarks = true) : m.Carries sparing (m.editAll edits) := by
  induction edits generalizing m with
  | nil => exact .refl m
  | cons e rest ih =>
      have hfirst := carries_apply hd e fun hsparing => h hsparing e List.mem_cons_self
      have hrest := ih (distinct_editAll hd [e]) fun hsparing e' he' =>
        h hsparing e' (List.mem_cons_of_mem e he')
      exact hfirst.trans hrest

end Mailbox

namespace SharedMailbox

variable {s s' : SharedMailbox} {sparing : Prop}

theorem carries_perform (hd : s.mailbox.store.Distinct) {c : Change}
    (h : sparing → ∀ e ∈ c.edits, e.sparesMarks = true) :
    s.mailbox.Carries sparing (s.perform c).mailbox := by
  rcases perform_restores_or_keeps hd c with ⟨store, heq, hmessages⟩ | ⟨cache?, heq⟩
  · rw [heq]
    exact .of_eq hmessages rfl rfl
  · rw [heq]
    have hstart : s.mailbox.Carries sparing s.mailbox.startJournal := .of_eq rfl rfl rfl
    have hedits : s.mailbox.startJournal.Carries sparing
        (s.mailbox.startJournal.editAll (c.edits ++ [.commit, .takeUnsaved])) := by
      refine Mailbox.carries_editAll (m := s.mailbox.startJournal) hd fun hsparing e he => ?_
      rcases List.mem_append.1 he with he | he
      · exact h hsparing e he
      · have hending : ∀ e ∈ [Edit.commit, Edit.takeUnsaved], e.sparesMarks = true := by
          simp [Edit.sparesMarks]
        exact hending e he
    exact (hstart.trans hedits).trans (.of_eq rfl rfl rfl)

theorem carries_leadsBy {kind : Edit → Bool} (hd : s.mailbox.store.Distinct)
    (hkind : sparing → ∀ e, kind e = true → e.sparesMarks = true) (h : LeadsBy kind s s') :
    s'.mailbox.store.Distinct ∧ s.mailbox.Carries sparing s'.mailbox := by
  induction h with
  | refl => exact ⟨hd, .refl _⟩
  | tail _ hstep ih =>
      cases hstep with
      | change c made =>
          have hnext : Mailbox.Carries sparing _ _ := carries_perform ih.1 fun hsparing e he =>
            hkind hsparing e (made e he)
          exact ⟨distinct_perform ih.1 c, ih.2.trans hnext⟩
      | aside => exact ih

theorem carries_mutate_error {α : Type} {f : Mailbox → Except MailboxError α × Mailbox}
    {e : MailboxError} (hd : s.mailbox.store.Distinct) (hf : ∀ m, Mailbox.Edited m (f m).2)
    (herror : (s.mutate f).1 = .error e) : s.mailbox.Carries sparing (s.mutate f).2.mailbox := by
  obtain ⟨edits, hedits⟩ := hf s.mailbox.startJournal
  obtain ⟨store, hrestored, hmessages⟩ := Mailbox.rollback_restores hd edits
  rw [mutate_error hedits herror, hrestored]
  exact .of_eq hmessages rfl rfl

end SharedMailbox

end MailBridge

import MailBridge.Proofs.FlagLaws
import MailBridge.Proofs.Lineage

/-! # Looking after messages

Most edits look after messages: whatever else they do, at most one message changes in what is not
its identity and not the mark of a recent message, or a recent message is added. So after any such
edits all messages are there under their names and UIDs, recent if they were, and those that have
come are recent.
-/

namespace MailBridge

/-- Nothing happens to the messages but that one changes or a recent one is added. -/
inductive MessageStore.Tended (s : MessageStore) : MessageStore → Prop
  | same : Tended s s
  | update {old r : Message} (found : s.get? r.uid = some old) (name : r.remoteId = old.remoteId)
      (recent : Flags.isRecent r.flags = Flags.isRecent old.flags) : Tended s (s.update r)
  | enter {r : Message} {t : MessageStore} (added : s.append? r = some t)
      (recent : Flags.isRecent r.flags = true) : Tended s t

/-- The message under another state: its identity and whether it is recent are the same. -/
structure Message.Persists (old new : Message) : Prop where
  uid : new.uid = old.uid
  remoteId : new.remoteId = old.remoteId
  recent : Flags.isRecent new.flags = Flags.isRecent old.flags

theorem Message.Persists.refl (r : Message) : r.Persists r := ⟨rfl, rfl, rfl⟩

theorem Message.Persists.trans {a b c : Message} (h : a.Persists b) (h' : b.Persists c) :
    a.Persists c :=
  ⟨h'.uid.trans h.uid, h'.remoteId.trans h.remoteId, h'.recent.trans h.recent⟩

namespace MessageStore.Tended

variable {s t : MessageStore}

theorem keeps (hd : s.Distinct) (h : s.Tended t) :
    ∀ x ∈ s.messages, ∃ x' ∈ t.messages, x.Persists x' := by
  intro x hx
  cases h with
  | same => exact ⟨x, hx, .refl x⟩
  | @update old r found name recent =>
      obtain ⟨hold, huid⟩ := (get?_eq_some hd).1 found
      by_cases hsame : x.uid = r.uid
      · have hxold : x = old := Ascending.eq_of_uid_eq hd hx hold (hsame.trans huid.symm)
        subst hxold
        exact ⟨r, (mem_update hd).2 (.inl ⟨rfl, by simp [found]⟩), hsame.symm, name, recent⟩
      · exact ⟨x, (mem_update hd).2 (.inr ⟨hx, hsame⟩), .refl x⟩
  | enter added =>
      refine ⟨x, ?_, .refl x⟩
      rw [(append?_eq_some added).2.2.1]
      exact List.mem_append_left _ hx

theorem origin (hd : s.Distinct) (h : s.Tended t) :
    ∀ x' ∈ t.messages, (∃ x ∈ s.messages, x.Persists x') ∨ Flags.isRecent x'.flags = true := by
  intro x' hx'
  cases h with
  | same => exact .inl ⟨x', hx', .refl x'⟩
  | update found name recent =>
      obtain ⟨hold, huid⟩ := (get?_eq_some hd).1 found
      rcases (mem_update hd).1 hx' with ⟨rfl, _⟩ | ⟨hx', _⟩
      · exact .inl ⟨_, hold, huid.symm, name, recent⟩
      · exact .inl ⟨x', hx', .refl x'⟩
  | enter added recent =>
      rw [(append?_eq_some added).2.2.1] at hx'
      rcases List.mem_append.1 hx' with hx' | hx'
      · exact .inl ⟨x', hx', .refl x'⟩
      · rw [List.mem_singleton.1 hx']
        exact .inr recent

end MessageStore.Tended

/-- Whether the edit looks after messages: it takes none out and takes no marks off. -/
def Edit.tends : Edit → Bool
  | expunge | flushPending | clearRecent _ | invalidate _ => false
  | _ => true

/-- Whether the edit leaves the marks of recent messages on, as all edits do but one. -/
def Edit.sparesMarks : Edit → Bool
  | clearRecent _ => false
  | _ => true

theorem Edit.sparesMarks_of_tends {e : Edit} (h : e.tends = true) : e.sparesMarks = true := by
  cases e <;> first | rfl | cases h

theorem Edit.renews_of_tends {e : Edit} (h : e.tends = true) : e.renews = false := by
  cases e <;> first | rfl | cases h

namespace Mailbox

@[simp] theorem change_store (r : Message) (m : Mailbox) :
    (m.change r).store = m.store.update r := by
  simp [change, advance]

theorem tended_receive (content : MessageContent) (m : Mailbox) :
    m.store.Tended (m.receive content).2.store := by
  unfold receive
  split
  · split
    · exact .same
    · next uid _ r found =>
      rw [← uid_of_found found] at found
      split
      · simp only [markUnsaved, change_store]
        exact .update (r := r.refresh content m.modseq.next) found rfl rfl
      · exact .same
  · split
    · exact .same
    · next uid uids issued =>
      dsimp only
      split
      · rw [note_store]
        exact .same
      · next added =>
        rw [note_store] at added
        exact .enter added (Message.isRecent_arrive ..)

theorem tended_setFlags (now : Instant) (uid : Uid) (delta : Flags) (mode : StoreMode)
    (m : Mailbox) : m.store.Tended (m.setFlags now uid delta mode).2.store := by
  unfold setFlags
  split
  · exact .same
  · next r found =>
    rw [← uid_of_found found] at found
    dsimp only
    split
    · exact .same
    · simp only [markUnsaved, change_store]
      exact .update found rfl (Flags.isRecent_apply ..)

theorem tended_mergeFlags (id : RemoteId) (flags : Flags) (taken : Instant) (m : Mailbox) :
    m.store.Tended (m.mergeFlags id flags taken).2.store := by
  unfold mergeFlags
  split
  · exact .same
  · split
    · exact .same
    · next uid _ r found =>
      rw [← uid_of_found found] at found ⊢
      have hmerged : Flags.isRecent (if r.isUndecryptable = true then
          OrderedSet.insert .undecryptable (Flags.merge r.flags r.localChanges flags taken)
          else Flags.merge r.flags r.localChanges flags taken) = Flags.isRecent r.flags := by
        split
        · rw [Flags.isRecent_insert Flag.undecryptable_ne_recent, Flags.isRecent_merge]
        · exact Flags.isRecent_merge ..
      dsimp only
      generalize (if r.isUndecryptable = true then _ else _) = merged at hmerged ⊢
      split
      · simp only [markUnsaved, change_store]
        exact .update (r := { r with
          flags := merged, modseq := m.modseq.next
          localChanges := r.localChanges.forgetBefore taken }) found rfl hmerged
      · split
        · rw [note_store]
          exact .update (r := { r with localChanges := r.localChanges.forgetBefore taken })
            found rfl rfl
        · exact .same

theorem tended_markRemoved (id : RemoteId) (m : Mailbox) :
    m.store.Tended (m.markRemoved id).2.store := by
  unfold markRemoved
  split
  · exact .same
  · split
    · exact .same
    · next uid _ r found =>
      rw [← uid_of_found found] at found ⊢
      have hdeleted : Flag.deleted ≠ .recent := nofun
      have hmark : m.store.Tended
          (if Flags.isDeleted r.flags then m
          else m.change { r with
            flags := OrderedSet.insert .deleted r.flags, modseq := m.modseq.next }).store := by
        split
        · exact .same
        · rw [change_store]
          exact .update (r := { r with
            flags := OrderedSet.insert .deleted r.flags, modseq := m.modseq.next })
            found rfl (Flags.isRecent_insert hdeleted r.flags)
      dsimp only
      generalize (if Flags.isDeleted r.flags then m else _) = m' at hmark ⊢
      split <;> exact hmark

theorem raiseUidNext_store (m : Mailbox) : m.raiseUidNext.store = m.store := by
  unfold raiseUidNext
  split <;> rfl

theorem setCursor_store (cursor : Option String) (m : Mailbox) :
    (m.setCursor cursor).store = m.store := by
  unfold setCursor
  split <;> rfl

theorem commit_store (m : Mailbox) : m.commit.store = m.store := by
  unfold commit
  split <;> rfl

theorem tended_apply {e : Edit} (h : e.tends = true) (m : Mailbox) :
    m.store.Tended (e.apply m).store := by
  have hsame {m' : Mailbox} (heq : m'.store = m.store) : m.store.Tended m'.store := by
    rw [heq]
    exact .same
  cases e with
  | receive content => exact tended_receive content m
  | setFlags now uid delta mode => exact tended_setFlags now uid delta mode m
  | mergeFlags id flags taken => exact tended_mergeFlags id flags taken m
  | markRemoved id => exact tended_markRemoved id m
  | raiseUidNext => exact hsame (raiseUidNext_store m)
  | commit => exact hsame (commit_store m)
  | setCursor cursor => exact hsame (setCursor_store cursor m)
  | takeUnsaved => exact .same
  | expunge | flushPending | clearRecent _ | invalidate _ => cases h

/-! ## Edits of one kind -/

/-- The mailbox after some edits of one kind. -/
def EditedBy (kind : Edit → Bool) (m m' : Mailbox) : Prop :=
  ∃ edits : List Edit, (∀ e ∈ edits, kind e = true) ∧ m' = m.editAll edits

namespace EditedBy

variable {kind : Edit → Bool} {m m' m'' : Mailbox}

theorem refl (m : Mailbox) : EditedBy kind m m := ⟨[], nofun, rfl⟩

theorem trans (h : EditedBy kind m m') (h' : EditedBy kind m' m'') : EditedBy kind m m'' := by
  obtain ⟨edits, hkind, rfl⟩ := h
  obtain ⟨edits', hkind', rfl⟩ := h'
  refine ⟨edits ++ edits', fun e he => ?_, (editAll_append ..).symm⟩
  exact (List.mem_append.1 he).elim (hkind e) (hkind' e)

theorem single (e : Edit) (he : kind e = true) (h : e.apply m = m') : EditedBy kind m m' :=
  ⟨[e], by simpa using he, h.symm⟩

theorem mono {kind' : Edit → Bool} (hle : ∀ e, kind e = true → kind' e = true)
    (h : EditedBy kind m m') : EditedBy kind' m m' := by
  obtain ⟨edits, hkind, heq⟩ := h
  exact ⟨edits, fun e he => hle e (hkind e he), heq⟩

/-- All messages are still there after being looked after, and those that have come are recent. -/
theorem persists (hd : m.store.Distinct) (h : EditedBy Edit.tends m m') :
    (∀ x ∈ m.store.messages, ∃ x' ∈ m'.store.messages, x.Persists x') ∧
      ∀ x' ∈ m'.store.messages,
        (∃ x ∈ m.store.messages, x.Persists x') ∨ Flags.isRecent x'.flags = true := by
  obtain ⟨edits, htends, rfl⟩ := h
  induction edits generalizing m with
  | nil => exact ⟨fun x hx => ⟨x, hx, .refl x⟩, fun x hx => .inl ⟨x, hx, .refl x⟩⟩
  | cons e rest ih =>
      obtain ⟨he, hrest⟩ := List.forall_mem_cons.1 htends
      have htended := tended_apply he m
      obtain ⟨hkeeps, horigin⟩ := ih (distinct_editAll hd [e]) hrest
      refine ⟨fun x hx => ?_, fun x'' hx'' => ?_⟩
      · obtain ⟨x', hx', hpersists⟩ := htended.keeps hd x hx
        obtain ⟨x'', hx'', hpersists'⟩ := hkeeps x' hx'
        exact ⟨x'', hx'', hpersists.trans hpersists'⟩
      · rcases horigin x'' hx'' with ⟨x', hx', hpersists'⟩ | hrecent
        · rcases htended.origin hd x' hx' with ⟨x, hx, hpersists⟩ | hrecent
          · exact .inl ⟨x, hx, hpersists.trans hpersists'⟩
          · exact .inr (hpersists'.recent.trans hrecent)
        · exact .inr hrecent

end EditedBy

end Mailbox

end MailBridge

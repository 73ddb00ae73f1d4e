import MailBridge.Proofs.Edit
import MailBridge.SharedMailbox

/-! # Changes of a shared mailbox

A change is a run of edits with a verdict. Whatever changes a shared mailbox does so by changes:
each is kept, or the mailbox is rolled back.
-/

namespace MailBridge

theorem Mailbox.rollback_takeUnsaved_commit {m : Mailbox} (h : m.journal?.isSome = true) :
    m.commit.takeUnsaved.2.rollback = m.rollback := by
  obtain ⟨j, hj⟩ := Option.isSome_iff_exists.1 h
  unfold commit
  split <;> simp [takeUnsaved, rollback, hj]

theorem Mailbox.kept_eq (m : Mailbox) : (m.editAll [.commit, .takeUnsaved]).keepChanges =
    { m with summary? := some m.summary, unsaved := {}, journal? := none } := by
  show m.commit.takeUnsaved.2.keepChanges = _
  unfold commit summary
  cases hsummary : m.summary? with
  | none => rfl
  | some figures => simp [takeUnsaved, keepChanges, hsummary]

namespace SharedMailbox

variable {α : Type} {result : Except MailboxError α} {m : Mailbox} {s : SharedMailbox}

theorem save_ok {unsaved : Unsaved} {t : SharedMailbox} (h : s.save unsaved = .ok t) :
    ∃ cache?, t = { s with cache? } := by
  unfold save at h
  split at h
  · cases h
    exact ⟨s.cache?, rfl⟩
  · next cache _ =>
    split at h
    · cases h
      exact ⟨s.cache?, rfl⟩
    · cases hsave : cache.save s.mailbox unsaved with
      | error e =>
          rw [hsave] at h
          cases h
      | ok cache' =>
          rw [hsave] at h
          cases h
          exact ⟨some cache', rfl⟩

theorem conclude_error {e : MailboxError} (h : (s.conclude result m).1 = .error e) :
    (s.conclude result m).2 = { s with mailbox := m.rollback } ∨
      (s.conclude result m).2 = { s with mailbox := m.commit.takeUnsaved.2.rollback } := by
  unfold conclude at h ⊢
  split
  · exact .inl rfl
  · dsimp only at h ⊢
    split
    · exact .inr rfl
    · next hsave =>
      simp only [hsave] at h
      cases h

theorem conclude_ok {a : α} (h : (s.conclude result m).1 = .ok a) :
    result = .ok a ∧ ∃ cache?, (s.conclude result m).2 =
      { s with mailbox := m.commit.takeUnsaved.2.keepChanges, cache? } := by
  unfold conclude at h ⊢
  split
  · cases h
  · dsimp only at h ⊢
    split
    · next hsave =>
      simp only [hsave] at h
      cases h
    · next hsave =>
      simp only [hsave] at h
      cases h
      obtain ⟨cache?, rfl⟩ := save_ok hsave
      exact ⟨rfl, cache?, rfl⟩

/-- A change that is kept has been saved, unless there was nothing to save. -/
theorem conclude_saved {a : α} {c : Cache} (h : (s.conclude result m).1 = .ok a)
    (hcache : s.cache? = some c) : ∃ c', (s.conclude result m).2 =
      { s with mailbox := m.commit.takeUnsaved.2.keepChanges, cache? := some c' } ∧
        (m.unsaved.isEmpty = true ∧ c' = c ∨ c.save m m.unsaved = .ok c') := by
  -- the cache reads nothing that ending a change touches
  have hsame : c.save m.commit.takeUnsaved.2 m.commit.takeUnsaved.1 = c.save m m.unsaved := by
    unfold Mailbox.commit
    split <;> rfl
  have hunsaved : m.commit.takeUnsaved.1 = m.unsaved := by
    unfold Mailbox.commit
    split <;> rfl
  unfold conclude at h ⊢
  split
  · cases h
  · dsimp only at h ⊢
    rw [save, hcache] at h ⊢
    dsimp only at h ⊢
    rw [hsame, hunsaved] at h ⊢
    by_cases hempty : m.unsaved.isEmpty = true
    · rw [if_pos hempty] at h ⊢
      exact ⟨c, by rw [← hcache], .inl ⟨hempty, rfl⟩⟩
    · rw [if_neg hempty] at h ⊢
      cases hsave : c.save m m.unsaved with
      | error e =>
          rw [hsave] at h
          cases h
      | ok c' => exact ⟨c', rfl, .inr rfl⟩

theorem modify_ok {f : Mailbox → α × Mailbox} {a : α} (h : (s.modify f).1 = .ok a) :
    a = (f s.mailbox.startJournal).1 ∧ ∃ cache?, (s.modify f).2 =
      { s with
        mailbox := ((f s.mailbox.startJournal).2.editAll [.commit, .takeUnsaved]).keepChanges
        cache? } := by
  obtain ⟨hok, hmailbox⟩ := conclude_ok h
  exact ⟨(Except.ok.inj hok).symm, hmailbox⟩

/-- The shared mailbox with no change under way. -/
def idle (s : SharedMailbox) : SharedMailbox := { s with mailbox := s.mailbox.keepChanges }

theorem idle_of_journal (h : s.mailbox.journal? = none) : s.idle = s := by
  obtain ⟨⟨name, uids, store, modseq, cursor, pending, summary?, unsaved, journal?⟩, cache?,
    sessions⟩ := s
  obtain rfl : journal? = none := h
  rfl

theorem mutate_untouched {f : Mailbox → Except MailboxError α × Mailbox} {e : MailboxError}
    (h : f s.mailbox.startJournal = (.error e, s.mailbox.startJournal)) :
    s.mutate f = (.error e, s.idle) := by
  unfold mutate
  rw [h]
  rfl

end SharedMailbox

/-- A run of edits of a mailbox with the verdict on them. -/
structure Change where
  edits : List Edit
  verdict : Except MailboxError Unit

namespace SharedMailbox

/-- The mailbox after a change that was kept or taken back. -/
def perform (s : SharedMailbox) (c : Change) : SharedMailbox :=
  (s.mutate fun m => (c.verdict, m.editAll c.edits)).2

def performAll (changes : List Change) (s : SharedMailbox) : SharedMailbox :=
  changes.foldl perform s

@[simp] theorem performAll_nil (s : SharedMailbox) : s.performAll [] = s := rfl

@[simp] theorem performAll_cons (c : Change) (changes : List Change) (s : SharedMailbox) :
    s.performAll (c :: changes) = (s.perform c).performAll changes := rfl

theorem perform_cases (s : SharedMailbox) (c : Change) :
    (∃ edits, s.perform c =
      { s with mailbox := (s.mailbox.startJournal.editAll edits).rollback }) ∨
    ∃ cache?, s.perform c =
      { s with
        mailbox := (s.mailbox.startJournal.editAll (c.edits ++ [.commit, .takeUnsaved])).keepChanges
        cache? } := by
  unfold perform mutate
  dsimp only
  cases h : (s.conclude c.verdict (s.mailbox.startJournal.editAll c.edits)).1 with
  | error e =>
      left
      rcases conclude_error h with heq | heq
      · exact ⟨c.edits, heq⟩
      · exact ⟨c.edits ++ [.commit, .takeUnsaved], by rw [Mailbox.editAll_append]; exact heq⟩
  | ok a =>
      right
      rw [Mailbox.editAll_append]
      exact (conclude_ok h).2

theorem conclude_map {α β : Type} (f : α → β) (result : Except MailboxError α) (m : Mailbox)
    (s : SharedMailbox) : (s.conclude (result.map f) m).2 = (s.conclude result m).2 := by
  cases result with
  | error e => rfl
  | ok a =>
      unfold conclude
      dsimp only [Except.map]
      split <;> rfl

/-- Changing a mailbox by a function that makes edits is a change. -/
theorem mutate_eq_perform {α : Type} {f : Mailbox → Except MailboxError α × Mailbox}
    {s : SharedMailbox} {edits : List Edit}
    (h : (f s.mailbox.startJournal).2 = s.mailbox.startJournal.editAll edits) :
    ∃ c : Change, c.edits = edits ∧ (s.mutate f).2 = s.perform c := by
  refine ⟨⟨edits, (f s.mailbox.startJournal).1.map fun _ => ()⟩, rfl, ?_⟩
  unfold perform mutate
  dsimp only
  rw [conclude_map, h]

theorem transact_eq_perform (ops : List Operation) (now : Instant) (s : SharedMailbox) :
    ∃ c : Change, (∀ e ∈ c.edits, ∃ op ∈ ops, ∃ now, op.edit? now = some e) ∧
      (s.transact ops now).2.2 = s.perform c := by
  obtain ⟨edits, hedits, hmade⟩ :=
    Operation.runUntilError_mailbox ops ⟨now, s.mailbox.startJournal⟩
  refine ⟨⟨edits, (Operation.runUntilError ops ⟨now, s.mailbox.startJournal⟩).2.1⟩, hmade, ?_⟩
  unfold perform mutate transact
  dsimp only
  rw [hedits]

end SharedMailbox

end MailBridge

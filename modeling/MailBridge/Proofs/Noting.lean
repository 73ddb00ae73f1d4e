import MailBridge.Proofs.Lineage
import MailBridge.Proofs.Rows

/-! # What edits note for saving

Only what is noted as unsaved is saved, so an edit has to note whatever it changes of what is
saved. Each edit is shown here to be a run of steps, each of which changes one thing and notes it.
Three edits may stray from this: a message that is marked for removal while it waits to be expunged
changes its flags without being noted, a message whose UID turns out not to be above all others
spends the UID, and what is handed over as unsaved is not noted any more.
-/

namespace MailBridge

theorem Unsaved.mark_mark (uid : Uid) (u : Unsaved) : (u.mark uid).mark uid = u.mark uid := by
  have hwritten : (u.written.insert uid).insert uid = u.written.insert uid :=
    OrderedSet.ext fun x => by simp
  simp [Unsaved.mark, hwritten]

/-- Whether the edit changes something that is saved and does not note it. -/
def Edit.Strays (m : Mailbox) : Edit → Prop
  | receive content => ∃ name uid,
      (m.receive content).1 = .error (.desync name (.uidNextRegression uid))
  | markRemoved id => ∃ uid r, m.store.uidOf? id = some uid ∧ m.store.get? uid = some r ∧
      Flags.isDeleted r.flags = false ∧ uid ∈ m.pending ∧ m.unsaved.mark uid ≠ m.unsaved
  | takeUnsaved => True
  | _ => False

namespace Mailbox

/-- The messages that wait to be expunged are there. -/
def Queued (m : Mailbox) : Prop := ∀ uid ∈ m.pending, ∃ r ∈ m.store.messages, r.uid = uid

theorem queued_of_pending {m : Mailbox} (h : m.pending = ∅) : m.Queued := by
  intro uid huid
  rw [h] at huid
  exact absurd huid OrderedSet.mem_empty

/-- A step that notes what it changes of what is saved. A lax step may change the head of the
mailbox and what is noted as it likes. -/
inductive Noted (lax : Prop) (m : Mailbox) : Mailbox → Prop
  /-- Neither is saved. -/
  | aside (journal? : Option Journal) (summary? : Option Summary) :
      Noted lax m { m with journal?, summary? }
  | slip (h : lax) (uids : UidSpace) (modseq : ModSeq) (unsaved : Unsaved) :
      Noted lax m { m with uids, modseq, unsaved }
  | head (uids : UidSpace) (cursor : Option String) :
      Noted lax m { m with uids, cursor, unsaved := { m.unsaved with mailbox := true } }
  /-- A message changes in nothing that is saved. -/
  | settle {old r : Message} (found : m.store.get? r.uid = some old) (same : r.plain = old.plain) :
      Noted lax m { m with store := m.store.update r }
  | write {old r : Message} (found : m.store.get? r.uid = some old) (modseq : ModSeq) :
      Noted lax m (markUnsaved r.uid { m with store := m.store.update r, modseq })
  | queue {uid : Uid} {r : Message} (found : m.store.get? uid = some r) :
      Noted lax m (markUnsaved uid { m with pending := m.pending.insert uid })
  | enter {r : Message} {store : MessageStore} (added : m.store.append? r = some store)
      (uids : UidSpace) (modseq : ModSeq) :
      Noted lax m (markUnsaved r.uid { m with uids, modseq, store })
  | remove (p : Message → Bool) {pending : OrderedSet Uid}
      (left : ∀ uid, uid ∈ pending ↔
        uid ∈ m.pending ∧ ∀ r ∈ (m.store.removeWhere p).1, r.uid ≠ uid)
      (some : (m.store.removeWhere p).1 ≠ []) (modseq : ModSeq) :
      Noted lax m
        { m with
          store := (m.store.removeWhere p).2, pending, modseq
          unsaved := (m.store.removeWhere p).1.foldl (fun u r => u.drop r.uid) m.unsaved }
  | renew (uids : UidSpace) (modseq : ModSeq) :
      Noted lax m
        { m with
          uids, modseq, store := ∅, pending := ∅, cursor := none
          unsaved := { mailbox := true, reset := true } }

open Relation

variable {lax : Prop} {m m' : Mailbox}

theorem Noted.distinct (h : m.store.Distinct) (s : Noted lax m m') : m'.store.Distinct := by
  cases s with
  | aside | slip | head | queue => exact h
  | settle | write => exact h.update _
  | enter added => exact h.append? added
  | remove => exact h.removeWhere _
  | renew => exact Ascending.nil

theorem exists_mem_update {s : MessageStore} {r : Message} {uid : Uid}
    (h : ∃ x ∈ s.messages, x.uid = uid) : ∃ x ∈ (s.update r).messages, x.uid = uid := by
  rw [← List.mem_map, MessageStore.map_uid_update, List.mem_map]
  exact h

theorem Noted.queued (h : m.Queued) (s : Noted lax m m') : m'.Queued := by
  cases s with
  | aside | slip | head => exact h
  | settle | write => exact fun uid huid => exists_mem_update (h uid huid)
  | queue found =>
      intro uid huid
      rcases OrderedSet.mem_insert.1 huid with rfl | huid
      · obtain ⟨i, _, hr⟩ := Option.bind_eq_some_iff.1 found
        exact ⟨_, List.mem_of_getElem? hr, uid_of_found found⟩
      · exact h uid huid
  | enter added =>
      intro uid huid
      obtain ⟨x, hx, hu⟩ := h uid huid
      refine ⟨x, ?_, hu⟩
      obtain ⟨_, _, hmessages, _⟩ := MessageStore.append?_eq_some added
      simp only [markUnsaved, hmessages]
      exact List.mem_append_left _ hx
  | remove p left =>
      intro uid huid
      obtain ⟨huid, hstays⟩ := (left uid).1 huid
      obtain ⟨x, hx, hu⟩ := h uid huid
      have hkept : x ∉ (m.store.removeWhere p).1 := fun hremoved => hstays x hremoved hu
      exact ⟨x, MessageStore.mem_removeWhere_iff_not_removed.2 ⟨hx, hkept⟩, hu⟩
  | renew =>
      intro uid huid
      exact absurd huid OrderedSet.mem_empty

/-! ## Edits are runs of such steps -/

theorem note_eq_aside (uid : Uid) (m : Mailbox) : ∃ journal?, m.note uid = { m with journal? } :=
  ⟨_, note_eq uid m⟩

theorem noted_change {old r : Message} (found : m.store.get? r.uid = some old) :
    ReflTransGen (Noted lax) m ((m.change r).markUnsaved r.uid) := by
  obtain ⟨journal?, hnote⟩ := note_eq_aside r.uid m
  simp only [change, hnote]
  exact (ReflTransGen.single (.aside journal? none)).tail
    (.write (m := { m with journal?, summary? := none }) found m.modseq.next)

theorem noted_receive {content : MessageContent} (h : lax ∨ ¬ (Edit.receive content).Strays m) :
    ReflTransGen (Noted lax) m (m.receive content).2 := by
  simp only [Edit.Strays] at h
  unfold receive at h ⊢
  split
  · split
    · exact .refl
    · next uid _ r found =>
      split
      · have hu := uid_of_found found
        subst hu
        exact noted_change found
      · exact .refl
  · next hnew =>
    split
    · exact .refl
    · next uid uids issued =>
      obtain ⟨journal?, hnote⟩ := note_eq_aside uid (advance { m with uids })
      have haside : Noted lax m { m with journal?, summary? := none } := .aside journal? none
      simp only [hnew, issued, hnote] at h ⊢
      split
      · next added =>
        -- the UID is spent, but the message does not come in
        rcases h with hlax | hnot
        · exact (ReflTransGen.single haside).tail (.slip hlax uids m.modseq.next m.unsaved)
        · simp only [added] at hnot
          exact absurd ⟨_, _, rfl⟩ hnot
      · next added =>
        exact (ReflTransGen.single haside).tail
          (.enter (m := { m with journal?, summary? := none }) added uids m.modseq.next)

theorem noted_setFlags (now : Instant) (uid : Uid) (delta : Flags) (mode : StoreMode)
    (m : Mailbox) : ReflTransGen (Noted lax) m (m.setFlags now uid delta mode).2 := by
  unfold setFlags
  split
  · exact .refl
  · next r found =>
    have hu := uid_of_found found
    subst hu
    dsimp only
    split
    · exact .refl
    · exact noted_change found

theorem noted_mergeFlags (id : RemoteId) (flags : Flags) (taken : Instant) (m : Mailbox) :
    ReflTransGen (Noted lax) m (m.mergeFlags id flags taken).2 := by
  unfold mergeFlags
  split
  · exact .refl
  · split
    · exact .refl
    · next r found =>
      have hu := uid_of_found found
      subst hu
      dsimp only
      generalize (if r.isUndecryptable = true then _ else _) = merged
      split
      · exact noted_change found
      · split
        · obtain ⟨journal?, hnote⟩ := note_eq_aside r.uid m
          rw [hnote]
          exact (ReflTransGen.single (.aside journal? m.summary?)).tail
            (.settle (r := { r with localChanges := r.localChanges.forgetBefore taken }) found rfl)
        · exact .refl

theorem noted_markRemoved {id : RemoteId} (h : lax ∨ ¬ (Edit.markRemoved id).Strays m) :
    ReflTransGen (Noted lax) m (m.markRemoved id).2 := by
  simp only [Edit.Strays] at h
  unfold markRemoved
  split
  · exact .refl
  · next uid hname =>
    split
    · exact .refl
    · next r found =>
      have hu := uid_of_found found
      subst hu
      cases hdeleted : Flags.isDeleted r.flags with
      | true =>
          simp only [if_true]
          split
          · exact .refl
          · exact .single (.queue found)
      | false =>
          obtain ⟨journal?, hnote⟩ := note_eq_aside r.uid m
          have hwrite := @Noted.write lax { m with journal?, summary? := none } r
            { r with flags := OrderedSet.insert .deleted r.flags, modseq := m.modseq.next } found
            m.modseq.next
          have haside : Noted lax m { m with journal?, summary? := none } := .aside journal? none
          simp only [Bool.false_eq_true, if_false, change, hnote, advance]
          split
          · next hqueued =>
            -- nothing more is noted
            rcases h with hlax | hnot
            · exact ((ReflTransGen.single haside).tail hwrite).tail
                (.slip hlax m.uids m.modseq.next m.unsaved)
            · have hmark : m.unsaved.mark r.uid = m.unsaved := Decidable.byContradiction
                fun hne => hnot ⟨r.uid, r, hname, found, hdeleted, hqueued, hne⟩
              simp only [markUnsaved, hmark] at hwrite
              exact (ReflTransGen.single haside).tail hwrite
          · -- the message is noted before its flags change, and once more with them
            have hqueue := @Noted.queue lax { m with journal?, summary? := none } r.uid r found
            have hwrite := @Noted.write lax
              (markUnsaved r.uid
                { m with journal?, summary? := none, pending := m.pending.insert r.uid }) r
              { r with flags := OrderedSet.insert .deleted r.flags, modseq := m.modseq.next } found
              m.modseq.next
            simp only [markUnsaved, Unsaved.mark_mark] at hwrite
            exact ((ReflTransGen.single haside).tail hqueue).tail hwrite

theorem noted_settleRemoval (p : Message → Bool) (m : Mailbox) {pending : OrderedSet Uid}
    (left : ∀ uid, (uid ∈ pending ∧ ∀ r ∈ (m.store.removeWhere p).1, r.uid ≠ uid) ↔
      uid ∈ m.pending ∧ ∀ r ∈ (m.store.removeWhere p).1, r.uid ≠ uid)
    (h : (m.store.removeWhere p).1 = [] → pending = m.pending) :
    ReflTransGen (Noted lax) m
      (settleRemoval (m.store.removeWhere p).1
        { m with store := (m.store.removeWhere p).2, pending }).2 := by
  unfold settleRemoval
  split
  · next hempty =>
    rw [MessageStore.removeWhere_of_isEmpty hempty, h (List.isEmpty_iff.1 hempty)]
  · next hsome =>
    have hne : (m.store.removeWhere p).1 ≠ [] := fun heq => hsome (List.isEmpty_iff.2 heq)
    rw [noteRemoved_eq]
    simp only [settle_foldl, advance]
    generalize (noteRemoved _ _).journal? = journal?
    have haside : Noted lax m { m with journal?, summary? := none } := .aside journal? none
    refine (ReflTransGen.single haside).tail
      (.remove (m := { m with journal?, summary? := none }) p (fun uid => ?_) hne m.modseq.next)
    rw [mem_foldl_erase]
    exact left uid

theorem noted_expunge (m : Mailbox) : ReflTransGen (Noted lax) m m.expunge.2 :=
  noted_settleRemoval (fun r => Flags.isDeleted r.flags) m (fun _ => Iff.rfl) fun _ => rfl

theorem noted_flushPending (h : m.Queued) :
    ReflTransGen (Noted lax) m m.flushPending.2 := by
  unfold flushPending
  split
  · exact .refl
  · next hsome =>
    have hmem {uid : Uid} (huid : uid ∈ m.pending) :
        ∃ r ∈ (m.store.removeWhere fun r => decide (r.uid ∈ m.pending)).1, r.uid = uid := by
      obtain ⟨r, hr, rfl⟩ := h uid huid
      exact ⟨r, MessageStore.mem_removed.2 ⟨hr, decide_eq_true huid⟩, rfl⟩
    refine noted_settleRemoval (fun r => decide (r.uid ∈ m.pending)) m ?_ ?_
    · intro uid
      simp only [OrderedSet.mem_empty, false_and, false_iff, not_and]
      intro huid hnone
      obtain ⟨r, hr, hu⟩ := hmem huid
      exact hnone r hr hu
    · intro hnone
      refine (hsome (OrderedSet.isEmpty_iff.2 (OrderedSet.ext fun uid => ?_))).elim
      simp only [OrderedSet.mem_empty, iff_false]
      intro huid
      obtain ⟨r, hr, _⟩ := hmem huid
      rw [hnone] at hr
      cases hr

theorem noted_clearRecentOf (uid : Uid) (m : Mailbox) :
    ReflTransGen (Noted lax) m (clearRecentOf m uid) := by
  obtain ⟨journal?, hnote⟩ := note_eq_aside uid m
  have haside : Noted lax m { m with journal? } := .aside journal? m.summary?
  unfold clearRecentOf
  rw [hnote]
  dsimp only
  split
  · exact .single haside
  · next r found =>
    have hu := uid_of_found found
    subst hu
    exact (ReflTransGen.single haside).tail (.write (m := { m with journal? })
      (r := { r with flags := Flags.withoutRecent r.flags }) found m.modseq)

theorem noted_clearRecent (p : Uid → Bool) (m : Mailbox) :
    ReflTransGen (Noted lax) m (m.clearRecent p).2 := by
  have hall (uids : List Uid) (m : Mailbox) :
      ReflTransGen (Noted lax) m (uids.foldl clearRecentOf m) := by
    induction uids generalizing m with
    | nil => exact .refl
    | cons uid rest ih => exact (noted_clearRecentOf uid m).trans (ih _)
  unfold clearRecent
  dsimp only
  generalize List.map _ _ = uids
  split
  · exact hall uids m
  · exact (hall uids m).tail (.aside _ none)

theorem noted_raiseUidNext (m : Mailbox) : ReflTransGen (Noted lax) m m.raiseUidNext := by
  unfold raiseUidNext
  split
  · exact .refl
  · next greatest _ =>
    exact (ReflTransGen.single (.aside m.journal? none)).tail
      (.head (m := { m with summary? := none }) (m.uids.raiseAbove greatest) m.cursor)

theorem noted_commit (m : Mailbox) : ReflTransGen (Noted lax) m m.commit := by
  unfold commit
  split
  · exact .refl
  · exact .single (.aside m.journal? _)

theorem noted_invalidate (now : Instant) (m : Mailbox) :
    ReflTransGen (Noted lax) m (m.invalidate now).2 := by
  unfold invalidate
  dsimp only
  rw [noteStore_eq]
  generalize (noteStore _).journal? = journal?
  exact (ReflTransGen.single (.aside journal? none)).tail
    (.renew (m := { m with journal?, summary? := none }) (m.uids.renew now) m.modseq.next)

theorem noted_setCursor (cursor : Option String) (m : Mailbox) :
    ReflTransGen (Noted lax) m (m.setCursor cursor) := by
  unfold setCursor
  split
  · exact .refl
  · exact .single (.head m.uids cursor)

/-- An edit that does not stray notes all that it changes of what is saved. -/
theorem noted_apply (hqueued : m.Queued) {e : Edit} (h : lax ∨ ¬ e.Strays m) :
    ReflTransGen (Noted lax) m (e.apply m) := by
  cases e with
  | receive content => exact noted_receive h
  | setFlags now uid delta mode => exact noted_setFlags now uid delta mode m
  | mergeFlags id flags taken => exact noted_mergeFlags id flags taken m
  | markRemoved id => exact noted_markRemoved h
  | expunge => exact noted_expunge m
  | flushPending => exact noted_flushPending hqueued
  | clearRecent p => exact noted_clearRecent p m
  | raiseUidNext => exact noted_raiseUidNext m
  | commit => exact noted_commit m
  | invalidate now => exact noted_invalidate now m
  | setCursor cursor => exact noted_setCursor cursor m
  | takeUnsaved =>
      rcases h with hlax | hnot
      · exact .single (.slip hlax m.uids m.modseq {})
      · exact absurd trivial hnot

theorem Noted.queued_of_steps (hd : m.store.Distinct) (h : m.Queued)
    (s : ReflTransGen (Noted lax) m m') : m'.store.Distinct ∧ m'.Queued := by
  induction s with
  | refl => exact ⟨hd, h⟩
  | tail _ s ih => exact ⟨s.distinct ih.1, s.queued ih.2⟩

theorem Queued.editAll (hd : m.store.Distinct) (h : m.Queued) (edits : List Edit) :
    (m.editAll edits).Queued := by
  induction edits generalizing m with
  | nil => exact h
  | cons e rest ih =>
      have hsteps : ReflTransGen (Noted True) m (e.apply m) := noted_apply h (.inl trivial)
      obtain ⟨hd', h'⟩ := Noted.queued_of_steps hd h hsteps
      exact ih hd' h'

end Mailbox

end MailBridge

import MailBridge.Proofs.Sessions

/-! # After a poll the view shows the mailbox

A poll never compares the view with the mailbox as a whole. As the view follows the mailbox, it
shows the mailbox after a poll all the same, up to the marks of recent messages, and what was
reported is just what had changed. A poll right after it finds nothing more, unless messages wait to
be expunged that the first one has left where they are.
-/

namespace MailBridge

open SharedMailbox Snapshot

/-- What a view is to show of a message. -/
def Message.state (r : Message) : Uid × Flags × ModSeq :=
  (r.uid, Flags.withoutRecent r.flags, r.modseq)

def SnapshotEntry.state (e : SnapshotEntry) : Uid × Flags × ModSeq :=
  (e.uid, Flags.withoutRecent e.flags, e.modseq)

namespace Mailbox

variable {m m' m'' : Mailbox}

/-- The mailboxes are alike but for the marks of recent messages and what is kept beside the
messages. -/
structure Alike (m m' : Mailbox) : Prop where
  messages : m'.store.messages.map Message.state = m.store.messages.map Message.state
  uids : m'.uids = m.uids
  modseq : m'.modseq = m.modseq
  pending : m'.pending = m.pending

theorem Alike.refl (m : Mailbox) : m.Alike m := ⟨rfl, rfl, rfl, rfl⟩

theorem Alike.trans (h : m.Alike m') (h' : m'.Alike m'') : m.Alike m'' where
  messages := h'.messages.trans h.messages
  uids := h'.uids.trans h.uids
  modseq := h'.modseq.trans h.modseq
  pending := h'.pending.trans h.pending

theorem distinct_iff {store : MessageStore} : store.Distinct ↔
    (store.messages.map Message.state).Pairwise fun a b => a.1.val < b.1.val := by
  rw [List.pairwise_map]
  rfl

theorem Alike.distinct (h : m.Alike m') (hd : m.store.Distinct) : m'.store.Distinct := by
  rw [distinct_iff, h.messages]
  exact distinct_iff.1 hd

theorem state_get? (hd : m.store.Distinct) {uid : Uid} {t : Uid × Flags × ModSeq} :
    (m.get? uid).map Message.state = some t ↔
      t ∈ m.store.messages.map Message.state ∧ t.1 = uid := by
  rw [Option.map_eq_some_iff, List.mem_map]
  constructor
  · rintro ⟨r, hr, rfl⟩
    obtain ⟨hmem, hu⟩ := (MessageStore.get?_eq_some hd).1 hr
    exact ⟨⟨r, hmem, rfl⟩, hu⟩
  · rintro ⟨⟨r, hr, rfl⟩, hu⟩
    exact ⟨r, (MessageStore.get?_eq_some hd).2 ⟨hr, hu⟩, rfl⟩

theorem Alike.get? (h : m.Alike m') (hd : m.store.Distinct) (uid : Uid) :
    (m'.get? uid).map Message.state = (m.get? uid).map Message.state := by
  refine Option.ext fun t => ?_
  rw [state_get? hd, state_get? (h.distinct hd), h.messages]

theorem Alike.exists_message (h : m.Alike m') {r : Message} (hr : r ∈ m.store.messages) :
    ∃ r' ∈ m'.store.messages, r'.uid = r.uid ∧
      Flags.withoutRecent r'.flags = Flags.withoutRecent r.flags := by
  have hleft := List.mem_map_of_mem (f := Message.state) hr
  rw [← h.messages] at hleft
  obtain ⟨r', hr', hstate⟩ := List.mem_map.1 hleft
  exact ⟨r', hr', congrArg Prod.fst hstate, congrArg (·.2.1) hstate⟩

theorem alike_clearRecentOf (hd : m.store.Distinct) (uid : Uid) :
    m.Alike (clearRecentOf m uid) := by
  obtain ⟨huids, hmodseq, hpending⟩ : (clearRecentOf m uid).uids = m.uids ∧
      (clearRecentOf m uid).modseq = m.modseq ∧ (clearRecentOf m uid).pending = m.pending := by
    unfold clearRecentOf
    dsimp only
    split <;> exact note_eq .. ▸ ⟨rfl, rfl, rfl⟩
  refine ⟨?_, huids, hmodseq, hpending⟩
  rw [messages_clearRecentOf hd uid, List.map_map]
  refine List.map_congr_left fun r _ => ?_
  rw [Function.comp_apply]
  split
  · exact congrArg (fun flags => (r.uid, flags, r.modseq)) (OrderedSet.erase_erase ..)
  · rfl

theorem alike_clearRecent (hd : m.store.Distinct) (p : Uid → Bool) :
    m.Alike (m.clearRecent p).2 := by
  have hall (uids : List Uid) : ∀ m : Mailbox, m.store.Distinct →
      m.Alike (uids.foldl clearRecentOf m) := by
    induction uids with
    | nil => exact fun m _ => .refl m
    | cons uid rest ih =>
        intro m hd
        have hone := alike_clearRecentOf hd uid
        exact hone.trans (ih _ (hone.distinct hd))
  unfold clearRecent
  dsimp only
  split
  · exact hall _ m hd
  · obtain ⟨hmessages, huids, hmodseq, hpending⟩ := hall _ m hd
    exact ⟨hmessages, huids, hmodseq, hpending⟩

/-- The message of the entry has other flags, the mark of a recent message apart. -/
def contradicts (m : Mailbox) (e : SnapshotEntry) : Bool :=
  (m.get? e.uid).any fun r => decide (Flags.withoutRecent e.flags ≠ Flags.withoutRecent r.flags)

theorem Alike.contradicts (h : m.Alike m') (hd : m.store.Distinct) (e : SnapshotEntry) :
    m'.contradicts e = m.contradicts e := by
  have hany (m : Mailbox) : m.contradicts e = ((m.get? e.uid).map Message.state).any fun t =>
      decide (Flags.withoutRecent e.flags ≠ t.2.1) := by
    rw [Option.any_map]
    rfl
  rw [hany, hany, h.get? hd]

end Mailbox

/-- The view shows the messages of the mailbox, each with its flags, the mark of a recent message
apart. -/
def Snapshot.Shows (s : Snapshot) (m : Mailbox) : Prop :=
  s.entries.map (fun e => (e.uid, Flags.withoutRecent e.flags)) =
    m.store.messages.map fun r => (r.uid, Flags.withoutRecent r.flags)

/-! ## The first poll -/

namespace Mailbox

variable {s : Snapshot} {m : Mailbox}

theorem state_caughtUp (hasc : Ascending SnapshotEntry.uid s.entries) (hd : m.store.Distinct)
    (hseen : ∀ r ∈ m.store.messages,
      (∃ e ∈ s.entries, e.uid = r.uid) ∨ ∀ e ∈ s.entries, e.uid.val < r.uid.val)
    (hprecedes : ∀ e ∈ s.entries, ∀ r ∈ m.store.messages, r.uid = e.uid → e.Precedes r) :
    (m.caughtUp s).map SnapshotEntry.state = m.store.messages.map Message.state := by
  have hentries : Ascending Prod.fst ((m.caughtUp s).map SnapshotEntry.state) :=
    (ascending_caughtUp hasc hd).map fun _ _ => rfl
  have hmessages : Ascending Prod.fst (m.store.messages.map Message.state) :=
    Ascending.map hd fun _ _ => rfl
  have hsame {e : SnapshotEntry} (he : e ∈ m.caughtUp s) {r : Message}
      (hr : r ∈ m.store.messages) (hu : r.uid = e.uid) : e.state = r.state := by
    obtain ⟨hmodseq, hflags⟩ := agrees_caughtUp hd hprecedes he hr hu
    rw [SnapshotEntry.state, Message.state, hmodseq, hflags, hu]
  refine hentries.ext hmessages fun t => ?_
  rw [List.mem_map, List.mem_map]
  constructor
  · rintro ⟨e, he, rfl⟩
    have hmessage : ∃ r ∈ m.store.messages, r.uid = e.uid := by
      rcases mem_caughtUp hd he with ⟨x, _, r, hr, hu, rfl⟩ | ⟨r, hr, rfl⟩
      · exact ⟨r, hr, hu.trans (refresh_uid m x).symm⟩
      · exact ⟨r, hr, rfl⟩
    obtain ⟨r, hr, hu⟩ := hmessage
    exact ⟨r, hr, (hsame he hr hu).symm⟩
  · rintro ⟨r, hr, rfl⟩
    obtain ⟨e, he, hu⟩ := exists_caughtUp hasc hd hr (hseen r hr)
    exact ⟨e, he, hsame he hr hu.symm⟩

/-- The later modification sequence of a message gives away that its flags have been changed. -/
theorem differs_eq_contradicts (hd : m.store.Distinct) {e : SnapshotEntry}
    (hprecedes : ∀ r ∈ m.store.messages, r.uid = e.uid → e.Precedes r) :
    m.differs e = m.contradicts e := by
  unfold differs newer? contradicts
  cases hget : m.get? e.uid with
  | none => rfl
  | some r =>
      obtain ⟨hr, hu⟩ := (MessageStore.get?_eq_some hd).1 hget
      rw [Option.filter_some]
      split
      · simp [SnapshotEntry.adopt_eq_iff]
      · next hlt =>
        have hle : r.modseq.val ≤ e.modseq.val := by simpa using hlt
        simp [(hprecedes r hr hu).flags hle]

end Mailbox

/-! ## The second poll -/

namespace Snapshot

theorem removeWhere_none {s : Snapshot} {gone : Uid → Bool}
    (h : ∀ e ∈ s.entries, gone e.uid = false) : s.removeWhere gone = ([], s) := by
  have hremoved : ∀ (l : List SnapshotEntry), (∀ e ∈ l, gone e.uid = false) → ∀ i,
      removedFrom gone i l = [] := by
    intro l hl
    induction l with
    | nil => exact fun _ => rfl
    | cons e rest ih =>
        obtain ⟨he, hrest⟩ := List.forall_mem_cons.1 hl
        intro i
        simp [removedFrom, he, ih hrest]
  have hkept : s.entries.filter (fun e => !gone e.uid) = s.entries :=
    List.filter_eq_self.2 fun e he => by rw [h e he]; rfl
  rw [removeWhere, hremoved _ h, hkept]

section ShowsState

variable {s : Snapshot} {m : Mailbox}

theorem get?_of_state (hd : m.store.Distinct)
    (hstate : s.entries.map SnapshotEntry.state = m.store.messages.map Message.state)
    {e : SnapshotEntry} (he : e ∈ s.entries) :
    ∃ r, m.get? e.uid = some r ∧ r.modseq = e.modseq := by
  have hmem : e.state ∈ m.store.messages.map Message.state := by
    rw [← hstate]
    exact List.mem_map_of_mem he
  obtain ⟨r, hr, hsame⟩ := List.mem_map.1 hmem
  exact ⟨r, (MessageStore.get?_eq_some hd).2 ⟨hr, congrArg Prod.fst hsame⟩,
    congrArg (·.2.2) hsame⟩

theorem isNew_of_state (hasc : Ascending SnapshotEntry.uid s.entries)
    (hstate : s.entries.map SnapshotEntry.state = m.store.messages.map Message.state)
    {r : Message} (hr : r ∈ m.store.messages) : s.isNew r.uid = false := by
  have hmem : r.state ∈ s.entries.map SnapshotEntry.state := by
    rw [hstate]
    exact List.mem_map_of_mem hr
  obtain ⟨e, he, hsame⟩ := List.mem_map.1 hmem
  have huid : e.uid = r.uid := congrArg Prod.fst hsame
  rw [Bool.eq_false_iff, Ne, isNew_iff hasc]
  intro habove
  have := habove e he
  rw [huid] at this
  exact Nat.lt_irrefl _ this

/-- A view that shows the state of all messages has missed nothing. -/
theorem catchUp_of_state (hd : m.store.Distinct) (hasc : Ascending SnapshotEntry.uid s.entries)
    (hstate : s.entries.map SnapshotEntry.state = m.store.messages.map Message.state)
    (hmodseq : s.modseq = m.modseq) : s.catchUp (m.changesSince s) = ({}, s) := by
  have hvanished : (m.changesSince s).vanished = [] := by
    show (s.entries.filter _).map _ = []
    rw [List.filter_eq_nil_iff.2, List.map_nil]
    intro e he
    obtain ⟨r, hr, _⟩ := get?_of_state hd hstate he
    simp [hr]
  have hchanged : (m.changesSince s).changed = [] := by
    refine List.filterMap_eq_nil_iff.2 fun e he => ?_
    obtain ⟨r, hr, hsame⟩ := get?_of_state hd hstate he
    simp [hr, hsame]
  have happended : (m.changesSince s).appended = [] := by
    show (m.store.messages.filter _).map _ = []
    rw [List.filter_eq_nil_iff.2, List.map_nil]
    intro r hr
    rw [isNew_of_state hasc hstate hr]
    exact Bool.false_ne_true
  unfold catchUp
  rw [hvanished, hchanged, happended, removeWhere_none fun _ _ => rfl]
  simp only [adoptAll, List.foldl_nil, List.filterMap_nil, List.isEmpty_nil, if_true]
  rw [show (m.changesSince s).modseq = s.modseq from hmodseq.symm]

end ShowsState

end Snapshot

namespace Selection

variable {m m' : SharedMailbox} {s : Selection} {b : Mailbox} {changes : Bool}

theorem poll_of_state (hd : m.mailbox.store.Distinct)
    (hasc : Ascending SnapshotEntry.uid s.snapshot.entries)
    (hstate : s.snapshot.entries.map SnapshotEntry.state =
      m.mailbox.store.messages.map Message.state)
    (hmodseq : s.snapshot.modseq = m.mailbox.modseq)
    (hvalidity : s.snapshot.validity = m.mailbox.uids.validity)
    (hpending : m.mailbox.pending.isEmpty = true) : s.poll m = s.stay (.ok {}) m := by
  have hquiet : s.pollChanges m.mailbox = false := by
    unfold pollChanges
    rw [hpending, List.any_eq_false.2 fun r hr => by simp [Snapshot.isNew_of_state hasc hstate hr]]
    simp
  unfold poll tell
  rw [hquiet]
  simp only [Bool.false_eq_true, if_false]
  rw [Snapshot.catchUp_of_state hd hasc hstate hmodseq,
    show (m.mailbox.changesSince s.snapshot).validity = s.snapshot.validity from hvalidity.symm,
    if_pos rfl]

theorem LooksAt.spec (h : s.LooksAt m changes b m') (hd : b.store.Distinct) :
    b.uids = m.mailbox.uids ∧ (∀ r ∈ b.store.messages, r ∈ m.mailbox.store.messages) ∧
      b.Alike m'.mailbox ∧
      m'.mailbox.pending.isEmpty = (changes || m.mailbox.pending.isEmpty) := by
  cases h with
  | still => exact ⟨rfl, fun _ hr => hr, .refl _, rfl⟩
  | changed leads left =>
      obtain ⟨huids, hpending, hsub⟩ := Mailbox.flushed_spec m.mailbox.startJournal
      have halike : m.mailbox.startJournal.flushPending.2.Alike m'.mailbox := by
        rw [left, Mailbox.kept_eq]
        unfold clearing
        split
        · exact ⟨rfl, rfl, rfl, rfl⟩
        · obtain ⟨hmessages, huids, hmodseq, hpending⟩ :=
            Mailbox.alike_clearRecent hd s.snapshot.isNew
          exact ⟨hmessages, huids, hmodseq, hpending⟩
      exact ⟨huids, hsub, halike, by rw [halike.pending, hpending, Bool.true_or]⟩

theorem pollChanges_or_pending (b : Mailbox) (s : Selection) :
    (s.pollChanges b || b.pending.isEmpty) = true := by
  cases hpending : b.pending.isEmpty <;> simp [pollChanges, hpending]

/-- Messages still wait to be expunged after a poll only if its second look changes nothing. -/
theorem pending_tell (hm : m.mailbox.Sound True True) {report : PollReport}
    (hanswer : (s.tell changes m).answer = .ok report) :
    (s.tell changes m).mailbox.mailbox.pending.isEmpty =
      (changes || m.mailbox.pending.isEmpty) := by
  rcases tell_cases changes m s with ⟨e, m', _, _, heq⟩ | ⟨b, m', hlooks, heq⟩
  · rw [heq] at hanswer
    cases hanswer
  · obtain ⟨_, _, _, hpending⟩ := hlooks.spec (hlooks.sound hm).1.distinct
    rw [heq]
    unfold Selection.report
    split <;> exact hpending

section Current

variable (hlooks : s.LooksAt m changes b m') (hm : m.mailbox.Sound True True)
  (hs : s.snapshot.Follows True True m.mailbox) (hmodseq : m.mailbox.modseq.val < maxLong)
  (hvalidity : m.mailbox.uids.validity.val < maxWord)
  (hcurrent : b.uids.validity = s.snapshot.validity)

include hlooks hm hs hmodseq hvalidity hcurrent

theorem LooksAt.precedes : ∀ e ∈ s.snapshot.entries, ∀ r ∈ b.store.messages, r.uid = e.uid →
    e.Precedes r := by
  obtain ⟨huids, hsub, _, _⟩ := hlooks.spec (hlooks.sound hm).1.distinct
  have hnow : s.snapshot.Current m.mailbox := ⟨by rw [← huids, hcurrent], hvalidity⟩
  have hreflects := hs.reflects trivial trivial hnow hmodseq
  exact fun e he r hr => hreflects.precedes e he r (hsub r hr)

theorem LooksAt.state : (b.caughtUp s.snapshot).map SnapshotEntry.state =
    m'.mailbox.store.messages.map Message.state := by
  have hd := (hlooks.sound hm).1.distinct
  obtain ⟨huids, hsub, halike, _⟩ := hlooks.spec hd
  have hnow : s.snapshot.Current m.mailbox := ⟨by rw [← huids, hcurrent], hvalidity⟩
  have hcovers := hs.covers trivial hnow
  have hprecedes := hlooks.precedes hm hs hmodseq hvalidity hcurrent
  have hstate := Mailbox.state_caughtUp hs.ascending hd
    (fun r hr => hcovers.seen r (hsub r hr)) hprecedes
  exact hstate.trans halike.messages.symm

end Current

/-- What the second look of a poll does to a view that follows the mailbox. -/
theorem tell_spec (hm : m.mailbox.Sound True True) (hs : s.snapshot.Follows True True m.mailbox)
    (hmodseq : m.mailbox.modseq.val < maxLong) (hvalidity : m.mailbox.uids.validity.val < maxWord)
    {report : PollReport} (hanswer : (s.tell changes m).answer = .ok report)
    (hvalid : report.invalidated = false) :
    ∃ s', (s.tell changes m).selection? = some s' ∧
      s'.snapshot.Shows (s.tell changes m).mailbox.mailbox ∧
      report.flagged.map (·.uid) =
        (s.snapshot.entries.filter (s.tell changes m).mailbox.mailbox.contradicts).map (·.uid) ∧
      ((changes || m.mailbox.pending.isEmpty) = true →
        s'.poll (s.tell changes m).mailbox = s'.stay (.ok {}) (s.tell changes m).mailbox) := by
  rcases tell_cases changes m s with ⟨e, m', _, _, heq⟩ | ⟨b, m', hlooks, heq⟩
  · rw [heq] at hanswer
    cases hanswer
  · rw [heq] at hanswer ⊢
    unfold Selection.report at hanswer ⊢
    split at hanswer
    · next hcurrent =>
      cases hanswer
      rw [if_pos hcurrent]
      -- the poll looks at `b` and leaves `m'`, which is like it but for recent messages
      have hd := (hlooks.sound hm).1.distinct
      obtain ⟨_, _, halike, hpending⟩ := hlooks.spec hd
      have hstate := hlooks.state hm hs hmodseq hvalidity hcurrent
      have hprecedes := hlooks.precedes hm hs hmodseq hvalidity hcurrent
      obtain ⟨hview, _, hflagged, _⟩ := Mailbox.catchUp_spec (m := b) hs.ascending hd
      refine ⟨_, rfl, ?_, ?_, fun hsettled => ?_⟩
      · have hshown := congrArg (List.map fun t => (t.1, t.2.1)) hstate
        rw [List.map_map, List.map_map] at hshown
        rw [hview]
        exact hshown
      · rw [hflagged]
        congr 1
        refine List.filter_congr fun e he => ?_
        exact (Mailbox.differs_eq_contradicts hd (hprecedes e he)).trans
          (halike.contradicts hd e).symm
      · have hagain := poll_of_state (m := m')
          (s := { s with snapshot := (s.snapshot.catchUp (b.changesSince s.snapshot)).2 })
          (halike.distinct hd)
        dsimp only at hagain
        rw [hview] at hagain ⊢
        exact hagain (Mailbox.ascending_caughtUp hs.ascending hd) hstate halike.modseq.symm
          (hcurrent.symm.trans (congrArg UidSpace.validity halike.uids.symm))
          (hpending.trans hsettled)
    · cases hanswer
      cases hvalid

end Selection

namespace Attended

theorem act_poll {w : Attended} {client : String} {selection : Selection}
    (h : w.selections.get? client = some selection) : w.act (.request client .poll) =
      ((selection.poll w.mailbox).answer.map Response.missed,
        ⟨(selection.poll w.mailbox).mailbox,
          keep client w.selections (selection.poll w.mailbox).selection?⟩) := by
  simp only [act, h]
  rfl

end Attended

end MailBridge

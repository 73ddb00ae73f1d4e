import MailBridge.Proofs.Lineage

/-! # What the journal keeps

While a change is under way, the journal with the present store still tells for each UID which
message had it when the change began. Putting the kept messages back therefore restores all
messages, whatever edits were made.
-/

namespace MailBridge

namespace MessageStore

theorem get?_reinstate {s : MessageStore} (h : s.Distinct) (m : Message) (uid : Uid) :
    (s.reinstate m).get? uid = if uid = m.uid then some m else s.get? uid := by
  split
  · next heq =>
    rw [heq]
    exact get?_of_mem (h.reinstate m) ((mem_reinstate h).2 (.inl rfl))
  · next hne =>
    refine get?_congr (h.reinstate m) h fun x hx => ?_
    have hxm : x ≠ m := fun heq => hne (by rw [← hx, heq])
    have hxu : x.uid ≠ m.uid := fun heq => hne (hx.symm.trans heq)
    simp [mem_reinstate h, hxm, hxu]

theorem get?_remove {s : MessageStore} (h : s.Distinct) (gone uid : Uid) :
    (s.remove gone).get? uid = if uid = gone then none else s.get? uid := by
  split
  · next heq =>
    rw [get?_eq_none (h.remove gone), heq]
    exact fun x hx => ((mem_remove h).1 hx).2
  · next hne =>
    refine get?_congr (h.remove gone) h fun x hx => ?_
    have hxu : x.uid ≠ gone := fun heq => hne (hx.symm.trans heq)
    simp [mem_remove h, hxu]

end MessageStore

open MessageStore

namespace Mailbox

/-! ## Putting messages back -/

/-- A kept message is kept under its own UID. -/
def KeptAt (entry : Uid × Option Message) : Prop := ∀ r, entry.2 = some r → r.uid = entry.1

theorem distinct_putBack {s : MessageStore} (h : s.Distinct) (entry : Uid × Option Message) :
    (putBack s entry).Distinct := by
  unfold putBack
  split
  · exact h.reinstate _
  · exact h.remove _

theorem get?_putBack {s : MessageStore} (h : s.Distinct) {entry : Uid × Option Message}
    (hkept : KeptAt entry) (uid : Uid) :
    (putBack s entry).get? uid = if uid = entry.1 then entry.2 else s.get? uid := by
  unfold putBack
  split
  · next r hr => rw [get?_reinstate h, hkept r hr, hr]
  · next hnone => rw [get?_remove h, hnone]

theorem foldl_putBack {l : List (Uid × Option Message)} {s : MessageStore} (h : s.Distinct)
    (hl : (l.map (·.1)).Nodup) (hkept : ∀ entry ∈ l, KeptAt entry) :
    (l.foldl putBack s).Distinct ∧ (∀ entry ∈ l, (l.foldl putBack s).get? entry.1 = entry.2) ∧
      ∀ uid, uid ∉ l.map (·.1) → (l.foldl putBack s).get? uid = s.get? uid := by
  induction l generalizing s with
  | nil => simpa using h
  | cons entry rest ih =>
      obtain ⟨hentry, hrest⟩ := List.nodup_cons.1 hl
      obtain ⟨hkept, hkeptRest⟩ := List.forall_mem_cons.1 hkept
      obtain ⟨hdistinct, hmem, hother⟩ := ih (distinct_putBack h entry) hrest hkeptRest
      refine ⟨hdistinct, ?_, ?_⟩
      · intro e he
        rcases List.mem_cons.1 he with rfl | he
        · rw [List.foldl_cons, hother _ hentry, get?_putBack h hkept, if_pos rfl]
        · exact hmem e he
      · intro uid huid
        rw [List.map_cons, List.mem_cons, not_or] at huid
        rw [List.foldl_cons, hother uid huid.2, get?_putBack h hkept, if_neg huid.1]

end Mailbox

/-! ## What a journal recalls -/

namespace Journal

/-- The messages that the kept ones are put back into: those that were dropped, if a new epoch
began, and else the present ones. -/
def base (j : Journal) (store : MessageStore) : MessageStore := j.store?.getD store

/-- The message that a UID has once the kept messages have been put back. -/
def before? (j : Journal) (store : MessageStore) (uid : Uid) : Option Message :=
  (j.messages.get? uid).getD ((j.base store).get? uid)

theorem base_of_none {j : Journal} (h : j.store? = none) (store : MessageStore) :
    j.base store = store := by rw [base, h, Option.getD_none]

theorem base_of_some {j : Journal} {kept : MessageStore} (h : j.store? = some kept)
    (store : MessageStore) : j.base store = kept := by rw [base, h, Option.getD_some]

end Journal

namespace Mailbox

/-- The journal with which a change of the mailbox begins. -/
def begun (m : Mailbox) : Journal :=
  { uids := m.uids, modseq := m.modseq, cursor := m.cursor, pending := m.pending,
    summary? := m.summary?, unsaved := m.unsaved }

/-- The journal, with the present store, tells what the mailbox was when the change began. -/
structure Recalls (start : Mailbox) (store : MessageStore) (j : Journal) : Prop where
  header : j = { start.begun with messages := j.messages, store? := j.store? }
  distinct : (j.base store).Distinct
  before : ∀ uid, j.before? store uid = start.store.get? uid

theorem get?_foldl_insertIfNew (l : List Message) (kept : OrderedMap Uid (Option Message))
    (uid : Uid) :
    (l.foldl (fun kept message => kept.insertIfNew message.uid (some message)) kept).get? uid =
      (kept.get? uid).or ((l.find? fun message => message.uid = uid).map some) := by
  induction l generalizing kept with
  | nil => simp
  | cons a rest ih =>
      rw [List.foldl_cons, ih, OrderedMap.get?_insertIfNew]
      by_cases ha : uid = a.uid
      · subst ha
        cases kept.get? a.uid <;> simp
      · simp [ha, Ne.symm ha]

namespace Recalls

variable {start : Mailbox} {store store' : MessageStore} {j : Journal}

theorem begun (h : start.store.Distinct) : Recalls start start.store start.begun where
  header := rfl
  distinct := h
  before _ := rfl

/-- Once a new epoch has begun, the present store does not count. -/
theorem of_isSome (h : Recalls start store j) (hsome : j.store?.isSome = true) :
    Recalls start store' j := by
  obtain ⟨kept, hkept⟩ := Option.isSome_iff_exists.1 hsome
  have hbase : j.base store' = j.base store := by
    rw [Journal.base_of_some hkept, Journal.base_of_some hkept]
  refine ⟨h.header, by rw [hbase]; exact h.distinct, fun uid => ?_⟩
  rw [← h.before, Journal.before?, hbase, Journal.before?]

theorem keep {kept : OrderedMap Uid (Option Message)} (h : Recalls start store j)
    (hnone : j.store? = none) (hd : store'.Distinct)
    (hkept : ∀ uid, (kept.get? uid).getD (store'.get? uid) =
      (j.messages.get? uid).getD (store.get? uid)) :
    Recalls start store' { j with messages := kept } := by
  have hbase : ({ j with messages := kept } : Journal).base store' = store' :=
    Journal.base_of_none hnone store'
  refine ⟨by rw [h.header], by rwa [hbase], fun uid => ?_⟩
  rw [← h.before, Journal.before?, hbase, Journal.before?, Journal.base_of_none hnone]
  exact hkept uid

theorem keepOne (h : Recalls start store j) (hnone : j.store? = none) (hd : store'.Distinct)
    {uid : Uid} (hframe : ∀ other, other ≠ uid → store'.get? other = store.get? other) :
    Recalls start store' { j with messages := j.messages.insertIfNew uid (store.get? uid) } := by
  refine h.keep hnone hd fun other => ?_
  rw [OrderedMap.get?_insertIfNew]
  split
  · next heq =>
    subst heq
    cases j.messages.get? other <;> rfl
  · next hne => rw [hframe other hne]

theorem keepRemoved (h : Recalls start store j) (hnone : j.store? = none) (hd : store.Distinct)
    (p : Message → Bool) :
    Recalls start (store.removeWhere p).2
      { j with
        messages := (store.removeWhere p).1.foldl
          (fun kept message => kept.insertIfNew message.uid (some message)) j.messages } := by
  refine h.keep hnone (hd.removeWhere p) fun uid => ?_
  rw [get?_foldl_insertIfNew]
  cases j.messages.get? uid with
  | some _ => rfl
  | none =>
      cases hfind : (store.removeWhere p).1.find? fun message => message.uid = uid with
      | some r =>
          have hr := (mem_removed.1 (List.mem_of_find?_eq_some hfind)).1
          have hu : r.uid = uid := by simpa using List.find?_some hfind
          simp [(get?_eq_some hd).2 ⟨hr, hu⟩]
      | none =>
          -- the UID is of no message that goes
          have hno : ∀ r ∈ (store.removeWhere p).1, r.uid ≠ uid := by simpa using hfind
          simp only [Option.map_none, Option.or_none, Option.getD_none]
          refine get?_congr (hd.removeWhere p) hd fun r hr => ?_
          rw [mem_removeWhere]
          refine ⟨And.left, fun hmem => ⟨hmem, ?_⟩⟩
          cases hp : p r with
          | false => rfl
          | true => exact absurd hr (hno r (mem_removed.2 ⟨hmem, hp⟩))

theorem keepAll (h : Recalls start store j) (hnone : j.store? = none) :
    Recalls start store' { j with store? := some store } := by
  have hd := h.distinct
  rw [Journal.base_of_none hnone] at hd
  refine ⟨by rw [h.header], hd, fun uid => ?_⟩
  rw [← h.before, Journal.before?, Journal.before?, Journal.base_of_none hnone]
  rfl

end Recalls

section Keeping

variable {m : Mailbox} {j : Journal} (hj : m.journal? = some j)

include hj

/-- A message is kept when it is first touched, unless all messages are kept already. -/
theorem note_cases (uid : Uid) :
    j.store?.isSome = true ∧ (m.note uid).journal? = some j ∨
      j.store? = none ∧ (m.note uid).journal? = some
        { j with messages := j.messages.insertIfNew uid (m.store.get? uid) } := by
  unfold note
  cases hstore : j.store? <;> simp [hj, hstore]

theorem noteRemoved_cases (removed : List Message) :
    j.store?.isSome = true ∧ (m.noteRemoved removed).journal? = some j ∨
      j.store? = none ∧ (m.noteRemoved removed).journal? = some
        { j with
          messages := removed.foldl
            (fun kept message => kept.insertIfNew message.uid (some message)) j.messages } := by
  unfold noteRemoved
  cases hstore : j.store? <;> simp [hj, hstore]

theorem noteStore_cases :
    j.store?.isSome = true ∧ m.noteStore.journal? = some j ∨
      j.store? = none ∧ m.noteStore.journal? = some { j with store? := some m.store } := by
  unfold noteStore
  cases hstore : j.store? <;> simp [hj, hstore]

end Keeping

/-- The change can be taken back, which makes the mailbox what it was at the start. -/
def Undoable (start m : Mailbox) : Prop :=
  m.name = start.name ∧ ∃ j, m.journal? = some j ∧ Recalls start m.store j

namespace Undoable

variable {start m m' : Mailbox}

theorem startJournal (h : m.store.Distinct) : Undoable m m.startJournal :=
  ⟨rfl, m.begun, rfl, .begun h⟩

theorem congr (h : Undoable start m) (hname : m'.name = m.name) (hj : m'.journal? = m.journal?)
    (hstore : m'.store = m.store) : Undoable start m' := by
  unfold Undoable
  rw [hname, hj, hstore]
  exact h

theorem note (h : Undoable start m) {uid : Uid} (hname : m'.name = m.name)
    (hj : m'.journal? = (m.note uid).journal?) (hd : m'.store.Distinct)
    (hframe : ∀ other, other ≠ uid → m'.store.get? other = m.store.get? other) :
    Undoable start m' := by
  obtain ⟨hstart, j, hjournal, hrecalls⟩ := h
  refine ⟨hname.trans hstart, ?_⟩
  rw [hj]
  rcases note_cases hjournal uid with ⟨hsome, heq⟩ | ⟨hnone, heq⟩
  · exact ⟨j, heq, hrecalls.of_isSome hsome⟩
  · exact ⟨_, heq, hrecalls.keepOne hnone hd hframe⟩

theorem removeWhere (h : Undoable start m) (hd : m.store.Distinct) (p : Message → Bool) :
    Undoable start (noteRemoved (m.store.removeWhere p).1
      { m with store := (m.store.removeWhere p).2 }) := by
  obtain ⟨hname, j, hjournal, hrecalls⟩ := h
  rw [noteRemoved_eq]
  refine ⟨hname, ?_⟩
  rcases noteRemoved_cases (m := { m with store := (m.store.removeWhere p).2 }) hjournal
    (m.store.removeWhere p).1 with ⟨hsome, heq⟩ | ⟨hnone, heq⟩
  · exact ⟨j, heq, hrecalls.of_isSome hsome⟩
  · exact ⟨_, heq, hrecalls.keepRemoved hnone hd p⟩

theorem invalidate (h : Undoable start m) (now : Instant) :
    Undoable start (m.invalidate now).2 := by
  obtain ⟨hname, j, hjournal, hrecalls⟩ := h
  unfold Mailbox.invalidate
  dsimp only
  rw [noteStore_eq]
  refine ⟨hname, ?_⟩
  rcases noteStore_cases (m := { m with uids := m.uids.renew now }) hjournal with
    ⟨hsome, heq⟩ | ⟨hnone, heq⟩
  · exact ⟨j, heq, hrecalls.of_isSome hsome⟩
  · exact ⟨_, heq, hrecalls.keepAll hnone⟩

end Undoable

theorem Upkeep.undoable {start m m' : Mailbox} (hd : m.store.Distinct) (h : Undoable start m)
    (s : Upkeep m m') : Undoable start m' := by
  have hd' := s.distinct hd
  cases s with
  | note uid => exact h.note (note_name ..) rfl hd' fun other _ => by rw [note_store]
  | mark => exact h.congr rfl rfl rfl
  | forget => exact h.congr rfl rfl rfl
  | commit =>
      unfold Mailbox.commit
      split
      · exact h
      · exact h.congr rfl rfl rfl
  | raise => exact h.congr rfl rfl rfl
  | touch => exact h.note (note_name ..) rfl hd' fun other hne => get?_update_ne hne
  | change =>
      refine h.note (note_name ..) rfl hd' fun other hne => ?_
      simp only [Mailbox.change, advance, note_store]
      exact get?_update_ne hne
  | remove p => exact (h.removeWhere hd p).congr rfl rfl rfl

theorem Admission.undoable {start m m' : Mailbox} (hd : m.store.Distinct)
    (h : Undoable start m) (s : Admission m m') (hd' : m'.store.Distinct) : Undoable start m' := by
  cases s with
  | @spend uid uids issued =>
      have h' : Undoable start (advance { m with uids }) := h.congr rfl rfl rfl
      exact h'.note (note_name ..) rfl hd' fun other _ => by rw [note_store]
  | @enter r uids store issued modseq added =>
      have h' : Undoable start (advance { m with uids }) := h.congr rfl rfl rfl
      exact h'.note (note_name ..) rfl hd' fun other hne => get?_append?_ne hd added hne

/-- A mailbox without repeated UIDs in a change that can be taken back. -/
structure Underway (start m : Mailbox) : Prop where
  distinct : m.store.Distinct
  undoable : Undoable start m

namespace Underway

variable {start m m' : Mailbox}

theorem startJournal (h : m.store.Distinct) : Underway m m.startJournal :=
  ⟨h, .startJournal h⟩

theorem upkeep (h : Underway start m) (s : Upkeep m m') : Underway start m' :=
  ⟨s.distinct h.distinct, s.undoable h.distinct h.undoable⟩

theorem admission (h : Underway start m) (s : Admission m m') : Underway start m' :=
  ⟨s.distinct h.distinct, s.undoable h.distinct h.undoable (s.distinct h.distinct)⟩

theorem invalidate (h : Underway start m) (now : Instant) : Underway start (m.invalidate now).2 :=
  ⟨(orderly_invalidate now m).distinct, h.undoable.invalidate now⟩

theorem editAll (h : Underway start m) (edits : List Edit) : Underway start (m.editAll edits) :=
  editAll_preserves (P := Underway start) upkeep admission (fun now h => h.invalidate now) edits h

end Underway

/-! ## A journal is never given up -/

theorem isSome_journal?_note (uid : Uid) (m : Mailbox) :
    (m.note uid).journal?.isSome = m.journal?.isSome := by
  unfold note
  split
  · rfl
  · next hj => split <;> simp [hj]

theorem isSome_journal?_noteRemoved (removed : List Message) (m : Mailbox) :
    (m.noteRemoved removed).journal?.isSome = m.journal?.isSome := by
  unfold noteRemoved
  split
  · rfl
  · next hj => split <;> simp [hj]

theorem isSome_journal?_editAll {m : Mailbox} (h : m.journal?.isSome = true) (edits : List Edit) :
    (m.editAll edits).journal?.isSome = true := by
  refine editAll_preserves (P := fun m => m.journal?.isSome = true) ?_ ?_ ?_ edits h
  · intro m m' h s
    cases s with
    | note uid => rwa [isSome_journal?_note]
    | commit =>
        unfold Mailbox.commit
        split <;> exact h
    | touch => exact (isSome_journal?_note ..).trans h
    | change => exact (isSome_journal?_note ..).trans h
    | remove => exact (isSome_journal?_noteRemoved ..).trans h
    | mark | forget | raise => exact h
  · intro m m' h s
    cases s <;> exact (isSome_journal?_note ..).trans h
  · intro m now h
    obtain ⟨j, hj⟩ := Option.isSome_iff_exists.1 h
    unfold Mailbox.invalidate noteStore
    simp only [hj]
    split <;> rfl

/-! ## Where putting back starts -/

/-- The messages that were dropped by a new epoch in the change that is under way. -/
def dropped? (m : Mailbox) : Option MessageStore := m.journal?.bind (·.store?)

/-- The messages that the kept ones are put back into. -/
def base (m : Mailbox) : MessageStore := m.dropped?.getD m.store

@[simp] theorem dropped?_note (uid : Uid) (m : Mailbox) : (m.note uid).dropped? = m.dropped? := by
  unfold note
  split
  · rfl
  · next j hj =>
    split
    · rfl
    · simp [dropped?, hj]

@[simp] theorem dropped?_noteRemoved (removed : List Message) (m : Mailbox) :
    (m.noteRemoved removed).dropped? = m.dropped? := by
  unfold noteRemoved
  split
  · rfl
  · next j hj =>
    split
    · rfl
    · simp [dropped?, hj]

theorem Upkeep.dropped? {m m' : Mailbox} (s : Upkeep m m') : m'.dropped? = m.dropped? := by
  cases s with
  | note uid => exact dropped?_note uid m
  | mark => rfl
  | forget => rfl
  | commit =>
      unfold Mailbox.commit
      split <;> rfl
  | raise => rfl
  | touch => exact dropped?_note ..
  | change => exact dropped?_note ..
  | remove => exact dropped?_noteRemoved ..

theorem Admission.dropped? {m m' : Mailbox} (s : Admission m m') : m'.dropped? = m.dropped? := by
  cases s with
  | spend => exact dropped?_note ..
  | enter => exact dropped?_note ..

theorem dropped?_invalidate {m : Mailbox} (h : m.journal?.isSome = true) (now : Instant) :
    (m.invalidate now).2.dropped? = some m.base := by
  obtain ⟨j, hj⟩ := Option.isSome_iff_exists.1 h
  unfold Mailbox.invalidate noteStore
  simp only [hj]
  split
  · next hsome =>
    obtain ⟨kept, hkept⟩ := Option.isSome_iff_exists.1 hsome
    simp [Mailbox.dropped?, advance, base, hj, hkept]
  · next hnone =>
    rw [Bool.not_eq_true, Option.isSome_eq_false_iff, Option.isNone_iff_eq_none] at hnone
    simp [Mailbox.dropped?, advance, base, hj, hnone]

theorem dropped?_editAll {start m : Mailbox} {kept : MessageStore} (h : Underway start m)
    (hkept : m.dropped? = some kept) (edits : List Edit) :
    (m.editAll edits).dropped? = some kept := by
  refine (editAll_preserves (P := fun m => Underway start m ∧ m.dropped? = some kept)
    (fun h s => ⟨h.1.upkeep s, s.dropped?.trans h.2⟩)
    (fun h s => ⟨h.1.admission s, s.dropped?.trans h.2⟩) ?_ edits ⟨h, hkept⟩).2
  intro m now h
  refine ⟨h.1.invalidate now, ?_⟩
  obtain ⟨_, j, hj, _⟩ := h.1.undoable
  rw [dropped?_invalidate (by simp [hj]), base, h.2, Option.getD_some]

/-- Putting back starts from the messages that there were before the first new epoch. -/
theorem base_editAll {start m : Mailbox} (h : Underway start m) (hnone : m.dropped? = none)
    (edits : List Edit) :
    (m.editAll edits).base = (m.editAll (edits.takeWhile fun e => !e.renews)).store := by
  induction edits generalizing m with
  | nil => simp [base, hnone]
  | cons e rest ih =>
      cases he : e.renews with
      | false =>
          have hstep : Underway start (e.apply m) ∧ (e.apply m).dropped? = none :=
            apply_preserves (P := fun m => Underway start m ∧ m.dropped? = none)
              (fun h s => ⟨h.1.upkeep s, s.dropped?.trans h.2⟩)
              (fun h s => ⟨h.1.admission s, s.dropped?.trans h.2⟩) he ⟨h, hnone⟩
          rw [editAll_cons, ih hstep.1 hstep.2, List.takeWhile_cons_of_pos (by simp [he]),
            editAll_cons]
      | true =>
          cases e with
          | invalidate now =>
              obtain ⟨_, j, hj, _⟩ := h.undoable
              have hdropped := dropped?_invalidate (m := m) (by simp [hj]) now
              rw [editAll_cons, base, Edit.apply, dropped?_editAll (h.invalidate now) hdropped,
                Option.getD_some, List.takeWhile_cons_of_neg (by simp [he]), editAll_nil, base,
                hnone, Option.getD_none]
          | _ => cases he

end Mailbox

end MailBridge

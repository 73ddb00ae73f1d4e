import MailBridge.Proofs.Change
import MailBridge.Proofs.Journal

/-! # Taking a change back

A change that is taken back leaves the mailbox with the same messages, figures and counts that it
had before. The index of remote names comes back with the messages, except for a name that the
change took from one message and gave to a new one: the new message is taken out after the old one
has been put back, and takes the name out of the index with it.
-/

namespace MailBridge

open MessageStore

namespace Mailbox

/-- The index is right about all remote names. -/
def Indexed (m : Mailbox) : Prop := ∀ id, m.store.IndexedAt id

theorem Upkeep.indexed {m m' : Mailbox} (hd : m.store.Distinct) (h : m.Indexed)
    (s : Upkeep m m') : m'.Indexed := by
  intro id
  cases s with
  | note uid => simpa using h id
  | mark => exact h id
  | forget => exact h id
  | commit =>
      unfold Mailbox.commit
      split <;> exact h id
  | raise => exact h id
  | touch found name => exact (h id).update hd found name
  | change found name =>
      simp only [Mailbox.change, advance, note_store]
      exact (h id).update hd found name
  | remove p =>
      simp only [advance]
      rw [noteRemoved_eq]
      exact (h id).removeWhere hd p

theorem Admission.indexed {m m' : Mailbox} (h : m.Indexed) (s : Admission m m') : m'.Indexed := by
  intro id
  cases s with
  | spend issued =>
      rw [note_store]
      exact h id
  | enter issued modseq added => exact (h id).append? added

theorem indexed_invalidate (now : Instant) (m : Mailbox) : (m.invalidate now).2.Indexed := by
  intro id
  rw [(invalidate_eq now m).2.1]
  exact .empty id

theorem Indexed.editAll {m : Mailbox} (hd : m.store.Distinct) (h : m.Indexed)
    (edits : List Edit) : (m.editAll edits).Indexed :=
  (editAll_preserves (P := fun m => m.store.Distinct ∧ m.Indexed)
    (fun h s => ⟨s.distinct h.1, s.indexed h.1 h.2⟩)
    (fun h s => ⟨s.distinct h.1, s.indexed h.2⟩)
    (fun now _ => ⟨(orderly_invalidate now _).distinct, indexed_invalidate now _⟩) edits
    ⟨hd, h⟩).2

/-! ## The index while messages are put back -/

theorem mem_putBack {s : MessageStore} (h : s.Distinct) {entry : Uid × Option Message}
    (hkept : KeptAt entry) {x : Message} :
    x ∈ (putBack s entry).messages ↔ entry.2 = some x ∨ (x ∈ s.messages ∧ x.uid ≠ entry.1) := by
  unfold putBack
  split
  · next r hr => rw [mem_reinstate h, hkept r hr, hr, Option.some.injEq, eq_comm (a := x)]
  · next hnone => simp [mem_remove h, hnone]

theorem uidOf?_putBack (s : MessageStore) {entry : Uid × Option Message} (hkept : KeptAt entry)
    (id : RemoteId) :
    (putBack s entry).uidOf? id =
      if entry.2.map (·.remoteId) = some id then some entry.1
      else if (s.get? entry.1).map (·.remoteId) = some id then none
      else s.uidOf? id := by
  unfold putBack
  split
  · next r hr => simp [uidOf?_reinstate, hkept r hr, hr, eq_comm (a := id)]
  · next hnone => simp [uidOf?_remove, hnone]

/-- All messages with a remote name have one UID. -/
def Sole (id : RemoteId) (uid : Uid) (s : MessageStore) : Prop :=
  ∀ x ∈ s.messages, x.remoteId = id → x.uid = uid

theorem indexedAt_putBack {s : MessageStore} {entry : Uid × Option Message} {id : RemoteId}
    {sole : Uid} (hd : s.Distinct) (hkept : KeptAt entry) (h : s.IndexedAt id)
    (hsole : Sole id sole s) (hentry : ∀ r, entry.2 = some r → r.remoteId = id → r.uid = sole) :
    (putBack s entry).IndexedAt id := by
  intro uid
  rw [uidOf?_putBack s hkept]
  simp only [mem_putBack hd hkept]
  split
  · next hname =>
    -- the name comes back with the message that is put back
    obtain ⟨r, hr, hid⟩ := Option.map_eq_some_iff.1 hname
    have hu := hkept r hr
    constructor
    · intro hsome
      exact ⟨r, .inl hr, hid, hu.trans (Option.some.inj hsome)⟩
    · rintro ⟨x, hx | ⟨hx, hne⟩, hxid, rfl⟩
      · rw [hr, Option.some.injEq] at hx
        rw [← hx, hu]
      · exact absurd ((hsole x hx hxid).trans ((hentry r hr hid).symm.trans hu)) hne
  · next hname =>
    have hother : ∀ x, entry.2 = some x → x.remoteId ≠ id := fun x hx hid =>
      hname (by rw [hx, Option.map_some, hid])
    split
    · next hprevious =>
      -- the name goes with the message that is removed, and no other message has it
      obtain ⟨old, hold, hid⟩ := Option.map_eq_some_iff.1 hprevious
      obtain ⟨hmem, hu⟩ := (get?_eq_some hd).1 hold
      constructor
      · intro hsome
        cases hsome
      · rintro ⟨x, hx | ⟨hx, hne⟩, hxid, _⟩
        · exact absurd hxid (hother x hx)
        · exact absurd ((hsole x hx hxid).trans ((hsole old hmem hid).symm.trans hu)) hne
    · next hprevious =>
      rw [h uid]
      constructor
      · rintro ⟨x, hx, hxid, rfl⟩
        refine ⟨x, .inr ⟨hx, fun heq => hprevious ?_⟩, hxid, rfl⟩
        rw [← heq, get?_of_mem hd hx, Option.map_some, hxid]
      · rintro ⟨x, hx | ⟨hx, _⟩, hxid, hu⟩
        · exact absurd hxid (hother x hx)
        · exact ⟨x, hx, hxid, hu⟩

theorem indexedAt_foldl_putBack {l : List (Uid × Option Message)} {s : MessageStore}
    {id : RemoteId} {sole : Uid} (hd : s.Distinct) (hkept : ∀ entry ∈ l, KeptAt entry)
    (h : s.IndexedAt id) (hsole : Sole id sole s)
    (hentries : ∀ entry ∈ l, ∀ r, entry.2 = some r → r.remoteId = id → r.uid = sole) :
    (l.foldl putBack s).IndexedAt id := by
  induction l generalizing s with
  | nil => exact h
  | cons entry rest ih =>
      obtain ⟨hkept, hkeptRest⟩ := List.forall_mem_cons.1 hkept
      obtain ⟨hentry, hrest⟩ := List.forall_mem_cons.1 hentries
      refine ih (distinct_putBack hd entry) hkeptRest (indexedAt_putBack hd hkept h hsole hentry)
        ?_ hrest
      intro x hx hxid
      rcases (mem_putBack hd hkept).1 hx with hx | ⟨hx, _⟩
      · exact hentry x hx hxid
      · exact hsole x hx hxid

theorem uidOf?_foldl_putBack_none {l : List (Uid × Option Message)} {s : MessageStore}
    {id : RemoteId} (hkept : ∀ entry ∈ l, KeptAt entry) (h : s.uidOf? id = none)
    (hentries : ∀ entry ∈ l, ∀ r, entry.2 = some r → r.remoteId ≠ id) :
    (l.foldl putBack s).uidOf? id = none := by
  induction l generalizing s with
  | nil => exact h
  | cons entry rest ih =>
      obtain ⟨hkept, hkeptRest⟩ := List.forall_mem_cons.1 hkept
      obtain ⟨hentry, hrest⟩ := List.forall_mem_cons.1 hentries
      refine ih hkeptRest ?_ hrest
      have hname : entry.2.map (·.remoteId) ≠ some id := fun heq => by
        obtain ⟨r, hr, hid⟩ := Option.map_eq_some_iff.1 heq
        exact hentry r hr hid
      rw [uidOf?_putBack s hkept, if_neg hname, h, ite_self]

/-- A message that is taken out takes its name out of the index, and the name stays out unless
a later message has it. -/
theorem uidOf?_foldl_putBack_of_removed {l : List (Uid × Option Message)} {s : MessageStore}
    {r : Message} (hd : s.Distinct) (hkept : ∀ entry ∈ l, KeptAt entry)
    (hl : l.Pairwise fun a b => a.1.val < b.1.val) (hr : r ∈ s.messages)
    (hentry : (r.uid, none) ∈ l)
    (hlater : ∀ entry ∈ l, r.uid.val < entry.1.val →
      ∀ x, entry.2 = some x → x.remoteId ≠ r.remoteId) :
    (l.foldl putBack s).uidOf? r.remoteId = none := by
  induction l generalizing s with
  | nil => cases hentry
  | cons entry rest ih =>
      obtain ⟨hkept, hkeptRest⟩ := List.forall_mem_cons.1 hkept
      obtain ⟨habove, hrest⟩ := List.pairwise_cons.1 hl
      rcases List.mem_cons.1 hentry with rfl | hmem
      · rw [List.foldl_cons]
        refine uidOf?_foldl_putBack_none hkeptRest ?_ fun entry he =>
          hlater entry (List.mem_cons_of_mem _ he) (habove entry he)
        rw [uidOf?_putBack s hkept]
        simp [get?_of_mem hd hr]
      · have hne : r.uid ≠ entry.1 := fun heq => by
          have := habove _ hmem
          rw [heq] at this
          exact Nat.lt_irrefl _ this
        exact ih (distinct_putBack hd entry) hkeptRest hrest
          ((mem_putBack hd hkept).2 (.inr ⟨hr, hne⟩)) hmem
          fun e he => hlater e (List.mem_cons_of_mem _ he)

/-! ## What taking back leaves -/

namespace Recalls

variable {start : Mailbox} {store : MessageStore} {j : Journal}

theorem kept (h : Recalls start store j) {entry : Uid × Option Message}
    (he : entry ∈ j.messages.entries) : entry.2 = start.store.get? entry.1 := by
  have hget : j.messages.get? entry.1 = some entry.2 := OrderedMap.get?_eq_some.2 he
  rw [← h.before, Journal.before?, hget, Option.getD_some]

theorem keptAt (h : Recalls start store j) (hd : start.store.Distinct) :
    ∀ entry ∈ j.messages.entries, KeptAt entry := by
  intro entry he r hr
  rw [h.kept he] at hr
  exact ((get?_eq_some hd).1 hr).2

theorem nodup (j : Journal) : (j.messages.entries.map (·.1)).Nodup := by
  refine List.pairwise_map.2 (j.messages.ascending.imp fun {a b} hlt heq => ?_)
  rw [heq] at hlt
  exact KeyOrder.irrefl _ hlt

theorem messages_foldl_putBack (h : Recalls start store j) (hd : start.store.Distinct) :
    (j.messages.entries.foldl putBack (j.base store)).messages = start.store.messages := by
  obtain ⟨hdistinct, hmem, hother⟩ := foldl_putBack h.distinct (nodup j) (h.keptAt hd)
  refine messages_eq_of_get? hdistinct hd fun uid => ?_
  rw [← h.before, Journal.before?]
  cases hget : j.messages.get? uid with
  | some r? => exact hmem (uid, r?) (OrderedMap.get?_eq_some.1 hget)
  | none =>
      refine hother uid fun hkey => ?_
      obtain ⟨entry, he, rfl⟩ := List.mem_map.1 hkey
      rw [OrderedMap.get?_eq_some.2 he] at hget
      cases hget

end Recalls

theorem Undoable.rollback_eq {start m : Mailbox} (h : Undoable start m) : ∃ j,
    Recalls start m.store j ∧ j.base m.store = m.base ∧ m.rollback =
      { start.keepChanges with store := j.messages.entries.foldl putBack (j.base m.store) } := by
  obtain ⟨hname, j, hj, hrecalls⟩ := h
  refine ⟨j, hrecalls, by simp [Journal.base, base, dropped?, hj], ?_⟩
  unfold rollback
  rw [hj]
  dsimp only
  rw [hrecalls.header, hname]
  rfl

/-- The edits take the remote name of a message and give it to a message with another UID, before
they begin a new epoch. -/
def Reassigns (m : Mailbox) (edits : List Edit) (id : RemoteId) : Prop :=
  ∃ r ∈ m.store.messages,
    ∃ r' ∈ (m.startJournal.editAll (edits.takeWhile fun e => !e.renews)).store.messages,
      r.remoteId = id ∧ r'.remoteId = id ∧ r.uid ≠ r'.uid

section Restored

variable {m : Mailbox} (hd : m.store.Distinct) (ho : m.Orderly) (hi : m.Indexed)
  (edits : List Edit)

include hd

theorem base_startJournal : (m.startJournal.editAll edits).base =
    (m.startJournal.editAll (edits.takeWhile fun e => !e.renews)).store :=
  base_editAll (.startJournal hd) rfl edits

/-- Before a new epoch begins, messages have their UIDs from before or later ones. -/
theorem origin_base : ∀ r' ∈ (m.startJournal.editAll edits).base.messages,
    (∃ r ∈ m.store.messages, r'.uid = r.uid ∧ r'.remoteId = r.remoteId) ∨
      m.uids.bound ≤ r'.uid.val := by
  rw [base_startJournal hd]
  intro r' hr'
  have hwithin : ∀ e ∈ edits.takeWhile (fun e => !e.renews), e.renews = false := by
    intro e he
    have hall := List.all_takeWhile (p := fun e : Edit => !e.renews) (l := edits)
    simpa using List.all_eq_true.1 hall e he
  have hcontinues := continues_editAll (m := m.startJournal) hd hwithin
  rcases hcontinues.origin r' hr' with ⟨r, hr, hbecomes⟩ | hnew
  · exact .inl ⟨r, hr, hbecomes.uid, hbecomes.remoteId⟩
  · exact .inr hnew

theorem rollback_restores : ∃ store, (m.startJournal.editAll edits).rollback =
    { m.keepChanges with store } ∧ store.messages = m.store.messages := by
  obtain ⟨j, hrecalls, _, heq⟩ :=
    ((Underway.startJournal hd).editAll edits).undoable.rollback_eq
  exact ⟨_, heq, hrecalls.messages_foldl_putBack hd⟩

include hi

theorem uidOf?_rollback {id : RemoteId} (h : ¬ m.Reassigns edits id) :
    (m.startJournal.editAll edits).rollback.store.uidOf? id = m.store.uidOf? id := by
  obtain ⟨j, hrecalls, hbase, heq⟩ :=
    ((Underway.startJournal hd).editAll edits).undoable.rollback_eq
  have hindexed : (j.base (m.startJournal.editAll edits).store).IndexedAt id := by
    rw [hbase, base_startJournal hd]
    exact Indexed.editAll (m := m.startJournal) hd hi _ id
  have hkept : ∀ entry ∈ j.messages.entries, ∀ x, entry.2 = some x → x ∈ m.store.messages := by
    intro entry he x hx
    rw [hrecalls.kept he] at hx
    exact ((get?_eq_some hd).1 hx).1
  -- whichever messages with the name there are, before or after, have one UID
  obtain ⟨sole, hsole, hentries⟩ : ∃ sole,
      Sole id sole (j.base (m.startJournal.editAll edits).store) ∧
        ∀ x ∈ m.store.messages, x.remoteId = id → x.uid = sole := by
    by_cases hold : ∃ r ∈ m.store.messages, r.remoteId = id
    · obtain ⟨r, hr, hid⟩ := hold
      refine ⟨r.uid, fun x hx hxid => ?_, fun x hx hxid => (hi id).uid_eq hx hr hxid hid⟩
      rw [hbase, base_startJournal hd] at hx
      exact Decidable.byContradiction fun hne => h ⟨r, hr, x, hx, hid, hxid, Ne.symm hne⟩
    · have hno : ∀ x ∈ m.store.messages, x.remoteId ≠ id := fun x hx hxid => hold ⟨x, hx, hxid⟩
      by_cases hnew :
          ∃ r ∈ (j.base (m.startJournal.editAll edits).store).messages, r.remoteId = id
      · obtain ⟨r, hr, hid⟩ := hnew
        exact ⟨r.uid, fun x hx hxid => hindexed.uid_eq hx hr hxid hid,
          fun x hx hxid => absurd hxid (hno x hx)⟩
      · exact ⟨.least, fun x hx hxid => absurd ⟨x, hx, hxid⟩ hnew,
          fun x hx hxid => absurd hxid (hno x hx)⟩
  rw [heq]
  exact uidOf?_congr
    (indexedAt_foldl_putBack hrecalls.distinct (hrecalls.keptAt hd) hindexed hsole
      fun entry he x hx => hentries x (hkept entry he x hx))
    (hi id) (hrecalls.messages_foldl_putBack hd)

omit hd
include ho

/-- A name that went to another message is lost from the index. -/
theorem uidOf?_rollback_of_reassigns {id : RemoteId} (h : m.Reassigns edits id) :
    (m.startJournal.editAll edits).rollback.store.uidOf? id = none := by
  obtain ⟨j, hrecalls, hbase, heq⟩ :=
    ((Underway.startJournal ho.distinct).editAll edits).undoable.rollback_eq
  obtain ⟨r, hr, r', hr', hid, hid', hne⟩ := h
  rw [← base_startJournal ho.distinct] at hr'
  -- the message that has the name now is new, so it is the journal that removes it
  have hbound : m.uids.bound ≤ r'.uid.val := by
    rcases origin_base ho.distinct edits r' hr' with ⟨old, hold, huid, hname⟩ | hnew
    · exact absurd ((hi id).uid_eq hr hold hid (hname.symm.trans hid')) (huid ▸ hne)
    · exact hnew
  have hfresh : ∀ uid : Uid, m.uids.bound ≤ uid.val → m.store.get? uid = none := by
    intro uid hle
    refine (get?_eq_none ho.distinct).2 fun x hx hu => ?_
    have := ho.below x hx
    rw [hu] at this
    omega
  rw [← hbase] at hr'
  have hentry : (r'.uid, none) ∈ j.messages.entries := by
    have hbefore := hrecalls.before r'.uid
    rw [hfresh _ hbound, Journal.before?, get?_of_mem hrecalls.distinct hr'] at hbefore
    refine OrderedMap.get?_eq_some.1 ?_
    cases hkept : j.messages.get? r'.uid with
    | none => simp [hkept] at hbefore
    | some x? => simpa [hkept] using hbefore
  rw [heq, ← hid']
  refine uidOf?_foldl_putBack_of_removed hrecalls.distinct (hrecalls.keptAt ho.distinct)
    j.messages.ascending hr' hentry ?_
  -- UIDs above that of the new message were not in use
  intro entry he hlt x hx _
  rw [hrecalls.kept he, hfresh entry.1 (by omega)] at hx
  cases hx

end Restored

theorem orderly_of_checkIntegrity {m : Mailbox} (h : m.checkIntegrity = .ok ()) : m.Orderly :=
  (checkIntegrity_iff.1 h).1

theorem indexed_of_checkIntegrity {m : Mailbox} (h : m.checkIntegrity = .ok ()) : m.Indexed :=
  (checkIntegrity_iff.1 h).2

/-- The mailbox is the same but for the index, which has lost the names that were reassigned. -/
structure RestoredBut (lost : RemoteId → Prop) (m m' : Mailbox) : Prop where
  outside : m' = { m.keepChanges with store := m'.store }
  messages : m'.store.messages = m.store.messages
  names : ∀ id, ¬ lost id → m'.store.uidOf? id = m.store.uidOf? id
  lost : ∀ id, lost id → m'.store.uidOf? id = none

theorem restoredBut_rollback {m : Mailbox} (h : m.checkIntegrity = .ok ()) (edits : List Edit) :
    RestoredBut (m.Reassigns edits) m (m.startJournal.editAll edits).rollback := by
  have ho := orderly_of_checkIntegrity h
  have hi := indexed_of_checkIntegrity h
  obtain ⟨store, heq, hmessages⟩ := rollback_restores ho.distinct edits
  refine ⟨by rw [heq], by rw [heq]; exact hmessages, ?_, ?_⟩
  · exact fun id hid => uidOf?_rollback ho.distinct hi edits hid
  · exact fun id hid => uidOf?_rollback_of_reassigns ho hi edits hid

theorem RestoredBut.eq_iff {m m' : Mailbox} {edits : List Edit} (hi : m.Indexed)
    (h : RestoredBut (m.Reassigns edits) m m') :
    m' = m.keepChanges ↔ ∀ id, ¬ m.Reassigns edits id := by
  constructor
  · intro heq id hid
    have hnone := h.lost id hid
    obtain ⟨r, hr, _, _, hrid, _⟩ := hid
    rw [heq] at hnone
    exact (hi id).eq_none.1 hnone r hr hrid
  · intro hno
    have hstore : m'.store = m.store :=
      MessageStore.ext_parts h.messages (OrderedMap.ext_get? fun id => h.names id (hno id))
    rw [h.outside, hstore]
    rfl

/-! ## A change that begins with a new epoch

All messages are kept at once, so it does not matter what they were. -/

section Dropped

variable {m : Mailbox} {j : Journal} (hj : m.journal? = some j) (hdropped : j.store?.isSome = true)

include hj hdropped

theorem note_of_dropped (uid : Uid) : m.note uid = m := by
  simp [note, hj, hdropped]

theorem noteRemoved_of_dropped (removed : List Message) : m.noteRemoved removed = m := by
  simp [noteRemoved, hj, hdropped]

theorem noteStore_of_dropped : m.noteStore = m := by
  simp [noteStore, hj, hdropped]

theorem journal?_editAll_of_dropped (edits : List Edit) :
    (m.editAll edits).journal? = some j ∧ (m.editAll edits).name = m.name := by
  refine editAll_preserves (P := fun m' => m'.journal? = some j ∧ m'.name = m.name)
    ?_ ?_ ?_ edits ⟨hj, rfl⟩
  · intro m₁ m₂ h s
    cases s with
    | note uid => rwa [note_of_dropped h.1 hdropped]
    | commit =>
        unfold Mailbox.commit
        split <;> exact h
    | touch =>
        rw [note_of_dropped h.1 hdropped]
        exact h
    | change =>
        unfold Mailbox.change
        rw [note_of_dropped h.1 hdropped]
        exact h
    | remove p =>
        have hnoted := noteRemoved_of_dropped (m := { m₁ with store := (m₁.store.removeWhere p).2 })
          h.1 hdropped (m₁.store.removeWhere p).1
        rw [hnoted]
        exact h
    | mark | forget | raise => exact h
  · intro m₁ m₂ h s
    have h' (uids : UidSpace) : (advance { m₁ with uids }).journal? = some j := h.1
    cases s with
    | spend =>
        rw [note_of_dropped (h' _) hdropped]
        exact h
    | enter =>
        rw [note_of_dropped (h' _) hdropped]
        exact h
  · intro m₁ now h
    have hnoted := noteStore_of_dropped (m := { m₁ with uids := m₁.uids.renew now }) h.1 hdropped
    unfold Mailbox.invalidate
    dsimp only
    rw [hnoted]
    exact h

end Dropped

/-- A change that begins with a new epoch is taken back in full. -/
theorem rollback_of_renewed (m : Mailbox) (now : Instant) (edits : List Edit) :
    (m.startJournal.editAll (.invalidate now :: edits)).rollback = m.keepChanges := by
  rw [editAll_cons]
  obtain ⟨hj, hname⟩ := journal?_editAll_of_dropped (m := (m.startJournal.invalidate now).2)
    (j := { m.begun with store? := some m.store }) rfl rfl edits
  unfold rollback
  simp only [Edit.apply, hj, hname]
  rfl

end Mailbox

namespace SharedMailbox

variable {α : Type} {f : Mailbox → Except MailboxError α × Mailbox} {s : SharedMailbox}
  {edits : List Edit}

theorem mutate_error {e : MailboxError}
    (hedits : (f s.mailbox.startJournal).2 = s.mailbox.startJournal.editAll edits)
    (hfailed : (s.mutate f).1 = .error e) :
    (s.mutate f).2 = { s with mailbox := (s.mailbox.startJournal.editAll edits).rollback } := by
  have hjournal := Mailbox.isSome_journal?_editAll (m := s.mailbox.startJournal) rfl edits
  unfold mutate at hfailed ⊢
  dsimp only at hfailed ⊢
  rcases conclude_error hfailed with heq | heq
  · rw [heq, hedits]
  · rw [heq, hedits, Mailbox.rollback_takeUnsaved_commit hjournal]

/-- A failed change of a sound mailbox restores all but the index of remote names, and the index
too if and only if no remote name was reassigned. -/
theorem mutate_failed_restores {e : MailboxError} (hsound : s.mailbox.checkIntegrity = .ok ())
    (hedits : (f s.mailbox.startJournal).2 = s.mailbox.startJournal.editAll edits)
    (hfailed : (s.mutate f).1 = .error e) :
    (s.mutate f).2 = { s with mailbox := (s.mutate f).2.mailbox } ∧
      Mailbox.RestoredBut (s.mailbox.Reassigns edits) s.mailbox (s.mutate f).2.mailbox ∧
      ((s.mutate f).2 = { s with mailbox := s.mailbox.keepChanges } ↔
        ∀ id, ¬ s.mailbox.Reassigns edits id) := by
  have hrestored := Mailbox.restoredBut_rollback hsound edits
  rw [mutate_error hedits hfailed]
  refine ⟨rfl, hrestored, ?_⟩
  rw [← hrestored.eq_iff (Mailbox.indexed_of_checkIntegrity hsound)]
  constructor
  · intro heq
    exact congrArg SharedMailbox.mailbox heq
  · intro heq
    rw [heq]

def withOne : SharedMailbox where
  mailbox := (Mailbox.create "INBOX" 0).editAll
    [.receive { remoteId := "a" }, .commit, .takeUnsaved]

def removeAndRestore (m : Mailbox) : Except MailboxError Unit × Mailbox :=
  (.error (.conflict m.name "given up"),
    m.editAll [.markRemoved "a", .flushPending, .receive { remoteId := "a" }])

theorem mutate_failed_restores_withOne :
    withOne.mailbox.checkIntegrity = .ok () ∧
      (withOne.mutate removeAndRestore).1 = .error (.conflict "INBOX" "given up") ∧
      (withOne.mutate removeAndRestore).2.mailbox.store.messages =
        withOne.mailbox.store.messages :=
  ⟨rfl, rfl,
    (mutate_failed_restores (s := withOne) (f := removeAndRestore) rfl rfl rfl).2.1.messages⟩

/-- A failed change may leave the index without the name of a message. -/
theorem mutate_failed_loses_name :
    withOne.mailbox.checkIntegrity = .ok () ∧
      (withOne.mutate removeAndRestore).1 = .error (.conflict "INBOX" "given up") ∧
      withOne.mailbox.store.uidOf? "a" = some .least ∧
      (withOne.mutate removeAndRestore).2.mailbox.store.uidOf? "a" = none :=
  ⟨rfl, rfl, rfl, rfl⟩

end SharedMailbox

end MailBridge

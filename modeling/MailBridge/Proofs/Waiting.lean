import MailBridge.Proofs.Figures

/-! # Messages that wait to be expunged are there

A mailbox has a message for each UID that waits to be expunged, whatever has been asked of it. This
does not need sound identities: where several messages have one UID, edits change one of them or
take all with a mark out, and the journal keeps one for each UID that a change has touched.
-/

namespace MailBridge

namespace MessageStore

def Has (uid : Uid) (s : MessageStore) : Prop := ∃ r ∈ s.messages, r.uid = uid

variable {s t : MessageStore} {uid : Uid}

theorem has_iff : s.Has uid ↔ uid ∈ s.messages.map (·.uid) := List.mem_map.symm

/-- A UID that is in use is found, also where several messages have it. -/
theorem Has.isSome_position? (h : s.Has uid) : (s.position? uid).isSome = true := by
  obtain ⟨r, hr, rfl⟩ := h
  obtain ⟨k, hk, rfl⟩ := List.getElem_of_mem hr
  let above (m : Message) : Bool := decide (s.messages[k].uid.val < m.uid.val)
  have hle {i j : Nat} (hj : j < s.messages.length) (hij : i ≤ j) :
      s.messages[i].uid.val ≤ s.messages[j].uid.val := by
    rcases Nat.lt_or_eq_of_le hij with hlt | rfl
    · exact List.pairwise_iff_getElem.1 s.ascending i j _ hj hlt
    · exact Nat.le_refl _
  -- the first message above the UID comes after those that have it
  have hafter : k < s.messages.findIdx above := by
    refine Nat.lt_of_not_le fun hnot => ?_
    have hlt : s.messages.findIdx above < s.messages.length := by omega
    have habove : s.messages[k].uid.val < s.messages[s.messages.findIdx above].uid.val := by
      simpa [above] using List.findIdx_getElem (w := hlt)
    have := hle hk hnot
    omega
  unfold position?
  split
  · next hzero =>
    have : s.messages.findIdx above = 0 := hzero
    omega
  · next i hfound =>
    have hnext : s.messages.findIdx above = i + 1 := hfound
    have hi : i < s.messages.length := by
      have : s.messages.findIdx above ≤ s.messages.length := List.findIdx_le_length
      omega
    have hnot : s.messages[i].uid.val ≤ s.messages[k].uid.val := by
      have hbefore : i < s.messages.findIdx above := by omega
      simpa [above] using List.not_of_lt_findIdx hbefore
    have heq : s.messages[i].uid = s.messages[k].uid :=
      Uid.ext_val (Nat.le_antisymm hnot (hle hi (by omega)))
    rw [List.getElem?_eq_getElem hi, Option.map_some, heq, if_pos rfl]
    rfl

theorem not_has_of_get? (h : s.get? uid = none) : ¬ s.Has uid := by
  intro hhas
  obtain ⟨i, hi⟩ := Option.isSome_iff_exists.1 hhas.isSome_position?
  obtain ⟨r, hr, _⟩ := Option.map_eq_some_iff.1 (uid_of_position? hi)
  rw [get?, hi, Option.bind_some, hr] at h
  cases h

theorem Has.append? {r : Message} (h : s.Has uid) (hadded : s.append? r = some t) : t.Has uid := by
  obtain ⟨_, _, hmessages, _⟩ := append?_eq_some hadded
  obtain ⟨x, hx, hu⟩ := h
  exact ⟨x, by rw [hmessages]; exact List.mem_append_left _ hx, hu⟩

theorem Has.removeWhere {p : Message → Bool} (h : s.Has uid)
    (hstays : ∀ r ∈ (s.removeWhere p).1, r.uid ≠ uid) : (s.removeWhere p).2.Has uid := by
  obtain ⟨x, hx, hu⟩ := h
  exact ⟨x, mem_removeWhere_iff_not_removed.2 ⟨hx, fun hgone => hstays x hgone hu⟩, hu⟩

theorem Has.reinstate {r : Message} (h : s.Has uid ∨ r.uid = uid) : (s.reinstate r).Has uid := by
  unfold MessageStore.reinstate
  split
  · next i hi =>
    have hplace := uid_of_position? hi
    rw [← List.getElem?_map] at hplace
    obtain ⟨hlt, heq⟩ := List.getElem?_eq_some_iff.1 hplace
    have hsame : (s.messages.set i r).map (·.uid) = s.messages.map (·.uid) := by
      rw [List.map_set, ← heq, List.set_getElem_self]
    refine has_iff.2 (hsame ▸ ?_)
    rcases h with h | rfl
    · exact has_iff.1 h
    · exact heq ▸ List.getElem_mem hlt
  · rcases h with ⟨x, hx, hu⟩ | hu
    · exact ⟨x, mem_insertSorted.2 (.inr hx), hu⟩
    · exact ⟨r, mem_insertSorted.2 (.inl rfl), hu⟩

theorem Has.remove {gone : Uid} (h : s.Has uid) (hne : uid ≠ gone) : (s.remove gone).Has uid := by
  obtain ⟨x, hx, rfl⟩ := h
  unfold MessageStore.remove
  split
  · next i hi =>
    obtain ⟨k, hk⟩ := List.getElem?_of_mem hx
    refine ⟨x, List.mem_eraseIdx_iff_getElem?.2 ⟨k, fun heq => hne ?_, hk⟩, rfl⟩
    have hplace := uid_of_position? hi
    rw [← heq, hk] at hplace
    exact Option.some.inj hplace
  · exact ⟨x, hx, rfl⟩

end MessageStore

open MessageStore

/-- Some message has the UID once what is kept has been put back. -/
def Journal.Recovers (j : Journal) (store : MessageStore) (uid : Uid) : Prop :=
  j.messages.get? uid ≠ some none ∧ (j.messages.get? uid = none → (j.base store).Has uid)

namespace Mailbox

/-! ## Taking a change back -/

theorem has_foldl_putBack {l : List (Uid × Option Message)} {s : MessageStore} {uid : Uid}
    (hkept : ∀ entry ∈ l, KeptAt entry) (hstays : (uid, none) ∉ l)
    (h : s.Has uid ∨ ∃ r, (uid, some r) ∈ l) : (l.foldl putBack s).Has uid := by
  induction l generalizing s with
  | nil => exact h.resolve_right fun ⟨_, hr⟩ => absurd hr List.not_mem_nil
  | cons entry rest ih =>
      obtain ⟨hentry, hrest⟩ := List.forall_mem_cons.1 hkept
      obtain ⟨hne, hstays⟩ := not_or.1 (mt List.mem_cons.2 hstays)
      refine ih hrest hstays ?_
      rcases h with h | ⟨r, hr⟩
      · left
        obtain ⟨key, kept⟩ := entry
        cases kept with
        | some x => exact .reinstate (.inl h)
        | none => exact h.remove fun heq => hne (by rw [heq])
      · rcases List.mem_cons.1 hr with rfl | hr
        · exact .inl (.reinstate (.inr (hentry r rfl)))
        · exact .inr ⟨r, hr⟩

/-- The journal, with the present store, will bring a message back for each UID that waited when the
change began. -/
structure Shelters (waiting : OrderedSet Uid) (store : MessageStore) (j : Journal) : Prop where
  pending : j.pending = waiting
  keptAt : ∀ uid r, j.messages.get? uid = some (some r) → r.uid = uid
  recovers : ∀ uid ∈ waiting, j.Recovers store uid

namespace Shelters

variable {waiting : OrderedSet Uid} {store store' : MessageStore} {j : Journal}

theorem of_isSome (h : Shelters waiting store j) (hsome : j.store?.isSome = true) :
    Shelters waiting store' j := by
  obtain ⟨kept, hkept⟩ := Option.isSome_iff_exists.1 hsome
  refine ⟨h.pending, h.keptAt, fun uid huid => ⟨(h.recovers uid huid).1, fun hnone => ?_⟩⟩
  have hhas := (h.recovers uid huid).2 hnone
  rw [Journal.base_of_some hkept] at hhas ⊢
  exact hhas

theorem keep {kept : OrderedMap Uid (Option Message)} (h : Shelters waiting store j)
    (hnone : j.store? = none)
    (hkept : ∀ uid r?, kept.get? uid = some r? →
      j.messages.get? uid = some r? ∨
        (∀ r, r? = some r → r.uid = uid) ∧ (r? = none → ¬ store.Has uid ∧
          j.messages.get? uid = none))
    (hothers : ∀ uid, kept.get? uid = none →
      j.messages.get? uid = none ∧ (store.Has uid → store'.Has uid)) :
    Shelters waiting store' { j with messages := kept } := by
  refine ⟨h.pending, fun uid r hr => ?_, fun uid huid => ⟨fun hgone => ?_, fun hfree => ?_⟩⟩
  · rcases hkept uid _ hr with hold | ⟨hnew, _⟩
    · exact h.keptAt uid r hold
    · exact hnew r rfl
  · obtain ⟨hold, hhas⟩ := h.recovers uid huid
    rcases hkept uid _ hgone with hgone | ⟨_, hnew⟩
    · exact hold hgone
    · rw [Journal.base_of_none hnone] at hhas
      exact (hnew rfl).1 (hhas (hnew rfl).2)
  · obtain ⟨hold, hframe⟩ := hothers uid hfree
    have hhas := (h.recovers uid huid).2 hold
    have hbase : ({ j with messages := kept } : Journal).base store' = store' :=
      Journal.base_of_none hnone store'
    rw [Journal.base_of_none hnone] at hhas
    rw [hbase]
    exact hframe hhas

theorem keepOne (h : Shelters waiting store j) (hnone : j.store? = none) {uid : Uid}
    (hframe : ∀ other, store.Has other → store'.Has other) :
    Shelters waiting store' { j with messages := j.messages.insertIfNew uid (store.get? uid) } := by
  refine h.keep hnone (fun other r? hr => ?_) fun other hfree => ?_
  · rw [OrderedMap.get?_insertIfNew] at hr
    split at hr
    · next heq =>
      subst heq
      cases hold : j.messages.get? other with
      | some x => exact .inl (by rwa [hold] at hr)
      | none =>
          rw [hold, Option.getD_none, Option.some.injEq] at hr
          subst hr
          exact .inr ⟨fun r found => uid_of_found found, fun hno => ⟨not_has_of_get? hno, rfl⟩⟩
    · exact .inl hr
  · rw [OrderedMap.get?_insertIfNew] at hfree
    split at hfree
    · cases hfree
    · exact ⟨hfree, hframe other⟩

theorem keepRemoved (h : Shelters waiting store j) (hnone : j.store? = none)
    (p : Message → Bool) :
    Shelters waiting (store.removeWhere p).2
      { j with
        messages := (store.removeWhere p).1.foldl
          (fun kept message => kept.insertIfNew message.uid (some message)) j.messages } := by
  refine h.keep hnone (fun uid r? hr => ?_) fun uid hfree => ?_
  · rw [get?_foldl_insertIfNew] at hr
    rcases Option.or_eq_some_iff.1 hr with hold | ⟨_, hnew⟩
    · exact .inl hold
    · obtain ⟨x, hx, rfl⟩ := Option.map_eq_some_iff.1 hnew
      have hu : x.uid = uid := by simpa using List.find?_some hx
      exact .inr ⟨fun r hr => by rw [← Option.some.inj hr, hu], nofun⟩
  · rw [get?_foldl_insertIfNew, Option.or_eq_none_iff, Option.map_eq_none_iff] at hfree
    exact ⟨hfree.1, fun hhas => hhas.removeWhere (by simpa using hfree.2)⟩

theorem keepAll (h : Shelters waiting store j) (hnone : j.store? = none) :
    Shelters waiting store' { j with store? := some store } := by
  refine ⟨h.pending, h.keptAt, fun uid huid => ⟨(h.recovers uid huid).1, fun hfree => ?_⟩⟩
  have hhas := (h.recovers uid huid).2 hfree
  rwa [Journal.base_of_none hnone] at hhas

/-- Putting back what is kept leaves a message for each UID that waited. -/
theorem has (h : Shelters waiting store j) {uid : Uid} (huid : uid ∈ waiting) :
    (j.messages.entries.foldl putBack (j.base store)).Has uid := by
  obtain ⟨hstays, hbase⟩ := h.recovers uid huid
  refine has_foldl_putBack (fun entry he r hr => ?_) (mt OrderedMap.get?_eq_some.2 hstays) ?_
  · refine h.keptAt entry.1 r ?_
    rw [← hr]
    exact OrderedMap.get?_eq_some.2 he
  · cases hkept : j.messages.get? uid with
    | none => exact .inl (hbase hkept)
    | some r? =>
        cases r? with
        | none => exact absurd hkept hstays
        | some r => exact .inr ⟨r, OrderedMap.get?_eq_some.1 hkept⟩

end Shelters

/-- Taking the change back leaves a message for each UID that waited. -/
def Sheltered (waiting : OrderedSet Uid) (m : Mailbox) : Prop :=
  ∃ j, m.journal? = some j ∧ Shelters waiting m.store j

namespace Sheltered

variable {waiting : OrderedSet Uid} {m m' : Mailbox}

theorem startJournal (h : m.Queued) : Sheltered m.pending m.startJournal :=
  ⟨m.begun, rfl, rfl, nofun, fun uid huid => ⟨nofun, fun _ => h uid huid⟩⟩

theorem congr (h : Sheltered waiting m) (hj : m'.journal? = m.journal?)
    (hstore : m'.store = m.store) : Sheltered waiting m' := by
  unfold Sheltered
  rw [hj, hstore]
  exact h

theorem note (h : Sheltered waiting m) {uid : Uid} (hj : m'.journal? = (m.note uid).journal?)
    (hframe : ∀ other, m.store.Has other → m'.store.Has other) : Sheltered waiting m' := by
  obtain ⟨j, hjournal, hshelters⟩ := h
  unfold Sheltered
  rw [hj]
  rcases note_cases hjournal uid with ⟨hsome, heq⟩ | ⟨hnone, heq⟩
  · exact ⟨j, heq, hshelters.of_isSome hsome⟩
  · exact ⟨_, heq, hshelters.keepOne hnone hframe⟩

theorem removeWhere (h : Sheltered waiting m) (p : Message → Bool) :
    Sheltered waiting (noteRemoved (m.store.removeWhere p).1
      { m with store := (m.store.removeWhere p).2 }) := by
  obtain ⟨j, hjournal, hshelters⟩ := h
  rw [noteRemoved_eq]
  rcases noteRemoved_cases (m := { m with store := (m.store.removeWhere p).2 }) hjournal
    (m.store.removeWhere p).1 with ⟨hsome, heq⟩ | ⟨hnone, heq⟩
  · exact ⟨j, heq, hshelters.of_isSome hsome⟩
  · exact ⟨_, heq, hshelters.keepRemoved hnone p⟩

theorem invalidate (h : Sheltered waiting m) (now : Instant) :
    Sheltered waiting (m.invalidate now).2 := by
  obtain ⟨j, hjournal, hshelters⟩ := h
  unfold Mailbox.invalidate
  dsimp only
  rw [noteStore_eq]
  rcases noteStore_cases (m := { m with uids := m.uids.renew now }) hjournal with
    ⟨hsome, heq⟩ | ⟨hnone, heq⟩
  · exact ⟨j, heq, hshelters.of_isSome hsome⟩
  · exact ⟨_, heq, hshelters.keepAll hnone⟩

theorem upkeep (h : Sheltered waiting m) (s : Upkeep m m') : Sheltered waiting m' := by
  cases s with
  | note uid => exact h.note rfl fun other hhas => by rwa [note_store]
  | commit =>
      unfold Mailbox.commit
      split
      · exact h
      · exact h.congr rfl rfl
  | touch => exact h.note rfl fun other hhas => exists_mem_update hhas
  | change =>
      refine h.note rfl fun other hhas => ?_
      simp only [Mailbox.change, advance, note_store]
      exact exists_mem_update hhas
  | remove p => exact (h.removeWhere p).congr rfl rfl
  | mark | forget | raise => exact h.congr rfl rfl

theorem admission (h : Sheltered waiting m) (s : Admission m m') : Sheltered waiting m' := by
  cases s with
  | @spend uid uids issued =>
      have h' : Sheltered waiting (advance { m with uids }) := h.congr rfl rfl
      exact h'.note rfl fun other hhas => by rwa [note_store]
  | @enter r uids store issued modseq added =>
      have h' : Sheltered waiting (advance { m with uids }) := h.congr rfl rfl
      exact h'.note rfl fun other hhas => hhas.append? added

theorem editAll (h : Sheltered waiting m) (edits : List Edit) :
    Sheltered waiting (m.editAll edits) :=
  editAll_preserves (P := Sheltered waiting) upkeep admission (fun now h => h.invalidate now)
    edits h

theorem queued (h : Sheltered waiting m) : m.rollback.Queued := by
  obtain ⟨j, hjournal, hshelters⟩ := h
  unfold rollback
  rw [hjournal]
  intro uid huid
  have hwaits : uid ∈ waiting := hshelters.pending ▸ huid
  exact hshelters.has hwaits

end Sheltered

/-! ## Whatever is asked of the mailbox -/

namespace Queued

variable {m m' : Mailbox}

theorem apply (h : m.Queued) (e : Edit) : (e.apply m).Queued := by
  have hsteps : Relation.ReflTransGen (Noted True) m (e.apply m) := noted_apply h (.inl trivial)
  generalize e.apply m = m' at hsteps
  induction hsteps with
  | refl => exact h
  | tail _ s ih => exact s.queued ih

theorem applyAll (h : m.Queued) (edits : List Edit) : (m.editAll edits).Queued := by
  induction edits generalizing m with
  | nil => exact h
  | cons e rest ih => exact ih (h.apply e)

theorem apply_deed (h : m.Queued) (d : Deed) : (d.apply m).Queued := by
  cases d with
  | edit e => exact h.apply e
  | change cache? c =>
      show (SharedMailbox.perform { mailbox := m, cache? } c).mailbox.Queued
      rcases SharedMailbox.perform_cases { mailbox := m, cache? } c with
        ⟨edits, heq⟩ | ⟨_, heq⟩
      · rw [heq]
        exact ((Sheltered.startJournal h).editAll edits).queued
      · rw [heq]
        exact applyAll (m := m.startJournal) h _

theorem doAll (h : m.Queued) (deeds : List Deed) : (m.doAll deeds).Queued := by
  induction deeds generalizing m with
  | nil => exact h
  | cons d rest ih => exact ih (h.apply_deed d)

theorem reaches (h : m.Queued) (hreach : m.Reaches m') : m'.Queued := by
  cases hreach with
  | between deeds => exact h.doAll deeds
  | within deeds edits => exact applyAll (m := (m.doAll deeds).startJournal) (h.doAll deeds) _

end Queued

end Mailbox

end MailBridge

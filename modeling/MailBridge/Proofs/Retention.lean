import Mathlib.Data.List.InsertIdx
import MailBridge.Proofs.Mending
import MailBridge.Proofs.Recovery
import MailBridge.Proofs.Sessions

/-! # Changes that take no message out

While a session has a mailbox selected, synchronization takes no message out of it: messages that
are gone from the remote account wait until the session has been told. A change that makes no edit
by which messages are taken out leaves all of them under their UIDs and remote names, whether it is
kept or taken back, and also if several messages of a damaged mailbox have one UID.
-/

namespace MailBridge

open Relation

namespace MessageStore

variable {s t u : MessageStore} {uid : Uid}

/-- All messages are still there in their places, under their UIDs and remote names. Those that have
come have greater UIDs. -/
def Extends (s t : MessageStore) : Prop :=
  ∃ come, t.names = s.names ++ come ∧ ∀ a ∈ s.names, ∀ b ∈ come, a.2.val < b.2.val

theorem Extends.of_names (h : t.names = s.names) : s.Extends t :=
  ⟨[], by rw [h, List.append_nil], fun _ _ _ hb => by cases hb⟩

theorem Extends.refl (s : MessageStore) : s.Extends s := .of_names rfl

theorem Extends.trans (h : s.Extends t) (h' : t.Extends u) : s.Extends u := by
  obtain ⟨come, hnames, habove⟩ := h
  obtain ⟨come', hnames', habove'⟩ := h'
  rw [hnames] at hnames' habove'
  refine ⟨come ++ come', by rw [hnames', List.append_assoc], fun a ha b hb => ?_⟩
  rcases List.mem_append.1 hb with hb | hb
  · exact habove a ha b hb
  · exact habove' a (List.mem_append_left _ ha) b hb

theorem Extends.keeps (h : s.Extends t) {r : Message} (hr : r ∈ s.messages) :
    ∃ r' ∈ t.messages, r'.uid = r.uid ∧ r'.remoteId = r.remoteId := by
  obtain ⟨come, hnames, _⟩ := h
  have hmem : (r.remoteId, r.uid) ∈ t.names := by
    rw [hnames]
    exact List.mem_append_left _ (List.mem_map_of_mem hr)
  obtain ⟨r', hr', hname⟩ := List.mem_map.1 hmem
  exact ⟨r', hr', (Prod.mk.inj hname).2, (Prod.mk.inj hname).1⟩

/-! ## Finding messages, also where UIDs are repeated -/

/-- The last message with a UID, which is the one that is found under it. -/
def LastWith (s : MessageStore) (uid : Uid) (i : Nat) : Prop :=
  ∃ front x back, s.messages = front ++ x :: back ∧ front.length = i ∧ x.uid = uid ∧
    ∀ y ∈ back, uid.val < y.uid.val

theorem LastWith.position? {i : Nat} (h : s.LastWith uid i) : s.position? uid = some i := by
  obtain ⟨front, x, back, hmessages, rfl, rfl, hback⟩ := h
  have hascending := s.ascending
  rw [hmessages] at hascending
  have hfront := (List.pairwise_append.1 hascending).2.2
  have hupto : ¬ ∃ y ∈ front ++ [x], decide (x.uid.val < y.uid.val) = true := by
    rintro ⟨y, hy, hafter⟩
    have hlt := of_decide_eq_true hafter
    rcases List.mem_append.1 hy with hy | hy
    · have hle := hfront y hy x List.mem_cons_self
      omega
    · rw [List.mem_singleton.1 hy] at hlt
      omega
  have hrest : back.findIdx (fun y => decide (x.uid.val < y.uid.val)) = 0 := by
    cases back with
    | nil => rfl
    | cons y rest => simp [List.findIdx_cons, hback y List.mem_cons_self]
  have hplace : s.messages.findIdx (fun y => decide (x.uid.val < y.uid.val)) =
      front.length + 1 := by
    rw [hmessages, List.append_cons, List.findIdx_append,
      if_neg (mt List.findIdx_lt_length.1 hupto), hrest]
    simp
  unfold MessageStore.position?
  rw [hplace]
  simp [hmessages]

theorem exists_last {l : List Message} (h : l.Pairwise fun a b => a.uid.val ≤ b.uid.val)
    (hex : ∃ r ∈ l, r.uid = uid) : ∃ front x back, l = front ++ x :: back ∧ x.uid = uid ∧
      ∀ y ∈ back, uid.val < y.uid.val := by
  induction l with
  | nil => simp at hex
  | cons r rest ih =>
      obtain ⟨hr, hrest⟩ := List.pairwise_cons.1 h
      by_cases hlater : ∃ r' ∈ rest, r'.uid = uid
      · obtain ⟨front, x, back, rfl, hx, hback⟩ := ih hrest hlater
        exact ⟨r :: front, x, back, rfl, hx, hback⟩
      · have hfirst : r.uid = uid := by
          obtain ⟨r', hr', huid⟩ := hex
          rcases List.mem_cons.1 hr' with rfl | hr'
          · exact huid
          · exact absurd ⟨r', hr', huid⟩ hlater
        refine ⟨[], r, rest, rfl, hfirst, fun y hy => ?_⟩
        have hle := hr y hy
        have hne : y.uid.val ≠ uid.val := fun heq => hlater ⟨y, hy, Uid.ext_val heq⟩
        rw [hfirst] at hle
        omega

theorem exists_lastWith (h : ∃ r ∈ s.messages, r.uid = uid) : ∃ i, s.LastWith uid i := by
  obtain ⟨front, x, back, hsplit⟩ := exists_last s.ascending h
  exact ⟨front.length, front, x, back, hsplit.1, rfl, hsplit.2⟩

theorem get?_eq_some_iff {r : Message} :
    s.get? uid = some r ↔ ∃ i, s.position? uid = some i ∧ s.messages[i]? = some r :=
  Option.bind_eq_some_iff

theorem get?_eq_none_iff : s.get? uid = none ↔ ∀ r ∈ s.messages, r.uid ≠ uid := by
  constructor
  · intro hnone r hr huid
    obtain ⟨i, hlast⟩ := exists_lastWith ⟨r, hr, huid⟩
    have hfound := hlast.position?
    obtain ⟨front, x, back, hmessages, rfl, _⟩ := hlast
    simp [get?, hfound, hmessages] at hnone
  · intro hno
    refine Option.eq_none_iff_forall_ne_some.2 fun r hr => ?_
    obtain ⟨i, hi, hat⟩ := get?_eq_some_iff.1 hr
    have huid := uid_of_position? hi
    rw [hat] at huid
    exact hno r (List.mem_of_getElem? hat) (Option.some.inj huid)

/-- Messages that come with greater UIDs do not change where a message is found. -/
theorem Extends.position? (h : s.Extends t) {r : Message} (hr : s.get? uid = some r) :
    t.position? uid = s.position? uid := by
  obtain ⟨come, hnames, habove⟩ := h
  have hsome : ∃ r ∈ s.messages, r.uid = uid := by
    by_contra hno
    rw [get?_eq_none_iff.2 fun r hr huid => hno ⟨r, hr, huid⟩] at hr
    cases hr
  obtain ⟨i, hlast⟩ := exists_lastWith hsome
  rw [hlast.position?]
  obtain ⟨front, x, back, hmessages, rfl, rfl, hback⟩ := hlast
  -- the same place in the later messages
  have hsplit : t.names = front.map (fun m => (m.remoteId, m.uid)) ++
      (x.remoteId, x.uid) :: (back.map (fun m => (m.remoteId, m.uid)) ++ come) := by
    rw [hnames, names, hmessages]
    simp
  obtain ⟨front', tail, htail, hfront, hcons⟩ := List.map_eq_append_iff.1 hsplit
  obtain ⟨x', back', rfl, hname, hrest⟩ := List.map_eq_cons_iff.1 hcons
  have hlength := congrArg List.length hfront
  simp only [List.length_map] at hlength
  refine LastWith.position? ⟨front', x', back', htail, hlength, (Prod.mk.inj hname).2,
    fun y hy => ?_⟩
  have hy' : (y.remoteId, y.uid) ∈ back'.map fun m => (m.remoteId, m.uid) :=
    List.mem_map_of_mem hy
  rw [hrest] at hy'
  rcases List.mem_append.1 hy' with hold | hnew
  · obtain ⟨z, hz, heq⟩ := List.mem_map.1 hold
    rw [← (Prod.mk.inj heq).2]
    exact hback z hz
  · refine habove (x.remoteId, x.uid) ?_ _ hnew
    rw [names, hmessages]
    simp

theorem Extends.remoteId (h : s.Extends t) {r : Message} (hr : s.get? uid = some r) :
    (t.get? uid).map (·.remoteId) = some r.remoteId := by
  have hposition := h.position? hr
  obtain ⟨come, hnames, _⟩ := h
  obtain ⟨i, hi, hat⟩ := get?_eq_some_iff.1 hr
  have hlt := (List.getElem?_eq_some_iff.1 hat).1
  have hname : t.names[i]? = some (r.remoteId, r.uid) := by
    rw [hnames, List.getElem?_append_left (by simpa [names] using hlt), names, List.getElem?_map,
      hat]
    rfl
  rw [names, List.getElem?_map] at hname
  obtain ⟨r', hr', heq⟩ := Option.map_eq_some_iff.1 hname
  rw [get?, hposition, hi, Option.bind_some, hr', Option.map_some, (Prod.mk.inj heq).1]

/-! ## Putting messages in the places of others -/

theorem names_set {i : Nat} {old r : Message} (hat : s.messages[i]? = some old)
    (huid : r.uid = old.uid) (hname : r.remoteId = old.remoteId) :
    (s.messages.set i r).map (fun m => (m.remoteId, m.uid)) = s.names := by
  refine List.ext_getElem? fun j => ?_
  rw [List.map_set, List.getElem?_set, huid, hname]
  split
  · next hij =>
    obtain ⟨hlt, _⟩ := List.getElem?_eq_some_iff.1 hat
    rw [if_pos (by simpa using hlt), ← hij, names, List.getElem?_map, hat, Option.map_some]
  · rfl

theorem names_update_of_found {old r : Message} (found : s.get? r.uid = some old)
    (name : r.remoteId = old.remoteId) : (s.update r).names = s.names := by
  obtain ⟨i, hi, hat⟩ := get?_eq_some_iff.1 found
  have huid := uid_of_position? hi
  rw [hat] at huid
  unfold update
  split
  · next j hj =>
    obtain rfl : i = j := Option.some.inj (hi.symm.trans hj)
    exact names_set hat (Option.some.inj huid).symm name
  · rfl

theorem extends_append? {r : Message} (added : s.append? r = some t) : s.Extends t := by
  obtain ⟨hbelow, _, hmessages, _⟩ := append?_eq_some added
  refine ⟨[(r.remoteId, r.uid)], by simp [names, hmessages], fun a ha b hb => ?_⟩
  obtain ⟨x, hx, rfl⟩ := List.mem_map.1 ha
  rw [List.mem_singleton.1 hb]
  exact hbelow x hx

theorem Tended.extends (h : s.Tended t) : s.Extends t := by
  cases h with
  | same => exact .refl s
  | update found name => exact .of_names (names_update_of_found found name)
  | enter added => exact extends_append? added

theorem Extends.length_le (h : s.Extends t) : s.messages.length ≤ t.messages.length := by
  obtain ⟨come, hnames, _⟩ := h
  have hlength := congrArg List.length hnames
  simp only [names, List.length_map, List.length_append] at hlength
  omega

theorem extends_reinstate {r : Message}
    (hname : (s.get? r.uid).map (·.remoteId) = some r.remoteId) : s.Extends (s.reinstate r) := by
  obtain ⟨old, found, heq⟩ := Option.map_eq_some_iff.1 hname
  obtain ⟨i, hi, hat⟩ := get?_eq_some_iff.1 found
  have huid := uid_of_position? hi
  rw [hat] at huid
  refine .of_names ?_
  unfold reinstate
  split
  · next j hj =>
    obtain rfl : i = j := Option.some.inj (hi.symm.trans hj)
    exact names_set hat (Option.some.inj huid).symm heq.symm
  · next hnone =>
    rw [hi] at hnone
    cases hnone

theorem Extends.remove (h : s.Extends t) (hnone : s.get? uid = none) :
    s.Extends (t.remove uid) := by
  obtain ⟨come, hnames, habove⟩ := h
  unfold MessageStore.remove
  split
  · next i hi =>
    have huid := uid_of_position? hi
    obtain ⟨x, hx, hxuid⟩ := Option.map_eq_some_iff.1 huid
    have hat : t.names[i]? = some (x.remoteId, uid) := by
      rw [names, List.getElem?_map, hx, Option.map_some, hxuid]
    -- the place is not among those that were there at first
    have hplace : s.names.length ≤ i := by
      by_contra hlt
      rw [hnames, List.getElem?_append_left (by omega)] at hat
      obtain ⟨r, hr, heq⟩ := List.mem_map.1 (List.mem_of_getElem? hat)
      exact get?_eq_none_iff.1 hnone r hr (Prod.mk.inj heq).2
    refine ⟨come.eraseIdx (i - s.names.length), ?_, fun a ha b hb => ?_⟩
    · change (t.messages.eraseIdx i).map (fun m => (m.remoteId, m.uid)) = _
      rw [← List.eraseIdx_map, ← names, hnames, List.eraseIdx_append_of_length_le hplace]
    · exact habove a ha b (List.mem_of_mem_eraseIdx hb)
  · exact ⟨come, hnames, habove⟩

end MessageStore

/-! ## What is kept to take a change back -/

/-- Whether the edit takes no message out. -/
def Edit.keepsMessages : Edit → Bool
  | expunge | flushPending | invalidate _ => false
  | _ => true

theorem Edit.keepsMessages_of_tends {e : Edit} (h : e.tends = true) : e.keepsMessages = true := by
  cases e <;> first | rfl | cases h

theorem Edit.renews_of_keepsMessages {e : Edit} (h : e.keepsMessages = true) :
    e.renews = false := by
  cases e <;> first | rfl | cases h

/-- Messages have only been added to those of the start, or changed in their places. What is kept
tells which message was found under a UID at the start, and has every UID under which a message has
come. -/
structure Journal.Tracks (start store : MessageStore) (j : Journal) : Prop where
  undropped : j.store? = none
  adds : start.Extends store
  recalls : ∀ uid old?, j.messages.get? uid = some old? →
    old?.map (·.remoteId) = (start.get? uid).map (·.remoteId) ∧ ∀ r, old? = some r → r.uid = uid
  noted : ∀ a ∈ store.names, start.get? a.2 = none → (j.messages.get? a.2).isSome = true

namespace Mailbox

variable {start : MessageStore} {m m' : Mailbox} {uid : Uid}

@[simp] theorem noteRemoved_store (removed : List Message) (m : Mailbox) :
    (m.noteRemoved removed).store = m.store := by rw [noteRemoved_eq]

/-- No message has been taken out since a change began. -/
def Adds (m : Mailbox) (start : MessageStore) : Prop :=
  ∃ j, m.journal? = some j ∧ j.Tracks start m.store

namespace Adds

theorem startJournal (m : Mailbox) : m.startJournal.Adds m.store := by
  refine ⟨m.begun, rfl, rfl, .refl _, fun uid old? hkept => ?_, fun a ha hnone => ?_⟩
  · cases hkept
  · obtain ⟨r, hr, rfl⟩ := List.mem_map.1 ha
    exact absurd rfl (MessageStore.get?_eq_none_iff.1 hnone r hr)

theorem congr (h : m.Adds start) (hjournal : m'.journal? = m.journal?)
    (hstore : m'.store = m.store) : m'.Adds start := by
  unfold Adds
  rw [hjournal, hstore]
  exact h

/-- Messages may change in their places, and one may come under a UID that has been noted. -/
theorem note (h : m.Adds start) (hjournal : m'.journal? = (m.note uid).journal?)
    (hextends : m.store.Extends m'.store)
    (hcome : ∀ a ∈ m'.store.names, a ∈ m.store.names ∨ a.2 = uid) : m'.Adds start := by
  obtain ⟨j, hj, hundropped, hadds, hrecalls, hnoted⟩ := h
  have hnote : (m.note uid).journal? =
      some { j with messages := j.messages.insertIfNew uid (m.store.get? uid) } := by
    simp [Mailbox.note, hj, hundropped]
  -- unless the UID has been noted before, what is found under it was there at the start
  have hfound : j.messages.get? uid = none →
      (m.store.get? uid).map (·.remoteId) = (start.get? uid).map (·.remoteId) := by
    intro hnew
    cases hstart : start.get? uid with
    | some r => exact hadds.remoteId hstart
    | none =>
        cases hnow : m.store.get? uid with
        | none => rfl
        | some r =>
            obtain ⟨i, _, hat⟩ := MessageStore.get?_eq_some_iff.1 hnow
            have hmem : (r.remoteId, uid) ∈ m.store.names :=
              List.mem_map.2 ⟨r, List.mem_of_getElem? hat, by rw [uid_of_found hnow]⟩
            have hsome := hnoted _ hmem hstart
            rw [hnew] at hsome
            cases hsome
  refine ⟨_, hjournal.trans hnote, hundropped, hadds.trans hextends, fun u old? hkept => ?_,
    fun a ha hnone => ?_⟩
  · rw [OrderedMap.get?_insertIfNew] at hkept
    split at hkept
    · next hu =>
      subst hu
      cases hold : j.messages.get? u with
      | some kept? =>
          rw [hold] at hkept
          cases hkept
          exact hrecalls u kept? hold
      | none =>
          rw [hold] at hkept
          cases hkept
          exact ⟨hfound hold, fun r hr => uid_of_found hr⟩
    · exact hrecalls u old? hkept
  · rw [OrderedMap.get?_insertIfNew]
    split
    · rfl
    · next hne =>
      exact hnoted a ((hcome a ha).resolve_right hne) hnone

theorem update (h : m.Adds start) {old r : Message} (found : m.store.get? r.uid = some old)
    (name : r.remoteId = old.remoteId) (hjournal : m'.journal? = (m.note r.uid).journal?)
    (hstore : m'.store = m.store.update r) : m'.Adds start := by
  have hd := MessageStore.names_update_of_found found name
  refine h.note hjournal (hstore ▸ .of_names hd) fun a ha => ?_
  rw [hstore, hd] at ha
  exact .inl ha

theorem upkeep (h : m.Adds start) (s : Upkeep m m')
    (hlength : m.store.messages.length ≤ m'.store.messages.length) : m'.Adds start := by
  cases s with
  | note uid =>
      exact h.note rfl (by rw [note_store]; exact .refl _) fun a ha => .inl (by simpa using ha)
  | mark => exact h.congr rfl rfl
  | forget => exact h.congr rfl rfl
  | commit =>
      unfold Mailbox.commit
      split
      · exact h
      · exact h.congr rfl rfl
  | raise => exact h.congr rfl rfl
  | touch found name => exact h.update found name rfl rfl
  | change found name => exact h.update found name rfl (by simp)
  | remove p pending unsaved =>
      -- nothing is removed, so nothing is kept either
      have hnobody : (m.store.removeWhere p).1 = [] := by
        have hall : (m.store.messages.filter (!p ·)).length = m.store.messages.length := by
          refine Nat.le_antisymm (List.length_filter_le ..) ?_
          simp only [advance, noteRemoved_store] at hlength
          exact hlength
        refine List.filter_eq_nil_iff.2 fun r hr => ?_
        simpa using List.length_filter_eq_length_iff.1 hall r hr
      have hstore : (m.store.removeWhere p).2 = m.store :=
        MessageStore.removeWhere_of_isEmpty (List.isEmpty_iff.2 hnobody)
      obtain ⟨j, hj, htracks⟩ := h
      refine ⟨j, ?_, ?_⟩
      · simp [advance, noteRemoved, hnobody, hj]
      · simp only [advance, noteRemoved_store, hstore]
        exact htracks

theorem admission (h : m.Adds start) (s : Admission m m') : m'.Adds start := by
  cases s with
  | @spend uid uids issued =>
      have h' : (advance { m with uids }).Adds start := h.congr rfl rfl
      exact h'.note rfl (by rw [note_store]; exact .refl _) fun a ha => .inl (by simpa using ha)
  | @enter r uids store issued modseq added =>
      have h' : (advance { m with uids }).Adds start := h.congr rfl rfl
      refine @note _ _ _ r.uid h' rfl (MessageStore.extends_append? added) fun a ha => ?_
      obtain ⟨x, hx, rfl⟩ := List.mem_map.1 ha
      have hmessages := (MessageStore.append?_eq_some added).2.2.1
      change x ∈ store.messages at hx
      rw [hmessages] at hx
      rcases List.mem_append.1 hx with hx | hx
      · exact .inl (List.mem_map_of_mem hx)
      · exact .inr (by rw [List.mem_singleton.1 hx])

end Adds

/-! ## Edits that take no message out -/

theorem Upkeep.length_le (s : Upkeep m m') :
    m'.store.messages.length ≤ m.store.messages.length := by
  have hupdate (r : Message) :
      (m.store.update r).messages.length = m.store.messages.length := by
    have := congrArg List.length (MessageStore.map_uid_update m.store r)
    simpa using this
  cases s with
  | note uid => rw [note_store]
  | mark => exact Nat.le_refl _
  | forget => exact Nat.le_refl _
  | commit => rw [commit_store]
  | raise => exact Nat.le_refl _
  | touch => exact (hupdate _).le
  | change => rw [change_store, hupdate]
  | remove p =>
      simp only [advance, noteRemoved_store]
      exact List.length_filter_le ..

theorem length_le_run (hsteps : ReflTransGen Upkeep m m') :
    m'.store.messages.length ≤ m.store.messages.length := by
  induction hsteps with
  | refl => exact Nat.le_refl _
  | tail _ hstep ih => exact Nat.le_trans hstep.length_le ih

/-- A run of upkeep by which the messages do not become fewer takes none out on the way. -/
theorem Adds.run (h : m.Adds start) (hsteps : ReflTransGen Upkeep m m')
    (hlength : m.store.messages.length ≤ m'.store.messages.length) : m'.Adds start := by
  induction hsteps using ReflTransGen.head_induction_on with
  | refl => exact h
  | head hstep hrest ih =>
      have hfirst := hstep.length_le
      have hlater := length_le_run hrest
      exact ih (h.upkeep hstep (by omega)) (by omega)

theorem length_clearRecent (p : Uid → Bool) (m : Mailbox) :
    m.store.messages.length ≤ (m.clearRecent p).2.store.messages.length := by
  have hall (uids : List Uid) (m : Mailbox) : m.store.messages.length ≤
      (uids.foldl clearRecentOf m).store.messages.length := by
    induction uids generalizing m with
    | nil => exact Nat.le_refl _
    | cons uid rest ih =>
        refine Nat.le_trans (Nat.le_of_eq ?_) (ih (clearRecentOf m uid))
        unfold clearRecentOf
        dsimp only
        split
        · rw [note_store]
        · next r _ =>
          have huids := MessageStore.map_uid_update m.store
            { r with flags := Flags.withoutRecent r.flags }
          simpa [markUnsaved] using (congrArg List.length huids).symm
  unfold clearRecent
  dsimp only
  split <;> exact hall _ m

theorem length_apply {e : Edit} (h : e.keepsMessages = true) (m : Mailbox) :
    m.store.messages.length ≤ (e.apply m).store.messages.length := by
  cases htends : e.tends with
  | true => exact (tended_apply htends m).extends.length_le
  | false =>
      cases e with
      | clearRecent p => exact length_clearRecent p m
      | expunge | flushPending | invalidate _ => cases h
      | _ => cases htends

theorem Adds.editAll {edits : List Edit} (hkeeps : ∀ e ∈ edits, e.keepsMessages = true)
    (h : m.Adds start) : (m.editAll edits).Adds start := by
  induction edits generalizing m with
  | nil => exact h
  | cons e rest ih =>
      obtain ⟨he, hrest⟩ := List.forall_mem_cons.1 hkeeps
      refine ih hrest ?_
      rcases apply_steps e m (Edit.renews_of_keepsMessages he) with hsteps | hadmission
      · exact h.run hsteps (length_apply he m)
      · exact h.admission hadmission

/-- Taking the change back leaves the messages of the start in their places. -/
theorem Adds.rollback (h : m.Adds start) : start.Extends m.rollback.store := by
  obtain ⟨j, hj, hundropped, hadds, hrecalls, _⟩ := h
  have hback : ∀ (l : List (Uid × Option Message)) (s : MessageStore), (∀ entry ∈ l,
      j.messages.get? entry.1 = some entry.2) → start.Extends s →
        start.Extends (l.foldl putBack s) := by
    intro l
    induction l with
    | nil => exact fun s _ hs => hs
    | cons entry rest ih =>
        intro s hentries hs
        obtain ⟨hentry, hrest⟩ := List.forall_mem_cons.1 hentries
        refine ih _ hrest ?_
        obtain ⟨hname, huid⟩ := hrecalls entry.1 entry.2 hentry
        unfold putBack
        split
        · next r hr =>
          rw [hr, Option.map_some, ← huid r hr] at hname
          obtain ⟨old, hold, heq⟩ := Option.map_eq_some_iff.1 hname.symm
          exact hs.trans (MessageStore.extends_reinstate (by rw [hs.remoteId hold, heq]))
        · next hnone =>
          rw [hnone] at hname
          exact hs.remove (Option.map_eq_none_iff.1 hname.symm)
  have hstore : m.rollback.store = j.messages.entries.foldl putBack m.store := by
    simp [Mailbox.rollback, hj, hundropped]
  rw [hstore]
  exact hback _ _ (fun entry he => OrderedMap.get?_eq_some.2 he) hadds

end Mailbox

namespace SharedMailbox

open Mailbox

variable {s s' : SharedMailbox}

/-- A change that makes no edit by which messages are taken out leaves all of them, kept or taken
back. -/
theorem extends_mutate {α : Type} {f : Mailbox → Except MailboxError α × Mailbox}
    (hf : EditedBy Edit.keepsMessages s.mailbox.startJournal (f s.mailbox.startJournal).2) :
    s.mailbox.store.Extends (s.mutate f).2.mailbox.store := by
  obtain ⟨edits, hkeeps, hedits⟩ := hf
  have hadds := (Adds.startJournal s.mailbox).editAll hkeeps
  cases hresult : (s.mutate f).1 with
  | error e =>
      rw [mutate_error hedits hresult]
      exact hadds.rollback
  | ok a =>
      rw [mailbox_mutate_of_kept hresult, kept_eq, hedits]
      obtain ⟨_, _, htracks⟩ := hadds
      exact htracks.adds

theorem extends_leadsBy (h : LeadsBy Edit.keepsMessages s s') :
    s.mailbox.store.Extends s'.mailbox.store := by
  induction h with
  | refl => exact .refl _
  | tail _ hstep ih =>
      cases hstep with
      | change c made => exact ih.trans (extends_mutate ⟨c.edits, made, rfl⟩)
      | aside => exact ih

end SharedMailbox

/-! ## Synchronization while sessions have the mailbox selected -/

namespace Mailbox

variable {m : Mailbox} {sessions : Nat}

theorem flushUnlessSelected_of_selected (h : 0 < sessions) (m : Mailbox) :
    m.flushUnlessSelected sessions = ([], m) := if_neg (Nat.ne_of_gt h)

theorem tended_applyBatch (h : 0 < sessions) (settings : SyncSettings)
    (since? : Option (Option String)) (events : List Prepared) (cursor : Option String)
    (m : Mailbox) :
    EditedBy Edit.tends m (m.applyBatch settings sessions since? events cursor).2 := by
  unfold applyBatch
  split
  · exact .refl m
  · have hevents := tended_applyEvents settings.updatesFlags {} events m
    split
    · next heq =>
      rw [heq] at hevents
      exact hevents
    · next heq =>
      rw [heq] at hevents
      dsimp only
      rw [flushUnlessSelected_of_selected h]
      refine hevents.trans ?_
      split
      · exact .single (.setCursor cursor) rfl rfl
      · exact .refl _

theorem tended_mend {now : Instant} {invalidate : Bool} (h : (m.mend now invalidate).1 = false) :
    EditedBy Edit.tends m (m.mend now invalidate).2 := by
  unfold mend at h ⊢
  split
  · next hrenews =>
    rw [if_pos hrenews] at h
    cases h
  · next hkeeps =>
    rw [if_neg hkeeps] at h
    split
    · exact .refl m
    · next hsome =>
      rw [hsome] at h
      dsimp only at h
      split
      · exact .single .raiseUidNext rfl rfl
      · next hworse =>
        rw [if_neg hworse] at h
        cases h

theorem tended_reconcile (h : 0 < sessions) (settings : SyncSettings) (now : Instant)
    (invalidate : Bool) (prepared : List MessageContent) (listing : Listing)
    (cursor : Option String) (m : Mailbox) : EditedBy Edit.tends (m.mend now invalidate).2
      (m.reconcile settings sessions now invalidate prepared listing cursor).2 := by
  have hcorrected := tended_correctAll settings.updatesFlags prepared listing.taken
    { resynced := true, invalidated := (m.mend now invalidate).1 }
    ((m.mend now invalidate).2.store.corrections listing.messages) (m.mend now invalidate).2
  unfold reconcile
  dsimp only
  split
  · next heq =>
    rw [heq] at hcorrected
    exact hcorrected
  · next heq =>
    rw [heq] at hcorrected
    dsimp only
    rw [flushUnlessSelected_of_selected h]
    exact hcorrected.trans (.single (.setCursor cursor) rfl rfl)

end Mailbox

namespace SharedMailbox

variable {m : SharedMailbox}

theorem extends_applyBatch (h : 0 < m.sessions) (settings : SyncSettings)
    (since? : Option (Option String)) (events : List Prepared) (cursor : Option String) :
    m.mailbox.store.Extends
      (m.mutate (·.applyBatch settings m.sessions since? events cursor)).2.mailbox.store :=
  extends_mutate ((Mailbox.tended_applyBatch h ..).mono fun _ => Edit.keepsMessages_of_tends)

/-- Messages that are gone from a listing wait for the sessions that have the mailbox selected,
unless a new epoch begins. -/
theorem extends_reconcile (h : 0 < m.sessions) {settings : SyncSettings} {now : Instant}
    {invalidate : Bool} {prepared : List MessageContent} {listing : Listing}
    {cursor : Option String} {f : Mailbox → Except MailboxError (Tally × List Correction) × Mailbox}
    (hf : f = (·.reconcile settings m.sessions now invalidate prepared listing cursor))
    (hkept : ∀ tally corrections, (m.mutate f).1 = .ok (tally, corrections) →
      tally.invalidated = false) :
    m.mailbox.store.Extends (m.mutate f).2.mailbox.store := by
  subst hf
  cases hresult : (m.mutate _).1 with
  | error e =>
      refine .of_names ?_
      rw [MessageStore.names, (unchanged_reconcile hresult).messages, MessageStore.names]
  | ok pair =>
      obtain ⟨tally, corrections⟩ := pair
      obtain ⟨hreconcile, _⟩ := conclude_ok hresult
      obtain ⟨_, hmend, _⟩ := Mailbox.mends_reconcile (Prod.ext hreconcile rfl)
      have hsame := hmend.symm.trans (hkept tally corrections hresult)
      exact extends_mutate (((Mailbox.tended_mend hsame).trans
        (Mailbox.tended_reconcile h ..)).mono fun _ => Edit.keepsMessages_of_tends)

end SharedMailbox

namespace Site

open SharedMailbox Mailbox

/-- Nothing is reported, and the sessions that have the mailbox selected are as many. -/
structure Aside (s s' : Site) : Prop where
  sessions : s'.shared.sessions = s.shared.sessions
  notices : s'.notices = s.notices

variable {s s' s'' : Site}

namespace Aside

theorem refl (s : Site) : s.Aside s := ⟨rfl, rfl⟩

theorem trans (h : s.Aside s') (h' : s'.Aside s'') : s.Aside s'' :=
  ⟨h'.sessions.trans h.sessions, h'.notices.trans h.notices⟩

theorem interfere (ops : List Operation) (s : Site) : s.Aside (s.interfere ops) := by
  refine ⟨sessions_interfere ops s, ?_⟩
  unfold Site.interfere
  split <;> rfl

theorem wait (delay : Nat) (s : Site) : s.Aside (s.wait delay).2 := by
  unfold Site.wait
  dsimp only
  split
  · split <;> exact ⟨rfl, rfl⟩
  · exact ⟨rfl, rfl⟩

theorem receive {α : Type} (d : Delivery α) (s : Site) : s.Aside (s.receive d).2 := by
  have hwait := wait d.delay s
  unfold Site.receive
  split <;> next heq =>
    rw [heq] at hwait
    first | exact hwait | exact hwait.trans (interfere ..)

theorem record (call : Call) (s : Site) : s.Aside (s.record call) := ⟨rfl, rfl⟩

theorem ask {α : Type} {question : Site → Except Halt α × Site}
    (h : ∀ s : Site, s.Aside (question s).2) (s : Site) : s.Aside (s.ask question).2 := by
  have hnext (outages : List Outage) :
      s.Aside { s with remote := { s.remote with outages } } := ⟨rfl, rfl⟩
  unfold Site.ask
  dsimp only
  split
  · exact (hnext _).trans (h _)
  · exact hnext _

theorem fetch (cursor : Option String) (s : Site) : s.Aside (s.fetch cursor).2 := by
  refine (record _ s).trans (ask (fun s => ?_) _)
  split
  · exact .refl s
  · next d batches _ =>
    have hlater : s.Aside { s with remote := { s.remote with batches } } := ⟨rfl, rfl⟩
    exact hlater.trans (receive d _)

theorem list (s : Site) : s.Aside s.list.2 :=
  (record _ s).trans (ask (fun s => receive s.remote.listing s) _)

theorem decrypt (d : Decryption) (id : RemoteId) (secret : String) (s : Site) :
    s.Aside (s.decrypt d id secret).2 := by
  unfold Site.decrypt
  dsimp only
  refine Aside.trans ?_ (interfere ..)
  exact ⟨rfl, rfl⟩

theorem prepare (message : RemoteMessage) (s : Site) : s.Aside (s.prepare message).2 := by
  unfold Site.prepare
  dsimp only
  split
  · exact .refl s
  · exact .refl s
  · next secret d _ _ =>
    have hdecrypt := decrypt d message.id secret s
    split <;> next heq =>
      rw [heq] at hdecrypt
      exact hdecrypt

theorem prepareAll (messages : List RemoteMessage) (s : Site) :
    s.Aside (Site.prepareAll messages s).2 := by
  induction messages generalizing s with
  | nil => exact .refl s
  | cons message rest ih => exact (prepare message s).trans (ih _)

theorem prepareEvents (events : List RemoteEvent) (s : Site) :
    s.Aside (Site.prepareEvents events s).2 := by
  induction events generalizing s with
  | nil => exact .refl s
  | cons event rest ih =>
      cases event with
      | created message => exact (prepare message s).trans (ih _)
      | updated => exact ih s
      | removed => exact ih s

end Aside

/-- What the work of synchronization leaves. While sessions have the mailbox selected, and others
take no message out, none is taken out unless a new epoch is reported. -/
structure Spares (s s' : Site) : Prop where
  sessions : s'.shared.sessions = s.shared.sessions
  notices : ∀ notice ∈ s.notices, notice ∈ s'.notices
  keeps : 0 < s.shared.sessions → s.Allows Edit.keepsMessages →
    (∀ name validity, .invalidated name validity ∉ s'.notices) →
      s.shared.mailbox.store.Extends s'.shared.mailbox.store ∧ s'.Allows Edit.keepsMessages

namespace Spares

theorem refl (s : Site) : s.Spares s := ⟨rfl, fun _ h => h, fun _ h _ => ⟨.refl _, h⟩⟩

theorem trans (h : s.Spares s') (h' : s'.Spares s'') : s.Spares s'' where
  sessions := h'.sessions.trans h.sessions
  notices notice hnotice := h'.notices notice (h.notices notice hnotice)
  keeps hselected hallows hnone := by
    have hnone' : ∀ name validity, .invalidated name validity ∉ s'.notices :=
      fun name validity hnotice => hnone name validity (h'.notices _ hnotice)
    obtain ⟨hextends, hallows'⟩ := h.keeps hselected hallows hnone'
    obtain ⟨hextends', hallows''⟩ := h'.keeps (h.sessions ▸ hselected) hallows' hnone
    exact ⟨hextends.trans hextends', hallows''⟩

theorem of_aside (h : s.Aside s') (hleads : s.LeadsBy Edit.keepsMessages s') : s.Spares s' where
  sessions := h.sessions
  notices notice hnotice := by rwa [h.notices]
  keeps _ hallows _ := ⟨extends_leadsBy (hleads hallows).1, (hleads hallows).2⟩

theorem of_eq (hshared : s'.shared = s.shared) (hremote : s'.remote = s.remote)
    (hnotices : ∀ notice ∈ s.notices, notice ∈ s'.notices) : s.Spares s' where
  sessions := by rw [hshared]
  notices := hnotices
  keeps _ hallows _ := ⟨by rw [hshared]; exact .refl _, hallows.of_remote hremote⟩

theorem report (notice : Notice) (s : Site) : s.Spares (s.report notice) :=
  of_eq rfl rfl fun _ h => List.mem_append_left _ h

theorem reports (corrections : List Correction) (s : Site) :
    s.Spares (corrections.foldl (fun s c => s.report (.corrected s.name c)) s) := by
  induction corrections generalizing s with
  | nil => exact .refl s
  | cons c rest ih => exact (report (.corrected s.name c) s).trans (ih _)

theorem reshare {shared : SharedMailbox} (hsessions : shared.sessions = s.shared.sessions)
    (hextends : 0 < s.shared.sessions → s.shared.mailbox.store.Extends shared.mailbox.store) :
    s.Spares { s with shared } where
  sessions := hsessions
  notices _ h := h
  keeps hselected hallows _ := ⟨hextends hselected, hallows⟩

theorem of_reported (hsessions : s'.shared.sessions = s.shared.sessions)
    (hnotices : ∀ notice ∈ s.notices, notice ∈ s'.notices) {name : String} {validity : UidValidity}
    (hreported : .invalidated name validity ∈ s'.notices) : s.Spares s' where
  sessions := hsessions
  notices := hnotices
  keeps _ _ hnone := absurd hreported (hnone name validity)

end Spares

theorem spares_resyncFrom (fallback : Option String) (s : Site) :
    s.Spares (s.resyncFrom fallback).2 := by
  have hlist : s.Spares s.list.2 := .of_aside (.list s) (leadsBy_list s)
  unfold resyncFrom
  split
  · next h =>
    rw [h] at hlist
    exact hlist
  · next listing s₁ h =>
    rw [h] at hlist
    dsimp only
    generalize List.filter _ (RemoteMessage.firstListed listing.messages) = unknown
    generalize (listing.recreated || _) = invalidate
    replace hlist := (hlist.trans (.report (.listed s₁.name listing.messages.length) s₁)).trans
      (.of_aside (.prepareAll unknown _) (leadsBy_prepareAll unknown _))
    generalize prepareAll unknown _ = prepared at hlist ⊢
    obtain ⟨contents, t⟩ := prepared
    refine hlist.trans ?_
    generalize hmatching : (fun m => Mailbox.reconcile t.settings t.shared.sessions t.clock
      invalidate contents listing (listing.cursor <|> fallback) m) = f
    have hsessions : (t.shared.mutate f).2.sessions = t.shared.sessions := sessions_conclude ..
    rw [mutate_eq]
    have hextends (hselected) := extends_reconcile (m := t.shared) hselected hmatching.symm
    cases hresult : (t.shared.mutate f).1 with
    | error e =>
        exact .reshare hsessions fun hselected => hextends hselected fun _ _ hok => by
          rw [hresult] at hok
          cases hok
    | ok pair =>
        obtain ⟨tally, corrections⟩ := pair
        dsimp only [outcome, Except.mapError]
        cases htally : tally.invalidated with
        | true =>
            have hreports := Spares.reports corrections { t with shared := (t.shared.mutate f).2 }
            refine .of_reported (hreports.sessions.trans hsessions) (fun notice hnotice => ?_)
              (List.mem_append_left _ (List.mem_append_right _ (List.mem_singleton_self _)))
            exact List.mem_append_left _ (List.mem_append_left _ (hreports.notices notice hnotice))
        | false =>
            refine .trans (.reshare hsessions fun hselected => hextends hselected ?_)
              (.trans (.reports corrections _) (.report ..))
            intro _ _ hok
            rw [hresult] at hok
            cases hok
            exact htally

theorem spares_invalidate (s : Site) : s.Spares s.invalidate.2 := by
  have hsessions : (s.shared.invalidate s.clock).2.sessions = s.shared.sessions :=
    sessions_conclude ..
  have hinvalidate : s.mutate (fun m => ((.ok (m.invalidate s.clock).1 : Except MailboxError _),
      (m.invalidate s.clock).2)) = (outcome (s.shared.invalidate s.clock).1,
        { s with shared := (s.shared.invalidate s.clock).2 }) := mutate_eq ..
  unfold invalidate
  dsimp only
  rw [hinvalidate]
  cases hresult : (s.shared.invalidate s.clock).1 with
  | error e =>
      refine .reshare hsessions fun _ => .of_names ?_
      rw [MessageStore.names, (unchanged_invalidate hresult).messages, MessageStore.names]
  | ok validity =>
      exact .of_reported hsessions (fun _ h => List.mem_append_left _ h)
        (List.mem_append_right _ (List.mem_singleton_self _))

theorem spares_applyEvents (since? : Option (Option String)) (batch : EventBatch) (s : Site) :
    s.Spares (s.applyEvents since? batch).2 := by
  have hprepared : s.Spares (s.prepareEvents batch.events).2 :=
    .of_aside (.prepareEvents batch.events s) (leadsBy_prepareEvents batch.events s)
  unfold applyEvents
  dsimp only
  generalize s.prepareEvents batch.events = prepared at hprepared ⊢
  generalize (if prepared.2.settings.ordered then _ else _) = events
  obtain ⟨_, t⟩ := prepared
  have hmutate : t.Spares { t with shared := (t.shared.mutate (·.applyBatch t.settings
      t.shared.sessions since? events batch.cursor)).2 } :=
    .reshare (sessions_conclude ..) fun hselected => extends_applyBatch hselected ..
  refine hprepared.trans ?_
  dsimp only
  rw [mutate_eq]
  split <;> next heq =>
    obtain ⟨_, rfl⟩ := Prod.mk.inj heq
    first | exact hmutate | exact hmutate.trans (.report ..)

theorem spares_apply (since? : Option (Option String)) (batch : EventBatch) (s : Site) :
    s.Spares (s.apply since? batch).2 := by
  have hevents := spares_applyEvents since? batch s
  unfold apply
  split
  · exact spares_resyncFrom _ s
  · split
    · next s₁ heq =>
      rw [heq] at hevents
      have hinvalidate := spares_invalidate s₁
      split <;> next heq' =>
        rw [heq'] at hinvalidate
        first
          | exact hevents.trans hinvalidate
          | exact (hevents.trans hinvalidate).trans (spares_resyncFrom _ _)
    · next heq =>
      rw [heq] at hevents
      exact hevents.trans (spares_resyncFrom _ _)
    · exact hevents

theorem spares_sync (s : Site) : s.Spares s.sync.2 := by
  have hfetch : s.Spares (s.fetch s.shared.mailbox.cursor).2 :=
    .of_aside (.fetch _ s) (leadsBy_fetch _ s)
  unfold sync
  dsimp only
  split
  · next heq =>
    rw [heq] at hfetch
    exact hfetch
  · next heq =>
    rw [heq] at hfetch
    exact (hfetch.trans (.report ..)).trans (spares_apply ..)

theorem spares_attempt (deadline : Nat) (s : Site) : s.Spares (s.attempt deadline).2 := by
  have hsync : s.Spares (sync { s with deadline? := some deadline }).2 := by
    refine .trans ?_ (spares_sync _)
    exact .of_eq rfl rfl fun _ h => h
  unfold attempt
  split <;> next heq =>
    rw [heq] at hsync
    exact hsync.trans (.of_eq rfl rfl fun _ h => h)

theorem spares_workUntil (stop rounds : Nat) (backoff : Backoff) (s : Site) :
    s.Spares (s.workUntil stop rounds backoff) := by
  induction rounds generalizing backoff s with
  | zero => exact .refl s
  | succ rounds ih =>
      unfold workUntil
      dsimp only
      have hattempt :=
        spares_attempt (min (s.elapsed + 1000 * s.settings.retry.timeout.toNat) stop) s
      generalize s.attempt _ = attempt at hattempt ⊢
      have hlater (wake : Nat) (backoff : Backoff) : s.Spares
          (if stop ≤ wake then attempt.2
          else workUntil stop rounds backoff { attempt.2 with elapsed := wake }) := by
        split
        · exact hattempt
        · refine hattempt.trans (.trans ?_ (ih _ _))
          exact .of_eq rfl rfl fun _ h => h
      split
      · exact hattempt
      · exact hlater _ _

/-- While sessions have a mailbox selected, no round takes a message out of it unless it reports a
new epoch. -/
theorem spares_run (round : Round) (s : Site) : s.Spares (round.run s) := by
  cases round with
  | sync => exact spares_sync s
  | apply since? batch => exact spares_apply since? batch s
  | resync => exact spares_resyncFrom none s
  | invalidate => exact spares_invalidate s
  | work milliseconds =>
      exact (spares_workUntil _ _ _ _).trans (.of_eq rfl rfl fun _ h => h)

end Site

end MailBridge

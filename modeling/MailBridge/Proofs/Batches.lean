import MailBridge.Proofs.Holding

/-! # What a batch comes to

Whether a batch finds UIDs for all messages that it brings, whether its outcome can be saved, and
what it leaves once the messages that wait have been expunged does not depend on the order of its
events any further than what it makes of each message does.
-/

namespace MailBridge

namespace Mailbox

variable {m m' : Mailbox} {id : RemoteId} {uid : Uid} {updatesFlags : Bool} {tally tally' : Tally}

/-! ## UIDs for the messages that come -/

/-- The messages that a batch brings and that are not known yet. -/
def newcomers (m : Mailbox) (events : List Prepared) : Nat :=
  (events.filterMap Prepared.content?).countP fun content => (m.holding? content.remoteId).isNone

theorem Coherent.holding?_eq_none (h : m.Coherent) :
    m.holding? id = none ↔ m.store.uidOf? id = none := by
  unfold holding?
  cases hname : m.store.uidOf? id with
  | none => simp
  | some uid =>
      obtain ⟨r, found, _⟩ := h.uidOf?_eq_some hname
      simp [holdingAt?, found]

theorem known_applyEvent {event : Prepared} (h : m.Coherent)
    (hok : m.applyEvent updatesFlags tally event = (.ok tally', m'))
    (hother : ∀ content, event.content? = some content → content.remoteId ≠ id) :
    (m'.holding? id).isNone = (m.holding? id).isNone := by
  rw [holding?_applyEvent h hok]
  cases event with
  | create content =>
      have hne : content.remoteId ≠ id := hother content rfl
      simp [Prepared.concerns, hne]
  | update => split <;> simp [Prepared.turn]
  | remove => split <;> simp [Prepared.turn]

theorem receive_frame (content : MessageContent) (m : Mailbox) :
    (m.receive content).2.name = m.name ∧ (m.receive content).2.cursor = m.cursor ∧
      (m.receive content).2.uids.validity = m.uids.validity := by
  unfold receive
  split
  · split
    · exact ⟨rfl, rfl, rfl⟩
    · split
      · simp [markUnsaved, change, advance]
      · exact ⟨rfl, rfl, rfl⟩
  · split
    · exact ⟨rfl, rfl, rfl⟩
    · next issued =>
      have hvalidity := (UidSpace.issue?_eq_some issued).2.2
      dsimp only
      split <;> simp [markUnsaved, advance, hvalidity]

theorem mergeFlags_frame (name : RemoteId) (remote : Flags) (taken : Instant) (m : Mailbox) :
    (m.mergeFlags name remote taken).2.name = m.name ∧
      (m.mergeFlags name remote taken).2.cursor = m.cursor ∧
      (m.mergeFlags name remote taken).2.uids = m.uids := by
  unfold mergeFlags
  split
  · exact ⟨rfl, rfl, rfl⟩
  · split
    · exact ⟨rfl, rfl, rfl⟩
    · next r _ =>
      dsimp only
      generalize (if r.isUndecryptable = true then _ else _) = flags
      split
      · simp [markUnsaved, change, advance]
      · split <;> simp

theorem markRemoved_frame (name : RemoteId) (m : Mailbox) :
    (m.markRemoved name).2.name = m.name ∧ (m.markRemoved name).2.cursor = m.cursor ∧
      (m.markRemoved name).2.uids = m.uids := by
  unfold markRemoved
  split
  · exact ⟨rfl, rfl, rfl⟩
  · split
    · exact ⟨rfl, rfl, rfl⟩
    · dsimp only
      split <;> split <;> simp [markUnsaved, change, advance]

theorem receive_known {content : MessageContent} (h : m.Coherent)
    (hname : m.store.uidOf? content.remoteId = some uid) :
    ∃ receipt m', m.receive content = (.ok receipt, m') ∧ m'.uids = m.uids := by
  obtain ⟨r, found, _⟩ := h.uidOf?_eq_some hname
  unfold receive
  simp only [hname, found]
  split
  · exact ⟨_, _, rfl, by simp [markUnsaved, change, advance]⟩
  · exact ⟨_, _, rfl, rfl⟩

theorem applyEvent_create {content : MessageContent} {receipt : Receipt}
    (hok : m.receive content = (.ok receipt, m')) (updatesFlags : Bool) (tally : Tally) :
    ∃ tally', m.applyEvent updatesFlags tally (.create content) = (.ok tally', m') := by
  unfold applyEvent
  simp only [hok]
  split <;> exact ⟨_, rfl⟩

theorem applyEvent_frame (updatesFlags : Bool) (tally : Tally) (event : Prepared) (m : Mailbox) :
    (m.applyEvent updatesFlags tally event).2.name = m.name ∧
      (m.applyEvent updatesFlags tally event).2.cursor = m.cursor ∧
      (m.applyEvent updatesFlags tally event).2.uids.validity = m.uids.validity := by
  cases event with
  | create content =>
      have hframe := receive_frame content m
      unfold applyEvent
      dsimp only
      split
      · next heq =>
        rw [heq] at hframe
        exact hframe
      · next heq =>
        rw [heq] at hframe
        split <;> exact hframe
  | update name flags taken =>
      obtain ⟨hname, hcursor, huids⟩ := mergeFlags_frame name flags taken m
      unfold applyEvent
      dsimp only
      split
      · split <;> next heq =>
          rw [heq] at hname hcursor huids
          exact ⟨hname, hcursor, congrArg UidSpace.validity huids⟩
      · exact ⟨rfl, rfl, rfl⟩
  | remove name =>
      obtain ⟨hname, hcursor, huids⟩ := markRemoved_frame name m
      unfold applyEvent
      dsimp only
      split <;> next heq =>
        rw [heq] at hname hcursor huids
        exact ⟨hname, hcursor, congrArg UidSpace.validity huids⟩

theorem applyEvent_quiet {event : Prepared} (hquiet : event.content? = none) (updatesFlags : Bool)
    (tally : Tally) (m : Mailbox) : ∃ tally' m',
      m.applyEvent updatesFlags tally event = (.ok tally', m') ∧ m'.uids = m.uids := by
  cases event with
  | create content => cases hquiet
  | update name flags taken =>
      have huids := (mergeFlags_frame name flags taken m).2.2
      unfold applyEvent
      dsimp only
      split
      · split <;> next heq =>
          rw [heq] at huids
          exact ⟨_, _, rfl, huids⟩
      · exact ⟨_, _, rfl, rfl⟩
  | remove name =>
      have huids := (markRemoved_frame name m).2.2
      unfold applyEvent
      dsimp only
      split <;> next heq =>
        rw [heq] at huids
        exact ⟨_, _, rfl, huids⟩

theorem applyEvent_room (ho : m.Orderly) (h : m.Coherent) (updatesFlags : Bool) (tally : Tally)
    (event : Prepared) :
    (∃ tally' m', m.applyEvent updatesFlags tally event = (.ok tally', m') ∧
      m'.uids.bound = m.uids.bound + m.newcomers [event]) ∨
    (∃ m', m.applyEvent updatesFlags tally event = (.error .uidsExhausted, m')) ∧
      m.uids.bound = maxWord + 1 ∧ m.newcomers [event] = 1 := by
  cases hcontent : event.content? with
  | none =>
      obtain ⟨tally', m', hok, huids⟩ := applyEvent_quiet hcontent updatesFlags tally m
      have hnobody : m.newcomers [event] = 0 := by simp [newcomers, hcontent]
      exact .inl ⟨tally', m', hok, by rw [huids, hnobody, Nat.add_zero]⟩
  | some content =>
      obtain rfl : event = .create content := by
        cases event <;> cases hcontent
        rfl
      cases hname : m.store.uidOf? content.remoteId with
      | none =>
          have hunknown := h.holding?_eq_none.2 hname
          have hone : m.newcomers [.create content] = 1 := by simp [newcomers, hcontent, hunknown]
          rcases receive_new ho hname with ⟨hfull, herror⟩ | ⟨receipt, m', hok, hbound, _⟩
          · obtain ⟨m', hreceive⟩ : ∃ m', m.receive content = (.error .uidsExhausted, m') :=
              ⟨_, Prod.ext herror rfl⟩
            exact .inr ⟨⟨m', by simp only [applyEvent, hreceive]⟩, hfull, hone⟩
          · obtain ⟨tally', hevent⟩ := applyEvent_create hok updatesFlags tally
            exact .inl ⟨tally', m', hevent, by rw [hbound, hone]⟩
      | some uid =>
          obtain ⟨receipt, m', hok, huids⟩ := receive_known h hname
          obtain ⟨tally', hevent⟩ := applyEvent_create hok updatesFlags tally
          have hknown : m.holding? content.remoteId ≠ none := by
            rw [ne_eq, h.holding?_eq_none, hname]
            exact Option.some_ne_none uid
          have hnobody : m.newcomers [.create content] = 0 := by
            simp [newcomers, hcontent, hknown]
          exact .inl ⟨tally', m', hevent, by rw [huids, hnobody, Nat.add_zero]⟩

theorem applyEvents_frame (updatesFlags : Bool) (tally : Tally) (events : List Prepared)
    (m : Mailbox) : (m.applyEvents updatesFlags tally events).2.name = m.name ∧
      (m.applyEvents updatesFlags tally events).2.cursor = m.cursor ∧
      (m.applyEvents updatesFlags tally events).2.uids.validity = m.uids.validity := by
  induction events generalizing m tally with
  | nil => exact ⟨rfl, rfl, rfl⟩
  | cons event rest ih =>
      have hone := applyEvent_frame updatesFlags tally event m
      unfold applyEvents
      split
      · next hevent =>
        rw [hevent] at hone
        exact hone
      · next tally' m' hevent =>
        rw [hevent] at hone
        obtain ⟨hname, hcursor, hvalidity⟩ := ih tally' m'
        exact ⟨hname.trans hone.1, hcursor.trans hone.2.1, hvalidity.trans hone.2.2⟩

/-- A batch that brings no message twice runs out of UIDs exactly if it brings more messages that
are not known than there are UIDs left. -/
theorem applyEvents_room {events : List Prepared} (ho : m.Orderly) (h : m.Coherent)
    (honce : ((events.filterMap Prepared.content?).map (·.remoteId)).Nodup)
    (updatesFlags : Bool) (tally : Tally) :
    (∃ tally' m', m.applyEvents updatesFlags tally events = (.ok tally', m') ∧
      m'.uids.bound = m.uids.bound + m.newcomers events) ∨
    (m.applyEvents updatesFlags tally events).1 = .error .uidsExhausted ∧
      maxWord + 1 < m.uids.bound + m.newcomers events := by
  induction events generalizing m tally with
  | nil => exact .inl ⟨tally, m, rfl, by simp [newcomers]⟩
  | cons event rest ih =>
      have hsplit : m.newcomers (event :: rest) = m.newcomers [event] + m.newcomers rest := by
        unfold newcomers
        rw [← List.countP_append, ← List.filterMap_append]
        rfl
      have hcons : event :: rest = [event] ++ rest := rfl
      rw [hcons, List.filterMap_append, List.map_append, List.nodup_append] at honce
      obtain ⟨_, hrest, hapart⟩ := honce
      unfold applyEvents
      rcases applyEvent_room ho h updatesFlags tally event with
        ⟨tally', m', hevent, hbound⟩ | ⟨⟨m', hevent⟩, hfull, hone⟩
      · have hedited : Edited m m' := by
          have hedited := edited_applyEvent updatesFlags tally event m
          rwa [hevent] at hedited
        have ho' : m'.Orderly := by
          obtain ⟨edits, rfl⟩ := hedited
          exact ho.editAll edits
        -- the names that are still to come are as they were
        have hsame : m'.newcomers rest = m.newcomers rest := by
          refine List.countP_congr fun content hcontent => ?_
          have hother : ∀ c, event.content? = some c → c.remoteId ≠ content.remoteId := by
            intro c hc
            refine hapart _ (List.mem_map_of_mem ?_) _ (List.mem_map_of_mem hcontent)
            simp [hc]
          rw [known_applyEvent h hevent hother]
        rw [hevent]
        rcases ih ho' (h.edited hedited) hrest tally' with
          ⟨tally'', m'', hok, hbound'⟩ | ⟨herror, hfull⟩
        · exact .inl ⟨tally'', m'', hok, by omega⟩
        · exact .inr ⟨herror, by omega⟩
      · rw [hevent]
        exact .inr ⟨rfl, by omega⟩

/-! ## What is noted, and what a flush leaves -/

/-- Something that the mailbox has is to be saved. -/
def Notes (m : Mailbox) : Prop := ∃ id held, m.holding? id = some held ∧ held.unsaved = true

theorem Notes.not_isEmpty (h : m.Notes) : m.unsaved.isEmpty = false := by
  obtain ⟨id, held, hheld, hunsaved⟩ := h
  obtain ⟨uid, _, hat⟩ := Option.bind_eq_some_iff.1 hheld
  obtain ⟨r, _, rfl⟩ := Option.map_eq_some_iff.1 hat
  have hmem : uid ∈ m.unsaved.written := of_decide_eq_true hunsaved
  have hsome : m.unsaved.written.isEmpty = false := by
    refine Bool.eq_false_iff.2 fun hempty => ?_
    rw [OrderedSet.isEmpty_iff.1 hempty] at hmem
    exact OrderedSet.mem_empty hmem
  simp [Unsaved.isEmpty, hsome]

theorem Notes.applyEvent {event : Prepared} (h : m.Coherent)
    (hok : m.applyEvent updatesFlags tally event = (.ok tally', m')) (hnotes : m.Notes) :
    m'.Notes := by
  obtain ⟨id, held, hheld, hunsaved⟩ := hnotes
  have hafter := holding?_applyEvent h hok id
  rw [hheld] at hafter
  split at hafter
  · cases event with
    | create content =>
        refine ⟨id, _, hafter, ?_⟩
        simp only [Option.elim_some, Holding.refreshed]
        split
        · rfl
        · exact hunsaved
    | update name flags taken => exact ⟨id, _, hafter, by simp [Holding.merged, hunsaved]⟩
    | remove name => exact ⟨id, _, hafter, by simp [Holding.removed, hunsaved]⟩
  · exact ⟨id, held, hafter, hunsaved⟩

theorem Coherent.notes (h : m.Coherent) (hname : m.store.uidOf? id = some uid)
    (hmem : uid ∈ m.unsaved.written) : m.Notes := by
  obtain ⟨r, found, _⟩ := h.uidOf?_eq_some hname
  refine ⟨id, ⟨r.unnumbered, decide (uid ∈ m.pending), true⟩, ?_, rfl⟩
  simp [holding?, hname, holdingAt?, found, hmem]

theorem mem_written_mark (u : Unsaved) : uid ∈ (u.mark uid).written :=
  OrderedSet.mem_insert.2 (.inl rfl)

theorem unsaved_receive (content : MessageContent) (m : Mailbox) :
    (m.receive content).2.unsaved = m.unsaved ∨
      ∃ uid, (m.receive content).2.store.uidOf? content.remoteId = some uid ∧
        uid ∈ (m.receive content).2.unsaved.written := by
  unfold receive
  split
  · next uid hname =>
    split
    · exact .inl rfl
    · split
      · exact .inr ⟨uid, by simp [markUnsaved, hname], mem_written_mark _⟩
      · exact .inl rfl
  · split
    · exact .inl rfl
    · next uid uids _ =>
      dsimp only
      split
      · simp [advance]
      · next store added =>
        obtain ⟨_, _, _, hindex⟩ := MessageStore.append?_eq_some added
        refine .inr ⟨uid, ?_, mem_written_mark _⟩
        simp [markUnsaved, MessageStore.uidOf?, hindex, Message.arrive]

theorem unsaved_mergeFlags (h : m.Coherent) (name : RemoteId) (remote : Flags) (taken : Instant) :
    (m.mergeFlags name remote taken).2.unsaved = m.unsaved ∨
      ∃ uid, (m.mergeFlags name remote taken).2.store.uidOf? name = some uid ∧
        uid ∈ (m.mergeFlags name remote taken).2.unsaved.written := by
  cases hname : m.store.uidOf? name with
  | none =>
      unfold mergeFlags
      simp only [hname, true_or]
  | some uid =>
      obtain ⟨r, found, _⟩ := h.uidOf?_eq_some hname
      rw [uidOf?_mergeFlags, (mergeFlags_notes hname found remote taken).2]
      split
      · exact .inl rfl
      · exact .inr ⟨uid, hname, mem_written_mark _⟩

theorem unsaved_markRemoved (h : m.Coherent) (name : RemoteId) :
    (m.markRemoved name).2.unsaved = m.unsaved ∨
      ∃ uid, (m.markRemoved name).2.store.uidOf? name = some uid ∧
        uid ∈ (m.markRemoved name).2.unsaved.written := by
  cases hname : m.store.uidOf? name with
  | none =>
      unfold markRemoved
      simp only [hname, true_or]
  | some uid =>
      obtain ⟨r, found, _⟩ := h.uidOf?_eq_some hname
      rw [uidOf?_markRemoved, (markRemoved_notes hname found).2]
      split
      · exact .inl rfl
      · exact .inr ⟨uid, hname, mem_written_mark _⟩

theorem unsaved_applyEvent {event : Prepared} (h : m.Coherent)
    (hok : m.applyEvent updatesFlags tally event = (.ok tally', m')) :
    m'.unsaved = m.unsaved ∨ m'.Notes := by
  have h' := h.applyEvent hok
  have hmarked {name : RemoteId} (hcases : m'.unsaved = m.unsaved ∨
      ∃ uid, m'.store.uidOf? name = some uid ∧ uid ∈ m'.unsaved.written) :
      m'.unsaved = m.unsaved ∨ m'.Notes :=
    hcases.imp_right fun ⟨uid, hname, hmem⟩ => h'.notes hname hmem
  cases event with
  | create content =>
      have hreceive := unsaved_receive content m
      simp only [applyEvent] at hok
      split at hok
      · cases hok
      · next heq =>
        rw [heq] at hreceive
        split at hok <;> cases hok <;> exact hmarked hreceive
  | update name flags taken =>
      have hmerge := unsaved_mergeFlags h name flags taken
      simp only [applyEvent] at hok
      split at hok
      · split at hok <;> next heq =>
          rw [heq] at hmerge
          cases hok
          exact hmarked hmerge
      · cases hok
        exact .inl rfl
  | remove name =>
      have hmark := unsaved_markRemoved h name
      simp only [applyEvent] at hok
      split at hok <;> next heq =>
        rw [heq] at hmark
        cases hok
        exact hmarked hmark

theorem unsaved_applyEvents {events : List Prepared} (h : m.Coherent)
    (hok : m.applyEvents updatesFlags tally events = (.ok tally', m')) :
    m'.unsaved = m.unsaved ∨ m'.Notes := by
  have hrun {events : List Prepared} {m₁ : Mailbox} {tally₁ : Tally} (h₁ : m₁.Coherent)
      (hok : m₁.applyEvents updatesFlags tally₁ events = (.ok tally', m'))
      (hcases : m₁.unsaved = m.unsaved ∨ m₁.Notes) : m'.unsaved = m.unsaved ∨ m'.Notes := by
    induction events generalizing m₁ tally₁ with
    | nil =>
        cases hok
        exact hcases
    | cons event rest ih =>
        unfold applyEvents at hok
        split at hok
        · cases hok
        · next hevent =>
          refine ih (h₁.applyEvent hevent) hok ?_
          rcases hcases with hsame | hnotes
          · exact (unsaved_applyEvent h₁ hevent).imp_left (·.trans hsame)
          · exact .inr (hnotes.applyEvent h₁ hevent)
  exact hrun h hok (.inl rfl)

theorem unsaved_flushPending (m : Mailbox) : m.flushPending.2.unsaved =
    (m.store.removeWhere fun r => decide (r.uid ∈ m.pending)).1.foldl (fun u r => u.drop r.uid)
      m.unsaved := by
  unfold flushPending
  split
  · next hempty =>
    have hnone : (m.store.removeWhere fun r => decide (r.uid ∈ m.pending)).1 = [] := by
      rw [OrderedSet.isEmpty_iff.1 hempty]
      simp [MessageStore.removeWhere]
    rw [hnone]
    rfl
  · unfold settleRemoval
    dsimp only
    split
    · next hnone =>
      rw [List.isEmpty_iff.1 hnone]
      rfl
    · rw [noteRemoved_eq, settle_foldl]
      rfl

theorem holding?_flushPending (h : m.Coherent) (id : RemoteId) :
    m.flushPending.2.holding? id = (m.holding? id).filter fun held => !held.leaving := by
  obtain ⟨hstore, hpending⟩ := flushPending_spec m
  have hnames : m.flushPending.2.store.uidOf? id =
      if ∃ x ∈ (m.store.removeWhere fun r => decide (r.uid ∈ m.pending)).1, x.remoteId = id
      then none else m.store.uidOf? id := by
    rw [hstore, MessageStore.uidOf?_removeWhere]
  unfold holding?
  rw [hnames]
  cases hname : m.store.uidOf? id with
  | none =>
      rw [ite_self]
      rfl
  | some uid =>
      obtain ⟨r, found, hr, rfl⟩ := h.uidOf?_eq_some hname
      have hu := uid_of_found found
      by_cases hqueued : uid ∈ m.pending
      · have hgone : ∃ x ∈ (m.store.removeWhere fun r => decide (r.uid ∈ m.pending)).1,
            x.remoteId = r.remoteId :=
          ⟨r, MessageStore.mem_removed.2 ⟨hr, decide_eq_true (hu ▸ hqueued)⟩, rfl⟩
        rw [if_pos hgone]
        simp [holdingAt?, found, hqueued, Option.filter]
      · have hstays : ¬ ∃ x ∈ (m.store.removeWhere fun r => decide (r.uid ∈ m.pending)).1,
            x.remoteId = r.remoteId := by
          rintro ⟨x, hx, hxr⟩
          obtain ⟨hx, hwaits⟩ := MessageStore.mem_removed.1 hx
          rw [h.eq_of_remoteId hx hr hxr, hu] at hwaits
          exact hqueued (of_decide_eq_true hwaits)
        have hleft : m.flushPending.2.store.get? uid = some r := by
          rw [hstore, ← hu]
          refine MessageStore.get?_of_mem (h.distinct.removeWhere _) ?_
          exact MessageStore.mem_removeWhere.2 ⟨hr, decide_eq_false (hu ▸ hqueued)⟩
        have hwritten : uid ∈ m.flushPending.2.unsaved.written ↔ uid ∈ m.unsaved.written := by
          rw [unsaved_flushPending, foldl_drop]
          dsimp only
          rw [mem_foldl_erase, and_iff_left]
          rintro x hx rfl
          exact hqueued (of_decide_eq_true (MessageStore.mem_removed.1 hx).2)
        rw [if_neg hstays]
        simp [holdingAt?, hleft, found, hpending, hqueued, hwritten, Option.filter]

end Mailbox

end MailBridge

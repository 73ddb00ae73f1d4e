import MailBridge.Proofs.LocalFlags
import MailBridge.Proofs.Recovery
import MailBridge.Proofs.Saving

/-! # What a mailbox has under a remote name

UIDs and modification sequences apart, what becomes of a message is decided by the events that have
its remote name, in their order. So two batches leave the same messages if they have the same
events of each message in the same order, however the events of different messages are mixed.
-/

namespace MailBridge

namespace Message

/-- The message without its UID and its modification sequence. -/
def unnumbered (r : Message) : Message := { r with uid := .least, modseq := .zero }

theorem unnumbered_arrive (content : MessageContent) (uid : Uid) (next : ModSeq) :
    (arrive content uid next).unnumbered = .arrive content .least .zero := rfl

theorem unnumbered_merged (r : Message) (remote : Flags) (taken : Instant) (next : ModSeq) :
    (r.merged remote taken next).unnumbered = r.unnumbered.merged remote taken .zero := by
  unfold merged unnumbered
  dsimp only
  rw [ite_self]
  rfl

def withdrawn (r : Message) (next : ModSeq) : Message :=
  { r with
    flags := OrderedSet.insert .deleted r.flags
    modseq := if Flags.isDeleted r.flags then r.modseq else next }

theorem unnumbered_withdrawn (r : Message) (next : ModSeq) :
    (r.withdrawn next).unnumbered = r.unnumbered.withdrawn .zero := by
  unfold withdrawn unnumbered
  dsimp only
  rw [ite_self]

end Message

/-- A message as it is told by its remote name. -/
structure Holding where
  /-- The message, without its numbers. -/
  message : Message
  /-- It waits to be expunged. -/
  leaving : Bool
  /-- It has to be saved. -/
  unsaved : Bool
deriving DecidableEq

namespace Holding

def arrived (content : MessageContent) : Holding := ⟨.arrive content .least .zero, false, true⟩

def refreshed (content : MessageContent) (h : Holding) : Holding :=
  if h.message.isRefreshedBy content then
    { h with message := h.message.refresh content .zero, unsaved := true }
  else h

def merged (remote : Flags) (taken : Instant) (h : Holding) : Holding :=
  let message := h.message.merged remote taken .zero
  { h with message, unsaved := h.unsaved || decide (message.flags ≠ h.message.flags) }

def removed (h : Holding) : Holding where
  message := h.message.withdrawn .zero
  leaving := true
  unsaved := h.unsaved || !h.leaving

end Holding

namespace Prepared

/-- Whether the event is about a remote name. Updates are about nothing if they are ignored. -/
def concerns (updatesFlags : Bool) (id : RemoteId) : Prepared → Bool
  | create content => content.remoteId == id
  | update other _ _ => updatesFlags && other == id
  | remove other => other == id

/-- What the event makes of the message that it is about. -/
def turn (h? : Option Holding) : Prepared → Option Holding
  | create content => some (h?.elim (.arrived content) (.refreshed content))
  | update _ flags taken => h?.map (.merged flags taken)
  | remove _ => h?.map .removed

end Prepared

namespace Mailbox

def holdingAt? (m : Mailbox) (uid : Uid) : Option Holding :=
  (m.store.get? uid).map fun r =>
    ⟨r.unnumbered, decide (uid ∈ m.pending), decide (uid ∈ m.unsaved.written)⟩

/-- What the mailbox has under a remote name. -/
def holding? (m : Mailbox) (id : RemoteId) : Option Holding :=
  (m.store.uidOf? id).bind m.holdingAt?

variable {m m' : Mailbox} {id : RemoteId} {uid : Uid}

theorem holdingAt?_congr (hget : m'.store.get? uid = m.store.get? uid)
    (hpending : uid ∈ m'.pending ↔ uid ∈ m.pending)
    (hwritten : uid ∈ m'.unsaved.written ↔ uid ∈ m.unsaved.written) :
    m'.holdingAt? uid = m.holdingAt? uid := by
  unfold holdingAt?
  rw [hget]
  simp only [hpending, hwritten]

theorem message_holding? :
    (m.holding? id).map (·.message) = (m.store.getByRemoteId? id).map Message.unnumbered := by
  unfold holding? MessageStore.getByRemoteId? holdingAt?
  cases m.store.uidOf? id with
  | none => rfl
  | some uid => simp [Option.map_map, Function.comp_def]

theorem presence_of_holding? (h : m.Coherent) : m.presence id =
    (m.holding? id).elim .absent fun held => if held.leaving then .leaving else .present := by
  unfold presence holding? holdingAt?
  cases hname : m.store.uidOf? id with
  | none => rfl
  | some uid =>
      obtain ⟨r, found, _⟩ := h.uidOf?_eq_some hname
      simp [found]

theorem Coherent.name_eq (h : m.Coherent) {other : RemoteId} (hname : m.store.uidOf? id = some uid)
    (hother : m.store.uidOf? other = some uid) : id = other := by
  obtain ⟨r, found, _, rfl⟩ := h.uidOf?_eq_some hname
  obtain ⟨r', found', _, rfl⟩ := h.uidOf?_eq_some hother
  rw [found] at found'
  rw [Option.some.inj found']

/-- What is done to the message with a UID is done to the message with its name. -/
theorem Coherent.holding?_turned (h : m.Coherent) {name : RemoteId}
    (hname : m.store.uidOf? name = some uid)
    (hnames : ∀ id, m'.store.uidOf? id = m.store.uidOf? id) {f : Holding → Holding}
    (hturned : ∀ other, m'.holdingAt? other =
      if other = uid then (m.holdingAt? other).map f else m.holdingAt? other) (id : RemoteId) :
    m'.holding? id = if name = id then (m.holding? id).map f else m.holding? id := by
  unfold holding?
  rw [hnames]
  split
  · next heq =>
    subst heq
    rw [hname, Option.bind_some, Option.bind_some, hturned, if_pos rfl]
  · next hne =>
    cases hother : m.store.uidOf? id with
    | none => rfl
    | some other =>
        have hapart : other ≠ uid := by
          rintro rfl
          exact hne (h.name_eq hname hother)
        rw [Option.bind_some, Option.bind_some, hturned, if_neg hapart]

theorem holdingAt?_change {old r : Message} (found : m.store.get? uid = some old)
    (huid : r.uid = uid) (other : Uid) : ((m.change r).markUnsaved uid).holdingAt? other =
      if other = uid then some ⟨r.unnumbered, decide (uid ∈ m.pending), true⟩
      else m.holdingAt? other := by
  subst huid
  have hpending : (m.change r).pending = m.pending := by simp [change, advance]
  have hwritten : (m.change r).unsaved = m.unsaved := by simp [change, advance]
  split
  · next heq =>
    subst heq
    simp [holdingAt?, markUnsaved, Unsaved.mark, hpending, MessageStore.get?_update, found]
  · next hne =>
    refine holdingAt?_congr ?_ ?_ ?_
    · simp [markUnsaved, MessageStore.get?_update_ne hne]
    · simp [markUnsaved, hpending]
    · simp [markUnsaved, Unsaved.mark, hwritten, hne]

/-! ## What single changes do to it -/

theorem holding?_receive_known {content : MessageContent} (h : m.Coherent)
    (hname : m.store.uidOf? content.remoteId = some uid) (id : RemoteId) :
    (m.receive content).2.holding? id =
      if content.remoteId = id then (m.holding? id).map (.refreshed content)
      else m.holding? id := by
  obtain ⟨r, found, _⟩ := h.uidOf?_eq_some hname
  unfold receive
  simp only [hname, found]
  split
  · next hnews =>
    have hnews' : r.unnumbered.isRefreshedBy content = true := hnews
    have hu := uid_of_found found
    refine h.holding?_turned hname (fun id => by simp [markUnsaved]) (fun other => ?_) id
    rw [holdingAt?_change (r := r.refresh content m.modseq.next) found hu]
    split
    · next heq =>
      simp only [heq, holdingAt?, found, Option.map_some, Holding.refreshed, hnews', if_true]
      rfl
    · rfl
  · next hsame =>
    have hsame' : ¬ r.unnumbered.isRefreshedBy content = true := hsame
    refine h.holding?_turned hname (fun _ => rfl) (fun other => ?_) id
    split
    · next heq =>
      simp only [heq, holdingAt?, found, Option.map_some, Holding.refreshed, if_neg hsame']
    · rfl

theorem holding?_receive_new {content : MessageContent} {receipt : Receipt} (h : m.Coherent)
    (hnew : m.store.uidOf? content.remoteId = none)
    (hok : m.receive content = (.ok receipt, m')) (id : RemoteId) : m'.holding? id =
      if content.remoteId = id then some (.arrived content) else m.holding? id := by
  unfold receive at hok
  simp only [hnew] at hok
  split at hok
  · cases hok
  · next uid uids issued =>
    split at hok
    · cases hok
    · next store added =>
      cases hok
      rw [note_store, note_modseq] at added
      obtain ⟨hbelow, _, hmessages, hindex⟩ := MessageStore.append?_eq_some added
      have hunused : ∀ x ∈ m.store.messages, x.uid ≠ uid := by
        rintro x hx rfl
        exact Nat.lt_irrefl _ (hbelow x hx)
      have hname (id : RemoteId) : store.uidOf? id =
          if id = content.remoteId then some uid else m.store.uidOf? id := by
        rw [MessageStore.uidOf?, hindex, OrderedMap.get?_insert]
        rfl
      unfold holding?
      dsimp only [markUnsaved]
      rw [hname]
      by_cases hid : content.remoteId = id
      · subst hid
        have hcame : Message.arrive content uid m.modseq.next ∈ store.messages := by
          rw [hmessages]
          exact List.mem_append_right _ (List.mem_singleton_self _)
        have hget : store.get? uid = some (.arrive content uid m.modseq.next) :=
          MessageStore.get?_of_mem (h.distinct.append? added) hcame
        have hpending : uid ∉ m.pending := by
          intro hqueued
          obtain ⟨x, hx, hu⟩ := h.queued uid hqueued
          exact hunused x hx hu
        rw [if_pos rfl, if_pos rfl, Option.bind_some]
        simp [holdingAt?, hget, advance, hpending, Unsaved.mark, Message.unnumbered_arrive,
          Holding.arrived]
      · rw [if_neg hid, if_neg (Ne.symm hid)]
        cases hother : m.store.uidOf? id with
        | none => rfl
        | some other =>
            obtain ⟨x, found, hx, _⟩ := h.uidOf?_eq_some hother
            have hapart : other ≠ uid := uid_of_found found ▸ hunused x hx
            refine holdingAt?_congr ?_ ?_ ?_
            · exact MessageStore.get?_append?_ne h.distinct added hapart
            · simp [advance]
            · simp [advance, Unsaved.mark, hapart]

theorem mergeFlags_notes {name : RemoteId} {r : Message} (hname : m.store.uidOf? name = some uid)
    (found : m.store.get? uid = some r) (remote : Flags) (taken : Instant) :
    (m.mergeFlags name remote taken).2.pending = m.pending ∧
      (m.mergeFlags name remote taken).2.unsaved =
        if (r.merged remote taken m.modseq.next).flags = r.flags then m.unsaved
        else m.unsaved.mark uid := by
  have hflags : (r.merged remote taken m.modseq.next).flags =
      if r.isUndecryptable then
        OrderedSet.insert .undecryptable (Flags.merge r.flags r.localChanges remote taken)
      else Flags.merge r.flags r.localChanges remote taken := rfl
  rw [hflags]
  unfold mergeFlags
  simp only [hname, found]
  generalize (if r.isUndecryptable = true then _ else _) = flags
  split
  · simp [markUnsaved, change, advance, *]
  · split <;> simp_all

theorem holding?_mergeFlags (h : m.Coherent) (name : RemoteId) (remote : Flags) (taken : Instant)
    (id : RemoteId) : (m.mergeFlags name remote taken).2.holding? id =
      if name = id then (m.holding? id).map (.merged remote taken) else m.holding? id := by
  cases hname : m.store.uidOf? name with
  | none =>
      unfold mergeFlags
      simp only [hname]
      split
      · next heq => rw [holding?, ← heq, hname, Option.bind_none, Option.map_none]
      · rfl
  | some uid =>
      obtain ⟨r, found, _⟩ := h.uidOf?_eq_some hname
      obtain ⟨hpending, hunsaved⟩ := mergeFlags_notes hname found remote taken
      refine h.holding?_turned hname (uidOf?_mergeFlags name remote taken m) (fun other => ?_) id
      have hget := get?_mergeFlags hname remote taken other
      have hwritten : other ∈ (m.mergeFlags name remote taken).2.unsaved.written ↔
          other ∈ m.unsaved.written ∨
            other = uid ∧ (r.merged remote taken m.modseq.next).flags ≠ r.flags := by
        rw [hunsaved]
        split <;> simp_all [Unsaved.mark, or_comm]
      split
      · next heq =>
        subst heq
        rw [if_pos rfl, found, Option.map_some] at hget
        simp only [holdingAt?, hget, found, Option.map_some, hpending, hwritten,
          Message.unnumbered_merged, Holding.merged, true_and, Bool.decide_or]
        rfl
      · next hne =>
        rw [if_neg hne] at hget
        exact holdingAt?_congr hget (by rw [hpending]) (by simp [hwritten, hne])

theorem markRemoved_notes {name : RemoteId} {r : Message} (hname : m.store.uidOf? name = some uid)
    (found : m.store.get? uid = some r) :
    (m.markRemoved name).2.pending = (if uid ∈ m.pending then m.pending else m.pending.insert uid) ∧
      (m.markRemoved name).2.unsaved =
        if uid ∈ m.pending then m.unsaved else m.unsaved.mark uid := by
  unfold markRemoved
  simp only [hname, found]
  split <;> split <;> simp_all [markUnsaved, change, advance]

theorem get?_markRemoved {name : RemoteId} (hname : m.store.uidOf? name = some uid)
    (other : Uid) : (m.markRemoved name).2.store.get? other =
      if other = uid then (m.store.get? other).map (·.withdrawn m.modseq.next)
      else m.store.get? other := by
  unfold markRemoved
  simp only [hname]
  split
  · next hnone => exact get?_unchanged (by rw [hnone, Option.map_none]) other
  · next r found =>
    have hqueue (m' : Mailbox) : (if uid ∈ m'.pending then (some uid, m')
        else (some uid, markUnsaved uid { m' with pending := m'.pending.insert uid })).2.store =
          m'.store := by
      split <;> rfl
    rw [hqueue]
    split
    · next hdeleted =>
      -- the mark is there already
      have hflags : OrderedSet.insert .deleted r.flags = r.flags :=
        OrderedSet.ext fun flag => by
          have hmem : Flag.deleted ∈ r.flags := by simpa [Flags.isDeleted] using hdeleted
          rw [OrderedSet.mem_insert]
          exact ⟨fun h => h.elim (fun heq => heq ▸ hmem) id, .inr⟩
      have hwithdrawn : r.withdrawn m.modseq.next = r := by
        rw [Message.withdrawn, hflags, if_pos hdeleted]
      exact get?_unchanged (by rw [found, Option.map_some, hwithdrawn]) other
    · next hunmarked =>
      have hwithdrawn : r.withdrawn m.modseq.next =
          { r with flags := OrderedSet.insert .deleted r.flags, modseq := m.modseq.next } := by
        rw [Message.withdrawn, if_neg hunmarked]
      rw [change_store]
      exact get?_changed (f := (·.withdrawn m.modseq.next)) found hwithdrawn rfl other

theorem uidOf?_markRemoved (name id : RemoteId) (m : Mailbox) :
    (m.markRemoved name).2.store.uidOf? id = m.store.uidOf? id := by
  unfold markRemoved
  split
  · rfl
  · split
    · rfl
    · dsimp only
      split <;> split <;> simp [markUnsaved]

theorem holding?_markRemoved (h : m.Coherent) (name id : RemoteId) :
    (m.markRemoved name).2.holding? id =
      if name = id then (m.holding? id).map .removed else m.holding? id := by
  cases hname : m.store.uidOf? name with
  | none =>
      unfold markRemoved
      simp only [hname]
      split
      · next heq => rw [holding?, ← heq, hname, Option.bind_none, Option.map_none]
      · rfl
  | some uid =>
      obtain ⟨r, found, _⟩ := h.uidOf?_eq_some hname
      obtain ⟨hpending, hunsaved⟩ := markRemoved_notes hname found
      have hqueued (other : Uid) : other ∈ (m.markRemoved name).2.pending ↔
          other ∈ m.pending ∨ other = uid := by
        rw [hpending]
        split <;> grind [OrderedSet.mem_insert]
      have hwritten (other : Uid) : other ∈ (m.markRemoved name).2.unsaved.written ↔
          other ∈ m.unsaved.written ∨ other = uid ∧ uid ∉ m.pending := by
        rw [hunsaved]
        split <;> simp_all [Unsaved.mark, or_comm]
      refine h.holding?_turned hname (uidOf?_markRemoved name · m) (fun other => ?_) id
      have hget := get?_markRemoved hname other
      split
      · next heq =>
        subst heq
        rw [if_pos rfl, found, Option.map_some] at hget
        simp [holdingAt?, hget, found, hqueued, hwritten, Message.unnumbered_withdrawn,
          Holding.removed]
      · next hne =>
        rw [if_neg hne] at hget
        exact holdingAt?_congr hget (by simp [hqueued, hne]) (by simp [hwritten, hne])

/-! ## Batches -/

variable {updatesFlags : Bool} {tally tally' : Tally}

theorem Coherent.applyEvent {event : Prepared} {result : Except MailboxError Tally}
    (h : m.Coherent) (hevent : m.applyEvent updatesFlags tally event = (result, m')) :
    m'.Coherent := by
  have hedited := edited_applyEvent updatesFlags tally event m
  rw [hevent] at hedited
  exact h.edited hedited

theorem holding?_applyEvent {event : Prepared} (h : m.Coherent)
    (hok : m.applyEvent updatesFlags tally event = (.ok tally', m')) (id : RemoteId) :
    m'.holding? id =
      if event.concerns updatesFlags id then event.turn (m.holding? id) else m.holding? id := by
  cases event with
  | create content =>
      have hcame {receipt : Receipt} (hreceive : m.receive content = (.ok receipt, m')) :
          m'.holding? id = if content.remoteId = id then
            some ((m.holding? id).elim (.arrived content) (.refreshed content))
          else m.holding? id := by
        cases hname : m.store.uidOf? content.remoteId with
        | none =>
            rw [holding?_receive_new h hname hreceive]
            split
            · next heq => rw [holding?, ← heq, hname, Option.bind_none, Option.elim_none]
            · rfl
        | some uid =>
            obtain ⟨r, found, _⟩ := h.uidOf?_eq_some hname
            have hknown := holding?_receive_known h hname id
            rw [hreceive] at hknown
            rw [hknown]
            split
            · next heq =>
              simp [holding?, ← heq, hname, holdingAt?, found]
            · rfl
      simp only [applyEvent] at hok
      simp only [Prepared.concerns, Prepared.turn, beq_iff_eq]
      split at hok
      · cases hok
      · next hreceive => split at hok <;> cases hok <;> exact hcame hreceive
  | update other flags taken =>
      have hmerge := holding?_mergeFlags h other flags taken id
      simp only [applyEvent] at hok
      simp only [Prepared.concerns, Prepared.turn, Bool.and_eq_true, beq_iff_eq]
      split at hok
      · next hupdates =>
        simp only [hupdates, true_and]
        split at hok <;> next hresult =>
          rw [hresult] at hmerge
          cases hok
          exact hmerge
      · next hignores =>
        cases hok
        rw [if_neg fun hboth => hignores hboth.1]
  | remove other =>
      have hmark := holding?_markRemoved h other id
      simp only [applyEvent] at hok
      simp only [Prepared.concerns, Prepared.turn, beq_iff_eq]
      split at hok <;> next hresult =>
        rw [hresult] at hmark
        cases hok
        exact hmark

/-- What becomes of a message is decided by the events that are about it. -/
theorem holding?_applyEvents {events : List Prepared} (h : m.Coherent)
    (hok : m.applyEvents updatesFlags tally events = (.ok tally', m')) (id : RemoteId) :
    m'.holding? id =
      (events.filter (·.concerns updatesFlags id)).foldl Prepared.turn (m.holding? id) := by
  induction events generalizing m tally with
  | nil =>
      cases hok
      rfl
  | cons event rest ih =>
      unfold applyEvents at hok
      split at hok
      · cases hok
      · next hevent =>
        rw [ih (h.applyEvent hevent) hok, holding?_applyEvent h hevent]
        cases hconcerns : event.concerns updatesFlags id with
        | true => rw [List.filter_cons_of_pos hconcerns, List.foldl_cons, if_pos rfl]
        | false => rw [List.filter_cons_of_neg (by simp [hconcerns]), if_neg (by simp)]

end Mailbox

end MailBridge

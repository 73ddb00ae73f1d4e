import MailBridge.Proofs.Engine
import MailBridge.Proofs.WellKept

/-! # Who is in a mailbox

The roster of a mailbox is the set of the remote names of its messages. A name that is on it may
have to leave with the next flush, because the remote account has removed its message. What an
engine call does to one name depends on nothing but how this name stands.
-/

namespace MailBridge

/-- How a remote name stands in a mailbox. -/
inductive Presence where
  | absent
  | present
  /-- The message waits to be expunged. -/
  | leaving
deriving DecidableEq

/-- What becomes of the message with a remote name. -/
inductive Movement where
  | comes (id : RemoteId)
  | goes (id : RemoteId)
  | stays
deriving DecidableEq

namespace Presence

/-- A message that comes while it waits to be expunged goes on waiting. -/
def after (id : RemoteId) (p : Presence) : Movement → Presence
  | .comes other => if id = other ∧ p = absent then present else p
  | .goes other => if id = other ∧ p = present then leaving else p
  | .stays => p

/-- What a flush leaves. -/
def flushed : Presence → Presence
  | leaving => absent
  | p => p

/-- What turns one standing of a name into another does so once, if it comes to the name at all. -/
theorem foldl_turn {before after : Presence} (hne : before ≠ after) (id : RemoteId)
    (ids : List RemoteId) (p : Presence) :
    ids.foldl (fun p other => if id = other ∧ p = before then after else p) p =
      if id ∈ ids ∧ p = before then after else p := by
  induction ids generalizing p with
  | nil => simp
  | cons other rest ih =>
      rw [List.foldl_cons, ih]
      by_cases hturns : id = other ∧ p = before
      · obtain ⟨rfl, rfl⟩ := hturns
        simp [hne.symm]
      · rw [if_neg hturns]
        by_cases hp : p = before
        · have hother : id ≠ other := fun heq => hturns ⟨heq, hp⟩
          simp [hp, hother]
        · simp [hp]

theorem foldl_comes (id : RemoteId) (ids : List RemoteId) (p : Presence) :
    (ids.map Movement.comes).foldl (after id) p =
      if id ∈ ids ∧ p = absent then present else p :=
  List.foldl_map.trans (foldl_turn (by decide) id ids p)

end Presence

namespace Mailbox

def roster (m : Mailbox) : OrderedSet RemoteId := .ofList (m.store.messages.map (·.remoteId))

def presence (m : Mailbox) (id : RemoteId) : Presence :=
  match m.store.uidOf? id with
  | none => .absent
  | some uid => if uid ∈ m.pending then .leaving else .present

/-- No UID is repeated, the index is right, and the messages that wait to be expunged are there. -/
structure Coherent (m : Mailbox) : Prop where
  distinct : m.store.Distinct
  indexed : m.Indexed
  queued : m.Queued

variable {m m' : Mailbox} {id : RemoteId}

theorem Coherent.editAll (h : m.Coherent) (edits : List Edit) : (m.editAll edits).Coherent where
  distinct := distinct_editAll h.distinct edits
  indexed := h.indexed.editAll h.distinct edits
  queued := h.queued.editAll h.distinct edits

theorem Coherent.edited (h : m.Coherent) (hedited : Edited m m') : m'.Coherent := by
  obtain ⟨edits, rfl⟩ := hedited
  exact h.editAll edits

theorem mem_roster : id ∈ m.roster ↔ ∃ r ∈ m.store.messages, r.remoteId = id := by
  simp [roster]

theorem Coherent.uidOf?_eq_some (h : m.Coherent) {uid : Uid}
    (hname : m.store.uidOf? id = some uid) :
    ∃ r, m.store.get? uid = some r ∧ r ∈ m.store.messages ∧ r.remoteId = id := by
  obtain ⟨r, hr, hid, hu⟩ := (h.indexed id uid).1 hname
  exact ⟨r, (MessageStore.get?_eq_some h.distinct).2 ⟨hr, hu⟩, hr, hid⟩

theorem presence_eq_absent : m.presence id = .absent ↔ m.store.uidOf? id = none := by
  unfold presence
  split
  · simp [*]
  · split <;> simp [*]

theorem presence_eq_leaving :
    m.presence id = .leaving ↔ ∃ uid ∈ m.pending, m.store.uidOf? id = some uid := by
  unfold presence
  split
  · simp [*]
  · split <;> simp [*]

theorem presence_congr (hname : m'.store.uidOf? id = m.store.uidOf? id)
    (hpending : m'.pending = m.pending) : m'.presence id = m.presence id := by
  simp only [presence, hname, hpending]

theorem presence_change (r : Message) (uid : Uid) :
    ((m.change r).markUnsaved uid).presence id = m.presence id :=
  presence_congr (by simp [markUnsaved, change, advance]) (by simp [markUnsaved, change, advance])

theorem Coherent.mem_roster_iff (h : m.Coherent) : id ∈ m.roster ↔ m.presence id ≠ .absent := by
  rw [mem_roster, ne_eq, presence_eq_absent, (h.indexed id).eq_none]
  simp

theorem roster_kept (m : Mailbox) :
    ((m.editAll [.commit, .takeUnsaved]).keepChanges).roster = m.roster := by
  rw [kept_eq]
  rfl

/-! ## What single changes do to one name -/

theorem presence_receive {content : MessageContent} {receipt : Receipt} (h : m.Coherent)
    (hok : m.receive content = (.ok receipt, m')) :
    m'.presence id = (m.presence id).after id (.comes content.remoteId) := by
  unfold receive at hok
  split at hok
  · next uid hname =>
    -- the message is known, and stays under its name
    have hafter : (m.presence id).after id (.comes content.remoteId) = m.presence id := by
      refine if_neg ?_
      rintro ⟨rfl, habsent⟩
      rw [presence_eq_absent, hname] at habsent
      cases habsent
    rw [hafter]
    split at hok
    · cases hok
    · split at hok
      · cases hok
        exact presence_change ..
      · cases hok
        rfl
  · next hnew =>
    split at hok
    · cases hok
    · next uid uids issued =>
      dsimp only at hok
      split at hok
      · cases hok
      · next store added =>
        cases hok
        obtain ⟨hlt, _, _, hindex⟩ := MessageStore.append?_eq_some added
        have hpending : uid ∉ m.pending := by
          intro huid
          obtain ⟨r, hr, hu⟩ := h.queued uid huid
          have := hlt r (by simpa [advance] using hr)
          rw [hu] at this
          exact Nat.lt_irrefl _ this
        simp only [presence, MessageStore.uidOf?, markUnsaved, hindex, OrderedMap.get?_insert,
          note_store, note_pending, advance]
        by_cases heq : id = content.remoteId
        · subst heq
          have habsent : m.store.index.get? content.remoteId = none := hnew
          simp [Message.arrive, Presence.after, habsent, hpending]
        · simp [Message.arrive, Presence.after, heq]

theorem presence_mergeFlags (m : Mailbox) (other : RemoteId) (flags : Flags) (taken : Instant)
    (id : RemoteId) : (m.mergeFlags other flags taken).2.presence id = m.presence id := by
  unfold mergeFlags
  split
  · rfl
  · split
    · rfl
    · next r _ =>
      dsimp only
      generalize (if r.isUndecryptable = true then _ else _) = merged
      split
      · exact presence_change ..
      · split
        · exact presence_congr (by simp) (by simp)
        · rfl

theorem presence_setCursor (cursor : Option String) :
    (m.setCursor cursor).presence id = m.presence id := by
  unfold setCursor
  split <;> rfl

theorem presence_markRemoved (h : m.Coherent) (other id : RemoteId) :
    (m.markRemoved other).2.presence id = (m.presence id).after id (.goes other) := by
  unfold markRemoved
  split
  · next hunknown =>
    refine (if_neg ?_).symm
    rintro ⟨rfl, hpresent⟩
    rw [presence_eq_absent.2 hunknown] at hpresent
    cases hpresent
  · next uid hname =>
    obtain ⟨r, found, hr, hid⟩ := h.uidOf?_eq_some hname
    have hu := uid_of_found found
    subst hid hu
    simp only [found]
    -- no other name has this UID
    have hother {uid : Uid} (hne : id ≠ r.remoteId) (hsome : m.store.uidOf? id = some uid) :
        uid ≠ r.uid := by
      rintro rfl
      obtain ⟨x, hx, hxr, hxid⟩ := h.uidOf?_eq_some hsome
      rw [found] at hx
      cases hx
      exact hne hxid.symm
    have hmark (m' : Mailbox) (hsame : ∀ id, m'.store.uidOf? id = m.store.uidOf? id)
        (hpending : m'.pending = m.pending) :
        (if r.uid ∈ m'.pending then (some r.uid, m')
          else (some r.uid, markUnsaved r.uid
            { m' with pending := m'.pending.insert r.uid })).2.presence id =
          (m.presence id).after id (.goes r.remoteId) := by
      by_cases heq : id = r.remoteId
      · subst heq
        by_cases hqueued : r.uid ∈ m.pending <;>
          simp [presence, Presence.after, markUnsaved, hsame, hpending, hname, hqueued]
      · cases hother' : m.store.uidOf? id with
        | none =>
            by_cases hqueued : r.uid ∈ m.pending <;>
              simp [presence, Presence.after, markUnsaved, hsame, hpending, hother', hqueued, heq]
        | some uid =>
            by_cases hqueued : r.uid ∈ m.pending <;>
              simp [presence, Presence.after, markUnsaved, hsame, hpending, hother', hqueued, heq,
                hother heq hother']
    split
    · exact hmark m (fun _ => rfl) rfl
    · exact hmark _ (fun _ => by simp [change, advance]) (by simp [change, advance])

theorem flushPending_spec (m : Mailbox) :
    m.flushPending.2.store = (m.store.removeWhere fun r => decide (r.uid ∈ m.pending)).2 ∧
      m.flushPending.2.pending = ∅ := by
  unfold flushPending
  split
  · next hempty =>
    have hnone := OrderedSet.isEmpty_iff.1 hempty
    refine ⟨(MessageStore.removeWhere_of_isEmpty ?_).symm, hnone⟩
    simp [MessageStore.removeWhere, hnone]
  · obtain ⟨_, hstore, _, hsub⟩ := settleRemoval_spec
      (m.store.removeWhere fun r => decide (r.uid ∈ m.pending)).1
      { m with
        store := (m.store.removeWhere fun r => decide (r.uid ∈ m.pending)).2, pending := ∅ }
    exact ⟨hstore, OrderedSet.ext fun uid => ⟨hsub uid, fun h => absurd h OrderedSet.mem_empty⟩⟩

theorem presence_flushPending (h : m.Coherent) :
    m.flushPending.2.presence id = (m.presence id).flushed := by
  obtain ⟨hstore, hpending⟩ := flushPending_spec m
  have hgone : (∃ r ∈ (m.store.removeWhere fun r => decide (r.uid ∈ m.pending)).1,
      r.remoteId = id) ↔ m.presence id = .leaving := by
    rw [presence_eq_leaving]
    constructor
    · rintro ⟨r, hr, hid⟩
      obtain ⟨hr, hqueued⟩ := MessageStore.mem_removed.1 hr
      exact ⟨r.uid, of_decide_eq_true hqueued, (h.indexed id r.uid).2 ⟨r, hr, hid, rfl⟩⟩
    · rintro ⟨uid, hqueued, hname⟩
      obtain ⟨r, hr, hid, rfl⟩ := (h.indexed id uid).1 hname
      exact ⟨r, MessageStore.mem_removed.2 ⟨hr, decide_eq_true hqueued⟩, hid⟩
  have hname : m.flushPending.2.store.uidOf? id =
      if m.presence id = .leaving then none else m.store.uidOf? id := by
    simp only [hstore, MessageStore.uidOf?_removeWhere, hgone]
  cases hp : m.presence id with
  | absent =>
      refine presence_eq_absent.2 ?_
      rw [hname, if_neg (by simp [hp]), presence_eq_absent.1 hp]
  | leaving =>
      refine presence_eq_absent.2 ?_
      rw [hname, if_pos hp]
  | present =>
      obtain ⟨uid, huid⟩ : ∃ uid, m.store.uidOf? id = some uid := by
        refine Option.ne_none_iff_exists'.1 fun hnone => ?_
        rw [presence_eq_absent.2 hnone] at hp
        cases hp
      rw [huid, if_neg (by simp [hp])] at hname
      simp [presence, hname, hpending, Presence.flushed]

theorem presence_flushUnlessSelected {sessions : Nat} (h : m.Coherent) (hnone : sessions = 0) :
    (m.flushUnlessSelected sessions).2.presence id = (m.presence id).flushed := by
  rw [flushUnlessSelected, if_pos hnone]
  exact presence_flushPending h

end Mailbox

end MailBridge

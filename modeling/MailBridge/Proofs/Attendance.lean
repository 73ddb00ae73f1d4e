import MailBridge.Account.Command
import MailBridge.Proofs.CatchUp
import MailBridge.Proofs.Engine

/-! # A mailbox and the sessions that attend it

A mailbox is shared by any number of sessions, which select it, ask something of it and leave it,
by synchronization, and by whoever else changes it. Whatever they do and in whatever order, the
frozen view of each session *follows* the mailbox: in the epoch of the view, a message of the
mailbox is in view or has a UID above the view, and shows by its modification sequence whether its
flags are no longer those in view.
-/

namespace MailBridge

/-- What a session asks of the mailbox that it has selected. -/
inductive Request where
  | fetch (set : MessageSet)
  | search (key : SearchKey)
  | store (now : Instant) (set : MessageSet) (delta : Flags) (mode : StoreMode)
  | expunge
  | poll
  | close
  | unselect

/-- What synchronization is asked to do. -/
inductive Round where
  | sync
  | apply (since? : Option (Option String)) (batch : EventBatch)
  | resync
  | invalidate
  | work (milliseconds : Nat)

/-- What happens to a mailbox that sessions attend. -/
inductive Action where
  | select (client : String) (isReadOnly : Bool)
  | request (client : String) (request : Request)
  /-- The session logs out, is cut off or selects another mailbox. -/
  | leave (client : String)
  /-- Synchronization takes place where all but the mailbox is as at the given site. -/
  | synchronize (round : Round) (site : Site)
  | change (change : Change)
  /-- The cache, which other mailboxes share, is as given. -/
  | recache (cache? : Option Cache)

def Action.client? : Action → Option String
  | select client _ | request client _ | leave client => some client
  | synchronize .. | change _ | recache _ => none

/-- A mailbox with the selections of the sessions that attend it, by client. -/
structure Attended where
  mailbox : SharedMailbox
  selections : OrderedMap String Selection := ∅

/-- An outcome of which the client is told in a given form. -/
def Outcome.map {α β : Type} (f : α → β) (o : Outcome α) : Outcome β :=
  ⟨o.answer.map f, o.selection?, o.mailbox⟩

def Request.serve (m : SharedMailbox) (s : Selection) : Request → Outcome Response
  | fetch set => (Selection.fetch set m s).map .views
  | search key => (Selection.search key m s).map .views
  | store now set delta mode => (Selection.store now set delta mode m s).map .views
  | expunge => (Selection.expunge m s).map .expunged
  | poll => (Selection.poll m s).map .missed
  | close => (Selection.close m s).map fun _ => .done
  | unselect => (Selection.unselect m s).map fun _ => .done

def Round.run (s : Site) : Round → Site
  | sync => s.sync.2
  | apply since? batch => (s.apply since? batch).2
  | resync => s.resync.2
  | invalidate => s.invalidate.2
  | work milliseconds => s.work milliseconds

namespace Attended

def alone (m : SharedMailbox) : Attended := { mailbox := m }

/-- The session of a client has nothing selected any more. -/
def leave (client : String) (w : Attended) : Attended :=
  if w.selections.contains client then ⟨w.mailbox.release, w.selections.erase client⟩ else w

/-- Notes what a client has selected after a command. -/
def keep (client : String) (selections : OrderedMap String Selection) :
    Option Selection → OrderedMap String Selection
  | some selection => selections.insert client selection
  | none => selections.erase client

/-- What comes of an action: the answer to the client, if it is one of a session, and how the
mailbox is attended then. -/
def act (w : Attended) : Action → Except SessionError Response × Attended
  | .select client isReadOnly =>
    match (w.leave client).mailbox.select isReadOnly with
    | (.error e, m) => (.error (.mailbox e), ⟨m, (w.leave client).selections⟩)
    | (.ok (report, selection), m) =>
      (.ok (.selected report), ⟨m, (w.leave client).selections.insert client selection⟩)
  | .request client request =>
    match w.selections.get? client with
    | none => (.error .noMailboxSelected, w)
    | some selection =>
      let outcome := request.serve w.mailbox selection
      (outcome.answer, ⟨outcome.mailbox, keep client w.selections outcome.selection?⟩)
  | .leave client => (.ok .done, w.leave client)
  | .synchronize round site =>
    (.ok .done, { w with mailbox := (round.run { site with shared := w.mailbox }).shared })
  | .change change => (.ok .done, { w with mailbox := w.mailbox.perform change })
  | .recache cache? => (.ok .done, { w with mailbox := { w.mailbox with cache? } })

def actAll (actions : List Action) (w : Attended) : Attended :=
  actions.foldl (fun w a => (w.act a).2) w

@[simp] theorem actAll_nil (w : Attended) : w.actAll [] = w := rfl

@[simp] theorem actAll_cons (a : Action) (actions : List Action) (w : Attended) :
    w.actAll (a :: actions) = (w.act a).2.actAll actions := rfl

end Attended

/-! ## Following a mailbox -/

/-- The entry is no later than the message, and shows its flags unless it is earlier. -/
structure SnapshotEntry.Precedes (e : SnapshotEntry) (r : Message) : Prop where
  modseq : e.modseq.val ≤ r.modseq.val
  flags : r.modseq.val ≤ e.modseq.val →
    Flags.withoutRecent r.flags = Flags.withoutRecent e.flags

namespace Snapshot

/-- All messages of the mailbox are in view or above the view, and the view has no UID that is
still to be issued. -/
structure Covers (s : Snapshot) (m : Mailbox) : Prop where
  below : ∀ e ∈ s.entries, e.uid.val < m.uids.bound
  seen : ∀ r ∈ m.store.messages,
    (∃ e ∈ s.entries, e.uid = r.uid) ∨ ∀ e ∈ s.entries, e.uid.val < r.uid.val

/-- No entry is later than the mailbox or than its message. -/
structure Reflects (s : Snapshot) (m : Mailbox) : Prop where
  stamped : ∀ e ∈ s.entries, e.modseq.val ≤ m.modseq.val
  precedes : ∀ e ∈ s.entries, ∀ r ∈ m.store.messages, r.uid = e.uid → e.Precedes r

/-- The mailbox is still in the epoch of the view, which is not the last there can be. -/
structure Current (s : Snapshot) (m : Mailbox) : Prop where
  validity : s.validity = m.uids.validity
  below : m.uids.validity.val < maxWord

/-- The view follows the mailbox, as far as the mailbox is sound. -/
structure Follows (issued counted : Prop) (s : Snapshot) (m : Mailbox) : Prop where
  ascending : Ascending SnapshotEntry.uid s.entries
  validity : s.validity.val ≤ m.uids.validity.val
  covers : issued → s.Current m → s.Covers m
  reflects : issued → counted → s.Current m → m.modseq.val < maxLong → s.Reflects m

variable {issued counted : Prop} {s : Snapshot} {m m' : Mailbox}

theorem Covers.continues (h : s.Covers m) (hc : m.Continues m') : s.Covers m' where
  below e he := Nat.lt_of_lt_of_le (h.below e he) hc.bound
  seen r' hr' := by
    rcases hc.origin r' hr' with ⟨r, hr, hbecomes⟩ | hnew
    · rw [hbecomes.uid]
      exact h.seen r hr
    · exact .inr fun e he => Nat.lt_of_lt_of_le (h.below e he) hnew

theorem Reflects.continues (hcovers : s.Covers m) (h : s.Reflects m) (hc : m.Continues m')
    (hcounting : m'.modseq.val < maxLong) : s.Reflects m' where
  stamped e he := Nat.le_trans (h.stamped e he) hc.modseq
  precedes e he r' hr' hu := by
    rcases hc.origin r' hr' with ⟨r, hr, hbecomes⟩ | hnew
    · have hprecedes := h.precedes e he r hr (hbecomes.uid.symm.trans hu)
      have hstamped := h.stamped e he
      rcases hbecomes.stamp hcounting with ⟨hmodseq, hflags⟩ | hlater
      · refine ⟨by rw [hmodseq]; exact hprecedes.modseq, fun hle => ?_⟩
        rw [hflags]
        exact hprecedes.flags (hmodseq ▸ hle)
      · exact ⟨by omega, fun hle => by omega⟩
    · have := hcovers.below e he
      rw [← hu] at this
      omega

theorem Current.before (h : s.Current m') (hvalidity : s.validity.val ≤ m.uids.validity.val)
    (hl : m.Later m') : s.Current m ∧ m.Continues m' := by
  have hle := hl.validity
  have hlt := h.below
  have hsame : m.uids.validity = m'.uids.validity := by
    refine UidValidity.ext_val ?_
    rw [h.validity] at hvalidity
    omega
  exact ⟨⟨h.validity.trans hsame.symm, hsame ▸ hlt⟩, hl.continues hsame.symm hlt⟩

theorem Follows.later (h : s.Follows issued counted m) (hl : m.Later m') :
    s.Follows issued counted m' where
  ascending := h.ascending
  validity := Nat.le_trans h.validity hl.validity
  covers hissued hcurrent := by
    obtain ⟨hbefore, hc⟩ := hcurrent.before h.validity hl
    exact (h.covers hissued hbefore).continues hc
  reflects hissued hcounted hcurrent hcounting := by
    obtain ⟨hbefore, hc⟩ := hcurrent.before h.validity hl
    have hcounting' := Nat.lt_of_le_of_lt hc.modseq hcounting
    have hreflects := h.reflects hissued hcounted hbefore hcounting'
    exact hreflects.continues (h.covers hissued hbefore) hc hcounting

/-- Entries without a message may leave the view. -/
theorem Follows.filter (h : s.Follows issued counted m) {gone : Uid → Bool}
    (hgone : ∀ r ∈ m.store.messages, gone r.uid = false) :
    (s.removeWhere gone).2.Follows issued counted m where
  ascending := h.ascending.filter _
  validity := h.validity
  covers hissued hcurrent := by
    have hcovers := h.covers hissued ⟨hcurrent.validity, hcurrent.below⟩
    refine ⟨fun e he => hcovers.below e (List.mem_filter.1 he).1, fun r hr => ?_⟩
    rcases hcovers.seen r hr with ⟨e, he, hu⟩ | habove
    · exact .inl ⟨e, List.mem_filter.2 ⟨he, by simp [hu, hgone r hr]⟩, hu⟩
    · exact .inr fun e he => habove e (List.mem_filter.1 he).1
  reflects hissued hcounted hcurrent hcounting := by
    have hreflects := h.reflects hissued hcounted ⟨hcurrent.validity, hcurrent.below⟩ hcounting
    exact ⟨fun e he => hreflects.stamped e (List.mem_filter.1 he).1,
      fun e he => hreflects.precedes e (List.mem_filter.1 he).1⟩

end Snapshot

open Snapshot

namespace Mailbox

variable {issued counted : Prop} {s : Snapshot} {m : Mailbox}

theorem follows_snapshot (h : m.Sound issued counted) :
    m.snapshot.Follows issued counted m where
  ascending := Ascending.map h.distinct fun _ _ => rfl
  validity := Nat.le_refl _
  covers hissued _ := by
    refine ⟨fun e he => ?_, fun r hr => .inl ⟨.ofMessage r, List.mem_map_of_mem hr, rfl⟩⟩
    obtain ⟨r, hr, rfl⟩ := List.mem_map.1 he
    exact h.below hissued r hr
  reflects _ hcounted _ _ := by
    refine ⟨fun e he => ?_, fun e he r' hr' hu => ?_⟩
    · obtain ⟨r, hr, rfl⟩ := List.mem_map.1 he
      exact h.stamped hcounted r hr
    · obtain ⟨r, hr, rfl⟩ := List.mem_map.1 he
      rw [h.distinct.eq_of_uid_eq hr' hr hu]
      exact ⟨Nat.le_refl _, fun _ => rfl⟩

theorem mem_caughtUp (hd : m.store.Distinct) {e : SnapshotEntry} (he : e ∈ m.caughtUp s) :
    (∃ x ∈ s.entries, ∃ r ∈ m.store.messages, r.uid = x.uid ∧ e = m.refresh x) ∨
      ∃ r ∈ m.store.messages, e = .ofMessage r := by
  rcases List.mem_append.1 he with he | he
  · obtain ⟨x, hx, rfl⟩ := List.mem_map.1 he
    obtain ⟨hx, hsome⟩ := List.mem_filter.1 hx
    obtain ⟨r, hr⟩ := Option.isSome_iff_exists.1 hsome
    obtain ⟨hr, hu⟩ := (MessageStore.get?_eq_some hd).1 hr
    exact .inl ⟨x, hx, r, hr, hu, rfl⟩
  · obtain ⟨r, hr, rfl⟩ := List.mem_map.1 he
    exact .inr ⟨r, (List.mem_filter.1 hr).1, rfl⟩

/-- An entry that has caught up has the modification sequence and the flags of its message, if it
came before the message. -/
theorem refresh_of_precedes (hd : m.store.Distinct) {e : SnapshotEntry} {r : Message}
    (hr : r ∈ m.store.messages) (hu : r.uid = e.uid) (h : e.Precedes r) :
    (m.refresh e).modseq = r.modseq ∧
      Flags.withoutRecent (m.refresh e).flags = Flags.withoutRecent r.flags := by
  unfold refresh
  split
  · next x hx =>
    obtain ⟨hmem, hxu, _⟩ := (newer?_eq_some hd).1 hx
    rw [hd.eq_of_uid_eq hr hmem (hu.trans hxu.symm)]
    exact ⟨rfl, SnapshotEntry.withoutRecent_adopt e x.flags⟩
  · next hnone =>
    have hle : r.modseq.val ≤ e.modseq.val := Nat.le_of_not_lt fun hlt => by
      rw [(newer?_eq_some hd).2 ⟨hr, hu, hlt⟩] at hnone
      cases hnone
    exact ⟨ModSeq.ext_val (Nat.le_antisymm h.modseq hle), (h.flags hle).symm⟩

theorem agrees_caughtUp (hd : m.store.Distinct)
    (h : ∀ e ∈ s.entries, ∀ r ∈ m.store.messages, r.uid = e.uid → e.Precedes r)
    {e : SnapshotEntry} (he : e ∈ m.caughtUp s) {r : Message} (hr : r ∈ m.store.messages)
    (hu : r.uid = e.uid) :
    e.modseq = r.modseq ∧ Flags.withoutRecent e.flags = Flags.withoutRecent r.flags := by
  rcases mem_caughtUp hd he with ⟨x, hx, _, _, _, rfl⟩ | ⟨r', hr', rfl⟩
  · rw [refresh_uid] at hu
    exact refresh_of_precedes hd hr hu (h x hx r hr hu)
  · rw [hd.eq_of_uid_eq hr hr' hu]
    exact ⟨rfl, rfl⟩

theorem exists_caughtUp (hasc : Ascending SnapshotEntry.uid s.entries) (hd : m.store.Distinct)
    {r : Message} (hr : r ∈ m.store.messages)
    (hseen : (∃ e ∈ s.entries, e.uid = r.uid) ∨ ∀ e ∈ s.entries, e.uid.val < r.uid.val) :
    ∃ e ∈ m.caughtUp s, e.uid = r.uid := by
  rcases hseen with ⟨e, he, hu⟩ | habove
  · have hget : m.get? e.uid = some r := (MessageStore.get?_eq_some hd).2 ⟨hr, hu.symm⟩
    exact ⟨m.refresh e, List.mem_append_left _ (List.mem_map_of_mem
      (List.mem_filter.2 ⟨he, by rw [hget]; rfl⟩)), by rw [refresh_uid, hu]⟩
  · have hnew := (isNew_iff hasc r.uid).2 habove
    exact ⟨.ofMessage r, List.mem_append_right _ (List.mem_map_of_mem
      (List.mem_filter.2 ⟨hr, hnew⟩)), rfl⟩

theorem follows_caughtUp (h : m.Sound issued counted) (hs : s.Follows issued counted m) :
    (s.catchUp (m.changesSince s)).2.Follows issued counted m := by
  have hd := h.distinct
  rw [(catchUp_spec hs.ascending hd).1]
  refine ⟨ascending_caughtUp hs.ascending hd, hs.validity, fun hissued hcurrent => ?_,
    fun hissued hcounted hcurrent hcounting => ?_⟩
  · have hcovers := hs.covers hissued ⟨hcurrent.validity, hcurrent.below⟩
    refine ⟨fun e he => ?_, fun r hr =>
      .inl (exists_caughtUp hs.ascending hd hr (hcovers.seen r hr))⟩
    rcases mem_caughtUp hd he with ⟨x, hx, _, _, _, rfl⟩ | ⟨r, hr, rfl⟩
    · rw [refresh_uid]
      exact hcovers.below x hx
    · exact h.below hissued r hr
  · have hreflects := hs.reflects hissued hcounted ⟨hcurrent.validity, hcurrent.below⟩ hcounting
    refine ⟨fun e he => ?_, fun e he r hr hu => ?_⟩
    · rcases mem_caughtUp hd he with ⟨x, _, r, hr, hu, rfl⟩ | ⟨r, hr, rfl⟩
      · rw [(agrees_caughtUp hd hreflects.precedes he hr (hu.trans (refresh_uid m x).symm)).1]
        exact h.stamped hcounted r hr
      · exact h.stamped hcounted r hr
    · obtain ⟨hmodseq, hflags⟩ := agrees_caughtUp hd hreflects.precedes he hr hu
      exact ⟨Nat.le_of_eq (by rw [hmodseq]), fun _ => hflags.symm⟩

end Mailbox

end MailBridge

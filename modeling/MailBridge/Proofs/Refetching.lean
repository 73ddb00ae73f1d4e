import MailBridge.Proofs.Expansion
import MailBridge.Proofs.Poll

/-! # What a poll shows of a message, and what a fetch shows of it

A poll shows the messages whose flags have changed as they are in view once the view has caught up.
A fetch shows the present messages, recent as the view has them. Both show the same number, the same
UID and the same flags. The view takes in new flags only: size and envelope are shown by a poll as
they were when the message came into view, and by a fetch as they are.
-/

namespace MailBridge

open SharedMailbox

def SequenceSet.only (n : NzNumber) : SequenceSet := [.single (.exact n)]

namespace SequenceSet

@[simp] theorem greatest_only (n largest : NzNumber) : (only n).greatest largest = n.val := by
  simp [only, greatest, SequenceItem.bounds, SequenceNumber.resolve]

@[simp] theorem contains_only (n largest : NzNumber) (k : Nat) :
    (only n).contains largest k = decide (k = n.val) := by
  have hwithin : (only n).contains largest k =
      (decide (n.val ≤ k) && decide (k ≤ n.val) || false) := rfl
  rw [hwithin, Bool.or_false, ← Bool.decide_and, decide_eq_decide]
  omega

end SequenceSet

namespace Mailbox

variable {s : Snapshot} {m m' : Mailbox}

theorem refresh_of_differs (hd : m.store.Distinct) {e : SnapshotEntry} (h : m.differs e = true) :
    ∃ r ∈ m.store.messages, r.uid = e.uid ∧
      Flags.withoutRecent (m.refresh e).flags = Flags.withoutRecent r.flags := by
  obtain ⟨r, hr, _⟩ := (Option.any_eq_true ..).1 h
  obtain ⟨hmem, hu, _⟩ := (newer?_eq_some hd).1 hr
  refine ⟨r, hmem, hu, ?_⟩
  simp only [refresh, hr]
  exact SnapshotEntry.withoutRecent_adopt e r.flags

theorem flagged_eq (h : Ascending SnapshotEntry.uid s.entries) (hd : m.store.Distinct) :
    (s.catchUp (m.changesSince s)).1.flagged =
      ((s.entries.filter m.differs).map (·.uid)).filterMap
        (s.catchUp (m.changesSince s)).2.view? := by
  rw [← named_changed h hd, ← removeWhere_vanished]
  rfl

/-- The report shows the entries that showed other flags than their messages, where and as they are
once the view has caught up. -/
theorem mem_flagged (h : Ascending SnapshotEntry.uid s.entries) (hd : m.store.Distinct)
    {v : MessageView} : v ∈ (s.catchUp (m.changesSince s)).1.flagged ↔
      ∃ e ∈ s.entries, m.differs e = true ∧
        (s.catchUp (m.changesSince s)).2.get? v.seqnum = some (m.refresh e) ∧
        v = .ofEntry v.seqnum (m.refresh e) := by
  have hview := (catchUp_spec h hd).1
  have hasc : Ascending SnapshotEntry.uid (s.catchUp (m.changesSince s)).2.entries := by
    rw [hview]
    exact ascending_caughtUp h hd
  -- of the entries that have caught up, only one has the UID of a given entry
  have hrefreshed {e x : SnapshotEntry} {n : Seqnum} (he : e ∈ s.entries)
      (hdiffers : m.differs e = true) (hu : x.uid = e.uid)
      (hx : (s.catchUp (m.changesSince s)).2.get? n = some x) : x = m.refresh e := by
    have hthere : m.refresh e ∈ (s.catchUp (m.changesSince s)).2.entries := by
      rw [hview]
      exact List.mem_append_left _ (List.mem_map_of_mem
        (List.mem_filter.2 ⟨he, isSome_of_differs hdiffers⟩))
    exact hasc.eq_of_uid_eq (List.mem_of_getElem? hx) hthere (hu.trans (refresh_uid m e).symm)
  rw [flagged_eq h hd, List.mem_filterMap]
  constructor
  · rintro ⟨uid, huid, hv⟩
    obtain ⟨e, he, rfl⟩ := List.mem_map.1 huid
    obtain ⟨he, hdiffers⟩ := List.mem_filter.1 he
    obtain ⟨x, hx, hu, hv⟩ := (Snapshot.view?_eq_some hasc).1 hv
    obtain rfl := hrefreshed he hdiffers hu hx
    exact ⟨e, he, hdiffers, hx, hv⟩
  · rintro ⟨e, he, hdiffers, hx, hv⟩
    exact ⟨e.uid, List.mem_map_of_mem (List.mem_filter.2 ⟨he, hdiffers⟩),
      (Snapshot.view?_eq_some hasc).2 ⟨_, hx, refresh_uid m e, hv⟩⟩

end Mailbox

namespace MessageView

/-- The view with another size and another envelope. -/
def withContent (v : MessageView) (r : Message) : MessageView :=
  { v with size := r.size, envelope := r.envelope }

theorem withContent_eq_iff {v : MessageView} {r : Message} :
    v.withContent r = v ↔ r.size = v.size ∧ r.envelope = v.envelope := by
  cases v
  simp [withContent]

/-- An entry that shows the flags of its message shows all of it but for size and envelope. -/
theorem ofLive_of_flags {n : Seqnum} {e : SnapshotEntry} {r : Message}
    (h : Flags.withoutRecent e.flags = Flags.withoutRecent r.flags) :
    ofLive n e (some r) = (ofEntry n e).withContent r := by
  have hflags := (e.adopt_eq_iff r.flags).2 h
  simp [ofLive, ofEntry, withContent, ← hflags]

end MessageView

namespace Selection

variable {m m' : SharedMailbox} {s s' : Selection} {b : Mailbox} {n : Seqnum} {e : SnapshotEntry}
  {changes : Bool}

theorem fetch_only (hvalid : m.mailbox.summary.validity = s.snapshot.validity)
    (hsize : s.snapshot.size ≤ maxWord) (hget : s.snapshot.get? n = some e) :
    fetch (.seqnums (.only n.toNzNumber)) m s = s.stay (.ok [view m n e]) m := by
  have hin : ¬ s.snapshot.size < n.val := by
    have hlt : n.toIndex < s.snapshot.size := (List.getElem?_eq_some_iff.1 hget).1
    have hval := n.val_eq
    omega
  have htargets : s.targets (.seqnums (.only n.toNzNumber)) = .ok [(n, e)] := by
    simp only [targets, SequenceSet.greatest_only, SequenceSet.contains_only, if_neg hin]
    rw [Snapshot.numbered_filter_only hsize hget]
  unfold fetch whileValid
  rw [if_pos hvalid]
  dsimp only
  rw [htargets]
  rfl

/-- What a poll reports of a message is what the session is then shown of it, but for size and
envelope, which are those that the view has had. -/
theorem LooksAt.view_flagged (hlooks : s.LooksAt m changes b m') (hd : b.store.Distinct)
    (hasc : Ascending SnapshotEntry.uid s.snapshot.entries) {v : MessageView}
    (hv : v ∈ (s.snapshot.catchUp (b.changesSince s.snapshot)).1.flagged) :
    ∃ e ∈ s.snapshot.entries, ∃ r ∈ m'.mailbox.store.messages,
      e.uid = v.uid ∧ r.uid = v.uid ∧ v.size = e.size ∧ v.envelope = e.envelope ∧
      ∃ x, (s.snapshot.catchUp (b.changesSince s.snapshot)).2.get? v.seqnum = some x ∧
        view m' v.seqnum x = v.withContent r := by
  obtain ⟨_, _, halike, _⟩ := hlooks.spec hd
  obtain ⟨e, he, hdiffers, hget, hv⟩ := (Mailbox.mem_flagged hasc hd).1 hv
  obtain ⟨r, hr, hu, hflags⟩ := Mailbox.refresh_of_differs hd hdiffers
  have huid : v.uid = e.uid := (congrArg MessageView.uid hv).trans (Mailbox.refresh_uid b e)
  have hsize : v.size = e.size := (congrArg MessageView.size hv).trans (Mailbox.refresh_size b e)
  have henvelope : v.envelope = e.envelope :=
    (congrArg MessageView.envelope hv).trans (Mailbox.refresh_envelope b e)
  obtain ⟨r', hr', hstays, hkeeps⟩ := halike.exists_message hr
  have hu' : r'.uid = e.uid := hstays.trans hu
  have hflags' : Flags.withoutRecent (b.refresh e).flags = Flags.withoutRecent r'.flags :=
    hflags.trans hkeeps.symm
  have hlive : m'.mailbox.get? (b.refresh e).uid = some r' :=
    (MessageStore.get?_eq_some (halike.distinct hd)).2
      ⟨hr', hu'.trans (Mailbox.refresh_uid b e).symm⟩
  refine ⟨e, he, r', hr', huid.symm, hu'.trans huid.symm, hsize, henvelope, _, hget, ?_⟩
  rw [view, hlive, MessageView.ofLive_of_flags hflags', ← hv]

theorem LooksAt.caughtUp_valid {issued counted : Prop} (hlooks : s.LooksAt m changes b m')
    (hm : m.mailbox.Sound issued counted)
    (hasc : Ascending SnapshotEntry.uid s.snapshot.entries)
    (hcurrent : b.uids.validity = s.snapshot.validity) :
    (s.snapshot.catchUp (b.changesSince s.snapshot)).2.size ≤ maxWord ∧
      m'.mailbox.summary.validity =
        (s.snapshot.catchUp (b.changesSince s.snapshot)).2.validity := by
  have hd := (hlooks.sound hm).1.distinct
  have huids := (hlooks.spec hd).2.2.1.uids
  have hfigured := (sound_leads hm hlooks.leads).1.figured
  rw [(Mailbox.catchUp_spec hasc hd).1, Mailbox.summary_of_figured hfigured]
  exact ⟨(Mailbox.ascending_caughtUp hasc hd).length_le,
    (congrArg UidSpace.validity huids).trans hcurrent⟩

theorem poll_of_answer {report : PollReport} (hanswer : (s.poll m).answer = .ok report) :
    ∃ b m', s.LooksAt m (s.pollChanges m.mailbox) b m' ∧ s.poll m = s.report b m' := by
  rcases poll_cases m s with ⟨e, m', _, _, heq⟩ | hlooked
  · rw [heq] at hanswer
    cases hanswer
  · exact hlooked

theorem poll_flagged {issued counted : Prop} (hm : m.mailbox.Sound issued counted)
    (hasc : Ascending SnapshotEntry.uid s.snapshot.entries) {report : PollReport}
    (hanswer : (s.poll m).answer = .ok report) {v : MessageView} (hv : v ∈ report.flagged) :
    ∃ s', (s.poll m).selection? = some s' ∧
      ∃ e ∈ s.snapshot.entries, ∃ r ∈ (s.poll m).mailbox.mailbox.store.messages,
        e.uid = v.uid ∧ r.uid = v.uid ∧ v.size = e.size ∧ v.envelope = e.envelope ∧
        fetch (.seqnums (.only v.seqnum.toNzNumber)) (s.poll m).mailbox s' =
          s'.stay (.ok [v.withContent r]) (s.poll m).mailbox := by
  obtain ⟨b, m', hlooks, heq⟩ := poll_of_answer hanswer
  rw [heq] at hanswer ⊢
  by_cases hcurrent : b.uids.validity = s.snapshot.validity
  · rw [Selection.report, if_pos hcurrent] at hanswer ⊢
    cases hanswer
    obtain ⟨e, he, r, hr, hu, hu', hsize, henvelope, x, hget, hview⟩ :=
      hlooks.view_flagged (hlooks.sound hm).1.distinct hasc hv
    obtain ⟨hlength, hvalid⟩ := hlooks.caughtUp_valid hm hasc hcurrent
    refine ⟨_, rfl, e, he, r, hr, hu, hu', hsize, henvelope, ?_⟩
    rw [← hview]
    exact fetch_only hvalid hlength hget
  · -- a view whose epoch is over is told nothing else
    rw [Selection.report, if_neg hcurrent] at hanswer
    cases hanswer
    cases hv

end Selection

namespace Attended

theorem act_fetch {w : Attended} {client : String} {s : Selection} {set : MessageSet}
    {views : List MessageView} (hs : w.selections.get? client = some s)
    (hfetch : Selection.fetch set w.mailbox s = s.stay (.ok views) w.mailbox) :
    w.act (.request client (.fetch set)) = (.ok (.views views), w) := by
  have hkeep : keep client w.selections (some s) = w.selections := OrderedMap.insert_of_get? hs
  simp only [act, hs, Request.serve, hfetch]
  exact congrArg (fun selections => (_, Attended.mk w.mailbox selections)) hkeep

theorem poll_of_act {w w' : Attended} {client : String} {s : Selection} {report : PollReport}
    (hs : w.selections.get? client = some s)
    (hpoll : w.act (.request client .poll) = (.ok (.missed report), w')) :
    (s.poll w.mailbox).answer = .ok report ∧
      w' = ⟨(s.poll w.mailbox).mailbox,
        keep client w.selections (s.poll w.mailbox).selection?⟩ := by
  rw [act_poll hs] at hpoll
  obtain ⟨hanswer, hleft⟩ := Prod.mk.inj hpoll
  refine ⟨?_, hleft.symm⟩
  cases htold : (s.poll w.mailbox).answer with
  | error e =>
      rw [htold] at hanswer
      cases hanswer
  | ok told =>
      rw [htold] at hanswer
      cases hanswer
      rfl

/-- What a poll reports of a message is what a fetch right after it shows of this message, but for
the size and the envelope: the poll reports those that the session had in view before, and the fetch
shows those of the message. So both show the same if and only if these are the same. -/
theorem poll_then_fetch {m : SharedMailbox} (hinitial : m.mailbox.Initial)
    (hdistinct : m.mailbox.store.Distinct) (actions : List Action) {client : String}
    {s : Selection} (hs : ((alone m).actAll actions).selections.get? client = some s)
    {w : Attended} {report : PollReport}
    (hpoll : ((alone m).actAll actions).act (.request client .poll) = (.ok (.missed report), w))
    {v : MessageView} (hv : v ∈ report.flagged) :
    ∃ e ∈ s.snapshot.entries, ∃ r ∈ w.mailbox.mailbox.store.messages,
      e.uid = v.uid ∧ r.uid = v.uid ∧ v.size = e.size ∧ v.envelope = e.envelope ∧
      w.act (.request client (.fetch (.seqnums (.only v.seqnum.toNzNumber)))) =
        (.ok (.views [{ v with size := r.size, envelope := r.envelope }]), w) ∧
      (w.act (.request client (.fetch (.seqnums (.only v.seqnum.toNzNumber)))) =
        (.ok (.views [v]), w) ↔ r.size = e.size ∧ r.envelope = e.envelope) := by
  have hw : ((alone m).actAll actions).InStep False False :=
    inStep_actAll (inStep_alone ⟨hdistinct, hinitial.figured, False.elim, False.elim⟩) actions
  obtain ⟨hanswer, hleft⟩ := poll_of_act hs hpoll
  obtain ⟨s', hs', e, he, r, hr, hu, hu', hsize, henvelope, hfetch⟩ :=
    Selection.poll_flagged hw.sound (hw.follows client s hs).ascending hanswer hv
  have hkept : w.selections.get? client = some s' := by
    rw [hleft, get?_keep, if_pos rfl, hs']
  have hmailbox : w.mailbox = (s.poll ((alone m).actAll actions).mailbox).mailbox := by
    rw [hleft]
  rw [← hmailbox] at hr hfetch
  have hshown := act_fetch hkept hfetch
  refine ⟨e, he, r, hr, hu, hu', hsize, henvelope, hshown, ?_⟩
  rw [← hsize, ← henvelope, ← MessageView.withContent_eq_iff]
  refine ⟨fun h => ?_, fun h => hshown.trans (by rw [h])⟩
  simpa using congrArg Prod.fst (hshown.symm.trans h)

/-- The first of two messages in view is removed; the second one is told anew with another size, and
is read. -/
def outgrown : List Action :=
  [.change (arrival "a"), .change (arrival "b"), .select "c" false,
    .change ⟨[.markRemoved "a", .receive { remoteId := "b", size := 7 },
      .mergeFlags "b" (OrderedSet.insert .seen ∅) 0], .ok ()⟩]

/-- The message that is left has a new number, under which it is polled with its old size and
fetched with its new one. -/
theorem poll_then_fetch_of_outgrown : ∃ s w report v,
    unused.mailbox.Initial ∧ unused.mailbox.store.Distinct ∧
      ((alone unused).actAll outgrown).selections.get? "c" = some s ∧
      ((alone unused).actAll outgrown).act (.request "c" .poll) = (.ok (.missed report), w) ∧
      v ∈ report.flagged ∧ v.seqnum = .least ∧ v.size = 0 ∧
      ∃ r ∈ w.mailbox.mailbox.store.messages, r.size = 7 ∧
        w.act (.request "c" (.fetch (.seqnums (.only v.seqnum.toNzNumber)))) =
          (.ok (.views [{ v with size := r.size, envelope := r.envelope }]), w) := by
  have hpoll : ∃ s w report v, ((alone unused).actAll outgrown).selections.get? "c" = some s ∧
      ((alone unused).actAll outgrown).act (.request "c" .poll) = (.ok (.missed report), w) ∧
      report.flagged = [v] ∧ v.seqnum = .least ∧ v.size = 0 ∧
      ∀ r ∈ w.mailbox.mailbox.store.messages, r.size = 7 :=
    ⟨_, _, _, _, rfl, rfl, rfl, rfl, rfl, by decide⟩
  obtain ⟨s, w, report, v, hs, hpoll, hflagged, hnumber, hsize, hnew⟩ := hpoll
  have hv : v ∈ report.flagged := by simp [hflagged]
  obtain ⟨e, _, r, hr, _, _, _, _, hfetch, _⟩ := poll_then_fetch (m := unused)
    (.create "INBOX" 0) Ascending.nil outgrown hs hpoll hv
  exact ⟨s, w, report, v, .create "INBOX" 0, Ascending.nil, hs, hpoll, hv, hnumber, hsize, r, hr,
    hnew r hr, hfetch⟩

def enlarged : List Action :=
  [.change (arrival "a"), .select "c" false,
    .change ⟨[.receive { remoteId := "a", size := 7 },
      .mergeFlags "a" (OrderedSet.insert .seen ∅) 0], .ok ()⟩]

/-- A poll reports a message that has changed, and a fetch right after it shows another size. -/
theorem poll_shows_outdated_size : ∃ w report v v',
    ((alone unused).actAll enlarged).act (.request "c" .poll) = (.ok (.missed report), w) ∧
      report.flagged = [v] ∧
      w.act (.request "c" (.fetch (.seqnums (.only v.seqnum.toNzNumber)))) =
        (.ok (.views [v']), w) ∧
      v.size = 0 ∧ v'.size = 7 ∧ v' ≠ v :=
  ⟨_, _, _, _, rfl, rfl, rfl, rfl, rfl, by decide⟩

end Attended

end MailBridge

import MailBridge.Proofs.Mirror

/-! # Who is shown the marks of recent messages

A session that may write takes the marks of the messages that it sees for the first time, so that
no other session takes them for recent. What it has taken it is shown, with one exception: a poll
that finds the UIDs of the session void has by then taken the marks of messages of the new epoch,
which nobody is shown.

A request is one step here. Synchronization that sessions come in between of is a run of changes
that spare marks, each an action of its own. A poll looks at the mailbox twice, and that it is one
step matters for what is shown to one session only: a message that arrives between the two looks
may be shown as recent by a poll that only reads, and keeps its mark for the next session.
-/

namespace MailBridge

open SharedMailbox Snapshot

/-! ## What a view shows as recent -/

/-- The UIDs of the messages that are recent in view. -/
def Snapshot.recents (s : Snapshot) : List Uid :=
  (s.entries.filter fun e => Flags.isRecent e.flags).map (·.uid)

theorem Snapshot.mem_recents {s : Snapshot} {uid : Uid} :
    uid ∈ s.recents ↔ ∃ e ∈ s.entries, Flags.isRecent e.flags = true ∧ e.uid = uid := by
  simp only [recents, List.mem_map, List.mem_filter, and_assoc]

theorem Snapshot.nodup_recents {s : Snapshot} (h : Ascending SnapshotEntry.uid s.entries) :
    s.recents.Nodup := by
  refine List.pairwise_map.2 ((h.filter _).imp fun hlt heq => ?_)
  rw [heq] at hlt
  exact Nat.lt_irrefl _ hlt

theorem SnapshotEntry.isRecent_adopt (e : SnapshotEntry) (flags : Flags) :
    Flags.isRecent (e.adopt flags) = Flags.isRecent e.flags := by
  unfold adopt
  split
  · next hrecent =>
    rw [hrecent]
    simp [Flags.isRecent]
  · next hnot => rw [Flags.isRecent_withoutRecent, Bool.eq_false_iff.2 hnot]

namespace Mailbox

theorem isRecent_refresh (m : Mailbox) (e : SnapshotEntry) :
    Flags.isRecent (m.refresh e).flags = Flags.isRecent e.flags := by
  unfold refresh
  split
  · exact e.isRecent_adopt _
  · rfl

variable {p : Uid → Bool} {P P' : Uid → Prop} {m b m' : Mailbox} {uid : Uid}

/-- No messages but those of a kind have lost their marks, and all messages that are not recent
were there before. -/
def LosesOnly (P : Uid → Prop) (m m' : Mailbox) : Prop :=
  ∀ r' ∈ m'.store.messages, Flags.isRecent r'.flags = false → ∃ r ∈ m.store.messages,
    r.uid = r'.uid ∧ r.remoteId = r'.remoteId ∧ (Flags.isRecent r.flags = true → P r.uid)

theorem Carries.losesOnly (h : m.Carries True m') : m.LosesOnly P m' := by
  intro r' hr' hnot
  rcases h.origin r' hr' with ⟨r, hr, hcarried⟩ | hrecent
  · have hsame := hcarried.kept trivial
    refine ⟨r, hr, hcarried.uid.symm, hcarried.remoteId.symm, fun hrecent => ?_⟩
    rw [hnot, hrecent] at hsame
    cases hsame
  · rw [hrecent trivial] at hnot
    cases hnot

theorem LosesOnly.mono (hle : ∀ uid, P uid → P' uid) (h : m.LosesOnly P m') :
    m.LosesOnly P' m' := by
  intro r' hr' hnot
  obtain ⟨r, hr, huid, hid, htaken⟩ := h r' hr' hnot
  exact ⟨r, hr, huid, hid, fun hrecent => hle _ (htaken hrecent)⟩

/-- Some message with a UID was recent, and none is any more. -/
structure Claims (uid : Uid) (m m' : Mailbox) : Prop where
  before : ∃ r ∈ m.store.messages, r.uid = uid ∧ Flags.isRecent r.flags = true
  after : ∀ r' ∈ m'.store.messages, r'.uid = uid → Flags.isRecent r'.flags = false
  uids : m'.uids = m.uids

/-! ## Looking and taking marks off -/

/-- The messages in `b` have been looked at, and marks have been taken off since. -/
structure Takes (p : Uid → Bool) (m b m' : Mailbox) : Prop where
  found : ∀ r ∈ b.store.messages, r ∈ m.store.messages
  left : m'.store.messages = b.store.messages.map (Message.unmarkedIf p)
  uids : b.uids = m.uids
  uids' : m'.uids = m.uids

theorem takes_look (hd : m.store.Distinct) (isReadOnly : Bool) (p : Uid → Bool) :
    m.Takes (fun uid => !isReadOnly && p uid) m.startJournal.flushPending.2
      ((m.startJournal.flushPending.2.editAll
        (if isReadOnly then [] else [.clearRecent p])).editAll
          [.commit, .takeUnsaved]).keepChanges := by
  obtain ⟨huids, _, hfound⟩ := flushed_spec m.startJournal
  have hdistinct : m.startJournal.flushPending.2.store.Distinct :=
    distinct_editAll (m := m.startJournal) hd [.flushPending]
  rw [kept_eq]
  cases isReadOnly with
  | true => exact ⟨hfound, (List.map_id' _).symm, huids, huids⟩
  | false =>
      have hsame := (alike_clearRecent hdistinct p).uids
      exact ⟨hfound, messages_clearRecent hdistinct p, huids, hsame.trans huids⟩

theorem Takes.losesOnly (h : m.Takes p b m')
    (hP : ∀ r ∈ b.store.messages, Flags.isRecent r.flags = true → p r.uid = true → P r.uid) :
    m.LosesOnly P m' := by
  intro r' hr' hnot
  rw [h.left] at hr'
  obtain ⟨r, hr, rfl⟩ := List.mem_map.1 hr'
  have hcarried : r.Carried False (r.unmarkedIf p) := r.carried_unmarkedIf p id
  refine ⟨r, h.found r hr, hcarried.uid.symm, hcarried.remoteId.symm, fun hrecent => ?_⟩
  rw [Message.isRecent_unmarkedIf, hrecent, Bool.and_true] at hnot
  exact hP r hr hrecent (by simpa using hnot)

theorem Takes.claims (h : m.Takes p b m') {r : Message} (hr : r ∈ b.store.messages)
    (hrecent : Flags.isRecent r.flags = true) (hp : p r.uid = true) : m.Claims r.uid m' where
  before := ⟨r, h.found r hr, rfl, hrecent⟩
  after r' hr' huid := by
    rw [h.left] at hr'
    obtain ⟨x, hx, rfl⟩ := List.mem_map.1 hr'
    have hcarried : x.Carried False (x.unmarkedIf p) := x.carried_unmarkedIf p id
    rw [Message.isRecent_unmarkedIf, ← hcarried.uid, huid, hp]
    rfl
  uids := h.uids'

/-! ## Messages that have been claimed -/

/-- In an epoch a UID has been issued and no message with it is recent, unless the epoch is over or
the greatest there can be. -/
structure Claimed (v : UidValidity) (uid : Uid) (m : Mailbox) : Prop where
  begun : v.val ≤ m.uids.validity.val
  issued : v = m.uids.validity → m.uids.validity.val < maxWord → uid.val < m.uids.bound
  unmarked : v = m.uids.validity → m.uids.validity.val < maxWord →
    ∀ r ∈ m.store.messages, r.uid = uid → Flags.isRecent r.flags = false

theorem Claimed.carries {v : UidValidity} (h : m.Claimed v uid) (hc : m.Carries False m') :
    m'.Claimed v uid := by
  have hle := hc.later.validity
  have hnow (hv : v = m'.uids.validity) : m'.uids.validity = m.uids.validity := by
    refine UidValidity.ext_val ?_
    have hbegun := h.begun
    rw [hv] at hbegun
    omega
  refine ⟨Nat.le_trans h.begun hle, fun hv hlt => ?_, fun hv hlt r' hr' huid => ?_⟩
  · have hsame := hnow hv
    have hissued := h.issued (hv.trans hsame) (hsame ▸ hlt)
    exact Nat.lt_of_lt_of_le hissued (hc.later.continues hsame hlt).bound
  · have hsame := hnow hv
    have hissued := h.issued (hv.trans hsame) (hsame ▸ hlt)
    obtain ⟨r, hr, hcarried⟩ := hc.within hsame hlt r' hr' (huid ▸ hissued)
    have hunmarked := h.unmarked (hv.trans hsame) (hsame ▸ hlt)
    exact hcarried.lost (hunmarked r hr (hcarried.uid.symm.trans huid))

theorem Claims.claimed (h : m.Claims uid m')
    (hbelow : ∀ r ∈ m.store.messages, r.uid.val < m.uids.bound) :
    m'.Claimed m.uids.validity uid where
  begun := Nat.le_of_eq (by rw [h.uids])
  issued _ _ := by
    obtain ⟨r, hr, rfl, _⟩ := h.before
    rw [h.uids]
    exact hbelow r hr
  unmarked _ _ := h.after

end Mailbox

/-! ## Selecting, and what a session asks -/

namespace Selection

variable {issued counted : Prop} {m m' : SharedMailbox} {s s' : Selection} {b : Mailbox}

theorem LooksAt.takes (h : s.LooksAt m (s.pollChanges m.mailbox) b m')
    (hd : m.mailbox.store.Distinct) :
    m.mailbox.Takes (fun uid => !s.isReadOnly && s.snapshot.isNew uid) b m'.mailbox := by
  generalize hchanges : s.pollChanges m.mailbox = changes at h
  cases h with
  | still =>
      unfold pollChanges at hchanges
      obtain ⟨_, hquiet⟩ := Bool.or_eq_false_iff.1 hchanges
      refine ⟨fun _ => id, ?_, rfl, rfl⟩
      -- there is nothing to be taken off
      refine ((List.map_congr_left fun r hr => ?_).trans (List.map_id' _)).symm
      unfold Message.unmarkedIf
      split
      · next htaken =>
        obtain ⟨hwrites, hnew⟩ := Bool.and_eq_true_iff.1 htaken
        rw [hwrites, Bool.true_and, List.any_eq_false] at hquiet
        refine Message.unmarked_of_not_recent (Bool.eq_false_iff.2 fun hrecent => hquiet r hr ?_)
        exact Bool.and_eq_true_iff.2 ⟨hnew, hrecent⟩
      · rfl
  | changed _ left =>
      rw [left]
      exact Mailbox.takes_look hd s.isReadOnly s.snapshot.isNew

/-- A poll that takes a mark off shows the message as recent, or finds that the UIDs are void. -/
theorem losesOnly_poll (hm : m.mailbox.Sound issued counted)
    (hasc : Ascending SnapshotEntry.uid s.snapshot.entries) :
    m.mailbox.LosesOnly (fun uid =>
      (∃ s', (s.poll m).selection? = some s' ∧ uid ∈ s'.snapshot.recents) ∨
        s.isReadOnly = false ∧ s.snapshot.isNew uid = true ∧
          s.snapshot.validity ≠ m.mailbox.uids.validity ∧ (s.poll m).selection? = none)
      (s.poll m).mailbox.mailbox := by
  rcases poll_cases m s with ⟨e, m', _, hcarries, heq⟩ | ⟨b, m', hlooks, heq⟩
  · rw [heq]
    exact (hcarries hm.distinct).losesOnly
  · have hdistinct := (hlooks.sound hm).1.distinct
    have htakes := hlooks.takes hm.distinct
    rw [heq]
    unfold report
    split
    · refine htakes.losesOnly fun r hr hrecent htaken =>
        .inl ⟨_, rfl, mem_recents.2 ⟨.ofMessage r, ?_, hrecent, rfl⟩⟩
      rw [(Mailbox.catchUp_spec hasc hdistinct).1]
      refine List.mem_append_right _ (List.mem_map_of_mem (List.mem_filter.2 ⟨hr, ?_⟩))
      exact (Bool.and_eq_true_iff.1 htaken).2
    · next hvoid =>
      refine htakes.losesOnly fun r hr hrecent htaken => .inr ?_
      obtain ⟨hwrites, hnew⟩ := Bool.and_eq_true_iff.1 htaken
      refine ⟨by simpa using hwrites, hnew, fun hsame => hvoid ?_, rfl⟩
      rw [htakes.uids, hsame]

theorem claims_poll (hm : m.mailbox.Sound issued counted)
    (hasc : Ascending SnapshotEntry.uid s.snapshot.entries)
    (hs' : (s.poll m).selection? = some s') (hwrites : s'.isReadOnly = false) {uid : Uid}
    (hshown : uid ∈ s'.snapshot.recents) (hunknown : uid ∉ s.snapshot.recents) :
    m.mailbox.Claims uid (s.poll m).mailbox.mailbox ∧
      s'.snapshot.validity = m.mailbox.uids.validity := by
  rcases poll_cases m s with ⟨cause, m', _, _, heq⟩ | ⟨b, m', hlooks, heq⟩
  · rw [heq] at hs'
    cases hs'
    exact absurd hshown hunknown
  · have hdistinct := (hlooks.sound hm).1.distinct
    have htakes := hlooks.takes hm.distinct
    rw [heq] at hs' ⊢
    unfold report at hs' ⊢
    split at hs'
    · next hcurrent =>
      cases hs'
      rw [if_pos hcurrent]
      obtain ⟨e, he, hrecent, rfl⟩ := mem_recents.1 hshown
      dsimp only at he ⊢
      rw [(Mailbox.catchUp_spec hasc hdistinct).1] at he ⊢
      rcases List.mem_append.1 he with he | he
      · obtain ⟨x, hx, rfl⟩ := List.mem_map.1 he
        rw [Mailbox.isRecent_refresh] at hrecent
        rw [Mailbox.refresh_uid] at hunknown
        exact absurd (mem_recents.2 ⟨x, (List.mem_filter.1 hx).1, hrecent, rfl⟩) hunknown
      · obtain ⟨r, hr, rfl⟩ := List.mem_map.1 he
        obtain ⟨hr, hnew⟩ := List.mem_filter.1 hr
        refine ⟨htakes.claims hr hrecent ?_, ?_⟩
        · exact Bool.and_eq_true_iff.2 ⟨by simpa using hwrites, hnew⟩
        · rw [← htakes.uids, hcurrent]
    · cases hs'

end Selection

theorem Request.shrinks {r : Request} (h : r ≠ poll) {m : SharedMailbox} {s s' : Selection}
    (hs' : (r.serve m s).selection? = some s') :
    ∀ e ∈ s'.snapshot.entries, e ∈ s.snapshot.entries := by
  have hquiet {α : Type} {o : Outcome α} (hquiet : s.Quiet o) (ho : o.selection? = some s') :
      ∀ e ∈ s'.snapshot.entries, e ∈ s.snapshot.entries := by
    rw [hquiet s' ho]
    exact fun _ => id
  cases r with
  | fetch set => exact hquiet (Selection.quiet_fetch set) hs'
  | search key => exact hquiet (Selection.quiet_search key) hs'
  | store now set delta mode => exact hquiet (Selection.quiet_store now set delta mode) hs'
  | expunge =>
      change (s.expunge m).selection? = some s' at hs'
      rcases Selection.expunge_cases m s with ⟨_, _, _, heq | heq⟩ | ⟨removed, _, _, _, _, heq⟩
      all_goals
        rw [heq] at hs'
        cases hs'
      · exact fun _ => id
      · exact fun e he => (List.mem_filter.1 he).1
  | poll => exact absurd rfl h
  | close => exact hquiet Selection.quiet_close hs'
  | unselect => exact hquiet (Selection.quiet_leave (.ok ()) m) hs'

/-- What happens, unless sessions do it, takes no marks off. -/
def Action.SparesMarks : Action → Prop
  | .synchronize _ site => site.Allows Edit.sparesMarks
  | .change c => ∀ e ∈ c.edits, e.sparesMarks = true
  | _ => True

namespace Attended

variable {issued counted : Prop} {w : Attended} {a : Action}

def messages (w : Attended) : List Message := w.mailbox.mailbox.store.messages

/-- A session has a message in view as recent once it has acted. -/
def ShowsRecent (w : Attended) (a : Action) (uid : Uid) : Prop :=
  ∃ client s, a.client? = some client ∧ (w.act a).2.selections.get? client = some s ∧
    uid ∈ s.snapshot.recents

/-- A session that may write polls when its UIDs are void, and ends its selection. The UID is above
its view. -/
def PollsVoid (w : Attended) (a : Action) (uid : Uid) : Prop :=
  ∃ client s, a = .request client .poll ∧ w.selections.get? client = some s ∧
    s.isReadOnly = false ∧ s.snapshot.isNew uid = true ∧
    s.snapshot.validity ≠ w.mailbox.mailbox.uids.validity ∧
    (w.act a).2.selections.get? client = none

theorem mailbox_leave (client : String) (w : Attended) :
    (w.leave client).mailbox.mailbox = w.mailbox.mailbox := by
  unfold leave
  split <;> rfl

theorem act_select_cases (hd : w.mailbox.mailbox.store.Distinct) (client : String)
    (isReadOnly : Bool) :
    w.mailbox.mailbox.Carries True (w.act (.select client isReadOnly)).2.mailbox.mailbox ∧
        (w.act (.select client isReadOnly)).2.selections.get? client = none ∨
      ∃ s b, (w.act (.select client isReadOnly)).2.selections.get? client = some s ∧
        s.snapshot = b.snapshot ∧ w.mailbox.mailbox.Takes (fun _ => !s.isReadOnly) b
          (w.act (.select client isReadOnly)).2.mailbox.mailbox := by
  rw [← mailbox_leave client w] at hd ⊢
  rcases select_cases isReadOnly (w.leave client).mailbox with
    ⟨e, m, _, hcarries, hselect⟩ | ⟨report, s, m, _, hselect, _, hview, hmode, hleft⟩
  · refine .inl ?_
    simp only [act, hselect]
    exact ⟨hcarries hd, by rw [get?_leave, if_pos rfl]⟩
  · refine .inr ⟨s, (w.leave client).mailbox.mailbox.startJournal.flushPending.2, ?_⟩
    simp only [act, hselect]
    refine ⟨OrderedMap.get?_insert_self .., hview, ?_⟩
    have htakes := Mailbox.takes_look hd isReadOnly fun _ => true
    simp only [Bool.and_true] at htakes
    rw [hmode, hleft]
    exact htakes

/-- Marks are taken off only messages that the session is shown as recent, but for those above the
view of a session that polls when its UIDs are void. -/
theorem losesOnly_act (h : w.InStep issued counted) (ha : a.SparesMarks) :
    w.mailbox.mailbox.LosesOnly (fun uid => w.ShowsRecent a uid ∨ w.PollsVoid a uid)
      (w.act a).2.mailbox.mailbox := by
  have hd := h.sound.distinct
  cases a with
  | select client isReadOnly =>
      rcases act_select_cases hd client isReadOnly with ⟨hcarries, _⟩ | ⟨s, b, hs, hview, htakes⟩
      · exact hcarries.losesOnly
      · refine htakes.losesOnly fun r hr hrecent _ => .inl ⟨client, s, rfl, hs, ?_⟩
        rw [hview]
        exact mem_recents.2 ⟨.ofMessage r, List.mem_map_of_mem hr, hrecent, rfl⟩
  | request client request =>
      cases hs : w.selections.get? client with
      | none =>
          simp only [act, hs]
          exact (Mailbox.Carries.refl _).losesOnly
      | some s =>
          by_cases hpoll : request = .poll
          · subst hpoll
            have hnow : (w.act (.request client .poll)).2.selections.get? client =
                (s.poll w.mailbox).selection? := by
              rw [act_poll hs, get?_keep, if_pos rfl]
            have hpolled := Selection.losesOnly_poll h.sound (h.follows client s hs).ascending
            have hmailbox : (w.act (.request client .poll)).2.mailbox =
                (s.poll w.mailbox).mailbox := by
              rw [act_poll hs]
            rw [hmailbox]
            refine hpolled.mono fun uid => ?_
            rintro (⟨s', hs', hrecent⟩ | ⟨hwrites, hnew, hvoid, hnone⟩)
            · exact .inl ⟨client, s', rfl, hnow.trans hs', hrecent⟩
            · exact .inr ⟨client, s, rfl, hs, hwrites, hnew, hvoid, hnow.trans hnone⟩
          · have hspares : (request.serve w.mailbox s).Attends Edit.sparesMarks issued counted
                w.mailbox s := Request.spares hpoll w.mailbox s
            simp only [act, hs]
            exact (carries_leadsBy hd (fun _ _ => id) hspares.leads).2.losesOnly
  | leave client =>
      simp only [act, mailbox_leave]
      exact (Mailbox.Carries.refl _).losesOnly
  | synchronize round site =>
      have hleads := (round.leadsBy (fun _ => id) { site with shared := w.mailbox } ha).1
      exact (carries_leadsBy hd (fun _ _ => id) hleads).2.losesOnly
  | change c => exact (carries_perform hd fun _ => ha).losesOnly
  | recache cache? => exact (Mailbox.Carries.refl _).losesOnly

/-- A message that is not recent at the end of a run never was, or the session that took its mark
was shown it. -/
theorem losesOnly_actAll (h : w.InStep issued counted) {actions : List Action}
    (hactions : ∀ a ∈ actions, a.SparesMarks) {r' : Message}
    (hr' : r' ∈ (w.actAll actions).mailbox.mailbox.store.messages)
    (hnot : Flags.isRecent r'.flags = false) :
    (∃ r ∈ w.mailbox.mailbox.store.messages, r.uid = r'.uid ∧ r.remoteId = r'.remoteId ∧
        Flags.isRecent r.flags = false) ∨
      ∃ before a after, actions = before ++ a :: after ∧
        (∃ r ∈ (w.actAll before).mailbox.mailbox.store.messages, r.uid = r'.uid ∧
          r.remoteId = r'.remoteId ∧ Flags.isRecent r.flags = true) ∧
        ((w.actAll before).ShowsRecent a r'.uid ∨ (w.actAll before).PollsVoid a r'.uid) := by
  induction actions generalizing w with
  | nil => exact .inl ⟨r', hr', rfl, rfl, hnot⟩
  | cons a rest ih =>
      obtain ⟨ha, hrest⟩ := List.forall_mem_cons.1 hactions
      -- either the mark was taken later in the run, or by this action, or before
      rcases ih (inStep_act h a) hrest hr' with ⟨x, hx, huid, hid, hnot'⟩ | later
      · obtain ⟨r, hr, huid', hid', htaken⟩ := losesOnly_act h ha x hx hnot'
        cases hrecent : Flags.isRecent r.flags with
        | false => exact .inl ⟨r, hr, huid'.trans huid, hid'.trans hid, hrecent⟩
        | true =>
            have hwho := htaken hrecent
            rw [huid'.trans huid] at hwho
            exact .inr ⟨[], a, rest, rfl, ⟨r, hr, huid'.trans huid, hid'.trans hid, hrecent⟩, hwho⟩
      · obtain ⟨before, b, after, rfl, hthen⟩ := later
        exact .inr ⟨a :: before, b, after, rfl, hthen⟩

/-! ## Handing messages out -/

/-- The messages that the session that acts has had in view as recent. To select the mailbox is to
begin anew. -/
def known (w : Attended) : Action → List Uid
  | .request client _ =>
    match w.selections.get? client with
    | some s => s.snapshot.recents
    | none => []
  | _ => []

/-- The messages that an action makes recent in the view of a session that may write, each with the
epoch of its UID. -/
def handed (w : Attended) (a : Action) : List (UidValidity × Uid) :=
  match a.client?.bind (w.act a).2.selections.get? with
  | none => []
  | some s =>
    if s.isReadOnly then []
    else
      (s.snapshot.recents.filter fun uid => decide (uid ∉ w.known a)).map (s.snapshot.validity, ·)

def handedAll : List Action → Attended → List (UidValidity × Uid)
  | [], _ => []
  | a :: rest, w => w.handed a ++ handedAll rest (w.act a).2

theorem mem_handed {v : UidValidity} {uid : Uid} (h : (v, uid) ∈ w.handed a) :
    ∃ client s, a.client? = some client ∧ (w.act a).2.selections.get? client = some s ∧
      s.isReadOnly = false ∧ s.snapshot.validity = v ∧ uid ∈ s.snapshot.recents ∧
      uid ∉ w.known a := by
  unfold handed at h
  split at h
  · cases h
  · next s hs =>
    obtain ⟨client, hclient, hs⟩ := Option.bind_eq_some_iff.1 hs
    split at h
    · cases h
    · next hwrites =>
      obtain ⟨_, huid, heq⟩ := List.mem_map.1 h
      cases heq
      obtain ⟨hshown, hunknown⟩ := List.mem_filter.1 huid
      exact ⟨client, s, hclient, hs, Bool.eq_false_iff.2 hwrites, rfl, hshown,
        of_decide_eq_true hunknown⟩

theorem nodup_handed (h : w.InStep issued counted) (a : Action) : (w.handed a).Nodup := by
  unfold handed
  split
  · exact List.nodup_nil
  · next s hs =>
    obtain ⟨client, _, hs⟩ := Option.bind_eq_some_iff.1 hs
    split
    · exact List.nodup_nil
    · have hasc := ((inStep_act h a).follows client s hs).ascending
      have hnodup := (nodup_recents hasc).filter fun uid => decide (uid ∉ w.known a)
      exact List.pairwise_map.2 (hnodup.imp fun hne heq => hne (congrArg Prod.snd heq))

theorem claims_of_mem_handed (h : w.InStep issued counted) {v : UidValidity} {uid : Uid}
    (hmem : (v, uid) ∈ w.handed a) : v = w.mailbox.mailbox.uids.validity ∧
      w.mailbox.mailbox.Claims uid (w.act a).2.mailbox.mailbox := by
  obtain ⟨client, s', hclient, hs', hwrites, rfl, hshown, hunknown⟩ := mem_handed hmem
  cases a with
  | select c isReadOnly =>
      cases hclient
      rcases act_select_cases h.sound.distinct client isReadOnly with
        ⟨_, hnone⟩ | ⟨s, b, hs, hview, htakes⟩
      · rw [hnone] at hs'
        cases hs'
      · rw [hs] at hs'
        cases hs'
        rw [hview] at hshown ⊢
        obtain ⟨e, he, hrecent, rfl⟩ := mem_recents.1 hshown
        obtain ⟨r, hr, rfl⟩ := List.mem_map.1 he
        refine ⟨congrArg UidSpace.validity htakes.uids, htakes.claims hr hrecent ?_⟩
        rw [hwrites]
        rfl
  | request c request =>
      cases hclient
      cases hs : w.selections.get? client with
      | none =>
          simp only [act, hs] at hs'
          cases hs'
      | some s =>
          simp only [known, hs] at hunknown
          by_cases hpoll : request = .poll
          · subst hpoll
            rw [act_poll hs] at hs' ⊢
            rw [get?_keep, if_pos rfl] at hs'
            obtain ⟨hclaims, hvalidity⟩ := Selection.claims_poll h.sound
              (h.follows client s hs).ascending hs' hwrites hshown hunknown
            exact ⟨hvalidity, hclaims⟩
          · simp only [act, hs] at hs'
            rw [get?_keep, if_pos rfl] at hs'
            obtain ⟨e, he, hrecent, rfl⟩ := mem_recents.1 hshown
            exact absurd (mem_recents.2 ⟨e, Request.shrinks hpoll hs' e he, hrecent, rfl⟩) hunknown
  | leave c =>
      cases hclient
      rw [show (w.act (.leave client)).2 = w.leave client from rfl, get?_leave, if_pos rfl] at hs'
      cases hs'
  | synchronize round site => cases hclient
  | change c => cases hclient
  | recache cache? => cases hclient

/-- What has been claimed in an epoch, or is handed out, is not handed out later. -/
theorem nodup_handedAll (h : w.InStep True counted) (actions : List Action)
    (hvalidity : (w.actAll actions).mailbox.mailbox.uids.validity.val < maxWord) :
    (w.handedAll actions).Nodup ∧ ∀ v uid, w.mailbox.mailbox.Claimed v uid →
      (v, uid) ∉ w.handedAll actions := by
  induction actions generalizing w with
  | nil => exact ⟨List.nodup_nil, fun _ _ _ hmem => nomatch hmem⟩
  | cons a rest ih =>
      have hnext := inStep_act h a
      obtain ⟨hrest, hlater⟩ := ih hnext hvalidity
      have hcarries : w.mailbox.mailbox.Carries False (w.act a).2.mailbox.mailbox :=
        (carries_leadsBy h.sound.distinct False.elim (leads_act w a).leadsBy).2
      have hlt : w.mailbox.mailbox.uids.validity.val < maxWord := by
        have hnow := hcarries.later.validity
        have hthen := (sound_leads hnext.sound (leads_actAll (w.act a).2 rest)).2.validity
        rw [actAll_cons] at hvalidity
        omega
      have hclaimed {v : UidValidity} {uid : Uid} (hmem : (v, uid) ∈ w.handed a) :
          (w.act a).2.mailbox.mailbox.Claimed v uid := by
        obtain ⟨rfl, hclaims⟩ := claims_of_mem_handed h hmem
        exact hclaims.claimed (h.sound.below trivial)
      -- what this action hands out is claimed for all that comes later
      refine ⟨List.nodup_append.2 ⟨nodup_handed h a, hrest, ?_⟩, fun v uid hbefore hmem => ?_⟩
      · rintro ⟨v, uid⟩ hmem _ hmem' rfl
        exact hlater v uid (hclaimed hmem) hmem'
      · rcases List.mem_append.1 hmem with hmem | hmem
        · obtain ⟨rfl, hclaims⟩ := claims_of_mem_handed h hmem
          obtain ⟨r, hr, rfl, hrecent⟩ := hclaims.before
          rw [hbefore.unmarked rfl hlt r hr rfl] at hrecent
          cases hrecent
        · exact hlater v uid (hbefore.carries hcarries) hmem

/-- Whatever was done before, a session that takes the mark of a recent message off is shown the
message as recent, unless its UIDs are void when it polls. So if only sessions take marks off, every
message that was recent once and is not at the end was shown to a session as recent, that case
apart. And no message becomes recent in view of sessions that may write more than once, if none
began with a UID that is still to be issued and the UID validity is not the greatest, and if nobody
acts between the two looks of a poll. -/
theorem marks_taken_are_shown {m : SharedMailbox} (hinitial : m.mailbox.Initial)
    (hdistinct : m.mailbox.store.Distinct) (actions : List Action) :
    (∀ a client, a.client? = some client → ∀ r ∈ ((alone m).actAll actions).messages,
      ∀ r' ∈ (((alone m).actAll actions).act a).2.messages, r'.uid = r.uid →
        Flags.isRecent r.flags = true → Flags.isRecent r'.flags = false →
          ((alone m).actAll actions).ShowsRecent a r.uid ∨
            ((alone m).actAll actions).PollsVoid a r.uid) ∧
    ((∀ a ∈ actions, a.SparesMarks) → ∀ r' ∈ ((alone m).actAll actions).messages,
      Flags.isRecent r'.flags = false →
        (∃ r ∈ (alone m).messages, r.uid = r'.uid ∧ r.remoteId = r'.remoteId ∧
          Flags.isRecent r.flags = false) ∨
        ∃ before a after, actions = before ++ a :: after ∧
          (∃ r ∈ ((alone m).actAll before).messages, r.uid = r'.uid ∧ r.remoteId = r'.remoteId ∧
            Flags.isRecent r.flags = true) ∧
          (((alone m).actAll before).ShowsRecent a r'.uid ∨
            ((alone m).actAll before).PollsVoid a r'.uid)) ∧
    ((∀ r ∈ m.mailbox.store.messages, r.uid.val < m.mailbox.uids.bound) →
      ((alone m).actAll actions).mailbox.mailbox.uids.validity.val < maxWord →
        ((alone m).handedAll actions).Nodup) := by
  have hstart (issued : Prop)
      (hbelow : issued → ∀ r ∈ m.mailbox.store.messages, r.uid.val < m.mailbox.uids.bound) :
      (alone m).InStep issued False :=
    inStep_alone ⟨hdistinct, hinitial.figured, hbelow, fun h => h.elim⟩
  have hbegin := hstart False fun h => h.elim
  refine ⟨fun a client hclient r hr r' hr' huid hrecent hnot => ?_, fun hspares r' hr' hnot => ?_,
    fun hbelow hvalidity => ?_⟩
  · have hw := inStep_actAll hbegin actions
    have hspares : a.SparesMarks := by
      cases a with
      | synchronize => cases hclient
      | change => cases hclient
      | _ => trivial
    obtain ⟨x, hx, huid', _, htaken⟩ := losesOnly_act hw hspares r' hr' hnot
    have hsame : x = r := hw.sound.distinct.eq_of_uid_eq hx hr (huid'.trans huid)
    subst hsame
    exact htaken hrecent
  · exact losesOnly_actAll hbegin hspares hr' hnot
  · exact (nodup_handedAll (hstart True fun _ => hbelow) actions hvalidity).1

/-- A client has selected a mailbox with a message when another one arrives. -/
def meeting : List Action :=
  [.change (arrival "a"), .select "c" false, .change (arrival "b")]

theorem marks_taken_are_shown_at_meeting :
    unused.mailbox.Initial ∧ unused.mailbox.store.Distinct ∧ (∀ a ∈ meeting, a.SparesMarks) ∧
      (∃ r ∈ ((alone unused).actAll meeting).messages, Flags.isRecent r.flags = true ∧
        (((alone unused).actAll meeting).ShowsRecent (.request "c" .poll) r.uid ∨
          ((alone unused).actAll meeting).PollsVoid (.request "c" .poll) r.uid)) ∧
      (∃ before a after, meeting = before ++ a :: after ∧
        (((alone unused).actAll before).ShowsRecent a .least ∨
          ((alone unused).actAll before).PollsVoid a .least)) ∧
      ((alone unused).handedAll meeting).Nodup := by
  obtain ⟨htaken, hnever, honce⟩ :=
    marks_taken_are_shown (m := unused) (.create "INBOX" 0) Ascending.nil meeting
  have hspares : ∀ a ∈ meeting, a.SparesMarks := by
    simp [meeting, Action.SparesMarks, arrival, Edit.sparesMarks]
  have hpoll : ∃ r ∈ ((alone unused).actAll meeting).messages,
      ∃ r' ∈ (((alone unused).actAll meeting).act (.request "c" .poll)).2.messages,
        r'.uid = r.uid ∧ Flags.isRecent r.flags = true ∧ Flags.isRecent r'.flags = false := by
    decide
  have hselect : ∃ r' ∈ ((alone unused).actAll meeting).messages,
      r'.uid = .least ∧ Flags.isRecent r'.flags = false := by
    decide
  obtain ⟨r, hr, r', hr', huid, hrecent, hnot⟩ := hpoll
  obtain ⟨x, hx, hleast, hnot'⟩ := hselect
  refine ⟨.create "INBOX" 0, Ascending.nil, hspares, ⟨r, hr, hrecent, ?_⟩, ?_, ?_⟩
  · exact htaken (.request "c" .poll) "c" rfl r hr r' hr' huid hrecent hnot
  · rcases hnever hspares x hx hnot' with ⟨y, hy, _⟩ | ⟨before, a, after, heq, _, hwho⟩
    · cases hy
    · exact ⟨before, a, after, heq, hleast ▸ hwho⟩
  · exact honce (fun r hr => by cases hr) (by decide)

-- the message that is there and the one that arrives are each handed out once
example : ((alone unused).handedAll (meeting ++ [.request "c" .poll, .select "d" false])).map
    (·.2.val) = [1, 2] := by
  decide

/-- A client has selected a mailbox that begins a new epoch, in which a message arrives. -/
def renewal : List Action :=
  [.change (arrival "a"), .select "c" false, .change ⟨[.invalidate 0], .ok ()⟩,
    .change (arrival "b")]

/-- The poll of a client whose UIDs are void takes the mark of a message that the client is not
shown, and that is not recent to the client that selects the mailbox next. -/
theorem void_poll_takes_marks :
    let w := (alone unused).actAll renewal
    let polled := (w.act (.request "c" .poll)).2
    let selected := (polled.act (.select "d" false)).2
    (∀ a ∈ renewal, a.SparesMarks) ∧
      w.messages.map (fun r => (r.remoteId, Flags.isRecent r.flags)) = [("b", true)] ∧
      polled.messages.map (fun r => (r.remoteId, Flags.isRecent r.flags)) = [("b", false)] ∧
      polled.selections.get? "c" = none ∧
      (selected.selections.get? "d").map (·.snapshot.recents) = some [] := by
  refine ⟨?_, by decide, by decide, by decide, by decide⟩
  simp [renewal, Action.SparesMarks, arrival, Edit.sparesMarks]

end Attended

end MailBridge

import MailBridge.Proofs.Recent

/-! # Sessions whose UIDs are void

Once a mailbox has begun a new epoch, the UIDs that a session has in view are void. What the session
asks next is turned away: the mailbox stays exactly as it is, nothing is selected any more, and the
client is told, unless it only wanted to leave. Two requests act before the epochs are compared, or
do not compare them: a session that may write and closes the mailbox removes the messages of the new
epoch that are marked for removal, and a poll removes those that wait to be expunged and takes the
marks of recent messages.
-/

namespace MailBridge

open SharedMailbox

/-! ## A mailbox between changes -/

namespace Mailbox

variable {start m m' : Mailbox}

/-- The figures of the mailbox are of its present epoch, if they are known. -/
def Timely (m : Mailbox) : Prop :=
  ∀ figures, m.summary? = some figures → figures.validity = m.uids.validity

theorem Timely.of_none (h : m.summary? = none) : m.Timely := by
  intro figures hfigures
  rw [h] at hfigures
  cases hfigures

theorem Timely.of_eq (h : m.Timely) (hsummary : m'.summary? = m.summary?)
    (huids : m'.uids = m.uids) : m'.Timely := by
  unfold Timely
  rw [hsummary, huids]
  exact h

theorem timely_commit (h : m.Timely) : m.commit.Timely := by
  unfold commit
  split
  · exact h
  · intro figures hfigures
    cases hfigures
    rfl

theorem summary_validity (h : m.Timely) : m.summary.validity = m.uids.validity := by
  unfold summary
  cases hsummary : m.summary? with
  | none => rfl
  | some figures => exact h figures hsummary

theorem Initial.timely (h : m.Initial) : m.Timely := by
  cases h with
  | create => exact timely_commit (.of_none rfl)
  | ofSaved => exact timely_commit (.of_none rfl)

theorem Upkeep.timely (h : m.Timely) (s : Upkeep m m') : m'.Timely := by
  cases s with
  | note uid => exact h.of_eq (note_summary? ..) (note_uids ..)
  | mark => exact h.of_eq rfl rfl
  | forget => exact .of_none rfl
  | commit => exact timely_commit h
  | raise => exact .of_none rfl
  | touch => exact h.of_eq (note_summary? ..) (note_uids ..)
  | change => exact .of_none rfl
  | remove => exact .of_none rfl

theorem Timely.editAll (h : m.Timely) (edits : List Edit) : (m.editAll edits).Timely := by
  refine editAll_preserves (P := Timely) (fun h s => s.timely h) (fun _ s => ?_)
    (fun now _ => .of_none (invalidate_eq now _).2.2.2) edits h
  cases s with
  | spend => exact .of_none (note_summary? ..)
  | enter => exact .of_none (note_summary? ..)

/-- The journal tells all but the messages as they were when the change began. -/
def Heads (start m : Mailbox) : Prop :=
  ∃ j, m.journal? = some j ∧ j = { start.begun with messages := j.messages, store? := j.store? }

theorem Heads.congr (h : start.Heads m) (hj : m'.journal? = m.journal?) : start.Heads m' := by
  unfold Heads
  rw [hj]
  exact h

theorem Heads.note (h : start.Heads m) (uid : Uid) : start.Heads (m.note uid) := by
  obtain ⟨j, hj, hheader⟩ := h
  unfold Mailbox.note
  simp only [hj]
  split
  · exact ⟨j, hj, hheader⟩
  · exact ⟨_, rfl, by rw [hheader]⟩

theorem Heads.noteRemoved (h : start.Heads m) (removed : List Message) :
    start.Heads (m.noteRemoved removed) := by
  obtain ⟨j, hj, hheader⟩ := h
  unfold Mailbox.noteRemoved
  simp only [hj]
  split
  · exact ⟨j, hj, hheader⟩
  · exact ⟨_, rfl, by rw [hheader]⟩

theorem Heads.noteStore (h : start.Heads m) : start.Heads m.noteStore := by
  obtain ⟨j, hj, hheader⟩ := h
  unfold Mailbox.noteStore
  simp only [hj]
  split
  · exact ⟨j, hj, hheader⟩
  · exact ⟨_, rfl, by rw [hheader]⟩

theorem Upkeep.heads (h : start.Heads m) (s : Upkeep m m') : start.Heads m' := by
  cases s with
  | note uid => exact h.note uid
  | mark => exact h.congr rfl
  | forget => exact h.congr rfl
  | commit =>
      unfold Mailbox.commit
      split
      · exact h
      · exact h.congr rfl
  | raise => exact h.congr rfl
  | touch => exact (h.note _).congr rfl
  | change => exact (h.note _).congr rfl
  | remove p =>
      have hremoved : start.Heads { m with store := (m.store.removeWhere p).2 } := h.congr rfl
      exact (hremoved.noteRemoved _).congr rfl

theorem Admission.heads (h : start.Heads m) (s : Admission m m') : start.Heads m' := by
  cases s with
  | @spend uid uids =>
      have hspent : start.Heads (advance { m with uids }) := h.congr rfl
      exact hspent.note uid
  | @enter r uids =>
      have hspent : start.Heads (advance { m with uids }) := h.congr rfl
      exact (hspent.note r.uid).congr rfl

theorem heads_editAll (m : Mailbox) (edits : List Edit) :
    m.Heads (m.startJournal.editAll edits) := by
  have hbegin : m.Heads m.startJournal := ⟨m.begun, rfl, rfl⟩
  refine editAll_preserves (P := m.Heads) (fun h s => s.heads h) (fun h s => s.heads h) ?_ edits
    hbegin
  intro b now h
  have hrenewed : m.Heads { b with uids := b.uids.renew now } := h.congr rfl
  exact hrenewed.noteStore.congr rfl

/-- All but the messages is taken back, whatever state they were in. -/
theorem rollback_of_heads (h : start.Heads m) : ∃ name store,
    m.rollback = { start with name, store, journal? := none } := by
  obtain ⟨j, hj, hheader⟩ := h
  refine ⟨m.name, m.rollback.store, ?_⟩
  unfold rollback
  simp only [hj]
  rw [hheader]
  rfl

/-- Nothing of a change is left to be done. -/
structure AtRest (m : Mailbox) : Prop where
  counted : m.summary?.isSome = true
  saved : m.unsaved = {}
  journal : m.journal? = none

theorem atRest_kept (m : Mailbox) : (m.editAll [.commit, .takeUnsaved]).keepChanges.AtRest := by
  rw [kept_eq]
  exact ⟨rfl, rfl, rfl⟩

theorem expunge_of_none (h : ∀ r ∈ m.store.messages, Flag.deleted ∉ r.flags) :
    m.expunge = ([], m) := by
  have hempty : (m.store.removeWhere fun r => Flags.isDeleted r.flags).1.isEmpty = true := by
    refine List.isEmpty_iff.2 (List.filter_eq_nil_iff.2 fun r hr => ?_)
    simpa [Flags.isDeleted] using h r hr
  unfold expunge settleRemoval
  dsimp only
  rw [if_pos hempty, MessageStore.removeWhere_of_isEmpty hempty]

end Mailbox

namespace SharedMailbox

variable {α : Type} {s s' : SharedMailbox}

theorem timely_perform (h : s.mailbox.Timely) (c : Change) : (s.perform c).mailbox.Timely := by
  rcases s.perform_cases c with ⟨edits, heq⟩ | ⟨cache?, heq⟩
  · obtain ⟨name, store, hback⟩ :=
      Mailbox.rollback_of_heads (Mailbox.heads_editAll s.mailbox edits)
    rw [heq, hback]
    exact h.of_eq rfl rfl
  · have hbegin : s.mailbox.startJournal.Timely := h.of_eq rfl rfl
    rw [heq]
    exact (hbegin.editAll _).of_eq rfl rfl

theorem atRest_perform (h : s.mailbox.AtRest) (c : Change) : (s.perform c).mailbox.AtRest := by
  rcases s.perform_cases c with ⟨edits, heq⟩ | ⟨cache?, heq⟩
  · obtain ⟨name, store, hback⟩ :=
      Mailbox.rollback_of_heads (Mailbox.heads_editAll s.mailbox edits)
    rw [heq, hback]
    exact ⟨h.counted, h.saved, rfl⟩
  · rw [heq, Mailbox.editAll_append]
    exact Mailbox.atRest_kept _

theorem timely_leads (h : s.mailbox.Timely) (hleads : Leads s s') : s'.mailbox.Timely := by
  induction hleads with
  | refl => exact h
  | tail _ hstep ih =>
      cases hstep with
      | change c => exact timely_perform ih c
      | aside => exact ih

theorem atRest_leads (h : s.mailbox.AtRest) (hleads : Leads s s') : s'.mailbox.AtRest := by
  induction hleads with
  | refl => exact h
  | tail _ hstep ih =>
      cases hstep with
      | change c => exact atRest_perform ih c
      | aside => exact ih

theorem modify_still {f : Mailbox → α × Mailbox} {a : α} (h : s.mailbox.AtRest)
    (hf : f s.mailbox.startJournal = (a, s.mailbox.startJournal)) : s.modify f = (.ok a, s) := by
  unfold modify mutate
  simp only [hf]
  obtain ⟨⟨name, uids, store, modseq, cursor, pending, summary?, unsaved, journal?⟩, cache?,
    sessions⟩ := s
  obtain ⟨hcounted, hsaved, hjournal⟩ := h
  dsimp only at hcounted hsaved hjournal
  obtain ⟨figures, rfl⟩ := Option.isSome_iff_exists.1 hcounted
  subst hsaved hjournal
  cases cache? with
  | none => rfl
  | some cache => rfl

end SharedMailbox

namespace Attended

variable {w : Attended}

/-- Once a session has selected the mailbox, the mailbox is at rest whenever nothing happens. -/
theorem atRest_act
    (h : ∀ client s, w.selections.get? client = some s → w.mailbox.mailbox.AtRest) (a : Action)
    {client : String} {s : Selection} (hs : (w.act a).2.selections.get? client = some s) :
    (w.act a).2.mailbox.mailbox.AtRest := by
  by_cases hbefore : ∃ c s', w.selections.get? c = some s'
  · obtain ⟨c, s', hs'⟩ := hbefore
    exact atRest_leads (h c s' hs') (leads_act w a)
  · -- nobody had selected the mailbox, so somebody selects it now
    have hnone (c : String) : w.selections.get? c = none :=
      Option.eq_none_iff_forall_ne_some.2 fun s' hs' => hbefore ⟨c, s', hs'⟩
    cases a with
    | select c isReadOnly =>
        rcases select_cases isReadOnly (w.leave c).mailbox with
          ⟨e, m, _, _, hselect⟩ | ⟨report, selection, m, _, hselect, _, _, _, hleft⟩
        · simp only [act, hselect] at hs
          rw [get?_leave, hnone] at hs
          split at hs <;> cases hs
        · simp only [act, hselect]
          rw [hleft]
          exact Mailbox.atRest_kept _
    | request c request =>
        simp only [act, hnone c] at hs
        cases (hnone client).symm.trans hs
    | leave c =>
        rw [show (w.act (.leave c)).2 = w.leave c from rfl, get?_leave, hnone] at hs
        split at hs <;> cases hs
    | synchronize round site => cases (hnone client).symm.trans hs
    | change c => cases (hnone client).symm.trans hs
    | recache cache? => cases (hnone client).symm.trans hs

theorem atRest_actAll (htimely : w.mailbox.mailbox.Timely)
    (h : ∀ client s, w.selections.get? client = some s → w.mailbox.mailbox.AtRest)
    (actions : List Action) :
    (w.actAll actions).mailbox.mailbox.Timely ∧ ∀ client s,
      (w.actAll actions).selections.get? client = some s →
        (w.actAll actions).mailbox.mailbox.AtRest := by
  induction actions generalizing w with
  | nil => exact ⟨htimely, h⟩
  | cons a rest ih =>
      have hnext := timely_leads htimely (leads_act w a)
      exact ih hnext fun client s hs => atRest_act h a hs

end Attended

/-! ## Turning a session away -/

/-- What a client is to be told whose UIDs are void. One that leaves has nothing to be told. -/
def Request.voidAnswer (s : Selection) : Request → Except SessionError Response
  | fetch _ | search _ | store .. | expunge => .error (.invalidated s.mailbox)
  | poll => .ok (.missed { invalidated := true })
  | close | unselect => .ok .done

/-- The request acts without regard to the epoch: a session that may write closes the mailbox while
messages are marked for removal, or a poll has something to change. -/
def Request.Oversteps (b : Mailbox) (s : Selection) : Request → Prop
  | close => s.isReadOnly = false ∧ ∃ r ∈ b.store.messages, Flag.deleted ∈ r.flags
  | poll => b.pending.isEmpty = false ∨ s.isReadOnly = false ∧
      ∃ r ∈ b.store.messages, s.snapshot.isNew r.uid = true ∧ Flag.recent ∈ r.flags
  | _ => False

namespace Selection

variable {α : Type} {m : SharedMailbox} {s : Selection}

theorem whileValid_of_void {command : SharedMailbox → Selection → Outcome α}
    (h : m.mailbox.summary.validity ≠ s.snapshot.validity) :
    whileValid command m s = leave (.error (.invalidated s.mailbox)) m := if_neg h

theorem pollChanges_iff {b : Mailbox} :
    s.pollChanges b = true ↔ Request.Oversteps b s .poll := by
  simp [pollChanges, Request.Oversteps, Flags.isRecent]

theorem serve_of_void (htimely : m.mailbox.Timely) (hrest : m.mailbox.AtRest)
    (hvoid : s.snapshot.validity ≠ m.mailbox.uids.validity) {r : Request}
    (h : ¬ r.Oversteps m.mailbox s) : r.serve m s = leave (r.voidAnswer s) m := by
  have hfigures : m.mailbox.summary.validity ≠ s.snapshot.validity := by
    rw [Mailbox.summary_validity htimely]
    exact hvoid.symm
  cases r with
  | fetch set => exact congrArg (Outcome.map Response.views) (whileValid_of_void hfigures)
  | search key => exact congrArg (Outcome.map Response.views) (whileValid_of_void hfigures)
  | store now set delta mode =>
      exact congrArg (Outcome.map Response.views) (whileValid_of_void hfigures)
  | expunge => exact congrArg (Outcome.map Response.expunged) (whileValid_of_void hfigures)
  | poll =>
      have hquiet : s.pollChanges m.mailbox = false :=
        Bool.eq_false_iff.2 fun hchanges => h (pollChanges_iff.1 hchanges)
      have hnow : (m.mailbox.changesSince s.snapshot).validity ≠ s.snapshot.validity := hvoid.symm
      have hpoll : s.poll m = leave (.ok { invalidated := true }) m := by
        unfold poll tell
        rw [hquiet]
        simp only [Bool.false_eq_true, if_false, if_neg hnow]
      exact congrArg (Outcome.map Response.missed) hpoll
  | close =>
      have hclose : s.close m = leave (.ok ()) m := by
        unfold close
        split
        · rfl
        · next hwrites =>
          have hnone : ∀ r ∈ m.mailbox.startJournal.store.messages, Flag.deleted ∉ r.flags :=
            fun r hr hdeleted => h ⟨Bool.eq_false_iff.2 hwrites, r, hr, hdeleted⟩
          have hstill := modify_still hrest (Mailbox.expunge_of_none hnone)
          rw [SharedMailbox.expunge, hstill]
      exact congrArg (Outcome.map fun _ => Response.done) hclose
  | unselect => rfl

theorem close_oversteps (h : Request.Oversteps m.mailbox s .close) :
    (s.close m).selection? ≠ none ∨
      (s.close m).mailbox.mailbox.store.messages ≠ m.mailbox.store.messages := by
  obtain ⟨hwrites, r, hr, hdeleted⟩ := h
  have hremoves (a) := modify_ok (s := m) (f := Mailbox.expunge) (a := a)
  unfold close
  rw [if_neg (by simp [hwrites]), SharedMailbox.expunge]
  generalize m.modify Mailbox.expunge = modified at hremoves ⊢
  obtain ⟨result, m'⟩ := modified
  cases result with
  | error e => exact .inl (Option.some_ne_none s)
  | ok removed =>
      refine .inr fun hsame => ?_
      obtain ⟨_, cache?, hm'⟩ := hremoves removed rfl
      change m'.mailbox.store.messages = _ at hsame
      dsimp only at hm'
      rw [hm', Mailbox.kept_eq] at hsame
      dsimp only [Mailbox.expunge] at hsame
      rw [(Mailbox.settleRemoval_spec ..).2.1] at hsame
      rw [← hsame] at hr
      have hkept := (MessageStore.mem_removeWhere.1 hr).2
      simp [Flags.isDeleted, hdeleted] at hkept

theorem poll_oversteps (hm : m.mailbox.Sound False False)
    (h : Request.Oversteps m.mailbox s .poll) :
    (s.poll m).selection? ≠ none ∨ (s.poll m).mailbox.mailbox ≠ m.mailbox := by
  rcases poll_cases m s with ⟨e, m', _, _, heq⟩ | ⟨b, m', hlooks, heq⟩
  · rw [heq]
    exact .inl (Option.some_ne_none s)
  · have hleft : (s.report b m').mailbox.mailbox = m'.mailbox := by
      unfold report
      split <;> rfl
    obtain ⟨_, _, _, hflushed⟩ := hlooks.spec (hlooks.sound hm).1.distinct
    have htakes := hlooks.takes hm.distinct
    refine .inr fun hsame => ?_
    rw [heq, hleft] at hsame
    rcases h with hwaiting | ⟨hwrites, r, hr, hnew, hrecent⟩
    · rw [Selection.pollChanges_or_pending, hsame, hwaiting] at hflushed
      cases hflushed
    · -- no message above the view is recent any more
      rw [← hsame, htakes.left] at hr
      obtain ⟨x, _, rfl⟩ := List.mem_map.1 hr
      have hcarried : x.Carried False (x.unmarkedIf
          fun uid => !s.isReadOnly && s.snapshot.isNew uid) := x.carried_unmarkedIf _ id
      have hmarked : Flags.isRecent (x.unmarkedIf
          fun uid => !s.isReadOnly && s.snapshot.isNew uid).flags = true := by
        simpa [Flags.isRecent] using hrecent
      rw [hcarried.uid] at hnew
      rw [Message.isRecent_unmarkedIf, hwrites, hnew] at hmarked
      cases hmarked

end Selection

namespace Attended

/-- A request of a client is turned away: the mailbox is left exactly as it is, with a session less
that has it selected; the client has nothing selected any more and is told so. -/
structure TurnsAway (w : Attended) (client : String) (s : Selection) (r : Request) : Prop where
  mailbox : (w.act (.request client r)).2.mailbox = w.mailbox.release
  ended : (w.act (.request client r)).2.selections.get? client = none
  told : (w.act (.request client r)).1 = r.voidAnswer s

/-- Whatever was done before, a session whose UIDs are void is turned away, unless its request acts
without regard to the epoch; and then, if no two messages have one UID, it is not turned away. -/
theorem void_session_turned_away {m : SharedMailbox} (hinitial : m.mailbox.Initial)
    (actions : List Action) {client : String} {s : Selection}
    (hs : ((alone m).actAll actions).selections.get? client = some s)
    (hvoid : s.snapshot.validity ≠ ((alone m).actAll actions).mailbox.mailbox.uids.validity)
    (r : Request) :
    (¬ r.Oversteps ((alone m).actAll actions).mailbox.mailbox s →
      ((alone m).actAll actions).TurnsAway client s r) ∧
    (m.mailbox.store.Distinct → r.Oversteps ((alone m).actAll actions).mailbox.mailbox s →
      ¬ ((alone m).actAll actions).TurnsAway client s r) := by
  obtain ⟨htimely, hrest⟩ := atRest_actAll (w := alone m) hinitial.timely
    (fun client s hs => by cases hs) actions
  have hact : ((alone m).actAll actions).act (.request client r) =
      ((r.serve ((alone m).actAll actions).mailbox s).answer,
        ⟨(r.serve ((alone m).actAll actions).mailbox s).mailbox,
          keep client ((alone m).actAll actions).selections
            (r.serve ((alone m).actAll actions).mailbox s).selection?⟩) := by
    simp only [act, hs]
  refine ⟨fun hregards => ?_, fun hdistinct hoversteps haway => ?_⟩
  · have hserve := Selection.serve_of_void htimely (hrest client s hs) hvoid hregards
    rw [hserve] at hact
    refine ⟨by rw [hact]; rfl, ?_, by rw [hact]; rfl⟩
    rw [hact, get?_keep, if_pos rfl]
    rfl
  · have hw : ((alone m).actAll actions).InStep False False :=
      inStep_actAll (inStep_alone ⟨hdistinct, hinitial.figured, False.elim, False.elim⟩) actions
    obtain ⟨hreleased, hended, _⟩ := haway
    have hsame := congrArg SharedMailbox.mailbox hreleased
    rw [hact] at hsame hended
    rw [get?_keep, if_pos rfl] at hended
    cases r with
    | close =>
        rcases Selection.close_oversteps hoversteps with hstays | hchanged
        · exact hstays hended
        · exact hchanged (congrArg (fun b : Mailbox => b.store.messages) hsame)
    | poll =>
        rcases Selection.poll_oversteps hw.sound hoversteps with hstays | hchanged
        · exact hstays hended
        · exact hchanged hsame
    | _ => exact hoversteps.elim

/-- After a new epoch has begun and a message has come, a session that may write cannot expunge; its
poll is not turned away, as the message is recent. -/
theorem void_session_turned_away_at_renewal : ∃ s,
    ((alone unused).actAll renewal).selections.get? "c" = some s ∧
      s.snapshot.validity ≠ ((alone unused).actAll renewal).mailbox.mailbox.uids.validity ∧
      ((alone unused).actAll renewal).TurnsAway "c" s .expunge ∧
      ¬ ((alone unused).actAll renewal).TurnsAway "c" s .poll := by
  have hview : (((alone unused).actAll renewal).selections.get? "c").map (fun s =>
      (decide (s.snapshot.validity = ((alone unused).actAll renewal).mailbox.mailbox.uids.validity),
        s.isReadOnly, s.snapshot.isNew ⟨.clamp 2⟩)) = some (false, false, true) := by decide
  have hrecent : ∃ r ∈ ((alone unused).actAll renewal).mailbox.mailbox.store.messages,
      r.uid = ⟨.clamp 2⟩ ∧ Flag.recent ∈ r.flags := by decide
  obtain ⟨s, hs, heq⟩ := Option.map_eq_some_iff.1 hview
  obtain ⟨hvoid, hwrites, hnew⟩ : _ ∧ _ ∧ _ := by simpa using heq
  obtain ⟨r, hr, huid, hrecent⟩ := hrecent
  have haway := void_session_turned_away (m := unused) (.create "INBOX" 0) renewal hs hvoid
  exact ⟨s, hs, hvoid, (haway .expunge).1 id,
    (haway .poll).2 .nil (.inr ⟨hwrites, r, hr, huid ▸ hnew, hrecent⟩)⟩

/-- The message of the new epoch is marked for removal. -/
def condemning : Action :=
  .change ⟨[.setFlags 0 ⟨.clamp 2⟩ (OrderedSet.insert .deleted ∅) .add], .ok ()⟩

/-- A client whose UIDs are void removes a message by closing the mailbox that it never saw and
that expunging leaves. -/
theorem void_close_expunges :
    let w := (alone unused).actAll (renewal ++ [condemning])
    (w.selections.get? "c").isSome = true ∧
      (w.selections.get? "c").map (·.snapshot.validity) ≠ some w.mailbox.mailbox.uids.validity ∧
      w.messages.map (·.remoteId) = ["b"] ∧
      (w.act (.request "c" .expunge)).2.messages.map (·.remoteId) = ["b"] ∧
      (w.act (.request "c" .close)).2.messages = [] := by
  decide

end Attended

end MailBridge

import MailBridge.Proofs.Attendance
import MailBridge.Proofs.Marks

/-! # What sessions do to a mailbox and to their views

Every request of a session changes the mailbox by changes and leaves the session with a view that
follows the mailbox, if it leaves it with a view. So the views of all sessions follow the mailbox
whatever happens.
-/

namespace MailBridge

open SharedMailbox Relation Snapshot

namespace Mailbox

theorem not_mem_expunge {m : Mailbox} (hd : m.store.Distinct) :
    ∀ r ∈ m.expunge.2.store.messages, r.uid ∉ m.expunge.1 := by
  intro r hr hmem
  unfold expunge at hr hmem
  dsimp only at hr hmem
  rw [(settleRemoval_spec ..).2.1] at hr
  rw [(settleRemoval_spec ..).1] at hmem
  obtain ⟨x, hx, hu⟩ := List.mem_map.1 hmem
  obtain ⟨hx, hdeleted⟩ := MessageStore.mem_removed.1 hx
  obtain ⟨hr, hkept⟩ := MessageStore.mem_removeWhere.1 hr
  rw [hd.eq_of_uid_eq hx hr hu, hkept] at hdeleted
  cases hdeleted

theorem tended_storeEach (now : Instant) (delta : Flags) (mode : StoreMode)
    (targets : List (Seqnum × SnapshotEntry)) (m : Mailbox) :
    EditedBy Edit.tends m (Selection.storeEach now delta mode targets m).2 := by
  induction targets generalizing m with
  | nil => exact .refl m
  | cons target rest ih =>
      have hset : EditedBy Edit.tends m (m.setFlags now target.2.uid delta mode).2 :=
        .single (.setFlags now target.2.uid delta mode) rfl rfl
      unfold Selection.storeEach
      split
      · next h =>
        rw [h] at hset
        exact hset.trans (ih _)
      · next h =>
        rw [h] at hset
        split
        · exact hset.trans (ih _)
        · exact hset

theorem sparing_storeEach (now : Instant) (delta : Flags) (mode : StoreMode)
    (targets : List (Seqnum × SnapshotEntry)) (m : Mailbox) :
    EditedBy Edit.sparesMarks m (Selection.storeEach now delta mode targets m).2 :=
  (tended_storeEach now delta mode targets m).mono fun _ => Edit.sparesMarks_of_tends

end Mailbox

theorem SharedMailbox.modify_edited {α : Type} {f : Mailbox → α × Mailbox}
    (hf : ∀ b, Mailbox.Edited b (f b).2) (m : SharedMailbox) :
    Leads m (m.modify f).2 ∧ ∀ e, (m.modify f).1 = .error e → m.mailbox.store.Distinct →
      m.mailbox.Carries True (m.modify f).2.mailbox := by
  refine ⟨leads_mutate (fun b => ?_) m,
    fun e herror hd => carries_mutate_error hd (fun b => ?_) herror⟩
  · exact hf b
  · exact hf b

/-! ## Requests -/

/-- The outcome of a request changes the mailbox by edits of one kind, and keeps a view that follows
it. -/
structure Outcome.Attends (kind : Edit → Bool) (issued counted : Prop) {α : Type}
    (m : SharedMailbox) (s : Selection) (o : Outcome α) : Prop where
  leads : LeadsBy kind m o.mailbox
  follows : m.mailbox.Sound issued counted → s.snapshot.Follows issued counted m.mailbox →
    ∀ s', o.selection? = some s' → s'.snapshot.Follows issued counted o.mailbox.mailbox

namespace Selection

variable {kind : Edit → Bool} {issued counted : Prop} {α : Type} {m m' : SharedMailbox}
  {s : Selection} {changes : Bool}

theorem attends_stay (h : LeadsBy kind m m') (answer : Except SessionError α) :
    (s.stay answer m').Attends kind issued counted m s where
  leads := h
  follows hm hs s' hs' := by
    cases hs'
    exact hs.later (sound_leads hm h.leads).2

theorem attends_leave (h : LeadsBy kind m m') (answer : Except SessionError α) :
    (leave answer m').Attends kind issued counted m s where
  leads := h.tail (.aside _ _)
  follows _ _ s' hs' := by cases hs'

theorem attends_whileValid {command : SharedMailbox → Selection → Outcome α}
    (h : (command m s).Attends kind issued counted m s) :
    (whileValid command m s).Attends kind issued counted m s := by
  unfold whileValid
  split
  · exact h
  · exact attends_leave .refl _

theorem attends_fetch (set : MessageSet) : (fetch set m s).Attends kind issued counted m s := by
  refine attends_whileValid ?_
  split <;> exact attends_stay .refl _

theorem attends_search (key : SearchKey) : (search key m s).Attends kind issued counted m s :=
  attends_whileValid (attends_stay .refl _)

theorem attends_store (now : Instant) (set : MessageSet) (delta : Flags) (mode : StoreMode) :
    (store now set delta mode m s).Attends Edit.sparesMarks issued counted m s := by
  refine attends_whileValid ?_
  dsimp only
  split
  · exact attends_stay .refl _
  · split
    · exact attends_stay .refl _
    · exact attends_stay .refl _
    · next n e rest _ =>
      split
      all_goals
        refine attends_stay (leadsBy_mutate (fun b => ?_) m) _
        have hedited := Mailbox.sparing_storeEach now delta mode ((n, e) :: rest) b
        split
        · next h =>
          rw [h] at hedited
          exact hedited
        · exact hedited

theorem leadsBy_expunge (m : SharedMailbox) : LeadsBy Edit.sparesMarks m m.expunge.2 :=
  leadsBy_mutate (fun _ => .single .expunge rfl rfl) m

theorem expunge_cases (m : SharedMailbox) (s : Selection) :
    (∃ e m', LeadsBy Edit.sparesMarks m m' ∧ (expunge m s = s.stay (.error e) m' ∨
      expunge m s = leave (.error e) m')) ∨
    ∃ (removed : List Uid) (m' : SharedMailbox), LeadsBy Edit.sparesMarks m m' ∧
      m.mailbox.summary.validity = s.snapshot.validity ∧
      (m.mailbox.store.Distinct → ∀ r ∈ m'.mailbox.store.messages, r.uid ∉ removed) ∧
      expunge m s =
        { s with
          snapshot := (s.snapshot.removeWhere fun uid => decide (uid ∈ removed)).2 }.stay
          (.ok (s.snapshot.removeWhere fun uid => decide (uid ∈ removed)).1) m' := by
  have hleads := leadsBy_expunge m
  unfold expunge whileValid
  split
  · next hvalid =>
    dsimp only
    split
    · exact .inl ⟨_, m, .refl, .inl rfl⟩
    · split
      · next e m' h =>
        rw [h] at hleads
        exact .inl ⟨_, m', hleads, .inl rfl⟩
      · next removed m' h =>
        rw [h] at hleads
        refine .inr ⟨removed, m', hleads, hvalid, fun hd r hr => ?_, rfl⟩
        obtain ⟨hremoved, cache?, hmailbox⟩ := modify_ok (s := m) (f := Mailbox.expunge)
          (a := removed) (by rw [← SharedMailbox.expunge, h])
        rw [← SharedMailbox.expunge, h] at hmailbox
        dsimp only at hmailbox
        rw [hremoved]
        refine Mailbox.not_mem_expunge (m := m.mailbox.startJournal) hd r ?_
        rwa [hmailbox, Mailbox.kept_eq] at hr
  · exact .inl ⟨_, m, .refl, .inr rfl⟩

theorem attends_expunge : (expunge m s).Attends Edit.sparesMarks issued counted m s := by
  rcases expunge_cases m s with
    ⟨e, m', hleads, heq | heq⟩ | ⟨removed, m', hleads, _, hgone, heq⟩
  · rw [heq]
    exact attends_stay hleads _
  · rw [heq]
    exact attends_leave hleads _
  · rw [heq]
    refine ⟨hleads, fun hm hs s' hs' => ?_⟩
    cases hs'
    show (s.snapshot.removeWhere fun uid => decide (uid ∈ removed)).2.Follows issued counted
      m'.mailbox
    refine (hs.later (sound_leads hm hleads.leads).2).filter fun r hr => ?_
    exact decide_eq_false_iff_not.2 (hgone hm.distinct r hr)

theorem attends_close : (close m s).Attends Edit.sparesMarks issued counted m s := by
  have hleads := leadsBy_expunge m
  unfold close
  split
  · exact attends_leave .refl _
  · split
    · next h =>
      rw [h] at hleads
      exact attends_stay hleads _
    · next h =>
      rw [h] at hleads
      exact attends_leave hleads _

/-- The edits by which a poll changes the mailbox once it has looked. -/
def clearing (s : Selection) : List Edit :=
  if s.isReadOnly then [] else [.clearRecent s.snapshot.isNew]

/-- What the second look of a poll sees, and what it leaves: the mailbox as it is, or the mailbox
without the messages that wait to be expunged, whose new messages then lose the mark of a recent
message. -/
inductive LooksAt (s : Selection) (m : SharedMailbox) : Bool → Mailbox → SharedMailbox → Prop
  | still : LooksAt s m false m.mailbox m
  | changed {m' : SharedMailbox} (leads : Leads m m')
      (left : m'.mailbox = ((m.mailbox.startJournal.flushPending.2.editAll s.clearing).editAll
        [.commit, .takeUnsaved]).keepChanges) :
      LooksAt s m true m.mailbox.startJournal.flushPending.2 m'

/-- What a poll answers, once it has looked. -/
def report (s : Selection) (b : Mailbox) (m' : SharedMailbox) : Outcome PollReport :=
  if b.uids.validity = s.snapshot.validity then
    { s with snapshot := (s.snapshot.catchUp (b.changesSince s.snapshot)).2 }.stay
      (.ok (s.snapshot.catchUp (b.changesSince s.snapshot)).1) m'
  else leave (.ok { invalidated := true }) m'

/-- How a poll looks at a mailbox that it changes. -/
def look (s : Selection) (b : Mailbox) : MissedChanges × Mailbox :=
  (b.flushPending.2.changesSince s.snapshot, b.flushPending.2.editAll s.clearing)

theorem look_eq (s : Selection) (b : Mailbox) : s.look b =
    (b.flushPending.2.changesSince s.snapshot,
      if s.isReadOnly then b.flushPending.2
      else (b.flushPending.2.clearRecent s.snapshot.isNew).2) := by
  unfold look clearing
  split <;> rfl

/-- The second look of a poll fails, and has taken no marks off then, or it looks and answers. -/
theorem tell_cases (changes : Bool) (m : SharedMailbox) (s : Selection) :
    (∃ e m', Leads m m' ∧ (m.mailbox.store.Distinct → m.mailbox.Carries True m'.mailbox) ∧
        s.tell changes m = s.stay (.error (.mailbox e)) m') ∨
      ∃ b m', s.LooksAt m changes b m' ∧ s.tell changes m = s.report b m' := by
  unfold tell
  cases changes with
  | false => exact .inr ⟨m.mailbox, m, .still, rfl⟩
  | true =>
      obtain ⟨hleads, hfailed⟩ :=
        modify_edited (f := s.look) (fun b => ⟨.flushPending :: s.clearing, rfl⟩) m
      have hlook (a) := modify_ok (s := m) (f := s.look) (a := a)
      rw [show s.look = _ from funext s.look_eq] at hleads hlook hfailed
      rw [if_pos rfl]
      generalize m.modify _ = modified at hleads hlook hfailed ⊢
      obtain ⟨result, m'⟩ := modified
      cases result with
      | error e => exact .inl ⟨e, m', hleads, hfailed e rfl, rfl⟩
      | ok changes =>
          obtain ⟨hchanges, cache?, hm'⟩ := hlook _ rfl
          refine .inr ⟨m.mailbox.startJournal.flushPending.2, m', .changed hleads ?_, ?_⟩
          · dsimp only at hm'
            rw [hm', clearing]
            split <;> rfl
          · dsimp only at hchanges ⊢
            rw [hchanges]
            rfl

theorem poll_cases (m : SharedMailbox) (s : Selection) :
    (∃ e m', Leads m m' ∧ (m.mailbox.store.Distinct → m.mailbox.Carries True m'.mailbox) ∧
        s.poll m = s.stay (.error (.mailbox e)) m') ∨
      ∃ b m', s.LooksAt m (s.pollChanges m.mailbox) b m' ∧ s.poll m = s.report b m' :=
  tell_cases _ m s

theorem LooksAt.leads {b : Mailbox} (h : s.LooksAt m changes b m') : Leads m m' := by
  cases h with
  | still => exact .refl
  | changed leads => exact leads

theorem LooksAt.sound {b : Mailbox} (h : s.LooksAt m changes b m')
    (hm : m.mailbox.Sound issued counted) :
    b.Sound issued counted ∧ m.mailbox.Later b ∧ b.Later m'.mailbox := by
  cases h with
  | still => exact ⟨hm, .refl _, .refl _⟩
  | changed leads left =>
      have hstart := hm.startJournal
      have hb : (m.mailbox.startJournal.editAll [.flushPending]).Sound issued counted :=
        hstart.editAll _
      have hbegin : m.mailbox.Continues m.mailbox.startJournal := .of_eq rfl rfl rfl
      have hkeep (b : Mailbox) : b.Continues b.keepChanges := .of_eq rfl rfl rfl
      refine ⟨hb, ?_, ?_⟩
      · exact hbegin.later.trans (Mailbox.later_editAll hstart.distinct [.flushPending])
      · rw [left, ← Mailbox.editAll_append]
        exact (Mailbox.later_editAll hb.distinct _).trans (hkeep _).later

theorem attends_tell : (s.tell changes m).Attends (fun _ => true) issued counted m s := by
  rcases tell_cases changes m s with ⟨e, m', hleads, _, heq⟩ | ⟨b, m', hlooks, heq⟩
  · rw [heq]
    exact attends_stay hleads.leadsBy _
  · rw [heq]
    unfold report
    split
    · refine ⟨hlooks.leads.leadsBy, fun hm hs s' hs' => ?_⟩
      cases hs'
      obtain ⟨hb, hbefore, hafter⟩ := hlooks.sound hm
      exact (Mailbox.follows_caughtUp hb (hs.later hbefore)).later hafter
    · exact attends_leave hlooks.leads.leadsBy _

end Selection

namespace Outcome.Attends

variable {kind kind' : Edit → Bool} {issued counted : Prop} {α β : Type} {m : SharedMailbox}
  {s : Selection} {o : Outcome α}

theorem map (h : o.Attends kind issued counted m s) (f : α → β) :
    (o.map f).Attends kind issued counted m s :=
  ⟨h.leads, h.follows⟩

theorem mono (hle : ∀ e, kind e = true → kind' e = true) (h : o.Attends kind issued counted m s) :
    o.Attends kind' issued counted m s :=
  ⟨h.leads.mono hle, h.follows⟩

end Outcome.Attends

namespace Request

variable {issued counted : Prop}

theorem spares {r : Request} (h : r ≠ poll) (m : SharedMailbox) (s : Selection) :
    (r.serve m s).Attends Edit.sparesMarks issued counted m s := by
  cases r with
  | fetch set => exact (Selection.attends_fetch set).map _
  | search key => exact (Selection.attends_search key).map _
  | store now set delta mode => exact (Selection.attends_store now set delta mode).map _
  | expunge => exact Selection.attends_expunge.map _
  | poll => exact absurd rfl h
  | close => exact Selection.attends_close.map _
  | unselect => exact (Selection.attends_leave .refl _).map _

theorem attends (m : SharedMailbox) (s : Selection) (r : Request) :
    (r.serve m s).Attends (fun _ => true) issued counted m s := by
  by_cases h : r = poll
  · subst h
    exact Selection.attends_tell.map _
  · exact (spares h m s).mono fun _ _ => rfl

end Request

/-! ## Selecting a mailbox -/

namespace SharedMailbox

/-- The edits by which selecting changes the mailbox once it has looked. -/
def claiming (isReadOnly : Bool) : List Edit :=
  if isReadOnly then [] else [.clearRecent fun _ => true]

/-- How selecting looks at the mailbox. -/
def lookOver (isReadOnly : Bool) (b : Mailbox) : (Summary × Snapshot) × Mailbox :=
  ((b.flushPending.2.summary, b.flushPending.2.snapshot),
    b.flushPending.2.editAll (claiming isReadOnly))

theorem lookOver_eq (isReadOnly : Bool) (b : Mailbox) : lookOver isReadOnly b =
    ((b.flushPending.2.summary, b.flushPending.2.snapshot),
      if isReadOnly then b.flushPending.2
      else (b.flushPending.2.clearRecent fun _ => true).2) := by
  unfold lookOver claiming
  split <;> rfl

/-- Selecting fails, and has taken no marks off then, or it shows the mailbox without the messages
that wait to be expunged. -/
theorem select_cases (isReadOnly : Bool) (m : SharedMailbox) :
    (∃ e m', Leads m m' ∧ (m.mailbox.store.Distinct → m.mailbox.Carries True m'.mailbox) ∧
        m.select isReadOnly = (.error e, m')) ∨
      ∃ report selection m', Leads m m' ∧
        m.select isReadOnly = (.ok (report, selection), m') ∧
        report.summary = m.mailbox.startJournal.flushPending.2.summary ∧
        selection.snapshot = m.mailbox.startJournal.flushPending.2.snapshot ∧
        selection.isReadOnly = isReadOnly ∧
        m'.mailbox = ((m.mailbox.startJournal.flushPending.2.editAll (claiming isReadOnly)).editAll
          [.commit, .takeUnsaved]).keepChanges := by
  obtain ⟨hleads, hfailed⟩ := modify_edited (f := lookOver isReadOnly)
    (fun b => ⟨.flushPending :: claiming isReadOnly, rfl⟩) m
  have hlook (a) := modify_ok (s := m) (f := lookOver isReadOnly) (a := a)
  rw [show lookOver isReadOnly = _ from funext (lookOver_eq isReadOnly)] at hleads hlook hfailed
  unfold select
  dsimp only
  generalize m.modify _ = modified at hleads hlook hfailed ⊢
  obtain ⟨result, m'⟩ := modified
  cases result with
  | error e => exact .inl ⟨e, m', hleads, hfailed e rfl, rfl⟩
  | ok seen =>
      obtain ⟨hseen, cache?, hm'⟩ := hlook _ rfl
      dsimp only at hm'
      refine .inr ⟨_, _, m'.enter, hleads.tail (.aside _ _), rfl, ?_, ?_, rfl, ?_⟩
      · rw [hseen]
      · rw [hseen]
      · rw [hm', claiming]
        split <;> rfl

end SharedMailbox

/-! ## Whatever happens -/

theorem Round.leadsBy {kind : Edit → Bool}
    (hkind : ∀ e : Edit, e.sparesMarks = true → kind e = true) (round : Round) (s : Site) :
    s.LeadsBy kind (round.run s) := by
  cases round with
  | sync => exact Site.leadsBy_sync hkind s
  | apply since? batch => exact Site.leadsBy_apply hkind since? batch s
  | resync => exact Site.leadsBy_resyncFrom hkind none s
  | invalidate => exact Site.leadsBy_invalidate hkind s
  | work milliseconds => exact Site.leadsBy_work hkind milliseconds s

theorem Round.leads (round : Round) (s : Site) : s.Leads (round.run s) :=
  (round.leadsBy (fun _ _ => rfl) s).leads

namespace Attended

variable {issued counted : Prop} {w : Attended}

theorem get?_leave (client c : String) (w : Attended) : (w.leave client).selections.get? c =
    if c = client then none else w.selections.get? c := by
  unfold leave
  split
  · exact OrderedMap.get?_erase ..
  · next hnone =>
    split
    · next heq =>
      rw [heq]
      exact OrderedMap.contains_eq_false.1 (Bool.eq_false_iff.2 hnone)
    · rfl

theorem get?_keep (client c : String) (selections : OrderedMap String Selection)
    (selection? : Option Selection) : (keep client selections selection?).get? c =
      if c = client then selection? else selections.get? c := by
  cases selection? with
  | none => exact OrderedMap.get?_erase ..
  | some selection => exact OrderedMap.get?_insert ..

theorem leads_leave (client : String) (w : Attended) :
    Leads w.mailbox (w.leave client).mailbox := by
  unfold leave
  split
  · exact .single (.aside _ _)
  · exact .refl

/-- The mailbox is sound, and the views of all sessions follow it. -/
structure InStep (issued counted : Prop) (w : Attended) : Prop where
  sound : w.mailbox.mailbox.Sound issued counted
  follows : ∀ client selection, w.selections.get? client = some selection →
    selection.snapshot.Follows issued counted w.mailbox.mailbox

theorem inStep_alone {m : SharedMailbox} (h : m.mailbox.Sound issued counted) :
    (alone m).InStep issued counted := by
  refine ⟨h, fun client selection hselection => ?_⟩
  cases hselection

theorem InStep.leads (h : w.InStep issued counted) {m : SharedMailbox}
    (hleads : Leads w.mailbox m) :
    ({ w with mailbox := m } : Attended).InStep issued counted := by
  obtain ⟨hsound, hlater⟩ := sound_leads h.sound hleads
  exact ⟨hsound, fun client selection hs => (h.follows client selection hs).later hlater⟩

theorem InStep.reselect (h : w.InStep issued counted) {client : String}
    {selection? : Option Selection}
    (hfollows : ∀ s, selection? = some s → s.snapshot.Follows issued counted w.mailbox.mailbox) :
    ({ w with selections := keep client w.selections selection? } : Attended).InStep issued
      counted := by
  refine ⟨h.sound, fun c selection hs => ?_⟩
  dsimp only at hs
  rw [get?_keep] at hs
  split at hs
  · exact hfollows selection hs
  · exact h.follows c selection hs

theorem InStep.leave (h : w.InStep issued counted) (client : String) :
    (w.leave client).InStep issued counted := by
  obtain ⟨hsound, hfollows⟩ := h.leads (leads_leave client w)
  refine ⟨hsound, fun c selection hs => ?_⟩
  rw [get?_leave] at hs
  split at hs
  · cases hs
  · exact hfollows c selection hs

theorem follows_selected {isReadOnly : Bool} {m m' : SharedMailbox} {report : SelectReport}
    {selection : Selection} (hm : m.mailbox.Sound issued counted)
    (h : m.select isReadOnly = (.ok (report, selection), m')) :
    Leads m m' ∧ selection.snapshot.Follows issued counted m'.mailbox := by
  rcases select_cases isReadOnly m with
    ⟨e, m₁, _, _, heq⟩ | ⟨_, _, _, hleads, heq, _, hview, _, hleft⟩
  · rw [heq] at h
    cases h
  · rw [heq] at h
    cases h
    have hb : (m.mailbox.startJournal.editAll [.flushPending]).Sound issued counted :=
      hm.startJournal.editAll _
    have hkeep (b : Mailbox) : b.Continues b.keepChanges := .of_eq rfl rfl rfl
    refine ⟨hleads, ?_⟩
    rw [hview, hleft, ← Mailbox.editAll_append]
    exact (Mailbox.follows_snapshot hb).later
      ((Mailbox.later_editAll hb.distinct _).trans (hkeep _).later)

theorem leads_act (w : Attended) (a : Action) : Leads w.mailbox (w.act a).2.mailbox := by
  cases a with
  | select client isReadOnly =>
      have hleft := leads_leave client w
      rcases select_cases isReadOnly (w.leave client).mailbox with
        ⟨e, m, hleads, _, hselect⟩ | ⟨report, selection, m, hleads, hselect, _⟩
      · simp only [act, hselect]
        exact hleft.trans hleads
      · simp only [act, hselect]
        exact hleft.trans hleads
  | request client request =>
      cases hselection : w.selections.get? client with
      | none =>
          simp only [act, hselection]
          exact .refl
      | some selection =>
          simp only [act, hselection]
          have hattends : (request.serve w.mailbox selection).Attends (fun _ => true) False False
              w.mailbox selection := request.attends w.mailbox selection
          exact hattends.leads.leads
  | leave client => exact leads_leave client w
  | synchronize round site => exact round.leads { site with shared := w.mailbox }
  | change change => exact .single (.change change)
  | recache cache? => exact .single (.aside cache? _)

theorem leads_actAll (w : Attended) (actions : List Action) :
    Leads w.mailbox (w.actAll actions).mailbox := by
  induction actions generalizing w with
  | nil => exact .refl
  | cons a rest ih => exact (leads_act w a).trans (ih _)

/-- Whatever happens, the views follow the mailbox. -/
theorem inStep_act (h : w.InStep issued counted) (a : Action) :
    (w.act a).2.InStep issued counted := by
  have hleads := leads_act w a
  cases a with
  | select client isReadOnly =>
      have hleft := h.leave client
      rcases select_cases isReadOnly (w.leave client).mailbox with
        ⟨e, m, hselecting, _, hselect⟩ | ⟨report, selection, m, _, hselect, _⟩
      · simp only [act, hselect]
        exact hleft.leads hselecting
      · simp only [act, hselect]
        obtain ⟨hselecting, hfollows⟩ := follows_selected hleft.sound hselect
        -- the client has no other view, as it left before it selected
        have hsome : ∀ s, some selection = some s →
            s.snapshot.Follows issued counted m.mailbox := by
          rintro s ⟨⟩
          exact hfollows
        exact (hleft.leads hselecting).reselect hsome
  | request client request =>
      cases hselection : w.selections.get? client with
      | none =>
          simp only [act, hselection]
          exact h
      | some selection =>
          simp only [act, hselection] at hleads ⊢
          exact (h.leads hleads).reselect ((request.attends w.mailbox selection).follows h.sound
            (h.follows client selection hselection))
  | leave client => exact h.leave client
  | synchronize round site => exact h.leads hleads
  | change change => exact h.leads hleads
  | recache cache? => exact h.leads hleads

theorem inStep_actAll (h : w.InStep issued counted) (actions : List Action) :
    (w.actAll actions).InStep issued counted := by
  induction actions generalizing w with
  | nil => exact h
  | cons a rest ih => exact ih (inStep_act h a)

end Attended

end MailBridge

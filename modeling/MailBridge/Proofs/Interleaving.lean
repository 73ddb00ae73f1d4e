import MailBridge.Proofs.Mirror

/-! # Polls among whatever else happens

A poll looks at the mailbox twice: first for whether to change it, and then to tell its client what
it has missed, by a change of the mailbox or without one. Others may act between the two looks. So a
run is made of *moves* here, each of them without a break, and a poll takes two of them.
Synchronization that is itself interrupted takes as many moves as it changes the mailbox.

Whatever comes between the looks, the view shows the mailbox after the second one. A second poll may
find something still: messages that were marked for removal after the first look, when the second
one then only reads.
-/

namespace MailBridge

open SharedMailbox Snapshot

/-- What is done without a break. -/
inductive Move where
  | act (action : Action)
  /-- The client polls, and finds out whether that takes a change of the mailbox. -/
  | look (client : String)
  /-- The client that polls is told what it has missed. -/
  | tell (client : String)

def Move.client? : Move → Option String
  | act action => action.client?
  | look client | tell client => some client

/-- A mailbox with the sessions that attend it, and the polls between their two looks: whether each
of them is to change the mailbox. -/
structure Interleaved extends Attended where
  polls : OrderedMap String Bool := ∅

namespace Interleaved

def alone (m : SharedMailbox) : Interleaved := { toAttended := .alone m }

/-- The polls of all others. A client that does something else has given up the poll it was at. -/
def othersPolls (w : Interleaved) : Option String → OrderedMap String Bool
  | some client => w.polls.erase client
  | none => w.polls

/-- What comes of a move: the answer to the client, if it is one of a session, and how the mailbox
is attended then. -/
def move (w : Interleaved) : Move → Except SessionError Response × Interleaved
  | .act action => ((w.act action).1, ⟨(w.act action).2, w.othersPolls action.client?⟩)
  | .look client =>
    match w.selections.get? client with
    | none => (.error .noMailboxSelected, w)
    | some selection =>
      let changes := selection.pollChanges w.mailbox.mailbox
      (.ok .done, { w with polls := w.polls.insert client changes })
  | .tell client =>
    match w.selections.get? client, w.polls.get? client with
    | some selection, some changes =>
      let outcome := selection.tell changes w.mailbox
      let selections := Attended.keep client w.selections outcome.selection?
      (outcome.answer.map .missed, ⟨⟨outcome.mailbox, selections⟩, w.othersPolls (some client)⟩)
    | _, _ => (.error .noMailboxSelected, w)

def moveAll (moves : List Move) (w : Interleaved) : Interleaved :=
  moves.foldl (fun w t => (w.move t).2) w

variable {issued counted : Prop} {w w' : Interleaved} {client : String} {s : Selection}
  {changes : Bool}

/-! ## Moves -/

theorem move_look (h : w.selections.get? client = some s) : w.move (.look client) =
    (.ok .done, { w with polls := w.polls.insert client (s.pollChanges w.mailbox.mailbox) }) := by
  simp only [move, h]

theorem move_tell (h : w.selections.get? client = some s)
    (hpoll : w.polls.get? client = some changes) : w.move (.tell client) =
      ((s.tell changes w.mailbox).answer.map .missed,
        ⟨⟨(s.tell changes w.mailbox).mailbox,
          Attended.keep client w.selections (s.tell changes w.mailbox).selection?⟩,
          w.polls.erase client⟩) := by
  simp only [move, h, hpoll]
  rfl

theorem move_act_poll (h : w.selections.get? client = some s) :
    w.move (.act (.request client .poll)) =
      ((s.poll w.mailbox).answer.map .missed,
        ⟨⟨(s.poll w.mailbox).mailbox,
          Attended.keep client w.selections (s.poll w.mailbox).selection?⟩,
          w.polls.erase client⟩) := by
  simp only [move, Attended.act_poll h]
  rfl

/-- A poll between whose looks nobody acts is like one that looks once. -/
theorem move_poll (h : w.selections.get? client = some s) :
    (w.move (.look client)).2.move (.tell client) = w.move (.act (.request client .poll)) := by
  rw [move_look h, move_act_poll h]
  let found := w.polls.insert client (s.pollChanges w.mailbox.mailbox)
  refine (move_tell (w := { w with polls := found }) h (OrderedMap.get?_insert_self ..)).trans ?_
  exact congrArg (fun polls => (_, Interleaved.mk _ polls)) (OrderedMap.erase_insert ..)

theorem inStep_move (h : w.InStep issued counted) (t : Move) :
    (w.move t).2.InStep issued counted := by
  cases t with
  | act action => exact Attended.inStep_act h action
  | look client =>
      unfold move
      dsimp only
      split <;> exact h
  | tell client =>
      unfold move
      dsimp only
      split
      · next s changes hs _ =>
        have htells : (s.tell changes w.mailbox).Attends (fun _ => true) issued counted
            w.mailbox s := Selection.attends_tell
        exact (h.leads htells.leads.leads).reselect (htells.follows h.sound (h.follows client s hs))
      · exact h

theorem inStep_moveAll (h : w.InStep issued counted) (moves : List Move) :
    (w.moveAll moves).InStep issued counted := by
  induction moves generalizing w with
  | nil => exact h
  | cons t rest ih => exact ih (inStep_move h t)

/-- The moves of others leave a client with its view and at its poll. -/
theorem get?_move_of_other {t : Move} (h : t.client? ≠ some client) (w : Interleaved) :
    (w.move t).2.selections.get? client = w.selections.get? client ∧
      (w.move t).2.polls.get? client = w.polls.get? client := by
  have hothers {client? : Option String} (hne : client? ≠ some client) :
      (w.othersPolls client?).get? client = w.polls.get? client := by
    cases client? with
    | none => rfl
    | some c =>
        exact (OrderedMap.get?_erase ..).trans (if_neg fun heq => hne (congrArg some heq.symm))
  cases t with
  | act action => exact ⟨Attended.get?_act_of_other h w.toAttended, hothers h⟩
  | look c =>
      have hne : client ≠ c := fun heq => h (congrArg some heq.symm)
      unfold move
      dsimp only
      split
      · exact ⟨rfl, rfl⟩
      · exact ⟨rfl, (OrderedMap.get?_insert ..).trans (if_neg hne)⟩
  | tell c =>
      have hne : client ≠ c := fun heq => h (congrArg some heq.symm)
      unfold move
      dsimp only
      split
      · exact ⟨(Attended.get?_keep ..).trans (if_neg hne), hothers h⟩
      · exact ⟨rfl, rfl⟩

theorem get?_moveAll_of_others {moves : List Move} (h : ∀ t ∈ moves, t.client? ≠ some client)
    (w : Interleaved) :
    (w.moveAll moves).selections.get? client = w.selections.get? client ∧
      (w.moveAll moves).polls.get? client = w.polls.get? client := by
  induction moves generalizing w with
  | nil => exact ⟨rfl, rfl⟩
  | cons t rest ih =>
      obtain ⟨ht, hrest⟩ := List.forall_mem_cons.1 h
      obtain ⟨hselections, hpolls⟩ := get?_move_of_other ht w
      obtain ⟨hselections', hpolls'⟩ := ih hrest (w.move t).2
      exact ⟨hselections'.trans hselections, hpolls'.trans hpolls⟩

/-! ## Polls -/

theorem move_idle (hs : w.selections.get? client = some s) (hpolls : w.polls.get? client = none)
    (hidle : s.poll w.mailbox = s.stay (.ok {}) w.mailbox) :
    w.move (.act (.request client .poll)) = (.ok (.missed {}), w) := by
  have hselections : Attended.keep client w.selections (some s) = w.selections :=
    OrderedMap.insert_of_get? hs
  have hothers : w.polls.erase client = w.polls := OrderedMap.erase_of_get? hpolls
  rw [move_act_poll hs, hidle]
  exact congrArg₂ (fun selections polls => (_, Interleaved.mk ⟨_, selections⟩ polls)) hselections
    hothers

/-- A poll finds nothing only if no messages wait to be expunged: otherwise it expunges them. -/
theorem pending_of_idle (h : w.InStep True True) (hs : w.selections.get? client = some s)
    {report : PollReport}
    (hidle : w.move (.act (.request client .poll)) = (.ok (.missed report), w)) :
    w.mailbox.mailbox.pending.isEmpty = true := by
  rw [move_act_poll hs] at hidle
  obtain ⟨hanswer, hleft⟩ := Prod.mk.inj hidle
  have hmailbox : (s.poll w.mailbox).mailbox = w.mailbox :=
    congrArg (fun w : Interleaved => w.mailbox) hleft
  cases hok : (s.poll w.mailbox).answer with
  | error e =>
      rw [hok] at hanswer
      cases hanswer
  | ok report =>
      have hpending := Selection.pending_tell h.sound hok
      rw [Selection.pollChanges_or_pending] at hpending
      rw [← hmailbox]
      exact hpending

theorem shows_of_tell (h : w.InStep True True) (hs : w.selections.get? client = some s)
    (hchanges : w.polls.get? client = some changes)
    (hmodseq : w.mailbox.mailbox.modseq.val < maxLong)
    (hvalidity : w.mailbox.mailbox.uids.validity.val < maxWord) {report : PollReport}
    (hpoll : w.move (.tell client) = (.ok (.missed report), w'))
    (hvalid : report.invalidated = false) :
    ∃ s', w'.selections.get? client = some s' ∧
      s'.snapshot.Shows w'.mailbox.mailbox ∧
      report.flagged.map (·.uid) =
        (s.snapshot.entries.filter w'.mailbox.mailbox.contradicts).map (·.uid) ∧
      (w'.move (.act (.request client .poll)) = (.ok (.missed {}), w') ↔
        changes = true ∨ w.mailbox.mailbox.pending.isEmpty = true) := by
  have hw' := inStep_move h (.tell client)
  rw [hpoll] at hw'
  rw [move_tell hs hchanges] at hpoll
  obtain ⟨hanswer, rfl⟩ := Prod.mk.inj hpoll
  cases hok : (s.tell changes w.mailbox).answer with
  | error e =>
      rw [hok] at hanswer
      cases hanswer
  | ok answer =>
      rw [hok] at hanswer
      cases hanswer
      have hpending := Selection.pending_tell h.sound hok
      obtain ⟨s', hkept, hshows, hflagged, hagain⟩ := Selection.tell_spec h.sound
        (h.follows client s hs) hmodseq hvalidity hok hvalid
      rw [hkept] at hw' ⊢
      have hnow : (Attended.keep client w.selections (some s')).get? client = some s' := by
        rw [Attended.get?_keep, if_pos rfl]
      refine ⟨s', hnow, hshows, hflagged, ?_⟩
      rw [← Bool.or_eq_true]
      constructor
      · intro hidle
        rw [← hpending]
        exact pending_of_idle hw' hnow hidle
      · intro hsettled
        refine move_idle hnow ?_ (hagain hsettled)
        exact (OrderedMap.get?_erase ..).trans (if_pos rfl)

/-- After a poll that succeeds and does not find the UIDs void, the view of the session shows the
mailbox, and the messages reported to have changed are those whose flags in view were others than
their present ones. A second poll is told of nothing and changes nothing, except if messages wait to
be expunged since they were marked for removal between the two looks of the first poll, which found
nothing to change in the mailbox before. -/
theorem poll_shows_mailbox {m : SharedMailbox} (hinitial : m.mailbox.Initial)
    (hsound : m.mailbox.checkIntegrity = .ok ()) (hstamped : m.mailbox.Stamped)
    (before meanwhile : List Move) {first second : Interleaved}
    (hfirst : (alone m).moveAll before = first) (hs : first.selections.get? client = some s)
    (hsecond : first.moveAll (.look client :: meanwhile) = second)
    (hothers : ∀ t ∈ meanwhile, t.client? ≠ some client)
    (hmodseq : second.mailbox.mailbox.modseq.val < maxLong)
    (hvalidity : second.mailbox.mailbox.uids.validity.val < maxWord) {report : PollReport}
    (hpoll : second.move (.tell client) = (.ok (.missed report), w))
    (hvalid : report.invalidated = false) :
    ∃ s', w.selections.get? client = some s' ∧
      s'.snapshot.Shows w.mailbox.mailbox ∧
      report.flagged.map (·.uid) =
        (s.snapshot.entries.filter w.mailbox.mailbox.contradicts).map (·.uid) ∧
      (w.move (.act (.request client .poll)) = (.ok (.missed {}), w) ↔
        s.pollChanges first.mailbox.mailbox = true ∨
          second.mailbox.mailbox.pending.isEmpty = true) := by
  have ho := Mailbox.orderly_of_checkIntegrity hsound
  have hstart : m.mailbox.Sound True True :=
    ⟨ho.distinct, hinitial.figured, fun _ => ho.below, fun _ => hstamped⟩
  have hinstep : first.InStep True True :=
    hfirst ▸ inStep_moveAll (w := alone m) (Attended.inStep_alone hstart) before
  have hlook : (first.move (.look client)).2.selections.get? client = some s ∧
      (first.move (.look client)).2.polls.get? client =
        some (s.pollChanges first.mailbox.mailbox) := by
    rw [move_look hs]
    exact ⟨hs, OrderedMap.get?_insert_self ..⟩
  -- nobody else takes the view or the poll from the client
  obtain ⟨hview, hchanges⟩ := get?_moveAll_of_others hothers (first.move (.look client)).2
  subst hsecond
  exact shows_of_tell (inStep_moveAll hinstep _) (hview.trans hlook.1) (hchanges.trans hlook.2)
    hmodseq hvalidity hpoll hvalid

/-- A client selects a mailbox of two messages, of which one is then read and the other marked for
removal while a third arrives. -/
def visit : List Move :=
  [.act (.change (arrival "a")), .act (.change (arrival "b")), .act (.select "c" false),
    .act (.change ⟨[.setFlags 0 .least (OrderedSet.insert .seen ∅) .add, .markRemoved "b",
      .receive { remoteId := "d" }], .ok ()⟩)]

/-- Another client reads the mailbox and polls, and one more message arrives. -/
def company : List Move :=
  [.act (.select "o" true), .look "o", .act (.change (arrival "e")), .tell "o"]

theorem poll_shows_mailbox_of_visit : ∃ first second report w s s',
    unused.mailbox.Initial ∧ unused.mailbox.checkIntegrity = .ok () ∧ unused.mailbox.Stamped ∧
      (alone unused).moveAll visit = first ∧ first.selections.get? "c" = some s ∧
      first.moveAll (.look "c" :: company) = second ∧
      (∀ t ∈ company, t.client? ≠ some "c") ∧
      second.mailbox.mailbox.modseq.val < maxLong ∧
      second.mailbox.mailbox.uids.validity.val < maxWord ∧
      second.move (.tell "c") = (.ok (.missed report), w) ∧ report.invalidated = false ∧
      report.flagged.map (·.uid) = [.least] ∧ w.selections.get? "c" = some s' ∧
      s'.snapshot.Shows w.mailbox.mailbox ∧
      w.move (.act (.request "c" .poll)) = (.ok (.missed {}), w) := by
  have hstamped : unused.mailbox.Stamped := fun r hr => by cases hr
  have hpoll : ∃ first second report w s, (alone unused).moveAll visit = first ∧
      first.selections.get? "c" = some s ∧ first.moveAll (.look "c" :: company) = second ∧
      second.mailbox.mailbox.modseq.val < maxLong ∧
      second.mailbox.mailbox.uids.validity.val < maxWord ∧
      second.move (.tell "c") = (.ok (.missed report), w) ∧ report.invalidated = false ∧
      report.flagged.map (·.uid) = [.least] ∧ s.pollChanges first.mailbox.mailbox = true :=
    ⟨_, _, _, _, _, rfl, rfl, rfl, by decide, by decide, rfl, rfl, rfl, rfl⟩
  obtain ⟨first, second, report, w, s, hfirst, hs, hsecond, hmodseq, hvalidity, htell, hvalid,
    hflagged, hchanges⟩ := hpoll
  have hothers : ∀ t ∈ company, t.client? ≠ some "c" := by decide
  obtain ⟨s', hs', hshows, _, hagain⟩ := poll_shows_mailbox (.create "INBOX" 0) rfl hstamped visit
    company hfirst hs hsecond hothers hmodseq hvalidity htell hvalid
  exact ⟨first, second, report, w, s, s', .create "INBOX" 0, rfl, hstamped, hfirst, hs, hsecond,
    hothers, hmodseq, hvalidity, htell, hvalid, hflagged, hs', hshows, hagain.2 (.inl hchanges)⟩

/-- A client selects a mailbox of one message, which is marked for removal between the two looks of
its poll. -/
def overtaken : List Move :=
  [.act (.change (arrival "a")), .act (.select "c" false), .look "c",
    .act (.change ⟨[.markRemoved "a"], .ok ()⟩)]

/-- The post of an account: a mailbox with a message, that no session has selected. -/
def delivered : Account :=
  ({ settings := { name := "post" } } : Account).put "INBOX" (unused.perform (arrival "a"))

/-- A poll may be followed by another one that reports a message to be gone, and a poll of a session
that has nothing selected succeeds and leaves it without a view of any mailbox. -/
theorem poll_leaves_removal :
    (∃ report report' w w', ((alone unused).moveAll overtaken).move (.tell "c") =
        (.ok (.missed report), w) ∧ report.invalidated = false ∧
      w.move (.act (.request "c" .poll)) = (.ok (.missed report'), w') ∧
      report'.expunged = [(.ofIndex 0, .least)] ∧ w.mailbox.mailbox.store.messages.length = 1 ∧
      w'.mailbox.mailbox.store.messages = []) ∧
    delivered.poll .authenticated = (.ok {}, .authenticated, delivered) ∧
    Session.authenticated.selection? = none ∧
    (delivered.shared? "INBOX").map (·.mailbox.store.messages.length) = some 1 :=
  ⟨⟨_, _, _, _, rfl, rfl, rfl, rfl, rfl, rfl⟩, rfl, rfl, rfl⟩

end Interleaved

end MailBridge

import MailBridge.Session.Changes
import MailBridge.SharedMailbox

/-! # Commands on a selected mailbox

Each command of a session has an outcome: its answer, the selection it leaves, if any, and the
mailbox it leaves. A command of a session whose UIDs are void ends the selection. The mailbox
counts the sessions that have it selected.
-/

namespace MailBridge

/-- What becomes of a command on a selected mailbox. -/
structure Outcome (α : Type) where
  answer : Except SessionError α
  /-- The selection, unless it has ended. -/
  selection? : Option Selection
  mailbox : SharedMailbox

/-- What a session is told of a mailbox that it has selected. -/
structure SelectReport where
  summary : Summary
  isReadOnly : Bool
deriving DecidableEq

namespace SharedMailbox

def enter (m : SharedMailbox) : SharedMailbox := { m with sessions := m.sessions + 1 }

def release (m : SharedMailbox) : SharedMailbox := { m with sessions := m.sessions - 1 }

/-- Selects the mailbox for a session. The messages that wait to be expunged are removed first. A
session that may write takes the marks of recent messages, so that no other session sees them. -/
def select (isReadOnly : Bool) (m : SharedMailbox) :
    Except MailboxError (SelectReport × Selection) × SharedMailbox :=
  let (result, m) := m.modify fun b =>
    let (_, b) := b.flushPending
    let seen := (b.summary, b.snapshot)
    (seen, if isReadOnly then b else (b.clearRecent fun _ => true).2)
  match result with
  | .error e => (.error e, m)
  | .ok (summary, snapshot) =>
    (.ok (⟨summary, isReadOnly⟩, ⟨m.mailbox.name, snapshot, isReadOnly⟩), m.enter)

end SharedMailbox

namespace Selection

def stay {α : Type} (answer : Except SessionError α) (m : SharedMailbox) (s : Selection) :
    Outcome α :=
  ⟨answer, some s, m⟩

def leave {α : Type} (answer : Except SessionError α) (m : SharedMailbox) : Outcome α :=
  ⟨answer, none, m.release⟩

/-- Carries a command out unless the UIDs in view are void. -/
def whileValid {α : Type} (command : SharedMailbox → Selection → Outcome α) (m : SharedMailbox)
    (s : Selection) : Outcome α :=
  if m.mailbox.summary.validity = s.snapshot.validity then command m s
  else leave (.error (.invalidated s.mailbox)) m

/-- What a session is shown of an entry of its view. -/
def view (m : SharedMailbox) (n : Seqnum) (e : SnapshotEntry) : MessageView :=
  .ofLive n e (m.mailbox.get? e.uid)

def fetch (set : MessageSet) : SharedMailbox → Selection → Outcome (List MessageView) :=
  whileValid fun m s =>
    match s.targets set with
    | .error e => s.stay (.error (.mailbox e)) m
    | .ok targets => s.stay (.ok (targets.map fun (n, e) => view m n e)) m

def search (key : SearchKey) : SharedMailbox → Selection → Outcome (List MessageView) :=
  whileValid fun m s =>
    let views := s.snapshot.numbered.map fun (n, e) => view m n e
    s.stay (.ok (views.filter fun v => key.finds s.largest v)) m

/-- Changes the flags of those messages that still exist, and gives them with their entries in
view. -/
def storeEach (now : Instant) (delta : Flags) (mode : StoreMode) :
    List (Seqnum × SnapshotEntry) → Mailbox →
      Except MailboxError (List (Seqnum × SnapshotEntry × Message)) × Mailbox
  | [], b => (.ok [], b)
  | (n, e) :: rest, b =>
    match b.setFlags now e.uid delta mode with
    | (.ok message, b) =>
      let (result, b) := storeEach now delta mode rest b
      (result.map fun stored => (n, e, message) :: stored, b)
    | (.error cause, b) =>
      if cause.isNotFound then storeEach now delta mode rest b else (.error cause, b)

/-- Changes the flags of messages, which fails if there are some in view but none of them exists
any more. -/
def store (now : Instant) (set : MessageSet) (delta : Flags) (mode : StoreMode) :
    SharedMailbox → Selection → Outcome (List MessageView) :=
  whileValid fun m s =>
    if s.isReadOnly then s.stay (.error (.readOnly s.mailbox)) m
    else
      match s.targets set with
      | .error e => s.stay (.error (.mailbox e)) m
      | .ok [] => s.stay (.ok []) m
      | .ok ((n, e) :: rest) =>
        let (result, m) := m.mutate fun b =>
          match storeEach now delta mode ((n, e) :: rest) b with
          | (.ok [], b) => (.error (.uidNotFound b.name e.uid), b)
          | result => result
        match result with
        | .error cause => s.stay (.error (.mailbox cause)) m
        | .ok stored =>
          s.stay (.ok (stored.map fun (n, e, message) => .ofLive n e (some message))) m

/-- Removes the messages that are marked for removal. They leave the view; what else is gone stays
in view for now. -/
def expunge : SharedMailbox → Selection → Outcome (List (Seqnum × Uid)) :=
  whileValid fun m s =>
    if s.isReadOnly then s.stay (.error (.readOnly s.mailbox)) m
    else
      match m.expunge with
      | (.error e, m) => s.stay (.error (.mailbox e)) m
      | (.ok removed, m) =>
        let (expunged, snapshot) := s.snapshot.removeWhere fun uid => decide (uid ∈ removed)
        { s with snapshot }.stay (.ok expunged) m

/-- Whether telling a session what it has missed takes a change of the mailbox: because messages
wait to be expunged, or because the session takes the marks of recent messages. A poll looks at the
mailbox for this first. -/
def pollChanges (b : Mailbox) (s : Selection) : Bool :=
  !b.pending.isEmpty ||
    (!s.isReadOnly &&
      b.store.messages.any fun message => s.snapshot.isNew message.uid && message.flags.isRecent)

/-- Tells a session what it has missed, by a change of the mailbox or without one. This is the
second look of a poll. Others may have changed the mailbox after the first one, which has found
whether to change it. -/
def tell (changes : Bool) (m : SharedMailbox) (s : Selection) : Outcome PollReport :=
  let (result, m) :=
    if changes then
      m.modify fun b =>
        let (_, b) := b.flushPending
        let missed := b.changesSince s.snapshot
        (missed, if s.isReadOnly then b else (b.clearRecent s.snapshot.isNew).2)
    else (.ok (m.mailbox.changesSince s.snapshot), m)
  match result with
  | .error e => s.stay (.error (.mailbox e)) m
  | .ok missed =>
    if missed.validity = s.snapshot.validity then
      let (report, snapshot) := s.snapshot.catchUp missed
      { s with snapshot }.stay (.ok report) m
    else leave (.ok { invalidated := true }) m

/-- Tells a session what it has missed, while nobody else acts between the two looks. -/
def poll (m : SharedMailbox) (s : Selection) : Outcome PollReport :=
  s.tell (s.pollChanges m.mailbox) m

/-- Ends the selection. If the session may write, the messages that are marked for removal are
removed first. -/
def close (m : SharedMailbox) (s : Selection) : Outcome Unit :=
  if s.isReadOnly then leave (.ok ()) m
  else
    match m.expunge with
    | (.error e, m) => s.stay (.error (.mailbox e)) m
    | (.ok _, m) => leave (.ok ()) m

/-- Ends the selection and nothing else. -/
def unselect (m : SharedMailbox) (_ : Selection) : Outcome Unit := leave (.ok ()) m

end Selection

end MailBridge

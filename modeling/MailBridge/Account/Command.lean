import MailBridge.Account
import MailBridge.Session
import MailBridge.Session.Command

/-! # Serving sessions

The commands that a client gives, and what it is answered. To select a mailbox ends the present
selection first, also when the new one fails.
-/

namespace MailBridge

/-- The messages that a command is about, as the client gives them. -/
inductive SetRequest where
  | read (set : MessageSet)
  /-- A text that is read once it is known that a mailbox is selected. -/
  | written (byUid : Bool) (text : String)
deriving DecidableEq

/-- A command of a client. -/
inductive Command where
  | authenticate
  | select (mailbox : String) (isReadOnly : Bool)
  | status (mailbox : String)
  | fetch (set : SetRequest)
  | store (set : SetRequest) (delta : Flags) (mode : StoreMode)
  | search (key : SearchKey)
  | expunge
  | poll
  | close
  | unselect
  | logout

/-- What a client is answered. -/
inductive Response where
  | done
  | selected (report : SelectReport)
  | status (summary : Summary)
  | views (views : List MessageView)
  | expunged (messages : List (Seqnum × Uid))
  | missed (report : PollReport)
deriving DecidableEq

namespace AccountError

/-- What a session is told when a mailbox cannot be opened. -/
def forSession : AccountError → SessionError
  | notExposed name => .notExposed name
  | cache cause => .cache cause

end AccountError

namespace SetRequest

/-- The messages that a command is about. -/
def resolve (s : Session) : SetRequest → Except SessionError MessageSet
  | read set => .ok set
  | written byUid text => s.readSet byUid text

end SetRequest

namespace Account

/-- Ends the selection of a session. -/
def release (s : Session) (a : Account) : Account :=
  match s.selection? with
  | none => a
  | some selection =>
    match a.shared? selection.mailbox with
    | none => a
    | some m => a.put selection.mailbox m.release

def select (now : Instant) (name : String) (isReadOnly : Bool) (s : Session) (a : Account) :
    Except SessionError SelectReport × Session × Account :=
  match s.checkAuthenticated with
  | .error e => (.error e, s, a)
  | .ok _ =>
    match (a.release s).openMailbox now name with
    | (.error e, a) => (.error e.forSession, .authenticated, a)
    | (.ok m, a) =>
      match m.select isReadOnly with
      | (.error e, m) => (.error (.mailbox e), .authenticated, a.put name m)
      | (.ok (report, selection), m) => (.ok report, .selected selection, a.put name m)

def status (now : Instant) (name : String) (s : Session) (a : Account) :
    Except SessionError Summary × Account :=
  match s.checkAuthenticated with
  | .error e => (.error e, a)
  | .ok _ =>
    match a.openMailbox now name with
    | (.error e, a) => (.error e.forSession, a)
    | (.ok m, a) => (.ok m.mailbox.summary, a)

/-- Carries a command out on the mailbox that a session has selected, which is open. -/
def onSelection {α : Type} (command : SharedMailbox → Selection → Outcome α) (s : Session)
    (a : Account) : Except SessionError α × Session × Account :=
  match s.selection with
  | .error e => (.error e, s, a)
  | .ok selection =>
    match a.shared? selection.mailbox with
    | none => (.error .noMailboxSelected, s, a)
    | some m =>
      let outcome := command m selection
      (outcome.answer, .ofSelection? outcome.selection?, a.put selection.mailbox outcome.mailbox)

/-- Carries out a command about some messages. -/
def onMessages {α : Type} (set : SetRequest)
    (command : MessageSet → SharedMailbox → Selection → Outcome α) (s : Session) (a : Account) :
    Except SessionError α × Session × Account :=
  match set.resolve s with
  | .error e => (.error e, s, a)
  | .ok set => a.onSelection (command set) s

/-- Tells a session what it has missed; one that has nothing selected has missed nothing. -/
def poll (s : Session) (a : Account) : Except SessionError PollReport × Session × Account :=
  match s with
  | .authenticated => (.ok {}, s, a)
  | s => a.onSelection Selection.poll s

/-- An answer of which the client is told in a given form. -/
def respond {α : Type} (f : α → Response) (result : Except SessionError α × Session × Account) :
    Except SessionError Response × Session × Account :=
  (result.1.map f, result.2)

/-- Carries a command of a session out. -/
def serve (now : Instant) (command : Command) (s : Session) (a : Account) :
    Except SessionError Response × Session × Account :=
  match command with
  | .authenticate =>
    match s.authenticate with
    | .error e => (.error e, s, a)
    | .ok s => (.ok .done, s, a)
  | .select name isReadOnly => respond .selected (a.select now name isReadOnly s)
  | .status name =>
    let (result, a) := a.status now name s
    (result.map .status, s, a)
  | .fetch set => respond .views (a.onMessages set Selection.fetch s)
  | .store set delta mode =>
    respond .views (a.onMessages set (fun set => Selection.store now set delta mode) s)
  | .search key => respond .views (a.onSelection (Selection.search key) s)
  | .expunge => respond .expunged (a.onSelection Selection.expunge s)
  | .poll => respond .missed (a.poll s)
  | .close => respond (fun _ => .done) (a.onSelection Selection.close s)
  | .unselect => respond (fun _ => .done) (a.onSelection Selection.unselect s)
  | .logout => (.ok .done, .loggedOut, a.release s)

end Account

end MailBridge

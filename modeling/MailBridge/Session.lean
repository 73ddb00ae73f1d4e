import MailBridge.Session.Selection

/-! # Sessions

A session begins unauthenticated. Once authenticated it may select a mailbox, one at a time, and
leave it again, until it logs out.
-/

namespace MailBridge

/-- The connection of a client. -/
inductive Session where
  | unauthenticated
  | authenticated
  | selected (selection : Selection)
  | loggedOut
deriving DecidableEq

namespace Session

/-- An authenticated session with or without a selected mailbox. -/
def ofSelection? : Option Selection → Session
  | some selection => selected selection
  | none => authenticated

def selection? : Session → Option Selection
  | selected selection => some selection
  | _ => none

/-- The selected mailbox, which a command is about. -/
def selection : Session → Except SessionError Selection
  | unauthenticated => .error .notAuthenticated
  | authenticated => .error .noMailboxSelected
  | selected selection => .ok selection
  | loggedOut => .error .loggedOut

def checkAuthenticated : Session → Except SessionError Unit
  | unauthenticated => .error .notAuthenticated
  | loggedOut => .error .loggedOut
  | _ => .ok ()

/-- Authenticates the session; its credentials have been checked elsewhere. -/
def authenticate : Session → Except SessionError Session
  | unauthenticated => .ok authenticated
  | loggedOut => .error .loggedOut
  | _ => .error .alreadyAuthenticated

/-- Reads the messages that a command is about, once it is known that a mailbox is selected. -/
def readSet (byUid : Bool) (text : String) (s : Session) : Except SessionError MessageSet :=
  match s.selection with
  | .error e => .error e
  | .ok _ =>
    match MessageSet.read byUid text with
    | .error e => .error (.malformedSet e)
    | .ok set => .ok set

end Session

end MailBridge

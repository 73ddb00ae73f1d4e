import MailBridge.Mailbox.Error
import MailBridge.SequenceSet.Reader

/-! # Failures of a session -/

namespace MailBridge

/-- Why a command of a session was not carried out. -/
inductive SessionError where
  | notAuthenticated
  | alreadyAuthenticated
  | loggedOut
  | noMailboxSelected
  /-- The UIDs that the session knows are void. -/
  | invalidated (mailbox : String)
  /-- The mailbox is not shown to clients. -/
  | notExposed (mailbox : String)
  | readOnly (mailbox : String)
  | malformedSet (cause : SequenceSet.Malformed)
  | mailbox (cause : MailboxError)
  | cache (cause : CacheError)
deriving DecidableEq

namespace SessionError

def message : SessionError → String
  | notAuthenticated => "cannot run command: session not authenticated"
  | alreadyAuthenticated => "cannot authenticate: session already authenticated"
  | loggedOut => "cannot run command: session logged out"
  | noMailboxSelected => "cannot run command: no mailbox selected"
  | invalidated name =>
    s!"cannot run command: mailbox {name} has been invalidated, select it again"
  | notExposed name => s!"cannot select mailbox {name}: mailbox not exposed"
  | readOnly name => s!"cannot modify mailbox {name}: mailbox opened in read-only mode"
  | malformedSet _ => "cannot parse message set"
  | mailbox cause => cause.message
  | cache cause => cause.message

end SessionError

end MailBridge

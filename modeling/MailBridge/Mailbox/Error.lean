import MailBridge.Cache.Error
import MailBridge.Identifier

/-! # Failures of a mailbox -/

namespace MailBridge

/-- What is wrong with the identities of a mailbox. -/
inductive Desync where
  /-- Two messages have the UID. -/
  | duplicateUid (uid : Uid)
  /-- The next UID to issue is not above this one, which a message has. -/
  | uidNextRegression (uid : Uid)
  /-- The index of remote names disagrees with the messages. -/
  | brokenIndex
deriving DecidableEq

namespace Desync

/-- Whether it can be mended without voiding UIDs. -/
def isMendable : Desync → Bool
  | uidNextRegression _ => true
  | _ => false

def message : Desync → String
  | duplicateUid uid => s!"uid {uid} is assigned twice"
  | uidNextRegression uid => s!"uid next is not greater than assigned uid {uid}"
  | brokenIndex => "remote id index is broken"

end Desync

/-- Why a change of a mailbox did not happen. -/
inductive MailboxError where
  | uidNotFound (mailbox : String) (uid : Uid)
  | seqnumNotFound (mailbox : String) (n : Seqnum)
  | conflict (mailbox what : String)
  | desync (mailbox : String) (what : Desync)
  /-- The last UID has been issued. -/
  | uidsExhausted
  /-- The change could not be saved. -/
  | notPersisted (cause : CacheError) (mailbox : String)
deriving DecidableEq

namespace MailboxError

/-- Whether the failure is that a message does not exist any more. -/
def isNotFound : MailboxError → Bool
  | uidNotFound .. | seqnumNotFound .. => true
  | _ => false

def message : MailboxError → String
  | uidNotFound mailbox uid => s!"cannot find message with uid {uid} in mailbox {mailbox}"
  | seqnumNotFound mailbox n =>
    s!"cannot find message at sequence number {n} in mailbox {mailbox}"
  | conflict mailbox what => s!"cannot apply changes to mailbox {mailbox}: {what}"
  | desync mailbox what => s!"mailbox {mailbox} is out of sync: {what.message}"
  | uidsExhausted => "cannot allocate uid: uid space exhausted"
  | notPersisted _ mailbox => s!"cannot persist mailbox {mailbox}"

end MailboxError

end MailBridge

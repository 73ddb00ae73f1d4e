import MailBridge.Sync.Correction
import MailBridge.Sync.Tally

/-! # Notices

What is reported while a mailbox is synchronized.
-/

namespace MailBridge

/-- Something that is reported of a mailbox. -/
inductive Notice where
  | fetched (mailbox : String) (events : Nat)
  | listed (mailbox : String) (messages : Nat)
  | corrected (mailbox : String) (correction : Correction)
  | applied (mailbox : String) (tally : Tally)
  | resynced (mailbox : String) (tally : Tally)
  | invalidated (mailbox : String) (validity : UidValidity)
deriving DecidableEq

namespace Notice

def text : Notice → String
  | fetched mailbox events => s!"Fetched {events} remote events for {mailbox}"
  | listed mailbox messages => s!"Listed {messages} remote messages from {mailbox}"
  | corrected mailbox correction => s!"{correction.text} in {mailbox}"
  | applied mailbox tally => s!"Applied batch to {mailbox}: {tally.text}"
  | resynced mailbox tally => s!"Resynced {mailbox}: {tally.text}"
  | invalidated mailbox validity => s!"Invalidated {mailbox}, new uid validity {validity}"

end Notice

end MailBridge

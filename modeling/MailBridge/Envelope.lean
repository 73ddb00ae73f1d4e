import MailBridge.Date

/-! # Envelopes

The envelope of a message is the summary kept beside it: a few headers of its decrypted content.
-/

namespace MailBridge

/-- A sender or a recipient. -/
structure Address where
  name : Option String := none
  addr : String := ""
deriving DecidableEq

namespace Address

/-- The name with the address in angle brackets, or the address alone. -/
def text (a : Address) : String :=
  match a.name with
  | some name => s!"{name} <{a.addr}>"
  | none => a.addr

end Address

/-- The headers of a message that are kept. -/
structure Envelope where
  messageId : String := ""
  sender : Address := {}
  recipient : Address := {}
  subject : String := ""
  date : Date := .epoch
deriving DecidableEq

namespace Envelope

/-- Whether two envelopes say the same. Their dates need only name the same instant. -/
def agrees (a b : Envelope) : Bool :=
  a.messageId == b.messageId && a.sender == b.sender && a.recipient == b.recipient &&
    a.subject == b.subject && a.date.sameInstant b.date

end Envelope

end MailBridge

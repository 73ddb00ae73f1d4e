import MailBridge.Envelope
import MailBridge.Flag.Merge

/-! # Messages

What the bridge keeps of each message of a mailbox, and what it is told of a message before the
message has a UID.
-/

namespace MailBridge

/-- The name of a message on the remote account, which means nothing here. -/
abbrev RemoteId := String

/-- What is known of a message apart from its place in a mailbox. -/
structure MessageContent where
  remoteId : RemoteId := ""
  flags : Flags := ∅
  /-- The size in bytes. -/
  size : UInt32 := 0
  envelope : Envelope := {}
  /-- The place of the message in the order of the remote account. -/
  order : UInt64 := 0
  /-- Why the message could not be decrypted, if it could not. -/
  decodeError : Option String := none
deriving DecidableEq

structure Message extends MessageContent where
  /-- Assigned once, for as long as the message exists. -/
  uid : Uid
  /-- The change of the mailbox that last touched the message. -/
  modseq : ModSeq
  /-- The local changes of its flags. -/
  localChanges : LocalChanges := ∅
deriving DecidableEq

namespace Message

def isUndecryptable (m : Message) : Bool := m.decodeError.isSome

/-- Whether content tells more of a message than its flags: envelope, size, order or the reason
why it could not be decrypted. -/
def isRefreshedBy (m : Message) (content : MessageContent) : Bool :=
  !(m.envelope.agrees content.envelope) || m.size != content.size || m.order != content.order ||
    m.decodeError != content.decodeError

def refresh (m : Message) (content : MessageContent) (modseq : ModSeq) : Message :=
  { m with
    envelope := content.envelope, size := content.size, order := content.order,
    decodeError := content.decodeError, modseq }

/-- A message that has just arrived: it is recent, and marked if it could not be decrypted. -/
def arrive (content : MessageContent) (uid : Uid) (modseq : ModSeq) : Message :=
  let flags := OrderedSet.insert .recent (Flags.withoutRecent content.flags)
  let flags := if content.decodeError.isSome then OrderedSet.insert .undecryptable flags else flags
  { content with flags, uid, modseq }

end Message

end MailBridge

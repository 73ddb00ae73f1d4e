import MailBridge.Envelope
import MailBridge.Flag.Set
import MailBridge.Identifier

/-! # What the remote account tells

The remote account tells what has happened since a given place, the *cursor*, or lists all its
messages. The content of a message comes in the clear or encrypted.
-/

namespace MailBridge

/-- The content of a message on the remote account. -/
inductive Payload where
  | plain (envelope : Envelope)
  | encrypted (secret : String)
deriving DecidableEq

structure RemoteMessage where
  id : String := ""
  /-- The place of the message in the order of the remote account. -/
  order : UInt64 := 0
  flags : Flags := ∅
  size : UInt32 := 0
  payload : Payload := .plain {}
deriving DecidableEq

inductive RemoteEvent where
  | created (message : RemoteMessage)
  /-- The message had the flags at the given time. -/
  | updated (id : String) (flags : Flags) (taken : Instant)
  | removed (id : String)
deriving DecidableEq

namespace RemoteEvent

def remoteId : RemoteEvent → String
  | created message => message.id
  | updated id _ _ => id
  | removed id => id

end RemoteEvent

/-- What happened on the remote account since some cursor. -/
structure EventBatch where
  events : List RemoteEvent := []
  /-- Where to go on after these events. -/
  cursor : Option String := none
  /-- The remote account does not know all that happened. -/
  gap : Bool := false
deriving DecidableEq

/-- All messages of a remote mailbox. -/
structure Listing where
  messages : List RemoteMessage := []
  /-- The remote mailbox was made anew, so that all UIDs are void. -/
  recreated : Bool := false
  /-- Where to go on with events. -/
  cursor : Option String := none
  /-- When the listing was made. -/
  taken : Instant
deriving DecidableEq

end MailBridge

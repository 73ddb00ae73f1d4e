import MailBridge.Mailbox.Operation
import MailBridge.Remote.Message

/-! # What the remote account will answer

The remote account is given by a script: the batches of events that it hands out one after the
other, its listing, which questions it fails to answer, how long each answer takes, and what others
do to the mailbox in the meantime.
-/

namespace MailBridge

/-- An answer of the remote account. -/
structure Delivery (α : Type) where
  answer : α
  /-- How long the answer takes, in milliseconds. -/
  delay : Nat := 0
  /-- What is done to the mailbox meanwhile. -/
  meanwhile : List Operation := []

/-- Some questions in a row that are not answered. -/
structure Outage where
  /-- How many questions are answered before. -/
  after : Nat := 0
  length : Nat

/-- The answers of the remote account for one mailbox. -/
structure RemoteScript where
  batches : List (Delivery EventBatch) := []
  listing : Delivery Listing
  /-- The outages to come, one after the other. -/
  outages : List Outage := []
  /-- What is done to the mailbox the first time that a message is decrypted. -/
  whileDecrypting : OrderedMap RemoteId (List Operation) := ∅

namespace Outage

/-- Whether the next question is answered, and the outages that are to come then. -/
def next : List Outage → Bool × List Outage
  | [] => (true, [])
  | ⟨after + 1, length⟩ :: later => (true, ⟨after, length⟩ :: later)
  | ⟨0, length + 1⟩ :: later => (false, ⟨0, length⟩ :: later)
  | ⟨0, 0⟩ :: later => next later

end Outage

namespace RemoteScript

/-- The reason why a question is not answered. -/
def unreachable : String := "remote account unreachable"

/-- A remote account with no events and no messages. -/
def quiet (now : Instant) : RemoteScript := { listing := { answer := { taken := now } } }

end RemoteScript

/-- A way to decrypt the content of messages. -/
structure Decryption where
  /-- The envelope in an encrypted content, or why it cannot be had. -/
  decrypt : RemoteId → String → Except String Envelope

namespace Decryption

/-- Reads contents that say themselves what becomes of them: an empty one has an invalid
signature, one with an exclamation mark in front fails with the text after it, and any other is
the subject of a message from its own remote name. -/
def literal : Decryption where
  decrypt id secret :=
    match secret.toList with
    | [] => .error "invalid signature"
    | '!' :: reason => .error (String.ofList reason)
    | _ => .ok { sender := { addr := id }, subject := secret }

end Decryption

end MailBridge

import MailBridge.Cache.Error
import MailBridge.Cache.Table
import MailBridge.Date.Reader
import MailBridge.Mailbox

/-! # Mailboxes in the cache

A mailbox is saved by writing what has changed and loaded as a whole. No next UID is written as
zero, numbers that are too large for a cell as the largest one, flags in their written form, and
the local changes of flags not at all. A date that cannot be read is taken for the first instant
of 1970, and a negative number for zero.
-/

namespace MailBridge

namespace MailboxRow

def ofMailbox (m : Mailbox) : MailboxRow where
  name := .text m.name
  uidValidity := .ofNat m.uids.validity.val
  uidNext := .ofNat (m.uids.next?.elim 0 (·.val))
  modseq := .ofNat m.modseq.val
  cursor := .ofText? m.cursor

end MailboxRow

namespace MessageRow

def ofMessage (mailbox : String) (pending : Bool) (m : Message) : MessageRow where
  mailbox := .text mailbox
  uid := .ofNat m.uid.val
  remoteId := .text m.remoteId
  flags := .text (Flags.text m.flags)
  size := .ofNat m.size.toNat
  senderName := .ofText? m.envelope.sender.name
  sender := .text m.envelope.sender.addr
  recipientName := .ofText? m.envelope.recipient.name
  recipient := .text m.envelope.recipient.addr
  subject := .text m.envelope.subject
  messageId := .text m.envelope.messageId
  date := .text m.envelope.date.text
  modseq := .ofNat m.modseq.val
  order := .ofNat m.order.toNat
  decodeError := .ofText? m.decodeError
  pending := .ofNat (if pending then 1 else 0)

/-- Reads a row whose cells are of the right kinds: its UID, which may be zero, the message if it
had some UID, and whether the message waits to be expunged. -/
def read? (row : MessageRow) : Option (Nat × (Uid → Message) × Bool) := do
  let uid ← row.uid.readWord
  let remoteId ← row.remoteId.readText
  let flags ← row.flags.readText
  let size ← row.size.readWord
  let senderName ← row.senderName.readText?
  let sender ← row.sender.readText
  let recipientName ← row.recipientName.readText?
  let recipient ← row.recipient.readText
  let subject ← row.subject.readText
  let messageId ← row.messageId.readText
  let date ← row.date.readText
  let modseq ← row.modseq.readInteger
  let order ← row.order.readInteger
  let decodeError ← row.decodeError.readText?
  let pending ← row.pending.readBool
  let message := fun uid : Uid =>
    { remoteId, uid, flags := .ofAtoms flags, size := .ofNat size,
      envelope :=
        { messageId, sender := ⟨senderName, sender⟩, recipient := ⟨recipientName, recipient⟩,
          subject, date := (Date.read? date).getD .epoch },
      order := .ofNat order.toNat, modseq := .clamp modseq.toNat, decodeError : Message }
  return (uid, message, pending)

end MessageRow

namespace Cache

/-- The names of the saved mailboxes, in ascending order. -/
def names (c : Cache) : Except CacheError (List String) :=
  match c.mailboxes.mapM (·.name.readText) with
  | some names => .ok (names.mergeSort fun a b => decide (¬ b < a))
  | none => .error .listMailboxes

/-- The messages of a mailbox, each with the mark of those that wait to be expunged. -/
def loadMessages (name : String) (c : Cache) : Except CacheError (List (Message × Bool)) :=
  match (c.messages.filter (·.mailbox == .text name)).mapM MessageRow.read? with
  | none => .error (.loadMailbox name)
  | some rows =>
    match rows.mapM fun (uid, message, pending) =>
      (Uid.ofNat? uid).map fun uid => (message uid, pending) with
    | none => .error (.invalidValue name "record uid")
    | some messages => .ok messages

/-- Loads the mailbox with a name, if it was saved. -/
def load (name : String) (c : Cache) : Except CacheError (Option Mailbox) :=
  match c.mailboxes.find? (·.name == .text name) with
  | none => .ok none
  | some row =>
    match row.uidValidity.readWord, row.uidNext.readWord, row.modseq.readInteger,
      row.cursor.readText? with
    | some validity, some next, some modseq, some cursor =>
      match UidValidity.ofNat? validity with
      | none => .error (.invalidValue name "uid validity")
      | some validity =>
        match c.loadMessages name with
        | .error e => .error e
        | .ok messages =>
          let pending := (messages.filter (·.2)).map (·.1.uid)
          .ok (some (.ofSaved name ⟨validity, Uid.ofNat? next⟩
            (.ofMessages (messages.map (·.1))) (.clamp modseq.toNat) cursor (.ofList pending)))
    | _, _, _, _ => .error (.loadMailbox name)

/-- Saves what has changed in a mailbox; all of it, or nothing. -/
def save (m : Mailbox) (unsaved : Unsaved) (c : Cache) : Except CacheError Cache :=
  let written := unsaved.written.toList.filterMap m.get?
  if c.refusesMailboxes || (c.refusesMessages && !written.isEmpty) then .error (.saveMailbox m.name)
  else
    let c := c.writeMailbox (.ofMailbox m)
    let c := if unsaved.reset then c.deleteMessages m.name else c
    let c := unsaved.removed.toList.foldl (fun c uid => c.deleteMessage m.name uid.val) c
    .ok (written.foldl
      (fun c message =>
        c.writeMessage (.ofMessage m.name (decide (message.uid ∈ m.pending)) message))
      c)

/-- Saves a mailbox with all its messages, whatever has changed. -/
def saveWhole (m : Mailbox) (c : Cache) : Except CacheError Cache :=
  c.save m { mailbox := true, written := .ofList (m.store.messages.map (·.uid)) }

end Cache

end MailBridge

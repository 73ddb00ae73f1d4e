import MailBridge.Cache.Cell

/-! # The tables of the cache

One table has a row for each mailbox, the other a row for each message. No two mailboxes share a
name, and no two messages of one mailbox share a UID or a remote name: a row that is written takes
the place of those that it would clash with, and a single cell is not changed if that would make a
clash. The name of a mailbox is the only part of a key that may be absent.
-/

namespace MailBridge

/-- A row of the table of mailboxes. -/
structure MailboxRow where
  name : Cell
  uidValidity : Cell
  uidNext : Cell
  modseq : Cell
  cursor : Cell
deriving DecidableEq

inductive MailboxColumn where
  | name
  | uidValidity
  | uidNext
  | modseq
  | cursor
deriving DecidableEq

namespace MailboxColumn

def ofName? : String → Option MailboxColumn
  | "name" => some name
  | "uid_validity" => some uidValidity
  | "uid_next" => some uidNext
  | "modseq" => some modseq
  | "cursor" => some cursor
  | _ => none

def affinity : MailboxColumn → Affinity
  | name | cursor => .text
  | uidValidity | uidNext | modseq => .integer

def isOptional : MailboxColumn → Bool
  | name | cursor => true
  | _ => false

end MailboxColumn

namespace MailboxRow

def set (value : Cell) (row : MailboxRow) : MailboxColumn → MailboxRow
  | .name => { row with name := value }
  | .uidValidity => { row with uidValidity := value }
  | .uidNext => { row with uidNext := value }
  | .modseq => { row with modseq := value }
  | .cursor => { row with cursor := value }

def clashes (a b : MailboxRow) : Bool := a.name != .null && a.name == b.name

end MailboxRow

/-- A row of the table of messages. -/
structure MessageRow where
  mailbox : Cell
  uid : Cell
  remoteId : Cell
  flags : Cell
  size : Cell
  senderName : Cell
  sender : Cell
  recipientName : Cell
  recipient : Cell
  subject : Cell
  messageId : Cell
  date : Cell
  modseq : Cell
  order : Cell
  decodeError : Cell
  pending : Cell
deriving DecidableEq

inductive MessageColumn where
  | mailbox
  | uid
  | remoteId
  | flags
  | size
  | senderName
  | sender
  | recipientName
  | recipient
  | subject
  | messageId
  | date
  | modseq
  | order
  | decodeError
  | pending
deriving DecidableEq

namespace MessageColumn

def ofName? : String → Option MessageColumn
  | "mailbox" => some mailbox
  | "uid" => some uid
  | "remote_id" => some remoteId
  | "flags" => some flags
  | "size" => some size
  | "sender_name" => some senderName
  | "sender" => some sender
  | "recipient_name" => some recipientName
  | "recipient" => some recipient
  | "subject" => some subject
  | "message_id" => some messageId
  | "date" => some date
  | "modseq" => some modseq
  | "remote_order" => some order
  | "decode_error" => some decodeError
  | "pending" => some pending
  | _ => none

def affinity : MessageColumn → Affinity
  | uid | size | modseq | order | pending => .integer
  | _ => .text

def isOptional : MessageColumn → Bool
  | senderName | recipientName | decodeError => true
  | _ => false

end MessageColumn

namespace MessageRow

def set (value : Cell) (row : MessageRow) : MessageColumn → MessageRow
  | .mailbox => { row with mailbox := value }
  | .uid => { row with uid := value }
  | .remoteId => { row with remoteId := value }
  | .flags => { row with flags := value }
  | .size => { row with size := value }
  | .senderName => { row with senderName := value }
  | .sender => { row with sender := value }
  | .recipientName => { row with recipientName := value }
  | .recipient => { row with recipient := value }
  | .subject => { row with subject := value }
  | .messageId => { row with messageId := value }
  | .date => { row with date := value }
  | .modseq => { row with modseq := value }
  | .order => { row with order := value }
  | .decodeError => { row with decodeError := value }
  | .pending => { row with pending := value }

/-- Whether two rows cannot both be in the table. -/
def clashes (a b : MessageRow) : Bool :=
  a.mailbox == b.mailbox && (a.uid.agrees b.uid || a.remoteId == b.remoteId)

end MessageRow

/-- The tables, and whether they refuse to have rows written. -/
structure Cache where
  mailboxes : List MailboxRow := []
  messages : List MessageRow := []
  refusesMailboxes : Bool := false
  refusesMessages : Bool := false
deriving DecidableEq

/-- What came of changing a cell. -/
inductive Patched where
  /-- The number of rows that were changed. -/
  | rows (n : Nat)
  /-- A column would be empty that may not be, or two rows would clash. -/
  | rejected
deriving DecidableEq

namespace Cache

/-- Writes the row of a mailbox, in place of the one with its name. -/
def writeMailbox (row : MailboxRow) (c : Cache) : Cache :=
  { c with mailboxes := c.mailboxes.filter (!row.clashes ·) ++ [row] }

/-- Writes the row of a message, in place of those that it clashes with. -/
def writeMessage (row : MessageRow) (c : Cache) : Cache :=
  { c with messages := c.messages.filter (!row.clashes ·) ++ [row] }

def deleteMessages (mailbox : String) (c : Cache) : Cache :=
  { c with messages := c.messages.filter fun row => row.mailbox != .text mailbox }

def deleteMessage (mailbox : String) (uid : Nat) (c : Cache) : Cache :=
  { c with
    messages := c.messages.filter fun row =>
      !(row.mailbox == .text mailbox && row.uid == .integer uid) }

def patchMailbox (name : String) (column : MailboxColumn) (value : Cell) (c : Cache) :
    Patched × Cache :=
  match c.mailboxes.find? (·.name == .text name) with
  | none => (.rows 0, c)
  | some row =>
    let value := value.settle column.affinity
    let changed := row.set value column
    let others := c.mailboxes.filter (· ≠ row)
    if (value == .null && !column.isOptional) || others.any changed.clashes then (.rejected, c)
    else (.rows 1, { c with mailboxes := others ++ [changed] })

def patchMessage (mailbox : String) (uid : Int) (column : MessageColumn) (value : Cell)
    (c : Cache) : Patched × Cache :=
  match c.messages.find? fun row => row.mailbox == .text mailbox && row.uid == .integer uid with
  | none => (.rows 0, c)
  | some row =>
    let value := value.settle column.affinity
    let changed := row.set value column
    let others := c.messages.filter (· ≠ row)
    if (value == .null && !column.isOptional) || others.any changed.clashes then (.rejected, c)
    else (.rows 1, { c with messages := others ++ [changed] })

end Cache

end MailBridge

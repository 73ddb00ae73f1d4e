import MailBridge.Mailbox
import MailBridge.Session.Selection

/-! # What a session has missed

Between two looks of a session, messages may have gone, come, or had their flags changed. What
the session has missed is found by comparing its frozen view with the mailbox: a message that came
has a UID above those of the view, and one that changed has a later modification sequence.
-/

namespace MailBridge

/-- What has happened to a mailbox since a frozen view of it was taken. -/
structure MissedChanges where
  validity : UidValidity
  modseq : ModSeq
  /-- The messages of the view that are gone. -/
  vanished : List Uid
  /-- The messages of the view that have been changed since. -/
  changed : List Message
  /-- The messages that have come. -/
  appended : List SnapshotEntry

/-- What a session is told of the changes that it has missed. -/
structure PollReport where
  /-- The messages that are gone, each with its sequence number when those before it are gone. -/
  expunged : List (Seqnum × Uid) := []
  /-- The number of messages, if messages have come. -/
  total? : Option Nat := none
  /-- The number of recent messages, if messages have come. -/
  recent? : Option Nat := none
  /-- The messages whose flags have been changed. -/
  flagged : List MessageView := []
  /-- The UIDs that the session knows are void, and nothing is selected any more. -/
  invalidated : Bool := false
deriving DecidableEq

namespace Mailbox

/-- What has happened since a frozen view was taken. -/
def changesSince (s : Snapshot) (m : Mailbox) : MissedChanges where
  validity := m.uids.validity
  modseq := m.modseq
  vanished := (s.entries.filter fun e => (m.get? e.uid).isNone).map (·.uid)
  changed := s.entries.filterMap fun e =>
    (m.get? e.uid).filter fun message => decide (e.modseq.val < message.modseq.val)
  appended := (m.store.messages.filter fun message => s.isNew message.uid).map .ofMessage

end Mailbox

namespace Snapshot

/-- Takes a changed message in, and gives its UID if this changes its flags in view. -/
def adopt (message : Message) (s : Snapshot) : Option Uid × Snapshot :=
  match s.position? message.uid with
  | none => (none, s)
  | some i =>
    match s.entries[i]? with
    | none => (none, s)
    | some e =>
      let flags := e.adopt message.flags
      (if e.flags = flags then none else some message.uid,
        { s with entries := s.entries.set i { e with flags, modseq := message.modseq } })

/-- Takes changed messages in, and gives the UIDs of those whose flags in view are changed. -/
def adoptAll : List Message → Snapshot → List Uid × Snapshot
  | [], s => ([], s)
  | message :: rest, s =>
    let (uid?, s) := s.adopt message
    let (uids, s) := adoptAll rest s
    (uid?.toList ++ uids, s)

/-- The view of the message with a UID. -/
def view? (s : Snapshot) (uid : Uid) : Option MessageView :=
  (s.seqnumOf? uid).bind fun n => (s.get? n).map (.ofEntry n)

def recentCount (s : Snapshot) : Nat := s.entries.countP fun e => e.flags.isRecent

/-- Takes in what has happened, and gives what to tell of it. -/
def catchUp (changes : MissedChanges) (s : Snapshot) : PollReport × Snapshot :=
  let (expunged, s) := s.removeWhere fun uid => decide (uid ∈ changes.vanished)
  let (uids, s) := s.adoptAll changes.changed
  let s := { changes.appended.foldl append s with modseq := changes.modseq }
  let told (n : Nat) := if changes.appended.isEmpty then none else some n
  ({ expunged, flagged := uids.filterMap s.view?, total? := told s.size,
     recent? := told s.recentCount }, s)

end Snapshot

end MailBridge

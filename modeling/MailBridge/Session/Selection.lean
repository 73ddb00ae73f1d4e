import MailBridge.Search
import MailBridge.Session.Error
import MailBridge.Snapshot

/-! # Selections

A session that has selected a mailbox keeps a frozen view of it. The numbers of a command are
resolved in this view, whatever has become of the mailbox meanwhile, and what the session is shown
of a message is the present message with the view's mark of whether it is recent.
-/

namespace MailBridge

/-- A mailbox selected by a session. -/
structure Selection where
  mailbox : String
  snapshot : Snapshot
  isReadOnly : Bool
deriving DecidableEq

inductive MessageSet where
  | seqnums (set : SequenceSet)
  | uids (set : SequenceSet)
deriving DecidableEq

namespace MessageSet

def read (byUid : Bool) (s : String) : Except SequenceSet.Malformed MessageSet :=
  (SequenceSet.read s).map fun set => if byUid then uids set else seqnums set

end MessageSet

namespace SnapshotEntry

/-- Flags of a message with the mark of a recent message as the entry has it. -/
def adopt (e : SnapshotEntry) (flags : Flags) : Flags :=
  if e.flags.isRecent then OrderedSet.insert .recent flags.withoutRecent else flags.withoutRecent

end SnapshotEntry

namespace MessageView

/-- What a frozen view shows of a message. -/
def ofEntry (n : Seqnum) (e : SnapshotEntry) : MessageView :=
  ⟨n, e.uid, e.flags, e.size, e.envelope⟩

/-- What a session is shown of a message that still exists, or else what its frozen view shows. -/
def ofLive (n : Seqnum) (e : SnapshotEntry) : Option Message → MessageView
  | some m => ⟨n, e.uid, e.adopt m.flags, m.size, m.envelope⟩
  | none => ofEntry n e

end MessageView

namespace Selection

/-- What a star stands for: the greatest number in view, or 1 if there is none. -/
def largest (s : Selection) : Largest where
  seqnum := (s.snapshot.greatestSeqnum?.getD .least).toNzNumber
  uid := (s.snapshot.greatestUid?.getD .least).toNzNumber

/-- The messages that a command is about, in the order of the view. A sequence number beyond the
view is an error, a UID that is not in view is nothing. -/
def targets (set : MessageSet) (s : Selection) :
    Except MailboxError (List (Seqnum × SnapshotEntry)) :=
  match set with
  | .seqnums set =>
    let greatest := set.greatest s.largest.seqnum
    if s.snapshot.size < greatest then
      .error (.seqnumNotFound s.mailbox ((Seqnum.ofNat? greatest).getD .greatest))
    else .ok (s.snapshot.numbered.filter fun (n, _) => set.contains s.largest.seqnum n.val)
  | .uids set =>
    .ok (s.snapshot.numbered.filter fun (_, e) => set.contains s.largest.uid e.uid.val)

end Selection

end MailBridge

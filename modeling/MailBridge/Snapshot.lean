import MailBridge.Message

/-! # Frozen views

A session sees the messages that a mailbox had when the session last looked. Positions in this
view are the sequence numbers of its commands, and stay as they are until the session is told of
changes.
-/

namespace MailBridge

/-- A message as a frozen view shows it. -/
structure SnapshotEntry where
  uid : Uid
  flags : Flags
  size : UInt32
  envelope : Envelope
  modseq : ModSeq
deriving DecidableEq

namespace SnapshotEntry

def ofMessage (m : Message) : SnapshotEntry := ⟨m.uid, m.flags, m.size, m.envelope, m.modseq⟩

end SnapshotEntry

/-- The messages of a mailbox at a point in time, in ascending order of UIDs. -/
structure Snapshot where
  validity : UidValidity
  /-- The last change that the view includes. -/
  modseq : ModSeq
  entries : List SnapshotEntry
deriving DecidableEq

namespace Snapshot

def size (s : Snapshot) : Nat := s.entries.length

/-- Pairs entries with their sequence numbers; the first has the given index. -/
def numberFrom (i : Nat) : List SnapshotEntry → List (Seqnum × SnapshotEntry)
  | [] => []
  | e :: rest => (Seqnum.ofIndex i, e) :: numberFrom (i + 1) rest

/-- The entries with their sequence numbers. -/
def numbered (s : Snapshot) : List (Seqnum × SnapshotEntry) := numberFrom 0 s.entries

def get? (s : Snapshot) (n : Seqnum) : Option SnapshotEntry := s.entries[n.toIndex]?

def uidAt? (s : Snapshot) (n : Seqnum) : Option Uid := (s.get? n).map (·.uid)

/-- The place of a UID, counted from 0; the last one, should there be several. -/
def position? (s : Snapshot) (uid : Uid) : Option Nat :=
  match s.entries.findIdx fun e => decide (uid.val < e.uid.val) with
  | 0 => none
  | i + 1 => if s.entries[i]?.map (·.uid) = some uid then some i else none

def seqnumOf? (s : Snapshot) (uid : Uid) : Option Seqnum := (s.position? uid).map Seqnum.ofIndex

def greatestUid? (s : Snapshot) : Option Uid := s.entries.getLast?.map (·.uid)

def greatestSeqnum? (s : Snapshot) : Option Seqnum :=
  if s.entries.isEmpty then none else some (.ofIndex (s.entries.length - 1))

def isNew (s : Snapshot) (uid : Uid) : Bool :=
  match s.greatestUid? with
  | some greatest => decide (greatest.val < uid.val)
  | none => true

/-- Appends an entry whose UID is above all others; any other entry is left out. -/
def append (s : Snapshot) (e : SnapshotEntry) : Snapshot :=
  if s.isNew e.uid then { s with entries := s.entries ++ [e] } else s

/-- The entries with the given UIDs, each with its sequence number when all entries before it
that are also gone have left the view; `i` entries come before the first. -/
def removedFrom (gone : Uid → Bool) (i : Nat) : List SnapshotEntry → List (Seqnum × Uid)
  | [] => []
  | e :: rest =>
    if gone e.uid then (Seqnum.ofIndex i, e.uid) :: removedFrom gone i rest
    else removedFrom gone (i + 1) rest

/-- Takes out the entries that are gone. Gives, in ascending order, each with the sequence number
that it has once those before it have been taken out. -/
def removeWhere (gone : Uid → Bool) (s : Snapshot) : List (Seqnum × Uid) × Snapshot :=
  (removedFrom gone 0 s.entries, { s with entries := s.entries.filter fun e => !gone e.uid })

end Snapshot

end MailBridge

import MailBridge.Identifier

/-! # The UIDs left to assign

UIDs are issued in ascending order within an epoch, until the last one has been issued. A new
epoch goes on with the UIDs of the old one, unless there are none left.
-/

namespace MailBridge

/-- The epoch of a mailbox and the UID to be issued next. -/
structure UidSpace where
  validity : UidValidity
  /-- Absent once the last UID has been issued. -/
  next? : Option Uid
deriving DecidableEq

namespace UidSpace

/-- The UIDs of a new mailbox. -/
def fresh (now : Instant) : UidSpace := ⟨.initial now, some .least⟩

/-- The UID that a client is told to expect; the last one once there are none left. -/
def predicted (s : UidSpace) : Uid := s.next?.getD .greatest

/-- Issues a UID, if one is left. -/
def issue? (s : UidSpace) : Option (Uid × UidSpace) :=
  s.next?.map fun uid => (uid, { s with next? := uid.next? })

/-- Begins a new epoch with the UIDs that are left. -/
def invalidate (now : Instant) (s : UidSpace) : UidSpace :=
  { s with validity := s.validity.next now }

/-- Begins a new epoch with all UIDs. -/
def invalidateAndReset (now : Instant) (s : UidSpace) : UidSpace :=
  ({ s with next? := some .least } : UidSpace).invalidate now

/-- Begins a new epoch, with all UIDs if there are none left. -/
def renew (now : Instant) (s : UidSpace) : UidSpace :=
  if s.next?.isSome then s.invalidate now else s.invalidateAndReset now

/-- Leaves the UIDs up to the given one out, if any of them were still to be issued. -/
def raiseAbove (uid : Uid) (s : UidSpace) : UidSpace :=
  match s.next? with
  | some next => if next.val ≤ uid.val then { s with next? := uid.next? } else s
  | none => s

end UidSpace

end MailBridge

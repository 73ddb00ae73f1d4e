import MailBridge.Envelope
import MailBridge.Flag.Set
import MailBridge.SequenceSet

/-! # Searching messages

A search looks at what a session sees of a message: its flags, its size, its UID and its
sequence number.
-/

namespace MailBridge

/-- A message as a session sees it. -/
structure MessageView where
  seqnum : Seqnum
  uid : Uid
  flags : Flags
  size : UInt32
  envelope : Envelope
deriving DecidableEq

/-- What a star stands for in a view. -/
structure Largest where
  seqnum : NzNumber
  uid : NzNumber
deriving DecidableEq

/-- What a search asks for. -/
inductive SearchKey where
  | all
  | flag (flag : Flag)
  | uid (set : SequenceSet)
  | seqnum (set : SequenceSet)
  /-- More bytes than the number. -/
  | larger (size : UInt32)
  /-- Fewer bytes than the number. -/
  | smaller (size : UInt32)
  | every (keys : List SearchKey)
  | either (left right : SearchKey)
  | negated (key : SearchKey)

namespace SearchKey

instance : Inhabited SearchKey := ⟨.all⟩

def unseen : SearchKey := .negated (.flag .seen)

mutual

/-- Whether a message is found by a key. -/
def finds (largest : Largest) (m : MessageView) : SearchKey → Bool
  | all => true
  | flag f => decide (f ∈ m.flags)
  | uid set => set.contains largest.uid m.uid.val
  | seqnum set => set.contains largest.seqnum m.seqnum.val
  | larger size => decide (size < m.size)
  | smaller size => decide (m.size < size)
  | every keys => findsEvery largest m keys
  | either left right => finds largest m left || finds largest m right
  | negated key => !finds largest m key

def findsEvery (largest : Largest) (m : MessageView) : List SearchKey → Bool
  | [] => true
  | key :: rest => finds largest m key && findsEvery largest m rest

end

end SearchKey

end MailBridge

import MailBridge.Identifier

/-! # Sequence sets

A sequence set names messages by numbers, which are sequence numbers or UIDs: single numbers and
ranges, where a star stands for the largest number of the view. A set is resolved without
writing its ranges out, since a range of UIDs may span billions of numbers.
-/

namespace MailBridge

inductive SequenceNumber where
  /-- The number as it stands. -/
  | exact (n : NzNumber)
  /-- The largest number of the view. -/
  | star
deriving DecidableEq

namespace SequenceNumber

/-- The number meant when the star stands for `largest`. -/
def resolve (largest : NzNumber) : SequenceNumber → NzNumber
  | exact n => n
  | star => largest

end SequenceNumber

inductive SequenceItem where
  /-- One number. -/
  | single (n : SequenceNumber)
  /-- All numbers between two, both included, whichever of the two is the larger. -/
  | range (a b : SequenceNumber)
deriving DecidableEq

namespace SequenceItem

/-- The least and the greatest number of an item. -/
def bounds (largest : NzNumber) : SequenceItem → Nat × Nat
  | single n => ((n.resolve largest).val, (n.resolve largest).val)
  | range a b =>
    (min (a.resolve largest).val (b.resolve largest).val,
      max (a.resolve largest).val (b.resolve largest).val)

def contains (largest : NzNumber) (n : Nat) (item : SequenceItem) : Bool :=
  let (low, high) := item.bounds largest
  decide (low ≤ n) && decide (n ≤ high)

end SequenceItem

/-- A set of numbers, as a list of items that may overlap. -/
abbrev SequenceSet := List SequenceItem

namespace SequenceSet

def contains (set : SequenceSet) (largest : NzNumber) (n : Nat) : Bool :=
  List.any set (·.contains largest n)

/-- The greatest number of the set. -/
def greatest (set : SequenceSet) (largest : NzNumber) : Nat :=
  set.foldl (fun m item => max m (item.bounds largest).2) 0

end SequenceSet

end MailBridge

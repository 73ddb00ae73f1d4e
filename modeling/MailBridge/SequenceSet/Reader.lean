import MailBridge.SequenceSet
import MailBridge.Text.Decimal
import MailBridge.Text.Pieces

/-! # Reading sequence sets

Items are separated by commas, and a range has a colon between its ends. A number does not start
with a zero, may have one plus sign in front, and is positive with at most 32 bits. There are no
blanks.
-/

namespace MailBridge.SequenceSet

/-- A text that is not a sequence set. -/
structure Malformed where
  text : String
deriving DecidableEq

namespace Malformed

def message (e : Malformed) : String := s!"cannot parse sequence set {e.text}"

end Malformed

/-- Reads a number. A plus sign also admits zeros in front. -/
def number? : List Char → Option SequenceNumber
  | ['*'] => some .star
  | '0' :: _ => none
  | '+' :: digits => (Text.decimal? digits).bind fun n => (NzNumber.ofNat? n).map .exact
  | digits => (Text.decimal? digits).bind fun n => (NzNumber.ofNat? n).map .exact

def item? (cs : List Char) : Option SequenceItem :=
  match Text.pieces ':' cs with
  | [a] => (number? a).map .single
  | [a, b] => do return .range (← number? a) (← number? b)
  | _ => none

def read (s : String) : Except Malformed SequenceSet :=
  match (Text.pieces ',' s.toList).mapM item? with
  | some items => .ok items
  | none => .error ⟨s⟩

end MailBridge.SequenceSet

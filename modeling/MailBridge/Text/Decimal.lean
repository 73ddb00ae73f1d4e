/-! # Decimal numbers

Numbers written with the digits 0 to 9, read and written with a fixed number of places.
-/

namespace MailBridge.Text

def isDigit (c : Char) : Bool := '0' ≤ c && c ≤ '9'

def digitValue (c : Char) : Nat := c.toNat - '0'.toNat

/-- The value of a run of digits, the first of them the most significant. -/
def decimalValue (digits : List Char) : Nat :=
  digits.foldl (fun n c => 10 * n + digitValue c) 0

/-- Appends digits to a number as long as there is room after it for the next one. Also gives how
many digits are left. -/
def appendDigits (hasRoom : Nat → Nat → Bool) (n : Nat) : List Char → Nat × Nat
  | [] => (n, 0)
  | c :: rest =>
    if hasRoom n (digitValue c) then appendDigits hasRoom (10 * n + digitValue c) rest
    else (n, rest.length + 1)

/-- Reads a whole text of one digit or more. -/
def decimal? (cs : List Char) : Option Nat :=
  if !cs.isEmpty && cs.all isDigit then some (decimalValue cs) else none

/-- Reads exactly the given number of digits; also gives what follows them. -/
def fixedDecimal? (places : Nat) (cs : List Char) : Option (Nat × List Char) :=
  let digits := cs.take places
  if digits.length = places && digits.all isDigit then
    some (decimalValue digits, cs.drop places)
  else none

/-- The number in decimal, with zeros in front up to the given number of places. -/
def padded (places n : Nat) : String :=
  let digits := (toString n).toList
  String.ofList (List.replicate (places - digits.length) '0' ++ digits)

end MailBridge.Text

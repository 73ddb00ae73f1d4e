import MailBridge.FloatFormat

/-! # Numbers put into a column as text

A numeral has digits, of which some may stand after a point, and may have a sign in front of them
and an exponent behind; blanks around it do not matter. It is read into a number of the format
`FloatFormat.double` in a room of 63 bits. Only the leading digits for which there is room count,
and so much of the exponent as there is room for is multiplied in exactly. The rest scales the
number in the format `FloatFormat.extended`, and the outcome is rounded once more.
-/

namespace MailBridge

structure Numeral where
  isNegative : Bool
  /-- The digits before the point. -/
  whole : List Char
  /-- The digits after the point. -/
  fraction : List Char
  exponent : Int
  /-- Whether there is neither a point nor an exponent. -/
  isPlain : Bool

namespace Numeral

def isBlank (c : Char) : Bool := c == ' ' || ('\t' ≤ c && c ≤ '\r')

def signed (isNegative : Bool) (n : Nat) : Int := if isNegative then -(n : Int) else n

/-- Takes a sign off; also gives whether it is a minus. -/
def splitSign : List Char → Bool × List Char
  | '-' :: cs => (true, cs)
  | '+' :: cs => (false, cs)
  | cs => (false, cs)

/-- Takes a fraction off, which may have no digits; also gives what follows it. -/
def splitFraction : List Char → List Char × List Char
  | '.' :: cs => (cs.takeWhile Text.isDigit, cs.dropWhile Text.isDigit)
  | cs => ([], cs)

/-- Reads an exponent, which may be left out. A digit beyond ten thousand makes it ten
thousand. -/
def exponent? : List Char → Option Int
  | [] => some 0
  | mark :: cs =>
    let (isNegative, digits) := splitSign cs
    if (mark == 'e' || mark == 'E') && !digits.isEmpty && digits.all Text.isDigit then
      some (signed isNegative
        (digits.foldl (fun n c => if n < 10000 then 10 * n + Text.digitValue c else 10000) 0))
    else none

/-- Reads a text that is nothing but a numeral. -/
def read? (s : String) : Option Numeral := do
  let cs := ((s.toList.dropWhile isBlank).reverse.dropWhile isBlank).reverse
  let (isNegative, cs) := splitSign cs
  let whole := cs.takeWhile Text.isDigit
  let rest := cs.dropWhile Text.isDigit
  let (fraction, mark) := splitFraction rest
  if whole.isEmpty && fraction.isEmpty then none
  else return { isNegative, whole, fraction, exponent := ← exponent? mark, isPlain := rest.isEmpty }

/-- The number that the digits before the point make. -/
def integer (n : Numeral) : Int := signed n.isNegative (Text.decimalValue n.whole)

/-- Whether there is room for a digit more, whatever it is. -/
def hasRoom (n : Nat) : Bool := n < 922337203685477579

/-- The leading digits of a numeral, and the power of ten by which they are to be multiplied. -/
def leading (n : Numeral) : Nat × Int :=
  let (value, surplus) := Text.appendDigits (fun n _ => hasRoom n) 0 n.whole
  let (value, unused) := Text.appendDigits (fun n _ => hasRoom n) value n.fraction
  (value, n.exponent + surplus - (n.fraction.length - unused : Nat))

/-- Multiplies a number by a power of ten while there is room. Gives what is left of the
exponent. -/
def absorb (n : Nat) : Nat → Nat × Nat
  | 0 => (n, 0)
  | exponent + 1 =>
    if n < 922337203685477580 then absorb (10 * n) exponent else (n, exponent + 1)

/-- Divides a number by a power of ten while nothing is lost. Gives what is left of the
exponent. -/
def reduce (n : Nat) : Nat → Nat × Nat
  | 0 => (n, 0)
  | exponent + 1 => if n % 10 = 0 then reduce (n / 10) exponent else (n, exponent + 1)

/-- The number times a power of ten, for the kept format. -/
def scaleUp (n exponent : Nat) : Nat :=
  let f := FloatFormat.extended
  f.mul (n * f.one) (f.powerOfTen exponent) |> FloatFormat.double.convert f

/-- The number divided by a power of ten, for the kept format. -/
def scaleDown (n exponent : Nat) : Nat :=
  let f := FloatFormat.extended
  f.div (n * f.one) (f.powerOfTen exponent) |> FloatFormat.double.convert f

/-- The units of a number times a power of ten. A power beyond the 307th is taken in two steps, and
from the 342nd on every number is too large. -/
def multiplied (n exponent : Nat) : Nat :=
  let f := FloatFormat.double
  if exponent = 0 then f.ofNat n
  else if exponent ≤ 307 then scaleUp n exponent
  else if exponent < 342 then f.mul (scaleUp n (exponent - 308)) (f.ofNat (Nat.pow 10 308))
  else f.bound

/-- The units of a number divided by a power of ten. A power beyond the 307th is taken in two
steps, and from the 342nd on every number is too small. -/
def divided (n exponent : Nat) : Nat :=
  let f := FloatFormat.double
  if exponent = 0 then f.ofNat n
  else if exponent ≤ 307 then scaleDown n exponent
  else if exponent < 342 then f.div (scaleDown n (exponent - 308)) (f.ofNat (Nat.pow 10 308))
  else 0

/-- The units of the number that a numeral stands for, without its sign. -/
def magnitude (n : Numeral) : Nat :=
  match n.leading with
  | (0, _) => 0
  | (value, .ofNat exponent) =>
    let (value, exponent) := absorb value exponent
    multiplied value exponent
  | (value, .negSucc exponent) =>
    let (value, exponent) := reduce value (exponent + 1)
    divided value exponent

/-- The units of the number that a numeral stands for. -/
def units (n : Numeral) : Int := signed n.isNegative n.magnitude

end Numeral

end MailBridge

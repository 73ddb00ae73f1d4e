import MailBridge.Text.Decimal

/-! # Numbers with a floating point

A format of such numbers says how many binary digits they have at most and how many places after
the point there are. So a number of the format is a whole number of units of the last place, and
is given here by how many they are. Where a number has too many digits, the nearest one that has
not stands for it, and of two that are equally near the one whose last digit is zero.
-/

namespace MailBridge

/-- A format of numbers. -/
structure FloatFormat where
  /-- How many binary digits a number has at most. -/
  digits : Nat
  /-- How many places after the point there are. -/
  places : Nat
  /-- The power of two that is too large. -/
  range : Nat
deriving DecidableEq

namespace FloatFormat

/-- The format in which numbers are kept. -/
def double : FloatFormat := ⟨53, 1074, 1024⟩

/-- The format in which a number is scaled before it is kept. -/
def extended : FloatFormat := ⟨64, 16445, 16384⟩

/-- The units of one. -/
def one (f : FloatFormat) : Nat := 1 <<< f.places

/-- The units of the least number that is too large. It stands for all that are too large. -/
def bound (f : FloatFormat) : Nat := f.one <<< f.range

/-- The quotient, rounded to the nearest number, and to an even one where two are equally near. -/
def roundDiv (n d : Nat) : Nat :=
  let rest := n % d
  if 2 * rest < d || (2 * rest == d && n / d % 2 == 0) then n / d else n / d + 1

/-- The units of the number that stands for a quotient. -/
def ofQuotient (f : FloatFormat) (n d : Nat) : Nat :=
  let excess := (n * f.one / d).log2 + 1 - f.digits
  min (roundDiv (n * f.one) (d <<< excess) <<< excess) f.bound

/-- The units of the number that stands for a whole number. -/
def ofNat (f : FloatFormat) (n : Nat) : Nat := f.ofQuotient n 1

/-- The units of the number that stands for a number of another format. -/
def convert (f g : FloatFormat) (units : Nat) : Nat := f.ofQuotient units g.one

def mul (f : FloatFormat) (a b : Nat) : Nat := f.ofQuotient (a * b) (f.one * f.one)

def div (f : FloatFormat) (a b : Nat) : Nat := f.ofQuotient a b

/-- Multiplies a number by a power of a factor: the factor is squared again and again, and
multiplied in for every binary digit of the exponent that is one. -/
def mulPower (f : FloatFormat) (a factor exponent : Nat) : Nat :=
  let a := if exponent % 2 = 1 then f.mul a factor else a
  if exponent < 2 then a else f.mulPower a (f.mul factor factor) (exponent / 2)
termination_by exponent

def powerOfTen (f : FloatFormat) (exponent : Nat) : Nat :=
  f.mulPower f.one (f.ofNat 10) exponent

end FloatFormat

end MailBridge

import MailBridge.Cache.Numeral

/-! # Cells of a table

A table does not hold its columns to one kind of value. A column only has a leaning: a number put
into a text column becomes its decimal text, and a text put into a number column becomes a number
if it is written as one. Such a number is a whole one if it is written as digits alone and fits in
64 bits with its sign, or if its value is whole and within the bounds of those. What reads a cell
has to be ready for any kind of value.
-/

namespace MailBridge

def maxSigned : Nat := 9223372036854775807

inductive Cell where
  | null
  | integer (n : Int)
  /-- A number that is not whole or has no room as a whole one, in units of the last place. -/
  | real (units : Int)
  | text (s : String)
deriving DecidableEq

/-- What a column leans to. -/
inductive Affinity where
  | text
  | integer
deriving DecidableEq

namespace Cell

/-- The cell of a number in units of the last place. -/
def ofUnits (units : Int) : Cell :=
  let n := units / FloatFormat.double.one
  if units % FloatFormat.double.one = 0 ∧ -(maxSigned : Int) ≤ n ∧ n ≤ maxSigned then integer n
  else real units

/-- The cell of a numeral: a whole number if it is written as one that has room. -/
def ofNumeral (n : Numeral) : Cell :=
  if n.isPlain ∧ -(maxSigned + 1 : Nat) ≤ n.integer ∧ n.integer ≤ maxSigned then integer n.integer
  else ofUnits n.units

/-- What becomes of a value in a column. -/
def settle (cell : Cell) (affinity : Affinity) : Cell :=
  match affinity, cell with
  | .text, integer n => text (toString n)
  | .integer, text s => match Numeral.read? s with
    | some n => ofNumeral n
    | none => text s
  | _, cell => cell

/-- The units of the number in a cell. -/
def units? : Cell → Option Int
  | integer n => some (n * FloatFormat.double.one)
  | real units => some units
  | _ => none

/-- Whether two cells hold the same value. -/
def agrees (a b : Cell) : Bool := a == b || (a.units?.isSome && a.units? == b.units?)

/-- The cell of a text that may be absent. -/
def ofText? : Option String → Cell
  | some s => text s
  | none => null

/-- The cell of a number, or of the largest one that a cell can hold. -/
def ofNat (n : Nat) : Cell := integer (min n maxSigned : Nat)

def readText : Cell → Option String
  | text s => some s
  | _ => none

def readText? : Cell → Option (Option String)
  | text s => some (some s)
  | null => some none
  | _ => none

def readInteger : Cell → Option Int
  | integer n => some n
  | _ => none

def readWord : Cell → Option Nat
  | integer n => if 0 ≤ n ∧ n ≤ 4294967295 then some n.toNat else none
  | _ => none

/-- Reads a truth value: any number but zero is true. -/
def readBool : Cell → Option Bool
  | integer n => some (decide (n ≠ 0))
  | _ => none

end Cell

end MailBridge

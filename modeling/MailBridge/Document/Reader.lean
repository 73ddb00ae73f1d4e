import MailBridge.Document
import MailBridge.FloatFormat

/-! # Reading documents

A document is written in JSON. Of two values with one name in an object the later one counts. A
character beyond the first 65536 may be written as two escapes, each with one half of it, but no
half stands alone. No number is too large to be kept in 64 bits with a floating point. Values are
nested at most 127 deep.
-/

namespace MailBridge.Document

/-- Whether a character is a blank between the parts of a document. -/
def isGap (c : Char) : Bool := c == ' ' || c == '\n' || c == '\t' || c == '\r'

/-- What follows the blanks in front. -/
def skipGaps (cs : List Char) : List Char := cs.dropWhile isGap

def hexDigit? (c : Char) : Option Nat :=
  if '0' ≤ c ∧ c ≤ '9' then some (c.toNat - '0'.toNat)
  else if 'a' ≤ c ∧ c ≤ 'f' then some (c.toNat - 'a'.toNat + 10)
  else if 'A' ≤ c ∧ c ≤ 'F' then some (c.toNat - 'A'.toNat + 10)
  else none

/-- The value of hexadecimal digits. -/
def hexValue? (cs : List Char) : Option Nat :=
  cs.foldlM (fun n c => (hexDigit? c).map (16 * n + ·)) 0

/-- The character of an escape of one letter. -/
def escaped? : Char → Option Nat
  | '"' => some 0x22
  | '\\' => some 0x5C
  | '/' => some 0x2F
  | 'b' => some 0x08
  | 'f' => some 0x0C
  | 'n' => some 0x0A
  | 'r' => some 0x0D
  | 't' => some 0x09
  | _ => none

/-- Reads a text up to the quote that ends it, as the numbers of its characters and of the halves
of characters in it. -/
def units? : List Char → Option (List Nat × List Char)
  | '"' :: rest => some ([], rest)
  | '\\' :: 'u' :: a :: b :: c :: d :: rest => do
    let unit ← hexValue? [a, b, c, d]
    let (units, rest) ← units? rest
    return (unit :: units, rest)
  | '\\' :: c :: rest => do
    let unit ← escaped? c
    let (units, rest) ← units? rest
    return (unit :: units, rest)
  | c :: rest => do
    if c.toNat < 0x20 then none
    else
      let (units, rest) ← units? rest
      return (c.toNat :: units, rest)
  | [] => none

/-- Joins the halves of characters. -/
def join? : List Nat → Option (List Char)
  | [] => some []
  | [unit] => if 0xD800 ≤ unit ∧ unit < 0xE000 then none else some [Char.ofNat unit]
  | unit :: next :: rest =>
    if 0xD800 ≤ unit ∧ unit < 0xDC00 then
      if 0xDC00 ≤ next ∧ next < 0xE000 then
        (join? rest).map (Char.ofNat (0x10000 + (unit - 0xD800) * 0x400 + (next - 0xDC00)) :: ·)
      else none
    else if 0xDC00 ≤ unit ∧ unit < 0xE000 then none
    else (join? (next :: rest)).map (Char.ofNat unit :: ·)

/-- Reads a text, after the quote that begins it. -/
def quoted? (cs : List Char) : Option (String × List Char) := do
  let (units, rest) ← units? cs
  return (String.ofList (← join? units), rest)

/-- Reads digits, of which there has to be one. -/
def digits? (cs : List Char) : Option (List Char × List Char) :=
  let digits := cs.takeWhile Text.isDigit
  if digits.isEmpty then none else some (digits, cs.dropWhile Text.isDigit)

/-- Reads the digits of the fraction of a number, which may be left out. -/
def fraction? : List Char → Option (List Char × List Char)
  | '.' :: rest => digits? rest
  | cs => some ([], cs)

/-- Reads the exponent of a number, if there is one. -/
def exponent? : List Char → Option (Option Int × List Char)
  | 'e' :: '-' :: rest | 'E' :: '-' :: rest => do
    let (digits, rest) ← digits? rest
    return (some (-(Text.decimalValue digits : Int)), rest)
  | 'e' :: '+' :: rest | 'E' :: '+' :: rest | 'e' :: rest | 'E' :: rest => do
    let (digits, rest) ← digits? rest
    return (some (Text.decimalValue digits), rest)
  | cs => some (none, cs)

/-- Whether there is room for a digit after a number in 64 bits. -/
def hasRoom (n digit : Nat) : Bool := 10 * n + digit ≤ maxLong

/-- Whether a number times a power of ten is too large for a number with a floating point. Both
factors are rounded to such numbers first. -/
def isTooLarge (n : Nat) (exponent : Int) : Bool :=
  if exponent < 0 then false
  else if 308 < exponent then n != 0
  else
    let f := FloatFormat.double
    f.mul (f.ofNat n) (f.ofNat (Nat.pow 10 exponent.toNat)) == f.bound

/-- Reads a number without a sign. A number with a fraction or an exponent is not taken for a
whole one. Of a number that is not whole only the digits that fit in 64 bits count, and it may not
be too large. -/
def unsigned? (negative : Bool) (cs : List Char) : Option (Document × List Char) := do
  let (whole, rest) ← digits? cs
  if whole.head? == some '0' && whole.length != 1 then none
  else
    let (fraction, rest) ← fraction? rest
    let (given, rest) ← exponent? rest
    let (n, surplus) := Text.appendDigits hasRoom 0 whole
    let (n, unused) := Text.appendDigits hasRoom n fraction
    let exponent := given.getD 0 + surplus - (fraction.length - unused : Nat)
    if fraction.isEmpty && given.isNone && surplus == 0 &&
        (!negative || (0 < n && n ≤ 9223372036854775808)) then
      return (number (if negative then -(n : Int) else n), rest)
    else if isTooLarge n exponent then none
    else return (otherNumber, rest)

/-- Reads a word or a number. -/
def plain? : List Char → Option (Document × List Char)
  | 'n' :: 'u' :: 'l' :: 'l' :: rest => some (null, rest)
  | 't' :: 'r' :: 'u' :: 'e' :: rest => some (bool true, rest)
  | 'f' :: 'a' :: 'l' :: 's' :: 'e' :: rest => some (bool false, rest)
  | '-' :: rest => unsigned? true rest
  | cs => unsigned? false cs

/-- Reads the items of a list, at most as many as the given number. -/
def items? (value? : List Char → Option (Document × List Char)) :
    Nat → List Char → Option (List Document × List Char)
  | 0, _ => none
  | most + 1, cs => do
    let (item, rest) ← value? cs
    match skipGaps rest with
    | ',' :: rest =>
      let (items, rest) ← items? value? most rest
      return (item :: items, rest)
    | ']' :: rest => return ([item], rest)
    | _ => none

/-- Adds a named value, unless there is one with its name. -/
def addEntry (entry : String × Document) (entries : List (String × Document)) :
    List (String × Document) :=
  if (entries.lookup entry.1).isSome then entries else entry :: entries

/-- Reads the named values of an object, at most as many as the given number. -/
def entries? (value? : List Char → Option (Document × List Char)) :
    Nat → List Char → Option (List (String × Document) × List Char)
  | 0, _ => none
  | most + 1, cs =>
    match skipGaps cs with
    | '"' :: rest => do
      let (name, rest) ← quoted? rest
      match skipGaps rest with
      | ':' :: rest =>
        let (value, rest) ← value? rest
        match skipGaps rest with
        | ',' :: rest =>
          let (entries, rest) ← entries? value? most rest
          return (addEntry (name, value) entries, rest)
        | '\x7d' :: rest => return ([(name, value)], rest)
        | _ => none
      | _ => none
    | _ => none

/-- Reads a value, nested at most as deep as the given number, and gives what follows it. -/
def value? : Nat → List Char → Option (Document × List Char)
  | 0, cs =>
    match skipGaps cs with
    | '"' :: rest => (quoted? rest).map fun (s, rest) => (text s, rest)
    | cs => plain? cs
  | depth + 1, cs =>
    match skipGaps cs with
    | '"' :: rest => (quoted? rest).map fun (s, rest) => (text s, rest)
    | '[' :: rest =>
      match skipGaps rest with
      | ']' :: rest => some (list [], rest)
      | rest => (items? (value? depth) rest.length rest).map fun (items, rest) => (list items, rest)
    | '\x7b' :: rest =>
      match skipGaps rest with
      | '\x7d' :: rest => some (object [], rest)
      | rest =>
        (entries? (value? depth) rest.length rest).map fun (entries, rest) => (object entries, rest)
    | cs => plain? cs

def read? (s : String) : Option Document := do
  let (value, rest) ← value? 127 s.toList
  if (skipGaps rest).isEmpty then some value else none

end MailBridge.Document

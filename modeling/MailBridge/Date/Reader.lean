import MailBridge.Date

/-! # Reading dates

Dates are written as RFC 3339 says, with a blank or a small letter t allowed between day and
time, and a small letter z for universal time. Places of a fraction beyond the ninth are read
over. The sign of a distance may be the minus sign of mathematics.
-/

namespace MailBridge.Date

/-- Reads over one of the given characters. -/
def oneOf? (allowed : List Char) : List Char → Option (List Char)
  | c :: rest => if c ∈ allowed then some rest else none
  | [] => none

/-- Reads the fraction of a second, if there is one, in nanoseconds. -/
def fraction? (cs : List Char) : Option (Nat × List Char) :=
  match cs with
  | '.' :: rest =>
    let digits := rest.takeWhile Text.isDigit
    if digits.isEmpty then none
    else
      let kept := digits.take 9
      some (Text.decimalValue kept * Nat.pow 10 (9 - kept.length), rest.dropWhile Text.isDigit)
  | _ => some (0, cs)

/-- Reads the distance from universal time, in minutes. -/
def offset? (cs : List Char) : Option (Int × List Char) :=
  match cs with
  | [] => none
  | sign :: rest =>
    if sign = 'Z' ∨ sign = 'z' then some (0, rest)
    else do
      let direction : Int ←
        if sign = '+' then some 1
        else if sign = '-' ∨ sign = '−' then some (-1)
        else none
      let (hours, rest) ← Text.fixedDecimal? 2 rest
      let rest ← oneOf? [':'] rest
      let (minutes, rest) ← Text.fixedDecimal? 2 rest
      if minutes ≤ 59 then some (direction * (hours * 60 + minutes : Nat), rest) else none

/-- Reads a date with nothing after it. -/
def read? (s : String) : Option Date := do
  let (year, rest) ← Text.fixedDecimal? 4 s.toList
  let rest ← oneOf? ['-'] rest
  let (month, rest) ← Text.fixedDecimal? 2 rest
  let rest ← oneOf? ['-'] rest
  let (day, rest) ← Text.fixedDecimal? 2 rest
  let rest ← oneOf? ['T', 't', ' '] rest
  let (hour, rest) ← Text.fixedDecimal? 2 rest
  let rest ← oneOf? [':'] rest
  let (minute, rest) ← Text.fixedDecimal? 2 rest
  let rest ← oneOf? [':'] rest
  let (second, rest) ← Text.fixedDecimal? 2 rest
  let (nanosecond, rest) ← fraction? rest
  let (offset, rest) ← offset? rest
  let date : Date := ⟨year, month, day, hour, minute, second, nanosecond, offset⟩
  if rest.isEmpty && date.isValid then some date else none

end MailBridge.Date

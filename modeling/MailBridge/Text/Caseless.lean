/-! # Comparison without regard to case

Names of the mail grammar are compared without regard to the case of the letters A to Z. Every
other character stands for itself.
-/

namespace MailBridge.Text

/-- The small letter of a letter from A to Z; any other character itself. -/
def lowerLetter (c : Char) : Char :=
  if 'A' ≤ c ∧ c ≤ 'Z' then Char.ofNat (c.toNat + 32) else c

/-- The text with the letters from A to Z made small. -/
def lower (s : String) : String := String.ofList (s.toList.map lowerLetter)

/-- Whether two texts differ at most in the case of letters from A to Z. -/
def sameLetters (s t : String) : Bool := lower s == lower t

end MailBridge.Text

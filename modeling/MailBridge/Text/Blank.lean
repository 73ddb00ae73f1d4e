/-! # Blank characters

The Unicode property White_Space, and the two operations that depend on it: cutting blanks off
the ends of a text, and splitting a text into the words between blanks.
-/

namespace MailBridge.Text

/-- The characters with the Unicode property White_Space. -/
def isBlank (c : Char) : Bool :=
  let n := c.toNat
  (0x09 ≤ n && n ≤ 0x0D) || n == 0x20 || n == 0x85 || n == 0xA0 || n == 0x1680 ||
    (0x2000 ≤ n && n ≤ 0x200A) || n == 0x2028 || n == 0x2029 || n == 0x202F || n == 0x205F ||
    n == 0x3000

/-- The text without the blanks at its two ends. -/
def trim (s : String) : String :=
  let front := s.toList.dropWhile isBlank
  String.ofList (front.reverse.dropWhile isBlank).reverse

/-- The maximal runs of characters that are not blank; `word` is the run read so far, reversed. -/
def splitBlanks (word : List Char) : List Char → List (List Char)
  | [] => if word.isEmpty then [] else [word.reverse]
  | c :: rest =>
    if isBlank c then
      if word.isEmpty then splitBlanks [] rest else word.reverse :: splitBlanks [] rest
    else splitBlanks (c :: word) rest

/-- The words of a text: its maximal runs of characters that are not blank. -/
def words (s : String) : List String := (splitBlanks [] s.toList).map String.ofList

end MailBridge.Text

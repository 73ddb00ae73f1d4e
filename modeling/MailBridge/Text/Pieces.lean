/-! # Pieces between separators

A text is cut at every separator, so that there is always one piece more than there are
separators.
-/

namespace MailBridge.Text

/-- The pieces of a text between the separators; `piece` is what has been read of the present
one, reversed. -/
def piecesFrom (separator : Char) (piece : List Char) : List Char → List (List Char)
  | [] => [piece.reverse]
  | c :: rest =>
    if c = separator then piece.reverse :: piecesFrom separator [] rest
    else piecesFrom separator (c :: piece) rest

/-- The pieces of a text between the separators. -/
def pieces (separator : Char) (cs : List Char) : List (List Char) := piecesFrom separator [] cs

end MailBridge.Text

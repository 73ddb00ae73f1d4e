import MailBridge.Flag
import MailBridge.Ordered.Set

/-! # Sets of flags

The flags of a message, their written form with a blank between flags, and the three ways in
which a client changes them.
-/

namespace MailBridge

abbrev Flags := OrderedSet Flag

/-- The way a set of flags changes another. -/
inductive StoreMode where
  /-- The given flags are added. -/
  | add
  /-- The given flags are taken away. -/
  | remove
  /-- The given flags take the place of all others. -/
  | replace
deriving DecidableEq

namespace Flags

/-- Reads the words of a text as flags that stand as written. A word that names no system flag
although it starts with a backslash is left out. -/
def ofAtoms (s : String) : Flags := .ofList ((Text.words s).filterMap Flag.ofAtom?)

/-- Reads the words of a text as flags that a person wrote. A word that names no system flag
although it starts with a backslash is left out. -/
def ofText (s : String) : Flags :=
  .ofList (((Text.words s).map Flag.ofText).filter fun
    | .keyword t => t.toList.head? != some '\\'
    | _ => true)

/-- The written form: the flags in their order, with a blank between two. -/
def text (flags : Flags) : String := " ".intercalate (flags.toList.map Flag.text)

/-- The flags without the one that only the server sets. -/
def withoutRecent (flags : Flags) : Flags := OrderedSet.erase .recent flags

def isSeen (flags : Flags) : Bool := decide (Flag.seen ∈ flags)

def isDeleted (flags : Flags) : Bool := decide (Flag.deleted ∈ flags)

def isRecent (flags : Flags) : Bool := decide (Flag.recent ∈ flags)

/-- Changes flags by others. Replacing keeps the mark of a recent message, which is the
server's own. -/
def apply (mode : StoreMode) (delta flags : Flags) : Flags :=
  match mode with
  | .add => flags.union delta
  | .remove => flags.filter (· ∉ delta)
  | .replace => if flags.isRecent then OrderedSet.insert .recent delta else delta

end Flags

end MailBridge

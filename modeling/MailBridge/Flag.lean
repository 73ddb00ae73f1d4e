import MailBridge.Ordered.Key
import MailBridge.Text.Blank
import MailBridge.Text.Caseless

/-! # Message flags

A flag is one of six system flags, which are written with a leading backslash, or a keyword,
which is any other text. The system flags come first in the order of flags, then the keywords
by code point.
-/

namespace MailBridge

inductive Flag where
  /-- The message has been read. -/
  | seen
  /-- The message has been answered. -/
  | answered
  /-- The message is marked for attention. -/
  | flagged
  /-- The message is marked for removal. -/
  | deleted
  /-- The message is not complete. -/
  | draft
  /-- The message arrived since a session last selected the mailbox. Only the server sets it. -/
  | recent
  /-- Any other mark. -/
  | keyword (text : String)
deriving DecidableEq

namespace Flag

/-- The keyword of a message whose content could not be decrypted. -/
def undecryptable : Flag := .keyword "$Undecryptable"

def isKeyword : Flag → Bool
  | .keyword _ => true
  | _ => false

/-- The system flag of a name, in any case of letters. -/
def system? (name : String) : Option Flag :=
  [("seen", seen), ("answered", answered), ("flagged", flagged), ("deleted", deleted),
    ("draft", draft), ("recent", recent)].find? (fun entry => Text.sameLetters name entry.1)
    |>.map (·.2)

/-- Reads a flag as it stands: a leading backslash makes a system flag, of which only six
exist; anything else is a keyword. -/
def ofAtom? (s : String) : Option Flag :=
  match s.toList with
  | '\\' :: name => system? (String.ofList name)
  | _ => some (.keyword s)

/-- Reads a flag as a person writes it: blanks around it do not count, and a system flag needs
no backslash. -/
def ofText (s : String) : Flag :=
  let atom := Text.trim s
  let name := match atom.toList with
    | '\\' :: rest => String.ofList rest
    | _ => atom
  (system? name).getD (.keyword atom)

def text : Flag → String
  | seen => "\\Seen"
  | answered => "\\Answered"
  | flagged => "\\Flagged"
  | deleted => "\\Deleted"
  | draft => "\\Draft"
  | recent => "\\Recent"
  | keyword s => s

/-- The place of a flag among the kinds of flag. -/
def rank : Flag → Nat
  | seen => 0
  | answered => 1
  | flagged => 2
  | deleted => 3
  | draft => 4
  | recent => 5
  | keyword _ => 6

/-- The text that tells keywords apart. -/
def keywordText : Flag → String
  | keyword s => s
  | _ => ""

theorem ext_rank {f g : Flag} (hr : f.rank = g.rank) (ht : f.keywordText = g.keywordText) :
    f = g := by
  cases f <;> cases g <;> simp_all [rank, keywordText]

instance : KeyOrder Flag where
  lt f g := f.rank < g.rank ∨ (f.rank = g.rank ∧ f.keywordText < g.keywordText)
  decidableLt f g :=
    inferInstanceAs
      (Decidable (f.rank < g.rank ∨ (f.rank = g.rank ∧ f.keywordText < g.keywordText)))
  irrefl f h := h.elim (Nat.lt_irrefl _) fun h => String.lt_irrefl _ h.2
  trans := by
    rintro f g h (hfg | ⟨hfg, tfg⟩) (hgh | ⟨hgh, tgh⟩)
    · exact .inl (Nat.lt_trans hfg hgh)
    · exact .inl (hgh ▸ hfg)
    · exact .inl (hfg ▸ hgh)
    · exact .inr ⟨hfg.trans hgh, String.lt_trans tfg tgh⟩
  connected f g := by
    rcases Nat.lt_trichotomy f.rank g.rank with h | h | h
    · exact .inl (.inl h)
    · rcases KeyOrder.connected f.keywordText g.keywordText with t | t | t
      · exact .inl (.inr ⟨h, t⟩)
      · exact .inr (.inl (ext_rank h t))
      · exact .inr (.inr (.inr ⟨h.symm, t⟩))
    · exact .inr (.inr (.inl h))

end Flag

end MailBridge

import MailBridge.Identifier

/-! # Tallies

What a batch of events or a full listing did to a mailbox, in numbers.
-/

namespace MailBridge

/-- What was done to a mailbox. -/
structure Tally where
  created : Nat := 0
  updated : Nat := 0
  removed : Nat := 0
  /-- What concerned unknown messages, or was not permitted. -/
  skipped : Nat := 0
  /-- The messages expunged at once, because no session had to be told. -/
  expunged : List Uid := []
  /-- All messages were listed. -/
  resynced : Bool := false
  /-- All UIDs were voided. -/
  invalidated : Bool := false
deriving DecidableEq

namespace Tally

def isEmpty (t : Tally) : Bool :=
  t.created == 0 && t.updated == 0 && t.removed == 0 && t.expunged.isEmpty && !t.invalidated

def text (t : Tally) : String :=
  s!"{t.created} created, {t.updated} updated, {t.removed} removed, {t.skipped} skipped, " ++
    s!"{t.expunged.length} expunged" ++
    (if t.invalidated then " (invalidated)" else if t.resynced then " (resynced)" else "")

end Tally

end MailBridge

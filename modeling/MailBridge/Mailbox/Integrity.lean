import MailBridge.Mailbox
import MailBridge.Mailbox.Error

/-! # Integrity of a mailbox

The identities of a mailbox are sound if no UID is assigned twice, the next UID to issue is above
all that are assigned, and the index names every message. Stored data may be damaged, so this is
checked and not taken for granted.
-/

namespace MailBridge.Mailbox

/-- The first thing that is wrong with the identities of the mailbox. -/
def desync? (m : Mailbox) : Option Desync :=
  match m.store.duplicateUid? with
  | some uid => some (.duplicateUid uid)
  | none =>
    match m.store.greatestUid?, m.uids.next? with
    | some greatest, some next =>
      if next.val ≤ greatest.val then some (.uidNextRegression greatest)
      else if m.store.isIndexed then none else some .brokenIndex
    | _, _ => if m.store.isIndexed then none else some .brokenIndex

/-- Fails if something is wrong with the identities of the mailbox. -/
def checkIntegrity (m : Mailbox) : Except MailboxError Unit :=
  match m.desync? with
  | some d => .error (.desync m.name d)
  | none => .ok ()

end MailBridge.Mailbox

import MailBridge.Identifier
import MailBridge.Ordered.Set

/-! # Changes that are not saved yet -/

namespace MailBridge

/-- What has changed in a mailbox since it was last saved. -/
structure Unsaved where
  /-- The mailbox itself has changed. -/
  mailbox : Bool := false
  /-- All messages have been dropped. -/
  reset : Bool := false
  /-- Messages that have come or changed. -/
  written : OrderedSet Uid := ∅
  /-- Messages that have gone. -/
  removed : OrderedSet Uid := ∅
deriving DecidableEq

namespace Unsaved

def isEmpty (u : Unsaved) : Bool :=
  !u.mailbox && !u.reset && u.written.isEmpty && u.removed.isEmpty

/-- A message has come or changed. -/
def mark (uid : Uid) (u : Unsaved) : Unsaved :=
  { u with mailbox := true, written := u.written.insert uid }

/-- A message has gone. -/
def drop (uid : Uid) (u : Unsaved) : Unsaved :=
  { u with
    mailbox := true, written := u.written.erase uid, removed := u.removed.insert uid }

end Unsaved

end MailBridge

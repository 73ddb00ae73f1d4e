import MailBridge.Cache.Codec
import MailBridge.Mailbox.Operation

/-! # Shared mailboxes

A mailbox is shared by sessions and by synchronization. A change of it is kept only if it
succeeds and its effects are saved; otherwise the mailbox is as it was before.
-/

namespace MailBridge

/-- A mailbox with the cache it is saved in, if any, and the number of sessions that have it
selected. -/
structure SharedMailbox where
  mailbox : Mailbox
  cache? : Option Cache := none
  sessions : Nat := 0

namespace SharedMailbox

/-- Saves what has changed, if there is a cache and anything has changed. -/
def save (unsaved : Unsaved) (s : SharedMailbox) : Except CacheError SharedMailbox :=
  match s.cache? with
  | none => .ok s
  | some cache =>
    if unsaved.isEmpty then .ok s
    else (cache.save s.mailbox unsaved).map fun cache => { s with cache? := some cache }

/-- Ends a change that has left the given mailbox: keeps it if it succeeded and is saved. -/
def conclude {α : Type} (result : Except MailboxError α) (m : Mailbox) (s : SharedMailbox) :
    Except MailboxError α × SharedMailbox :=
  match result with
  | .error e => (.error e, { s with mailbox := m.rollback })
  | .ok a =>
    let (unsaved, m) := m.commit.takeUnsaved
    match save unsaved { s with mailbox := m } with
    | .error e => (.error (.notPersisted e m.name), { s with mailbox := m.rollback })
    | .ok s => (.ok a, { s with mailbox := m.keepChanges })

/-- Changes the mailbox. -/
def mutate {α : Type} (f : Mailbox → Except MailboxError α × Mailbox) (s : SharedMailbox) :
    Except MailboxError α × SharedMailbox :=
  let (result, m) := f s.mailbox.startJournal
  s.conclude result m

/-- Changes the mailbox by something that does not fail by itself. -/
def modify {α : Type} (f : Mailbox → α × Mailbox) (s : SharedMailbox) :
    Except MailboxError α × SharedMailbox :=
  s.mutate fun m => let (a, m) := f m; (.ok a, m)

def setFlags (now : Instant) (uid : Uid) (delta : Flags) (mode : StoreMode) (s : SharedMailbox) :
    Except MailboxError Message × SharedMailbox :=
  s.mutate fun m => m.setFlags now uid delta mode

def expunge (s : SharedMailbox) : Except MailboxError (List Uid) × SharedMailbox :=
  s.modify Mailbox.expunge

/-- Drops all messages and begins a new epoch. -/
def invalidate (now : Instant) (s : SharedMailbox) :
    Except MailboxError UidValidity × SharedMailbox :=
  s.modify fun m => m.invalidate now

end SharedMailbox

/-- A run of operations that was kept or taken back as a whole. -/
structure Transaction where
  entries : List Operation.Entry
  outcome : Except MailboxError Unit

namespace SharedMailbox

/-- Carries operations out up to the first that fails, as one change. -/
def transact (ops : List Operation) (now : Instant) (s : SharedMailbox) :
    Transaction × Instant × SharedMailbox :=
  let (entries, outcome, t) := Operation.runUntilError ops ⟨now, s.mailbox.startJournal⟩
  let (outcome, s) := s.conclude outcome t.mailbox
  (⟨entries, outcome⟩, t.now, s)

end SharedMailbox

end MailBridge

import MailBridge.Account.Command
import MailBridge.Sync.Worker

/-! # The bridge

The bridge stands between mail clients and a remote account. It holds the account, the sessions of
the clients, what the remote account will answer for each mailbox, and two clocks: the wall clock,
and the clock of delays, which goes on only while something waits. Beside the account it may have
mailboxes that stand alone: they are synchronized, but never saved, and no session sees them.
-/

namespace MailBridge

/-- The bridge with all that it talks to. -/
structure Bridge where
  account : Account
  clock : Instant
  elapsed : Nat := 0
  decryption? : Option Decryption := none
  /-- The mailboxes that stand alone. -/
  detached : OrderedMap String SharedMailbox := ∅
  /-- The mailboxes of the account that are in use. -/
  inUse : OrderedSet String := ∅
  sessions : OrderedMap String Session := ∅
  remotes : OrderedMap String RemoteScript := ∅

/-- What came of synchronizing a mailbox: the answer, what was asked, and what was reported. -/
structure SyncRecord (α : Type) where
  answer : Except Halt α
  calls : List Call
  notices : List Notice

namespace Bridge

/-- Saves a mailbox in the cache, if there is one, as far as the cache takes it. -/
def seed (m : Mailbox) (b : Bridge) : Bridge :=
  let cache? := b.account.cache?.map fun cache => (cache.saveWhole m).toOption.getD cache
  { b with account := { b.account with cache? } }

/-- Adds a mailbox that stands alone. -/
def detach (m : Mailbox) (b : Bridge) : Bridge :=
  { b with detached := b.detached.insert m.name { mailbox := m } }

/-- Opens the account anew. The saved mailboxes stay as they are; all else is forgotten. -/
def restart (b : Bridge) : Bridge :=
  { b with
    account := { settings := b.account.settings, cache? := b.account.cache? }
    inUse := ∅, sessions := ∅, remotes := ∅ }

/-! ## Mailboxes -/

/-- Does something with a mailbox, which is opened if need be. -/
def withMailbox {α : Type} (name : String) (f : SharedMailbox → α × SharedMailbox) (b : Bridge) :
    Except AccountError α × Bridge :=
  match b.detached.get? name with
  | some m =>
    let (a, m) := f m
    (.ok a, { b with detached := b.detached.insert name m })
  | none =>
    match b.account.openMailbox b.clock name with
    | (.error e, account) => (.error e, { b with account })
    | (.ok m, account) =>
      let (a, m) := f m
      (.ok a, { b with account := account.put name m, inUse := b.inUse.insert name })

/-- Carries operations on a mailbox out as one change. -/
def transact (name : String) (ops : List Operation) (b : Bridge) :
    Except AccountError Transaction × Bridge :=
  let (result, b) := b.withMailbox name fun m =>
    let (transaction, clock, m) := m.transact ops b.clock
    ((transaction, clock), m)
  match result with
  | .error e => (.error e, b)
  | .ok (transaction, clock) => (.ok transaction, { b with clock })

/-- The mailboxes that stand alone or are in use, with the number of sessions that have them
selected, in ascending order of their names. -/
def overview (b : Bridge) : List (String × SharedMailbox) :=
  let inUse := b.inUse.toList.filterMap fun name =>
    (b.account.shared? name).map fun m => (name, m)
  (OrderedMap.ofList (inUse ++ b.detached.entries)).entries

/-! ## Synchronization -/

def remote (name : String) (b : Bridge) : RemoteScript :=
  (b.remotes.get? name).getD (.quiet b.clock)

/-- Changes what the remote account will answer for a mailbox, which is opened if need be. -/
def script (name : String) (f : RemoteScript → RemoteScript) (b : Bridge) :
    Except AccountError Unit × Bridge :=
  match b.withMailbox name fun m => ((), m) with
  | (.error e, b) => (.error e, b)
  | (.ok _, b) => (.ok (), { b with remotes := b.remotes.insert name (f (b.remote name)) })

/-- All that a round of synchronization of a mailbox reads and changes. -/
def site (name : String) (shared : SharedMailbox) (b : Bridge) : Site where
  shared := shared
  remote := b.remote name
  decryption? := b.decryption?
  settings := b.account.settings.sync
  clock := b.clock
  elapsed := b.elapsed

/-- Synchronizes a mailbox, which is opened if need be. -/
def synchronize {α : Type} (name : String) (f : Site → Except Halt α × Site) (b : Bridge) :
    Except AccountError (SyncRecord α) × Bridge :=
  let (result, b) := b.withMailbox name fun shared =>
    let (answer, site) := f (b.site name shared)
    ((answer, site), site.shared)
  match result with
  | .error e => (.error e, b)
  | .ok (answer, site) =>
    (.ok ⟨answer, site.calls, site.notices⟩,
      { b with
        remotes := b.remotes.insert name site.remote, clock := site.clock,
        elapsed := site.elapsed })

/-! ## Sessions -/

def session (client : String) (b : Bridge) : Session :=
  (b.sessions.get? client).getD .unauthenticated

def disconnect (client : String) (b : Bridge) : Bool × Bridge :=
  (b.sessions.contains client,
    { b with
      account := b.account.release (b.session client), sessions := b.sessions.erase client })

def connect (client : String) (s : Session) (b : Bridge) : Bridge :=
  let b := (b.disconnect client).2
  { b with sessions := b.sessions.insert client s }

/-- The mailbox that is in use once a command has succeeded. -/
def usedBy? : Command → Option String
  | .select name _ | .status name => some name
  | _ => none

/-- Carries a command of a client out. -/
def serve (client : String) (command : Command) (b : Bridge) :
    Except SessionError Response × Bridge :=
  let (result, s, account) := b.account.serve b.clock command (b.session client)
  let inUse := match result, usedBy? command with
    | .ok _, some name => b.inUse.insert name
    | _, _ => b.inUse
  (result, { b with account, inUse, sessions := b.sessions.insert client s })

end Bridge

end MailBridge

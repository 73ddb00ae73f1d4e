import MailBridge.Remote.Script
import MailBridge.Settings
import MailBridge.SharedMailbox
import MailBridge.Sync.Notice

/-! # Where synchronization takes place

A site is all that a round of synchronization reads and changes: the mailbox, the remote account,
the clocks, and the record of what was asked and reported. Asking the remote account may take
time, in which others change the mailbox, and may be cut off by a deadline.
-/

namespace MailBridge

/-- Why a round of synchronization failed. -/
inductive SyncError where
  /-- The remote account did not answer. -/
  | unreachable (reason mailbox : String)
  /-- The remote account did not answer in time. -/
  | timedOut (mailbox : String)
  | mailbox (cause : MailboxError)
deriving DecidableEq

namespace SyncError

/-- Whether another attempt may succeed. -/
def isTransient : SyncError → Bool
  | unreachable .. | timedOut _ => true
  | mailbox _ => false

def message : SyncError → String
  | unreachable _ name => s!"cannot reach remote account for mailbox {name}"
  | timedOut name => s!"cannot reach remote account for mailbox {name}: request timed out"
  | mailbox cause => cause.message

end SyncError

/-- Why a round of synchronization did not come to its end. -/
inductive Halt where
  | failed (cause : SyncError)
  /-- The deadline passed. -/
  | interrupted
deriving DecidableEq

/-- Something asked of a collaborator, or done by others meanwhile. -/
inductive Call where
  | fetch (elapsed : Nat) (mailbox : String) (cursor : Option String)
  | list (elapsed : Nat) (mailbox : String)
  | decrypt (id : RemoteId)
  | interference (transaction : Transaction)

/-- All that a round of synchronization reads and changes. -/
structure Site where
  shared : SharedMailbox
  remote : RemoteScript
  decryption? : Option Decryption
  settings : SyncSettings
  clock : Instant
  /-- The milliseconds that have gone by on the clock of delays. -/
  elapsed : Nat
  /-- When a wait is cut off, on the clock of delays. -/
  deadline? : Option Nat := none
  calls : List Call := []
  notices : List Notice := []

namespace Site

def name (s : Site) : String := s.shared.mailbox.name

def report (notice : Notice) (s : Site) : Site := { s with notices := s.notices ++ [notice] }

def record (call : Call) (s : Site) : Site := { s with calls := s.calls ++ [call] }

def mutate {α : Type} (f : Mailbox → Except MailboxError α × Mailbox) (s : Site) :
    Except Halt α × Site :=
  match s.shared.mutate f with
  | (.ok a, shared) => (.ok a, { s with shared })
  | (.error e, shared) => (.error (.failed (.mailbox e)), { s with shared })

def interfere (ops : List Operation) (s : Site) : Site :=
  if ops.isEmpty then s
  else
    let (transaction, clock, shared) := s.shared.transact ops s.clock
    record (.interference transaction) { s with shared, clock }

/-- Waits some milliseconds, or until the deadline. -/
def wait (delay : Nat) (s : Site) : Except Halt Unit × Site :=
  let wake := s.elapsed + delay
  match s.deadline? with
  | some deadline =>
    if deadline < wake then (.error .interrupted, { s with elapsed := deadline })
    else (.ok (), { s with elapsed := wake })
  | none => (.ok (), { s with elapsed := wake })

/-- Receives an answer of the remote account after its delay. -/
def receive {α : Type} (d : Delivery α) (s : Site) : Except Halt α × Site :=
  match s.wait d.delay with
  | (.error halt, s) => (.error halt, s)
  | (.ok _, s) => (.ok d.answer, s.interfere d.meanwhile)

/-- Asks the remote account something. If it does not answer, this fails. -/
def ask {α : Type} (question : Site → Except Halt α × Site) (s : Site) : Except Halt α × Site :=
  let (answers, outages) := Outage.next s.remote.outages
  let s := { s with remote := { s.remote with outages } }
  if answers then question s
  else (.error (.failed (.unreachable RemoteScript.unreachable s.name)), s)

/-- Asks the remote account what has happened since a cursor. When it has no batch left, nothing
has. -/
def fetch (cursor : Option String) (s : Site) : Except Halt EventBatch × Site :=
  (s.record (.fetch s.elapsed s.name cursor)).ask fun s =>
    match s.remote.batches with
    | [] => (.ok { cursor }, s)
    | batch :: batches => receive batch { s with remote := { s.remote with batches } }

/-- Asks the remote account for all its messages. -/
def list (s : Site) : Except Halt Listing × Site :=
  (s.record (.list s.elapsed s.name)).ask fun s => s.receive s.remote.listing

/-- Decrypts the content of a message, while others may change the mailbox the first time. -/
def decrypt (d : Decryption) (id : RemoteId) (secret : String) (s : Site) :
    Except String Envelope × Site :=
  let s := s.record (.decrypt id)
  let ops := (s.remote.whileDecrypting.get? id).getD []
  let s := { s with
    remote := { s.remote with whileDecrypting := s.remote.whileDecrypting.erase id } }
  (d.decrypt id secret, s.interfere ops)

end Site

end MailBridge

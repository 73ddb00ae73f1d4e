import MailBridge.Mailbox.Integrity
import MailBridge.Mailbox.Update

/-! # Operations as data

What can be asked of a mailbox, written down as data, so that runs of operations can be given,
stopped at the first that fails, and spoken about.
-/

namespace MailBridge

/-- What can be asked of a mailbox, and of the clock beside it. -/
inductive Operation where
  | receive (content : MessageContent)
  | setFlags (uid : Uid) (delta : Flags) (mode : StoreMode)
  | mergeFlags (id : RemoteId) (flags : Flags) (taken : Instant)
  | markRemoved (id : RemoteId)
  | expunge
  | flushPending
  /-- Takes the mark of a recent message off messages with UIDs above the number. -/
  | clearRecentAbove (n : Nat)
  | raiseUidNext
  | commit
  | invalidate
  | setCursor (cursor : Option String)
  | takeUnsaved
  | checkIntegrity
  | get (uid : Uid)
  | find (id : RemoteId)
  | takeSnapshot
  /-- Asks for the mailbox as a whole. -/
  | inspect
  /-- Sets the clock. -/
  | setClock (now : Instant)
  /-- Gives the run of operations up. -/
  | abandon (what : String)
deriving DecidableEq

inductive Reply where
  | done
  | received (result : Receipt)
  | message (message : Message)
  | found (message? : Option Message)
  | merged (result : Option (Uid × Bool))
  | uid (uid? : Option Uid)
  | uids (uids : List Uid)
  | count (n : Nat)
  | validity (validity : UidValidity)
  | unsaved (unsaved : Unsaved)
  | sound
  | snapshot (snapshot : Snapshot)
  | mailbox (mailbox : Mailbox)

/-- The figures of a mailbox with the cursor and the messages that wait to be expunged. -/
structure Brief where
  summary : Summary
  cursor : Option String
  pending : OrderedSet Uid
deriving DecidableEq

namespace Mailbox

def brief (m : Mailbox) : Brief := ⟨m.summary, m.cursor, m.pending⟩

end Mailbox

/-- A mailbox beside a clock. -/
structure Timed where
  now : Instant
  mailbox : Mailbox

namespace Operation

/-- Carries an operation out. -/
def run (op : Operation) (t : Timed) : Except MailboxError Reply × Timed :=
  let m := t.mailbox
  match op with
  | receive content =>
    let (result, m) := m.receive content
    (result.map .received, { t with mailbox := m })
  | setFlags uid delta mode =>
    let (result, m) := m.setFlags t.now uid delta mode
    (result.map .message, { t with mailbox := m })
  | mergeFlags id flags taken =>
    let (result, m) := m.mergeFlags id flags taken
    (.ok (.merged result), { t with mailbox := m })
  | markRemoved id =>
    let (result, m) := m.markRemoved id
    (.ok (.uid result), { t with mailbox := m })
  | expunge =>
    let (result, m) := m.expunge
    (.ok (.uids result), { t with mailbox := m })
  | flushPending =>
    let (result, m) := m.flushPending
    (.ok (.uids result), { t with mailbox := m })
  | clearRecentAbove n =>
    let (result, m) := m.clearRecent fun uid => decide (n < uid.val)
    (.ok (.count result), { t with mailbox := m })
  | raiseUidNext => (.ok .done, { t with mailbox := m.raiseUidNext })
  | commit => (.ok .done, { t with mailbox := m.commit })
  | invalidate =>
    let (result, m) := m.invalidate t.now
    (.ok (.validity result), { t with mailbox := m })
  | setCursor cursor => (.ok .done, { t with mailbox := m.setCursor cursor })
  | takeUnsaved =>
    let (result, m) := m.takeUnsaved
    (.ok (.unsaved result), { t with mailbox := m })
  | checkIntegrity => (m.checkIntegrity.map fun _ => .sound, t)
  | get uid => (.ok (.found (m.get? uid)), t)
  | find id => (.ok (.found (m.store.getByRemoteId? id)), t)
  | takeSnapshot => (.ok (.snapshot m.snapshot), t)
  | inspect => (.ok (.mailbox m), t)
  | setClock now => (.ok .done, { t with now })
  | abandon what => (.error (.conflict m.name what), t)

/-- One operation of a run: its answer, and the figures of the mailbox after it. -/
structure Entry where
  result : Except MailboxError Reply
  after : Brief

/-- Carries operations out one after the other, whatever their answers. -/
def runAll : List Operation → Timed → List Entry × Timed
  | [], t => ([], t)
  | op :: rest, t =>
    let (result, t) := op.run t
    let (entries, t') := runAll rest t
    (⟨result, t.mailbox.brief⟩ :: entries, t')

/-- Carries operations out up to the first that fails. -/
def runUntilError : List Operation → Timed → List Entry × Except MailboxError Unit × Timed
  | [], t => ([], .ok (), t)
  | op :: rest, t =>
    match op.run t with
    | (.error e, t) => ([⟨.error e, t.mailbox.brief⟩], .error e, t)
    | (.ok reply, t) =>
      let (entries, outcome, t') := runUntilError rest t
      (⟨.ok reply, t.mailbox.brief⟩ :: entries, outcome, t')

end Operation

end MailBridge

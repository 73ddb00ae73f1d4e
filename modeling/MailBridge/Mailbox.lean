import MailBridge.Mailbox.Summary
import MailBridge.Mailbox.Unsaved
import MailBridge.Snapshot

/-! # Mailboxes

A mailbox holds messages under UIDs, the count of its changes, the place up to which the remote
account has been followed, and the messages that wait to be expunged until sessions can be told.
While a change that may still fail is under way, a journal keeps what the change touches, so that
it can be taken back.
-/

namespace MailBridge

/-- What a mailbox was like before the change that is under way. -/
structure Journal where
  uids : UidSpace
  modseq : ModSeq
  cursor : Option String
  pending : OrderedSet Uid
  summary? : Option Summary
  unsaved : Unsaved
  /-- The messages before they were first touched, nothing for those that did not exist. -/
  messages : OrderedMap Uid (Option Message) := ∅
  /-- All messages, if the change dropped them; messages touched later are not kept one by one. -/
  store? : Option MessageStore := none

structure Mailbox where
  name : String
  uids : UidSpace
  store : MessageStore := ∅
  modseq : ModSeq := .zero
  /-- The place up to which the remote account has been followed. -/
  cursor : Option String := none
  /-- Messages that the remote account has removed, waiting to be expunged. -/
  pending : OrderedSet Uid := ∅
  /-- The figures of the mailbox, absent while a change is under way. -/
  summary? : Option Summary := none
  unsaved : Unsaved := {}
  journal? : Option Journal := none

namespace Mailbox

/-- Computes the figures of the mailbox, unless they are known. -/
def commit (m : Mailbox) : Mailbox :=
  match m.summary? with
  | some _ => m
  | none => { m with summary? := some (.compute m.uids m.store m.modseq) }

/-- A mailbox that has never been saved. -/
def create (name : String) (now : Instant) : Mailbox :=
  commit { name, uids := .fresh now, unsaved := { mailbox := true } }

/-- A mailbox made of parts that were saved. Marks of messages that do not exist are dropped. -/
def ofSaved (name : String) (uids : UidSpace) (store : MessageStore) (modseq : ModSeq)
    (cursor : Option String) (pending : OrderedSet Uid) : Mailbox :=
  commit
    { name, uids, store, modseq, cursor
      pending := pending.filter fun uid => (store.get? uid).isSome }

def summary (m : Mailbox) : Summary :=
  m.summary?.getD (.compute m.uids m.store m.modseq)

def get? (m : Mailbox) (uid : Uid) : Option Message := m.store.get? uid

/-- The present messages as a frozen view. -/
def snapshot (m : Mailbox) : Snapshot :=
  ⟨m.uids.validity, m.modseq, m.store.messages.map SnapshotEntry.ofMessage⟩

/-! ## The journal -/

/-- Starts a change that may be taken back. -/
def startJournal (m : Mailbox) : Mailbox :=
  { m with
    journal? := some
      { uids := m.uids, modseq := m.modseq, cursor := m.cursor, pending := m.pending,
        summary? := m.summary?, unsaved := m.unsaved } }

def keepChanges (m : Mailbox) : Mailbox := { m with journal? := none }

/-- Puts one message back as it was. -/
def putBack (store : MessageStore) (entry : Uid × Option Message) : MessageStore :=
  match entry.2 with
  | some message => store.reinstate message
  | none => store.remove entry.1

def rollback (m : Mailbox) : Mailbox :=
  match m.journal? with
  | none => m
  | some j =>
    { name := m.name
      uids := j.uids
      store := j.messages.entries.foldl putBack (j.store?.getD m.store)
      modseq := j.modseq
      cursor := j.cursor
      pending := j.pending
      summary? := j.summary?
      unsaved := j.unsaved
      journal? := none }

/-- Keeps a message as it is before it is first touched. -/
def note (uid : Uid) (m : Mailbox) : Mailbox :=
  match m.journal? with
  | none => m
  | some j =>
    if j.store?.isSome then m
    else
      { m with
        journal? := some { j with messages := j.messages.insertIfNew uid (m.store.get? uid) } }

/-- Keeps messages that have just been taken out. -/
def noteRemoved (removed : List Message) (m : Mailbox) : Mailbox :=
  match m.journal? with
  | none => m
  | some j =>
    if j.store?.isSome then m
    else
      { m with
        journal? := some
          { j with
            messages :=
              removed.foldl (fun kept message => kept.insertIfNew message.uid (some message))
                j.messages } }

/-- Keeps all messages before they are dropped. -/
def noteStore (m : Mailbox) : Mailbox :=
  match m.journal? with
  | none => m
  | some j =>
    if j.store?.isSome then m else { m with journal? := some { j with store? := some m.store } }

/-- Counts a change; the figures have to be computed anew. -/
def advance (m : Mailbox) : Mailbox := { m with modseq := m.modseq.next, summary? := none }

/-- Notes that a message has to be saved. -/
def markUnsaved (uid : Uid) (m : Mailbox) : Mailbox := { m with unsaved := m.unsaved.mark uid }

end Mailbox

end MailBridge

import MailBridge.Mailbox
import MailBridge.Mailbox.Error

/-! # Changes of a mailbox

Each change gives its outcome together with the mailbox it leaves, also when it fails: what a
failed change has done so far is taken back by the journal, not by the change itself.
-/

namespace MailBridge

/-- What became of the content of a message. -/
structure Receipt where
  uid : Uid
  /-- The message was not known before. -/
  created : Bool
deriving DecidableEq

namespace Mailbox

/-- Puts a changed message in place of the one with its UID, as the next change of the mailbox. -/
def change (message : Message) (m : Mailbox) : Mailbox :=
  let m := m.note message.uid
  advance { m with store := m.store.update message }

/-- Takes content in: as a new message if its remote name is unknown, or else to refresh all but
the flags of the message with that name. -/
def receive (content : MessageContent) (m : Mailbox) : Except MailboxError Receipt × Mailbox :=
  match m.store.uidOf? content.remoteId with
  | some uid =>
    match m.store.get? uid with
    | none => (.error (.desync m.name .brokenIndex), m)
    | some message =>
      if message.isRefreshedBy content then
        (.ok ⟨uid, false⟩, (m.change (message.refresh content m.modseq.next)).markUnsaved uid)
      else (.ok ⟨uid, false⟩, m)
  | none =>
    match m.uids.issue? with
    | none => (.error .uidsExhausted, m)
    | some (uid, uids) =>
      let m := (advance { m with uids }).note uid
      match m.store.append? (.arrive content uid m.modseq) with
      | none => (.error (.desync m.name (.uidNextRegression uid)), m)
      | some store => (.ok ⟨uid, true⟩, markUnsaved uid { m with store })

/-- Changes the flags of a message as a client asks. The mark of a recent message is the server's
and stays. Every flag that comes or goes counts as changed locally now. -/
def setFlags (now : Instant) (uid : Uid) (delta : Flags) (mode : StoreMode) (m : Mailbox) :
    Except MailboxError Message × Mailbox :=
  match m.store.get? uid with
  | none => (.error (.uidNotFound m.name uid), m)
  | some message =>
    let flags := Flags.apply mode (Flags.withoutRecent delta) message.flags
    if flags = message.flags then (.ok message, m)
    else
      let changed := OrderedSet.symmDiff message.flags flags
      let localChanges :=
        changed.toList.foldl (fun changes flag => changes.insert flag now) message.localChanges
      let message := { message with flags, localChanges, modseq := m.modseq.next }
      (.ok message, (m.change message).markUnsaved uid)

/-- Merges the flags that a message had on the remote account at the given time. Gives the UID of
the message, and whether its flags changed. -/
def mergeFlags (id : RemoteId) (remote : Flags) (taken : Instant) (m : Mailbox) :
    Option (Uid × Bool) × Mailbox :=
  match m.store.uidOf? id with
  | none => (none, m)
  | some uid =>
    match m.store.get? uid with
    | none => (none, m)
    | some message =>
      let merged := Flags.merge message.flags message.localChanges remote taken
      let merged :=
        if message.isUndecryptable then OrderedSet.insert .undecryptable merged else merged
      let pruned := { message with localChanges := message.localChanges.forgetBefore taken }
      if merged ≠ message.flags then
        let message := { pruned with flags := merged, modseq := m.modseq.next }
        (some (uid, true), (m.change message).markUnsaved uid)
      else if message.localChanges.anyBefore taken then
        let m := m.note uid
        (some (uid, false), { m with store := m.store.update pruned })
      else (some (uid, false), m)

/-- Marks a message for removal because the remote account has removed it. -/
def markRemoved (id : RemoteId) (m : Mailbox) : Option Uid × Mailbox :=
  match m.store.uidOf? id with
  | none => (none, m)
  | some uid =>
    match m.store.get? uid with
    | none => (none, m)
    | some message =>
      let m :=
        if Flags.isDeleted message.flags then m
        else
          m.change
            { message with
              flags := OrderedSet.insert .deleted message.flags, modseq := m.modseq.next }
      if uid ∈ m.pending then (some uid, m)
      else (some uid, markUnsaved uid { m with pending := m.pending.insert uid })

/-- Forgets messages that have just been taken out, and gives their UIDs. -/
def settleRemoval (removed : List Message) (m : Mailbox) : List Uid × Mailbox :=
  if removed.isEmpty then ([], m)
  else
    let uids := removed.map (·.uid)
    let m := m.noteRemoved removed
    let m :=
      uids.foldl
        (fun m uid =>
          { m with pending := m.pending.erase uid, unsaved := m.unsaved.drop uid })
        m
    (uids, m.advance)

/-- Removes the messages that are marked for removal. -/
def expunge (m : Mailbox) : List Uid × Mailbox :=
  let (removed, store) := m.store.removeWhere fun message => Flags.isDeleted message.flags
  settleRemoval removed { m with store }

/-- Removes the messages that the remote account has removed. -/
def flushPending (m : Mailbox) : List Uid × Mailbox :=
  if m.pending.isEmpty then ([], m)
  else
    let (removed, store) := m.store.removeWhere fun message => decide (message.uid ∈ m.pending)
    settleRemoval removed { m with store, pending := ∅ }

/-- Takes the mark of a recent message off the message with a UID. -/
def clearRecentOf (m : Mailbox) (uid : Uid) : Mailbox :=
  let m := m.note uid
  match m.store.get? uid with
  | none => m
  | some message =>
    markUnsaved uid
      { m with store := m.store.update { message with flags := Flags.withoutRecent message.flags } }

/-- Takes the mark of a recent message off the messages whose UIDs satisfy a test. This counts as
no change. -/
def clearRecent (p : Uid → Bool) (m : Mailbox) : Nat × Mailbox :=
  let uids :=
    (m.store.messages.filter fun message =>
      p message.uid && Flags.isRecent message.flags).map (·.uid)
  let m' := uids.foldl clearRecentOf m
  (min uids.length maxWord, if uids.isEmpty then m' else { m' with summary? := none })

/-- Sees to it that the next UID to issue is above all that messages have. -/
def raiseUidNext (m : Mailbox) : Mailbox :=
  match m.store.greatestUid? with
  | none => m
  | some greatest =>
    { m with
      uids := m.uids.raiseAbove greatest, summary? := none
      unsaved := { m.unsaved with mailbox := true } }

/-- Drops all messages and begins a new epoch. The remote account is followed from the beginning
again. -/
def invalidate (now : Instant) (m : Mailbox) : UidValidity × Mailbox :=
  let uids := m.uids.renew now
  let m := noteStore { m with uids }
  let m := advance { m with store := ∅, pending := ∅, cursor := none }
  (uids.validity, { m with unsaved := { mailbox := true, reset := true } })

/-- Notes up to where the remote account has been followed. -/
def setCursor (cursor : Option String) (m : Mailbox) : Mailbox :=
  if m.cursor = cursor then m
  else { m with cursor, unsaved := { m.unsaved with mailbox := true } }

/-- Hands over what is not saved yet. -/
def takeUnsaved (m : Mailbox) : Unsaved × Mailbox := (m.unsaved, { m with unsaved := {} })

end Mailbox

end MailBridge

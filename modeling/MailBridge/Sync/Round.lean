import MailBridge.Mailbox.Integrity
import MailBridge.Sync.Site

/-! # Rounds of synchronization

A round asks the remote account what has happened since the last one and applies it to the
mailbox, all of it or nothing, together with the cursor from which the next round goes on. If the
remote account does not know all that has happened, or the identities of the mailbox are not
sound, all messages are listed instead and the mailbox is made to match. UIDs are voided only if
the remote mailbox was made anew, if the damage cannot be mended, or if there are no UIDs left.
-/

namespace MailBridge

/-- An event with its content decrypted. -/
inductive Prepared where
  | create (content : MessageContent)
  | update (id : RemoteId) (flags : Flags) (taken : Instant)
  | remove (id : RemoteId)
deriving DecidableEq

namespace Prepared

/-- The content of a new message. -/
def content? : Prepared → Option MessageContent
  | create content => some content
  | _ => none

/-- Puts contents, one after the other, in the places of new messages. -/
def refill : List MessageContent → List Prepared → List Prepared
  | content :: contents, create _ :: rest => create content :: refill contents rest
  | contents, event :: rest => event :: refill contents rest
  | _, [] => []

/-- Sorts the new messages by their place in the remote order; all other events stay where they
are. -/
def sortCreations (events : List Prepared) : List Prepared :=
  let contents := events.filterMap content?
  refill (contents.mergeSort fun a b => decide (a.order ≤ b.order)) events

end Prepared

namespace Site

/-- Turns a remote message into content. A message that cannot be decrypted has an empty envelope
and the reason why. -/
def prepare (message : RemoteMessage) (s : Site) : MessageContent × Site :=
  let content (envelope : Envelope) (decodeError : Option String) : MessageContent :=
    { remoteId := message.id, flags := message.flags, size := message.size, envelope,
      order := message.order, decodeError }
  match message.payload, s.decryption? with
  | .plain envelope, _ => (content envelope none, s)
  | .encrypted _, none => (content {} (some "no decryption available"), s)
  | .encrypted secret, some d =>
    match s.decrypt d message.id secret with
    | (.ok envelope, s) => (content envelope none, s)
    | (.error reason, s) => (content {} (some reason), s)

def prepareAll : List RemoteMessage → Site → List MessageContent × Site
  | [], s => ([], s)
  | message :: rest, s =>
    let (content, s) := s.prepare message
    let (contents, s) := prepareAll rest s
    (content :: contents, s)

/-- Decrypts the new messages among events. -/
def prepareEvents : List RemoteEvent → Site → List Prepared × Site
  | [], s => ([], s)
  | event :: rest, s =>
    let (event, s) := match event with
      | .created message =>
        let (content, s) := s.prepare message
        (Prepared.create content, s)
      | .updated id flags taken => (.update id flags taken, s)
      | .removed id => (.remove id, s)
    let (events, s) := prepareEvents rest s
    (event :: events, s)

end Site

namespace Mailbox

/-- Applies an event and counts it. -/
def applyEvent (updatesFlags : Bool) (tally : Tally) (event : Prepared) (m : Mailbox) :
    Except MailboxError Tally × Mailbox :=
  match event with
  | .create content =>
    match m.receive content with
    | (.error e, m) => (.error e, m)
    | (.ok result, m) =>
      if result.created then (.ok { tally with created := tally.created + 1 }, m)
      else (.ok { tally with updated := tally.updated + 1 }, m)
  | .update id flags taken =>
    if updatesFlags then
      match m.mergeFlags id flags taken with
      | (some (_, true), m) => (.ok { tally with updated := tally.updated + 1 }, m)
      | (some (_, false), m) => (.ok tally, m)
      | (none, m) => (.ok { tally with skipped := tally.skipped + 1 }, m)
    else (.ok { tally with skipped := tally.skipped + 1 }, m)
  | .remove id =>
    match m.markRemoved id with
    | (some _, m) => (.ok { tally with removed := tally.removed + 1 }, m)
    | (none, m) => (.ok { tally with skipped := tally.skipped + 1 }, m)

/-- Applies events in their order, up to the first that fails. -/
def applyEvents (updatesFlags : Bool) :
    Tally → List Prepared → Mailbox → Except MailboxError Tally × Mailbox
  | tally, [], m => (.ok tally, m)
  | tally, event :: rest, m =>
    match m.applyEvent updatesFlags tally event with
    | (.error e, m) => (.error e, m)
    | (.ok tally, m) => applyEvents updatesFlags tally rest m

/-- Removes the messages that wait to be expunged, unless a session has to be told first. -/
def flushUnlessSelected (sessions : Nat) (m : Mailbox) : List Uid × Mailbox :=
  if sessions = 0 then m.flushPending else ([], m)

/-- Applies a batch of events that was asked for with a cursor, if it is known with which. The
mailbox must not have moved on from that cursor. -/
def applyBatch (settings : SyncSettings) (sessions : Nat) (since? : Option (Option String))
    (events : List Prepared) (cursor : Option String) (m : Mailbox) :
    Except MailboxError Tally × Mailbox :=
  if since?.any fun since => decide (m.cursor ≠ since) then
    (.error (.conflict m.name "cursor moved while fetching events"), m)
  else
    match m.applyEvents settings.updatesFlags {} events with
    | (.error e, m) => (.error e, m)
    | (.ok tally, m) =>
      let m := if cursor.isSome then m.setCursor cursor else m
      let (expunged, m) := m.flushUnlessSelected sessions
      (.ok { tally with expunged }, m)

/-- Carries a correction out and counts it. A message to be created must be among the prepared
contents. -/
def correct (updatesFlags : Bool) (prepared : List MessageContent) (taken : Instant)
    (tally : Tally) (correction : Correction) (m : Mailbox) : Except MailboxError Tally × Mailbox :=
  match correction with
  | .remove id =>
    match m.markRemoved id with
    | (some _, m) => (.ok { tally with removed := tally.removed + 1 }, m)
    | (none, m) => (.ok tally, m)
  | .mergeFlags id flags =>
    if updatesFlags then
      match m.mergeFlags id flags taken with
      | (some (_, true), m) => (.ok { tally with updated := tally.updated + 1 }, m)
      | (_, m) => (.ok tally, m)
    else (.ok { tally with skipped := tally.skipped + 1 }, m)
  | .create id =>
    match prepared.find? (·.remoteId == id) with
    | none =>
      (.error (.conflict m.name s!"record of remote message {id} vanished during resync"), m)
    | some content =>
      match m.receive content with
      | (.error e, m) => (.error e, m)
      | (.ok _, m) => (.ok { tally with created := tally.created + 1 }, m)

/-- Carries corrections out in their order, up to the first that fails. -/
def correctAll (updatesFlags : Bool) (prepared : List MessageContent) (taken : Instant) :
    Tally → List Correction → Mailbox → Except MailboxError Tally × Mailbox
  | tally, [], m => (.ok tally, m)
  | tally, correction :: rest, m =>
    match m.correct updatesFlags prepared taken tally correction with
    | (.error e, m) => (.error e, m)
    | (.ok tally, m) => correctAll updatesFlags prepared taken tally rest m

/-- Makes the identities of the mailbox sound, by a new epoch if nothing less will do. Gives
whether a new epoch began. -/
def mend (now : Instant) (invalidate : Bool) (m : Mailbox) : Bool × Mailbox :=
  if invalidate then (true, (m.invalidate now).2)
  else
    match m.desync? with
    | none => (false, m)
    | some desync =>
      if desync.isMendable then (false, m.raiseUidNext) else (true, (m.invalidate now).2)

/-- Makes the mailbox match a listing. Also gives the corrections that it took. -/
def reconcile (settings : SyncSettings) (sessions : Nat) (now : Instant) (invalidate : Bool)
    (prepared : List MessageContent) (listing : Listing) (cursor : Option String) (m : Mailbox) :
    Except MailboxError (Tally × List Correction) × Mailbox :=
  let (invalidated, m) := m.mend now invalidate
  let corrections := m.store.corrections listing.messages
  match m.correctAll settings.updatesFlags prepared listing.taken { resynced := true, invalidated }
      corrections with
  | (.error e, m) => (.error e, m)
  | (.ok tally, m) =>
    let (expunged, m) := (m.setCursor cursor).flushUnlessSelected sessions
    (.ok ({ tally with expunged }, corrections), m)

end Mailbox

namespace Site

/-- Lists all remote messages and makes the mailbox match. Events go on from the listing's cursor,
or else from the given one. -/
def resyncFrom (fallback : Option String) (s : Site) : Except Halt Tally × Site :=
  match s.list with
  | (.error halt, s) => (.error halt, s)
  | (.ok listing, s) =>
    let s := s.report (.listed s.name listing.messages.length)
    let m := s.shared.mailbox
    let invalidate := listing.recreated || m.desync?.any fun d => !d.isMendable
    let unknown := (RemoteMessage.firstListed listing.messages).filter fun message =>
      invalidate || (m.store.uidOf? message.id).isNone
    let (prepared, s) := s.prepareAll unknown
    let cursor := listing.cursor <|> fallback
    match s.mutate (·.reconcile s.settings s.shared.sessions s.clock invalidate prepared listing
        cursor) with
    | (.error halt, s) => (.error halt, s)
    | (.ok (tally, corrections), s) =>
      let s := corrections.foldl (fun s c => s.report (.corrected s.name c)) s
      let s :=
        if tally.invalidated then
          s.report (.invalidated s.name s.shared.mailbox.summary.validity)
        else s
      (.ok tally, s.report (.resynced s.name tally))

/-- Makes the mailbox match a full listing. -/
def resync (s : Site) : Except Halt Tally × Site := s.resyncFrom none

def invalidate (s : Site) : Except Halt UidValidity × Site :=
  match s.mutate fun m => let (validity, m) := m.invalidate s.clock; (.ok validity, m) with
  | (.error halt, s) => (.error halt, s)
  | (.ok validity, s) => (.ok validity, s.report (.invalidated s.name validity))

def applyEvents (since? : Option (Option String)) (batch : EventBatch) (s : Site) :
    Except Halt Tally × Site :=
  let (events, s) := s.prepareEvents batch.events
  let events := if s.settings.ordered then events else Prepared.sortCreations events
  match s.mutate (·.applyBatch s.settings s.shared.sessions since? events batch.cursor) with
  | (.error halt, s) => (.error halt, s)
  | (.ok tally, s) => (.ok tally, s.report (.applied s.name tally))

/-- Applies a batch that was asked for with a cursor, if it is known with which, or else a full
listing. -/
def apply (since? : Option (Option String)) (batch : EventBatch) (s : Site) :
    Except Halt Tally × Site :=
  if batch.gap || s.shared.mailbox.desync?.isSome then s.resyncFrom batch.cursor
  else
    match s.applyEvents since? batch with
    | (.error (.failed (.mailbox .uidsExhausted)), s) =>
      match s.invalidate with
      | (.error halt, s) => (.error halt, s)
      | (.ok _, s) => s.resyncFrom batch.cursor
    | (.error (.failed (.mailbox (.desync ..))), s) => s.resyncFrom batch.cursor
    | result => result

/-- Asks for the events since the last round and applies them. -/
def sync (s : Site) : Except Halt Tally × Site :=
  let cursor := s.shared.mailbox.cursor
  match s.fetch cursor with
  | (.error halt, s) => (.error halt, s)
  | (.ok batch, s) =>
    (s.report (.fetched s.name batch.events.length)).apply (some cursor) batch

end Site

end MailBridge

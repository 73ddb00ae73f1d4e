import MailBridge.Settings
import MailBridge.SharedMailbox

/-! # Accounts

An account opens its mailboxes when they are first asked for: from the cache if they are saved
there, or else empty. From then on every session and all synchronization share the opened mailbox.
-/

namespace MailBridge

/-- Why a mailbox could not be opened. -/
inductive AccountError where
  /-- The mailbox is not shown to clients. -/
  | notExposed (mailbox : String)
  | cache (cause : CacheError)
deriving DecidableEq

namespace AccountError

def message : AccountError → String
  | notExposed name => s!"cannot open mailbox {name}: mailbox not exposed"
  | cache cause => cause.message

end AccountError

/-- An opened mailbox and the number of sessions that have it selected. -/
structure OpenMailbox where
  mailbox : Mailbox
  sessions : Nat := 0

structure Account where
  settings : AccountSettings
  cache? : Option Cache := none
  opened : OrderedMap String OpenMailbox := ∅

namespace Account

/-- An opened mailbox with the cache of the account. -/
def shared? (name : String) (a : Account) : Option SharedMailbox :=
  (a.opened.get? name).map fun o =>
    { mailbox := o.mailbox, cache? := a.cache?, sessions := o.sessions }

def put (name : String) (s : SharedMailbox) (a : Account) : Account :=
  { a with cache? := s.cache?, opened := a.opened.insert name ⟨s.mailbox, s.sessions⟩ }

/-- The mailbox that the cache has under a name. -/
def cached? (name : String) (a : Account) : Except CacheError (Option Mailbox) :=
  match a.cache? with
  | some cache => cache.load name
  | none => .ok none

/-- Opens a mailbox, unless it is open already. -/
def openMailbox (now : Instant) (name : String) (a : Account) :
    Except AccountError SharedMailbox × Account :=
  if a.settings.exposure.shows name then
    match a.shared? name with
    | some s => (.ok s, a)
    | none =>
      match a.cached? name with
      | .error e => (.error (.cache e), a)
      | .ok mailbox? =>
        let s : SharedMailbox :=
          { mailbox := mailbox?.getD (.create name now), cache? := a.cache? }
        (.ok s, a.put name s)
  else (.error (.notExposed name), a)

/-- The names of the mailboxes that are saved or opened, as far as they are shown to clients, in
ascending order. -/
def names (a : Account) : Except CacheError (List String) :=
  match a.cache?.elim (.ok []) Cache.names with
  | .error e => .error e
  | .ok saved =>
    .ok (OrderedSet.ofList ((saved ++ a.opened.keys).filter a.settings.exposure.shows)).toList

end Account

end MailBridge

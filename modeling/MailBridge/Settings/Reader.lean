import MailBridge.Document
import MailBridge.Settings

/-! # Reading settings

Settings come as a document of named or listed values. A group of settings is an object, in
which no unknown name may occur, or a list of its values in their fixed order. A setting that is
left out has its default, and the account has to have a name. Nothing but the cache directory may
be given as null.
-/

namespace MailBridge

namespace Document

def long? (d : Document) : Option UInt64 := (d.upTo? maxLong).map .ofNat

def byte? (d : Document) : Option UInt8 := (d.upTo? 255).map .ofNat

def names? : Document → Option (OrderedSet String)
  | list items => (items.mapM text?).map .ofList
  | _ => none

/-- The values of a group, in the order of the given names: from an object without other names,
or from a list that is not longer. -/
def group? (names : List String) : Document → Option (List (Option Document))
  | object entries =>
    if entries.all fun e => names.contains e.1 then
      some (names.map fun name => entries.lookup name)
    else none
  | list items =>
    if items.length ≤ names.length then some ((List.range names.length).map (items[·]?)) else none
  | _ => none

/-- Reads a value that has a default. -/
def orDefault {α : Type} (read : Document → Option α) (default : α) : Option Document → Option α
  | some d => read d
  | none => some default

/-- Reads which mailboxes are shown: all, only some, or all but some. -/
def exposure? : Document → Option Exposure
  | text "all" => some .all
  | object [("all", null)] => some .all
  | object [("include", d)] => d.names?.map .only
  | object [("exclude", d)] => d.names?.map .allBut
  | _ => none

/-- Reads the settings of repeated attempts. -/
def retry? (d : Document) : Option RetrySettings := do
  match ← d.group? ["attempts", "timeout-secs", "backoff-secs", "max-backoff-secs"] with
  | [attempts, timeout, delay, maxDelay] =>
    let standard : RetrySettings := {}
    return {
      attempts := ← orDefault byte? standard.attempts attempts
      timeout := ← orDefault long? standard.timeout timeout
      delay := ← orDefault long? standard.delay delay
      maxDelay := ← orDefault long? standard.maxDelay maxDelay }
  | _ => none

/-- Reads whether remote changes of flags are taken over. -/
def permissions? (d : Document) : Option Bool := do
  match ← d.group? ["update"] with
  | [update] => orDefault bool? true update
  | _ => none

/-- Reads how mailboxes are kept in step. -/
def sync? (d : Document) : Option SyncSettings := do
  match ← d.group? ["ordered-feed", "poll-interval-secs", "retry", "permissions"] with
  | [ordered, pollInterval, retry, permissions] =>
    let standard : SyncSettings := {}
    return {
      ordered := ← orDefault bool? standard.ordered ordered
      pollInterval := ← orDefault long? standard.pollInterval pollInterval
      retry := ← orDefault retry? standard.retry retry
      updatesFlags := ← orDefault permissions? standard.updatesFlags permissions }
  | _ => none

/-- Reads the cache directory. In a list it has to be given, if only as null. -/
def cacheDir? (listed : Bool) : Option Document → Option (Option String)
  | some null => some none
  | some (text s) => some (some s)
  | some _ => none
  | none => if listed then none else some none

def account? (d : Document) : Option AccountSettings := do
  match ← d.group? ["name", "cache-dir", "mailboxes", "sync"] with
  | [name, cacheDir, exposure, sync] =>
    return {
      name := ← name.bind text?
      cacheDir := ← cacheDir? d.isList cacheDir
      exposure := ← orDefault exposure? .all exposure
      sync := ← orDefault sync? {} sync }
  | _ => none

end Document

end MailBridge

import MailBridge.Digest.Md5
import MailBridge.Ordered.Set
import MailBridge.Settings.Retry

/-! # Settings of an account -/

namespace MailBridge

/-- Which mailboxes are shown to clients. -/
inductive Exposure where
  | all
  | only (names : OrderedSet String)
  | allBut (names : OrderedSet String)
deriving DecidableEq

namespace Exposure

def shows : Exposure → String → Bool
  | all, _ => true
  | only names, name => decide (name ∈ names)
  | allBut names, name => decide (name ∉ names)

end Exposure

/-- How mailboxes are kept in step with the remote account. -/
structure SyncSettings where
  /-- The remote account tells of new messages in their order. -/
  ordered : Bool := true
  /-- The seconds between two rounds. -/
  pollInterval : UInt64 := 30
  retry : RetrySettings := {}
  /-- Remote changes of flags are taken over. -/
  updatesFlags : Bool := true
deriving DecidableEq

structure AccountSettings where
  /-- The account is known by its name. -/
  name : String
  cacheDir : Option String := none
  exposure : Exposure := .all
  sync : SyncSettings := {}
deriving DecidableEq

namespace AccountSettings

/-- Where the cache is kept below the user's cache directory, unless the settings say otherwise. -/
def defaultCacheDir (userCache : String) (s : AccountSettings) : String :=
  s!"{userCache}/pimalaya-bridge/{Digest.md5 s.name}"

/-- Where the cache is kept. -/
def findCacheDir (userCache : String) (s : AccountSettings) : String :=
  s.cacheDir.getD (s.defaultCacheDir userCache)

end AccountSettings

end MailBridge

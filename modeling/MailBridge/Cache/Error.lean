/-! # Failures of the cache -/

namespace MailBridge

/-- Why the cache could not be opened, read or written. -/
inductive CacheError where
  | createDirectory (path : String)
  | openLockFile (path : String)
  /-- Another owner holds the lock. -/
  | lock (path : String)
  | openDatabase (path : String)
  | createTables
  | listMailboxes
  | loadMailbox (name : String)
  /-- A number that must be positive is zero. -/
  | invalidValue (name what : String)
  | saveMailbox (name : String)
deriving DecidableEq

namespace CacheError

/-- What is said of the failure. -/
def message : CacheError → String
  | createDirectory path => s!"cannot create cache directory at {path}"
  | openLockFile path => s!"cannot open cache lock file at {path}"
  | lock path => s!"cannot lock cache at {path}: is another bridge running?"
  | openDatabase path => s!"cannot open cache database at {path}"
  | createTables => "cannot create cache database tables"
  | listMailboxes => "cannot list cached mailboxes"
  | loadMailbox name => s!"cannot load mailbox {name} from cache"
  | invalidValue name what => s!"cannot load mailbox {name} from cache: invalid {what}"
  | saveMailbox name => s!"cannot save mailbox {name} to cache"

end CacheError

end MailBridge

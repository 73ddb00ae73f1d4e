import MailBridge.Cache.Error

/-! # Opening the cache

The cache lies in a directory with a lock file and a database file. The directory and the files
are made if they are missing. Only one owner may hold the lock.
-/

namespace MailBridge

/-- What is found at a place of the file system. -/
inductive Found where
  | nothing
  | file
  | directory
deriving DecidableEq

/-- What is found in the place of a cache. -/
structure CachePlace where
  directory : Found := .nothing
  lockFile : Found := .nothing
  /-- Another owner holds the lock. -/
  isLocked : Bool := false
  database : Found := .nothing
  /-- The database file, if there is one, holds a database. -/
  isDatabase : Bool := true
deriving DecidableEq

namespace CachePlace

/-- A place where a cache was kept before. -/
def used : CachePlace := { directory := .directory, lockFile := .file, database := .file }

def lockPath (path : String) : String := s!"{path}/mailboxes.lock"

def databasePath (path : String) : String := s!"{path}/mailboxes.sqlite"

/-- Opens the database. -/
def openDatabase (path : String) (p : CachePlace) : Except CacheError Unit :=
  if p.database = .directory then .error (.openDatabase (databasePath path))
  else if p.database = .file && !p.isDatabase then .error .createTables
  else .ok ()

/-- Opens the cache at a path and takes its lock. -/
def openLocked (path : String) (p : CachePlace) : Except CacheError Unit :=
  if p.directory = .file then .error (.createDirectory path)
  else if p.lockFile = .directory then .error (.openLockFile (lockPath path))
  else if p.isLocked then .error (.lock (lockPath path))
  else p.openDatabase path

end CachePlace

end MailBridge

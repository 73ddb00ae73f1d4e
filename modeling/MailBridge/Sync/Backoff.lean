import MailBridge.Identifier
import MailBridge.Settings.Retry

/-! # Delays between attempts

After a failure the next attempt waits, twice as long each time up to a longest delay, until the
attempts are used up and the count begins anew. All numbers stay within 64 bits.
-/

namespace MailBridge

/-- The attempts made so far. -/
structure Backoff where
  settings : RetrySettings := {}
  attempts : UInt8 := 0
deriving DecidableEq

/-- What to do after an attempt. -/
inductive Verdict where
  | succeeded
  /-- Attempt again after some seconds. -/
  | retryAfter (seconds : Nat)
  | gaveUp
deriving DecidableEq

namespace Backoff

/-- Two to the given power, or the largest 64-bit number where that has no room. -/
def factor (power : Nat) : Nat := if power < 64 then Nat.pow 2 power else maxLong

/-- The delay before the present attempt, in seconds. -/
def delay (b : Backoff) : Nat :=
  min (min (b.settings.delay.toNat * factor (b.attempts.toNat - 1)) maxLong)
    b.settings.maxDelay.toNat

def reset (b : Backoff) : Backoff := { b with attempts := 0 }

/-- Takes the outcome of an attempt in. -/
def next (success : Bool) (b : Backoff) : Verdict × Backoff :=
  if success then (.succeeded, b.reset)
  else if b.attempts < b.settings.attempts then
    let b := { b with attempts := b.attempts + 1 }
    (.retryAfter b.delay, b)
  else (.gaveUp, b.reset)

end Backoff

end MailBridge

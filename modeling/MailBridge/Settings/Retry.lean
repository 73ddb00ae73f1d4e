/-! # Settings of repeated attempts -/

namespace MailBridge

/-- How often and after which delays a failed round of synchronization is attempted again. -/
structure RetrySettings where
  /-- The number of further attempts. -/
  attempts : UInt8 := 3
  /-- How long one attempt may take, in seconds. -/
  timeout : UInt64 := 30
  /-- The delay before the first further attempt, in seconds; it doubles each time. -/
  delay : UInt64 := 1
  /-- The longest delay, in seconds. -/
  maxDelay : UInt64 := 60
deriving DecidableEq

end MailBridge

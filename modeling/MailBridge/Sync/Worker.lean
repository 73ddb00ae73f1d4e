import MailBridge.Sync.Backoff
import MailBridge.Sync.Round

/-! # The worker of a mailbox

A worker synchronizes a mailbox round by round until it is stopped. A round that fails or takes
too long is attempted again after a delay, and never given up for good: once the attempts are used
up, the next one waits as long as after a success.
-/

namespace MailBridge

namespace Site

/-- One round, cut off at the given time on the clock of delays. Gives whether it succeeded. -/
def attempt (deadline : Nat) (s : Site) : Bool × Site :=
  match sync { s with deadline? := some deadline } with
  | (.ok _, s) => (true, { s with deadline? := none })
  | (.error _, s) => (false, { s with deadline? := none })

/-- Works until the given time on the clock of delays, for at most so many rounds. -/
def workUntil (stop : Nat) : Nat → Backoff → Site → Site
  | 0, _, s => s
  | rounds + 1, backoff, s =>
    let limit := s.elapsed + 1000 * s.settings.retry.timeout.toNat
    let (success, s) := s.attempt (min limit stop)
    if stop ≤ s.elapsed then s
    else
      let (verdict, backoff) := backoff.next success
      let delay := match verdict with
        | .retryAfter seconds => seconds
        | .succeeded | .gaveUp => s.settings.pollInterval.toNat
      let wake := s.elapsed + 1000 * delay
      if stop ≤ wake then s else workUntil stop rounds backoff { s with elapsed := wake }

/-- Works for some milliseconds and is then stopped. There are at most so many rounds: after a
success or after giving up, time goes on, unless a batch or an outage has been used up without a
delay. -/
def work (milliseconds : Nat) (s : Site) : Site :=
  let stop := s.elapsed + milliseconds
  let rounds := (milliseconds + 1) * (s.settings.retry.attempts.toNat + 2) +
    s.remote.outages.foldl (fun n outage => n + outage.length) 0 + s.remote.batches.length
  { s.workUntil stop rounds { settings := s.settings.retry } with elapsed := stop }

end Site

end MailBridge

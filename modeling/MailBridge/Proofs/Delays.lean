import Mathlib.Data.List.Induction
import Mathlib.Data.Nat.ModEq
import MailBridge.Sync.Backoff

/-! # Delays double up to the longest one

The delay before an attempt is worked out within 64 bits, by a shift that may have no room and a
product that stops at the largest number. As the result is cut at the longest delay, which has 64
bits itself, it is the number that unbounded arithmetic gives, for all settings. The attempts are
counted in eight bits, and the count begins anew before it has no room.
-/

namespace MailBridge

/-- The delay before a further attempt, the first being number 1, as the settings mean it. -/
def RetrySettings.delayBefore (attempt : Nat) (settings : RetrySettings) : Nat :=
  min (settings.delay.toNat * 2 ^ (attempt - 1)) settings.maxDelay.toNat

namespace RetrySettings

variable (settings : RetrySettings)

theorem maxDelay_le : settings.maxDelay.toNat ≤ maxLong := by
  have hlt := settings.maxDelay.toNat_lt
  simp only [maxLong]
  omega

theorem delayBefore_mono {i j : Nat} (h : i ≤ j) :
    settings.delayBefore i ≤ settings.delayBefore j := by
  have hpower : 2 ^ (i - 1) ≤ 2 ^ (j - 1) := Nat.pow_le_pow_right (by omega) (by omega)
  have hproduct := Nat.mul_le_mul_left settings.delay.toNat hpower
  simp only [delayBefore]
  omega

end RetrySettings

namespace Backoff

variable (b : Backoff)

def nextAll (outcomes : List Bool) (b : Backoff) : Backoff :=
  outcomes.foldl (fun b success => (b.next success).2) b

/-- How many of the last outcomes were failures. -/
def failuresInARow (outcomes : List Bool) : Nat := (outcomes.reverse.takeWhile (!·)).length

@[simp] theorem failuresInARow_nil : failuresInARow [] = 0 := rfl

@[simp] theorem failuresInARow_success (outcomes : List Bool) :
    failuresInARow (outcomes ++ [true]) = 0 := by
  simp [failuresInARow]

@[simp] theorem failuresInARow_failure (outcomes : List Bool) :
    failuresInARow (outcomes ++ [false]) = failuresInARow outcomes + 1 := by
  simp [failuresInARow]

theorem nextAll_append (outcomes : List Bool) (success : Bool) :
    b.nextAll (outcomes ++ [success]) = ((b.nextAll outcomes).next success).2 := by
  simp [nextAll]

/-! ## Delays -/

/-- A power of two has 64 bits, or is replaced by the largest number that has. -/
theorem factor_le (power : Nat) : factor power ≤ maxLong := by
  unfold factor
  split
  · next hlt =>
    have hpower : 2 ^ power ≤ 2 ^ 63 := Nat.pow_le_pow_right (by omega) (by omega)
    simp only [maxLong]
    exact Nat.le_trans hpower (by decide)
  · exact Nat.le_refl _

/-- A factor that has no room makes any delay that is not zero the longest, as the power would. -/
theorem min_mul_factor (delay : Nat) {longest : Nat} (h : longest ≤ maxLong) (power : Nat) :
    min (min (delay * factor power) maxLong) longest = min (delay * 2 ^ power) longest := by
  unfold factor
  split
  · next hlt =>
    show min (min (delay * 2 ^ power) maxLong) longest = _
    omega
  · next hge =>
    have hpower : 2 ^ 64 ≤ 2 ^ power := Nat.pow_le_pow_right (by omega) (by omega)
    have hroom : maxLong < 2 ^ 64 := by decide
    cases delay with
    | zero => simp
    | succ d =>
        have hfactor : maxLong ≤ (d + 1) * maxLong := Nat.le_mul_of_pos_left _ (by omega)
        have hexact : 2 ^ power ≤ (d + 1) * 2 ^ power := Nat.le_mul_of_pos_left _ (by omega)
        omega

theorem delay_eq : b.delay = b.settings.delayBefore b.attempts.toNat :=
  min_mul_factor _ b.settings.maxDelay_le _

/-! ## Counting attempts -/

theorem toNat_attempts_succ {attempts most : UInt8} (h : attempts < most) :
    (attempts + 1).toNat = attempts.toNat + 1 := by
  have hmost := most.toNat_lt
  have hlt := UInt8.lt_iff_toNat_lt.1 h
  rw [UInt8.toNat_add]
  exact Nat.mod_eq_of_lt (by simp; omega)

theorem next_success : b.next true = (.succeeded, b.reset) := rfl

theorem next_left (h : b.attempts < b.settings.attempts) :
    b.next false = (.retryAfter (b.settings.delayBefore (b.attempts.toNat + 1)),
      { b with attempts := b.attempts + 1 }) := by
  simp [next, h, delay_eq, toNat_attempts_succ h]

theorem next_used_up (h : ¬ b.attempts < b.settings.attempts) :
    b.next false = (.gaveUp, b.reset) := by
  simp [next, h]

@[simp] theorem settings_next (success : Bool) : (b.next success).2.settings = b.settings := by
  unfold next
  split
  · rfl
  · split <;> rfl

@[simp] theorem settings_nextAll (outcomes : List Bool) :
    (b.nextAll outcomes).settings = b.settings := by
  induction outcomes using List.reverseRecOn with
  | nil => rfl
  | append_singleton before success ih => rw [nextAll_append, settings_next, ih]

theorem attempts_failure {k : Nat}
    (hk : b.attempts.toNat = k % (b.settings.attempts.toNat + 1)) :
    (b.next false).2.attempts.toNat = (k + 1) % (b.settings.attempts.toNat + 1) ∧
      (b.attempts < b.settings.attempts ↔ ¬ b.settings.attempts.toNat + 1 ∣ k + 1) := by
  have hlt : k % (b.settings.attempts.toNat + 1) < b.settings.attempts.toNat + 1 :=
    Nat.mod_lt k (Nat.succ_pos _)
  by_cases hleft : b.attempts < b.settings.attempts
  · have hbelow := UInt8.lt_iff_toNat_lt.1 hleft
    have hcount : (k + 1) % (b.settings.attempts.toNat + 1) = b.attempts.toNat + 1 := by
      have hone : 1 % (b.settings.attempts.toNat + 1) = 1 := Nat.mod_eq_of_lt (by omega)
      rw [Nat.add_mod_of_add_mod_lt (by omega), hone, hk]
    refine ⟨?_, iff_of_true hleft fun hdvd => ?_⟩
    · rw [next_left b hleft, hcount]
      exact toNat_attempts_succ hleft
    · have hzero := Nat.mod_eq_zero_of_dvd hdvd
      omega
  · have hfull : k % (b.settings.attempts.toNat + 1) = b.settings.attempts.toNat := by
      have hge := mt UInt8.lt_iff_toNat_lt.2 hleft
      omega
    have hround : b.settings.attempts.toNat + 1 ∣ k + 1 := by
      refine ⟨k / (b.settings.attempts.toNat + 1) + 1, ?_⟩
      have hdivide := Nat.div_add_mod k (b.settings.attempts.toNat + 1)
      rw [Nat.mul_succ]
      omega
    refine ⟨?_, iff_of_false hleft (not_not_intro hround)⟩
    rw [next_used_up b hleft, Nat.mod_eq_zero_of_dvd hround]
    rfl

/-- The count is that of the failures in a row, begun anew each time the attempts are used up. -/
theorem attempts_nextAll (settings : RetrySettings) (outcomes : List Bool) :
    (nextAll outcomes { settings }).attempts.toNat =
      failuresInARow outcomes % (settings.attempts.toNat + 1) := by
  induction outcomes using List.reverseRecOn with
  | nil => simp [nextAll]
  | append_singleton before success ih =>
      rw [nextAll_append]
      cases success with
      | true => simp [next_success, reset]
      | false =>
          have hsettings := settings_nextAll { settings } before
          have hstep := (attempts_failure (nextAll before { settings }) (by rw [hsettings, ih])).1
          rw [hstep, hsettings, failuresInARow_failure]

/-! ## What is answered -/

theorem next_eq_retryAfter {d : Nat} : (b.next false).1 = .retryAfter d ↔
    b.attempts < b.settings.attempts ∧ d = b.settings.delayBefore (b.attempts.toNat + 1) := by
  by_cases hleft : b.attempts < b.settings.attempts
  · simp [next_left b hleft, hleft, eq_comm]
  · simp [next_used_up b hleft, hleft]

theorem delay_next_le {d d' : Nat} (h : (b.next false).1 = .retryAfter d)
    (h' : ((b.next false).2.next false).1 = .retryAfter d') : d ≤ d' := by
  obtain ⟨hleft, rfl⟩ := b.next_eq_retryAfter.1 h
  obtain ⟨_, rfl⟩ := (b.next false).2.next_eq_retryAfter.1 h'
  rw [next_left b hleft]
  dsimp only
  rw [toNat_attempts_succ hleft]
  exact b.settings.delayBefore_mono (by omega)

/-- Let attempts have any outcomes, with the count begun anew at the start. A failure that is the
last of `k` in a row uses the attempts up if and only if one more than their number divides `k`.
Otherwise the next attempt waits for as long as unbounded arithmetic says, where only the failures
since the attempts were last used up count. No number on the way is too large for its bits, and as
long as the attempts are not used up, the delays do not decrease. -/
theorem delays_as_unbounded (settings : RetrySettings) (outcomes : List Bool) :
    let b := nextAll outcomes { settings }
    let k := failuresInARow outcomes + 1
    let n := settings.attempts.toNat
    (b.next true).1 = .succeeded ∧
    (b.next false).1 = (if n + 1 ∣ k then .gaveUp else
      .retryAfter (min (settings.delay.toNat * 2 ^ (k % (n + 1) - 1)) settings.maxDelay.toNat)) ∧
    (b.attempts < b.settings.attempts → (b.attempts + 1).toNat = b.attempts.toNat + 1) ∧
    factor (b.attempts.toNat - 1) ≤ maxLong ∧ b.delay ≤ maxLong ∧
    ∀ d d', (b.next false).1 = .retryAfter d → ((b.next false).2.next false).1 = .retryAfter d' →
      d ≤ d' := by
  intro b k n
  have hsettings : b.settings = settings := settings_nextAll { settings } outcomes
  have hcount : b.attempts.toNat = failuresInARow outcomes % (b.settings.attempts.toNat + 1) := by
    rw [hsettings]
    exact attempts_nextAll settings outcomes
  obtain ⟨hnext, hleft⟩ := attempts_failure b hcount
  refine ⟨rfl, ?_, toNat_attempts_succ, factor_le _, ?_, fun d d' => delay_next_le b⟩
  · rw [hsettings] at hnext hleft
    by_cases hdvd : n + 1 ∣ k
    · rw [if_pos hdvd, next_used_up b fun h => hleft.1 (hsettings ▸ h) hdvd]
    · -- the attempt that is counted now has the number of the failure within its series
      have hroom : b.attempts < b.settings.attempts := hsettings ▸ hleft.2 hdvd
      rw [next_left b hroom] at hnext ⊢
      have hnumber : b.attempts.toNat + 1 = k % (n + 1) :=
        (toNat_attempts_succ hroom).symm.trans hnext
      rw [if_neg hdvd, hsettings, hnumber]
      rfl
  · rw [delay_eq]
    exact Nat.le_trans (Nat.min_le_right ..) b.settings.maxDelay_le

/-- Four further attempts, whose delays double from two seconds up to five. -/
example : (List.range 5).map (fun k => ((nextAll (List.replicate k false)
      { settings := { attempts := 4, delay := 2, maxDelay := 5 } }).next false).1) =
    [.retryAfter 2, .retryAfter 4, .retryAfter 5, .retryAfter 5, .gaveUp] := by decide

end Backoff

end MailBridge

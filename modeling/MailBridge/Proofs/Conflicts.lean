import MailBridge.Proofs.Candor
import MailBridge.Proofs.Registration

/-! # Batches that come too late

A batch that was asked for with a cursor is turned away if the mailbox has moved on from there, and
then nothing changes. But the cursors are compared only where events are applied. If the batch has a
gap, or the mailbox is not sound, all messages are listed without asking for the cursor, and the
mailbox goes on from where the late batch says.
-/

namespace MailBridge

namespace Mailbox

variable {m : Mailbox} {now : Instant} {tally : Tally} {settings : SyncSettings} {sessions : Nat}
  {listing : Listing} {cursor : Option String}

theorem applyBatch_moved {since : Option String} (h : m.cursor ≠ since) (settings : SyncSettings)
    (sessions : Nat) (events : List Prepared) (cursor : Option String) :
    m.applyBatch settings sessions (some since) events cursor =
      (.error (.conflict m.name "cursor moved while fetching events"), m) := by
  unfold applyBatch
  rw [if_pos (by simpa using h)]

@[simp] theorem cursor_setCursor (cursor : Option String) (m : Mailbox) :
    (m.setCursor cursor).cursor = cursor := by
  unfold setCursor
  split
  · assumption
  · rfl

@[simp] theorem cursor_flushUnlessSelected (sessions : Nat) (m : Mailbox) :
    (m.flushUnlessSelected sessions).2.cursor = m.cursor := by
  unfold flushUnlessSelected flushPending
  split
  · split
    · rfl
    · unfold settleRemoval
      dsimp only
      split
      · rfl
      · rw [settle_foldl, noteRemoved_eq]
        rfl
  · rfl

theorem cursor_reconcile {m' : Mailbox} {invalidate : Bool} {prepared : List MessageContent}
    {corrections : List Correction}
    (hok : m.reconcile settings sessions now invalidate prepared listing cursor =
      (.ok (tally, corrections), m')) : m'.cursor = cursor := by
  unfold reconcile at hok
  dsimp only at hok
  split at hok
  · cases hok
  · cases hok
    simp

end Mailbox

namespace Site

open SharedMailbox

variable {s s' : Site} {since : Option String} {batch : EventBatch} {tally : Tally}

/-- The batch is turned away because the mailbox has moved on from the cursor that the batch was
asked for with. Everything is as others have left it. -/
structure TurnsAway (since : Option String) (batch : EventBatch) (s : Site) : Prop where
  answer : (s.apply (some since) batch).1 =
    .error (.failed (.mailbox (.conflict s.name "cursor moved while fetching events")))
  shared : (s.apply (some since) batch).2.shared = (s.readied batch).idle

theorem applyEvents_moved (h : (s.readied batch).mailbox.cursor ≠ since) :
    (s.applyEvents (some since) batch).1 =
        .error (.failed (.mailbox (.conflict s.name "cursor moved while fetching events"))) ∧
      (s.applyEvents (some since) batch).2.shared = (s.readied batch).idle := by
  obtain ⟨hresult, hshared, _⟩ := applyEvents_arranged (some since) batch s
  have hbatch := Mailbox.applyBatch_moved (m := (s.readied batch).mailbox.startJournal) h s.settings
    (s.readied batch).sessions (s.arranged batch) batch.cursor
  have hname : (s.readied batch).mailbox.startJournal.name = s.name :=
    name_leads (interim_prepareEvents batch.events s).leads
  rw [mutate_untouched hbatch] at hresult hshared
  rw [hname] at hresult
  exact ⟨hresult, hshared⟩

theorem turnsAway_of_moved (hgap : batch.gap = false)
    (hsound : s.shared.mailbox.checkIntegrity = .ok ())
    (hmoved : (s.readied batch).mailbox.cursor ≠ since) : s.TurnsAway since batch := by
  have hnone := Mailbox.desync?_eq_none.2 (Mailbox.checkIntegrity_iff.1 hsound)
  obtain ⟨hresult, hshared⟩ := applyEvents_moved hmoved
  have heq : s.apply (some since) batch = s.applyEvents (some since) batch := by
    unfold apply
    simp only [hgap, hnone, Option.isSome_none, Bool.or_self, Bool.false_eq_true, if_false]
    split
    · next hevents =>
      rw [hevents] at hresult
      cases hresult
    · next hevents =>
      rw [hevents] at hresult
      cases hresult
    · rfl
  exact ⟨heq ▸ hresult, heq ▸ hshared⟩

/-- With a gap, or for a mailbox that is not sound, all messages are listed, whatever the cursor. -/
theorem apply_eq_resyncFrom (since? : Option (Option String))
    (h : batch.gap = true ∨ s.shared.mailbox.checkIntegrity ≠ .ok ()) :
    s.apply since? batch = s.resyncFrom batch.cursor := by
  have hlists : (batch.gap || s.shared.mailbox.desync?.isSome) = true := by
    rw [Bool.or_eq_true]
    refine h.imp_right fun hunsound => Option.isSome_iff_ne_none.2 fun hnone => hunsound ?_
    exact Mailbox.checkIntegrity_iff.2 (Mailbox.desync?_eq_none.1 hnone)
  unfold apply
  rw [if_pos hlists]

theorem cursor_resyncFrom {fallback : Option String}
    (hok : s.resyncFrom fallback = (.ok tally, s')) :
    s'.shared.mailbox.cursor = (s.remote.listing.answer.cursor <|> fallback) := by
  obtain ⟨_, _, _, hreconcile, hkept⟩ := reconcile_gathered hok
  have hcursor := Mailbox.cursor_reconcile hreconcile
  rw [hkept, Mailbox.kept_eq]
  exact hcursor

/-- A batch that was asked for with another cursor than the mailbox has. Without a gap, on a sound
mailbox, it is turned away and changes nothing; this goes for each of two batches that were asked
for with one cursor, once the other has moved the mailbox on. Otherwise all messages are listed as
if the batch had not come late, and if that comes to its end, the cursor is the listing's, or else
the one of the late batch. -/
theorem apply_late (since : Option String) (batch : EventBatch) (s : Site) :
    (batch.gap = false → s.shared.mailbox.checkIntegrity = .ok () →
      (s.readied batch).mailbox.cursor ≠ since → s.TurnsAway since batch) ∧
    (s.shared.mailbox.checkIntegrity = .ok () → s.Allows sparesNames →
      ∀ tally s', s.apply (some since) batch = (.ok tally, s') →
        ∀ other : EventBatch, other.gap = false → (s'.readied other).mailbox.cursor ≠ since →
          s'.TurnsAway since other) ∧
    (batch.gap = true ∨ s.shared.mailbox.checkIntegrity ≠ .ok () →
      s.apply (some since) batch = s.resyncFrom batch.cursor ∧
      ∀ tally s', s.apply (some since) batch = (.ok tally, s') →
        s'.shared.mailbox.cursor = (s.remote.listing.answer.cursor <|> batch.cursor)) := by
  refine ⟨turnsAway_of_moved, fun hsound hallows tally s' hok other hgap hmoved => ?_,
    fun hlists => ?_⟩
  · exact turnsAway_of_moved hgap ((apply_mends hok).2.2 hallows hsound) hmoved
  · have heq := apply_eq_resyncFrom (some since) hlists
    exact ⟨heq, fun tally s' hok => cursor_resyncFrom (heq.symm.trans hok)⟩

/-- A site whose mailbox has been followed up to a cursor, while nothing is left on the remote
account. -/
def withAdvanced : Site where
  shared :=
    { mailbox := (Mailbox.create "INBOX" 0).editAll
        [.receive { remoteId := "a" }, .setCursor (some "5"), .commit, .takeUnsaved] }
  remote := { listing := { answer := { taken := 0 } } }
  decryption? := none
  settings := {}
  clock := 0
  elapsed := 0

theorem allows_withAdvanced : withAdvanced.Allows sparesNames := fun _ hop => nomatch hop

def arrival (id : String) (cursor : String) : EventBatch :=
  { events := [.created { id }], cursor := some cursor }

/-- Of two batches that were asked for with one cursor, the second is turned away, and so is one
that was asked for long before. -/
theorem apply_late_withAdvanced :
    withAdvanced.shared.mailbox.checkIntegrity = .ok () ∧
    ((withAdvanced.apply (some (some "1")) (arrival "b" "2")).1 =
        .error (.failed (.mailbox (.conflict "INBOX" "cursor moved while fetching events"))) ∧
      (withAdvanced.apply (some (some "1")) (arrival "b" "2")).2.shared = withAdvanced.shared) ∧
    ∃ s', withAdvanced.apply (some (some "5")) (arrival "b" "6") = (.ok { created := 1 }, s') ∧
      s'.shared.mailbox.roster.toList = ["a", "b"] ∧
      (s'.apply (some (some "5")) (arrival "c" "6")).2.shared = s'.shared := by
  have hlate : withAdvanced.TurnsAway (some "1") (arrival "b" "2") :=
    (apply_late (some "1") (arrival "b" "2") withAdvanced).1 rfl rfl (by decide)
  have hfirst : (withAdvanced.apply (some (some "5")) (arrival "b" "6")).1 =
      .ok { created := 1 } := rfl
  have hmoved : ((withAdvanced.apply (some (some "5")) (arrival "b" "6")).2.readied
      (arrival "c" "6")).mailbox.cursor ≠ some "5" := by decide +kernel
  have hsecond := (apply_late (some "5") (arrival "b" "6") withAdvanced).2.1 rfl
    allows_withAdvanced _ _ (Prod.ext hfirst rfl) (arrival "c" "6") rfl hmoved
  exact ⟨rfl, ⟨hlate.answer, hlate.shared.trans (idle_of_journal rfl)⟩, _, Prod.ext hfirst rfl,
    rfl, hsecond.shared.trans (idle_of_journal rfl)⟩

/-- A site whose mailbox is to issue a UID that its message has. -/
def withRegressed : Site :=
  { withAdvanced with
    shared := { withAdvanced.shared with
      mailbox := { withAdvanced.shared.mailbox with uids := ⟨⟨.one⟩, some .least⟩ } } }

/-- A late batch with a gap empties a sound mailbox and sets its cursor back, and so does one
without a gap to a mailbox that is not sound. -/
theorem late_batch_takes_effect :
    withAdvanced.shared.mailbox.checkIntegrity = .ok () ∧
    withAdvanced.shared.mailbox.cursor = some "5" ∧
    (withAdvanced.apply (some (some "1")) { gap := true, cursor := some "2" }).1 =
      .ok { removed := 1, resynced := true, expunged := [.least] } ∧
    (withAdvanced.apply (some (some "1"))
      { gap := true, cursor := some "2" }).2.shared.mailbox.cursor = some "2" ∧
    withRegressed.shared.mailbox.checkIntegrity =
      .error (.desync "INBOX" (.uidNextRegression .least)) ∧
    withRegressed.shared.mailbox.cursor = some "5" ∧
    (withRegressed.apply (some (some "1")) (arrival "b" "2")).1 =
      .ok { removed := 1, resynced := true, expunged := [.least] } ∧
    (withRegressed.apply (some (some "1")) (arrival "b" "2")).2.shared.mailbox.cursor =
      some "2" := by
  refine ⟨rfl, rfl, ?_, ?_, rfl, rfl, ?_, ?_⟩ <;> decide +kernel

end Site

end MailBridge

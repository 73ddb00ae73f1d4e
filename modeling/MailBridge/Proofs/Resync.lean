import Mathlib.Data.List.Basic
import MailBridge.Proofs.Meanwhile
import MailBridge.Proofs.Roster

/-! # Who is in a mailbox after a full listing

Unless its UIDs are voided, a mailbox that is made to match a listing gets every listed message
that it did not have and loses the messages that are not listed. Spared are those marked for
removal that do not wait to be expunged: they are left for a client to expunge.
-/

namespace MailBridge

def Listing.roster (l : Listing) : OrderedSet RemoteId := .ofList (l.messages.map (·.id))

theorem Listing.mem_roster {l : Listing} {id : RemoteId} :
    id ∈ l.roster ↔ ∃ message ∈ l.messages, message.id = id := by
  simp [roster]

theorem RemoteMessage.mem_firstListed {id : RemoteId} {l : List RemoteMessage} :
    (∃ message ∈ firstListed l, message.id = id) ↔ ∃ message ∈ l, message.id = id := by
  induction l with
  | nil => simp [firstListed]
  | cons first rest ih =>
      simp only [firstListed, List.mem_cons, exists_eq_or_imp, List.mem_filter, decide_eq_true_eq]
      by_cases heq : first.id = id
      · simp [heq]
      · rw [← ih]
        refine or_congr_right ⟨?_, ?_⟩
        · rintro ⟨message, ⟨hmem, _⟩, hid⟩
          exact ⟨message, hmem, hid⟩
        · rintro ⟨message, hmem, hid⟩
          exact ⟨message, ⟨hmem, fun hsame => heq (hsame.symm.trans hid)⟩, hid⟩

/-- What a correction does to the roster. -/
def Correction.movement : Correction → Movement
  | create id => .comes id
  | mergeFlags _ _ => .stays
  | remove id => .goes id

namespace Mailbox

/-- The message with the remote name is marked for removal and does not wait to be expunged. -/
def Spares (m : Mailbox) (id : RemoteId) : Prop :=
  ∃ r ∈ m.store.messages, r.remoteId = id ∧ Flags.isDeleted r.flags = true ∧ r.uid ∉ m.pending

variable {m m' : Mailbox} {id : RemoteId} {updatesFlags : Bool} {prepared : List MessageContent}
  {taken : Instant} {tally tally' : Tally}

theorem Coherent.eq_of_remoteId (h : m.Coherent) {a b : Message} (ha : a ∈ m.store.messages)
    (hb : b ∈ m.store.messages) (hab : a.remoteId = b.remoteId) : a = b :=
  h.distinct.eq_of_uid_eq ha hb ((h.indexed b.remoteId).uid_eq ha hb hab rfl)

/-! ## Corrections -/

theorem correct_ok {correction : Correction} (h : m.Coherent)
    (hok : m.correct updatesFlags prepared taken tally correction = (.ok tally', m')) :
    tally'.invalidated = tally.invalidated ∧
      ∀ id, m'.presence id = (m.presence id).after id correction.movement := by
  cases correction with
  | remove other =>
      have hmark := presence_markRemoved h other
      simp only [correct] at hok
      split at hok <;> next hresult =>
        rw [hresult] at hmark
        cases hok
        exact ⟨rfl, hmark⟩
  | mergeFlags other flags =>
      have hmerge := presence_mergeFlags m other flags taken
      simp only [correct] at hok
      split at hok
      · split at hok <;> next hresult =>
          rw [hresult] at hmerge
          cases hok
          exact ⟨rfl, hmerge⟩
      · cases hok
        exact ⟨rfl, fun _ => rfl⟩
  | create other =>
      simp only [correct] at hok
      split at hok
      · cases hok
      · next content hcontent =>
        have hid : content.remoteId = other := by simpa using List.find?_some hcontent
        split at hok
        · cases hok
        · next hresult =>
          cases hok
          exact ⟨rfl, fun id => hid ▸ presence_receive h hresult⟩

theorem correctAll_ok {corrections : List Correction} (h : m.Coherent)
    (hok : m.correctAll updatesFlags prepared taken tally corrections = (.ok tally', m')) :
    m'.Coherent ∧ tally'.invalidated = tally.invalidated ∧
      ∀ id, m'.presence id =
        (corrections.map Correction.movement).foldl (Presence.after id) (m.presence id) := by
  induction corrections generalizing m tally with
  | nil =>
      cases hok
      exact ⟨h, rfl, fun _ => rfl⟩
  | cons correction rest ih =>
      unfold correctAll at hok
      split at hok
      · cases hok
      · next hcorrect =>
        have hedited := edited_correct updatesFlags prepared taken tally correction m
        rw [hcorrect] at hedited
        obtain ⟨htally, hpresence⟩ := correct_ok h hcorrect
        obtain ⟨h', htally', hpresence'⟩ := ih (h.edited hedited) hok
        refine ⟨h', htally'.trans htally, fun id => ?_⟩
        rw [hpresence', hpresence]
        rfl

theorem Orderly.desync? (ho : m.Orderly) :
    m.desync? = none ∨ m.desync? = some .brokenIndex := by
  unfold Mailbox.desync?
  rw [MessageStore.duplicateUid?_eq_none.2 ho.distinct]
  dsimp only
  split
  · next greatest next hgreatest hnext =>
    have hbelow := (below_iff_greatest hgreatest hnext).1 ho.below
    rw [if_neg (by omega)]
    split <;> simp
  · split <;> simp

theorem mend_eq (ho : m.Orderly) (now : Instant) (invalidate : Bool) :
    m.mend now invalidate =
      if (invalidate || m.desync?.isSome) = true then (true, (m.invalidate now).2)
      else (false, m) := by
  unfold mend
  cases invalidate with
  | true => rfl
  | false =>
      rcases ho.desync? with hnone | hbroken
      · simp [hnone]
      · simp [hbroken, Desync.isMendable]

end Mailbox

namespace Site

/-- Nobody else changes the mailbox while the remote account is asked for a listing. -/
def Undisturbed (s : Site) : Prop :=
  s.remote.listing.meanwhile = [] ∧ s.remote.whileDecrypting = ∅

theorem resyncFrom_kept {fallback : Option String} {s s' : Site} {tally : Tally}
    (hok : s.resyncFrom fallback = (.ok tally, s')) :
    ∃ (before : Site) (invalidate : Bool) (prepared : List MessageContent)
      (corrections : List Correction) (m' : Mailbox),
      (∀ kind, s.LeadsBy kind before) ∧ before.shared.sessions = s.shared.sessions ∧
      (s.Undisturbed → before.shared = s.shared ∧
        invalidate = (s.remote.listing.answer.recreated ||
          s.shared.mailbox.desync?.any fun d => !d.isMendable)) ∧
      before.shared.mailbox.startJournal.reconcile before.settings before.shared.sessions
          before.clock invalidate prepared s.remote.listing.answer
          (s.remote.listing.answer.cursor <|> fallback) = (.ok (tally, corrections), m') ∧
      s'.shared.mailbox = (m'.editAll [.commit, .takeUnsaved]).keepChanges := by
  have hlists (kind : Edit → Bool) : s.LeadsBy kind s.list.2 := leadsBy_list s
  unfold resyncFrom at hok
  split at hok
  · cases hok
  · next listing s₁ hlist =>
    obtain ⟨rfl, _, hsessions, halone⟩ := list_ok hlist
    rw [hlist] at hlists
    dsimp only at hok hlists
    -- which messages are decrypted does not matter to the mailbox
    generalize List.filter _ (RemoteMessage.firstListed _) = unknown at hok
    have hprepares (kind : Edit → Bool) : s.LeadsBy kind _ := ((hlists kind).trans
      (leadsBy_of_shared (t := s₁.report (.listed s₁.name s.remote.listing.answer.messages.length))
        rfl fun _ => id)).trans (leadsBy_prepareAll unknown _)
    have hprepared := interim_prepareAll unknown
      (s₁.report (.listed s₁.name s.remote.listing.answer.messages.length))
    generalize prepareAll unknown _ = prepared at hok hprepared hprepares
    obtain ⟨contents, before⟩ := prepared
    split at hok
    · cases hok
    · next tally' corrections s₂ hmutate =>
      obtain ⟨hreconcile, cache?, hshared⟩ := mutate_ok hmutate
      have htally : tally' = tally := Except.ok.inj (Prod.mk.inj hok).1
      subst htally
      refine ⟨before, _, contents, corrections, _, hprepares,
        hprepared.sessions.trans hsessions, fun hundisturbed => ?_,
        Prod.ext hreconcile rfl, ?_⟩
      · obtain ⟨hmeanwhile, hdecrypting⟩ := hundisturbed
        obtain ⟨hshared₁, hremote₁⟩ := halone hmeanwhile
        obtain ⟨hshared₂, _⟩ := hprepared.alone (hremote₁.trans hdecrypting)
        exact ⟨hshared₂.trans hshared₁, by rw [← hshared₁]; rfl⟩
      · have hlast : s'.shared = s₂.shared := by
          rw [← (Prod.mk.inj hok).2]
          simp only [report]
          split
          · exact shared_foldl_report (fun s c => .corrected s.name c) corrections s₂
          · exact shared_foldl_report (fun s c => .corrected s.name c) corrections s₂
        rw [hlast, hshared]

/-- A mailbox with a message that is marked for removal and one that is not. Neither is listed. -/
def withLeftovers : Site where
  shared :=
    { mailbox := (Mailbox.create "INBOX" 0).editAll
        [.receive { remoteId := "a" }, .receive { remoteId := "b" },
          .setFlags 0 .least (OrderedSet.insert .deleted ∅) .add, .commit, .takeUnsaved] }
  remote := { listing := { answer := { messages := [{ id := "c" }], taken := 0 } } }
  decryption? := none
  settings := {}
  clock := 0
  elapsed := 0

theorem resync_withLeftovers : withLeftovers.resync =
    (.ok { created := 1, removed := 1, expunged := [⟨⟨2, by decide, by decide⟩⟩]
           resynced := true },
      withLeftovers.resync.2) := by
  refine Prod.ext ?_ rfl
  decide +kernel

end Site

end MailBridge

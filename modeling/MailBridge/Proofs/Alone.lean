import MailBridge.Proofs.Replay
import MailBridge.Proofs.Resync

/-! # Rounds that nobody disturbs

If nobody else changes the mailbox while the remote account is asked, a round is a run of a few
changes of the mailbox as the round found it: the batch, a new epoch, the listing. Each part of a
round then comes down to the one change that it makes.
-/

namespace MailBridge.Site

/-- Nobody else changes the mailbox while the remote account is asked for anything. -/
def Alone (s : Site) : Prop :=
  s.Undisturbed ∧ ∀ delivery ∈ s.remote.batches, delivery.meanwhile = []

/-- The site some time later: nothing is different but the time, what has been recorded, and the
outages that are to come. -/
def Passes (s s' : Site) : Prop :=
  ∃ elapsed calls notices outages,
    s' = { s with elapsed, calls, notices, remote := { s.remote with outages } }

/-- The site with more recorded: nothing else is different. -/
def Records (s s' : Site) : Prop := ∃ calls notices, s' = { s with calls, notices }

namespace Records

variable {s s' s'' : Site}

theorem refl (s : Site) : s.Records s := ⟨s.calls, s.notices, rfl⟩

theorem trans (h : s.Records s') (h' : s'.Records s'') : s.Records s'' := by
  obtain ⟨calls, notices, rfl⟩ := h
  obtain ⟨calls', notices', rfl⟩ := h'
  exact ⟨calls', notices', rfl⟩

theorem passes (h : s.Records s') : s.Passes s' := by
  obtain ⟨calls, notices, rfl⟩ := h
  exact ⟨s.elapsed, calls, notices, s.remote.outages, rfl⟩

theorem remote (h : s.Records s') : s'.remote = s.remote := by
  obtain ⟨_, _, rfl⟩ := h
  rfl

theorem reshare (h : s.Records s') (shared : SharedMailbox) :
    Records { s with shared } { s' with shared } := by
  obtain ⟨calls, notices, rfl⟩ := h
  exact ⟨calls, notices, rfl⟩

end Records

namespace Passes

variable {s s' s'' : Site}

theorem refl (s : Site) : s.Passes s := ⟨s.elapsed, s.calls, s.notices, s.remote.outages, rfl⟩

theorem trans (h : s.Passes s') (h' : s'.Passes s'') : s.Passes s'' := by
  obtain ⟨elapsed, calls, notices, outages, rfl⟩ := h
  obtain ⟨elapsed', calls', notices', outages', rfl⟩ := h'
  exact ⟨elapsed', calls', notices', outages', rfl⟩

theorem record (call : Call) (s : Site) : s.Passes (s.record call) := ⟨_, _, _, _, rfl⟩

theorem report (notice : Notice) (s : Site) : s.Passes (s.report notice) := ⟨_, _, _, _, rfl⟩

theorem outlast (outages : List Outage) (s : Site) :
    s.Passes { s with remote := { s.remote with outages } } := ⟨_, _, _, _, rfl⟩

theorem wait (delay : Nat) (s : Site) : s.Passes (s.wait delay).2 := by
  unfold Site.wait
  dsimp only
  split
  · split <;> exact ⟨_, _, _, _, rfl⟩
  · exact ⟨_, _, _, _, rfl⟩

theorem shared (h : s.Passes s') : s'.shared = s.shared := by
  obtain ⟨_, _, _, _, rfl⟩ := h
  rfl

theorem settings (h : s.Passes s') : s'.settings = s.settings := by
  obtain ⟨_, _, _, _, rfl⟩ := h
  rfl

theorem clock (h : s.Passes s') : s'.clock = s.clock := by
  obtain ⟨_, _, _, _, rfl⟩ := h
  rfl

theorem undisturbed (h : s.Passes s') (hs : s.Undisturbed) : s'.Undisturbed := by
  obtain ⟨_, _, _, _, rfl⟩ := h
  exact hs

end Passes

/-! ## Asking -/

variable {s s' : Site}

theorem prepare_records (hnone : s.remote.whileDecrypting = ∅) (message : RemoteMessage) :
    s.Records (s.prepare message).2 := by
  unfold prepare
  dsimp only
  split
  · exact .refl s
  · exact .refl s
  · next secret d _ _ =>
    have hdecrypt : s.Records (s.decrypt d message.id secret).2 := by
      obtain ⟨shared, remote, decryption?, settings, clock, elapsed, deadline?, calls, notices⟩ := s
      obtain ⟨batches, listing, outages, whileDecrypting⟩ := remote
      subst hnone
      exact ⟨_, _, rfl⟩
    split <;> next h =>
      rw [h] at hdecrypt
      exact hdecrypt

theorem prepareAll_records (hnone : s.remote.whileDecrypting = ∅) (messages : List RemoteMessage) :
    s.Records (prepareAll messages s).2 ∧
      (prepareAll messages s).1.map (·.remoteId) = messages.map (·.id) := by
  induction messages generalizing s with
  | nil => exact ⟨.refl s, rfl⟩
  | cons message rest ih =>
      have hfirst := prepare_records hnone message
      have hid := (interim_prepare message s).2
      obtain ⟨hrest, hids⟩ := ih (s := (s.prepare message).2) (by
        rw [hfirst.remote]
        exact hnone)
      refine ⟨hfirst.trans hrest, ?_⟩
      simp only [prepareAll, List.map_cons, hid, hids]

theorem prepareEvents_records (hnone : s.remote.whileDecrypting = ∅) (events : List RemoteEvent) :
    s.Records (prepareEvents events s).2 := by
  induction events generalizing s with
  | nil => exact .refl s
  | cons event rest ih =>
      cases event with
      | created message =>
          have hfirst := prepare_records hnone message
          refine hfirst.trans (ih ?_)
          rw [hfirst.remote]
          exact hnone
      | updated => exact ih hnone
      | removed => exact ih hnone

theorem receive_passes {α : Type} {d : Delivery α} (h : d.meanwhile = []) (s : Site) :
    s.Passes (s.receive d).2 := by
  have hwait := Passes.wait d.delay s
  unfold receive
  split <;> next hw =>
    rw [hw] at hwait
    simpa [h, interfere_nil] using hwait

/-- When the listing comes: the remote account answers, and before the deadline if there is one. -/
theorem list_fst {listing : Listing} : s.list.1 = .ok listing ↔
    (Outage.next s.remote.outages).1 = true ∧
    (∀ deadline, s.deadline? = some deadline → s.elapsed + s.remote.listing.delay ≤ deadline) ∧
    s.remote.listing.answer = listing := by
  unfold list ask receive wait record
  dsimp only
  split
  · next hanswers =>
    cases s.deadline? with
    | none => simp [hanswers]
    | some deadline =>
        by_cases hlate : deadline < s.elapsed + s.remote.listing.delay
        · simp [hlate, Nat.not_le_of_lt hlate]
        · simp [hlate, hanswers, Nat.le_of_not_lt hlate]
  · next hanswers => simp [hanswers]

theorem ask_passes {α : Type} {question : Site → Except Halt α × Site} {result : Except Halt α}
    (h : s.ask question = (result, s')) :
    (∃ halt, result = .error halt ∧ s.Passes s') ∨
      ∃ outages, question { s with remote := { s.remote with outages } } = (result, s') := by
  unfold ask at h
  dsimp only at h
  split at h
  · exact .inr ⟨_, h⟩
  · cases h
    exact .inl ⟨_, rfl, .outlast _ s⟩

theorem list_passes {result : Except Halt Listing} (h : s.Undisturbed)
    (hlist : s.list = (result, s')) : s.Passes s' := by
  rcases ask_passes hlist with ⟨halt, rfl, hpasses⟩ | ⟨outages, hreceived⟩
  · exact (Passes.record ..).trans hpasses
  · let asked : Site := { s.record (.list s.elapsed s.name) with
      remote := { s.remote with outages } }
    have hasked : s.Passes asked := (Passes.record ..).trans (.outlast outages _)
    have hsecond : (asked.receive s.remote.listing).2 = s' := congrArg Prod.snd hreceived
    have hpasses := receive_passes (d := s.remote.listing) h.1 asked
    rw [hsecond] at hpasses
    exact hasked.trans hpasses

/-- A batch that does not come leaves the mailbox alone, and after one that comes only the later
batches are left. -/
theorem fetch_passes {result : Except Halt EventBatch} {cursor : Option String} (h : s.Alone)
    (hfetch : s.fetch cursor = (result, s')) :
    s'.shared = s.shared ∧ ∀ batch, result = .ok batch →
      ∃ batches, Passes { s with remote := { s.remote with batches } } s' := by
  rcases ask_passes hfetch with ⟨halt, rfl, hpasses⟩ | ⟨outages, hasked⟩
  · exact ⟨hpasses.shared, fun batch hbatch => by cases hbatch⟩
  · dsimp only at hasked
    split at hasked
    · cases hasked
      exact ⟨rfl, fun batch _ => ⟨s.remote.batches, (Passes.record ..).trans (.outlast outages _)⟩⟩
    · next delivery batches hbatches =>
      have hbatches' : s.remote.batches = delivery :: batches := hbatches
      have hmeanwhile : delivery.meanwhile = [] := h.2 delivery (by simp [hbatches'])
      let asked : Site := { s.record (.fetch s.elapsed s.name cursor) with
        remote := { s.remote with batches, outages } }
      have hpasses := receive_passes hmeanwhile asked
      have hsecond : (asked.receive delivery).2 = s' := congrArg Prod.snd hasked
      have hasked : Passes { s with remote := { s.remote with batches } } asked := ⟨_, _, _, _, rfl⟩
      rw [hsecond] at hpasses
      exact ⟨hpasses.shared, fun batch _ => ⟨batches, hasked.trans hpasses⟩⟩

/-! ## What a round makes of its answers -/

/-- What a change of the mailbox gives to a round. -/
def outcome {α : Type} (result : Except MailboxError α) : Except Halt α :=
  result.mapError fun e => .failed (.mailbox e)

theorem mutate_eq {α : Type} (f : Mailbox → Except MailboxError α × Mailbox) (s : Site) :
    s.mutate f = (outcome (s.shared.mutate f).1, { s with shared := (s.shared.mutate f).2 }) := by
  unfold mutate
  split <;> next h => rw [h]; rfl

/-- Whether the mailbox begins a new epoch to match a listing. -/
def renewing (listing : Listing) (s : Site) : Bool :=
  listing.recreated || s.shared.mailbox.desync?.any fun d => !d.isMendable

/-- The listed messages whose content is needed to match a listing. -/
def wanted (listing : Listing) (s : Site) : List RemoteMessage :=
  (RemoteMessage.firstListed listing.messages).filter fun message =>
    s.renewing listing || (s.shared.mailbox.store.uidOf? message.id).isNone

/-- The change that makes the mailbox match a listing, given the contents it needs. -/
def matching (listing : Listing) (fallback : Option String) (prepared : List MessageContent)
    (s : Site) (m : Mailbox) : Except MailboxError (Tally × List Correction) × Mailbox :=
  m.reconcile s.settings s.shared.sessions s.clock (s.renewing listing) prepared listing
    (listing.cursor <|> fallback)

theorem resyncFrom_eq {listing : Listing} (h : s.Undisturbed) (hlist : s.list = (.ok listing, s'))
    (fallback : Option String) : ∃ prepared : List MessageContent,
      prepared.map (·.remoteId) = (s.wanted listing).map (·.id) ∧
      (s.resyncFrom fallback).1 =
        outcome ((s.shared.mutate (s.matching listing fallback prepared)).1.map Prod.fst) ∧
      (s.resyncFrom fallback).2.shared =
        (s.shared.mutate (s.matching listing fallback prepared)).2 := by
  have hpasses := list_passes h hlist
  unfold resyncFrom
  rw [hlist]
  dsimp only
  replace hpasses := hpasses.trans (.report (.listed s'.name listing.messages.length) s')
  generalize s'.report (.listed s'.name listing.messages.length) = s₁ at hpasses ⊢
  generalize hrenewing : (listing.recreated || _) = invalidate
  generalize hwanted : List.filter _ (RemoteMessage.firstListed listing.messages) = unknown
  rw [hpasses.shared] at hrenewing hwanted
  obtain ⟨hprepared, hids⟩ := prepareAll_records (hpasses.undisturbed h).2 unknown
  replace hpasses := hpasses.trans hprepared.passes
  generalize prepareAll unknown s₁ = prepared at hpasses hids ⊢
  have hunknown : s.wanted listing = unknown := by
    rw [← hwanted, ← hrenewing]
    rfl
  refine ⟨prepared.1, hunknown ▸ hids, ?_⟩
  have hmatching : (fun m => Mailbox.reconcile prepared.2.settings prepared.2.shared.sessions
      prepared.2.clock invalidate prepared.1 listing (listing.cursor <|> fallback) m) =
      s.matching listing fallback prepared.1 := by
    rw [hpasses.settings, hpasses.shared, hpasses.clock, ← hrenewing]
    rfl
  rw [hmatching, mutate_eq, hpasses.shared]
  cases (s.shared.mutate (s.matching listing fallback prepared.1)).1 with
  | error e => exact ⟨rfl, rfl⟩
  | ok result =>
      refine ⟨rfl, ?_⟩
      dsimp only [outcome, Except.mapError, report]
      split
      · exact shared_foldl_report (fun s c => .corrected s.name c) ..
      · exact shared_foldl_report (fun s c => .corrected s.name c) ..

theorem applyEvents_alone (h : s.Undisturbed) (since? : Option (Option String))
    (batch : EventBatch) : ∃ (events : List Prepared) (s' : Site), s.Records s' ∧
      (s.applyEvents since? batch).1 = outcome (s.shared.mutate
        (·.applyBatch s.settings s.shared.sessions since? events batch.cursor)).1 ∧
      (s.applyEvents since? batch).2 = { s' with shared := (s.shared.mutate
        (·.applyBatch s.settings s.shared.sessions since? events batch.cursor)).2 } := by
  have hprepared := prepareEvents_records h.2 batch.events
  unfold applyEvents
  dsimp only
  generalize s.prepareEvents batch.events = prepared at hprepared ⊢
  generalize (if prepared.2.settings.ordered then _ else _) = events
  rw [hprepared.passes.settings, hprepared.passes.shared, mutate_eq, hprepared.passes.shared]
  refine ⟨events, ?_⟩
  cases (s.shared.mutate
    (·.applyBatch s.settings s.shared.sessions since? events batch.cursor)).1 with
  | error e => exact ⟨prepared.2, hprepared, rfl, rfl⟩
  | ok tally =>
      obtain ⟨calls, notices, heq⟩ := hprepared
      exact ⟨_, ⟨calls, _, rfl⟩, rfl, by rw [heq]; rfl⟩

theorem invalidate_eq (s : Site) :
    s.invalidate.1 = outcome (s.shared.invalidate s.clock).1 ∧ ∃ s', s.Records s' ∧
      s.invalidate.2 = { s' with shared := (s.shared.invalidate s.clock).2 } := by
  have hinvalidate : s.mutate (fun m => ((.ok (m.invalidate s.clock).1 : Except MailboxError _),
      (m.invalidate s.clock).2)) = (outcome (s.shared.invalidate s.clock).1,
        { s with shared := (s.shared.invalidate s.clock).2 }) := mutate_eq ..
  unfold invalidate
  dsimp only
  rw [hinvalidate]
  cases (s.shared.invalidate s.clock).1 with
  | error e => exact ⟨rfl, s, .refl s, rfl⟩
  | ok validity => exact ⟨rfl, { s with notices := _ }, ⟨s.calls, _, rfl⟩, rfl⟩

end MailBridge.Site

import MailBridge.Proofs.Meanwhile
import MailBridge.Proofs.Roster

/-! # Who is in a mailbox after a batch of events

Messages that come are added at once, messages that go are only marked and leave with the flush at
the end of the batch. So a message that the batch takes away is gone after it, even if the batch
brings it back later; apart from that, the roster is what the events make of it one by one.
-/

namespace MailBridge

namespace RemoteEvent

def replayOne (roster : OrderedSet RemoteId) : RemoteEvent → OrderedSet RemoteId
  | created message => roster.insert message.id
  | updated _ _ _ => roster
  | removed id => roster.erase id

def replay (events : List RemoteEvent) (roster : OrderedSet RemoteId) : OrderedSet RemoteId :=
  events.foldl replayOne roster

/-- Some event takes away a message that is there when it comes to it. -/
def Withdraws (events : List RemoteEvent) (roster : OrderedSet RemoteId) (id : RemoteId) : Prop :=
  ∃ front back, events = front ++ removed id :: back ∧ id ∈ replay front roster

/-- What the event does to the roster of a mailbox. -/
def movement : RemoteEvent → Movement
  | created message => .comes message.id
  | updated _ _ _ => .stays
  | removed id => .goes id

variable {events : List RemoteEvent} {roster : OrderedSet RemoteId} {id : RemoteId}

theorem withdraws_cons {event : RemoteEvent} :
    Withdraws (event :: events) roster id ↔
      event = removed id ∧ id ∈ roster ∨ Withdraws events (replayOne roster event) id := by
  constructor
  · rintro ⟨front, back, heq, hthere⟩
    cases front with
    | nil =>
        obtain ⟨rfl, -⟩ := List.cons.inj heq
        exact .inl ⟨rfl, hthere⟩
    | cons first front =>
        obtain ⟨rfl, rfl⟩ := List.cons.inj heq
        exact .inr ⟨front, back, rfl, hthere⟩
  · rintro (⟨rfl, hthere⟩ | ⟨front, back, rfl, hthere⟩)
    · exact ⟨[], events, rfl, hthere⟩
    · exact ⟨event :: front, back, rfl, hthere⟩

theorem foldl_leaving : (events.map movement).foldl (Presence.after id) .leaving = .leaving := by
  induction events with
  | nil => rfl
  | cons event rest ih =>
      cases event <;> simpa [movement, Presence.after] using ih

/-- The name is there after the events and a flush if the replay has it, unless it was withdrawn. -/
theorem foldl_movements {p : Presence} (hthere : p = .present ↔ id ∈ roster)
    (hstays : p ≠ .leaving) :
    ((events.map movement).foldl (Presence.after id) p).flushed ≠ .absent ↔
      id ∈ replay events roster ∧ ¬ Withdraws events roster id := by
  induction events generalizing p roster with
  | nil =>
      have hnone : ¬ Withdraws [] roster id := by
        rintro ⟨front, back, heq, _⟩
        cases front <;> cases heq
      cases p <;> simp_all [replay, Presence.flushed]
  | cons event rest ih =>
      rw [List.map_cons, List.foldl_cons, withdraws_cons]
      have hreplay : replay (event :: rest) roster = replay rest (replayOne roster event) := rfl
      rw [hreplay]
      cases event with
      | created message =>
          simp only [movement, reduceCtorEq, false_and, false_or]
          refine ih ?_ ?_
          · by_cases heq : id = message.id <;> cases p <;> simp_all [Presence.after, replayOne]
          · by_cases heq : id = message.id <;> cases p <;> simp_all [Presence.after]
      | updated other flags taken =>
          simp only [movement, reduceCtorEq, false_and, false_or]
          exact ih hthere hstays
      | removed other =>
          simp only [movement, removed.injEq]
          by_cases hgoes : id = other ∧ p = .present
          · obtain ⟨rfl, hpresent⟩ := hgoes
            -- it will be flushed, whatever comes later
            rw [Presence.after, if_pos ⟨rfl, hpresent⟩, foldl_leaving]
            simp [Presence.flushed, hthere.1 hpresent]
          · have hnot : ¬ (other = id ∧ id ∈ roster) := by
              rintro ⟨rfl, hmem⟩
              exact hgoes ⟨rfl, hthere.2 hmem⟩
            rw [Presence.after, if_neg hgoes]
            simp only [hnot, false_or]
            refine ih ?_ hstays
            rw [hthere, replayOne, OrderedSet.mem_erase]
            refine ⟨fun hmem => ⟨hmem, ?_⟩, And.left⟩
            rintro rfl
            exact hnot ⟨rfl, hmem⟩

end RemoteEvent

/-- What a prepared event does to the roster of a mailbox. -/
def Prepared.movement : Prepared → Movement
  | create content => .comes content.remoteId
  | update _ _ _ => .stays
  | remove id => .goes id

theorem Site.movements_prepareEvents (events : List RemoteEvent) (s : Site) :
    (s.prepareEvents events).1.map Prepared.movement = events.map RemoteEvent.movement := by
  induction events generalizing s with
  | nil => rfl
  | cons event rest ih =>
      cases event with
      | created message =>
          have hid := (interim_prepare message s).2
          simp [prepareEvents, Prepared.movement, RemoteEvent.movement, ih, hid]
      | updated => simp [prepareEvents, Prepared.movement, RemoteEvent.movement, ih]
      | removed => simp [prepareEvents, Prepared.movement, RemoteEvent.movement, ih]

namespace Mailbox

variable {m m' : Mailbox} {updatesFlags : Bool} {tally tally' : Tally}

theorem applyEvent_ok {event : Prepared} (h : m.Coherent)
    (hok : m.applyEvent updatesFlags tally event = (.ok tally', m')) (id : RemoteId) :
    m'.presence id = (m.presence id).after id event.movement := by
  cases event with
  | create content =>
      simp only [applyEvent] at hok
      split at hok
      · cases hok
      · next hresult =>
        split at hok <;> cases hok <;> exact presence_receive h hresult
  | update other flags taken =>
      have hmerge := presence_mergeFlags m other flags taken id
      simp only [applyEvent] at hok
      split at hok
      · split at hok <;> next hresult =>
          rw [hresult] at hmerge
          cases hok
          exact hmerge
      · cases hok
        rfl
  | remove other =>
      have hmark := presence_markRemoved h other id
      simp only [applyEvent] at hok
      split at hok <;> next hresult =>
        rw [hresult] at hmark
        cases hok
        exact hmark

theorem applyEvents_ok {events : List Prepared} (h : m.Coherent)
    (hok : m.applyEvents updatesFlags tally events = (.ok tally', m')) :
    m'.Coherent ∧ ∀ id, m'.presence id =
      (events.map Prepared.movement).foldl (Presence.after id) (m.presence id) := by
  induction events generalizing m tally with
  | nil =>
      cases hok
      exact ⟨h, fun _ => rfl⟩
  | cons event rest ih =>
      unfold applyEvents at hok
      split at hok
      · cases hok
      · next hevent =>
        have hedited := edited_applyEvent updatesFlags tally event m
        rw [hevent] at hedited
        obtain ⟨h', hpresence'⟩ := ih (h.edited hedited) hok
        refine ⟨h', fun id => ?_⟩
        rw [hpresence', applyEvent_ok h hevent]
        rfl

theorem roster_applyBatch {settings : SyncSettings} {since? : Option (Option String)}
    {events : List Prepared} {cursor : Option String} (h : m.Coherent)
    (hok : m.applyBatch settings 0 since? events cursor = (.ok tally, m')) (id : RemoteId) :
    id ∈ m'.roster ↔ ((events.map Prepared.movement).foldl (Presence.after id)
      (m.presence id)).flushed ≠ .absent := by
  unfold applyBatch at hok
  split at hok
  · cases hok
  · split at hok
    · cases hok
    · next tally' m₁ hevents =>
      obtain ⟨h₁, hpresence⟩ := applyEvents_ok h hevents
      dsimp only at hok
      obtain ⟨-, rfl⟩ := Prod.mk.inj hok
      have hcursor : (if cursor.isSome then m₁.setCursor cursor else m₁).Coherent ∧
          (if cursor.isSome then m₁.setCursor cursor else m₁).presence id = m₁.presence id := by
        split
        · exact ⟨h₁.editAll [.setCursor cursor], presence_setCursor cursor⟩
        · exact ⟨h₁, rfl⟩
      have hflush := hcursor.1.edited (edited_flushUnlessSelected 0 _)
      rw [hflush.mem_roster_iff, presence_flushUnlessSelected hcursor.1 rfl, hcursor.2, hpresence]

theorem applyEvents_error {events : List Prepared} {e : MailboxError} (ho : m.Orderly)
    (hi : m.Indexed) (herror : (m.applyEvents updatesFlags tally events).1 = .error e) :
    e = .uidsExhausted := by
  induction events generalizing m tally with
  | nil => cases herror
  | cons event rest ih =>
      have hedited := edited_applyEvent updatesFlags tally event m
      unfold applyEvents at herror
      split at herror
      · next e' m' hevent =>
        cases herror
        cases event with
        | create content =>
            simp only [applyEvent] at hevent
            split at hevent
            · next hresult =>
              cases hevent
              exact receive_error ho hi (congrArg Prod.fst hresult)
            · split at hevent <;> cases hevent
        | update other flags taken =>
            simp only [applyEvent] at hevent
            split at hevent
            · split at hevent <;> cases hevent
            · cases hevent
        | remove other =>
            simp only [applyEvent] at hevent
            split at hevent <;> cases hevent
      · next hevent =>
        rw [hevent] at hedited
        obtain ⟨edits, rfl⟩ := hedited
        exact ih (ho.editAll edits) (hi.editAll ho.distinct edits) herror

theorem applyBatch_error {settings : SyncSettings} {sessions : Nat} {events : List Prepared}
    {cursor : Option String} {e : MailboxError} (ho : m.Orderly) (hi : m.Indexed)
    (herror : (m.applyBatch settings sessions none events cursor).1 = .error e) :
    e = .uidsExhausted := by
  unfold applyBatch at herror
  simp only [Option.any_none, Bool.false_eq_true, if_false] at herror
  split at herror
  · next hevents =>
    cases herror
    exact applyEvents_error ho hi (congrArg Prod.fst hevents)
  · cases herror

end Mailbox

namespace Site

variable {s s' : Site} {batch : EventBatch} {tally : Tally}

/-- The shared mailbox that a batch is applied to once its messages have been decrypted. -/
def readied (batch : EventBatch) (s : Site) : SharedMailbox :=
  (s.prepareEvents batch.events).2.shared

theorem readied_of_alone (hnone : s.remote.whileDecrypting = ∅) : s.readied batch = s.shared :=
  ((interim_prepareEvents batch.events s).alone hnone).1

theorem mutate_error {α : Type} {f : Mailbox → Except MailboxError α × Mailbox} {halt : Halt}
    (h : (s.mutate f).1 = .error halt) : ∃ e, halt = .failed (.mailbox e) ∧
      ((f s.shared.mailbox.startJournal).1 = .error e ∨
        ∃ cause name, e = .notPersisted cause name) := by
  unfold mutate SharedMailbox.mutate SharedMailbox.conclude at h
  dsimp only at h
  cases hresult : (f s.shared.mailbox.startJournal).1 with
  | error e =>
      simp only [hresult] at h
      cases h
      exact ⟨e, rfl, .inl rfl⟩
  | ok a =>
      simp only [hresult] at h
      split at h
      · cases h
      · next hsave =>
        split at hsave
        · cases hsave
          cases h
          exact ⟨_, rfl, .inr ⟨_, _, rfl⟩⟩
        · cases hsave

/-- A batch in order is applied to the mailbox as others left it. -/
theorem applyEvents_eq (batch : EventBatch) (since? : Option (Option String))
    (hordered : s.settings.ordered = true) : ∃ s₁,
      (s.prepareEvents batch.events).2.mutate
        (·.applyBatch s.settings s.shared.sessions since? (s.prepareEvents batch.events).1
          batch.cursor) = ((s.applyEvents since? batch).1, s₁) ∧
      (s.applyEvents since? batch).2.shared = s₁.shared := by
  have hprepared := interim_prepareEvents batch.events s
  unfold applyEvents
  generalize s.prepareEvents batch.events = prepared at hprepared ⊢
  dsimp only
  rw [hprepared.settings, hprepared.sessions, hordered, if_pos rfl]
  split <;> next h => exact ⟨_, h, rfl⟩

/-- Who is in a mailbox that no session has selected after a batch has been applied in order: the
roster is what the events make of it, but for the messages that the batch withdraws and brings back.
They are gone. -/
theorem apply_roster (hsound : s.shared.mailbox.checkIntegrity = .ok ())
    (hready : (s.readied batch).mailbox.checkIntegrity = .ok ())
    (hpending : (s.readied batch).mailbox.pending = ∅) (hsessions : s.shared.sessions = 0)
    (hordered : s.settings.ordered = true) (hgap : batch.gap = false)
    (hroom : (s.applyEvents none batch).1 ≠ .error (.failed (.mailbox .uidsExhausted)))
    (hok : s.apply none batch = (.ok tally, s')) (id : RemoteId) :
    id ∈ s'.shared.mailbox.roster ↔
      id ∈ RemoteEvent.replay batch.events (s.readied batch).mailbox.roster ∧
        ¬ RemoteEvent.Withdraws batch.events (s.readied batch).mailbox.roster id := by
  unfold readied at hready hpending ⊢
  obtain ⟨s₁, hmutate, hshared⟩ := applyEvents_eq batch none hordered
  generalize hbefore : (s.prepareEvents batch.events).2.shared = before at hready hpending ⊢
  have hnone : s.shared.mailbox.desync? = none :=
    Mailbox.desync?_eq_none.2 (Mailbox.checkIntegrity_iff.1 hsound)
  obtain ⟨ho, hi⟩ := Mailbox.checkIntegrity_iff.1 hready
  have hcoherent : before.mailbox.startJournal.Coherent :=
    ⟨ho.distinct, hi, fun uid huid => by
      rw [Mailbox.startJournal, hpending] at huid
      exact absurd huid OrderedSet.mem_empty⟩
  unfold apply at hok
  simp only [hgap, hnone, Option.isSome_none, Bool.or_self, Bool.false_eq_true, if_false] at hok
  split at hok
  · next h => exact absurd (congrArg Prod.fst h) hroom
  · next h =>
    -- the identities of a sound mailbox cannot be found broken
    rw [h] at hmutate
    obtain ⟨e, heq, hfailed | ⟨cause, name, hsave⟩⟩ := mutate_error (congrArg Prod.fst hmutate)
    · cases heq
      rw [hbefore] at hfailed
      have hroom' := Mailbox.applyBatch_error (m := before.mailbox.startJournal)
        (ho.of_eq rfl rfl) hi hfailed
      cases hroom'
    · rw [hsave] at heq
      cases heq
  · rw [hok] at hmutate hshared
    obtain ⟨hbatch, cache?, heq⟩ := mutate_ok hmutate
    rw [hsessions, hbefore] at hbatch heq
    have hstays : before.mailbox.startJournal.presence id ≠ .leaving := by
      rw [ne_eq, Mailbox.presence_eq_leaving, Mailbox.startJournal, hpending]
      rintro ⟨uid, huid, _⟩
      exact absurd huid OrderedSet.mem_empty
    have hthere : before.mailbox.startJournal.presence id = .present ↔
        id ∈ before.mailbox.roster := by
      refine Iff.trans ?_ hcoherent.mem_roster_iff.symm
      cases hp : before.mailbox.startJournal.presence id <;> simp_all
    rw [hshared, heq, Mailbox.roster_kept,
      Mailbox.roster_applyBatch hcoherent (Prod.ext hbatch rfl), movements_prepareEvents]
    exact RemoteEvent.foldl_movements hthere hstays

def withKnown : Site where
  shared :=
    { mailbox := (Mailbox.create "INBOX" 0).editAll
        [.receive { remoteId := "a" }, .commit, .takeUnsaved] }
  remote := .quiet 0
  decryption? := none
  settings := {}
  clock := 0
  elapsed := 0

/-- The message is removed and comes again, and another one comes. -/
def bringBack : EventBatch :=
  { events := [.removed "a", .created { id := "a" }, .created { id := "b" }] }

theorem applyEvents_bringBack : (withKnown.applyEvents none bringBack).1 =
    .ok { created := 1, updated := 1, removed := 1, expunged := [.least] } := rfl

theorem apply_bringBack : withKnown.apply none bringBack =
    (.ok { created := 1, updated := 1, removed := 1, expunged := [.least] },
      (withKnown.apply none bringBack).2) :=
  Prod.ext rfl rfl

theorem apply_roster_bringBack : (withKnown.apply none bringBack).1 =
      .ok { created := 1, updated := 1, removed := 1, expunged := [.least] } ∧
    ∀ id, id ∈ (withKnown.apply none bringBack).2.shared.mailbox.roster ↔
      id ∈ RemoteEvent.replay bringBack.events withKnown.shared.mailbox.roster ∧
        ¬ RemoteEvent.Withdraws bringBack.events withKnown.shared.mailbox.roster id := by
  refine ⟨congrArg Prod.fst apply_bringBack, ?_⟩
  have hready : withKnown.readied bringBack = withKnown.shared := readied_of_alone rfl
  rw [← hready]
  refine apply_roster rfl (by rw [hready]; rfl) (by rw [hready]; rfl) rfl rfl rfl ?_ apply_bringBack
  rw [applyEvents_bringBack]
  simp

/-- A message that is removed and comes again in one batch is gone, although the replay has it. -/
theorem apply_loses_returned : withKnown.shared.mailbox.checkIntegrity = .ok () ∧
    withKnown.shared.mailbox.pending = ∅ ∧ withKnown.shared.sessions = 0 ∧
    withKnown.settings.ordered = true ∧ bringBack.gap = false ∧
    (withKnown.apply none bringBack).1 =
      .ok { created := 1, updated := 1, removed := 1, expunged := [.least] } ∧
    "a" ∉ (withKnown.apply none bringBack).2.shared.mailbox.roster ∧
    "a" ∈ RemoteEvent.replay bringBack.events withKnown.shared.mailbox.roster :=
  ⟨rfl, rfl, rfl, rfl, rfl, congrArg Prod.fst apply_bringBack, by decide +kernel,
    by decide +kernel⟩

end Site

end MailBridge

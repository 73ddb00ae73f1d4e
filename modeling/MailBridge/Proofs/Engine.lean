import MailBridge.Proofs.Standing
import MailBridge.Proofs.Tending
import MailBridge.Sync.Worker

/-! # Synchronization changes a mailbox by changes

Whatever a round of synchronization does to a mailbox is a run of changes, each kept or taken
back as a whole. So is what others do while the remote account is asked. Of itself, no round takes
the mark of a recent message off.
-/

namespace MailBridge

namespace Mailbox

def Edited (m m' : Mailbox) : Prop := ∃ edits, m' = m.editAll edits

theorem Edited.refl (m : Mailbox) : Edited m m := ⟨[], rfl⟩

theorem Edited.trans {m m' m'' : Mailbox} (h : Edited m m') (h' : Edited m' m'') :
    Edited m m'' := by
  obtain ⟨edits, rfl⟩ := h
  obtain ⟨edits', rfl⟩ := h'
  exact ⟨edits ++ edits', (editAll_append ..).symm⟩

theorem edited_by (e : Edit) {m m' : Mailbox} (h : e.apply m = m') : Edited m m' :=
  ⟨[e], h.symm⟩

theorem EditedBy.edited {kind : Edit → Bool} {m m' : Mailbox} (h : EditedBy kind m m') :
    Edited m m' := by
  obtain ⟨edits, _, heq⟩ := h
  exact ⟨edits, heq⟩

/-! ## What a round does to the messages -/

theorem tended_applyEvent (updatesFlags : Bool) (tally : Tally) (event : Prepared) (m : Mailbox) :
    EditedBy Edit.tends m (m.applyEvent updatesFlags tally event).2 := by
  unfold applyEvent
  split
  · next content =>
    split
    · next h => exact .single (.receive content) rfl (congrArg Prod.snd h)
    · next h =>
      split <;> exact .single (.receive content) rfl (congrArg Prod.snd h)
  · next id flags taken =>
    split
    · split <;> next h => exact .single (.mergeFlags id flags taken) rfl (congrArg Prod.snd h)
    · exact .refl m
  · next id =>
    split <;> next h => exact .single (.markRemoved id) rfl (congrArg Prod.snd h)

theorem tended_applyEvents (updatesFlags : Bool) (tally : Tally) (events : List Prepared)
    (m : Mailbox) : EditedBy Edit.tends m (applyEvents updatesFlags tally events m).2 := by
  induction events generalizing tally m with
  | nil => exact .refl m
  | cons event rest ih =>
      have hevent := tended_applyEvent updatesFlags tally event m
      unfold applyEvents
      split
      · next h =>
        rw [h] at hevent
        exact hevent
      · next h =>
        rw [h] at hevent
        exact hevent.trans (ih ..)

theorem tended_correct (updatesFlags : Bool) (prepared : List MessageContent) (taken : Instant)
    (tally : Tally) (correction : Correction) (m : Mailbox) :
    EditedBy Edit.tends m (m.correct updatesFlags prepared taken tally correction).2 := by
  unfold correct
  split
  · next id =>
    split <;> next h => exact .single (.markRemoved id) rfl (congrArg Prod.snd h)
  · next id flags =>
    split
    · split <;> next h => exact .single (.mergeFlags id flags taken) rfl (congrArg Prod.snd h)
    · exact .refl m
  · split
    · exact .refl m
    · next content _ =>
      split <;> next h => exact .single (.receive content) rfl (congrArg Prod.snd h)

theorem tended_correctAll (updatesFlags : Bool) (prepared : List MessageContent) (taken : Instant)
    (tally : Tally) (corrections : List Correction) (m : Mailbox) :
    EditedBy Edit.tends m (correctAll updatesFlags prepared taken tally corrections m).2 := by
  induction corrections generalizing tally m with
  | nil => exact .refl m
  | cons correction rest ih =>
      have hcorrection := tended_correct updatesFlags prepared taken tally correction m
      unfold correctAll
      split
      · next h =>
        rw [h] at hcorrection
        exact hcorrection
      · next h =>
        rw [h] at hcorrection
        exact hcorrection.trans (ih ..)

/-- Messages have been looked after, and those that wait may then have been expunged. -/
def Settled (m m' : Mailbox) : Prop :=
  ∃ between, EditedBy Edit.tends m between ∧ (m' = between ∨ m' = between.flushPending.2)

theorem EditedBy.settled {m m' : Mailbox} (h : EditedBy Edit.tends m m') : Settled m m' :=
  ⟨m', h, .inl rfl⟩

theorem EditedBy.flushUnlessSelected {m m' : Mailbox} (h : EditedBy Edit.tends m m')
    (sessions : Nat) : Settled m (m'.flushUnlessSelected sessions).2 := by
  unfold Mailbox.flushUnlessSelected
  split
  · exact ⟨m', h, .inr rfl⟩
  · exact h.settled

theorem Settled.edited {m m' : Mailbox} (h : Settled m m') : Edited m m' := by
  obtain ⟨between, htended, rfl | rfl⟩ := h
  · exact htended.edited
  · exact htended.edited.trans (edited_by .flushPending rfl)

theorem Settled.sparing {m m' : Mailbox} (h : Settled m m') : EditedBy Edit.sparesMarks m m' := by
  obtain ⟨between, htended, rfl | rfl⟩ := h
  · exact htended.mono fun _ => Edit.sparesMarks_of_tends
  · exact (htended.mono fun _ => Edit.sparesMarks_of_tends).trans (.single .flushPending rfl rfl)

theorem settled_applyBatch (settings : SyncSettings) (sessions : Nat)
    (since? : Option (Option String)) (events : List Prepared) (cursor : Option String)
    (m : Mailbox) : Settled m (m.applyBatch settings sessions since? events cursor).2 := by
  unfold applyBatch
  split
  · exact (EditedBy.refl m).settled
  · have hevents := tended_applyEvents settings.updatesFlags {} events m
    split
    · next h =>
      rw [h] at hevents
      exact hevents.settled
    · next tally m' h =>
      rw [h] at hevents
      dsimp only
      have hcursor : EditedBy Edit.tends m'
          (if cursor.isSome then m'.setCursor cursor else m') := by
        split
        · exact .single (.setCursor cursor) rfl rfl
        · exact .refl m'
      exact (hevents.trans hcursor).flushUnlessSelected sessions

/-- Once the identities are mended, nothing but the messages is looked after. -/
theorem settled_reconcile (settings : SyncSettings) (sessions : Nat) (now : Instant)
    (invalidate : Bool) (prepared : List MessageContent) (listing : Listing)
    (cursor : Option String) (m : Mailbox) :
    Settled (m.mend now invalidate).2
      (m.reconcile settings sessions now invalidate prepared listing cursor).2 := by
  have hcorrected := tended_correctAll settings.updatesFlags prepared listing.taken
    { resynced := true, invalidated := (m.mend now invalidate).1 }
    ((m.mend now invalidate).2.store.corrections listing.messages) (m.mend now invalidate).2
  unfold reconcile
  dsimp only
  split
  · next h =>
    rw [h] at hcorrected
    exact hcorrected.settled
  · next m' h =>
    rw [h] at hcorrected
    exact (hcorrected.trans (.single (.setCursor cursor) rfl rfl)).flushUnlessSelected sessions

theorem mend_cases (now : Instant) (invalidate : Bool) (m : Mailbox) :
    (m.mend now invalidate).2 = (m.invalidate now).2 ∨
      EditedBy Edit.tends m (m.mend now invalidate).2 ∧
        ∀ desync, m.desync? = some desync → desync.isMendable = true := by
  unfold mend
  split
  · exact .inl rfl
  · split
    · next hnone => exact .inr ⟨.refl m, fun d hd => by rw [hnone] at hd; cases hd⟩
    · next desync hsome =>
      split
      · next hmendable =>
        refine .inr ⟨.single .raiseUidNext rfl rfl, fun d hd => ?_⟩
        rw [hsome] at hd
        cases hd
        exact hmendable
      · exact .inl rfl

theorem edited_applyEvent (updatesFlags : Bool) (tally : Tally) (event : Prepared) (m : Mailbox) :
    Edited m (m.applyEvent updatesFlags tally event).2 := (tended_applyEvent ..).edited

theorem edited_correct (updatesFlags : Bool) (prepared : List MessageContent) (taken : Instant)
    (tally : Tally) (correction : Correction) (m : Mailbox) :
    Edited m (m.correct updatesFlags prepared taken tally correction).2 :=
  (tended_correct ..).edited

theorem edited_flushUnlessSelected (sessions : Nat) (m : Mailbox) :
    Edited m (m.flushUnlessSelected sessions).2 :=
  ((EditedBy.refl m).flushUnlessSelected sessions).edited

theorem sparing_reconcile (settings : SyncSettings) (sessions : Nat) (now : Instant)
    (invalidate : Bool) (prepared : List MessageContent) (listing : Listing)
    (cursor : Option String) (m : Mailbox) : EditedBy Edit.sparesMarks m
      (m.reconcile settings sessions now invalidate prepared listing cursor).2 := by
  refine EditedBy.trans ?_ (settled_reconcile ..).sparing
  rcases mend_cases now invalidate m with heq | ⟨htended, _⟩
  · exact .single (.invalidate now) rfl heq.symm
  · exact htended.mono fun _ => Edit.sparesMarks_of_tends

end Mailbox

/-! ## Changes by edits of one kind -/

namespace SharedMailbox

open Relation

/-- A step in which nothing is done to the mailbox but edits of one kind, taken back or kept. -/
inductive StepBy (kind : Edit → Bool) (s : SharedMailbox) : SharedMailbox → Prop
  | change (c : Change) (made : ∀ e ∈ c.edits, kind e = true) : StepBy kind s (s.perform c)
  | aside (cache? : Option Cache) (sessions : Nat) : StepBy kind s { s with cache?, sessions }

/-- The shared mailbox as it has become by such steps. -/
abbrev LeadsBy (kind : Edit → Bool) (s s' : SharedMailbox) : Prop := ReflTransGen (StepBy kind) s s'

variable {kind : Edit → Bool} {s s' : SharedMailbox}

theorem LeadsBy.leads (h : LeadsBy kind s s') : Leads s s' := by
  induction h with
  | refl => exact .refl
  | tail _ hstep ih =>
      cases hstep with
      | change c => exact ih.tail (.change c)
      | aside cache? sessions => exact ih.tail (.aside cache? sessions)

theorem LeadsBy.mono {kind' : Edit → Bool} (hle : ∀ e, kind e = true → kind' e = true)
    (h : LeadsBy kind s s') : LeadsBy kind' s s' := by
  refine ReflTransGen.mono (fun _ _ hstep => ?_) _ _ h
  cases hstep with
  | change c made => exact .change c fun e he => hle e (made e he)
  | aside cache? sessions => exact .aside cache? sessions

theorem Leads.leadsBy (h : Leads s s') : LeadsBy (fun _ => true) s s' := by
  induction h with
  | refl => exact .refl
  | tail _ hstep ih =>
      cases hstep with
      | change c => exact ih.tail (.change c fun _ _ => rfl)
      | aside cache? sessions => exact ih.tail (.aside cache? sessions)

theorem leadsBy_mutate {α : Type} {f : Mailbox → Except MailboxError α × Mailbox}
    (hf : ∀ m, Mailbox.EditedBy kind m (f m).2) (s : SharedMailbox) :
    LeadsBy kind s (s.mutate f).2 := by
  obtain ⟨edits, hkind, hedits⟩ := hf s.mailbox.startJournal
  obtain ⟨c, rfl, hc⟩ := mutate_eq_perform hedits
  rw [hc]
  exact .single (.change c hkind)

theorem leadsBy_transact {ops : List Operation}
    (h : ∀ op ∈ ops, ∀ now e, op.edit? now = some e → kind e = true) (now : Instant)
    (s : SharedMailbox) : LeadsBy kind s (s.transact ops now).2.2 := by
  obtain ⟨c, hmade, hc⟩ := transact_eq_perform ops now s
  rw [hc]
  refine .single (.change c fun e he => ?_)
  obtain ⟨op, hop, now', hedit⟩ := hmade e he
  exact h op hop now' e hedit

end SharedMailbox

/-! ## Rounds of synchronization -/

/-- All that others do while the remote account is asked. -/
def RemoteScript.operations (r : RemoteScript) : List Operation :=
  r.batches.flatMap (·.meanwhile) ++ r.listing.meanwhile ++ r.whileDecrypting.values.flatten

namespace Site

open Relation

/-- The site after some work, in which the mailbox has been changed by changes. -/
def Leads (s s' : Site) : Prop := SharedMailbox.Leads s.shared s'.shared

theorem Leads.refl (s : Site) : s.Leads s := ReflTransGen.refl

theorem Leads.trans {s s' s'' : Site} (h : s.Leads s') (h' : s'.Leads s'') : s.Leads s'' :=
  ReflTransGen.trans h h'

theorem leads_of_shared {s t : Site} (h : t.shared = s.shared) : s.Leads t := by
  unfold Leads
  rw [h]

theorem mutate_ok {α : Type} {f : Mailbox → Except MailboxError α × Mailbox} {a : α}
    {s s' : Site} (h : s.mutate f = (.ok a, s')) :
    (f s.shared.mailbox.startJournal).1 = .ok a ∧ ∃ cache?, s'.shared =
      { s.shared with
        mailbox := ((f s.shared.mailbox.startJournal).2.editAll [.commit, .takeUnsaved]).keepChanges
        cache? } := by
  unfold mutate at h
  split at h
  · next shared hshared =>
    cases h
    have hfirst := congrArg Prod.fst hshared
    have hsecond := congrArg Prod.snd hshared
    obtain ⟨hok, cache?, heq⟩ := SharedMailbox.conclude_ok hfirst
    exact ⟨hok, cache?, hsecond.symm.trans heq⟩
  · cases h

theorem wait_shared (delay : Nat) (s : Site) : (s.wait delay).2.shared = s.shared := by
  unfold wait
  dsimp only
  split
  · split <;> rfl
  · rfl

section LeadsBy

/-- What others do while the remote account is asked are edits of one kind. -/
def Allows (kind : Edit → Bool) (s : Site) : Prop :=
  ∀ op ∈ s.remote.operations, ∀ now e, op.edit? now = some e → kind e = true

/-- The site after some work, in which nothing was done to the mailbox but edits of one kind, if
others do no others. -/
def LeadsBy (kind : Edit → Bool) (s s' : Site) : Prop :=
  s.Allows kind → SharedMailbox.LeadsBy kind s.shared s'.shared ∧ s'.Allows kind

variable {kind : Edit → Bool}

theorem LeadsBy.refl (s : Site) : s.LeadsBy kind s := fun h => ⟨.refl, h⟩

theorem LeadsBy.trans {s s' s'' : Site} (h : s.LeadsBy kind s') (h' : s'.LeadsBy kind s'') :
    s.LeadsBy kind s'' := by
  intro hallows
  obtain ⟨hleads, hallows'⟩ := h hallows
  obtain ⟨hleads', hallows''⟩ := h' hallows'
  exact ⟨hleads.trans hleads', hallows''⟩

/-- Work that leaves the mailbox alone and adds nothing to what others do. -/
theorem leadsBy_of_shared {s t : Site} (hshared : t.shared = s.shared)
    (hops : ∀ op ∈ t.remote.operations, op ∈ s.remote.operations) : s.LeadsBy kind t := by
  intro hallows
  refine ⟨?_, fun op hop => hallows op (hops op hop)⟩
  rw [hshared]

theorem LeadsBy.leads {s s' : Site} (h : s.LeadsBy (fun _ => true) s') : s.Leads s' :=
  (h fun _ _ _ _ _ => rfl).1.leads

theorem leadsBy_interfere {ops : List Operation}
    (h : ∀ op ∈ ops, ∀ now e, op.edit? now = some e → kind e = true) (s : Site) :
    s.LeadsBy kind (s.interfere ops) := by
  unfold interfere
  split
  · exact .refl s
  · exact fun hallows => ⟨SharedMailbox.leadsBy_transact h s.clock s.shared, hallows⟩

theorem wait_remote (delay : Nat) (s : Site) : (s.wait delay).2.remote = s.remote := by
  unfold wait
  dsimp only
  split
  · split <;> rfl
  · rfl

theorem leadsBy_receive {α : Type} {d : Delivery α}
    (h : ∀ op ∈ d.meanwhile, ∀ now e, op.edit? now = some e → kind e = true) (s : Site) :
    s.LeadsBy kind (s.receive d).2 := by
  have hwait : s.LeadsBy kind (s.wait d.delay).2 :=
    leadsBy_of_shared (wait_shared ..) (by rw [wait_remote]; exact fun _ => id)
  unfold receive
  split
  · next h =>
    rw [h] at hwait
    exact hwait
  · next h' =>
    rw [h'] at hwait
    exact hwait.trans (leadsBy_interfere h _)

theorem leadsBy_ask {α : Type} {question : Site → Except Halt α × Site}
    (h : ∀ s : Site, s.LeadsBy kind (question s).2) (s : Site) :
    s.LeadsBy kind (s.ask question).2 := by
  have hnext (outages : List Outage) :
      s.LeadsBy kind { s with remote := { s.remote with outages } } :=
    leadsBy_of_shared rfl fun _ => id
  unfold ask
  dsimp only
  split
  · exact (hnext _).trans (h _)
  · exact hnext _

theorem leadsBy_record (call : Call) (s : Site) : s.LeadsBy kind (s.record call) :=
  leadsBy_of_shared rfl fun _ => id

theorem leadsBy_fetch (cursor : Option String) (s : Site) :
    s.LeadsBy kind (s.fetch cursor).2 := by
  refine (leadsBy_record _ s).trans (leadsBy_ask (fun s => ?_) _)
  split
  · exact .refl s
  · next d batches hbatches =>
    intro hallows
    have hops : s.remote.operations = d.meanwhile ++
        { s.remote with batches }.operations := by
      simp only [RemoteScript.operations, hbatches, List.flatMap_cons, List.append_assoc]
    have hlater : s.LeadsBy kind { s with remote := { s.remote with batches } } := by
      refine leadsBy_of_shared rfl fun op hop => ?_
      rw [hops]
      exact List.mem_append_right _ hop
    refine hlater.trans (leadsBy_receive (fun op hop => hallows op ?_) _) hallows
    rw [hops]
    exact List.mem_append_left _ hop

theorem leadsBy_list (s : Site) : s.LeadsBy kind s.list.2 := by
  refine (leadsBy_record _ s).trans (leadsBy_ask (fun s hallows => ?_) _)
  refine leadsBy_receive (fun op hop => hallows op ?_) s hallows
  exact List.mem_append_left _ (List.mem_append_right _ hop)

theorem leads_list (s : Site) : s.Leads s.list.2 := (leadsBy_list s).leads

theorem leadsBy_decrypt (d : Decryption) (id : RemoteId) (secret : String) (s : Site) :
    s.LeadsBy kind (s.decrypt d id secret).2 := by
  intro hallows
  have hvalues {ops : List Operation} {op : Operation}
      (hops : ops ∈ s.remote.whileDecrypting.values) (hop : op ∈ ops) :
      op ∈ s.remote.operations :=
    List.mem_append_right _ (List.mem_flatten.2 ⟨ops, hops, hop⟩)
  have herased : s.LeadsBy kind { s.record (.decrypt id) with
      remote := { s.remote with whileDecrypting := s.remote.whileDecrypting.erase id } } := by
    refine leadsBy_of_shared rfl fun op hop => ?_
    rcases List.mem_append.1 hop with hop | hop
    · exact List.mem_append_left _ hop
    · obtain ⟨ops, hops, hop⟩ := List.mem_flatten.1 hop
      obtain ⟨entry, hentry, rfl⟩ := List.mem_map.1 hops
      exact hvalues (List.mem_map_of_mem (List.mem_filter.1 hentry).1) hop
  refine herased.trans (leadsBy_interfere (fun op hop => hallows op ?_) _) hallows
  change op ∈ (s.remote.whileDecrypting.get? id).getD [] at hop
  cases hget : s.remote.whileDecrypting.get? id with
  | none =>
      rw [hget] at hop
      cases hop
  | some ops =>
      rw [hget] at hop
      exact hvalues (List.mem_map_of_mem (OrderedMap.get?_eq_some.1 hget)) hop

theorem leadsBy_prepare (message : RemoteMessage) (s : Site) :
    s.LeadsBy kind (s.prepare message).2 := by
  unfold prepare
  dsimp only
  split
  · exact .refl s
  · exact .refl s
  · next secret d _ _ =>
    have hdecrypt : s.LeadsBy kind (s.decrypt d message.id secret).2 :=
      leadsBy_decrypt d message.id secret s
    split <;> next h =>
      rw [h] at hdecrypt
      exact hdecrypt

theorem leadsBy_prepareAll (messages : List RemoteMessage) (s : Site) :
    s.LeadsBy kind (prepareAll messages s).2 := by
  induction messages generalizing s with
  | nil => exact .refl s
  | cons message rest ih => exact (leadsBy_prepare message s).trans (ih _)

theorem leadsBy_prepareEvents (events : List RemoteEvent) (s : Site) :
    s.LeadsBy kind (prepareEvents events s).2 := by
  induction events generalizing s with
  | nil => exact .refl s
  | cons event rest ih =>
      cases event with
      | created message => exact (leadsBy_prepare message s).trans (ih _)
      | updated id flags taken => exact ih s
      | removed id => exact ih s

theorem shared_foldl_report (f : Site → Correction → Notice) (corrections : List Correction)
    (s : Site) : (corrections.foldl (fun s c => s.report (f s c)) s).shared = s.shared := by
  induction corrections generalizing s with
  | nil => rfl
  | cons c rest ih => exact ih _

theorem remote_foldl_report (f : Site → Correction → Notice) (corrections : List Correction)
    (s : Site) : (corrections.foldl (fun s c => s.report (f s c)) s).remote = s.remote := by
  induction corrections generalizing s with
  | nil => rfl
  | cons c rest ih => exact ih _

-- rounds make edits of many kinds, but none that takes marks off
variable (hkind : ∀ e : Edit, e.sparesMarks = true → kind e = true)

include hkind

theorem leadsBy_mutate {α : Type} {f : Mailbox → Except MailboxError α × Mailbox}
    (hf : ∀ m, Mailbox.EditedBy Edit.sparesMarks m (f m).2) (s : Site) :
    s.LeadsBy kind (s.mutate f).2 := by
  intro hallows
  have hshared := SharedMailbox.leadsBy_mutate (fun m => (hf m).mono hkind) s.shared
  unfold mutate
  split <;> next h =>
    rw [h] at hshared
    exact ⟨hshared, hallows⟩

theorem leadsBy_resyncFrom (fallback : Option String) (s : Site) :
    s.LeadsBy kind (s.resyncFrom fallback).2 := by
  have hlist : s.LeadsBy kind s.list.2 := leadsBy_list s
  unfold resyncFrom
  split
  · next h =>
    rw [h] at hlist
    exact hlist
  · next listing s' h =>
    rw [h] at hlist
    dsimp only
    -- which messages are fetched does not matter to the mailbox
    generalize List.filter _ (RemoteMessage.firstListed listing.messages) = unknown
    generalize (listing.recreated || _) = invalidate
    have hprepared := hlist.trans (leadsBy_of_shared (s := s')
      (t := s'.report (.listed s'.name listing.messages.length)) rfl fun _ => id)
    replace hprepared := hprepared.trans (leadsBy_prepareAll unknown _)
    generalize prepareAll unknown _ = prepared at hprepared ⊢
    have hmutate := hprepared.trans (leadsBy_mutate hkind (fun m => Mailbox.sparing_reconcile
      prepared.2.settings prepared.2.shared.sessions prepared.2.clock invalidate prepared.1 listing
      (listing.cursor <|> fallback) m) prepared.2)
    split
    · next h =>
      rw [h] at hmutate
      exact hmutate
    · next s'' h =>
      rw [h] at hmutate
      refine hmutate.trans (leadsBy_of_shared ?_ ?_)
      · split
        · exact shared_foldl_report (fun s c => .corrected s.name c) ..
        · exact shared_foldl_report (fun s c => .corrected s.name c) ..
      · have hremote (corrections : List Correction) : (corrections.foldl
            (fun s c => s.report (.corrected s.name c)) s'').remote = s''.remote :=
          remote_foldl_report (fun s c => .corrected s.name c) corrections s''
        dsimp only [report]
        split
        · exact fun op hop => hremote _ ▸ hop
        · exact fun op hop => hremote _ ▸ hop

theorem leadsBy_invalidate (s : Site) : s.LeadsBy kind s.invalidate.2 := by
  have hmutate : s.LeadsBy kind _ := leadsBy_mutate hkind
    (f := fun m => (Except.ok (m.invalidate s.clock).1, (m.invalidate s.clock).2))
    (fun m => .single (.invalidate s.clock) rfl rfl) s
  unfold invalidate
  dsimp only
  split
  · next h =>
    rw [h] at hmutate
    exact hmutate
  · next h =>
    rw [h] at hmutate
    exact hmutate.trans (leadsBy_of_shared rfl fun _ => id)

theorem leadsBy_applyEvents (since? : Option (Option String)) (batch : EventBatch) (s : Site) :
    s.LeadsBy kind (s.applyEvents since? batch).2 := by
  have hprepared : s.LeadsBy kind _ := leadsBy_prepareEvents batch.events s
  unfold applyEvents
  dsimp only
  generalize s.prepareEvents batch.events = prepared at hprepared ⊢
  generalize (if prepared.2.settings.ordered then _ else _) = events
  have hsparing (m : Mailbox) := (Mailbox.settled_applyBatch prepared.2.settings
    prepared.2.shared.sessions since? events batch.cursor m).sparing
  have hmutate := hprepared.trans (leadsBy_mutate hkind hsparing prepared.2)
  split
  · next h =>
    rw [h] at hmutate
    exact hmutate
  · next h =>
    rw [h] at hmutate
    exact hmutate.trans (leadsBy_of_shared rfl fun _ => id)

theorem leadsBy_apply (since? : Option (Option String)) (batch : EventBatch) (s : Site) :
    s.LeadsBy kind (s.apply since? batch).2 := by
  have hevents := leadsBy_applyEvents hkind since? batch s
  unfold apply
  split
  · exact leadsBy_resyncFrom hkind _ _
  · split
    · next s' h =>
      rw [h] at hevents
      have hinvalidate := leadsBy_invalidate hkind s'
      split
      · next h' =>
        rw [h'] at hinvalidate
        exact hevents.trans hinvalidate
      · next h' =>
        rw [h'] at hinvalidate
        exact (hevents.trans hinvalidate).trans (leadsBy_resyncFrom hkind _ _)
    · next h =>
      rw [h] at hevents
      exact hevents.trans (leadsBy_resyncFrom hkind _ _)
    · exact hevents

theorem leadsBy_sync (s : Site) : s.LeadsBy kind s.sync.2 := by
  have hfetch : s.LeadsBy kind _ := leadsBy_fetch s.shared.mailbox.cursor s
  unfold sync
  dsimp only
  split
  · next h =>
    rw [h] at hfetch
    exact hfetch
  · next h =>
    rw [h] at hfetch
    refine hfetch.trans (LeadsBy.trans ?_ (leadsBy_apply hkind _ _ _))
    exact leadsBy_of_shared rfl fun _ => id

theorem leadsBy_attempt (deadline : Nat) (s : Site) :
    s.LeadsBy kind (s.attempt deadline).2 := by
  have hbegin : s.LeadsBy kind { s with deadline? := some deadline } :=
    leadsBy_of_shared rfl fun _ => id
  have hsync := hbegin.trans (leadsBy_sync hkind _)
  unfold attempt
  split <;> next h =>
    rw [h] at hsync
    exact hsync.trans (leadsBy_of_shared rfl fun _ => id)

theorem leadsBy_workUntil (stop rounds : Nat) (backoff : Backoff) (s : Site) :
    s.LeadsBy kind (s.workUntil stop rounds backoff) := by
  induction rounds generalizing backoff s with
  | zero => exact .refl s
  | succ rounds ih =>
      unfold workUntil
      dsimp only
      have hattempt :=
        leadsBy_attempt hkind (min (s.elapsed + 1000 * s.settings.retry.timeout.toNat) stop) s
      generalize s.attempt _ = attempt at hattempt ⊢
      have hlater (wake : Nat) (backoff : Backoff) : s.LeadsBy kind
          (if stop ≤ wake then attempt.2
          else workUntil stop rounds backoff { attempt.2 with elapsed := wake }) := by
        split
        · exact hattempt
        · refine hattempt.trans (LeadsBy.trans ?_ (ih _ _))
          exact leadsBy_of_shared rfl fun _ => id
      split
      · exact hattempt
      · exact hlater _ _

theorem leadsBy_work (milliseconds : Nat) (s : Site) : s.LeadsBy kind (s.work milliseconds) :=
  (leadsBy_workUntil hkind _ _ _ _).trans (leadsBy_of_shared rfl fun _ => id)

end LeadsBy

end Site

end MailBridge

import MailBridge.Proofs.Gathering
import MailBridge.Proofs.Undecryptable

/-! # Rounds that leave a message undecryptable without its keyword

Of all that a round of synchronization does, only a batch can leave a message undecryptable without
the keyword that says so. It does exactly if it brings content that could not be decrypted of a
message that is there without the keyword, and no later event of the batch settles the matter. So a
mailbox that began empty, and in which no client changes flags, tells of every message that could
not be decrypted exactly as long as there has been no such batch.
-/

namespace MailBridge

namespace Mailbox

variable {m m' : Mailbox} {tally : Tally}

/-- The identities of the mailbox are sound, and it tells of every message that could not be
decrypted. -/
structure Upright (m : Mailbox) : Prop where
  sound : m.checkIntegrity = .ok ()
  candid : m.Candid

namespace Upright

theorem orderly (h : m.Upright) : m.Orderly := (checkIntegrity_iff.1 h.sound).1

theorem indexed (h : m.Upright) : m.Indexed := (checkIntegrity_iff.1 h.sound).2

theorem startJournal (h : m.Upright) : m.startJournal.Upright := ⟨h.sound, h.candid⟩

theorem kept (h : m.Upright) : (m.editAll [.commit, .takeUnsaved]).keepChanges.Upright := by
  rw [kept_eq]
  exact ⟨h.sound, h.candid⟩

end Upright

theorem upright_create (name : String) (now : Instant) : (create name now).Upright := by
  have hcoherent : (create name now).Coherent := coherent_of_empty rfl rfl
  refine ⟨checkIntegrity_iff.2 ⟨orderly_of_empty rfl, hcoherent.indexed⟩, ?_⟩
  intro r hr
  cases hr

theorem upright_invalidate (now : Instant) (m : Mailbox) : (m.invalidate now).2.Upright :=
  ⟨checkIntegrity_iff.2 ⟨orderly_invalidate now m, indexed_invalidate now m⟩,
    candid_invalidate now m⟩

theorem Upright.reconcile {settings : SyncSettings} {sessions : Nat} {now : Instant}
    {invalidate : Bool} {prepared : List MessageContent} {listing : Listing}
    {cursor : Option String} {corrections : List Correction} (h : m.Upright)
    (hok : m.reconcile settings sessions now invalidate prepared listing cursor =
      (.ok (tally, corrections), m')) : m'.Upright :=
  ⟨(mends_reconcile hok).1.sound h.indexed, h.candid.reconcile h.orderly hok⟩

end Mailbox

namespace SharedMailbox

open Mailbox

variable {s s' : SharedMailbox}

theorem upright_of_unchanged (h : s.mailbox.Upright) (hunchanged : s.Unchanged s') :
    s'.mailbox.Upright :=
  ⟨sound_of_unchanged hunchanged h.sound, h.candid.of_messages hunchanged.messages⟩

/-- A change is all right if what it does is and it is taken back when it fails. -/
theorem upright_mutate {α : Type} {f : Mailbox → Except MailboxError α × Mailbox}
    (h : s.mailbox.Upright)
    (hdone : ∀ a, (f s.mailbox.startJournal).1 = .ok a → (f s.mailbox.startJournal).2.Upright)
    (hback : ∀ e, (s.mutate f).1 = .error e → s.Unchanged (s.mutate f).2) :
    (s.mutate f).2.mailbox.Upright := by
  cases hresult : (s.mutate f).1 with
  | error e => exact upright_of_unchanged h (hback e hresult)
  | ok a =>
      rw [mailbox_mutate_of_kept hresult]
      exact (hdone a (conclude_ok hresult).1).kept

theorem upright_reconcile {settings : SyncSettings} {now : Instant} {invalidate : Bool}
    {prepared : List MessageContent} {listing : Listing} {cursor : Option String}
    (h : s.mailbox.Upright) :
    (s.mutate (·.reconcile settings s.sessions now invalidate prepared listing
      cursor)).2.mailbox.Upright := by
  refine upright_mutate h (fun result hresult => ?_) fun e hfailed => unchanged_reconcile hfailed
  obtain ⟨tally, corrections⟩ := result
  exact h.startJournal.reconcile (Prod.ext hresult rfl)

theorem upright_invalidate (h : s.mailbox.Upright) (now : Instant) :
    (s.invalidate now).2.mailbox.Upright :=
  upright_mutate (f := fun m => (.ok (m.invalidate now).1, (m.invalidate now).2)) h
    (fun _ _ => Mailbox.upright_invalidate now _) fun _ hfailed => unchanged_invalidate hfailed

theorem upright_perform (h : s.mailbox.Upright) {c : Change}
    (hspare : ∀ e ∈ c.edits, e.sparesKeyword = true) : (s.perform c).mailbox.Upright := by
  have hspares : ∀ e ∈ c.edits, sparesNames e = true := by
    intro e he
    have hspared := hspare e he
    cases e <;> first | rfl | cases hspared
  refine ⟨intact_perform h.sound hspares, ?_⟩
  rcases perform_restores_or_keeps h.orderly.distinct c with ⟨store, heq, hmessages⟩ | ⟨_, heq⟩
  · rw [heq]
    exact h.candid.of_messages hmessages
  · have hkept : ∀ e ∈ c.edits ++ [.commit, .takeUnsaved], e.sparesKeyword = true := by
      intro e he
      rcases List.mem_append.1 he with he | he
      · exact hspare e he
      · simp only [List.mem_cons, List.not_mem_nil, or_false] at he
        rcases he with rfl | rfl <;> rfl
    have hcandid := h.startJournal.candid.editAll hkept h.orderly.distinct h.indexed
    rw [heq]
    exact hcandid

theorem upright_leadsBy (h : s.mailbox.Upright) (hleads : LeadsBy Edit.sparesKeyword s s') :
    s'.mailbox.Upright := by
  induction hleads with
  | refl => exact h
  | tail _ hstep ih =>
      cases hstep with
      | change c made => exact upright_perform ih made
      | aside cache? sessions => exact ih

variable {settings : SyncSettings} {since? : Option (Option String)} {events : List Prepared}
  {cursor : Option String} {tally : Tally}

theorem silentAt_applyBatch (h : s.mailbox.Upright)
    (hok : (s.mutate (·.applyBatch settings s.sessions since? events cursor)).1 = .ok tally) :
    (s.mutate (·.applyBatch settings s.sessions since? events cursor)).2.mailbox.checkIntegrity =
        .ok () ∧
      ∀ id, (s.mutate (·.applyBatch settings s.sessions since? events
          cursor)).2.mailbox.SilentAt id ↔
        Relapses settings.updatesFlags id events s.mailbox.startJournal ∧
          id ∈ (s.mutate (·.applyBatch settings s.sessions since? events
            cursor)).2.mailbox.roster := by
  have hbatch : s.mailbox.startJournal.applyBatch settings s.sessions since? events cursor =
      (.ok tally,
        (s.mailbox.startJournal.applyBatch settings s.sessions since? events cursor).2) :=
    Prod.ext (conclude_ok hok).1 rfl
  have hstart := h.startJournal
  have hmends := (mends_applyBatch hstart.orderly hbatch).1.sound hstart.indexed
  have hsilent (id : RemoteId) : Mailbox.SilentAt _ id ↔ _ :=
    Mailbox.silentAt_applyBatch hstart.orderly.distinct hstart.indexed hstart.candid hbatch
  rw [mailbox_mutate_of_kept hok, roster_kept, kept_eq]
  exact ⟨hmends, hsilent⟩

theorem upright_applyBatch_error {e : MailboxError} (h : s.mailbox.Upright)
    (hfailed : (s.mutate (·.applyBatch settings s.sessions since? events cursor)).1 = .error e) :
    (s.mutate (·.applyBatch settings s.sessions since? events cursor)).2.mailbox.Upright :=
  upright_of_unchanged h (unchanged_applyBatch h.orderly.distinct hfailed)

end SharedMailbox

namespace Site

open SharedMailbox Mailbox

variable {s s' : Site} {since? : Option (Option String)} {batch : EventBatch}

theorem upright_resyncFrom (fallback : Option String) (hallows : s.Allows Edit.sparesKeyword)
    (h : s.shared.mailbox.Upright) : (s.resyncFrom fallback).2.shared.mailbox.Upright := by
  cases hlist : s.list with
  | mk result s₁ =>
      cases result with
      | error halt =>
          have hleads : s.LeadsBy Edit.sparesKeyword s.list.2 := leadsBy_list s
          unfold resyncFrom
          rw [hlist] at hleads ⊢
          exact upright_leadsBy h (hleads hallows).1
      | ok listing =>
          have hleads : s.LeadsBy Edit.sparesKeyword s.gathered.2 := leadsBy_gathered s
          obtain ⟨invalidate, _, hshared⟩ := resyncFrom_gathered hlist fallback
          rw [hshared]
          exact upright_reconcile (upright_leadsBy h (hleads hallows).1)

/-- The events of a batch as they are applied. -/
def arranged (batch : EventBatch) (s : Site) : List Prepared :=
  let events := (s.prepareEvents batch.events).1
  if s.settings.ordered then events else Prepared.sortCreations events

/-- A batch comes down to the change of the mailbox, as others have left it, that applies its
events. -/
theorem applyEvents_arranged (since? : Option (Option String)) (batch : EventBatch) (s : Site) :
    (s.applyEvents since? batch).1 = outcome ((s.readied batch).mutate (·.applyBatch s.settings
        (s.readied batch).sessions since? (s.arranged batch) batch.cursor)).1 ∧
      (s.applyEvents since? batch).2.shared = ((s.readied batch).mutate (·.applyBatch s.settings
        (s.readied batch).sessions since? (s.arranged batch) batch.cursor)).2 ∧
      (s.applyEvents since? batch).2.remote = (s.prepareEvents batch.events).2.remote := by
  have hsettings := (interim_prepareEvents batch.events s).settings
  unfold applyEvents arranged readied
  dsimp only
  generalize s.prepareEvents batch.events = prepared at hsettings ⊢
  rw [hsettings, mutate_eq]
  generalize (if s.settings.ordered then _ else _) = events
  cases (prepared.2.shared.mutate (·.applyBatch s.settings prepared.2.shared.sessions since? events
    batch.cursor)).1 with
  | error e => exact ⟨rfl, rfl, rfl⟩
  | ok tally => exact ⟨rfl, rfl, rfl⟩

/-- A batch is kept whose events leave a message that is still there undecryptable without its
keyword. -/
def Relapses (since? : Option (Option String)) (batch : EventBatch) (s : Site) : Prop :=
  batch.gap = false ∧ ∃ tally s' id, s.applyEvents since? batch = (.ok tally, s') ∧
    id ∈ s'.shared.mailbox.roster ∧
      Mailbox.Relapses s.settings.updatesFlags id (s.arranged batch)
        (s.readied batch).mailbox.startJournal

section Batches

variable (hallows : s.Allows Edit.sparesKeyword) (h : s.shared.mailbox.Upright)

include hallows h

theorem upright_readied (batch : EventBatch) : (s.readied batch).mailbox.Upright := by
  have hleads : s.LeadsBy Edit.sparesKeyword _ := leadsBy_prepareEvents batch.events s
  exact upright_leadsBy h (hleads hallows).1

theorem upright_applyEvents_error {halt : Halt}
    (hfailed : s.applyEvents since? batch = (.error halt, s')) :
    s'.Allows Edit.sparesKeyword ∧ s'.shared.mailbox.Upright := by
  have hleads : s.LeadsBy Edit.sparesKeyword _ := leadsBy_prepareEvents batch.events s
  obtain ⟨hresult, hshared, hremote⟩ := applyEvents_arranged since? batch s
  rw [hfailed] at hresult hshared hremote
  obtain ⟨e, herror, _⟩ := outcome_eq_error hresult.symm
  refine ⟨(hleads hallows).2.of_remote hremote, ?_⟩
  dsimp only at hshared
  rw [hshared]
  exact upright_applyBatch_error (upright_readied hallows h batch) herror

theorem silentAt_applyEvents {tally : Tally}
    (hok : s.applyEvents since? batch = (.ok tally, s')) :
    s'.shared.mailbox.checkIntegrity = .ok () ∧
      ∀ id, s'.shared.mailbox.SilentAt id ↔
        Mailbox.Relapses s.settings.updatesFlags id (s.arranged batch)
          (s.readied batch).mailbox.startJournal ∧ id ∈ s'.shared.mailbox.roster := by
  obtain ⟨hresult, hshared, _⟩ := applyEvents_arranged since? batch s
  rw [hok] at hresult hshared
  dsimp only at hresult hshared
  cases hmutate : ((s.readied batch).mutate (·.applyBatch s.settings (s.readied batch).sessions
      since? (s.arranged batch) batch.cursor)).1 with
  | error e =>
      rw [hmutate] at hresult
      cases hresult
  | ok tally' =>
      rw [hshared]
      exact SharedMailbox.silentAt_applyBatch (upright_readied hallows h batch) hmutate

/-- A batch leaves an upright mailbox sound, and candid unless it relapses. So does the listing that
takes the place of a batch. -/
theorem candid_apply_iff :
    (s.apply since? batch).2.shared.mailbox.checkIntegrity = .ok () ∧
      ((s.apply since? batch).2.shared.mailbox.Candid ↔ ¬ s.Relapses since? batch) := by
  have hupright {site : Site} (hend : site.shared.mailbox.Upright)
      (hno : ∀ tally s', batch.gap = false → s.applyEvents since? batch ≠ (.ok tally, s')) :
      site.shared.mailbox.checkIntegrity = .ok () ∧
        (site.shared.mailbox.Candid ↔ ¬ s.Relapses since? batch) := by
    refine ⟨hend.sound, iff_of_true hend.candid ?_⟩
    rintro ⟨hgap, tally, s', _, hok, _⟩
    exact hno tally s' hgap hok
  have hfailed {halt : Halt} {s₁ : Site} (herror : s.applyEvents since? batch = (.error halt, s₁))
      (tally : Tally) (s' : Site) (_ : batch.gap = false) :
      s.applyEvents since? batch ≠ (.ok tally, s') := by
    rw [herror]
    nofun
  have hnone : s.shared.mailbox.desync? = none := desync?_eq_none.2 (checkIntegrity_iff.1 h.sound)
  unfold apply
  split
  · next hlists =>
    refine hupright (upright_resyncFrom batch.cursor hallows h) ?_
    intro tally s' hgap
    simp [hgap, hnone] at hlists
  · next hlists =>
    have hgap : batch.gap = false := by simpa [hnone] using hlists
    split
    · next s₁ hevents =>
      obtain ⟨hallows₁, hupright₁⟩ := upright_applyEvents_error hallows h hevents
      obtain ⟨_, t, hrecords, hsite⟩ := invalidate_eq s₁
      have hrenewed : s₁.invalidate.2.shared.mailbox.Upright := by
        rw [hsite]
        exact SharedMailbox.upright_invalidate hupright₁ s₁.clock
      have hremote : s₁.invalidate.2.remote = s₁.remote := by
        rw [hsite]
        exact hrecords.remote
      split
      · next hinvalidate =>
        rw [hinvalidate] at hrenewed
        exact hupright hrenewed (hfailed hevents)
      · next hinvalidate =>
        rw [hinvalidate] at hrenewed hremote
        exact hupright (upright_resyncFrom batch.cursor (hallows₁.of_remote hremote) hrenewed)
          (hfailed hevents)
    · next s₁ hevents =>
      obtain ⟨hallows₁, hupright₁⟩ := upright_applyEvents_error hallows h hevents
      exact hupright (upright_resyncFrom batch.cursor hallows₁ hupright₁) (hfailed hevents)
    · cases hevents : s.applyEvents since? batch with
      | mk result s₁ =>
          cases result with
          | error halt =>
              exact hupright (upright_applyEvents_error hallows h hevents).2 (hfailed hevents)
          | ok tally =>
              obtain ⟨hsound, hsilent⟩ := silentAt_applyEvents hallows h hevents
              refine ⟨hsound, ?_⟩
              rw [candid_iff]
              constructor
              · rintro hcandid ⟨_, _, s', id, hok, hthere, hrelapses⟩
                cases hevents.symm.trans hok
                exact hcandid id ((hsilent id).2 ⟨hrelapses, hthere⟩)
              · intro hno id hmisses
                obtain ⟨hrelapses, hthere⟩ := (hsilent id).1 hmisses
                exact hno ⟨hgap, tally, s₁, id, hevents, hthere, hrelapses⟩

end Batches

end Site

namespace Errand

variable {errand : Errand} {s s₁ s₂ : Site} {since? since₂? : Option (Option String)}
  {batch batch₂ : EventBatch}

theorem Brings.unique (h : errand.Brings s s₁ since? batch)
    (h₂ : errand.Brings s s₂ since₂? batch₂) : s₂ = s₁ ∧ since₂? = since? ∧ batch₂ = batch := by
  cases h with
  | apply =>
      cases h₂
      exact ⟨rfl, rfl, rfl⟩
  | sync fetched =>
      cases h₂ with
      | sync fetched₂ =>
          cases fetched.symm.trans fetched₂
          exact ⟨rfl, rfl, rfl⟩

/-- The errand comes to applying a batch that leaves a message undecryptable without its keyword. -/
def Relapses (errand : Errand) (s : Site) : Prop :=
  ∃ s₁ since? batch, errand.Brings s s₁ since? batch ∧ s₁.Relapses since? batch

theorem Brings.relapses_iff (h : errand.Brings s s₁ since? batch) :
    errand.Relapses s ↔ s₁.Relapses since? batch := by
  constructor
  · rintro ⟨s₂, since₂?, batch₂, h₂, hrelapses⟩
    obtain ⟨rfl, rfl, rfl⟩ := h.unique h₂
    exact hrelapses
  · intro hrelapses
    exact ⟨s₁, since?, batch, h, hrelapses⟩

theorem candid_run_iff (hallows : s.Allows Edit.sparesKeyword) (h : s.shared.mailbox.Upright) :
    (errand.run s).2.shared.mailbox.checkIntegrity = .ok () ∧
      ((errand.run s).2.shared.mailbox.Candid ↔ ¬ errand.Relapses s) := by
  by_cases hbrings : ∃ s₁ since? batch, errand.Brings s s₁ since? batch
  · obtain ⟨s₁, since?, batch, hbrings⟩ := hbrings
    obtain ⟨hleads, hallows₁⟩ := hbrings.leadsBy Edit.sparesKeyword hallows
    rw [hbrings.run_eq, hbrings.relapses_iff]
    exact Site.candid_apply_iff hallows₁ (SharedMailbox.upright_leadsBy h hleads)
  · have hupright : (errand.run s).2.shared.mailbox.Upright := by
      cases errand with
      | resync => exact Site.upright_resyncFrom none hallows h
      | apply since? batch => exact absurd ⟨_, _, _, .apply since? batch⟩ hbrings
      | sync =>
          cases hfetch : s.fetch s.shared.mailbox.cursor with
          | mk result s₁ =>
              cases result with
              | ok batch => exact absurd ⟨_, _, _, .sync hfetch⟩ hbrings
              | error halt =>
                  have hleads : s.LeadsBy Edit.sparesKeyword _ :=
                    Site.leadsBy_fetch s.shared.mailbox.cursor s
                  simp only [run, Site.sync, hfetch]
                  rw [hfetch] at hleads
                  exact SharedMailbox.upright_leadsBy h (hleads hallows).1
    refine ⟨hupright.sound, iff_of_true hupright.candid ?_⟩
    rintro ⟨s₁, since?, batch, hbatch, _⟩
    exact hbrings ⟨s₁, since?, batch, hbatch⟩

end Errand

/-! ## Runs -/

/-- What happens to a mailbox. -/
inductive Turn where
  /-- A round takes place where all but the mailbox is as at the given site. -/
  | round (errand : Errand) (site : Site)
  | change (change : Change)
  /-- The cache and the number of sessions are as given. -/
  | aside (cache? : Option Cache) (sessions : Nat)

namespace Turn

def take (s : SharedMailbox) : Turn → SharedMailbox
  | round errand site => (errand.run { site with shared := s }).2.shared
  | change c => s.perform c
  | aside cache? sessions => { s with cache?, sessions }

def takeAll (turns : List Turn) (s : SharedMailbox) : SharedMailbox := turns.foldl take s

@[simp] theorem takeAll_nil (s : SharedMailbox) : takeAll [] s = s := rfl

@[simp] theorem takeAll_cons (t : Turn) (rest : List Turn) (s : SharedMailbox) :
    takeAll (t :: rest) s = takeAll rest (t.take s) := rfl

/-- Nobody but the round takes content in, and no client changes flags. -/
def SparesKeyword : Turn → Prop
  | round _ site => site.Allows Edit.sparesKeyword
  | change c => ∀ e ∈ c.edits, e.sparesKeyword = true
  | aside .. => True

/-- The turn is a round that comes to applying a batch that leaves a message undecryptable without
its keyword. -/
def Relapses (s : SharedMailbox) : Turn → Prop
  | round errand site => errand.Relapses { site with shared := s }
  | _ => False

variable {t : Turn} {turns : List Turn} {s : SharedMailbox}

theorem candid_take_iff (hspares : t.SparesKeyword) (h : s.mailbox.Upright) :
    (t.take s).mailbox.checkIntegrity = .ok () ∧
      ((t.take s).mailbox.Candid ↔ ¬ t.Relapses s) := by
  cases t with
  | round errand site => exact Errand.candid_run_iff hspares h
  | change c =>
      have hafter := SharedMailbox.upright_perform h hspares
      exact ⟨hafter.sound, iff_of_true hafter.candid id⟩
  | aside cache? sessions => exact ⟨h.sound, iff_of_true h.candid id⟩

/-- Through all turns from an upright mailbox, it stays candid exactly if none of them relapses. -/
theorem candid_takeAll_iff (hspare : ∀ t ∈ turns, t.SparesKeyword) (h : s.mailbox.Upright) :
    (∀ before, before <+: turns → (takeAll before s).mailbox.Candid) ↔
      ∀ before t, before ++ [t] <+: turns → ¬ t.Relapses (takeAll before s) := by
  induction turns generalizing s with
  | nil =>
      refine iff_of_true ?_ ?_
      · intro before hbefore
        rw [List.prefix_nil.1 hbefore]
        exact h.candid
      · intro before t hbefore
        simp at hbefore
  | cons t rest ih =>
      obtain ⟨hspares, hrest⟩ := List.forall_mem_cons.1 hspare
      obtain ⟨hsound, hcandid⟩ := candid_take_iff hspares h
      by_cases hrelapses : t.Relapses s
      · refine iff_of_false ?_ ?_
        · intro hall
          exact hcandid.1 (hall [t] (by simp)) hrelapses
        · intro hall
          exact hall [] t (by simp) hrelapses
      · have hupright : (t.take s).mailbox.Upright := ⟨hsound, hcandid.2 hrelapses⟩
        constructor
        · intro hall before last hbefore
          cases before with
          | nil =>
              obtain ⟨rfl, _⟩ := List.cons_prefix_cons.1 hbefore
              exact hrelapses
          | cons first before =>
              obtain ⟨rfl, hlater⟩ := List.cons_prefix_cons.1 hbefore
              refine (ih hrest hupright).1 ?_ before last hlater
              intro before hbefore
              exact hall (first :: before) (List.cons_prefix_cons.2 ⟨rfl, hbefore⟩)
        · intro hno before hbefore
          cases before with
          | nil => exact h.candid
          | cons first before =>
              obtain ⟨rfl, hlater⟩ := List.cons_prefix_cons.1 hbefore
              refine (ih hrest hupright).2 ?_ before hlater
              intro before last hbefore
              exact hno (first :: before) last (List.cons_prefix_cons.2 ⟨rfl, hbefore⟩)

/-- In a mailbox that began empty, with rounds of any kind while others take nothing in and change
no flags, every message that could not be decrypted has the keyword at all times exactly if no batch
relapses: none brings content that could not be decrypted of a message that is there without the
keyword and goes on to leave it so. -/
theorem stays_candid_iff (name : String) (now : Instant) (cache? : Option Cache) (sessions : Nat)
    (turns : List Turn) (hspare : ∀ t ∈ turns, t.SparesKeyword) :
    (∀ before, before <+: turns →
        (takeAll before ⟨Mailbox.create name now, cache?, sessions⟩).mailbox.Candid) ↔
      ∀ before t, before ++ [t] <+: turns →
        ¬ t.Relapses (takeAll before ⟨Mailbox.create name now, cache?, sessions⟩) :=
  candid_takeAll_iff hspare (Mailbox.upright_create name now)

/-- A batch brings an encrypted message, of which the site can make out whether it is readable. -/
def delivery (secret : String) : Turn :=
  .round (.apply none { events := [.created { id := "a", payload := .encrypted secret }] })
    { shared := { mailbox := .create "INBOX" 0 }
      remote := .quiet 0
      decryption? := some .literal
      settings := {}
      clock := 0
      elapsed := 0 }

/-- A message is delivered, and once more after it was damaged. -/
def redelivered : List Turn := [delivery "hello", delivery ""]

theorem sparesKeyword_redelivered : ∀ t ∈ redelivered, t.SparesKeyword := by
  have hdelivery (secret : String) : (delivery secret).SparesKeyword :=
    fun _ hop => by cases hop
  simp [redelivered, hdelivery]

theorem not_candid_redelivered :
    ¬ (takeAll redelivered ⟨Mailbox.create "INBOX" 0, none, 0⟩).mailbox.Candid := by
  have hsilent : (takeAll redelivered
      ⟨Mailbox.create "INBOX" 0, none, 0⟩).mailbox.store.messages.any (·.Silent) = true := rfl
  intro hcandid
  obtain ⟨r, hr, hr'⟩ := List.any_eq_true.1 hsilent
  exact hcandid r hr (of_decide_eq_true hr')

/-- One of the deliveries relapses. -/
theorem stays_candid_iff_of_redelivered : (∀ t ∈ redelivered, t.SparesKeyword) ∧
    ∃ before t, before ++ [t] <+: redelivered ∧
      t.Relapses (takeAll before ⟨Mailbox.create "INBOX" 0, none, 0⟩) := by
  refine ⟨sparesKeyword_redelivered, ?_⟩
  by_contra hno
  push Not at hno
  have hcandid := (stays_candid_iff "INBOX" 0 none 0 redelivered sparesKeyword_redelivered).2 hno
  exact not_candid_redelivered (hcandid redelivered List.prefix_rfl)

/-- The message cannot be decrypted any more, and its flags do not say so. -/
theorem redelivered_goes_silent : (∀ t ∈ redelivered, t.SparesKeyword) ∧
    ((takeAll redelivered ⟨Mailbox.create "INBOX" 0, none, 0⟩).mailbox.store.messages.map
      fun r => (r.remoteId, r.decodeError, r.flags.toList)) =
        [("a", some "invalid signature", [.recent])] ∧
    ¬ (takeAll redelivered ⟨Mailbox.create "INBOX" 0, none, 0⟩).mailbox.Candid :=
  ⟨sparesKeyword_redelivered, rfl, not_candid_redelivered⟩

end Turn

end MailBridge

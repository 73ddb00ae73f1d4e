import MailBridge.Proofs.Failure

/-! # What a round leaves of a damaged mailbox

The check of integrity names the first thing that is wrong, and a round mends that. A round that
comes to its end leaves UIDs that are as they should be, whatever was wrong before, and an index
that is right if a new epoch was begun. But where UIDs are still to be issued that messages have,
the check says nothing of the index: the round sees to the next UID and leaves the index alone, and
what was wrong in it stays wrong unless no message with the name is left.
-/

namespace MailBridge

/-! ## Names of which the index is right -/

namespace MessageStore

variable {s t : MessageStore} {id : RemoteId}

/-- Nothing is left of the remote name: no message has it, and the index does not know it. -/
structure Forgets (s : MessageStore) (id : RemoteId) : Prop where
  index : s.uidOf? id = none
  messages : ∀ r ∈ s.messages, r.remoteId ≠ id

theorem Forgets.indexedAt (h : s.Forgets id) : s.IndexedAt id := by
  intro uid
  rw [h.index]
  constructor
  · intro hsome
    cases hsome
  · rintro ⟨r, hr, hid, _⟩
    exact absurd hid (h.messages r hr)

theorem indexedAt_iff_names : s.IndexedAt id ↔
    ∀ uid, s.uidOf? id = some uid ↔ (id, uid) ∈ s.names := by
  simp [IndexedAt, names, List.mem_map]

theorem names_update (hd : s.Distinct) {old r : Message} (found : s.get? r.uid = some old)
    (name : r.remoteId = old.remoteId) : (s.update r).names = s.names := by
  obtain ⟨hold, huid⟩ := (get?_eq_some hd).1 found
  unfold names
  rw [messages_update hd, List.map_map]
  refine List.map_congr_left fun x hx => ?_
  by_cases hxr : x.uid = r.uid
  · have hxold : x = old := Ascending.eq_of_uid_eq hd hx hold (hxr.trans huid.symm)
    rw [Function.comp_apply, if_pos hxr, hxold, name, huid]
  · rw [Function.comp_apply, if_neg hxr]

/-- A new message neither mends the index nor damages it. -/
theorem indexedAt_append?_iff {r : Message} (added : s.append? r = some t) :
    t.IndexedAt id ↔ s.IndexedAt id := by
  refine ⟨fun h => ?_, fun h => h.append? added⟩
  obtain ⟨hbelow, hnew, hmessages, hindex⟩ := append?_eq_some added
  intro uid
  have hthen := h uid
  rw [uidOf?, hindex, OrderedMap.get?_insert, hmessages] at hthen
  by_cases hid : id = r.remoteId
  · subst hid
    rw [hnew]
    constructor
    · intro hsome
      cases hsome
    · -- a message with the name of the new one would have its UID as well
      rintro ⟨x, hx, hname, _⟩
      have hxt : x ∈ t.messages := hmessages ▸ List.mem_append_left _ hx
      have hrt : r ∈ t.messages := hmessages ▸ List.mem_append_right _ (List.mem_singleton_self r)
      have hlt := hbelow x hx
      rw [h.uid_eq hxt hrt hname rfl] at hlt
      exact absurd hlt (Nat.lt_irrefl _)
  · rw [if_neg hid] at hthen
    rw [uidOf?, hthen]
    constructor
    · rintro ⟨x, hx, hname, hu⟩
      rcases List.mem_append.1 hx with hx | hx
      · exact ⟨x, hx, hname, hu⟩
      · rw [List.mem_singleton.1 hx] at hname
        exact absurd hname.symm hid
    · rintro ⟨x, hx, hname, hu⟩
      exact ⟨x, List.mem_append_left _ hx, hname, hu⟩

theorem Tended.indexedAt_iff (hd : s.Distinct) (h : s.Tended t) :
    t.IndexedAt id ↔ s.IndexedAt id := by
  cases h with
  | same => exact Iff.rfl
  | update found name =>
      rw [indexedAt_iff_names, indexedAt_iff_names, names_update hd found name]
      simp only [uidOf?_update]
  | enter added => exact indexedAt_append?_iff added

/-- Taking messages out mends the index only where nothing is left of a name. -/
theorem indexedAt_removeWhere_iff (hd : s.Distinct) (p : Message → Bool) :
    (s.removeWhere p).2.IndexedAt id ↔ s.IndexedAt id ∨ (s.removeWhere p).2.Forgets id := by
  refine ⟨fun h => ?_, fun h => h.elim (·.removeWhere hd p) Forgets.indexedAt⟩
  by_cases hleft : ∃ r ∈ (s.removeWhere p).2.messages, r.remoteId = id
  · left
    obtain ⟨r, hr, hid⟩ := hleft
    have hname := (h r.uid).2 ⟨r, hr, hid, rfl⟩
    rw [uidOf?_removeWhere] at hname
    split at hname
    · cases hname
    · next hnone =>
      -- all messages with the name are left
      intro uid
      have hthen := h uid
      rw [uidOf?_removeWhere, if_neg hnone] at hthen
      rw [hthen]
      constructor
      · rintro ⟨x, hx, hxid, hu⟩
        exact ⟨x, (mem_removeWhere.1 hx).1, hxid, hu⟩
      · rintro ⟨x, hx, hxid, hu⟩
        cases hp : p x with
        | false => exact ⟨x, mem_removeWhere.2 ⟨hx, hp⟩, hxid, hu⟩
        | true => exact absurd ⟨x, mem_removed.2 ⟨hx, hp⟩, hxid⟩ hnone
  · right
    have hno : ∀ r ∈ (s.removeWhere p).2.messages, r.remoteId ≠ id :=
      fun r hr hid => hleft ⟨r, hr, hid⟩
    exact ⟨h.eq_none.2 hno, hno⟩

end MessageStore

namespace Mailbox

variable {m m' : Mailbox} {id : RemoteId} {now : Instant} {tally tally' : Tally}

theorem EditedBy.indexedAt_iff (hd : m.store.Distinct) (h : EditedBy Edit.tends m m') :
    m'.store.IndexedAt id ↔ m.store.IndexedAt id := by
  obtain ⟨edits, htends, rfl⟩ := h
  induction edits generalizing m with
  | nil => exact Iff.rfl
  | cons e rest ih =>
      obtain ⟨he, hrest⟩ := List.forall_mem_cons.1 htends
      have hnext : (e.apply m).store.Distinct := distinct_editAll hd [e]
      rw [editAll_cons, ih hnext hrest]
      exact (tended_apply he m).indexedAt_iff hd

theorem Settled.indexedAt_iff (hd : m.store.Distinct) (h : Settled m m') :
    m'.store.IndexedAt id ↔ m.store.IndexedAt id ∨ m'.store.Forgets id := by
  obtain ⟨between, htended, rfl | rfl⟩ := h
  · rw [htended.indexedAt_iff hd]
    constructor
    · exact .inl
    · rintro (hright | hforgets)
      · exact hright
      · exact (htended.indexedAt_iff hd).1 hforgets.indexedAt
  · have hbetween : between.store.Distinct := by
      obtain ⟨edits, _, rfl⟩ := htended
      exact distinct_editAll hd edits
    rw [(flushPending_spec between).1, MessageStore.indexedAt_removeWhere_iff hbetween,
      htended.indexedAt_iff hd]

/-! ## Mending -/

/-- The check of integrity reports that a UID is still to be issued that a message has, and so says
nothing of the index, which is wrong. -/
structure Masks (m : Mailbox) : Prop where
  regressed : ∃ greatest, m.desync? = some (.uidNextRegression greatest)
  misnames : ¬ m.Indexed

theorem distinct_of_regressed {greatest : Uid}
    (h : m.desync? = some (.uidNextRegression greatest)) : m.store.Distinct := by
  refine MessageStore.duplicateUid?_eq_none.1 (Option.eq_none_iff_forall_ne_some.2 ?_)
  intro uid hdup
  unfold desync? at h
  simp only [hdup] at h
  cases h

theorem orderly_raiseUidNext (hd : m.store.Distinct) : m.raiseUidNext.Orderly := by
  refine ⟨by rw [raiseUidNext_store]; exact hd, fun r hr => ?_⟩
  rw [raiseUidNext_store] at hr
  unfold raiseUidNext
  split
  · next hnone =>
    have hlast : m.store.messages.getLast? = none := Option.map_eq_none_iff.1 hnone
    rw [List.getLast?_eq_none_iff.1 hlast] at hr
    cases hr
  · next greatest hgreatest =>
    refine Nat.lt_of_le_of_lt (MessageStore.le_greatestUid? hgreatest hr) ?_
    show greatest.val < (m.uids.raiseAbove greatest).bound
    unfold UidSpace.raiseAbove
    split
    · next next hnext =>
      split
      · show greatest.val < greatest.next?.elim (maxWord + 1) (·.val)
        rw [Uid.elim_next?]
        omega
      · rw [UidSpace.bound_of_next? hnext]
        omega
    · next hnone =>
      rw [UidSpace.bound_of_exhausted hnone]
      exact greatest.val_lt

theorem mend_spec (now : Instant) (invalidate : Bool) (m : Mailbox) :
    ((m.mend now invalidate).1 = true ∧ (m.mend now invalidate).2 = (m.invalidate now).2) ∨
      (m.mend now invalidate).1 = false ∧ (m.mend now invalidate).2.Orderly ∧
        (m.mend now invalidate).2.store = m.store ∧ (m.Indexed ∨ m.Masks) := by
  unfold mend
  split
  · exact .inl ⟨rfl, rfl⟩
  · split
    · next hnone =>
      obtain ⟨ho, hi⟩ := desync?_eq_none.1 hnone
      exact .inr ⟨rfl, ho, rfl, .inl hi⟩
    · next desync hsome =>
      cases desync with
      | uidNextRegression greatest =>
          refine .inr ⟨rfl, orderly_raiseUidNext (distinct_of_regressed hsome),
            raiseUidNext_store m, ?_⟩
          exact (Classical.em m.Indexed).imp_right fun hwrong => ⟨⟨greatest, hsome⟩, hwrong⟩
      | duplicateUid uid => exact .inl ⟨rfl, rfl⟩
      | brokenIndex => exact .inl ⟨rfl, rfl⟩

/-- What the last change of a round makes of the identities of a mailbox. -/
structure Mends (m : Mailbox) (tally : Tally) (m' : Mailbox) : Prop where
  orderly : m'.Orderly
  renewed : tally.invalidated = true → m'.Indexed
  kept : tally.invalidated = false →
    ∀ id, m'.store.IndexedAt id ↔ m.store.IndexedAt id ∨ m'.store.Forgets id

namespace Mends

theorem sound_of_renewed (h : m.Mends tally m') (hrenewed : tally.invalidated = true) :
    m'.checkIntegrity = .ok () :=
  checkIntegrity_iff.2 ⟨h.orderly, h.renewed hrenewed⟩

/-- What the index was wrong about is mended only where nothing is left of a name. -/
theorem sound_iff (h : m.Mends tally m') (hkept : tally.invalidated = false) :
    m'.checkIntegrity = .ok () ↔ ∀ id, ¬ m.store.IndexedAt id → m'.store.Forgets id := by
  rw [checkIntegrity_iff]
  constructor
  · rintro ⟨_, hi⟩ id hwrong
    exact ((h.kept hkept id).1 (hi id)).resolve_left hwrong
  · intro hforgets
    refine ⟨h.orderly, fun id => (h.kept hkept id).2 ?_⟩
    exact (Classical.em (m.store.IndexedAt id)).imp_right (hforgets id)

theorem sound (h : m.Mends tally m') (hi : m.Indexed) : m'.checkIntegrity = .ok () := by
  cases hrenewed : tally.invalidated with
  | true => exact h.sound_of_renewed hrenewed
  | false => exact (h.sound_iff hrenewed).2 fun id hwrong => absurd (hi id) hwrong

theorem kept_change (h : m.startJournal.Mends tally m') :
    m.Mends tally (m'.editAll [.commit, .takeUnsaved]).keepChanges := by
  rw [kept_eq]
  exact ⟨h.orderly.of_eq rfl rfl, h.renewed, h.kept⟩

end Mends

theorem correctAll_marks {updatesFlags : Bool} {prepared : List MessageContent}
    {taken : Instant} {corrections : List Correction}
    (hok : m.correctAll updatesFlags prepared taken tally corrections = (.ok tally', m')) :
    tally'.resynced = tally.resynced ∧ tally'.invalidated = tally.invalidated := by
  induction corrections generalizing m tally with
  | nil =>
      cases hok
      exact ⟨rfl, rfl⟩
  | cons correction rest ih =>
      unfold correctAll at hok
      split at hok
      · cases hok
      · next tally₁ m₁ hcorrect =>
        have hone : tally₁.resynced = tally.resynced ∧ tally₁.invalidated = tally.invalidated := by
          unfold correct at hcorrect
          split at hcorrect
          · split at hcorrect <;> cases hcorrect <;> exact ⟨rfl, rfl⟩
          · split at hcorrect
            · split at hcorrect <;> cases hcorrect <;> exact ⟨rfl, rfl⟩
            · cases hcorrect
              exact ⟨rfl, rfl⟩
          · split at hcorrect
            · cases hcorrect
            · split at hcorrect <;> cases hcorrect
              exact ⟨rfl, rfl⟩
        exact ⟨(ih hok).1.trans hone.1, (ih hok).2.trans hone.2⟩

theorem applyEvents_marks {updatesFlags : Bool} {events : List Prepared}
    (hok : m.applyEvents updatesFlags tally events = (.ok tally', m')) :
    tally'.resynced = tally.resynced ∧ tally'.invalidated = tally.invalidated := by
  induction events generalizing m tally with
  | nil =>
      cases hok
      exact ⟨rfl, rfl⟩
  | cons event rest ih =>
      unfold applyEvents at hok
      split at hok
      · cases hok
      · next tally₁ m₁ hevent =>
        have hone : tally₁.resynced = tally.resynced ∧ tally₁.invalidated = tally.invalidated := by
          unfold applyEvent at hevent
          split at hevent
          · split at hevent
            · cases hevent
            · split at hevent <;> cases hevent <;> exact ⟨rfl, rfl⟩
          · split at hevent
            · split at hevent <;> cases hevent <;> exact ⟨rfl, rfl⟩
            · cases hevent
              exact ⟨rfl, rfl⟩
          · split at hevent <;> cases hevent <;> exact ⟨rfl, rfl⟩
        exact ⟨(ih hok).1.trans hone.1, (ih hok).2.trans hone.2⟩

theorem mends_reconcile {settings : SyncSettings} {sessions : Nat} {invalidate : Bool}
    {prepared : List MessageContent} {listing : Listing} {cursor : Option String}
    {corrections : List Correction}
    (hok : m.reconcile settings sessions now invalidate prepared listing cursor =
      (.ok (tally, corrections), m')) :
    m.Mends tally m' ∧ tally.invalidated = (m.mend now invalidate).1 ∧
      (tally.invalidated = false → m.Indexed ∨ m.Masks) := by
  have hsettled :=
    settled_reconcile settings sessions now invalidate prepared listing cursor m
  rw [hok] at hsettled
  have htally : tally.invalidated = (m.mend now invalidate).1 := by
    unfold reconcile at hok
    dsimp only at hok
    split at hok
    · cases hok
    · next hcorrect =>
      cases hok
      exact (correctAll_marks hcorrect).2
  obtain ⟨edits, hedits⟩ := hsettled.edited
  dsimp only at hsettled hedits
  rcases mend_spec now invalidate m with ⟨hrenewed, hmend⟩ | ⟨hkept, ho, hstore, hcases⟩
  · rw [hmend] at hedits
    have hrenewal := orderly_invalidate now m
    refine ⟨⟨?_, fun _ => ?_, fun hfalse => ?_⟩, htally, fun hfalse => ?_⟩
    · rw [hedits]
      exact hrenewal.editAll edits
    · rw [hedits]
      exact Indexed.editAll hrenewal.distinct (indexed_invalidate now m) edits
    · rw [htally, hrenewed] at hfalse
      cases hfalse
    · rw [htally, hrenewed] at hfalse
      cases hfalse
  · refine ⟨⟨?_, fun htrue => ?_, fun _ id => ?_⟩, htally, fun _ => hcases⟩
    · rw [hedits]
      exact ho.editAll edits
    · rw [htally, hkept] at htrue
      cases htrue
    · rw [hsettled.indexedAt_iff ho.distinct, hstore]

theorem mends_applyBatch {settings : SyncSettings} {sessions : Nat}
    {since? : Option (Option String)} {events : List Prepared} {cursor : Option String}
    (ho : m.Orderly) (hok : m.applyBatch settings sessions since? events cursor = (.ok tally, m')) :
    m.Mends tally m' ∧ tally.invalidated = false := by
  have hsettled := settled_applyBatch settings sessions since? events cursor m
  rw [hok] at hsettled
  have htally : tally.invalidated = false := by
    unfold applyBatch at hok
    split at hok
    · cases hok
    · split at hok
      · cases hok
      · next hevents =>
        cases hok
        exact (applyEvents_marks hevents).2
  obtain ⟨edits, hedits⟩ := hsettled.edited
  dsimp only at hsettled hedits
  refine ⟨⟨?_, fun htrue => ?_, fun _ id => hsettled.indexedAt_iff ho.distinct⟩, htally⟩
  · rw [hedits]
    exact ho.editAll edits
  · rw [htally] at htrue
    cases htrue

/-! ## While others take nothing in -/

theorem not_reassigns_of_takesIn (hd : m.store.Distinct) (hi : m.Indexed) {edits : List Edit}
    (hmade : ∀ e ∈ edits, e.takesIn = false) (id : RemoteId) : ¬ m.Reassigns edits id := by
  have horigin {edits : List Edit} (hmade : ∀ e ∈ edits, e.takesIn = false)
      (hno : ∀ e ∈ edits, e.renews = false) {b : Mailbox} (hd : b.store.Distinct) :
      ∀ r' ∈ (b.editAll edits).store.messages, ∃ r ∈ b.store.messages,
        r'.uid = r.uid ∧ r'.remoteId = r.remoteId := by
    induction edits generalizing b with
    | nil => exact fun r hr => ⟨r, hr, rfl, rfl⟩
    | cons e rest ih =>
        obtain ⟨he, hrest⟩ := List.forall_mem_cons.1 hmade
        obtain ⟨hrenews, hnoRest⟩ := List.forall_mem_cons.1 hno
        have hnext : (e.apply b).store.Distinct := distinct_editAll hd [e]
        intro r'' hr''
        obtain ⟨r', hr', huid', hname'⟩ := ih hrest hnoRest hnext r'' hr''
        obtain ⟨r, hr, huid, hname⟩ :=
          origin_upkeep hd (upkeep_apply e b hrenews he) r' hr'
        exact ⟨r, hr, huid'.trans huid, hname'.trans hname⟩
  rintro ⟨r, hr, r', hr', hid, hid', hne⟩
  have hprefix : ∀ e ∈ edits.takeWhile (fun e => !e.renews), e.renews = false := by
    intro e he
    simpa using List.mem_takeWhile_imp he
  obtain ⟨x, hx, huid, hname⟩ := horigin
    (fun e he => hmade e (List.takeWhile_subset _ he)) hprefix (b := m.startJournal) hd r' hr'
  exact hne (((hi id).uid_eq hr hx hid (hname.symm.trans hid')).trans huid.symm)

end Mailbox

namespace SharedMailbox

open Mailbox

variable {s s' : SharedMailbox}

/-- Whether the edit takes no content in. Sessions make no other edits. -/
def sparesNames (e : Edit) : Bool := !e.takesIn

theorem sound_of_unchanged (h : s.Unchanged s') (hsound : s.mailbox.checkIntegrity = .ok ()) :
    s'.mailbox.checkIntegrity = .ok () := by
  obtain ⟨ho, hi⟩ := checkIntegrity_iff.1 hsound
  have huids : s'.mailbox.keepChanges.uids = s.mailbox.keepChanges.uids := by rw [h.outside]
  exact checkIntegrity_iff.2 ⟨ho.of_eq h.messages huids, h.indexed hi⟩

/-- A change that takes no content in leaves sound identities sound, kept or taken back. -/
theorem intact_perform (hsound : s.mailbox.checkIntegrity = .ok ()) {c : Change}
    (hmade : ∀ e ∈ c.edits, sparesNames e = true) :
    (s.perform c).mailbox.checkIntegrity = .ok () := by
  obtain ⟨ho, hi⟩ := checkIntegrity_iff.1 hsound
  have hnone : ∀ e ∈ c.edits, e.takesIn = false := fun e he => by
    simpa [sparesNames] using hmade e he
  refine checkIntegrity_iff.2 ⟨orderly_perform ho c, ?_⟩
  unfold perform
  cases hresult : (s.mutate fun m => (c.verdict, m.editAll c.edits)).1 with
  | error e =>
      obtain ⟨store, hback, hmessages⟩ := rollback_restores ho.distinct c.edits
      rw [mutate_error rfl hresult]
      intro id uid
      have hname := uidOf?_rollback ho.distinct hi c.edits
        (not_reassigns_of_takesIn ho.distinct hi hnone id)
      rw [hname, hback]
      dsimp only
      rw [hmessages]
      exact hi id uid
  | ok a =>
      obtain ⟨_, cache?, hkept⟩ := conclude_ok hresult
      have hi' := Indexed.editAll (m := s.mailbox.startJournal) ho.distinct hi
        (c.edits ++ [.commit, .takeUnsaved])
      rw [editAll_append] at hi'
      unfold mutate
      dsimp only
      rw [hkept]
      exact hi'

theorem intact_leadsBy (hsound : s.mailbox.checkIntegrity = .ok ())
    (hleads : LeadsBy sparesNames s s') : s'.mailbox.checkIntegrity = .ok () := by
  induction hleads with
  | refl => exact hsound
  | tail _ hstep ih =>
      cases hstep with
      | change c hmade => exact intact_perform ih hmade
      | aside => exact ih

end SharedMailbox

namespace Site

open SharedMailbox Mailbox

variable {s s' : Site} {tally : Tally} {since? : Option (Option String)} {batch : EventBatch}

/-- What a full listing that comes to its end makes of the identities, told from the mailbox that
it found. -/
theorem resyncFrom_mends {fallback : Option String}
    (hok : s.resyncFrom fallback = (.ok tally, s')) : ∃ before : SharedMailbox,
      (∀ kind, s.Allows kind → SharedMailbox.LeadsBy kind s.shared before) ∧
      before.mailbox.Mends tally s'.shared.mailbox ∧
      (tally.invalidated = false → before.mailbox.Indexed ∨ before.mailbox.Masks) ∧
      (s.Undisturbed → before = s.shared ∧ (s.shared.mailbox.Masks →
        tally.invalidated = s.remote.listing.answer.recreated)) := by
  obtain ⟨before, invalidate, prepared, corrections, m', hleads, _, hundisturbed, hreconcile,
    hkept⟩ := resyncFrom_kept hok
  obtain ⟨hmends, htally, hcases⟩ := Mailbox.mends_reconcile hreconcile
  refine ⟨before.shared, fun kind hallows => (hleads kind hallows).1, ?_, fun hkeeps => ?_, ?_⟩
  · rw [hkept]
    exact hmends.kept_change
  · exact (hcases hkeeps).imp_right fun hmasks => ⟨hmasks.regressed, hmasks.misnames⟩
  · intro hquiet
    obtain ⟨hshared, hinvalidate⟩ := hundisturbed hquiet
    refine ⟨hshared, fun hmasks => ?_⟩
    obtain ⟨greatest, hregressed⟩ := hmasks.regressed
    have hnow : before.shared.mailbox.startJournal.desync? =
        some (.uidNextRegression greatest) := by
      rw [hshared]
      exact hregressed
    rw [htally, hinvalidate, hregressed, Mailbox.mend, hnow]
    cases s.remote.listing.answer.recreated <;> rfl

theorem resyncFrom_sound {fallback : Option String} (hallows : s.Allows sparesNames)
    (hsound : s.shared.mailbox.checkIntegrity = .ok ())
    (hok : s.resyncFrom fallback = (.ok tally, s')) :
    s'.shared.mailbox.checkIntegrity = .ok () := by
  obtain ⟨before, hleads, hmends, _, _⟩ := resyncFrom_mends hok
  have hbefore := intact_leadsBy hsound (hleads _ hallows)
  exact hmends.sound (Mailbox.checkIntegrity_iff.1 hbefore).2

theorem orderly_leads {m m' : SharedMailbox} (ho : m.mailbox.Orderly)
    (hleads : SharedMailbox.Leads m m') : m'.mailbox.Orderly := by
  induction hleads with
  | refl => exact ho
  | tail _ hstep ih =>
      cases hstep with
      | change c => exact orderly_perform ih c
      | aside => exact ih

/-- A batch is applied to the mailbox as others left it while messages were decrypted. -/
theorem applyEvents_cases (since? : Option (Option String)) (batch : EventBatch) (s : Site) :
    ∃ (before : Site) (events : List Prepared), (∀ kind, s.LeadsBy kind before) ∧
      (s.applyEvents since? batch).1 = outcome (before.shared.mutate (·.applyBatch before.settings
        before.shared.sessions since? events batch.cursor)).1 ∧
      (s.applyEvents since? batch).2.shared = (before.shared.mutate (·.applyBatch before.settings
        before.shared.sessions since? events batch.cursor)).2 ∧
      (s.applyEvents since? batch).2.remote = before.remote := by
  have hleads (kind : Edit → Bool) : s.LeadsBy kind _ := leadsBy_prepareEvents batch.events s
  unfold applyEvents
  dsimp only
  generalize s.prepareEvents batch.events = prepared at hleads ⊢
  generalize (if prepared.2.settings.ordered then _ else _) = events
  refine ⟨prepared.2, events, hleads, ?_⟩
  rw [mutate_eq]
  cases (prepared.2.shared.mutate (·.applyBatch prepared.2.settings prepared.2.shared.sessions
    since? events batch.cursor)).1 with
  | error e => exact ⟨rfl, rfl, rfl⟩
  | ok tally => exact ⟨rfl, rfl, rfl⟩

theorem Allows.of_remote {kind : Edit → Bool} (h : s.Allows kind) (hremote : s'.remote = s.remote) :
    s'.Allows kind := by
  unfold Allows
  rw [hremote]
  exact h

theorem sound_invalidate {validity : UidValidity} (hok : s.invalidate = (.ok validity, s')) :
    s'.shared.mailbox.checkIntegrity = .ok () ∧ s'.remote = s.remote := by
  obtain ⟨hresult, t, hrecords, hsite⟩ := invalidate_eq s
  rw [hok] at hresult hsite
  dsimp only at hresult hsite
  subst hsite
  refine ⟨?_, hrecords.remote⟩
  cases hmutate : (s.shared.invalidate s.clock).1 with
  | error e =>
      rw [hmutate] at hresult
      cases hresult
  | ok validity' =>
      obtain ⟨_, cache?, heq⟩ := modify_ok hmutate
      have hrenewed := orderly_invalidate s.clock s.shared.mailbox.startJournal
      have hindexed := indexed_invalidate s.clock s.shared.mailbox.startJournal
      unfold SharedMailbox.invalidate
      rw [heq, kept_eq]
      exact checkIntegrity_iff.2 ⟨hrenewed.of_eq rfl rfl, hindexed⟩

theorem resyncFrom_orderly {fallback : Option String}
    (hok : s.resyncFrom fallback = (.ok tally, s')) : s'.shared.mailbox.Orderly ∧
      (tally.invalidated = true → s'.shared.mailbox.checkIntegrity = .ok ()) := by
  obtain ⟨before, _, hmends, _, _⟩ := resyncFrom_mends hok
  exact ⟨hmends.orderly, hmends.sound_of_renewed⟩

theorem apply_mends (hok : s.apply since? batch = (.ok tally, s')) :
    s'.shared.mailbox.Orderly ∧
      (tally.invalidated = true → s'.shared.mailbox.checkIntegrity = .ok ()) ∧
      (s.Allows sparesNames → s.shared.mailbox.checkIntegrity = .ok () →
        s'.shared.mailbox.checkIntegrity = .ok ()) := by
  unfold apply at hok
  split at hok
  · obtain ⟨ho, hrenewed⟩ := resyncFrom_orderly hok
    exact ⟨ho, hrenewed, fun hallows hsound => resyncFrom_sound hallows hsound hok⟩
  · next hlists =>
    obtain ⟨_, hnone⟩ : batch.gap = false ∧ s.shared.mailbox.desync? = none := by
      simpa using hlists
    have hstart := (desync?_eq_none.1 hnone).1
    obtain ⟨before, events, hleads, hresult, hshared, hremote⟩ := applyEvents_cases since? batch s
    have hbefore := orderly_leads hstart (hleads _).leads
    have hallowed (hallows : s.Allows sparesNames)
        (hsound : s.shared.mailbox.checkIntegrity = .ok ()) :
        before.Allows sparesNames ∧ before.shared.mailbox.checkIntegrity = .ok () := by
      obtain ⟨hbetween, hallows'⟩ := hleads sparesNames hallows
      exact ⟨hallows', intact_leadsBy hsound hbetween⟩
    split at hok
    · next s₁ hevents =>
      split at hok
      · cases hok
      · next validity s₂ hinvalidate =>
        -- the new epoch is sound whatever was there before
        obtain ⟨hrenewal, hremote'⟩ := sound_invalidate hinvalidate
        obtain ⟨ho, hrenewed⟩ := resyncFrom_orderly hok
        rw [hevents] at hremote
        refine ⟨ho, hrenewed, fun hallows hsound => ?_⟩
        have hallows' := (hallowed hallows hsound).1.of_remote (hremote'.trans hremote)
        exact resyncFrom_sound hallows' hrenewal hok
    · next s₁ hevents =>
      obtain ⟨ho, hrenewed⟩ := resyncFrom_orderly hok
      rw [hevents] at hresult hshared hremote
      refine ⟨ho, hrenewed, fun hallows hsound => ?_⟩
      obtain ⟨hallows', hsound'⟩ := hallowed hallows hsound
      obtain ⟨e, hfailed, _⟩ := outcome_eq_error hresult.symm
      have hunchanged := unchanged_applyBatch hbefore.distinct hfailed
      rw [← hshared] at hunchanged
      exact resyncFrom_sound (hallows'.of_remote hremote)
        (sound_of_unchanged hunchanged hsound') hok
    · rw [hok] at hresult hshared
      cases hmutate : (before.shared.mutate (·.applyBatch before.settings before.shared.sessions
          since? events batch.cursor)).1 with
      | error e =>
          rw [hmutate] at hresult
          cases hresult
      | ok tally' =>
          rw [hmutate] at hresult
          cases hresult
          obtain ⟨hbatch, cache?, hkept⟩ := conclude_ok hmutate
          obtain ⟨hmends, _⟩ := mends_applyBatch (m := before.shared.mailbox.startJournal)
            (hbefore.of_eq rfl rfl) (Prod.ext hbatch rfl)
          have hmends' := hmends.kept_change
          have hlast : s'.shared.mailbox = ((before.shared.mailbox.startJournal.applyBatch
              before.settings before.shared.sessions since? events batch.cursor).2.editAll
                [.commit, .takeUnsaved]).keepChanges := by
            dsimp only at hshared
            rw [hshared]
            exact congrArg SharedMailbox.mailbox hkept
          rw [← hlast] at hmends'
          refine ⟨hmends'.orderly, hmends'.sound_of_renewed, fun hallows hsound => ?_⟩
          exact hmends'.sound (checkIntegrity_iff.1 (hallowed hallows hsound).2).2

/-- What a full listing that nobody disturbs leaves of the identities: they are sound, unless the
index was wrong behind UIDs that are still to be issued. -/
theorem resyncFrom_alone {fallback : Option String} (h : s.Undisturbed)
    (hok : s.resyncFrom fallback = (.ok tally, s')) :
    (¬ s.shared.mailbox.Masks → s'.shared.mailbox.checkIntegrity = .ok ()) ∧
    (s.shared.mailbox.Masks → tally.invalidated = s.remote.listing.answer.recreated ∧
      (tally.invalidated = false → (s'.shared.mailbox.checkIntegrity = .ok () ↔
        ∀ id, ¬ s.shared.mailbox.store.IndexedAt id → s'.shared.mailbox.store.Forgets id))) := by
  obtain ⟨before, _, hmends, hcases, hundisturbed⟩ := resyncFrom_mends hok
  obtain ⟨rfl, hrecreated⟩ := hundisturbed h
  refine ⟨fun hshown => ?_, fun hmasks => ⟨hrecreated hmasks, hmends.sound_iff⟩⟩
  cases hrenewed : tally.invalidated with
  | true => exact hmends.sound_of_renewed hrenewed
  | false => exact hmends.sound ((hcases hrenewed).resolve_right hshown)

theorem apply_alone (h : s.Undisturbed) (hallows : s.Allows sparesNames)
    (hok : s.apply since? batch = (.ok tally, s')) :
    (¬ s.shared.mailbox.Masks → s'.shared.mailbox.checkIntegrity = .ok ()) ∧
    (s.shared.mailbox.Masks → tally.invalidated = s.remote.listing.answer.recreated ∧
      (tally.invalidated = false → (s'.shared.mailbox.checkIntegrity = .ok () ↔
        ∀ id, ¬ s.shared.mailbox.store.IndexedAt id → s'.shared.mailbox.store.Forgets id))) := by
  cases hdesync : s.shared.mailbox.desync? with
  | none =>
      have hsound := checkIntegrity_iff.2 (desync?_eq_none.1 hdesync)
      refine ⟨fun _ => (apply_mends hok).2.2 hallows hsound, fun hmasks => ?_⟩
      obtain ⟨_, hregressed⟩ := hmasks.regressed
      rw [hdesync] at hregressed
      cases hregressed
  | some desync =>
      unfold apply at hok
      rw [hdesync, Option.isSome_some, Bool.or_true, if_pos rfl] at hok
      exact resyncFrom_alone h hok

theorem Alone.allows {kind : Edit → Bool} (h : s.Alone) : s.Allows kind := by
  obtain ⟨⟨hlisting, hdecrypting⟩, hbatches⟩ := h
  intro op hop
  unfold RemoteScript.operations at hop
  rw [hlisting, hdecrypting] at hop
  simp only [List.append_nil, List.mem_append, List.mem_flatMap] at hop
  rcases hop with ⟨delivery, hdelivery, hop⟩ | hop
  · rw [hbatches delivery hdelivery] at hop
    cases hop
  · cases hop

end Site

namespace Errand

open SharedMailbox

variable {errand : Errand} {s s₁ s' : Site} {tally : Tally} {since? : Option (Option String)}
  {batch : EventBatch}

theorem run_cases (hok : errand.run s = (.ok tally, s')) : errand = resync ∨
    ∃ s₁ since? batch, errand.Brings s s₁ since? batch ∧
      s₁.apply since? batch = (.ok tally, s') := by
  cases errand with
  | resync => exact .inl rfl
  | apply since? batch => exact .inr ⟨s, since?, batch, .apply since? batch, hok⟩
  | sync =>
      unfold run Site.sync at hok
      dsimp only at hok
      split at hok
      · cases hok
      · next hfetch => exact .inr ⟨_, _, _, .sync hfetch, hok⟩

theorem Brings.leadsBy (h : errand.Brings s s₁ since? batch) (kind : Edit → Bool) :
    s.LeadsBy kind s₁ := by
  cases h with
  | sync fetched =>
      have hleads : s.LeadsBy kind _ := Site.leadsBy_fetch s.shared.mailbox.cursor s
      rw [fetched] at hleads
      exact hleads.trans (Site.leadsBy_of_shared rfl fun _ => id)
  | apply => exact .refl s

theorem Brings.listing (h : errand.Brings s s₁ since? batch) (halone : s.Alone) :
    s₁.remote.listing = s.remote.listing := by
  cases h with
  | sync fetched =>
      obtain ⟨_, _, _, _, _, rfl⟩ := (Site.fetch_passes halone fetched).2 _ rfl
      rfl
  | apply => rfl

/-- After a round that comes to its end no two messages have one UID and none has a UID that is
still to be issued, whatever was wrong before and whatever others did meanwhile; in a new epoch the
index is right as well. Sound identities stay sound, if others take nothing in. If nobody disturbs
the round, it leaves the identities sound unless it found the index wrong behind UIDs that are still
to be issued; and then it does so only if it begins a new epoch, as it does if the remote mailbox
was made anew, or if nothing is left of any name that the index was wrong about. -/
theorem sound_after_round (hok : errand.run s = (.ok tally, s')) :
    s'.shared.mailbox.Orderly ∧
    (tally.invalidated = true → s'.shared.mailbox.checkIntegrity = .ok ()) ∧
    (s.Allows sparesNames → s.shared.mailbox.checkIntegrity = .ok () →
      s'.shared.mailbox.checkIntegrity = .ok ()) ∧
    (s.Alone → ¬ s.shared.mailbox.Masks → s'.shared.mailbox.checkIntegrity = .ok ()) ∧
    (s.Alone → s.shared.mailbox.Masks →
      tally.invalidated = s.remote.listing.answer.recreated ∧
        (tally.invalidated = false → (s'.shared.mailbox.checkIntegrity = .ok () ↔
          ∀ id, ¬ s.shared.mailbox.store.IndexedAt id → s'.shared.mailbox.store.Forgets id))) := by
  rcases run_cases hok with rfl | ⟨s₁, since?, batch, hbrings, happly⟩
  · obtain ⟨ho, hrenewed⟩ := Site.resyncFrom_orderly hok
    exact ⟨ho, hrenewed, fun hallows hsound => Site.resyncFrom_sound hallows hsound hok,
      fun halone => (Site.resyncFrom_alone halone.1 hok).1,
      fun halone => (Site.resyncFrom_alone halone.1 hok).2⟩
  · obtain ⟨ho, hrenewed, hsound⟩ := Site.apply_mends happly
    have hbefore (hallows : s.Allows sparesNames) := hbrings.leadsBy sparesNames hallows
    have hwhole (halone : s.Alone) := Site.apply_alone (hbrings.alone halone).2.2
      (hbefore halone.allows).2 happly
    refine ⟨ho, hrenewed, fun hallows hintact => ?_, fun halone => ?_, fun halone => ?_⟩
    · exact hsound (hbefore hallows).2 (intact_leadsBy hintact (hbefore hallows).1)
    · have hshown := (hwhole halone).1
      rwa [(hbrings.alone halone).1] at hshown
    · have hmasked := (hwhole halone).2
      rwa [(hbrings.alone halone).1, hbrings.listing halone] at hmasked

/-- A site with two messages, where the UID of the second is still to be issued. The remote account
lists the first. -/
def damaged (second : RemoteId) : Site where
  shared :=
    { mailbox := .ofSaved "INBOX" ⟨⟨.one⟩, some ⟨⟨2, by decide, by decide⟩⟩⟩
        (.ofMessages [{ remoteId := "a", uid := ⟨.one⟩, modseq := .zero },
          { remoteId := second, uid := ⟨⟨2, by decide, by decide⟩⟩, modseq := .zero }])
        .zero none ∅ }
  remote := { listing := { answer := { messages := [{ id := "a" }], taken := 0 } } }
  decryption? := none
  settings := {}
  clock := 0
  elapsed := 0

/-- The messages are sorted already. -/
theorem damaged_eq (second : RemoteId) : damaged second =
    { damaged second with
      shared.mailbox := .ofSaved "INBOX" (damaged second).shared.mailbox.uids
        ⟨[{ remoteId := "a", uid := ⟨.one⟩, modseq := .zero },
            { remoteId := second, uid := ⟨⟨2, by decide, by decide⟩⟩, modseq := .zero }],
          .ofList [("a", ⟨.one⟩), (second, ⟨⟨2, by decide, by decide⟩⟩)],
          List.pairwise_pair.2 (Nat.le_succ 1)⟩
        .zero none ∅ } :=
  congrArg (fun store : MessageStore =>
      { damaged second with
        shared.mailbox :=
          .ofSaved "INBOX" (damaged second).shared.mailbox.uids store .zero none ∅ })
    (MessageStore.ofMessages_of_ascending (List.pairwise_pair.2 (Nat.le_succ 1)))

theorem alone_damaged (second : RemoteId) : (damaged second).Alone := ⟨⟨rfl, rfl⟩, nofun⟩

theorem resync_damaged : resync.run (damaged "b") =
    (.ok { removed := 1, expunged := [⟨⟨2, by decide, by decide⟩⟩], resynced := true },
      (resync.run (damaged "b")).2) := by
  refine Prod.ext ?_ rfl
  rw [damaged_eq]
  decide +kernel

theorem resync_masked : resync.run (damaged "a") =
    (.ok { resynced := true }, (resync.run (damaged "a")).2) := by
  refine Prod.ext ?_ rfl
  rw [damaged_eq]
  decide +kernel

theorem indexed_damaged (second : RemoteId) : (damaged second).shared.mailbox.Indexed ↔
    (damaged second).shared.mailbox.store.isIndexed = true := by
  have hdistinct : (damaged second).shared.mailbox.store.duplicateUid? = none := by
    rw [damaged_eq]
    rfl
  exact (MessageStore.isIndexed_iff (MessageStore.duplicateUid?_eq_none.1 hdistinct)).symm

/-- Two messages of one name are not reported as long as the UID of one is still to be issued. -/
theorem masks_damaged : (damaged "a").shared.mailbox.Masks := by
  have hwrong : (damaged "a").shared.mailbox.store.isIndexed = false := by
    rw [damaged_eq]
    rfl
  refine ⟨⟨⟨⟨2, by decide, by decide⟩⟩, ?_⟩, fun hright => ?_⟩
  · rw [damaged_eq]
    rfl
  · rw [indexed_damaged, hwrong] at hright
    cases hright

theorem sound_after_round_of_damaged :
    (resync.run (damaged "b") =
        (.ok { removed := 1, expunged := [⟨⟨2, by decide, by decide⟩⟩], resynced := true },
          (resync.run (damaged "b")).2) ∧
      (damaged "b").Alone ∧ ¬ (damaged "b").shared.mailbox.Masks ∧
      (resync.run (damaged "b")).2.shared.mailbox.checkIntegrity = .ok ()) ∧
    (resync.run (damaged "a") = (.ok { resynced := true }, (resync.run (damaged "a")).2) ∧
      (damaged "a").Alone ∧ (damaged "a").shared.mailbox.Masks ∧
      ((resync.run (damaged "a")).2.shared.mailbox.checkIntegrity = .ok () ↔
        ∀ id, ¬ (damaged "a").shared.mailbox.store.IndexedAt id →
          (resync.run (damaged "a")).2.shared.mailbox.store.Forgets id)) ∧
    (Site.withLeftovers.Allows sparesNames ∧
      Site.withLeftovers.shared.mailbox.checkIntegrity = .ok () ∧
      (resync.run Site.withLeftovers).2.shared.mailbox.checkIntegrity = .ok ()) := by
  have hindexed : (damaged "b").shared.mailbox.store.isIndexed = true := by
    rw [damaged_eq]
    rfl
  have hshown : ¬ (damaged "b").shared.mailbox.Masks := fun hmasks =>
    hmasks.misnames ((indexed_damaged "b").2 hindexed)
  have hallows : Site.withLeftovers.Allows sparesNames :=
    Site.Alone.allows ⟨⟨rfl, rfl⟩, fun _ hdelivery => by cases hdelivery⟩
  obtain ⟨_, _, _, hsound, _⟩ := sound_after_round resync_damaged
  obtain ⟨_, _, _, _, hmasked⟩ := sound_after_round resync_masked
  obtain ⟨_, _, hkept, _⟩ :=
    sound_after_round (show resync.run Site.withLeftovers = _ from Site.resync_withLeftovers)
  exact ⟨⟨resync_damaged, alone_damaged "b", hshown, hsound (alone_damaged "b") hshown⟩,
    ⟨resync_masked, alone_damaged "a", masks_damaged,
      (hmasked (alone_damaged "a") masks_damaged).2 rfl⟩,
    ⟨hallows, rfl, hkept hallows rfl⟩⟩

/-- A full listing that comes to its end may leave the index wrong. -/
theorem resync_leaves_index_broken :
    resync.run (damaged "a") = (.ok { resynced := true }, (resync.run (damaged "a")).2) ∧
      (resync.run (damaged "a")).2.shared.mailbox.checkIntegrity =
        .error (.desync "INBOX" .brokenIndex) := by
  refine ⟨resync_masked, ?_⟩
  rw [damaged_eq]
  decide +kernel

end Errand

end MailBridge

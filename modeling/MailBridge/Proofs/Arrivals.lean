import Mathlib.Data.List.Pairwise
import MailBridge.Proofs.Candor
import MailBridge.Proofs.Corrections
import MailBridge.Proofs.Retention
import MailBridge.Proofs.Sorting

/-! # The order in which messages get their UIDs

Messages that arrive get ascending UIDs, so what counts is the order in which they are taken in. The
messages of a batch are sorted by their place in the remote order, unless the account tells of them
in order, and all other events stay in their places. Those of a listing are taken in by their place
in the remote order and then by name.
-/

namespace MailBridge

theorem lt_of_pairwise {α : Type} {l : List α} {R : α → α → Prop} {f : α → Nat}
    (h : l.Pairwise fun a b => R a b ∧ f a < f b) (hasymm : ∀ a b, R a b → ¬ R b a) {a b : α}
    (ha : a ∈ l) (hb : b ∈ l) (hab : R a b) : f a < f b := by
  have hboth : l.Pairwise fun a b => (R a b → f a < f b) ∧ (R b a → f b < f a) :=
    h.imp fun {a b} hab => ⟨fun _ => hab.2, fun hba => absurd hba (hasymm a b hab.1)⟩
  have hsymm : Std.Symm fun a b => (R a b → f a < f b) ∧ (R b a → f b < f a) :=
    ⟨fun _ _ h => ⟨h.2, h.1⟩⟩
  have hne : a ≠ b := by
    rintro rfl
    exact hasymm a a hab hab
  exact (hboth.forall ha hb hne).1 hab

theorem not_both_ways {a b : UInt64} {P Q : Prop} (hPQ : P → ¬ Q) (hab : a < b ∨ a = b ∧ P) :
    ¬ (b < a ∨ b = a ∧ Q) := by
  rintro (hlt' | ⟨heq', hQ⟩) <;> rcases hab with hlt | ⟨heq, hP⟩
  · exact UInt64.lt_asymm hlt hlt'
  · exact UInt64.lt_irrefl _ (heq ▸ hlt')
  · exact UInt64.lt_irrefl _ (heq' ▸ hlt)
  · exact hPQ hP hQ

theorem pairwise_sublist {α : Type} (l : List α) : l.Pairwise fun a b => [a, b].Sublist l :=
  List.pairwise_iff_forall_sublist.2 id

theorem idxOf_lt_of_sublist {α : Type} [DecidableEq α] {l : List α} (h : l.Nodup) {a b : α}
    (hab : [a, b].Sublist l) : l.idxOf a < l.idxOf b := by
  have hascending : l.Pairwise fun a b => l.idxOf a < l.idxOf b := by
    refine List.pairwise_iff_getElem.2 fun i j hi hj hij => ?_
    rwa [h.idxOf_getElem, h.idxOf_getElem]
  exact List.pairwise_iff_forall_sublist.1 hascending hab

theorem sublist_of_idxOf_lt {α : Type} [DecidableEq α] {l : List α} {a b : α} (ha : a ∈ l)
    (hb : b ∈ l) (hab : l.idxOf a < l.idxOf b) : [a, b].Sublist l := by
  have hpair := List.pairwise_iff_getElem.1 (pairwise_sublist l) (l.idxOf a) (l.idxOf b)
    (List.idxOf_lt_length_of_mem ha) (List.idxOf_lt_length_of_mem hb) hab
  rwa [List.getElem_idxOf, List.getElem_idxOf] at hpair

namespace MessageContent

/-- Of two contents that come in a list, one comes before the other by its place in the remote
order, or else by its place in the list. -/
def Before (contents : List MessageContent) (c d : MessageContent) : Prop :=
  c.order < d.order ∨ c.order = d.order ∧ contents.idxOf c < contents.idxOf d

theorem Before.asymm {contents : List MessageContent} {c d : MessageContent}
    (h : Before contents c d) : ¬ Before contents d c :=
  not_both_ways Nat.lt_asymm h

/-- Sorting by the remote order is stable. -/
theorem pairwise_sorted {contents : List MessageContent} (h : contents.Nodup) :
    (contents.mergeSort fun a b => decide (a.order ≤ b.order)).Pairwise (Before contents) := by
  have htrans : ∀ a b c : MessageContent, decide (a.order ≤ b.order) = true →
      decide (b.order ≤ c.order) = true → decide (a.order ≤ c.order) = true := fun a b c hab hbc =>
    decide_eq_true (UInt64.le_trans (of_decide_eq_true hab) (of_decide_eq_true hbc))
  have htotal : ∀ a b : MessageContent,
      (decide (a.order ≤ b.order) || decide (b.order ≤ a.order)) = true := fun a b => by
    simpa using UInt64.le_total a.order b.order
  have hnodup := (List.mergeSort_perm contents
    fun a b => decide (a.order ≤ b.order)).nodup_iff.2 h
  have hsorted := List.pairwise_mergeSort htrans htotal contents
  refine ((hsorted.and (pairwise_sublist _)).and hnodup).imp_of_mem ?_
  rintro c d hc hd ⟨⟨hle, hpair⟩, hne⟩
  rw [List.mem_mergeSort] at hc hd
  rcases UInt64.lt_or_eq_of_le (of_decide_eq_true hle) with hlt | heq
  · exact .inl hlt
  · refine .inr ⟨heq, Nat.lt_of_le_of_ne (Nat.not_lt.1 fun hlt => ?_) fun hsame => ?_⟩
    · -- what came first stays first
      have hswapped := List.pair_sublist_mergeSort htrans htotal
        (decide_eq_true (UInt64.le_of_eq heq.symm)) (sublist_of_idxOf_lt hd hc hlt)
      exact Nat.lt_asymm (idxOf_lt_of_sublist hnodup hpair) (idxOf_lt_of_sublist hnodup hswapped)
    · exact hne ((List.idxOf_inj hc).1 hsame)

end MessageContent

namespace Mailbox

variable {m m' : Mailbox} {updatesFlags : Bool} {tally tally' : Tally}

/-! ## What events create -/

/-- The message that an event creates, with its UID. -/
def arrival? (m : Mailbox) (event : Prepared) : Option (MessageContent × Uid) :=
  event.content?.bind fun content =>
    ((m.receive content).1.toOption.filter (·.created)).map fun receipt => (content, receipt.uid)

/-- The messages that events create, one after the other. -/
def arrivals (updatesFlags : Bool) : List Prepared → Mailbox → List (MessageContent × Uid)
  | [], _ => []
  | event :: rest, m =>
    (m.arrival? event).toList ++ arrivals updatesFlags rest (m.applyEvent updatesFlags {} event).2

theorem names_change {old r : Message} (found : m.store.get? r.uid = some old)
    (name : r.remoteId = old.remoteId) : (m.change r).store.names = m.store.names := by
  rw [change_store]
  exact MessageStore.names_update_of_found found name

theorem names_markRemoved (id : RemoteId) (m : Mailbox) :
    (m.markRemoved id).2.store.names = m.store.names := by
  unfold markRemoved
  split
  · rfl
  · split
    · rfl
    · next uid _ r found =>
      rw [← uid_of_found found] at found ⊢
      have hmarked : (if Flags.isDeleted r.flags then m else m.change { r with
          flags := OrderedSet.insert .deleted r.flags, modseq := m.modseq.next }).store.names =
            m.store.names := by
        split
        · rfl
        · exact names_change (r := { r with
            flags := OrderedSet.insert .deleted r.flags, modseq := m.modseq.next }) found rfl
      dsimp only
      generalize (if Flags.isDeleted r.flags then m else _) = m' at hmarked ⊢
      split <;> exact hmarked

theorem names_mergeFlags (id : RemoteId) (remote : Flags) (taken : Instant) (m : Mailbox) :
    (m.mergeFlags id remote taken).2.store.names = m.store.names := by
  unfold mergeFlags
  split
  · rfl
  · split
    · rfl
    · next uid _ r found =>
      rw [← uid_of_found found] at found ⊢
      dsimp only
      generalize (if r.isUndecryptable = true then _ else _) = merged
      split
      · exact names_change (r := { r with
          flags := merged, modseq := m.modseq.next
          localChanges := r.localChanges.forgetBefore taken }) found rfl
      · split
        · rw [note_store]
          exact MessageStore.names_update_of_found
            (r := { r with localChanges := r.localChanges.forgetBefore taken }) found rfl
        · rfl

theorem receive_ok {content : MessageContent} {receipt : Receipt}
    (hok : m.receive content = (.ok receipt, m')) :
    (receipt.created = false ∧ m'.store.names = m.store.names) ∨
    (receipt.created = true ∧ receipt.uid.val = m.uids.bound ∧
      m'.uids.bound = m.uids.bound + 1 ∧
      m'.store.names = m.store.names ++ [(content.remoteId, receipt.uid)]) := by
  unfold receive at hok
  split at hok
  · split at hok
    · cases hok
    · next r found =>
      rw [← uid_of_found found] at found
      split at hok <;> cases hok
      · exact .inl ⟨rfl, names_change (r := r.refresh content m.modseq.next) found rfl⟩
      · exact .inl ⟨rfl, rfl⟩
  · split at hok
    · cases hok
    · next uid uids issued =>
      dsimp only at hok
      split at hok
      · cases hok
      · next store added =>
        cases hok
        obtain ⟨huid, hbound, _⟩ := UidSpace.issue?_eq_some issued
        rw [note_store, note_modseq] at added
        obtain ⟨_, _, hmessages, _⟩ := MessageStore.append?_eq_some added
        refine .inr ⟨rfl, huid, ?_, ?_⟩
        · rwa [markUnsaved, note_uids]
        · rw [markUnsaved, MessageStore.names, hmessages, List.map_append]
          rfl

theorem arrival?_eq_some {event : Prepared} {c : MessageContent × Uid} :
    m.arrival? event = some c ↔
      event = .create c.1 ∧ (m.receive c.1).1 = .ok ⟨c.2, true⟩ := by
  cases event with
  | create content =>
      constructor
      · intro h
        obtain ⟨⟨uid, created⟩, hreceipt, rfl⟩ := Option.map_eq_some_iff.1 h
        obtain ⟨hok, hcreated⟩ := Option.filter_eq_some_iff.1 hreceipt
        obtain rfl : created = true := hcreated
        refine ⟨rfl, ?_⟩
        cases hresult : (m.receive content).1 with
        | error e =>
            rw [hresult] at hok
            cases hok
        | ok receipt =>
            rw [hresult] at hok
            exact congrArg Except.ok (Option.some.inj hok)
      · rintro ⟨heq, hok⟩
        obtain rfl : content = c.1 := Prepared.create.inj heq
        show Option.map _ (Option.filter _ (m.receive c.1).1.toOption) = _
        rw [hok]
        rfl
  | update | remove => simp [arrival?, Prepared.content?]

theorem bound_le_applyEvent (updatesFlags : Bool) (tally : Tally) (event : Prepared)
    (m : Mailbox) : m.uids.bound ≤ (m.applyEvent updatesFlags tally event).2.uids.bound := by
  obtain ⟨edits, htends, hedits⟩ := tended_applyEvent updatesFlags tally event m
  rw [hedits]
  exact editAll_within (P := fun m' => m.uids.bound ≤ m'.uids.bound)
    (fun h hstep => Nat.le_trans h hstep.uids.2)
    (fun h hstep => Nat.le_trans h hstep.continues.bound)
    (fun e he => Edit.renews_of_tends (htends e he)) (Nat.le_refl _)

/-- A message that is created gets a UID that has not been issued, and from then on has been. -/
theorem bound_of_arrival? {event : Prepared} {c : MessageContent × Uid}
    (h : m.arrival? event = some c) (updatesFlags : Bool) (tally : Tally) :
    c.2.val = m.uids.bound ∧ c.2.val < (m.applyEvent updatesFlags tally event).2.uids.bound := by
  obtain ⟨rfl, hok⟩ := arrival?_eq_some.1 h
  have hreceive : m.receive c.1 = (.ok ⟨c.2, true⟩, (m.receive c.1).2) := Prod.ext hok rfl
  obtain ⟨_, hevent⟩ := applyEvent_create hreceive updatesFlags tally
  rcases receive_ok hreceive with ⟨hknown, _⟩ | ⟨_, huid, hbound, _⟩
  · cases hknown
  · rw [hevent, hbound]
    exact ⟨huid, huid ▸ Nat.lt_succ_self _⟩

theorem bound_le_arrivals (updatesFlags : Bool) (events : List Prepared) (m : Mailbox) :
    ∀ c ∈ arrivals updatesFlags events m, m.uids.bound ≤ c.2.val := by
  induction events generalizing m with
  | nil => exact fun c hc => absurd hc List.not_mem_nil
  | cons event rest ih =>
      intro c hc
      rcases List.mem_append.1 hc with hfirst | hlater
      · exact (bound_of_arrival? (Option.mem_toList.1 hfirst) updatesFlags {}).1.ge
      · exact Nat.le_trans (bound_le_applyEvent updatesFlags {} event m) (ih _ c hlater)

theorem ascending_arrivals (updatesFlags : Bool) (events : List Prepared) (m : Mailbox) :
    (arrivals updatesFlags events m).Pairwise fun c d => c.2.val < d.2.val := by
  induction events generalizing m with
  | nil => exact .nil
  | cons event rest ih =>
      refine List.pairwise_append.2 ⟨?_, ih _, fun c hc d hd => ?_⟩
      · cases m.arrival? event <;> simp
      · have hissued := (bound_of_arrival? (Option.mem_toList.1 hc) updatesFlags {}).2
        exact Nat.lt_of_lt_of_le hissued (bound_le_arrivals updatesFlags rest _ d hd)

theorem contents_arrivals (updatesFlags : Bool) (events : List Prepared) (m : Mailbox) :
    ((arrivals updatesFlags events m).map (·.1)).Sublist (events.filterMap Prepared.content?) := by
  induction events generalizing m with
  | nil => exact .slnil
  | cons event rest ih =>
      have hfirst : ((m.arrival? event).toList.map (·.1)).Sublist event.content?.toList := by
        cases harrival : m.arrival? event with
        | none => exact List.nil_sublist _
        | some c =>
            rw [(arrival?_eq_some.1 harrival).1]
            exact .refl _
      have hcontents : (event :: rest).filterMap Prepared.content? =
          event.content?.toList ++ rest.filterMap Prepared.content? := by
        cases event <;> rfl
      rw [arrivals, List.map_append, hcontents]
      exact hfirst.append (ih _)

theorem names_applyEvent {event : Prepared}
    (hok : m.applyEvent updatesFlags tally event = (.ok tally', m')) :
    m'.store.names = m.store.names ++
        (m.arrival? event).toList.map (fun c => (c.1.remoteId, c.2)) ∧
      tally'.created = tally.created + (m.arrival? event).toList.length := by
  cases event with
  | create content =>
      simp only [applyEvent] at hok
      split at hok
      · cases hok
      · next receipt m₁ hreceive =>
        rcases receive_ok hreceive with ⟨hknown, hnames⟩ | ⟨hnew, _, _, hnames⟩
        · have hnone : m.arrival? (.create content) = none := by
            simp [arrival?, Prepared.content?, hreceive, hknown, Except.toOption]
          rw [hknown, if_neg Bool.false_ne_true] at hok
          cases hok
          rw [hnone]
          exact ⟨hnames.trans (List.append_nil _).symm, rfl⟩
        · have hsome : m.arrival? (.create content) = some (content, receipt.uid) :=
            arrival?_eq_some.2 ⟨rfl, by rw [hreceive, ← hnew]⟩
          rw [hnew, if_pos rfl] at hok
          cases hok
          rw [hsome]
          exact ⟨hnames, rfl⟩
  | update id flags taken =>
      have hnames := names_mergeFlags id flags taken m
      have hsame : m'.store.names = m.store.names ∧ tally'.created = tally.created := by
        simp only [applyEvent] at hok
        split at hok
        · split at hok <;> next hmerged =>
            rw [hmerged] at hnames
            cases hok
            exact ⟨hnames, rfl⟩
        · cases hok
          exact ⟨rfl, rfl⟩
      exact ⟨hsame.1.trans (List.append_nil _).symm, hsame.2⟩
  | remove id =>
      have hnames := names_markRemoved id m
      have hsame : m'.store.names = m.store.names ∧ tally'.created = tally.created := by
        simp only [applyEvent] at hok
        split at hok <;> next hmarked =>
          rw [hmarked] at hnames
          cases hok
          exact ⟨hnames, rfl⟩
      exact ⟨hsame.1.trans (List.append_nil _).symm, hsame.2⟩

theorem names_applyEvents {events : List Prepared}
    (hok : m.applyEvents updatesFlags tally events = (.ok tally', m')) :
    m'.store.names = m.store.names ++
        (arrivals updatesFlags events m).map (fun c => (c.1.remoteId, c.2)) ∧
      tally'.created = tally.created + (arrivals updatesFlags events m).length := by
  induction events generalizing m tally with
  | nil =>
      cases hok
      exact ⟨(List.append_nil _).symm, rfl⟩
  | cons event rest ih =>
      unfold applyEvents at hok
      split at hok
      · cases hok
      · next tally₁ m₁ hevent =>
        obtain ⟨hnames, hcreated⟩ := names_applyEvent hevent
        obtain ⟨hnames', hcreated'⟩ := ih hok
        have hnext : (m.applyEvent updatesFlags {} event).2 = m₁ :=
          (applyEvent_snd {} tally event m).trans (congrArg Prod.snd hevent)
        rw [arrivals, hnext, List.map_append, List.length_append, ← List.append_assoc, ← hnames]
        exact ⟨hnames', by omega⟩

theorem ordered_arrivals {R : MessageContent → MessageContent → Prop}
    (hasymm : ∀ c d, R c d → ¬ R d c) {events : List Prepared}
    (h : (events.filterMap Prepared.content?).Pairwise R) (updatesFlags : Bool) (m : Mailbox) :
    ∀ c ∈ arrivals updatesFlags events m, ∀ d ∈ arrivals updatesFlags events m,
      R c.1 d.1 → c.2.val < d.2.val := by
  intro c hc d hd hcd
  have hcontents := List.pairwise_map.1 (h.sublist (contents_arrivals updatesFlags events m))
  exact lt_of_pairwise (R := fun c d => R c.1 d.1) (f := fun c => c.2.val)
    (hcontents.and (ascending_arrivals updatesFlags events m))
    (fun c d => hasymm c.1 d.1) hc hd hcd

/-- The messages of a mailbox were there before, or have been created since with UIDs that had not
been issued. Of those that were created, the ones that come before others by a relation between
their names have smaller UIDs. -/
structure Enters (m m' : Mailbox) (created : List (MessageContent × Uid))
    (R : RemoteId → RemoteId → Prop) : Prop where
  origin : ∀ r ∈ m'.store.messages,
    (∃ x ∈ m.store.messages, x.remoteId = r.remoteId ∧ x.uid = r.uid) ∨
      ∃ c ∈ created, c.1.remoteId = r.remoteId ∧ c.2 = r.uid
  fresh : ∀ c ∈ created, m.uids.bound ≤ c.2.val
  ordered : ∀ c ∈ created, ∀ d ∈ created, R c.1.remoteId d.1.remoteId → c.2.val < d.2.val

/-- What is left after events, and perhaps a flush, was there before or is created by them. -/
theorem enters_applyEvents {m₁ : Mailbox} {events : List Prepared} {R : RemoteId → RemoteId → Prop}
    (hok : m.applyEvents updatesFlags tally events = (.ok tally', m₁))
    (hleft : ∀ r ∈ m'.store.messages, r ∈ m₁.store.messages)
    (hordered : ∀ c ∈ arrivals updatesFlags events m, ∀ d ∈ arrivals updatesFlags events m,
      R c.1.remoteId d.1.remoteId → c.2.val < d.2.val) :
    m.Enters m' (arrivals updatesFlags events m) R := by
  refine ⟨fun r hr => ?_, bound_le_arrivals updatesFlags events m, hordered⟩
  have hname : (r.remoteId, r.uid) ∈ m₁.store.names :=
    List.mem_map.2 ⟨r, hleft r hr, rfl⟩
  rw [(names_applyEvents hok).1, List.mem_append] at hname
  rcases hname with hold | hnew
  · obtain ⟨x, hx, heq⟩ := List.mem_map.1 hold
    exact .inl ⟨x, hx, Prod.mk.inj heq⟩
  · obtain ⟨c, hc, heq⟩ := List.mem_map.1 hnew
    exact .inr ⟨c, hc, Prod.mk.inj heq⟩

theorem applyBatch_events {settings : SyncSettings} {sessions : Nat}
    {since? : Option (Option String)} {events : List Prepared} {cursor : Option String}
    (hok : m.applyBatch settings sessions since? events cursor = (.ok tally, m')) :
    ∃ tally₁ m₁, m.applyEvents settings.updatesFlags {} events = (.ok tally₁, m₁) ∧
      tally.created = tally₁.created ∧ tally.resynced = tally₁.resynced ∧
      ∀ r ∈ m'.store.messages, r ∈ m₁.store.messages := by
  unfold applyBatch at hok
  split at hok
  · cases hok
  · split at hok
    · cases hok
    · next tally₁ m₁ hevents =>
      cases hok
      refine ⟨tally₁, m₁, hevents, rfl, rfl, fun r hr => ?_⟩
      have hunflushed := mem_of_mem_flushUnlessSelected hr
      split at hunflushed
      · rwa [setCursor_store] at hunflushed
      · exact hunflushed

end Mailbox

namespace Correction

/-- The event that comes to the same as a correction, if the content that is to be created has been
prepared. -/
def event? (prepared : List MessageContent) (taken : Instant) : Correction → Option Prepared
  | create id => (prepared.find? (·.remoteId == id)).map .create
  | mergeFlags id flags => some (.update id flags taken)
  | remove id => some (.remove id)

end Correction

namespace Mailbox

variable {m m' : Mailbox} {updatesFlags : Bool} {tally tally' : Tally}
  {prepared : List MessageContent} {taken : Instant} {listing : Listing}

theorem applyEvent_update (updatesFlags : Bool) (tally : Tally) (id : RemoteId) (flags : Flags)
    (taken : Instant) (m : Mailbox) :
    (m.applyEvent updatesFlags tally (.update id flags taken)).2 =
      if updatesFlags then (m.mergeFlags id flags taken).2 else m := by
  simp only [applyEvent]
  split
  · split <;> next hmerged => rw [hmerged]
  · rfl

theorem applyEvent_remove (updatesFlags : Bool) (tally : Tally) (id : RemoteId) (m : Mailbox) :
    (m.applyEvent updatesFlags tally (.remove id)).2 = (m.markRemoved id).2 := by
  simp only [applyEvent]
  split <;> next hmarked => rw [hmarked]

theorem correct_event {correction : Correction}
    (hok : m.correct updatesFlags prepared taken tally correction = (.ok tally', m'))
    (tally₀ : Tally) : ∃ event tally₁, correction.event? prepared taken = some event ∧
      m.applyEvent updatesFlags tally₀ event = (.ok tally₁, m') := by
  -- events that bring no message do not fail
  have hquiet {event : Prepared} (hevent : event.content? = none)
      (heq : (m.applyEvent updatesFlags tally₀ event).2 = m') :
      ∃ tally₁, m.applyEvent updatesFlags tally₀ event = (.ok tally₁, m') := by
    obtain ⟨tally₁, m₁, hok, _⟩ := applyEvent_quiet hevent updatesFlags tally₀ m
    rw [hok] at heq
    exact ⟨tally₁, hok.trans (congrArg _ heq)⟩
  cases correction with
  | create id =>
      simp only [correct] at hok
      split at hok
      · cases hok
      · next content hcontent =>
        split at hok
        · cases hok
        · next hreceive =>
          cases hok
          obtain ⟨tally₁, hevent⟩ := applyEvent_create hreceive updatesFlags tally₀
          exact ⟨.create content, tally₁, by rw [Correction.event?, hcontent]; rfl, hevent⟩
  | mergeFlags id flags =>
      have hsame : (m.applyEvent updatesFlags tally₀ (.update id flags taken)).2 = m' := by
        rw [applyEvent_update]
        rcases correct_cases hok with ⟨_, heq, _⟩ | ⟨_, _, heq, hmerged⟩ | ⟨_, _, _, heq, _⟩ <;>
          cases heq
        exact hmerged.symm
      obtain ⟨tally₁, hevent⟩ := hquiet rfl hsame
      exact ⟨.update id flags taken, tally₁, rfl, hevent⟩
  | remove id =>
      have hsame : (m.applyEvent updatesFlags tally₀ (.remove id)).2 = m' := by
        rw [applyEvent_remove]
        rcases correct_cases hok with ⟨_, heq, hmarked⟩ | ⟨_, _, heq, _⟩ | ⟨_, _, _, heq, _⟩ <;>
          cases heq
        exact hmarked.symm
      obtain ⟨tally₁, hevent⟩ := hquiet rfl hsame
      exact ⟨.remove id, tally₁, rfl, hevent⟩

/-- Corrections come to the same as events. -/
theorem correctAll_events {corrections : List Correction}
    (hok : m.correctAll updatesFlags prepared taken tally corrections = (.ok tally', m'))
    (tally₀ : Tally) : ∃ tally₁, m.applyEvents updatesFlags tally₀
      (corrections.filterMap (·.event? prepared taken)) = (.ok tally₁, m') := by
  induction corrections generalizing m tally tally₀ with
  | nil =>
      cases hok
      exact ⟨tally₀, rfl⟩
  | cons correction rest ih =>
      unfold correctAll at hok
      split at hok
      · cases hok
      · next hcorrect =>
        obtain ⟨event, tally₁, hsame, hevent⟩ := correct_event hcorrect tally₀
        obtain ⟨tally₂, hrest⟩ := ih hok tally₁
        refine ⟨tally₂, ?_⟩
        rw [List.filterMap_cons, hsame, applyEvents, hevent]
        exact hrest

/-- The events that a listing comes down to in a mailbox whose identities are sound. -/
def lacking (prepared : List MessageContent) (listing : Listing) (m : Mailbox) : List Prepared :=
  (m.store.corrections listing.messages).filterMap (·.event? prepared listing.taken)

end Mailbox

theorem RemoteMessage.Precedes.asymm {a b : RemoteMessage} (h : a.Precedes b) :
    ¬ b.Precedes a :=
  not_both_ways String.lt_asymm h

/-- Of two messages that are listed, one comes before the other by its place in the remote order as
it is listed first, or else by its name. -/
def Listing.ListsBefore (listing : Listing) (id other : RemoteId) : Prop :=
  ∃ a b, listing.messages.find? (·.id == id) = some a ∧
    listing.messages.find? (·.id == other) = some b ∧ a.Precedes b

theorem Listing.ListsBefore.asymm {listing : Listing} {id other : RemoteId}
    (h : listing.ListsBefore id other) : ¬ listing.ListsBefore other id := by
  rintro ⟨b', a', hb', ha', hprecedes'⟩
  obtain ⟨a, b, ha, hb, hprecedes⟩ := h
  obtain rfl : a' = a := Option.some.inj (ha'.symm.trans ha)
  obtain rfl : b' = b := Option.some.inj (hb'.symm.trans hb)
  exact hprecedes.asymm hprecedes'

namespace Mailbox

variable {m m' : Mailbox} {tally : Tally} {prepared : List MessageContent} {listing : Listing}

theorem contents_lacking (prepared : List MessageContent) (listing : Listing) (m : Mailbox) :
    (m.lacking prepared listing).filterMap Prepared.content? =
      (m.store.unknown listing.messages).filterMap fun l =>
        prepared.find? (·.remoteId == l.id) := by
  let content? (correction : Correction) : Option MessageContent :=
    (correction.event? prepared listing.taken).bind Prepared.content?
  have hgone : ((m.store.gone listing.messages).map fun r =>
      Correction.remove r.remoteId).filterMap content? = [] :=
    List.filterMap_eq_nil_iff.2 (List.forall_mem_map.2 fun _ _ => rfl)
  have hchanged : ((m.store.changed listing.messages).map fun l =>
      Correction.mergeFlags l.id l.flags).filterMap content? = [] :=
    List.filterMap_eq_nil_iff.2 (List.forall_mem_map.2 fun _ _ => rfl)
  unfold lacking
  rw [List.filterMap_filterMap, MessageStore.corrections_eq, List.filterMap_append,
    List.filterMap_append, hgone, hchanged, List.filterMap_map]
  refine List.filterMap_congr fun l _ => ?_
  show ((prepared.find? (·.remoteId == l.id)).map Prepared.create).bind Prepared.content? = _
  cases prepared.find? (·.remoteId == l.id) <;> rfl

theorem first_of_prepared {l : RemoteMessage} {content : MessageContent}
    (hl : l ∈ m.store.unknown listing.messages)
    (hcontent : prepared.find? (·.remoteId == l.id) = some content) :
    listing.messages.find? (·.id == content.remoteId) = some l := by
  have hid : content.remoteId = l.id := by simpa using List.find?_some hcontent
  rw [hid]
  exact MessageStore.first_of_mem_unknown hl

theorem pairwise_lacking (prepared : List MessageContent) (listing : Listing) (m : Mailbox) :
    ((m.lacking prepared listing).filterMap Prepared.content?).Pairwise fun c d =>
      listing.ListsBefore c.remoteId d.remoteId := by
  rw [contents_lacking]
  refine List.pairwise_filterMap.2 (MessageStore.pairwise_unknown.imp_of_mem ?_)
  intro a b ha hb hprecedes c hc d hd
  exact ⟨a, b, first_of_prepared ha hc, first_of_prepared hb hd, hprecedes⟩

theorem reconcile_events {settings : SyncSettings} {sessions : Nat} {now : Instant}
    {invalidate : Bool} {cursor : Option String} {corrections : List Correction}
    (hok : m.reconcile settings sessions now invalidate prepared listing cursor =
      (.ok (tally, corrections), m')) :
    ∃ tally₁ m₁, (m.mend now invalidate).2.applyEvents settings.updatesFlags {}
        ((m.mend now invalidate).2.lacking prepared listing) = (.ok tally₁, m₁) ∧
      tally.resynced = true ∧ tally.invalidated = (m.mend now invalidate).1 ∧
      ∀ r ∈ m'.store.messages, r ∈ m₁.store.messages := by
  unfold reconcile at hok
  dsimp only at hok
  split at hok
  · cases hok
  · next hcorrect =>
    cases hok
    obtain ⟨tally₁, hevents⟩ := correctAll_events hcorrect {}
    obtain ⟨hresynced, hinvalidated⟩ := correctAll_marks hcorrect
    refine ⟨tally₁, _, hevents, hresynced, hinvalidated, fun r hr => ?_⟩
    have hunflushed := mem_of_mem_flushUnlessSelected hr
    rwa [setCursor_store] at hunflushed

end Mailbox

/-! ## Batches -/

namespace RemoteEvent

/-- The message that the event brings. -/
def message? : RemoteEvent → Option RemoteMessage
  | created message => some message
  | _ => none

/-- What the event says if it brings no message. -/
def standing? : RemoteEvent → Option RemoteEvent
  | created _ => none
  | event => some event

end RemoteEvent

namespace Prepared

/-- What the event says if it brings no message. -/
def standing? : Prepared → Option RemoteEvent
  | create _ => none
  | update id flags taken => some (.updated id flags taken)
  | remove id => some (.removed id)

theorem standing_refill (contents : List MessageContent) (events : List Prepared) :
    (refill contents events).map standing? = events.map standing? := by
  induction events generalizing contents with
  | nil => cases contents <;> rfl
  | cons event rest ih =>
      cases contents <;> cases event <;> simp [refill, standing?, ih]

end Prepared

/-- Of two messages that a batch brings, one comes before the other by its place in the remote
order, or else because the batch tells of it first. -/
def EventBatch.TellsBefore (batch : EventBatch) (id other : RemoteId) : Prop :=
  ∃ (i j : Nat) (a b : RemoteMessage),
    batch.events[i]? = some (.created a) ∧ batch.events[j]? = some (.created b) ∧
    a.id = id ∧ b.id = other ∧ (a.order < b.order ∨ a.order = b.order ∧ i < j)

namespace Site

variable {s s' : Site} {since? : Option (Option String)} {batch : EventBatch} {tally : Tally}

theorem standing_prepareEvents (events : List RemoteEvent) (s : Site) :
    (s.prepareEvents events).1.map Prepared.standing? = events.map RemoteEvent.standing? := by
  induction events generalizing s with
  | nil => rfl
  | cons event rest ih =>
      cases event <;> simp [prepareEvents, Prepared.standing?, RemoteEvent.standing?, ih]

theorem order_prepare (message : RemoteMessage) (s : Site) :
    (s.prepare message).1.order = message.order := by
  unfold prepare
  dsimp only
  split
  · rfl
  · rfl
  · split <;> rfl

theorem places_prepareEvents (events : List RemoteEvent) (s : Site) :
    ((s.prepareEvents events).1.filterMap Prepared.content?).map (fun c => (c.remoteId, c.order)) =
      (events.filterMap RemoteEvent.message?).map fun a => (a.id, a.order) := by
  induction events generalizing s with
  | nil => rfl
  | cons event rest ih =>
      cases event with
      | created message =>
          have hid := (content_prepare message s).1
          simp [prepareEvents, Prepared.content?, RemoteEvent.message?, ih, hid, order_prepare]
      | updated => exact ih s
      | removed => exact ih s

/-- All events but those that bring messages are applied where they stand. -/
theorem standing_arranged (batch : EventBatch) (s : Site) :
    (s.arranged batch).map Prepared.standing? = batch.events.map RemoteEvent.standing? := by
  unfold arranged
  dsimp only
  split
  · exact standing_prepareEvents batch.events s
  · exact (Prepared.standing_refill ..).trans (standing_prepareEvents batch.events s)

section Unordered

variable {contents : List MessageContent}
  (hplaces : contents.map (fun c => (c.remoteId, c.order)) =
    (batch.events.filterMap RemoteEvent.message?).map fun a => (a.id, a.order))
  (honce : (contents.map (·.remoteId)).Nodup)

include hplaces honce

theorem place_of_created {a : RemoteMessage} {c : MessageContent}
    (ha : .created a ∈ batch.events) (hc : c ∈ contents) (hid : a.id = c.remoteId) :
    a.order = c.order := by
  have hplace : (a.id, a.order) ∈ contents.map fun c => (c.remoteId, c.order) := by
    rw [hplaces]
    exact List.mem_map_of_mem (List.mem_filterMap.2 ⟨.created a, ha, rfl⟩)
  obtain ⟨x, hx, heq⟩ := List.mem_map.1 hplace
  obtain ⟨hxid, hxorder⟩ := Prod.mk.inj heq
  rw [← List.inj_on_of_nodup_map honce hx hc (hxid.trans hid)]
  exact hxorder.symm

theorem sublist_of_created {i j : Nat} {a b : RemoteMessage} {c d : MessageContent}
    (ha : batch.events[i]? = some (.created a)) (hb : batch.events[j]? = some (.created b))
    (hij : i < j) (hc : c ∈ contents) (hd : d ∈ contents) (hca : a.id = c.remoteId)
    (hdb : b.id = d.remoteId) : [c, d].Sublist contents := by
  obtain ⟨hi, ha⟩ := List.getElem?_eq_some_iff.1 ha
  obtain ⟨hj, hb⟩ := List.getElem?_eq_some_iff.1 hb
  have hevents : [.created a, .created b].Sublist batch.events := by
    rw [← ha, ← hb]
    exact List.pairwise_iff_getElem.1 (pairwise_sublist batch.events) i j hi hj hij
  have hpairs := (hevents.filterMap RemoteEvent.message?).map fun a => (a.id, a.order)
  rw [← hplaces] at hpairs
  obtain ⟨l, hl, heq⟩ := List.sublist_map_iff.1 hpairs
  have heq' : l.map (fun c => (c.remoteId, c.order)) = [(a.id, a.order), (b.id, b.order)] :=
    heq.symm
  obtain ⟨x, _, rfl, hx, hrest⟩ := List.map_eq_cons_iff.1 heq'
  obtain ⟨y, _, rfl, hy, hnone⟩ := List.map_eq_cons_iff.1 hrest
  obtain rfl := List.map_eq_nil_iff.1 hnone
  have hxc : x = c := List.inj_on_of_nodup_map honce (hl.subset (by simp)) hc
    ((Prod.mk.inj hx).1.trans hca)
  have hyd : y = d := List.inj_on_of_nodup_map honce (hl.subset (by simp)) hd
    ((Prod.mk.inj hy).1.trans hdb)
  rwa [hxc, hyd] at hl

theorem before_of_tellsBefore {c d : MessageContent} (hc : c ∈ contents) (hd : d ∈ contents)
    (h : batch.TellsBefore c.remoteId d.remoteId) : MessageContent.Before contents c d := by
  obtain ⟨i, j, a, b, ha, hb, hca, hdb, hlt⟩ := h
  rw [place_of_created hplaces honce (List.mem_of_getElem? ha) hc hca,
    place_of_created hplaces honce (List.mem_of_getElem? hb) hd hdb] at hlt
  refine hlt.imp_right fun ⟨heq, hij⟩ => ⟨heq, ?_⟩
  exact idxOf_lt_of_sublist honce.of_map
    (sublist_of_created hplaces honce ha hb hij hc hd hca hdb)

end Unordered

/-- The messages that the events of a batch create, and their UIDs. -/
def comings (batch : EventBatch) (s : Site) : List (MessageContent × Uid) :=
  (s.readied batch).mailbox.startJournal.arrivals s.settings.updatesFlags (s.arranged batch)

/-- What becomes of a batch that is committed: it is applied as one change, with its updates and
removals where they stand in the batch, and the messages that it creates get UIDs in the order in
which the batch tells of them. -/
structure Commits (s : Site) (since? : Option (Option String)) (batch : EventBatch) (tally : Tally)
    (s' : Site) : Prop where
  standing : (s.arranged batch).map Prepared.standing? = batch.events.map RemoteEvent.standing?
  applied : ∃ m', (s.readied batch).mailbox.startJournal.applyBatch s.settings
      (s.readied batch).sessions since? (s.arranged batch) batch.cursor = (.ok tally, m') ∧
    s'.shared.mailbox = (m'.editAll [.commit, .takeUnsaved]).keepChanges
  brought : ∀ c ∈ s.comings batch, ∃ a, .created a ∈ batch.events ∧ a.id = c.1.remoteId ∧
    a.order = c.1.order
  counted : tally.created = (s.comings batch).length
  entered : (s.readied batch).mailbox.startJournal.Enters s'.shared.mailbox (s.comings batch)
    batch.TellsBefore

/-- The messages of an unordered batch are taken in as they are sorted. -/
theorem contents_arranged (batch : EventBatch) (hunordered : s.settings.ordered = false) :
    (s.arranged batch).filterMap Prepared.content? =
      ((s.prepareEvents batch.events).1.filterMap Prepared.content?).mergeSort fun a b =>
        decide (a.order ≤ b.order) := by
  unfold arranged
  rw [hunordered]
  exact (Prepared.refill_spec (List.length_mergeSort _)).1

theorem applyBatch_arranged (hok : s.applyEvents since? batch = (.ok tally, s')) :
    ∃ m', (s.readied batch).mailbox.startJournal.applyBatch s.settings
        (s.readied batch).sessions since? (s.arranged batch) batch.cursor = (.ok tally, m') ∧
      s'.shared.mailbox = (m'.editAll [.commit, .takeUnsaved]).keepChanges := by
  obtain ⟨hresult, hshared, _⟩ := applyEvents_arranged since? batch s
  rw [hok] at hresult hshared
  cases hmutate : ((s.readied batch).mutate (·.applyBatch s.settings (s.readied batch).sessions
      since? (s.arranged batch) batch.cursor)).1 with
  | error e =>
      rw [hmutate] at hresult
      cases hresult
  | ok tally₁ =>
      rw [hmutate] at hresult
      cases hresult
      exact ⟨_, Prod.ext (SharedMailbox.conclude_ok hmutate).1 rfl,
        (congrArg SharedMailbox.mailbox hshared).trans
          (SharedMailbox.mailbox_mutate_of_kept hmutate)⟩

theorem commits_applyEvents (hunordered : s.settings.ordered = false)
    (honce : (batch.events.filterMap RemoteEvent.comer?).Nodup)
    (hok : s.applyEvents since? batch = (.ok tally, s')) :
    s.Commits since? batch tally s' ∧ tally.resynced = false := by
  obtain ⟨m', hbatch, hkept⟩ := applyBatch_arranged hok
  obtain ⟨tally₁, m₁, hevents, hcreated, hresynced, hleft⟩ := Mailbox.applyBatch_events hbatch
  have hplaces := places_prepareEvents batch.events s
  have honce' : (((s.prepareEvents batch.events).1.filterMap Prepared.content?).map
      (·.remoteId)).Nodup := by
    rw [comers_prepareEvents]
    exact honce
  have hsorted := contents_arranged batch hunordered
  have hcomes (c : MessageContent × Uid) (hc : c ∈ s.comings batch) :
      c.1 ∈ (s.prepareEvents batch.events).1.filterMap Prepared.content? := by
    have hmem := (Mailbox.contents_arrivals ..).subset (List.mem_map_of_mem hc)
    rwa [hsorted, List.mem_mergeSort] at hmem
  refine ⟨⟨standing_arranged batch s, ⟨_, hbatch, hkept⟩, fun c hc => ?_, ?_, ?_⟩, ?_⟩
  · have hplace := List.mem_map_of_mem (f := fun c : MessageContent => (c.remoteId, c.order))
      (hcomes c hc)
    rw [hplaces] at hplace
    obtain ⟨a, ha, heq⟩ := List.mem_map.1 hplace
    obtain ⟨event, hevent, hmessage⟩ := List.mem_filterMap.1 ha
    obtain rfl : event = .created a := by
      cases event <;> cases hmessage
      rfl
    exact ⟨a, hevent, Prod.mk.inj heq⟩
  · rw [hcreated, (Mailbox.names_applyEvents hevents).2]
    exact Nat.zero_add _
  · refine Mailbox.enters_applyEvents hevents (fun r hr => hleft r ?_) fun c hc d hd htells => ?_
    · rw [hkept, Mailbox.kept_eq] at hr
      exact hr
    · have hbefore := before_of_tellsBefore hplaces honce' (hcomes c hc) (hcomes d hd) htells
      have hpairwise := MessageContent.pairwise_sorted honce'.of_map
      rw [← hsorted] at hpairwise
      exact Mailbox.ordered_arrivals (fun _ _ => MessageContent.Before.asymm) hpairwise _ _ c hc
        d hd hbefore
  · rw [hresynced]
    exact (Mailbox.applyEvents_marks hevents).1

/-! ## Listings -/

/-- The mailbox that a listing is compared with, as others have left it and with its identities
mended, and whether a new epoch had to begin. -/
def mended (invalidate : Bool) (s : Site) : Bool × Mailbox :=
  s.gathered.2.shared.mailbox.startJournal.mend s.gathered.2.clock invalidate

/-- The messages that a listing creates, and their UIDs. -/
def joiners (invalidate : Bool) (s : Site) : List (MessageContent × Uid) :=
  (s.mended invalidate).2.arrivals s.gathered.2.settings.updatesFlags
    ((s.mended invalidate).2.lacking s.gathered.1 s.remote.listing.answer)

/-- What becomes of a listing that is committed, where a new epoch may have begun: the messages
that it creates get UIDs in the order of the listing. -/
structure Relists (s : Site) (invalidate : Bool) (tally : Tally) (s' : Site) : Prop where
  told : tally.resynced = true ∧ tally.invalidated = (s.mended invalidate).1
  kept : ∀ x ∈ (s.mended invalidate).2.store.messages,
    tally.invalidated = false ∧ x ∈ s.gathered.2.shared.mailbox.store.messages
  brought : ∀ c ∈ s.joiners invalidate, ∃ first,
    s.remote.listing.answer.messages.find? (·.id == c.1.remoteId) = some first
  entered : (s.mended invalidate).2.Enters s'.shared.mailbox (s.joiners invalidate)
    s.remote.listing.answer.ListsBefore

theorem relists_resyncFrom {fallback : Option String}
    (hok : s.resyncFrom fallback = (.ok tally, s')) :
    ∃ invalidate, s.Relists invalidate tally s' := by
  obtain ⟨invalidate, corrections, m', hreconcile, hkept⟩ := reconcile_gathered hok
  obtain ⟨tally₁, m₁, hevents, hresynced, hinvalidated, hleft⟩ :=
    Mailbox.reconcile_events hreconcile
  have hlists := Mailbox.pairwise_lacking s.gathered.1 s.remote.listing.answer
    (s.mended invalidate).2
  refine ⟨invalidate, ⟨hresynced, hinvalidated⟩, fun x hx => ?_, fun c hc => ?_, ?_⟩
  · rcases Mailbox.mend_spec s.gathered.2.clock invalidate
        s.gathered.2.shared.mailbox.startJournal with ⟨_, hmend⟩ | ⟨hsame, _, hstore, _⟩
    · rw [mended, hmend, (Mailbox.invalidate_eq ..).2.1] at hx
      exact absurd hx List.not_mem_nil
    · rw [mended, hstore] at hx
      exact ⟨hinvalidated.trans hsame, hx⟩
  · have hcontent := (Mailbox.contents_arrivals ..).subset (List.mem_map_of_mem hc)
    rw [Mailbox.contents_lacking] at hcontent
    obtain ⟨first, hfirst, hfound⟩ := List.mem_filterMap.1 hcontent
    exact ⟨first, Mailbox.first_of_prepared hfirst hfound⟩
  · refine Mailbox.enters_applyEvents hevents (fun r hr => hleft r ?_) ?_
    · rw [hkept, Mailbox.kept_eq] at hr
      exact hr
    · exact Mailbox.ordered_arrivals (R := fun c d => s.remote.listing.answer.ListsBefore
        c.remoteId d.remoteId) (fun _ _ => Listing.ListsBefore.asymm) hlists _ _

theorem apply_ok (hok : s.apply since? batch = (.ok tally, s')) :
    s.applyEvents since? batch = (.ok tally, s') ∨
      ∃ s₁ : Site, s₁.resyncFrom batch.cursor = (.ok tally, s') := by
  unfold apply at hok
  split at hok
  · exact .inr ⟨s, hok⟩
  · split at hok
    · split at hok
      · cases hok
      · exact .inr ⟨_, hok⟩
    · exact .inr ⟨_, hok⟩
    · exact .inl hok

/-- Of two messages that a batch creates, from an account that does not tell of them in order, the
one with the smaller place in the remote order has the smaller UID, or else the one that the batch
tells of first; all its updates and removals are applied where they stand. Of two messages that a
listing creates, the one with the smaller place in the remote order has the smaller UID, or else the
one with the smaller name, as they are listed first. A batch that is not committed as such ends in a
listing. -/
theorem created_in_order (s : Site) :
    (∀ since? batch tally s', s.settings.ordered = false →
      (batch.events.filterMap RemoteEvent.comer?).Nodup →
      s.apply since? batch = (.ok tally, s') →
        (tally.resynced = false → s.Commits since? batch tally s') ∧
        (tally.resynced = true → ∃ s₁ : Site, s₁.resyncFrom batch.cursor = (.ok tally, s'))) ∧
    ∀ fallback tally s', s.resyncFrom fallback = (.ok tally, s') →
      ∃ invalidate, s.Relists invalidate tally s' := by
  refine ⟨fun since? batch tally s' hunordered honce hok => ?_, fun _ _ _ => relists_resyncFrom⟩
  rcases apply_ok hok with hevents | ⟨s₁, hlisting⟩
  · obtain ⟨hcommits, hcommitted⟩ := commits_applyEvents hunordered honce hevents
    refine ⟨fun _ => hcommits, fun hresynced => ?_⟩
    rw [hcommitted] at hresynced
    cases hresynced
  · obtain ⟨_, hrelists⟩ := relists_resyncFrom hlisting
    refine ⟨fun hcommitted => ?_, fun _ => ⟨s₁, hlisting⟩⟩
    rw [hrelists.told.1] at hcommitted
    cases hcommitted

/-- Messages come out of their order, one of them known, with other events between them. -/
def shuffled : EventBatch where
  events := [.created { id := "e", order := 2 }, .removed "a", .created { id := "d", order := 1 },
    .updated "d" (OrderedSet.insert .seen ∅) 0, .created { id := "a", order := 0 },
    .created { id := "c", order := 1 }]

/-- A site whose account does not tell of messages in order, and lists them so as well. -/
def unsorted : Site :=
  { withKnown.ordering false with
    remote.listing.answer :=
      { messages := [{ id := "e", order := 2 }, { id := "d", order := 1 }, { id := "a" },
          { id := "c", order := 1 }, { id := "e", order := 0 }]
        taken := 0 } }

/-- What a batch tells of first gets the smaller UID, and what is listed goes by name. -/
theorem created_in_order_unsorted : unsorted.shared.mailbox.checkIntegrity = .ok () ∧
    unsorted.settings.ordered = false ∧
    (shuffled.events.filterMap RemoteEvent.comer?).Nodup ∧
    (unsorted.apply none shuffled).1 =
      .ok { created := 3, updated := 2, removed := 1, expunged := [.least] } ∧
    (unsorted.comings shuffled).map (fun c => (c.1.remoteId, c.2.val)) =
      [("d", 2), ("c", 3), ("e", 4)] ∧
    (∃ tally, unsorted.Commits none shuffled tally (unsorted.apply none shuffled).2) ∧
    (unsorted.resyncFrom none).1 = .ok { created := 3, resynced := true } ∧
    (unsorted.joiners false).map (fun c => (c.1.remoteId, c.2.val)) =
      [("c", 2), ("d", 3), ("e", 4)] ∧
    ∃ invalidate tally, unsorted.Relists invalidate tally (unsorted.resyncFrom none).2 := by
  have hbatch : (unsorted.apply none shuffled).1 =
      .ok { created := 3, updated := 2, removed := 1, expunged := [.least] } := by cbv
  have hlisting : (unsorted.resyncFrom none).1 = .ok { created := 3, resynced := true } := by
    unfold resyncFrom
    simp only [Mailbox.reconcile, MessageStore.corrections, ← Option.not_isSome]
    cbv
  have hjoiners : (unsorted.joiners false).map (fun c => (c.1.remoteId, c.2.val)) =
      [("c", 2), ("d", 3), ("e", 4)] := by
    unfold joiners mended Mailbox.lacking gathered wanted
    simp only [MessageStore.corrections, ← Option.not_isSome]
    cbv
  have honce : (shuffled.events.filterMap RemoteEvent.comer?).Nodup := by decide
  have hcommits := ((created_in_order unsorted).1 none shuffled _ _ rfl honce
    (Prod.ext hbatch rfl)).1 rfl
  obtain ⟨invalidate, hrelists⟩ := (created_in_order unsorted).2 none _ _ (Prod.ext hlisting rfl)
  exact ⟨rfl, rfl, honce, hbatch, by cbv, ⟨_, hcommits⟩, hlisting, hjoiners, invalidate, _,
    hrelists⟩

end Site

end MailBridge

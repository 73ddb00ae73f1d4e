import Mathlib.Data.List.Permutation
import MailBridge.Proofs.Parallel

/-! # Sorting the messages that come

Sorting puts the messages that a batch brings into other places among its events, while updates and
removals stay where they are. What this makes of a message is the same as long as its own events
keep their order. A message that has been moved behind its own removal is not removed, and one that
has been moved in front of it is: that is what the order of its events is then taken to be.
-/

namespace MailBridge

namespace Prepared

variable {contents : List MessageContent} {events : List Prepared}

/-- Other messages come in the places of those that came, and nothing else changes. -/
theorem refill_spec (h : contents.length = (events.filterMap content?).length) :
    (refill contents events).filterMap content? = contents ∧
      (refill contents events).filter (·.content?.isNone) =
        events.filter (·.content?.isNone) := by
  induction events generalizing contents with
  | nil =>
      have hnil : contents = [] := List.length_eq_zero_iff.1 h
      subst hnil
      exact ⟨rfl, rfl⟩
  | cons event rest ih =>
      cases event with
      | create content =>
          cases contents with
          | nil => cases h
          | cons first others =>
              obtain ⟨hcontents, hothers⟩ := ih (Nat.succ.inj h)
              exact ⟨congrArg (first :: ·) hcontents, hothers⟩
      | update id flags taken =>
          obtain ⟨hcontents, hothers⟩ := ih h
          cases contents <;> exact ⟨hcontents, congrArg (update id flags taken :: ·) hothers⟩
      | remove id =>
          obtain ⟨hcontents, hothers⟩ := ih h
          cases contents <;> exact ⟨hcontents, congrArg (remove id :: ·) hothers⟩

theorem perm_sortCreations (events : List Prepared) :
    ((sortCreations events).filterMap content?).Perm (events.filterMap content?) := by
  unfold sortCreations
  dsimp only
  rw [(refill_spec (List.length_mergeSort _)).1]
  exact List.mergeSort_perm ..

theorem others_sortCreations (events : List Prepared) :
    (sortCreations events).filter (·.content?.isNone) = events.filter (·.content?.isNone) :=
  (refill_spec (List.length_mergeSort _)).2

/-- The events that are about a remote name. -/
def own (updatesFlags : Bool) (id : RemoteId) (events : List Prepared) : List Prepared :=
  events.filter (·.concerns updatesFlags id)

def isRemoval : Prepared → Bool
  | remove _ => true
  | _ => false

variable {updatesFlags : Bool} {id : RemoteId}

theorem contents_own (events : List Prepared) : (own updatesFlags id events).filterMap content? =
    (events.filterMap content?).filter fun content => content.remoteId == id := by
  unfold own
  rw [List.filterMap_filter, List.filter_filterMap]
  refine List.filterMap_congr fun event _ => ?_
  cases event with
  | create content => rfl
  | update => exact ite_self none
  | remove => exact ite_self none

theorem others_own (updatesFlags : Bool) (id : RemoteId) (events : List Prepared) :
    (own updatesFlags id (sortCreations events)).filter (·.content?.isNone) =
      (own updatesFlags id events).filter (·.content?.isNone) := by
  unfold own
  rw [List.filter_comm, others_sortCreations, List.filter_comm]

theorem filter_others {events : List Prepared} (h : ∀ e ∈ events, e.content? = none) :
    events.filter (·.content?.isNone) = events :=
  List.filter_eq_self.2 fun e he => by rw [h e he]; rfl

theorem split_of_contents {content : MessageContent}
    (h : events.filterMap content? = [content]) : ∃ front back,
      events = front ++ create content :: back ∧ ∀ e ∈ front ++ back, e.content? = none := by
  obtain ⟨front, event, back, heq, hfront, hcontent, hback⟩ := List.filterMap_eq_cons_iff.1 h
  obtain rfl : event = create content := by
    cases event <;> cases hcontent
    rfl
  refine ⟨front, back, heq, fun e he => ?_⟩
  rcases List.mem_append.1 he with he | he
  · exact hfront e he
  · exact List.filterMap_eq_nil_iff.1 hback e he

theorem others_of_split {front back : List Prepared} {content : MessageContent}
    (h : ∀ e ∈ front ++ back, e.content? = none) :
    (front ++ create content :: back).filter (·.content?.isNone) = front ++ back := by
  rw [List.filter_append, List.filter_cons_of_neg (by simp [content?]), ← List.filter_append,
    filter_others h]

/-- Among the events of one message, sorting moves at most the one that brings it. -/
theorem own_sortCreations (updatesFlags : Bool) (id : RemoteId)
    (honce : ((events.filterMap content?).map (·.remoteId)).Nodup) :
    own updatesFlags id (sortCreations events) = own updatesFlags id events ∨
    ∃ front back front' back' content, (∀ e ∈ front ++ back, e.content? = none) ∧
      front ++ back = front' ++ back' ∧
      own updatesFlags id events = front ++ create content :: back ∧
      own updatesFlags id (sortCreations events) = front' ++ create content :: back' := by
  have hothers := others_own updatesFlags id events
  have hperm : ((own updatesFlags id (sortCreations events)).filterMap content?).Perm
      ((own updatesFlags id events).filterMap content?) := by
    rw [contents_own, contents_own]
    exact (perm_sortCreations events).filter _
  have hone : ((own updatesFlags id events).filterMap content?).length ≤ 1 := by
    have hcount : ((events.filterMap content?).map (·.remoteId)).count id =
        ((own updatesFlags id events).filterMap content?).length := by
      rw [contents_own, ← List.countP_eq_length_filter, List.count, List.countP_map]
      rfl
    rw [← hcount]
    exact List.nodup_iff_count_le_one.1 honce id
  match hcontents : (own updatesFlags id events).filterMap content?, hone with
  | [], _ =>
      left
      have hnone := List.filterMap_eq_nil_iff.1 hcontents
      rw [hcontents, List.perm_nil] at hperm
      have hnone' := List.filterMap_eq_nil_iff.1 hperm
      rwa [filter_others hnone, filter_others hnone'] at hothers
  | [content], _ =>
      right
      rw [hcontents, List.perm_singleton] at hperm
      obtain ⟨front, back, heq, hnone⟩ := split_of_contents hcontents
      obtain ⟨front', back', heq', hnone'⟩ := split_of_contents hperm
      refine ⟨front, back, front', back', content, hnone, ?_, heq, heq'⟩
      rwa [heq, heq', others_of_split hnone, others_of_split hnone', eq_comm] at hothers

end Prepared

/-! ## Where the order makes no difference -/

namespace Message

variable (r : Message) (content : MessageContent)

theorem refresh_withdrawn : (r.withdrawn .zero).refresh content .zero =
    (r.refresh content .zero).withdrawn .zero := by
  unfold withdrawn refresh
  dsimp only
  rw [ite_self]

/-- Flags are told in the same way if the message can be decrypted now exactly if it could
before. -/
theorem refresh_merged (hsame : content.decodeError.isSome = r.isUndecryptable) (remote : Flags)
    (taken : Instant) : (r.merged remote taken .zero).refresh content .zero =
      (r.refresh content .zero).merged remote taken .zero := by
  have hreadable : (r.refresh content .zero).isUndecryptable = r.isUndecryptable := hsame
  unfold merged
  rw [hreadable]
  unfold refresh
  dsimp only
  rw [ite_self]

end Message

namespace Holding

variable {content : MessageContent} {held : Holding}

theorem refreshed_removed : held.removed.refreshed content = (held.refreshed content).removed := by
  have hnews : held.removed.message.isRefreshedBy content =
      held.message.isRefreshedBy content := rfl
  unfold refreshed
  rw [hnews]
  split
  · simp only [removed, Message.refresh_withdrawn, Bool.true_or]
  · rfl

theorem refreshed_merged (hsame : content.decodeError.isSome = held.message.isUndecryptable)
    (remote : Flags) (taken : Instant) : (held.merged remote taken).refreshed content =
      (held.refreshed content).merged remote taken := by
  have hnews : (held.merged remote taken).message.isRefreshedBy content =
      held.message.isRefreshedBy content := rfl
  unfold refreshed
  rw [hnews]
  split
  · simp only [merged, Message.refresh_merged _ _ hsame, Bool.true_or]
  · rfl

end Holding

namespace Prepared

variable {content : MessageContent} {held : Holding}

theorem turn_some {event : Prepared} (h : event.content? = none) (held : Holding) :
    ∃ held', turn (some held) event = some held' ∧
      held'.message.isUndecryptable = held.message.isUndecryptable := by
  cases event with
  | create content => cases h
  | update id flags taken => exact ⟨_, rfl, rfl⟩
  | remove id => exact ⟨_, rfl, rfl⟩

theorem foldl_turn_some {events : List Prepared} (h : ∀ e ∈ events, e.content? = none)
    (held : Holding) :
    ∃ held', events.foldl turn (some held) = some held' ∧
      held'.message.isUndecryptable = held.message.isUndecryptable := by
  induction events generalizing held with
  | nil => exact ⟨held, rfl, rfl⟩
  | cons event rest ih =>
      obtain ⟨hevent, hrest⟩ := List.forall_mem_cons.1 h
      obtain ⟨held₁, hone, hsame⟩ := turn_some hevent held
      obtain ⟨held', hall, hsame'⟩ := ih hrest held₁
      rw [List.foldl_cons, hone]
      exact ⟨held', hall, hsame'.trans hsame⟩

/-- The content of a message that is there may come in before other events of it or after them, if
these are removals, or if it can be decrypted exactly if it could before. -/
theorem foldl_turn_create {events : List Prepared} (held : Holding)
    (h : ∀ e ∈ events, e.content? = none) (hcommutes : (∀ e ∈ events, e.isRemoval = true) ∨
      content.decodeError.isSome = held.message.isUndecryptable) :
    (create content :: events).foldl turn (some held) =
      (events ++ [create content]).foldl turn (some held) := by
  induction events generalizing held with
  | nil => rfl
  | cons event rest ih =>
      obtain ⟨hevent, hrest⟩ := List.forall_mem_cons.1 h
      obtain ⟨held₁, hone, hsame⟩ := turn_some hevent held
      have hswap : turn (turn (some held) (create content)) event =
          turn (turn (some held) event) (create content) := by
        cases event with
        | create _ => cases hevent
        | remove id => exact congrArg some Holding.refreshed_removed.symm
        | update id flags taken =>
            have hreadable := hcommutes.resolve_left fun hall => by
              cases hall _ List.mem_cons_self
            exact congrArg some (Holding.refreshed_merged hreadable flags taken).symm
      have hrest' := ih held₁ hrest (hcommutes.imp
        (fun hall e he => hall e (List.mem_cons_of_mem _ he)) (·.trans hsame.symm))
      rw [List.foldl_cons, List.foldl_cons, hswap, hone, List.cons_append, List.foldl_cons, hone]
      exact hrest'

theorem foldl_turn_moved {front between back : List Prepared}
    (h : ∀ e ∈ front ++ between, e.content? = none)
    (hcommutes : (∀ e ∈ between, e.isRemoval = true) ∨
      content.decodeError.isSome = held.message.isUndecryptable) :
    (front ++ create content :: (between ++ back)).foldl turn (some held) =
      (front ++ between ++ create content :: back).foldl turn (some held) := by
  obtain ⟨hfront, hbetween⟩ := List.forall_mem_append.1 h
  obtain ⟨held', hheld, hsame⟩ := foldl_turn_some hfront held
  have hmoved := foldl_turn_create held' hbetween (hcommutes.imp_right (·.trans hsame.symm))
  have hfirst : front ++ create content :: (between ++ back) =
      front ++ (create content :: between) ++ back := by simp
  have hlast : front ++ between ++ create content :: back =
      front ++ (between ++ [create content]) ++ back := by simp
  rw [hfirst, hlast, List.foldl_append, List.foldl_append, List.foldl_append, List.foldl_append,
    hheld, hmoved]

/-- If the order is kept among the events other than removals, only removals lie between. -/
theorem removals_between {front between back back' : List Prepared}
    (h : ∀ e ∈ front ++ back, e.content? = none)
    (hkept : (front ++ create content :: back).filter (!·.isRemoval) =
      (front ++ between ++ create content :: back').filter (!·.isRemoval)) :
    ∀ e ∈ between, e.isRemoval = true := by
  have hapart (l : List Prepared) (hl : ∀ e ∈ l, e.content? = none) :
      create content ∉ l.filter (!·.isRemoval) := by
    intro hmem
    cases hl _ (List.mem_filter.1 hmem).1
  obtain ⟨hfront, hback⟩ := List.forall_mem_append.1 h
  have hcreate (l : List Prepared) : (create content :: l).filter (!·.isRemoval) =
      create content :: l.filter (!·.isRemoval) := rfl
  rw [List.filter_append, List.filter_append, hcreate, hcreate,
    List.append_cons_inj_of_notMem (hapart front hfront) (hapart back hback),
    List.filter_append, List.self_eq_append_right, List.filter_eq_nil_iff] at hkept
  intro e he
  simpa using hkept.1 e he

end Prepared

namespace Mailbox

open Prepared

variable {m : Mailbox} {updatesFlags : Bool} {events : List Prepared} {id : RemoteId}

/-- Sorting the messages that come makes no difference to a message: its own events keep their
order; or the message is known, and either the order is kept among its own events other than
removals, or it can be decrypted as it comes in exactly if it could before. -/
def Withstands (m : Mailbox) (updatesFlags : Bool) (events : List Prepared) (id : RemoteId) :
    Prop :=
  own updatesFlags id (sortCreations events) = own updatesFlags id events ∨
    ∃ r, m.store.getByRemoteId? id = some r ∧
      ((own updatesFlags id (sortCreations events)).filter (!·.isRemoval) =
          (own updatesFlags id events).filter (!·.isRemoval) ∨
        ∀ content, Prepared.create content ∈ events → content.remoteId = id →
          content.decodeError.isSome = r.isUndecryptable)

theorem foldl_turn_sorted (honce : ((events.filterMap content?).map (·.remoteId)).Nodup)
    (h : m.Withstands updatesFlags events id) :
    (own updatesFlags id (sortCreations events)).foldl turn (m.holding? id) =
      (own updatesFlags id events).foldl turn (m.holding? id) := by
  rcases h with hkept | ⟨r, hr, hcases⟩
  · rw [hkept]
  rcases own_sortCreations updatesFlags id honce with
    hkept | ⟨front, back, front', back', content, hnone, hsplit, hown, hown'⟩
  · rw [hkept]
  have hmessage := @message_holding? m id
  rw [hr] at hmessage
  obtain ⟨held, hheld, hunnumbered⟩ := Option.map_eq_some_iff.1 hmessage
  have hreadable : (∀ content, Prepared.create content ∈ events → content.remoteId = id →
      content.decodeError.isSome = r.isUndecryptable) →
        content.decodeError.isSome = held.message.isUndecryptable := by
    intro hall
    have hmem : Prepared.create content ∈ own updatesFlags id events := by
      rw [hown]
      exact List.mem_append_right _ List.mem_cons_self
    obtain ⟨hmem, hconcerns⟩ := List.mem_filter.1 hmem
    rw [hunnumbered]
    exact hall content hmem (by simpa [concerns] using hconcerns)
  rw [hown, hown'] at hcases ⊢
  rw [hheld]
  rcases List.append_eq_append_iff.1 hsplit with ⟨between, rfl, rfl⟩ | ⟨between, rfl, rfl⟩
  · -- the message has been moved back
    rw [← List.append_assoc] at hnone
    have hnone' : ∀ e ∈ front ++ (between ++ back'), e.content? = none := by
      rwa [← List.append_assoc]
    refine (foldl_turn_moved (fun e he => hnone e (List.mem_append_left _ he)) ?_).symm
    exact hcases.imp (fun hkept => removals_between hnone' hkept.symm) hreadable
  · -- the message has been moved to the front
    have hnone' : ∀ e ∈ front' ++ (between ++ back), e.content? = none := by
      rwa [← List.append_assoc]
    refine foldl_turn_moved (fun e he => hnone e (List.mem_append_left _ he)) ?_
    exact hcases.imp (removals_between hnone') hreadable

/-- Sorting the messages that come makes no difference to a mailbox but for the numbers of its
messages if it makes none to any message. -/
theorem applyEvents_sorted (ho : m.Orderly) (h : m.Coherent)
    (honce : ((events.filterMap content?).map (·.remoteId)).Nodup)
    (hall : ∀ id, m.Withstands updatesFlags events id) :
    (∃ tally₁ tally₂ m₁ m₂,
        m.applyEvents updatesFlags {} events = (.ok tally₁, m₁) ∧
        m.applyEvents updatesFlags {} (sortCreations events) = (.ok tally₂, m₂) ∧
        m₁.Parallel m₂) ∨
      ∃ e, (m.applyEvents updatesFlags {} events).1 = .error e ∧
        (m.applyEvents updatesFlags {} (sortCreations events)).1 = .error e := by
  have hperm := perm_sortCreations events
  have honce' : (((sortCreations events).filterMap content?).map (·.remoteId)).Nodup :=
    (hperm.map _).nodup_iff.2 honce
  have hcount : m.newcomers (sortCreations events) = m.newcomers events := hperm.countP_eq _
  rcases applyEvents_room ho h honce updatesFlags {} with
    ⟨tally₁, m₁, hok, hbound⟩ | ⟨herror, hfull⟩ <;>
  rcases applyEvents_room ho h honce' updatesFlags {} with
    ⟨tally₂, m₂, hok', hbound'⟩ | ⟨herror', hfull'⟩
  · refine .inl ⟨tally₁, tally₂, m₁, m₂, hok, hok', ?_⟩
    refine parallel_applyEvents h hok hok' (by rw [hbound, hbound', hcount]) fun id => ?_
    rw [holding?_applyEvents h hok, holding?_applyEvents h hok']
    exact (foldl_turn_sorted honce (hall id)).symm
  · have hle := m₁.uids.bound_le
    omega
  · have hle := m₂.uids.bound_le
    omega
  · exact .inr ⟨_, herror, herror'⟩

theorem applyBatch_not_desync {settings : SyncSettings} {sessions : Nat}
    {since? : Option (Option String)} {cursor : Option String} {e : MailboxError}
    (ho : m.Orderly) (hi : m.Indexed)
    (herror : (m.applyBatch settings sessions since? events cursor).1 = .error e)
    (name : String) (what : Desync) : e ≠ .desync name what := by
  unfold applyBatch at herror
  split at herror
  · cases herror
    nofun
  · split at herror
    · next hevents =>
      cases herror
      rw [applyEvents_error ho hi (congrArg Prod.fst hevents)]
      nofun
    · cases herror

end Mailbox

theorem SharedMailbox.applyBatch_not_desync {s : SharedMailbox} {settings : SyncSettings}
    {since? : Option (Option String)} {cursor : Option String} {events : List Prepared}
    {e : MailboxError} (ho : s.mailbox.Orderly) (hi : s.mailbox.Indexed)
    (herror : (s.applyBatch settings since? cursor events).1 = .error e)
    (name : String) (what : Desync) : e ≠ .desync name what := by
  cases hresult :
      (s.mailbox.startJournal.applyBatch settings s.sessions since? events cursor).1 with
  | error e' =>
      rw [applyBatch_eq (Prod.ext hresult rfl)] at herror
      cases herror
      exact Mailbox.applyBatch_not_desync (m := s.mailbox.startJournal) (ho.of_eq rfl rfl) hi
        hresult name what
  | ok tally =>
      rw [applyBatch_eq (Prod.ext hresult rfl), conclude_fst] at herror
      split at herror
      · cases herror
        nofun
      · cases herror

/-! ## Batches whose messages come in no order -/

/-- The name of the message that the event brings. -/
def RemoteEvent.comer? : RemoteEvent → Option RemoteId
  | created message => some message.id
  | _ => none

namespace Site

variable {s : Site} {since? : Option (Option String)} {batch : EventBatch}

theorem comers_prepareEvents (events : List RemoteEvent) (s : Site) :
    ((s.prepareEvents events).1.filterMap Prepared.content?).map (·.remoteId) =
      events.filterMap RemoteEvent.comer? := by
  induction events generalizing s with
  | nil => rfl
  | cons event rest ih =>
      cases event with
      | created message =>
          have hid := (interim_prepare message s).2
          simp [prepareEvents, Prepared.content?, RemoteEvent.comer?, ih, hid]
      | updated => exact ih s
      | removed => exact ih s

/-- The site with a remote account that tells of new messages in their order, or does not. -/
def ordering (ordered : Bool) (s : Site) : Site :=
  { s with settings := { s.settings with ordered } }

theorem interfere_ordering (ordered : Bool) (ops : List Operation) (s : Site) :
    (s.ordering ordered).interfere ops = (s.interfere ops).ordering ordered := by
  unfold interfere
  split <;> rfl

theorem decrypt_ordering (ordered : Bool) (d : Decryption) (id : RemoteId) (secret : String)
    (s : Site) : (s.ordering ordered).decrypt d id secret =
      ((s.decrypt d id secret).1, (s.decrypt d id secret).2.ordering ordered) :=
  Prod.ext rfl (interfere_ordering ordered ((s.remote.whileDecrypting.get? id).getD [])
    { s.record (.decrypt id) with
      remote := { s.remote with whileDecrypting := s.remote.whileDecrypting.erase id } })

theorem prepare_ordering (ordered : Bool) (message : RemoteMessage) (s : Site) :
    (s.ordering ordered).prepare message =
      ((s.prepare message).1, (s.prepare message).2.ordering ordered) := by
  have hdecryption : (s.ordering ordered).decryption? = s.decryption? := rfl
  unfold prepare
  rw [hdecryption]
  dsimp only
  split
  · rfl
  · rfl
  · next secret d _ _ =>
    rw [decrypt_ordering]
    obtain ⟨_ | _, _⟩ := s.decrypt d message.id secret <;> rfl

theorem prepareEvents_ordering (ordered : Bool) (events : List RemoteEvent) (s : Site) :
    (s.ordering ordered).prepareEvents events =
      ((s.prepareEvents events).1, (s.prepareEvents events).2.ordering ordered) := by
  induction events generalizing s with
  | nil => rfl
  | cons event rest ih =>
      cases event with
      | created message => simp only [prepareEvents, prepare_ordering, ih]
      | updated => simp only [prepareEvents, ih]
      | removed => simp only [prepareEvents, ih]

theorem applyEvents_ordering (ordered : Bool) (since? : Option (Option String))
    (batch : EventBatch) (s : Site) :
    let events := (s.prepareEvents batch.events).1
    let applied := (s.readied batch).applyBatch s.settings since? batch.cursor
      (if ordered then events else Prepared.sortCreations events)
    ((s.ordering ordered).applyEvents since? batch).1 = outcome applied.1 ∧
      ((s.ordering ordered).applyEvents since? batch).2.shared = applied.2 := by
  have hsettings := (interim_prepareEvents batch.events s).settings
  unfold applyEvents readied
  rw [prepareEvents_ordering, ← hsettings]
  generalize s.prepareEvents batch.events = prepared
  have hmutate (events : List Prepared) : (prepared.2.ordering ordered).mutate
      (·.applyBatch (prepared.2.ordering ordered).settings
        (prepared.2.ordering ordered).shared.sessions since? events batch.cursor) =
      let applied := prepared.2.shared.applyBatch prepared.2.settings since? batch.cursor events
      (outcome applied.1, { prepared.2.ordering ordered with shared := applied.2 }) :=
    mutate_eq ..
  have hsorted : (if (prepared.2.ordering ordered).settings.ordered then prepared.1
      else Prepared.sortCreations prepared.1) =
        if ordered then prepared.1 else Prepared.sortCreations prepared.1 := rfl
  dsimp only
  rw [hsorted, hmutate]
  dsimp only
  generalize prepared.2.shared.applyBatch prepared.2.settings since? batch.cursor
    (if ordered then prepared.1 else Prepared.sortCreations prepared.1) = applied
  obtain ⟨_ | _, _⟩ := applied <;> exact ⟨rfl, rfl⟩

theorem apply_eq_applyEvents (hsound : s.shared.mailbox.desync? = none) (hgap : batch.gap = false)
    (hroom : (s.applyEvents since? batch).1 ≠ .error (.failed (.mailbox .uidsExhausted)))
    (hstep : ∀ name what,
      (s.applyEvents since? batch).1 ≠ .error (.failed (.mailbox (.desync name what)))) :
    s.apply since? batch = s.applyEvents since? batch := by
  unfold apply
  simp only [hgap, hsound, Option.isSome_none, Bool.or_self, Bool.false_eq_true, if_false]
  split
  · next heq => exact absurd (congrArg Prod.fst heq) hroom
  · next heq => exact absurd (congrArg Prod.fst heq) (hstep _ _)
  · rfl

theorem error_of_map_eq {result result' : Except Halt Tally} {halt : Halt}
    (h : result.map (fun _ => ()) = result'.map (fun _ => ())) (herror : result = .error halt) :
    result' = .error halt := by
  subst herror
  cases result' <;> cases h
  rfl

/-- Whether the remote account tells of new messages in their order makes no difference to a sound
mailbox but for the numbers of its messages, if the batch brings no message twice and sorting the
messages that it brings makes none to any message. -/
theorem apply_unordered (ordered : Bool) (hsound : s.shared.mailbox.checkIntegrity = .ok ())
    (hqueued : s.shared.mailbox.Queued)
    (hready : (s.readied batch).mailbox.checkIntegrity = .ok ()) (hgap : batch.gap = false)
    (honce : (batch.events.filterMap RemoteEvent.comer?).Nodup)
    (hroom : ((s.ordering ordered).applyEvents since? batch).1 ≠
      .error (.failed (.mailbox .uidsExhausted)))
    (hwithstands : ∀ id, (s.readied batch).mailbox.Withstands s.settings.updatesFlags
      (s.prepareEvents batch.events).1 id) :
    ((s.ordering true).apply since? batch).1.map (fun _ => ()) =
        ((s.ordering false).apply since? batch).1.map (fun _ => ()) ∧
      ((s.ordering true).apply since? batch).2.shared.mailbox.Matches
        ((s.ordering false).apply since? batch).2.shared.mailbox := by
  have hstart := Mailbox.checkIntegrity_iff.1 hsound
  obtain ⟨ho, hi⟩ := Mailbox.checkIntegrity_iff.1 hready
  have hq : (s.readied batch).mailbox.Queued := (SharedMailbox.orderly_queued_leads hstart.1
    hqueued (interim_prepareEvents batch.events s).leads).2
  have hcoherent : (s.readied batch).mailbox.startJournal.Coherent := ⟨ho.distinct, hi, hq⟩
  rw [← comers_prepareEvents _ s] at honce
  obtain ⟨hresult, hmatches⟩ := SharedMailbox.applyBatch_matches since? batch.cursor
    ⟨ho.distinct, hi, hq⟩
    (Mailbox.applyEvents_sorted (ho.of_eq rfl rfl) hcoherent honce hwithstands)
  have hordering (o : Bool) := applyEvents_ordering o since? batch s
  have hmap (result : Except MailboxError Tally) :
      (outcome result).map (fun _ => ()) = outcome (result.map fun _ => ()) := by
    cases result <;> rfl
  have hsame : ((s.ordering true).applyEvents since? batch).1.map (fun _ => ()) =
      ((s.ordering false).applyEvents since? batch).1.map (fun _ => ()) := by
    rw [(hordering true).1, (hordering false).1, hmap, hmap]
    exact congrArg outcome hresult
  have hsame' (o : Bool) : ((s.ordering o).applyEvents since? batch).1.map (fun _ => ()) =
      ((s.ordering ordered).applyEvents since? batch).1.map (fun _ => ()) := by
    cases o <;> cases ordered
    exacts [rfl, hsame.symm, hsame, rfl]
  have happly (o : Bool) :
      (s.ordering o).apply since? batch = (s.ordering o).applyEvents since? batch := by
    refine apply_eq_applyEvents (Mailbox.desync?_eq_none.2 hstart) hgap ?_ fun name what => ?_
    · exact fun hexhausted => hroom (error_of_map_eq (hsame' o) hexhausted)
    · intro hdesync
      obtain ⟨e, herror, heq⟩ := outcome_eq_error ((hordering o).1.symm.trans hdesync)
      cases heq
      exact SharedMailbox.applyBatch_not_desync ho hi herror name what rfl
  rw [happly, happly, (hordering true).2, (hordering false).2]
  exact ⟨hsame, hmatches⟩

/-- A message comes and is removed, and then another one comes that is before it in the order. -/
def crossing : EventBatch where
  events := [.created { id := "a", order := 2 }, .removed "a", .created { id := "b", order := 1 },
    .updated "b" (OrderedSet.insert .seen ∅) 0]

theorem withstands_crossing (id : RemoteId) : withKnown.shared.mailbox.Withstands true
    (withKnown.prepareEvents crossing.events).1 id := by
  have hsorted : Prepared.sortCreations (withKnown.prepareEvents crossing.events).1 =
      [.create { remoteId := "b", order := 1 }, .remove "a",
        .create { remoteId := "a", order := 2 }, .update "b" (OrderedSet.insert .seen ∅) 0] := by
    cbv
  unfold Mailbox.Withstands
  rw [hsorted]
  by_cases hid : id = "a"
  · subst hid
    exact .inr ⟨_, rfl, .inl rfl⟩
  · have hprepared : (withKnown.prepareEvents crossing.events).1 =
        [.create { remoteId := "a", order := 2 }, .remove "a",
          .create { remoteId := "b", order := 1 }, .update "b" (OrderedSet.insert .seen ∅) 0] := rfl
    have hother : (("a" : RemoteId) == id) = false := beq_false_of_ne (Ne.symm hid)
    rw [hprepared]
    left
    simp [Prepared.own, Prepared.concerns, hother, List.filter_cons]

theorem applyEvents_crossing : ((withKnown.ordering true).applyEvents none crossing).1 =
    .ok { created := 1, updated := 2, removed := 1, expunged := [.least] } := rfl

theorem queued_withKnown : withKnown.shared.mailbox.Queued := Mailbox.queued_of_pending rfl

theorem apply_unordered_of_crossing : withKnown.shared.mailbox.checkIntegrity = .ok () ∧
    withKnown.shared.mailbox.Queued ∧
    (withKnown.readied crossing).mailbox.checkIntegrity = .ok () ∧ crossing.gap = false ∧
    (crossing.events.filterMap RemoteEvent.comer?).Nodup ∧
    ((withKnown.ordering true).applyEvents none crossing).1 ≠
      .error (.failed (.mailbox .uidsExhausted)) ∧
    (∀ id, (withKnown.readied crossing).mailbox.Withstands withKnown.settings.updatesFlags
      (withKnown.prepareEvents crossing.events).1 id) ∧
    ((withKnown.ordering true).apply none crossing).1.map (fun _ => ()) =
      ((withKnown.ordering false).apply none crossing).1.map (fun _ => ()) ∧
    ((withKnown.ordering true).apply none crossing).2.shared.mailbox.Matches
      ((withKnown.ordering false).apply none crossing).2.shared.mailbox := by
  have halone : withKnown.readied crossing = withKnown.shared := readied_of_alone rfl
  have hready : (withKnown.readied crossing).mailbox.checkIntegrity = .ok () := by
    rw [halone]
    rfl
  have honce : (crossing.events.filterMap RemoteEvent.comer?).Nodup := by decide +kernel
  have hroom : ((withKnown.ordering true).applyEvents none crossing).1 ≠
      .error (.failed (.mailbox .uidsExhausted)) := by
    rw [applyEvents_crossing]
    simp
  have hwithstands : ∀ id, (withKnown.readied crossing).mailbox.Withstands
      withKnown.settings.updatesFlags (withKnown.prepareEvents crossing.events).1 id := by
    rw [halone]
    exact withstands_crossing
  exact ⟨rfl, queued_withKnown, hready, rfl, honce, hroom, hwithstands,
    apply_unordered true rfl queued_withKnown hready rfl honce hroom hwithstands⟩

def withNone : Site := { withKnown with shared := { mailbox := .create "INBOX" 0 } }

/-- A message that sorting puts behind its own removal is there, although it has been removed. -/
theorem unordered_keeps_removed : withNone.shared.mailbox.checkIntegrity = .ok () ∧
    withNone.shared.mailbox.Queued ∧ crossing.gap = false ∧
    (crossing.events.filterMap RemoteEvent.comer?).Nodup ∧
    ((withNone.ordering true).apply none crossing).1 =
      .ok { created := 2, updated := 1, removed := 1, expunged := [.least] } ∧
    ((withNone.ordering false).apply none crossing).1 =
      .ok { created := 2, updated := 1, skipped := 1 } ∧
    "a" ∉ ((withNone.ordering true).apply none crossing).2.shared.mailbox.roster ∧
    "a" ∈ ((withNone.ordering false).apply none crossing).2.shared.mailbox.roster := by
  refine ⟨rfl, Mailbox.queued_of_pending rfl, rfl, by decide +kernel, rfl, by cbv,
    by decide +kernel, ?_⟩
  cbv
  exact .head _

end Site

end MailBridge

import MailBridge.Proofs.Expansion
import MailBridge.Proofs.Failure
import MailBridge.Proofs.LocalFlags
import MailBridge.Proofs.Recovery
import MailBridge.Proofs.Sessions

/-! # What a client's change of flags does

A client changes the flags of messages that it names by its frozen view, in one change of the
mailbox. Those of them that are still there are changed as it asks and shown to it; those that are
gone are passed over, unless all of them are. Everything else stays as it is.
-/

namespace MailBridge

namespace Message

variable {now : Instant} {delta : Flags} {mode : StoreMode} {next : ModSeq} {r r' : Message}

/-- A message as a client's change of its flags leaves it. The mark of a recent message stays. The
flags that come or go, and no others, count as changed locally now. If there are none, the message
stays as it is, and else all of it does but for the number of its change. -/
structure StoredAs (now : Instant) (delta : Flags) (mode : StoreMode) (r r' : Message) : Prop where
  members : ∀ flag, flag ≠ .recent → (flag ∈ r'.flags ↔
    match mode with
    | .add => flag ∈ r.flags ∨ flag ∈ delta
    | .remove => flag ∈ r.flags ∧ flag ∉ delta
    | .replace => flag ∈ delta)
  flags : r'.flags = Flags.apply mode delta.withoutRecent r.flags
  recent : .recent ∈ r'.flags ↔ .recent ∈ r.flags
  changes : ∀ flag, r'.localChanges.get? flag =
    if flag ∈ r'.flags ↔ flag ∈ r.flags then r.localChanges.get? flag else some now
  still : r'.flags = r.flags → r' = r
  rest : r' = { r with flags := r'.flags, localChanges := r'.localChanges, modseq := r'.modseq }

theorem flags_stored (r : Message) : (r.stored now delta mode next).flags =
    Flags.apply mode delta.withoutRecent r.flags := by
  unfold stored
  dsimp only
  split
  · next hsame => exact hsame.symm
  · rfl

@[simp] theorem uid_stored (r : Message) : (r.stored now delta mode next).uid = r.uid := by
  unfold stored
  dsimp only
  split <;> rfl

theorem storedAs_stored (r : Message) :
    r.StoredAs now delta mode (r.stored now delta mode next) where
  members flag hflag := by
    rw [flags_stored, Flags.mem_apply]
    cases mode <;> simp [Flags.withoutRecent, hflag]
  flags := flags_stored r
  recent := by
    have hrecent := Flags.isRecent_apply mode delta r.flags
    rw [flags_stored]
    simpa [Flags.isRecent] using hrecent
  changes _ := r.get?_stored now delta mode next
  still h := by
    rw [flags_stored] at h
    exact if_pos h
  rest := by
    unfold stored
    dsimp only
    split <;> rfl

theorem stored_stored (r : Message) (next' : ModSeq) :
    (r.stored now delta mode next).stored now delta mode next' = r.stored now delta mode next := by
  refine (storedAs_stored _).still ?_
  rw [flags_stored, flags_stored, Flags.apply_apply]

end Message

namespace Mailbox

variable {now : Instant} {delta : Flags} {mode : StoreMode} {m : Mailbox}
  {targets : List (Seqnum × SnapshotEntry)}

/-- A mailbox in which nothing but messages may be different. -/
structure Frames (m m' : Mailbox) : Prop where
  name : m'.name = m.name
  uids : m'.uids = m.uids
  cursor : m'.cursor = m.cursor
  pending : m'.pending = m.pending
  index : m'.store.index = m.store.index

theorem Frames.refl (m : Mailbox) : m.Frames m := ⟨rfl, rfl, rfl, rfl, rfl⟩

theorem Frames.trans {a b c : Mailbox} (h : a.Frames b) (h' : b.Frames c) : a.Frames c where
  name := h'.name.trans h.name
  uids := h'.uids.trans h.uids
  cursor := h'.cursor.trans h.cursor
  pending := h'.pending.trans h.pending
  index := h'.index.trans h.index

theorem index_update (s : MessageStore) (r : Message) : (s.update r).index = s.index := by
  unfold MessageStore.update
  split <;> rfl

theorem frames_setFlags (now : Instant) (uid : Uid) (delta : Flags) (mode : StoreMode)
    (m : Mailbox) : m.Frames (m.setFlags now uid delta mode).2 := by
  unfold setFlags
  split
  · exact .refl m
  · dsimp only
    split
    · exact .refl m
    · constructor <;> simp [markUnsaved, change, advance, index_update]

theorem setFlags_of_gone {uid : Uid} (h : m.store.get? uid = none) :
    m.setFlags now uid delta mode = (.error (.uidNotFound m.name uid), m) := by
  unfold setFlags
  rw [h]

theorem setFlags_of_live {uid : Uid} {r : Message} (h : m.store.get? uid = some r) :
    (m.setFlags now uid delta mode).1 = .ok (r.stored now delta mode m.modseq.next) := by
  unfold setFlags Message.stored
  rw [h]
  dsimp only
  split <;> rfl

end Mailbox

namespace Selection

open Mailbox

variable {now : Instant} {delta : Flags} {mode : StoreMode} {b : Mailbox} {n : Seqnum}
  {e : SnapshotEntry} {targets rest : List (Seqnum × SnapshotEntry)}

/-! ## One message after the other -/

/-- Some of the targets has the UID. -/
def Aims (targets : List (Seqnum × SnapshotEntry)) (uid : Uid) : Prop :=
  ∃ t ∈ targets, t.2.uid = uid

instance (targets : List (Seqnum × SnapshotEntry)) (uid : Uid) : Decidable (Aims targets uid) :=
  inferInstanceAs (Decidable (∃ t ∈ targets, _))

@[simp] theorem aims_cons {uid : Uid} : Aims ((n, e) :: rest) uid ↔ e.uid = uid ∨ Aims rest uid :=
  List.exists_mem_cons_iff ..

theorem storeEach_of_gone (h : b.store.get? e.uid = none) :
    storeEach now delta mode ((n, e) :: rest) b = storeEach now delta mode rest b := by
  rw [storeEach, setFlags_of_gone h]
  rfl

theorem storeEach_of_live {r : Message} (h : b.store.get? e.uid = some r) :
    storeEach now delta mode ((n, e) :: rest) b =
      let later := storeEach now delta mode rest (b.setFlags now e.uid delta mode).2
      (later.1.map ((n, e, r.stored now delta mode b.modseq.next) :: ·), later.2) := by
  have hset : b.setFlags now e.uid delta mode =
      (.ok (r.stored now delta mode b.modseq.next), (b.setFlags now e.uid delta mode).2) :=
    Prod.ext (setFlags_of_live h) rfl
  rw [storeEach, hset]

theorem frames_storeEach (now : Instant) (delta : Flags) (mode : StoreMode)
    (targets : List (Seqnum × SnapshotEntry)) (b : Mailbox) :
    b.Frames (storeEach now delta mode targets b).2 := by
  induction targets generalizing b with
  | nil => exact .refl b
  | cons target rest ih =>
      obtain ⟨n, e⟩ := target
      cases h : b.store.get? e.uid with
      | none =>
          rw [storeEach_of_gone h]
          exact ih b
      | some r =>
          rw [storeEach_of_live h]
          exact (frames_setFlags ..).trans (ih _)

/-- The message with a UID is changed if some target has the UID, and else left as it is. -/
theorem get?_storeEach (now : Instant) (delta : Flags) (mode : StoreMode)
    (targets : List (Seqnum × SnapshotEntry)) (b : Mailbox) (uid : Uid) :
    ∃ next, (storeEach now delta mode targets b).2.store.get? uid =
      if Aims targets uid then (b.store.get? uid).map (·.stored now delta mode next)
      else b.store.get? uid := by
  induction targets generalizing b with
  | nil => exact ⟨.zero, (if_neg fun ⟨_, ht, _⟩ => nomatch ht).symm⟩
  | cons target rest ih =>
      obtain ⟨n, e⟩ := target
      cases h : b.store.get? e.uid with
      | none =>
          obtain ⟨next, hnext⟩ := ih b
          refine ⟨next, ?_⟩
          rw [storeEach_of_gone h, hnext]
          by_cases heq : e.uid = uid
          · rw [← heq, h]
            simp
          · simp [heq]
      | some r =>
          obtain ⟨next, hnext⟩ := ih (b.setFlags now e.uid delta mode).2
          rw [get?_setFlags] at hnext
          rw [storeEach_of_live h]
          by_cases heq : e.uid = uid
          · -- the targets after the first do not change its message again
            subst heq
            refine ⟨b.modseq.next, hnext.trans ?_⟩
            rw [h]
            simp [Message.stored_stored]
          · refine ⟨next, hnext.trans ?_⟩
            simp [heq, Ne.symm heq]

theorem answer_storeEach (now : Instant) (delta : Flags) (mode : StoreMode)
    (targets : List (Seqnum × SnapshotEntry)) (b : Mailbox) :
    (storeEach now delta mode targets b).1 = .ok (targets.filterMap fun t =>
      ((storeEach now delta mode targets b).2.store.get? t.2.uid).map fun r => (t.1, t.2, r)) := by
  induction targets generalizing b with
  | nil => rfl
  | cons target rest ih =>
      obtain ⟨n, e⟩ := target
      cases h : b.store.get? e.uid with
      | none =>
          obtain ⟨next, hnext⟩ := get?_storeEach now delta mode rest b e.uid
          rw [h, Option.map_none, ite_self] at hnext
          rw [storeEach_of_gone h, ih, List.filterMap_cons, hnext]
          rfl
      | some r =>
          -- what the answer has is what is left, as a later target with this UID changes nothing
          obtain ⟨next, hnext⟩ := get?_storeEach now delta mode rest
            (b.setFlags now e.uid delta mode).2 e.uid
          rw [get?_setFlags, if_pos rfl, h, Option.map_some, Option.map_some, Message.stored_stored,
            ite_self] at hnext
          rw [storeEach_of_live h]
          dsimp only
          rw [ih, List.filterMap_cons, hnext]
          rfl

theorem get?_storeEach_eq_none {uid : Uid} :
    (storeEach now delta mode targets b).2.store.get? uid = none ↔ b.store.get? uid = none := by
  obtain ⟨next, hnext⟩ := get?_storeEach now delta mode targets b uid
  rw [hnext]
  split
  · exact Option.map_eq_none_iff
  · exact Iff.rfl

theorem distinct_storeEach (hd : b.store.Distinct) :
    (storeEach now delta mode targets b).2.store.Distinct := by
  obtain ⟨edits, _, hedits⟩ := tended_storeEach now delta mode targets b
  rw [hedits]
  exact distinct_editAll hd edits

/-- Message by message, those with a target are changed and the others stay. -/
theorem messages_storeEach (hd : b.store.Distinct) :
    List.Forall₂ (fun r r' => if Aims targets r.uid then r.StoredAs now delta mode r' else r' = r)
      b.store.messages (storeEach now delta mode targets b).2.store.messages := by
  have hd' : (storeEach now delta mode targets b).2.store.Distinct := distinct_storeEach hd
  -- a UID tells what its message is left as; with no two messages of one UID, that is all of them
  choose next hnext using get?_storeEach now delta mode targets b
  let left (r : Message) : Message :=
    if Aims targets r.uid then r.stored now delta mode (next r.uid) else r
  have huid (r : Message) : (left r).uid = r.uid := by
    dsimp only [left]
    split
    · exact Message.uid_stored r
    · rfl
  have hfound (r : Message) (hr : r ∈ b.store.messages) :
      (storeEach now delta mode targets b).2.store.get? r.uid = some (left r) := by
    rw [hnext, MessageStore.get?_of_mem hd hr, Option.map_some]
    dsimp only [left]
    split <;> rfl
  have hmessages : (storeEach now delta mode targets b).2.store.messages =
      b.store.messages.map left := by
    refine hd'.ext (hd.map fun r _ => huid r) fun r' => ?_
    rw [List.mem_map]
    constructor
    · intro hr'
      have hget := MessageStore.get?_of_mem hd' hr'
      have hthere : b.store.get? r'.uid ≠ none := fun hnone => by
        rw [get?_storeEach_eq_none.2 hnone] at hget
        cases hget
      obtain ⟨r, hr⟩ := Option.ne_none_iff_exists'.1 hthere
      obtain ⟨hr, heq⟩ := (MessageStore.get?_eq_some hd).1 hr
      rw [← heq, hfound r hr] at hget
      exact ⟨r, hr, Option.some.inj hget⟩
    · rintro ⟨r, hr, rfl⟩
      exact ((MessageStore.get?_eq_some hd').1 (hfound r hr)).1
  rw [hmessages, List.forall₂_map_right_iff, List.forall₂_same]
  intro r _
  dsimp only [left]
  split
  · exact Message.storedAs_stored r
  · rfl

/-! ## The command -/

variable {m : SharedMailbox} {s : Selection} {set : MessageSet} {first : SnapshotEntry}

/-- The change that the command makes if there are targets, the first of which is given. -/
def storing (now : Instant) (delta : Flags) (mode : StoreMode) (first : SnapshotEntry)
    (targets : List (Seqnum × SnapshotEntry)) (b : Mailbox) :
    Except MailboxError (List (Seqnum × SnapshotEntry × Message)) × Mailbox :=
  match storeEach now delta mode targets b with
  | (.ok [], b) => (.error (.uidNotFound b.name first.uid), b)
  | result => result

theorem storing_mailbox : (storing now delta mode first targets b).2 =
    (storeEach now delta mode targets b).2 := by
  unfold storing
  split
  · next h => rw [h]
  · rfl

theorem storing_answer (now : Instant) (delta : Flags) (mode : StoreMode) (first : SnapshotEntry)
    (targets : List (Seqnum × SnapshotEntry)) (b : Mailbox) :
    (storing now delta mode first targets b).1 =
    if ∀ t ∈ targets, b.store.get? t.2.uid = none then .error (.uidNotFound b.name first.uid)
    else .ok (targets.filterMap fun t =>
      ((storeEach now delta mode targets b).2.store.get? t.2.uid).map fun r =>
        (t.1, t.2, r)) := by
  have hanswer := answer_storeEach now delta mode targets b
  have hname := (frames_storeEach now delta mode targets b).name
  have hgone : (targets.filterMap fun t =>
      ((storeEach now delta mode targets b).2.store.get? t.2.uid).map fun r => (t.1, t.2, r)) = [] ↔
        ∀ t ∈ targets, b.store.get? t.2.uid = none := by
    simp only [List.filterMap_eq_nil_iff, Option.map_eq_none_iff, get?_storeEach_eq_none]
  unfold storing
  split
  · next b' h =>
    have hnil := congrArg Prod.fst h
    rw [hanswer] at hnil
    rw [h] at hname
    rw [if_pos (hgone.1 (Except.ok.inj hnil)), ← hname]
  · next hnot =>
    rw [if_neg fun hall => ?_]
    · exact hanswer
    · rw [hgone.2 hall] at hanswer
      exact hnot _ (Prod.ext hanswer rfl)

section Writing

variable (hvalid : m.mailbox.summary.validity = s.snapshot.validity)
  (hwrites : s.isReadOnly = false)

include hvalid hwrites

theorem store_of_error {e : MailboxError} (h : s.targets set = .error e) :
    store now set delta mode m s = s.stay (.error (.mailbox e)) m := by
  unfold store whileValid
  rw [if_pos hvalid]
  dsimp only
  rw [hwrites, h]
  rfl

theorem store_of_nil (h : s.targets set = .ok []) :
    store now set delta mode m s = s.stay (.ok []) m := by
  unfold store whileValid
  rw [if_pos hvalid]
  dsimp only
  rw [hwrites, h]
  rfl

theorem store_of_cons {t : Seqnum × SnapshotEntry} (h : s.targets set = .ok (t :: rest)) :
    store now set delta mode m s =
      let done := m.mutate (storing now delta mode t.2 (t :: rest))
      s.stay ((done.1.mapError .mailbox).map fun stored => stored.map fun v =>
        .ofLive v.1 v.2.1 (some v.2.2)) done.2 := by
  obtain ⟨n, e⟩ := t
  unfold store whileValid
  rw [if_pos hvalid]
  dsimp only
  rw [hwrites, h]
  dsimp only
  rw [if_neg Bool.false_ne_true]
  unfold storing
  generalize m.mutate _ = done
  obtain ⟨_ | _, _⟩ := done <;> rfl

end Writing

theorem targets_sublist (h : s.targets set = .ok targets) :
    targets.Sublist s.snapshot.numbered := by
  unfold Selection.targets at h
  split at h
  · dsimp only at h
    split at h
    · cases h
    · cases h
      exact List.filter_sublist
  · cases h
    exact List.filter_sublist

theorem targets_error {e : MailboxError} (h : s.targets set = .error e) :
    ∃ n, e = .seqnumNotFound s.mailbox n := by
  unfold Selection.targets at h
  split at h
  · dsimp only at h
    split at h
    · cases h
      exact ⟨_, rfl⟩
    · cases h
  · cases h

/-- The messages that the targets are about are changed as the client asks, as far as they are still
there. All others stay as they are. Those that are still there are shown in the order of the
targets, with the flags that they have now, recent as the view has it. -/
structure Stores (now : Instant) (delta : Flags) (mode : StoreMode)
    (targets : List (Seqnum × SnapshotEntry)) (b b' : Mailbox) (views : List MessageView) :
    Prop where
  messages : List.Forall₂
    (fun r r' => if Aims targets r.uid then r.StoredAs now delta mode r' else r' = r)
    b.store.messages b'.store.messages
  frames : b.Frames b'
  shown : views = targets.filterMap fun t =>
    (b'.get? t.2.uid).map fun r => .ofLive t.1 t.2 (some r)
  flags : ∀ v ∈ views, ∃ t ∈ targets, ∃ r ∈ b'.store.messages, r.uid = t.2.uid ∧ v.seqnum = t.1 ∧
    ∀ flag, flag ∈ v.flags ↔ if flag = .recent then .recent ∈ t.2.flags else flag ∈ r.flags

theorem stores_nil (b : Mailbox) : Stores now delta mode [] b b [] where
  messages := List.forall₂_same.2 fun r _ => by simp [Aims]
  frames := .refl b
  shown := rfl
  flags _ h := absurd h List.not_mem_nil

theorem stores_storeEach (hd : b.store.Distinct) {summary? : Option Summary} :
    Stores now delta mode targets b
      { (storeEach now delta mode targets b.startJournal).2 with
        summary?, unsaved := {}, journal? := none }
      ((targets.filterMap fun t =>
        ((storeEach now delta mode targets b.startJournal).2.store.get? t.2.uid).map fun r =>
          (t.1, t.2, r)).map fun v => .ofLive v.1 v.2.1 (some v.2.2)) := by
  have hframes := frames_storeEach now delta mode targets b.startJournal
  refine ⟨messages_storeEach (b := b.startJournal) hd, ⟨hframes.name, hframes.uids,
    hframes.cursor, hframes.pending, hframes.index⟩, ?_, ?_⟩
  · rw [List.map_filterMap]
    refine List.filterMap_congr fun t _ => ?_
    rw [Option.map_map]
    rfl
  · intro v hv
    obtain ⟨⟨n, e, r⟩, hshown, rfl⟩ := List.mem_map.1 hv
    obtain ⟨t, ht, hlive⟩ := List.mem_filterMap.1 hshown
    obtain ⟨r, hr, heq⟩ := Option.map_eq_some_iff.1 hlive
    cases heq
    obtain ⟨hr, huid⟩ :=
      (MessageStore.get?_eq_some (distinct_storeEach (b := b.startJournal) hd)).1 hr
    exact ⟨t, ht, r, hr, huid, rfl, fun flag => SnapshotEntry.mem_adopt⟩

/-! ## The outcome -/

theorem Stores.pairwise {b' : Mailbox} {views : List MessageView} {R : Seqnum → Seqnum → Prop}
    (h : Stores now delta mode targets b b' views) (htargets : s.targets set = .ok targets)
    (hR : s.snapshot.numbered.Pairwise fun x y => R x.1 y.1) :
    views.Pairwise fun v w => R v.seqnum w.seqnum := by
  rw [h.shown]
  refine List.pairwise_filterMap.2 ((hR.sublist (targets_sublist htargets)).imp ?_)
  intro x y hxy v hv w hw
  obtain ⟨_, _, rfl⟩ := Option.map_eq_some_iff.1 hv
  obtain ⟨_, _, rfl⟩ := Option.map_eq_some_iff.1 hw
  exact hxy

/-- A change that fails, because all targets are gone or because it cannot be saved, is undone. One
that does not is kept. -/
theorem mutate_storing (hd : m.mailbox.store.Distinct) (hi : m.mailbox.Indexed)
    {done : Except MailboxError (List (Seqnum × SnapshotEntry × Message)) × SharedMailbox}
    (hdone : m.mutate (storing now delta mode first targets) = done) :
    ((∀ t ∈ targets, m.mailbox.store.get? t.2.uid = none) ∧
      done.1 = .error (.uidNotFound m.mailbox.name first.uid) ∧ done.2.idle = m.idle) ∨
    ((∃ t ∈ targets, m.mailbox.store.get? t.2.uid ≠ none) ∧
      ((∃ stored, done.1 = .ok stored ∧ Stores now delta mode targets m.mailbox done.2.mailbox
        (stored.map fun v => .ofLive v.1 v.2.1 (some v.2.2))) ∨
      ∃ cause name, done.1 = .error (.notPersisted cause name) ∧ done.2.idle = m.idle)) := by
  subst hdone
  have hundone (e : MailboxError)
      (h : (m.mutate (storing now delta mode first targets)).1 = .error e) :
      (m.mutate (storing now delta mode first targets)).2.idle = m.idle := by
    have htended : Settled m.mailbox.startJournal
        (storing now delta mode first targets m.mailbox.startJournal).2 := by
      rw [storing_mailbox]
      exact (tended_storeEach ..).settled
    exact (SharedMailbox.unchanged_of_settled hd htended h).idle_eq hi
  have hanswer := storing_answer now delta mode first targets m.mailbox.startJournal
  by_cases hall : ∀ t ∈ targets, m.mailbox.startJournal.store.get? t.2.uid = none
  · rw [if_pos hall] at hanswer
    have herror := SharedMailbox.mutate_of_error hanswer
    exact .inl ⟨hall, herror, hundone _ herror⟩
  · rw [if_neg hall] at hanswer
    push Not at hall
    refine .inr ⟨hall, ?_⟩
    rcases SharedMailbox.mutate_of_ok hanswer with hok | ⟨_, cause, name, herror⟩
    · refine .inl ⟨_, hok, ?_⟩
      rw [SharedMailbox.mailbox_mutate_of_kept hok, kept_eq, storing_mailbox]
      exact stores_storeEach hd
    · exact .inr ⟨cause, name, herror, hundone _ herror⟩

/-- What becomes of a client's change of flags, of messages that it names by its view. It is done
to those that are still there, which are shown in the order of their numbers. If it fails, nothing
is changed. It fails for want of messages if and only if some were named and all of them are gone,
and else for want of a number, or because it cannot be saved. -/
structure StoreOutcome (now : Instant) (set : MessageSet) (delta : Flags) (mode : StoreMode)
    (m : SharedMailbox) (s : Selection) (o : Outcome (List MessageView)) : Prop where
  stays : o.selection? = some s
  done : ∀ views, o.answer = .ok views →
    (∃ targets, s.targets set = .ok targets ∧
      Stores now delta mode targets m.mailbox o.mailbox.mailbox views) ∧
    (views.Pairwise fun v w => v.seqnum.val ≤ w.seqnum.val) ∧
    (s.snapshot.size ≤ maxWord → views.Pairwise fun v w => v.seqnum.val < w.seqnum.val)
  failed : ∀ e, o.answer = .error e → o.mailbox.idle = m.idle
  gone : (∃ name uid, o.answer = .error (.mailbox (.uidNotFound name uid))) ↔
    ∃ targets, s.targets set = .ok targets ∧ targets ≠ [] ∧
      ∀ t ∈ targets, ∀ r ∈ m.mailbox.store.messages, r.uid ≠ t.2.uid
  finds : ∀ targets, s.targets set = .ok targets →
    (targets ≠ [] → ∃ t ∈ targets, ∃ r ∈ m.mailbox.store.messages, r.uid = t.2.uid) →
    (∃ views, o.answer = .ok views) ∨
      ∃ cause name, o.answer = .error (.mailbox (.notPersisted cause name))

theorem storeOutcome_of_targets {o : Outcome (List MessageView)}
    (htargets : s.targets set = .ok targets) (stays : o.selection? = some s)
    (done : ∀ views, o.answer = .ok views →
      Stores now delta mode targets m.mailbox o.mailbox.mailbox views)
    (failed : ∀ e, o.answer = .error e → o.mailbox.idle = m.idle)
    (gone : (∃ name uid, o.answer = .error (.mailbox (.uidNotFound name uid))) ↔
      targets ≠ [] ∧ ∀ t ∈ targets, ∀ r ∈ m.mailbox.store.messages, r.uid ≠ t.2.uid)
    (finds : (targets ≠ [] → ∃ t ∈ targets, ∃ r ∈ m.mailbox.store.messages, r.uid = t.2.uid) →
      (∃ views, o.answer = .ok views) ∨
        ∃ cause name, o.answer = .error (.mailbox (.notPersisted cause name))) :
    StoreOutcome now set delta mode m s o where
  stays := stays
  done views hok := by
    have hstores := done views hok
    exact ⟨⟨targets, htargets, hstores⟩,
      hstores.pairwise (R := fun n k => n.val ≤ k.val) htargets (Snapshot.monotone_numberFrom ..),
      fun hsize => hstores.pairwise (R := fun n k => n.val < k.val) htargets
        (Snapshot.ascending_numbered hsize)⟩
  failed := failed
  gone := by
    rw [gone]
    constructor
    · exact fun h => ⟨targets, htargets, h⟩
    · rintro ⟨targets', h, hgone⟩
      obtain rfl : targets = targets' := Except.ok.inj (htargets.symm.trans h)
      exact hgone
  finds targets' h := by
    obtain rfl : targets = targets' := Except.ok.inj (htargets.symm.trans h)
    exact finds

/-- A client's change of flags has the outcome that it is to have. -/
theorem store_outcome (hsound : m.mailbox.checkIntegrity = .ok ())
    (hvalid : m.mailbox.summary.validity = s.snapshot.validity) (hwrites : s.isReadOnly = false) :
    StoreOutcome now set delta mode m s (store now set delta mode m s) := by
  obtain ⟨ho, hi⟩ := checkIntegrity_iff.1 hsound
  have hd := ho.distinct
  cases htargets : s.targets set with
  | error e =>
      rw [store_of_error hvalid hwrites htargets]
      obtain ⟨n, rfl⟩ := targets_error htargets
      refine ⟨rfl, fun _ h => ?_, fun _ _ => rfl, ⟨?_, ?_⟩, fun _ h => ?_⟩
      · cases h
      · rintro ⟨_, _, h⟩
        cases h
      · rintro ⟨_, h, _⟩
        rw [htargets] at h
        cases h
      · rw [htargets] at h
        cases h
  | ok targets =>
      cases targets with
      | nil =>
          rw [store_of_nil hvalid hwrites htargets]
          refine storeOutcome_of_targets htargets rfl (fun _ h => ?_) (fun _ h => ?_) ⟨?_, ?_⟩
            fun _ => .inl ⟨[], rfl⟩
          · cases h
            exact stores_nil _
          · cases h
          · rintro ⟨_, _, h⟩
            cases h
          · exact fun h => absurd rfl h.1
      | cons t rest =>
          rw [store_of_cons hvalid hwrites htargets]
          dsimp only
          generalize hdone : m.mutate (storing now delta mode t.2 (t :: rest)) = done
          obtain ⟨answer, m'⟩ := done
          rcases mutate_storing hd hi hdone with ⟨hgone, rfl, hidle⟩ | ⟨⟨t', ht', hlive⟩, hcases⟩
          · have hnone : ∀ t' ∈ t :: rest, ∀ r ∈ m.mailbox.store.messages, r.uid ≠ t'.2.uid :=
              fun t' ht' => (MessageStore.get?_eq_none hd).1 (hgone t' ht')
            refine storeOutcome_of_targets htargets rfl (fun _ h => ?_) (fun _ _ => hidle)
              ⟨fun _ => ⟨List.cons_ne_nil t rest, hnone⟩, fun _ => ⟨_, _, rfl⟩⟩ fun hsome => ?_
            · cases h
            · obtain ⟨t', ht', r, hr, huid⟩ := hsome (List.cons_ne_nil t rest)
              exact absurd huid (hnone t' ht' r hr)
          · have hsome : ¬ (t :: rest ≠ [] ∧ ∀ t' ∈ t :: rest,
                ∀ r ∈ m.mailbox.store.messages, r.uid ≠ t'.2.uid) := fun hnone =>
              hlive ((MessageStore.get?_eq_none hd).2 (hnone.2 t' ht'))
            rcases hcases with ⟨stored, rfl, hstores⟩ | ⟨cause, name, rfl, hidle⟩
            · refine storeOutcome_of_targets htargets rfl (fun _ h => ?_) (fun _ h => ?_)
                ⟨?_, fun h => absurd h hsome⟩ fun _ => .inl ⟨_, rfl⟩
              · cases h
                exact hstores
              · cases h
              · rintro ⟨_, _, h⟩
                cases h
            · refine storeOutcome_of_targets htargets rfl (fun _ h => ?_) (fun _ _ => hidle)
                ⟨?_, fun h => absurd h hsome⟩ fun _ => .inr ⟨_, _, rfl⟩
              · cases h
              · rintro ⟨_, _, h⟩
                cases h

/-- Another client has expunged the first of two messages. -/
def halved : SharedMailbox where
  mailbox := ((pair.mailbox.setFlags 50 .least (.ofList [.deleted]) .add).2.expunge).2

def foremost : SequenceSet := [.single (.exact .one)]

/-- The message that is left is changed, and the one that is gone cannot be changed alone. -/
theorem store_outcome_of_halved : halved.mailbox.checkIntegrity = .ok () ∧
    halved.mailbox.summary.validity = (viewOf pair).snapshot.validity ∧
    (viewOf pair).isReadOnly = false ∧
    (∃ views, (store 100 (.seqnums everything) (.ofList [.seen]) .replace halved
        (viewOf pair)).answer = .ok views ∧ views.map (·.seqnum.val) = [2] ∧
      ∃ targets, (viewOf pair).targets (.seqnums everything) = .ok targets ∧
        Stores 100 (.ofList [.seen]) .replace targets halved.mailbox
          (store 100 (.seqnums everything) (.ofList [.seen]) .replace halved
            (viewOf pair)).mailbox.mailbox views) ∧
    ∃ name uid, (store 100 (.seqnums foremost) (.ofList [.seen]) .add halved
      (viewOf pair)).answer = .error (.mailbox (.uidNotFound name uid)) := by
  have hsound : halved.mailbox.checkIntegrity = .ok () := by decide +kernel
  have hvalid : halved.mailbox.summary.validity = (viewOf pair).snapshot.validity := by
    decide +kernel
  have hfirst : (viewOf pair).targets (.seqnums foremost) =
      .ok [(.least, pair.mailbox.snapshot.entries.head (by decide +kernel))] := rfl
  have hshown : (store 100 (.seqnums everything) (.ofList [.seen]) .replace halved
      (viewOf pair)).answer.toOption.map (·.map (·.seqnum.val)) = some [2] := rfl
  have hgone : ∃ name uid, (store 100 (.seqnums foremost) (.ofList [.seen]) .add halved
      (viewOf pair)).answer = .error (.mailbox (.uidNotFound name uid)) :=
    (store_outcome hsound hvalid rfl).gone.2
      ⟨_, hfirst, List.cons_ne_nil _ _, by decide +kernel⟩
  cases hanswer : (store 100 (.seqnums everything) (.ofList [.seen]) .replace halved
      (viewOf pair)).answer with
  | error e =>
      rw [hanswer] at hshown
      cases hshown
  | ok views =>
      rw [hanswer] at hshown
      obtain ⟨hstores, _⟩ := (store_outcome hsound hvalid rfl).done views hanswer
      exact ⟨hsound, hvalid, rfl, ⟨views, rfl, Option.some.inj hshown, hstores⟩, hgone⟩

end Selection

end MailBridge

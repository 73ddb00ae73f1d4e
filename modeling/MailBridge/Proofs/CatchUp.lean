import MailBridge.Proofs.FlagLaws
import MailBridge.Proofs.Store
import MailBridge.Proofs.Views

/-! # What catching up makes of a frozen view

A view whose UIDs ascend catches up with a mailbox in three strokes: entries without a message go,
entries whose message has a later modification sequence take it in, and messages with UIDs above
the view come. The report names what went, and what changed its flags.
-/

namespace MailBridge

namespace SnapshotEntry

/-- The entry with the present flags of its message. -/
def takeIn (e : SnapshotEntry) (r : Message) : SnapshotEntry :=
  { e with flags := e.adopt r.flags, modseq := r.modseq }

def takeInIf (e : SnapshotEntry) (r : Message) : SnapshotEntry :=
  if e.uid = r.uid then e.takeIn r else e

@[simp] theorem takeIn_uid (e : SnapshotEntry) (r : Message) : (e.takeIn r).uid = e.uid := rfl

@[simp] theorem takeInIf_uid (e : SnapshotEntry) (r : Message) : (e.takeInIf r).uid = e.uid := by
  unfold takeInIf
  split <;> rfl

theorem takeInIf_of_ne {e : SnapshotEntry} {r : Message} (h : e.uid ≠ r.uid) :
    e.takeInIf r = e := if_neg h

theorem foldl_takeInIf_of_none {l : List Message} {e : SnapshotEntry}
    (h : ∀ r ∈ l, r.uid ≠ e.uid) : l.foldl takeInIf e = e := by
  induction l with
  | nil => rfl
  | cons r rest ih =>
      obtain ⟨hr, hrest⟩ := List.forall_mem_cons.1 h
      rw [List.foldl_cons, takeInIf_of_ne (Ne.symm hr), ih hrest]

theorem foldl_takeInIf_of_mem {l : List Message} (hl : Ascending Message.uid l)
    {e : SnapshotEntry} {r : Message} (hr : r ∈ l) (hu : e.uid = r.uid) :
    l.foldl takeInIf e = e.takeIn r := by
  induction l with
  | nil => cases hr
  | cons a rest ih =>
      obtain ⟨ha, hrest⟩ := List.pairwise_cons.1 hl
      rw [List.foldl_cons]
      rcases List.mem_cons.1 hr with rfl | hmem
      · rw [takeInIf, if_pos hu]
        refine foldl_takeInIf_of_none fun x hx heq => ?_
        have := ha x hx
        rw [heq, takeIn_uid, hu] at this
        exact Nat.lt_irrefl _ this
      · have hne : e.uid ≠ a.uid := fun heq => by
          have := ha r hmem
          rw [← hu, heq] at this
          exact Nat.lt_irrefl _ this
        rw [takeInIf_of_ne hne]
        exact ih hrest hmem

/-- What is shown of a message has its flags, but for the mark of a recent message, which is that of
the view. -/
theorem mem_adopt {e : SnapshotEntry} {flags : Flags} {flag : Flag} :
    flag ∈ e.adopt flags ↔ if flag = .recent then .recent ∈ e.flags else flag ∈ flags := by
  unfold adopt
  by_cases hflag : flag = .recent
  · subst hflag
    split <;> simp_all [Flags.isRecent, Flags.withoutRecent]
  · split <;> simp [hflag, Flags.withoutRecent]

theorem withoutRecent_adopt (e : SnapshotEntry) (flags : Flags) :
    Flags.withoutRecent (e.adopt flags) = Flags.withoutRecent flags := by
  refine Flags.withoutRecent_eq_iff.2 fun flag hflag => ?_
  rw [mem_adopt, if_neg hflag]

theorem adopt_eq_iff (e : SnapshotEntry) (flags : Flags) :
    e.flags = e.adopt flags ↔ Flags.withoutRecent e.flags = Flags.withoutRecent flags := by
  rw [← withoutRecent_adopt e flags]
  refine ⟨congrArg _, fun h => Flags.eq_of_withoutRecent h ?_⟩
  simp [Flags.isRecent, mem_adopt]

end SnapshotEntry

namespace Snapshot

open SnapshotEntry

variable {s : Snapshot}

/-! ## Taking changed messages in -/

theorem adopt_spec (h : Ascending SnapshotEntry.uid s.entries) (r : Message) :
    (s.adopt r).2 = { s with entries := s.entries.map (·.takeInIf r) } ∧
      ∀ e ∈ s.entries, e.uid = r.uid →
        (s.adopt r).1 = if e.flags = e.adopt r.flags then none else some r.uid := by
  unfold adopt
  split
  · next hnone =>
    have hno := h.placeOf_eq_none.1 hnone
    have hsame : s.entries.map (·.takeInIf r) = s.entries :=
      (List.map_congr_left (g := id) fun e he => takeInIf_of_ne (hno e he)).trans (List.map_id _)
    refine ⟨by rw [hsame], fun e he hu => absurd hu (hno e he)⟩
  · next i hi =>
    have hplace := h.placeOf_eq_some.1 hi
    obtain ⟨e, he, hu⟩ := Option.map_eq_some_iff.1 hplace
    rw [he]
    dsimp only
    have hset : s.entries.set i (e.takeIn r) = s.entries.map (·.takeInIf r) := by
      rw [h.set_eq_map (a := e.takeIn r) (by rw [hplace, takeIn_uid, hu])]
      refine List.map_congr_left fun x hx => ?_
      rw [takeIn_uid, hu, takeInIf]
      split
      · next hxu =>
        rw [h.eq_of_uid_eq hx (List.mem_of_getElem? he) (hxu.trans hu.symm)]
      · rfl
    refine ⟨congrArg (fun entries => { s with entries }) hset, fun x hx hxu => ?_⟩
    rw [h.eq_of_uid_eq hx (List.mem_of_getElem? he) (hxu.trans hu.symm)]

theorem ascending_takeIn (h : Ascending SnapshotEntry.uid s.entries) (r : Message) :
    Ascending SnapshotEntry.uid (s.entries.map (·.takeInIf r)) :=
  h.map fun e _ => takeInIf_uid e r

theorem adoptAll_entries (h : Ascending SnapshotEntry.uid s.entries) (l : List Message) :
    (s.adoptAll l).2 = { s with entries := s.entries.map fun e => l.foldl takeInIf e } := by
  induction l generalizing s with
  | nil => simp [adoptAll]
  | cons r rest ih =>
      have hadopt := (adopt_spec h r).1
      have hasc : Ascending SnapshotEntry.uid (s.adopt r).2.entries := by
        rw [hadopt]
        exact ascending_takeIn h r
      rw [adoptAll, ih hasc, hadopt]
      simp [List.map_map, Function.comp_def]

theorem adoptAll_named (h : Ascending SnapshotEntry.uid s.entries)
    {pairs : List (SnapshotEntry × Message)} (hpairs : ∀ p ∈ pairs, p.1.uid = p.2.uid)
    (hmem : ∀ p ∈ pairs, p.1 ∈ s.entries)
    (hdistinct : pairs.Pairwise fun p q => p.1.uid ≠ q.1.uid) :
    (s.adoptAll (pairs.map (·.2))).1 =
      pairs.filterMap fun p => if p.1.flags = p.1.adopt p.2.flags then none else some p.1.uid := by
  induction pairs generalizing s with
  | nil => rfl
  | cons p rest ih =>
      obtain ⟨hp, hpairs⟩ := List.forall_mem_cons.1 hpairs
      obtain ⟨hpmem, hmem⟩ := List.forall_mem_cons.1 hmem
      obtain ⟨hpdistinct, hdistinct⟩ := List.pairwise_cons.1 hdistinct
      obtain ⟨hadopt, hnamed⟩ := adopt_spec h p.2
      have hasc : Ascending SnapshotEntry.uid (s.adopt p.2).2.entries := by
        rw [hadopt]
        exact ascending_takeIn h p.2
      -- the other entries are not touched
      have hrest : ∀ q ∈ rest, q.1 ∈ (s.adopt p.2).2.entries := by
        intro q hq
        rw [hadopt]
        refine List.mem_map.2 ⟨q.1, hmem q hq, takeInIf_of_ne ?_⟩
        rw [← hp]
        exact (hpdistinct q hq).symm
      rw [List.map_cons, adoptAll]
      dsimp only
      rw [ih hasc hpairs hrest hdistinct, hnamed p.1 hpmem hp, List.filterMap_cons, hp]
      split <;> rfl

/-! ## Appending messages that have come -/

theorem foldl_append_spec {l : List SnapshotEntry}
    (h : Ascending SnapshotEntry.uid (s.entries ++ l)) :
    l.foldl append s = { s with entries := s.entries ++ l } := by
  induction l generalizing s with
  | nil => simp
  | cons e rest ih =>
      obtain ⟨hs, _, hlt⟩ := List.pairwise_append.1 h
      have hnew : s.isNew e.uid = true :=
        (isNew_iff hs e.uid).2 fun x hx => hlt x hx e List.mem_cons_self
      have happend : s.append e = { s with entries := s.entries ++ [e] } := if_pos hnew
      rw [List.foldl_cons, happend, ih (by simpa using h)]
      simp

end Snapshot

/-! ## Catching up -/

namespace Mailbox

/-- The message of an entry, if it has been changed since the entry was made. -/
def newer? (m : Mailbox) (e : SnapshotEntry) : Option Message :=
  (m.get? e.uid).filter fun r => decide (e.modseq.val < r.modseq.val)

/-- The entry as it catches up with its message. -/
def refresh (m : Mailbox) (e : SnapshotEntry) : SnapshotEntry :=
  match m.newer? e with
  | some r => e.takeIn r
  | none => e

/-- The messages that a frozen view does not know. -/
def arrived (s : Snapshot) (m : Mailbox) : List Message :=
  m.store.messages.filter fun r => s.isNew r.uid

/-- The entries of a frozen view once it has caught up. -/
def caughtUp (s : Snapshot) (m : Mailbox) : List SnapshotEntry :=
  (s.entries.filter fun e => (m.get? e.uid).isSome).map m.refresh ++
    (m.arrived s).map .ofMessage

/-- The entry shows other flags than its message, the mark of a recent message apart. -/
def differs (m : Mailbox) (e : SnapshotEntry) : Bool :=
  (m.newer? e).any fun r => decide (e.flags ≠ e.adopt r.flags)

variable {s : Snapshot} {m : Mailbox}

theorem newer?_eq_some (hd : m.store.Distinct) {e : SnapshotEntry} {r : Message} :
    m.newer? e = some r ↔
      r ∈ m.store.messages ∧ r.uid = e.uid ∧ e.modseq.val < r.modseq.val := by
  unfold newer? get?
  rw [Option.filter_eq_some_iff, MessageStore.get?_eq_some hd, decide_eq_true_eq, and_assoc]

@[simp] theorem refresh_uid (m : Mailbox) (e : SnapshotEntry) : (m.refresh e).uid = e.uid := by
  unfold refresh
  split <;> rfl

@[simp] theorem refresh_size (m : Mailbox) (e : SnapshotEntry) : (m.refresh e).size = e.size := by
  unfold refresh
  split <;> rfl

@[simp] theorem refresh_envelope (m : Mailbox) (e : SnapshotEntry) :
    (m.refresh e).envelope = e.envelope := by
  unfold refresh
  split <;> rfl

theorem ascending_caughtUp (h : Ascending SnapshotEntry.uid s.entries) (hd : m.store.Distinct) :
    Ascending SnapshotEntry.uid (m.caughtUp s) := by
  refine Ascending.append ((h.filter _).map fun e _ => refresh_uid m e)
    (Ascending.map (hd.filter _) fun r _ => rfl) ?_
  intro a ha b hb
  obtain ⟨e, he, rfl⟩ := List.mem_map.1 ha
  obtain ⟨r, hr, rfl⟩ := List.mem_map.1 hb
  have hnew := (List.mem_filter.1 hr).2
  rw [refresh_uid]
  exact (Snapshot.isNew_iff h r.uid).1 hnew e (List.mem_filter.1 he).1

theorem vanished_iff {e : SnapshotEntry} (he : e ∈ s.entries) :
    e.uid ∈ (m.changesSince s).vanished ↔ (m.get? e.uid).isNone = true := by
  unfold changesSince
  rw [List.mem_map]
  constructor
  · rintro ⟨x, hx, hu⟩
    rw [← hu]
    exact (List.mem_filter.1 hx).2
  · intro hnone
    exact ⟨e, List.mem_filter.2 ⟨he, hnone⟩, rfl⟩

theorem removeWhere_vanished (s : Snapshot) (m : Mailbox) :
    s.removeWhere (fun uid => decide (uid ∈ (m.changesSince s).vanished)) =
      s.removeWhere fun uid => (m.get? uid).isNone := by
  have hgone : ∀ e ∈ s.entries, decide (e.uid ∈ (m.changesSince s).vanished) =
      (m.get? e.uid).isNone := fun e he => by
    rw [Bool.eq_iff_iff, decide_eq_true_eq, vanished_iff he]
  have hremoved : ∀ (l : List SnapshotEntry), (∀ e ∈ l, e ∈ s.entries) → ∀ i,
      Snapshot.removedFrom (fun uid => decide (uid ∈ (m.changesSince s).vanished)) i l =
        Snapshot.removedFrom (fun uid => (m.get? uid).isNone) i l := by
    intro l hl
    induction l with
    | nil => exact fun _ => rfl
    | cons e rest ih =>
        obtain ⟨he, hrest⟩ := List.forall_mem_cons.1 hl
        intro i
        unfold Snapshot.removedFrom
        rw [hgone e he, ih hrest, ih hrest]
  have hfilter : s.entries.filter (fun e => !decide (e.uid ∈ (m.changesSince s).vanished)) =
      s.entries.filter fun e => !(m.get? e.uid).isNone :=
    List.filter_congr fun e he => by rw [hgone e he]
  unfold Snapshot.removeWhere
  rw [hremoved _ fun _ he => he, hfilter]

theorem ascending_changed (h : Ascending SnapshotEntry.uid s.entries) (hd : m.store.Distinct) :
    Ascending Message.uid (m.changesSince s).changed := by
  refine List.pairwise_filterMap.2 (h.imp fun {a b} hab r hr r' hr' => ?_)
  have hu := ((newer?_eq_some hd).1 hr).2.1
  have hu' := ((newer?_eq_some hd).1 hr').2.1
  rw [hu, hu']
  exact hab

theorem refresh_eq (h : Ascending SnapshotEntry.uid s.entries) (hd : m.store.Distinct)
    {e : SnapshotEntry} (he : e ∈ s.entries) :
    (m.changesSince s).changed.foldl SnapshotEntry.takeInIf e = m.refresh e := by
  unfold refresh
  split
  · next r hr =>
    exact SnapshotEntry.foldl_takeInIf_of_mem (ascending_changed h hd)
      (List.mem_filterMap.2 ⟨e, he, hr⟩) ((newer?_eq_some hd).1 hr).2.1.symm
  · next hnone =>
    refine SnapshotEntry.foldl_takeInIf_of_none fun r hr hu => ?_
    obtain ⟨x, hx, hxr⟩ := List.mem_filterMap.1 hr
    have hxe : x = e := h.eq_of_uid_eq hx he (((newer?_eq_some hd).1 hxr).2.1.symm.trans hu)
    change m.newer? x = some r at hxr
    rw [hxe, hnone] at hxr
    cases hxr

theorem named_changed (h : Ascending SnapshotEntry.uid s.entries) (hd : m.store.Distinct) :
    ((s.removeWhere fun uid => (m.get? uid).isNone).2.adoptAll (m.changesSince s).changed).1 =
      (s.entries.filter m.differs).map (·.uid) := by
  have hpair {p : SnapshotEntry × Message}
      (hp : p ∈ s.entries.filterMap fun e => (m.newer? e).map (e, ·)) :
      p.1 ∈ s.entries ∧ m.newer? p.1 = some p.2 := by
    obtain ⟨e, he, hmap⟩ := List.mem_filterMap.1 hp
    obtain ⟨r, hr, rfl⟩ := Option.map_eq_some_iff.1 hmap
    exact ⟨he, hr⟩
  have hchanged : (m.changesSince s).changed =
      (s.entries.filterMap fun e => (m.newer? e).map (e, ·)).map (·.2) := by
    rw [List.map_filterMap]
    show s.entries.filterMap m.newer? = _
    congr 1
    funext e
    cases m.newer? e <;> rfl
  rw [hchanged, Snapshot.adoptAll_named (h.filter _)]
  · rw [List.filterMap_filterMap, ← List.filterMap_eq_map, List.filterMap_filter]
    congr 1
    funext e
    unfold differs
    cases m.newer? e with
    | none => rfl
    | some r => by_cases hflags : e.flags = e.adopt r.flags <;> simp [hflags]
  · exact fun p hp => ((newer?_eq_some hd).1 (hpair hp).2).2.1.symm
  · intro p hp
    obtain ⟨hr, hu, _⟩ := (newer?_eq_some hd).1 (hpair hp).2
    have hget := (MessageStore.get?_eq_some hd).2 ⟨hr, hu⟩
    exact List.mem_filter.2 ⟨(hpair hp).1, by simp [get?, hget]⟩
  · refine List.pairwise_filterMap.2 (h.imp fun {a b} hab p hp q hq heq => ?_)
    obtain ⟨_, _, rfl⟩ := Option.map_eq_some_iff.1 hp
    obtain ⟨_, _, rfl⟩ := Option.map_eq_some_iff.1 hq
    dsimp only at heq
    rw [heq] at hab
    exact Nat.lt_irrefl _ hab

theorem entries_appended (h : Ascending SnapshotEntry.uid s.entries) (hd : m.store.Distinct) :
    (m.changesSince s).appended.foldl Snapshot.append
      ((s.removeWhere fun uid => (m.get? uid).isNone).2.adoptAll (m.changesSince s).changed).2 =
        { s with entries := m.caughtUp s } := by
  have hremoved : (s.removeWhere fun uid => (m.get? uid).isNone).2.entries =
      s.entries.filter fun e => (m.get? e.uid).isSome :=
    List.filter_congr fun e _ => by simp
  have hrefreshed : (s.removeWhere fun uid => (m.get? uid).isNone).2.entries.map
      (fun e => (m.changesSince s).changed.foldl SnapshotEntry.takeInIf e) =
        (s.entries.filter fun e => (m.get? e.uid).isSome).map m.refresh := by
    rw [hremoved]
    exact List.map_congr_left fun e he => refresh_eq h hd (List.mem_filter.1 he).1
  have hasc : Ascending SnapshotEntry.uid
      (s.removeWhere fun uid => (m.get? uid).isNone).2.entries := h.filter _
  have hadopt := Snapshot.adoptAll_entries hasc (m.changesSince s).changed
  rw [hrefreshed] at hadopt
  rw [hadopt, Snapshot.foldl_append_spec (ascending_caughtUp h hd)]
  rfl

theorem isSome_of_differs {e : SnapshotEntry} (h : m.differs e = true) :
    (m.get? e.uid).isSome = true := by
  unfold differs newer? at h
  cases hget : m.get? e.uid with
  | none => simp [hget] at h
  | some r => rfl

/-- What catching up leaves of a view, and what it reports. -/
theorem catchUp_spec (h : Ascending SnapshotEntry.uid s.entries) (hd : m.store.Distinct) :
    (s.catchUp (m.changesSince s)).2 = { s with modseq := m.modseq, entries := m.caughtUp s } ∧
      (s.catchUp (m.changesSince s)).1.expunged =
        Snapshot.removedFrom (fun uid => (m.get? uid).isNone) 0 s.entries ∧
      (s.catchUp (m.changesSince s)).1.flagged.map (·.uid) =
        (s.entries.filter m.differs).map (·.uid) ∧
      (s.catchUp (m.changesSince s)).1.total? =
        if (m.arrived s).isEmpty then none else some (m.caughtUp s).length := by
  unfold Snapshot.catchUp
  rw [removeWhere_vanished]
  dsimp only
  rw [entries_appended h hd, named_changed h hd]
  refine ⟨rfl, rfl, ?_, ?_⟩
  · refine Snapshot.uids_views (ascending_caughtUp h hd) fun uid huid => ?_
    obtain ⟨e, he, rfl⟩ := List.mem_map.1 huid
    obtain ⟨he, hdiffers⟩ := List.mem_filter.1 he
    have hkept : e ∈ s.entries.filter fun e => (m.get? e.uid).isSome :=
      List.mem_filter.2 ⟨he, isSome_of_differs hdiffers⟩
    exact ⟨m.refresh e, List.mem_append_left _ (List.mem_map_of_mem hkept), refresh_uid m e⟩
  · simp [Snapshot.size, changesSince, arrived]

end Mailbox

end MailBridge

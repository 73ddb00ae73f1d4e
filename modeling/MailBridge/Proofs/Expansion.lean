import Mathlib.Data.Finset.Sort
import Mathlib.Data.Finset.Union
import Mathlib.Order.Interval.Finset.Nat
import MailBridge.Proofs.Views
import MailBridge.Session.Command

/-! # Sequence sets written out

Sets are resolved by the bounds of their items, and the greatest number of a set alone tells whether
it reaches beyond a view. Written out, a set is a finite set of numbers, and this is what a client
means by it: what is shown and what is found is the same as if every range had been written out.
-/

namespace MailBridge

namespace SequenceItem

/-- The numbers of an item, written out. -/
def expansion (largest : NzNumber) : SequenceItem → Finset Nat
  | single n => {(n.resolve largest).val}
  | range a b =>
      Finset.Icc (a.resolve largest).val (b.resolve largest).val ∪
        Finset.Icc (b.resolve largest).val (a.resolve largest).val

variable {largest : NzNumber}

theorem contains_eq_true {n : Nat} {item : SequenceItem} : item.contains largest n = true ↔
    (item.bounds largest).1 ≤ n ∧ n ≤ (item.bounds largest).2 := by
  simp [contains]

theorem contains_iff {n : Nat} (item : SequenceItem) :
    item.contains largest n = true ↔ n ∈ item.expansion largest := by
  rw [contains_eq_true]
  cases item with
  | single k =>
      rw [expansion, Finset.mem_singleton, eq_comm, Nat.eq_iff_le_and_ge]
      rfl
  | range a b =>
      simp only [bounds, expansion, Finset.mem_union, Finset.mem_Icc]
      omega

theorem greatest_mem (item : SequenceItem) :
    (item.bounds largest).2 ∈ item.expansion largest := by
  cases item with
  | single k => simp [bounds, expansion]
  | range a b =>
      simp only [bounds, expansion, Finset.mem_union, Finset.mem_Icc]
      omega

theorem le_greatest {n : Nat} {item : SequenceItem} (h : n ∈ item.expansion largest) :
    n ≤ (item.bounds largest).2 := by
  have hbounds := contains_eq_true.1 ((contains_iff item).2 h)
  exact hbounds.2

end SequenceItem

namespace SequenceSet

variable {largest : NzNumber}

def expansion (set : SequenceSet) (largest : NzNumber) : Finset Nat :=
  (List.toFinset set).biUnion (·.expansion largest)

theorem mem_expansion {set : SequenceSet} {n : Nat} :
    n ∈ set.expansion largest ↔ ∃ item ∈ set, n ∈ item.expansion largest := by
  rw [expansion, Finset.mem_biUnion]
  simp only [List.mem_toFinset]

theorem contains_iff {n : Nat} (set : SequenceSet) :
    set.contains largest n = true ↔ n ∈ set.expansion largest := by
  rw [mem_expansion, contains, List.any_eq_true]
  simp only [SequenceItem.contains_iff]

theorem lt_greatest_iff {k : Nat} (set : SequenceSet) :
    k < set.greatest largest ↔ ∃ n ∈ set.expansion largest, k < n := by
  have hfold (l : List SequenceItem) (start : Nat) :
      k < l.foldl (fun m item => max m (item.bounds largest).2) start ↔
        k < start ∨ ∃ item ∈ l, k < (item.bounds largest).2 := by
    induction l generalizing start with
    | nil => simp
    | cons item rest ih =>
        rw [List.foldl_cons, ih, lt_max_iff, List.exists_mem_cons_iff, or_assoc]
  rw [greatest, hfold]
  constructor
  · rintro (hzero | ⟨item, hitem, hlt⟩)
    · exact absurd hzero (Nat.not_lt_zero k)
    · exact ⟨_, mem_expansion.2 ⟨item, hitem, item.greatest_mem⟩, hlt⟩
  · rintro ⟨n, hn, hlt⟩
    obtain ⟨item, hitem, hn⟩ := mem_expansion.1 hn
    exact .inr ⟨item, hitem, Nat.lt_of_lt_of_le hlt (SequenceItem.le_greatest hn)⟩

theorem pos_of_mem_expansion {set : SequenceSet} {n : Nat} (h : n ∈ set.expansion largest) :
    0 < n := by
  obtain ⟨item, _, hn⟩ := mem_expansion.1 h
  cases item with
  | single k =>
      rw [SequenceItem.expansion, Finset.mem_singleton] at hn
      have := (k.resolve largest).pos
      omega
  | range a b =>
      simp only [SequenceItem.expansion, Finset.mem_union, Finset.mem_Icc] at hn
      have := (a.resolve largest).pos
      have := (b.resolve largest).pos
      omega

/-- A range that is reversed once the star is resolved, and an item that overlaps it. -/
example : expansion [.range .star (.exact .one), .single .star] ⟨3, by decide, by decide⟩ =
    {1, 2, 3} := by decide

end SequenceSet

namespace SearchKey

mutual

/-- Whether a message is asked for by a key, as it is read with all sets written out. -/
def Asks (largest : Largest) (v : MessageView) : SearchKey → Prop
  | all => True
  | flag f => f ∈ v.flags
  | uid set => v.uid.val ∈ set.expansion largest.uid
  | seqnum set => v.seqnum.val ∈ set.expansion largest.seqnum
  | larger size => size < v.size
  | smaller size => v.size < size
  | every keys => AsksEvery largest v keys
  | either left right => Asks largest v left ∨ Asks largest v right
  | negated key => ¬ Asks largest v key

def AsksEvery (largest : Largest) (v : MessageView) : List SearchKey → Prop
  | [] => True
  | key :: rest => Asks largest v key ∧ AsksEvery largest v rest

end

variable {largest : Largest} {v : MessageView}

mutual

theorem finds_iff (key : SearchKey) : key.finds largest v = true ↔ key.Asks largest v := by
  cases key with
  | all => simp [finds, Asks]
  | flag f => simp [finds, Asks]
  | uid set => exact set.contains_iff
  | seqnum set => exact set.contains_iff
  | larger size => simp [finds, Asks]
  | smaller size => simp [finds, Asks]
  | every keys => exact findsEvery_iff keys
  | either left right => simp [finds, Asks, finds_iff left, finds_iff right]
  | negated key => simp [finds, Asks, ← finds_iff key]

theorem findsEvery_iff (keys : List SearchKey) :
    findsEvery largest v keys = true ↔ AsksEvery largest v keys := by
  cases keys with
  | nil => simp [findsEvery, AsksEvery]
  | cons key rest => simp [findsEvery, AsksEvery, finds_iff key, findsEvery_iff rest]

end

end SearchKey

/-! ## Numbered views -/

namespace Selection

variable {m : SharedMailbox} {s : Selection}

/-- As a sequence number, the star stands for the number of messages in view, and for 1 if there
are none. -/
theorem largest_seqnum (hsize : s.snapshot.size ≤ maxWord) :
    s.largest.seqnum.val = max 1 s.snapshot.size := by
  unfold largest Snapshot.greatestSeqnum?
  unfold Snapshot.size at hsize ⊢
  cases hentries : s.snapshot.entries with
  | nil => rfl
  | cons first rest =>
      rw [hentries, List.length_cons] at hsize
      have hval : (Seqnum.ofIndex rest.length).val = rest.length + 1 :=
        Seqnum.ofIndex_val (by omega)
      simpa using hval

theorem largest_uid (s : Selection) :
    s.largest.uid.val = (s.snapshot.entries.getLast?.map fun e => e.uid.val).getD 1 := by
  unfold largest Snapshot.greatestUid?
  cases s.snapshot.entries.getLast? <;> rfl

/-- A list shows exactly the messages of the view that are asked for, in the order of the view. -/
structure Lists (m : SharedMailbox) (s : Selection) (asked : MessageView → Prop)
    (views : List MessageView) : Prop where
  ascending : views.Pairwise fun v w => v.seqnum.val < w.seqnum.val
  mem_iff : ∀ v, v ∈ views ↔
    (∃ e, s.snapshot.get? v.seqnum = some e ∧ v = view m v.seqnum e) ∧ asked v

/-- All messages of the view, as a session is shown them. -/
def views (m : SharedMailbox) (s : Selection) : List MessageView :=
  s.snapshot.numbered.map fun (n, e) => view m n e

@[simp] theorem seqnum_view (m : SharedMailbox) (n : Seqnum) (e : SnapshotEntry) :
    (view m n e).seqnum = n := by
  unfold view
  cases m.mailbox.get? e.uid <;> rfl

@[simp] theorem uid_view (m : SharedMailbox) (n : Seqnum) (e : SnapshotEntry) :
    (view m n e).uid = e.uid := by
  unfold view
  cases m.mailbox.get? e.uid <;> rfl

theorem mem_views (hsize : s.snapshot.size ≤ maxWord) {v : MessageView} :
    v ∈ views m s ↔ ∃ e, s.snapshot.get? v.seqnum = some e ∧ v = view m v.seqnum e := by
  rw [views, List.mem_map]
  constructor
  · rintro ⟨⟨n, e⟩, hmem, rfl⟩
    have hget := (Snapshot.mem_numbered hsize).1 hmem
    exact ⟨e, by rw [seqnum_view, hget], by rw [seqnum_view]⟩
  · rintro ⟨e, hget, heq⟩
    exact ⟨(v.seqnum, e), (Snapshot.mem_numbered hsize).2 hget, heq.symm⟩

theorem lists_filter (hsize : s.snapshot.size ≤ maxWord) {test : MessageView → Bool}
    {asked : MessageView → Prop} (h : ∀ v, test v = true ↔ asked v) :
    Lists m s asked ((views m s).filter test) where
  ascending := by
    refine List.Pairwise.filter _ (List.pairwise_map.2 ?_)
    refine (Snapshot.ascending_numbered hsize).imp fun hlt => ?_
    simpa only [seqnum_view] using hlt
  mem_iff v := by rw [List.mem_filter, mem_views hsize, h]

/-! ## Commands -/

variable (hvalid : m.mailbox.summary.validity = s.snapshot.validity)

include hvalid

theorem search_answer (key : SearchKey) :
    (search key m s).answer = .ok ((views m s).filter (key.finds s.largest)) := by
  unfold search whileValid
  rw [if_pos hvalid]
  rfl

/-- Messages are shown by their UIDs as if they were searched for. -/
theorem fetch_uids_answer (set : SequenceSet) : (fetch (.uids set) m s).answer =
    .ok ((views m s).filter (SearchKey.finds s.largest · (.uid set))) := by
  unfold fetch whileValid
  rw [if_pos hvalid, views, List.filter_map]
  simp only [Function.comp_def, SearchKey.finds, uid_view]
  rfl

theorem fetch_seqnums_answer (set : SequenceSet) : (fetch (.seqnums set) m s).answer =
    if s.snapshot.size < set.greatest s.largest.seqnum then
      .error (.mailbox (.seqnumNotFound s.mailbox
        ((Seqnum.ofNat? (set.greatest s.largest.seqnum)).getD .greatest)))
    else .ok ((views m s).filter (SearchKey.finds s.largest · (.seqnum set))) := by
  unfold fetch whileValid targets
  rw [if_pos hvalid]
  by_cases hbeyond : s.snapshot.size < set.greatest s.largest.seqnum
  · simp only [hbeyond, if_true]
    rfl
  · simp only [hbeyond, if_false]
    rw [views, List.filter_map]
    simp only [Function.comp_def, SearchKey.finds, seqnum_view]
    rfl

omit hvalid

/-- Commands take sets and searches as if they were written out. -/
structure TakesWrittenOut (m : SharedMailbox) (s : Selection) : Prop where
  seqnums_beyond : ∀ set : SequenceSet,
    (∃ n, (fetch (.seqnums set) m s).answer =
      .error (.mailbox (.seqnumNotFound s.mailbox n))) ↔
    ∃ n ∈ set.expansion s.largest.seqnum, s.snapshot.size < n
  seqnums_shown : ∀ set : SequenceSet,
    (∀ n ∈ set.expansion s.largest.seqnum, n ≤ s.snapshot.size) →
    ∃ shown, (fetch (.seqnums set) m s).answer = .ok shown ∧
      shown.map (·.seqnum.val) = (set.expansion s.largest.seqnum).sort (· ≤ ·) ∧
      Lists m s (fun v => v.seqnum.val ∈ set.expansion s.largest.seqnum) shown
  uids_shown : ∀ set : SequenceSet,
    ∃ shown, (fetch (.uids set) m s).answer = .ok shown ∧
      Lists m s (fun v => v.uid.val ∈ set.expansion s.largest.uid) shown
  found : ∀ key : SearchKey,
    ∃ shown, (search key m s).answer = .ok shown ∧ Lists m s (key.Asks s.largest) shown

theorem Lists.seqnums_eq {numbers : Finset Nat} {shown : List MessageView}
    (h : Lists m s (fun v => v.seqnum.val ∈ numbers) shown)
    (hin : ∀ n ∈ numbers, 0 < n ∧ n ≤ s.snapshot.size) (hsize : s.snapshot.size ≤ maxWord) :
    shown.map (·.seqnum.val) = numbers.sort (· ≤ ·) := by
  have hascending : (shown.map (·.seqnum.val)).Pairwise (· < ·) := List.pairwise_map.2 h.ascending
  have hsorted : (numbers.sort (· ≤ ·)).Pairwise (· < ·) := numbers.sortedLT_sort.pairwise
  refine eq_of_mem_iff Nat.lt_asymm hascending hsorted fun n => ?_
  rw [Finset.mem_sort, List.mem_map]
  constructor
  · rintro ⟨v, hv, rfl⟩
    exact ((h.mem_iff v).1 hv).2
  · intro hn
    obtain ⟨hpos, hle⟩ := hin n hn
    let number : Seqnum := ⟨n, hpos, Nat.le_trans hle hsize⟩
    have hlt : number.toIndex < s.snapshot.entries.length := Nat.sub_one_lt_of_le hpos hle
    have hentry : s.snapshot.get? number = some s.snapshot.entries[number.toIndex] :=
      List.getElem?_eq_getElem hlt
    refine ⟨view m number s.snapshot.entries[number.toIndex], ?_, by rw [seqnum_view]⟩
    exact (h.mem_iff _).2 ⟨⟨_, by rw [seqnum_view, hentry], by rw [seqnum_view]⟩,
      by rwa [seqnum_view]⟩

/-- As long as the UIDs in view are not void, and there are numbers for all positions, resolving
sets without writing them out makes no difference. Once the UIDs are void, every command says so. -/
theorem sets_resolved_as_written_out (m : SharedMailbox) (s : Selection)
    (hsize : s.snapshot.size ≤ maxWord) :
    (s.largest.seqnum.val = max 1 s.snapshot.size ∧
      s.largest.uid.val = (s.snapshot.entries.getLast?.map fun e => e.uid.val).getD 1) ∧
    (m.mailbox.summary.validity = s.snapshot.validity → TakesWrittenOut m s) ∧
    (m.mailbox.summary.validity ≠ s.snapshot.validity →
      (∀ set, (fetch set m s).answer = .error (.invalidated s.mailbox)) ∧
      ∀ key, (search key m s).answer = .error (.invalidated s.mailbox)) := by
  refine ⟨⟨largest_seqnum hsize, s.largest_uid⟩, fun hvalid => ?_, fun hvoid => ?_⟩
  · have hlists (key : SearchKey) : Lists m s (key.Asks s.largest)
        ((views m s).filter (key.finds s.largest)) := lists_filter hsize fun v => key.finds_iff
    refine ⟨fun set => ?_, fun set hin => ?_, fun set => ?_, fun key => ?_⟩
    · rw [fetch_seqnums_answer hvalid, ← SequenceSet.lt_greatest_iff]
      split
      · next hbeyond => exact iff_of_true ⟨_, rfl⟩ hbeyond
      · next hwithin => exact iff_of_false (fun ⟨_, herror⟩ => nomatch herror) hwithin
    · have hwithin : ¬ s.snapshot.size < set.greatest s.largest.seqnum := by
        rw [SequenceSet.lt_greatest_iff]
        rintro ⟨n, hn, hlt⟩
        exact Nat.not_lt.2 (hin n hn) hlt
      have hshown := hlists (.seqnum set)
      refine ⟨_, by rw [fetch_seqnums_answer hvalid, if_neg hwithin], ?_, hshown⟩
      exact hshown.seqnums_eq
        (fun n hn => ⟨SequenceSet.pos_of_mem_expansion hn, hin n hn⟩) hsize
    · exact ⟨_, fetch_uids_answer hvalid set, hlists (.uid set)⟩
    · exact ⟨_, search_answer hvalid key, hlists key⟩
  · constructor
    · intro set
      unfold fetch whileValid
      rw [if_neg hvoid]
      rfl
    · intro key
      unfold search whileValid
      rw [if_neg hvoid]
      rfl

/-! ## Examples -/

def pair : SharedMailbox where
  mailbox := (((Mailbox.create "INBOX" 0).receive { remoteId := "a" }).2.receive
    { remoteId := "b" }).2

def viewOf (m : SharedMailbox) : Selection := ⟨m.mailbox.name, m.mailbox.snapshot, false⟩

/-- The first message and all up to the last, from behind. -/
def everything : SequenceSet := [.single (.exact .one), .range .star (.exact .one)]

/-- Two overlapping items show each message once. -/
theorem sets_resolved_as_written_out_of_pair : (viewOf pair).snapshot.size ≤ maxWord ∧
    pair.mailbox.summary.validity = (viewOf pair).snapshot.validity ∧
    ∃ shown, (fetch (.seqnums everything) pair (viewOf pair)).answer = .ok shown ∧
      shown.map (·.seqnum.val) = [1, 2] := by
  have hsize : (viewOf pair).snapshot.size ≤ maxWord := by decide +kernel
  have hvalid : pair.mailbox.summary.validity = (viewOf pair).snapshot.validity := by
    decide +kernel
  obtain ⟨_, hvalidly, _⟩ := sets_resolved_as_written_out pair (viewOf pair) hsize
  have hnumbers : everything.expansion (viewOf pair).largest.seqnum =
      [1, 2].toFinset := by decide +kernel
  have hin : ∀ n ∈ everything.expansion (viewOf pair).largest.seqnum,
      n ≤ (viewOf pair).snapshot.size := by
    rw [hnumbers]
    decide +kernel
  obtain ⟨shown, hshown, hseqnums, _⟩ := (hvalidly hvalid).seqnums_shown everything hin
  refine ⟨hsize, hvalid, shown, hshown, ?_⟩
  rw [hseqnums, hnumbers, List.toFinset_sort _ (by decide)]
  decide

def renewed : SharedMailbox := (pair.invalidate 1000).2

/-- A view with one message more than there are sequence numbers. -/
def crowded : Selection where
  mailbox := "INBOX"
  snapshot :=
    { pair.mailbox.snapshot with
      entries :=
        List.replicate (maxWord + 1) (.ofMessage (.arrive { remoteId := "a" } .least .zero)) }
  isReadOnly := false

theorem filter_saturated {last : Nat} (hpos : 0 < last) :
    ((List.range (last + 1)).map fun k => max 1 (min (k + 1) last)).filter (decide <| · = last) =
      [last, last] := by
  obtain ⟨k, rfl⟩ := Nat.exists_eq_succ_of_ne_zero (Nat.ne_of_gt hpos)
  have hbelow : ((List.range k).map fun i => max 1 (min (i + 1) (k + 1))).filter
      (decide <| · = k + 1) = [] := by
    simp only [List.filter_eq_nil_iff, List.mem_map, List.mem_range, decide_eq_true_eq]
    omega
  rw [List.range_succ, List.range_succ, List.map_append, List.map_append, List.filter_append,
    List.filter_append, hbelow]
  simp

theorem seqnums_views (m : SharedMailbox) (s : Selection) : (views m s).map (·.seqnum.val) =
    (List.range s.snapshot.size).map fun k => max 1 (min (k + 1) maxWord) := by
  have hnumbers := Snapshot.seqnums_numberFrom 0 s.snapshot.entries
  rw [← List.range_eq_range'] at hnumbers
  rw [views, List.map_map]
  simp only [Function.comp_def, seqnum_view]
  exact hnumbers

/-- If there is one message more than there are numbers, two of them have the greatest number. -/
theorem shown_twice (hvalid : m.mailbox.summary.validity = s.snapshot.validity)
    (hsize : s.snapshot.size = maxWord + 1) :
    ∃ shown, (fetch (.seqnums [.single (.exact .greatest)]) m s).answer = .ok shown ∧
      shown.map (·.seqnum.val) = [maxWord, maxWord] := by
  have hgreatest : SequenceSet.greatest [.single (.exact .greatest)] s.largest.seqnum =
      maxWord := Nat.zero_max _
  have hwithin : ¬ s.snapshot.size <
      SequenceSet.greatest [.single (.exact .greatest)] s.largest.seqnum := by
    rw [hsize, hgreatest]
    decide
  have hasked : (SearchKey.finds s.largest · (.seqnum [.single (.exact .greatest)])) =
      (decide <| · = maxWord) ∘ fun v : MessageView => v.seqnum.val := by
    funext v
    rw [Bool.eq_iff_iff, SearchKey.finds_iff]
    simp [SearchKey.Asks, SequenceSet.mem_expansion, SequenceItem.expansion,
      SequenceNumber.resolve, NzNumber.greatest]
  refine ⟨_, by rw [fetch_seqnums_answer hvalid, if_neg hwithin], ?_⟩
  rw [hasked, ← List.filter_map, seqnums_views, hsize]
  exact filter_saturated (by decide)

/-- Messages are not shown by their UIDs any more once these are void, and the greatest sequence
number is that of two messages if there is a message more than there are numbers. -/
theorem sets_of_void_or_crowded_view :
    (∀ e ∈ (viewOf pair).snapshot.entries,
      e.uid.val ∈ everything.expansion (viewOf pair).largest.uid) ∧
    (fetch (.uids everything) renewed (viewOf pair)).answer = .error (.invalidated "INBOX") ∧
    ∃ shown,
      (fetch (.seqnums [.single (.exact .greatest)]) pair crowded).answer = .ok shown ∧
      shown.map (·.seqnum.val) = [maxWord, maxWord] := by
  have hvalid : pair.mailbox.summary.validity = crowded.snapshot.validity := by decide +kernel
  exact ⟨by decide +kernel, rfl, shown_twice hvalid List.length_replicate⟩

end Selection

end MailBridge

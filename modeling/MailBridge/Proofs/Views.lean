import MailBridge.Proofs.Ascending
import MailBridge.Session.Changes

/-! # Frozen views

An entry of a view is found by its position, which counts as its sequence number, and by its UID if
the UIDs ascend. New to a view are the UIDs above all of its own.
-/

namespace MailBridge

namespace Snapshot

variable {s : Snapshot}

theorem isNew_iff (h : Ascending SnapshotEntry.uid s.entries) (uid : Uid) :
    s.isNew uid = true ↔ ∀ e ∈ s.entries, e.uid.val < uid.val := by
  unfold isNew greatestUid?
  cases hlast : s.entries.getLast? with
  | none =>
      rw [List.getLast?_eq_none_iff] at hlast
      simp [hlast]
  | some last =>
      obtain ⟨front, hfront⟩ := List.getLast?_eq_some_iff.1 hlast
      simp only [Option.map_some, decide_eq_true_eq]
      constructor
      · intro hlt e he
        rw [hfront] at he h
        rcases List.mem_append.1 he with he | he
        · have := (List.pairwise_append.1 h).2.2 e he last List.mem_cons_self
          omega
        · rw [List.mem_singleton.1 he]
          exact hlt
      · intro hall
        exact hall last (by simp [hfront])

/-! ## Numbered entries -/

theorem mem_numberFrom {i : Nat} {l : List SnapshotEntry} {n : Seqnum} {e : SnapshotEntry} :
    (n, e) ∈ numberFrom i l ↔ ∃ k, l[k]? = some e ∧ n = .ofIndex (i + k) := by
  induction l generalizing i with
  | nil => simp [numberFrom]
  | cons first rest ih =>
      rw [numberFrom, List.mem_cons, ih, Prod.mk.injEq]
      constructor
      · rintro (⟨rfl, rfl⟩ | ⟨k, hk, rfl⟩)
        · exact ⟨0, rfl, rfl⟩
        · exact ⟨k + 1, hk, by rw [Nat.add_right_comm, Nat.add_assoc]⟩
      · rintro ⟨k, hk, rfl⟩
        cases k with
        | zero => exact .inl ⟨rfl, (Option.some.inj hk).symm⟩
        | succ k => exact .inr ⟨k, hk, by rw [Nat.add_right_comm, Nat.add_assoc]⟩

/-- An entry has the number of its position, as long as there are numbers for all positions. -/
theorem mem_numbered (hsize : s.size ≤ maxWord) {n : Seqnum} {e : SnapshotEntry} :
    (n, e) ∈ s.numbered ↔ s.get? n = some e := by
  rw [numbered, mem_numberFrom]
  constructor
  · rintro ⟨k, hk, rfl⟩
    have hlt : k < s.size := (List.getElem?_eq_some_iff.1 hk).1
    rw [get?, Nat.zero_add, Seqnum.toIndex_ofIndex (Nat.lt_of_lt_of_le hlt hsize)]
    exact hk
  · intro hget
    exact ⟨n.toIndex, hget, by rw [Nat.zero_add, Seqnum.ofIndex_toIndex]⟩

theorem monotone_numberFrom (i : Nat) (l : List SnapshotEntry) :
    (numberFrom i l).Pairwise fun a b => a.1.val ≤ b.1.val := by
  induction l generalizing i with
  | nil => exact .nil
  | cons first rest ih =>
      refine List.pairwise_cons.2 ⟨?_, ih (i + 1)⟩
      rintro ⟨n, e⟩ hmem
      obtain ⟨k, hk, rfl⟩ := mem_numberFrom.1 hmem
      show max 1 (min (i + 1) maxWord) ≤ max 1 (min (i + 1 + k + 1) maxWord)
      omega

theorem ascending_numberFrom {i : Nat} {l : List SnapshotEntry} (h : i + l.length ≤ maxWord) :
    (numberFrom i l).Pairwise fun a b => a.1.val < b.1.val := by
  induction l generalizing i with
  | nil => exact .nil
  | cons first rest ih =>
      rw [List.length_cons] at h
      refine List.pairwise_cons.2 ⟨?_, ih (by omega)⟩
      rintro ⟨n, e⟩ hmem
      obtain ⟨k, hk, rfl⟩ := mem_numberFrom.1 hmem
      have hlt := (List.getElem?_eq_some_iff.1 hk).1
      rw [Seqnum.ofIndex_val (by omega), Seqnum.ofIndex_val (by omega)]
      omega

theorem ascending_numbered (hsize : s.size ≤ maxWord) :
    s.numbered.Pairwise fun a b => a.1.val < b.1.val :=
  ascending_numberFrom (by rw [Nat.zero_add]; exact hsize)

theorem numbered_filter_only {n : Seqnum} {e : SnapshotEntry} (hsize : s.size ≤ maxWord)
    (hget : s.get? n = some e) :
    s.numbered.filter (fun t => decide (t.1.val = n.val)) = [(n, e)] := by
  refine eq_of_mem_iff Nat.lt_asymm ((ascending_numbered hsize).filter _)
    (List.pairwise_singleton _ _) ?_
  rintro ⟨k, x⟩
  simp only [List.mem_filter, mem_numbered hsize, decide_eq_true_eq, List.mem_singleton,
    Prod.mk.injEq]
  constructor
  · rintro ⟨hx, hk⟩
    obtain rfl := Seqnum.ext_val hk
    exact ⟨rfl, Option.some.inj (hx.symm.trans hget)⟩
  · rintro ⟨rfl, rfl⟩
    exact ⟨hget, rfl⟩

theorem seqnums_numberFrom (i : Nat) (l : List SnapshotEntry) :
    (numberFrom i l).map (·.1.val) =
      (List.range' i l.length).map fun k => max 1 (min (k + 1) maxWord) := by
  induction l generalizing i with
  | nil => rfl
  | cons first rest ih =>
      rw [numberFrom, List.map_cons, ih, List.length_cons, List.range'_succ, List.map_cons]
      rfl

theorem entries_numberFrom (i : Nat) (l : List SnapshotEntry) :
    (numberFrom i l).map (·.2) = l := by
  induction l generalizing i with
  | nil => rfl
  | cons e rest ih => simp [numberFrom, ih]

theorem entries_numbered (s : Snapshot) : s.numbered.map (·.2) = s.entries :=
  entries_numberFrom 0 s.entries

theorem mem_entries {t : Seqnum × SnapshotEntry} (h : t ∈ s.numbered) : t.2 ∈ s.entries := by
  rw [← s.entries_numbered]
  exact List.mem_map_of_mem h

theorem ascending_numbered_uids (h : Ascending SnapshotEntry.uid s.entries) :
    Ascending (fun t : Seqnum × SnapshotEntry => t.2.uid) s.numbered := by
  rw [← s.entries_numbered, Ascending, List.pairwise_map] at h
  exact h

/-! ## What is shown of an entry -/

theorem view?_eq_some (h : Ascending SnapshotEntry.uid s.entries) {uid : Uid} {v : MessageView} :
    s.view? uid = some v ↔
      ∃ e, s.get? v.seqnum = some e ∧ e.uid = uid ∧ v = .ofEntry v.seqnum e := by
  constructor
  · intro hview
    obtain ⟨n, hn, hget⟩ := Option.bind_eq_some_iff.1 hview
    obtain ⟨e, he, rfl⟩ := Option.map_eq_some_iff.1 hget
    obtain ⟨i, hi, rfl⟩ := Option.map_eq_some_iff.1 hn
    obtain ⟨x, hx, hu⟩ := Option.map_eq_some_iff.1 (h.placeOf_eq_some.1 hi)
    have hlt : i < maxWord :=
      Nat.lt_of_lt_of_le (List.getElem?_eq_some_iff.1 hx).1 h.length_le
    have hsame : s.get? (.ofIndex i) = some x := by
      rw [get?, Seqnum.toIndex_ofIndex hlt, hx]
    obtain rfl : e = x := Option.some.inj (he.symm.trans hsame)
    exact ⟨e, hsame, hu, rfl⟩
  · rintro ⟨e, hget, rfl, hv⟩
    have hposition : s.position? e.uid = some v.seqnum.toIndex :=
      h.placeOf_eq_some.2 (congrArg (Option.map _) hget)
    simp [view?, seqnumOf?, hposition, Seqnum.ofIndex_toIndex, hget, ← hv]

theorem view?_of_mem (h : Ascending SnapshotEntry.uid s.entries) {e : SnapshotEntry}
    (he : e ∈ s.entries) : ∃ view, s.view? e.uid = some view ∧ view.uid = e.uid := by
  obtain ⟨i, hi⟩ := List.getElem?_of_mem he
  have hlt : i < maxWord :=
    Nat.lt_of_lt_of_le (List.getElem?_eq_some_iff.1 hi).1 h.length_le
  have hget : s.get? (.ofIndex i) = some e := by rw [get?, Seqnum.toIndex_ofIndex hlt, hi]
  exact ⟨.ofEntry (.ofIndex i) e, (view?_eq_some h).2 ⟨e, hget, rfl, rfl⟩, rfl⟩

theorem uids_views (h : Ascending SnapshotEntry.uid s.entries) {uids : List Uid}
    (hmem : ∀ uid ∈ uids, ∃ e ∈ s.entries, e.uid = uid) :
    (uids.filterMap s.view?).map (·.uid) = uids := by
  induction uids with
  | nil => rfl
  | cons uid rest ih =>
      obtain ⟨⟨e, he, rfl⟩, hrest⟩ := List.forall_mem_cons.1 hmem
      obtain ⟨view, hview, huid⟩ := view?_of_mem h he
      rw [List.filterMap_cons, hview, List.map_cons, huid, ih hrest]

end Snapshot

end MailBridge

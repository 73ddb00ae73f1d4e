import MailBridge.Identifier
import MailBridge.Proofs.OrderedLaws

/-! # Lists in strictly ascending order of UIDs

The messages of a mailbox and the entries of a frozen view are searched by their UIDs from behind.
If the UIDs ascend strictly, the search finds what is there, and the list is determined by its
members.
-/

namespace MailBridge

universe u v

/-- The UIDs of the list ascend, none of them repeated. -/
def Ascending {α : Type u} (uid : α → Uid) (l : List α) : Prop :=
  l.Pairwise fun a b => (uid a).val < (uid b).val

/-- The place where a search from behind ends. Frozen views and mailboxes search like this. -/
def placeOf {α : Type u} (uid : α → Uid) (l : List α) (sought : Uid) : Option Nat :=
  match l.findIdx fun a => decide (sought.val < (uid a).val) with
  | 0 => none
  | i + 1 => if l[i]?.map uid = some sought then some i else none

namespace Ascending

variable {α : Type u} {β : Type v} {uid : α → Uid} {l l' : List α}

theorem nil : Ascending uid [] := List.Pairwise.nil

theorem eq_of_uid_eq (h : Ascending uid l) {a b : α} (ha : a ∈ l) (hb : b ∈ l)
    (hab : uid a = uid b) : a = b := by
  induction l with
  | nil => cases ha
  | cons c rest ih =>
      obtain ⟨hc, hrest⟩ := List.pairwise_cons.1 h
      rcases List.mem_cons.1 ha with hac | har
      · rcases List.mem_cons.1 hb with hbc | hbr
        · rw [hac, hbc]
        · exact absurd (hc b hbr) (by rw [← hac, hab]; exact Nat.lt_irrefl _)
      · rcases List.mem_cons.1 hb with hbc | hbr
        · exact absurd (hc a har) (by rw [← hbc, hab]; exact Nat.lt_irrefl _)
        · exact ih hrest har hbr

theorem ext (h : Ascending uid l) (h' : Ascending uid l') (hmem : ∀ a, a ∈ l ↔ a ∈ l') :
    l = l' := eq_of_mem_iff Nat.lt_asymm h h' hmem

theorem filter (h : Ascending uid l) (p : α → Bool) : Ascending uid (l.filter p) :=
  List.Pairwise.filter p h

theorem sublist (h : Ascending uid l) (hs : l'.Sublist l) : Ascending uid l' :=
  List.Pairwise.sublist hs h

theorem map {f : α → β} {uid' : β → Uid} (h : Ascending uid l) (hf : ∀ a ∈ l, uid' (f a) = uid a) :
    Ascending uid' (l.map f) := by
  refine List.pairwise_map.2 (h.imp_of_mem fun {a b} ha hb hab => ?_)
  rw [hf a ha, hf b hb]
  exact hab

theorem append (h : Ascending uid l) (h' : Ascending uid l')
    (hlt : ∀ a ∈ l, ∀ b ∈ l', (uid a).val < (uid b).val) : Ascending uid (l ++ l') :=
  List.pairwise_append.2 ⟨h, h', hlt⟩

/-- UIDs are positive 32-bit numbers, so there are no more of them. -/
theorem length_le (h : Ascending uid l) : l.length ≤ maxWord := by
  -- each UID is above the number of members before it
  have key : ∀ (k : Nat) (l : List α), Ascending uid l → (∀ a ∈ l, k < (uid a).val) → k ≤ maxWord →
      l.length + k ≤ maxWord := by
    intro k l
    induction l generalizing k with
    | nil =>
        intro _ _ hk
        simpa using hk
    | cons a rest ih =>
        intro h hlow _
        obtain ⟨ha, hrest⟩ := List.pairwise_cons.1 h
        have hbound : (uid a).val ≤ maxWord := (uid a).le_maxWord
        have hka : k < (uid a).val := hlow a List.mem_cons_self
        have hrec := ih (k + 1) hrest (fun b hb => by have := ha b hb; omega) (by omega)
        simp only [List.length_cons]
        omega
  have := key 0 l h (fun a _ => (uid a).pos) (Nat.zero_le _)
  omega

theorem lt_of_lt (h : Ascending uid l) {i j : Nat} {a b : α} (ha : l[i]? = some a)
    (hb : l[j]? = some b) (hij : i < j) : (uid a).val < (uid b).val := by
  obtain ⟨hi, rfl⟩ := List.getElem?_eq_some_iff.1 ha
  obtain ⟨hj, rfl⟩ := List.getElem?_eq_some_iff.1 hb
  exact List.pairwise_iff_getElem.1 h i j hi hj hij

theorem place_eq (h : Ascending uid l) {i j : Nat} {a b : α} (ha : l[i]? = some a)
    (hb : l[j]? = some b) (hab : uid a = uid b) : i = j := by
  rcases Nat.lt_trichotomy i j with hij | hij | hji
  · exact absurd (h.lt_of_lt ha hb hij) (by rw [hab]; exact Nat.lt_irrefl _)
  · exact hij
  · exact absurd (h.lt_of_lt hb ha hji) (by rw [hab]; exact Nat.lt_irrefl _)

theorem set_eq_map (h : Ascending uid l) {i : Nat} {a : α} (hi : l[i]?.map uid = some (uid a)) :
    l.set i a = l.map fun b => if uid b = uid a then a else b := by
  obtain ⟨c, hc, hu⟩ := Option.map_eq_some_iff.1 hi
  refine List.ext_getElem? fun j => ?_
  rw [List.getElem?_set, List.getElem?_map]
  split
  · next hij =>
    subst hij
    rw [if_pos (List.getElem?_eq_some_iff.1 hc).1, hc, Option.map_some, if_pos hu]
  · next hij =>
    cases hb : l[j]? with
    | none => rfl
    | some b =>
        have hne : uid b ≠ uid a := fun heq => hij (h.place_eq hc hb (hu.trans heq.symm))
        rw [Option.map_some, if_neg hne]

theorem eraseIdx_eq_filter (h : Ascending uid l) {i : Nat} {u : Uid} (hi : l[i]?.map uid = some u) :
    l.eraseIdx i = l.filter fun a => uid a ≠ u := by
  obtain ⟨c, hc, rfl⟩ := Option.map_eq_some_iff.1 hi
  refine (h.sublist (List.eraseIdx_sublist ..)).ext (h.filter _) fun a => ?_
  rw [List.mem_eraseIdx_iff_getElem?, List.mem_filter, decide_eq_true_eq]
  constructor
  · rintro ⟨j, hj, ha⟩
    exact ⟨List.mem_of_getElem? ha, fun heq => hj (h.place_eq ha hc heq)⟩
  · rintro ⟨ha, hne⟩
    obtain ⟨j, hj⟩ := List.getElem?_of_mem ha
    refine ⟨j, fun heq => hne ?_, hj⟩
    rw [heq, hc] at hj
    rw [Option.some.inj hj]

theorem placeOf_eq_some (h : Ascending uid l) {sought : Uid} {i : Nat} :
    placeOf uid l sought = some i ↔ l[i]?.map uid = some sought := by
  constructor
  · intro hp
    unfold placeOf at hp
    split at hp
    · cases hp
    · split at hp
      · next heq => cases hp; exact heq
      · cases hp
  · intro hi
    obtain ⟨a, ha, rfl⟩ := Option.map_eq_some_iff.1 hi
    have hlen : i < l.length := (List.getElem?_eq_some_iff.1 ha).1
    -- the first UID above the one sought is right behind it
    have hplace : (l.findIdx fun b => decide ((uid a).val < (uid b).val)) = i + 1 := by
      refine Nat.le_antisymm (Nat.le_of_not_lt fun hlt => ?_) (Nat.lt_of_not_le fun hle => ?_)
      · have hnot := List.not_of_lt_findIdx hlt
        have hnext : i + 1 < l.length := Nat.lt_of_lt_of_le hlt List.findIdx_le_length
        have := h.lt_of_lt ha (List.getElem?_eq_getElem hnext) (Nat.lt_succ_self i)
        simp only [decide_eq_false_iff_not] at hnot
        exact hnot this
      · have hb := List.getElem?_eq_getElem (Nat.lt_of_le_of_lt hle hlen)
        have hfound := List.findIdx_of_getElem?_eq_some hb
        simp only [decide_eq_true_eq] at hfound
        rcases Nat.lt_or_eq_of_le hle with hlt | heq
        · exact absurd (h.lt_of_lt hb ha hlt) (Nat.lt_asymm hfound)
        · have hsame := hb.symm.trans ((congrArg (l[·]?) heq).trans ha)
          rw [Option.some.inj hsame] at hfound
          exact Nat.lt_irrefl _ hfound
    unfold placeOf
    rw [hplace]
    simp only [ha, Option.map_some, if_true]

theorem placeOf_eq_none (h : Ascending uid l) {sought : Uid} :
    placeOf uid l sought = none ↔ ∀ a ∈ l, uid a ≠ sought := by
  constructor
  · intro hp a ha heq
    obtain ⟨i, hi⟩ := List.getElem?_of_mem ha
    have : placeOf uid l sought = some i := h.placeOf_eq_some.2 (by rw [hi, ← heq]; rfl)
    rw [hp] at this
    cases this
  · intro hno
    cases hp : placeOf uid l sought with
    | none => rfl
    | some i =>
        obtain ⟨a, ha, hu⟩ := Option.map_eq_some_iff.1 (h.placeOf_eq_some.1 hp)
        exact absurd hu (hno a (List.mem_of_getElem? ha))

theorem at_placeOf (h : Ascending uid l) {sought : Uid} {a : α} :
    ((placeOf uid l sought).bind fun i => l[i]?) = some a ↔ a ∈ l ∧ uid a = sought := by
  constructor
  · intro hb
    obtain ⟨i, hi, ha⟩ := Option.bind_eq_some_iff.1 hb
    have hu := h.placeOf_eq_some.1 hi
    rw [ha] at hu
    exact ⟨List.mem_of_getElem? ha, Option.some.inj hu⟩
  · rintro ⟨ha, rfl⟩
    obtain ⟨i, hi⟩ := List.getElem?_of_mem ha
    have hp : placeOf uid l (uid a) = some i := h.placeOf_eq_some.2 (by rw [hi]; rfl)
    rw [hp]
    exact hi

end Ascending

/-! ## Positions as sequence numbers -/

namespace Seqnum

theorem ext_val {n k : Seqnum} (h : n.val = k.val) : n = k := by
  cases n; cases k; exact congrArg Seqnum.mk (NzNumber.ext_val h)

theorem ofIndex_val {i : Nat} (h : i < maxWord) : (ofIndex i).val = i + 1 := by
  show max 1 (min (i + 1) maxWord) = i + 1
  omega

theorem toIndex_ofIndex {i : Nat} (h : i < maxWord) : (ofIndex i).toIndex = i := by
  rw [toIndex, ofIndex_val h, Nat.add_sub_cancel]

theorem val_eq (n : Seqnum) : n.val = n.toIndex + 1 := by
  have hpos := n.pos
  unfold toIndex
  omega

theorem ofIndex_toIndex (n : Seqnum) : ofIndex n.toIndex = n := by
  have hval := n.val_eq
  have hle := n.le_maxWord
  exact ext_val (by rw [ofIndex_val (by omega), hval])

end Seqnum

end MailBridge

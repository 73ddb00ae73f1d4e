import MailBridge.Ordered.Map
import MailBridge.Ordered.Set

/-! # Laws of sorted maps and sorted sets

A sorted map is determined by what it answers for each key, and a sorted set by its elements.
-/

namespace MailBridge

universe u v

/-- Two lists in one strict order are equal if they have the same members. -/
theorem eq_of_mem_iff {α : Type u} {r : α → α → Prop} (hasymm : ∀ {a b}, r a b → ¬ r b a)
    {l l' : List α} (h : l.Pairwise r) (h' : l'.Pairwise r) (hmem : ∀ a, a ∈ l ↔ a ∈ l') :
    l = l' := by
  have nodup {l : List α} (h : l.Pairwise r) : l.Nodup := by
    refine h.imp fun {a b} hab heq => ?_
    subst heq
    exact hasymm hab hab
  have hperm : l.Perm l' := (List.perm_ext_iff_of_nodup (nodup h) (nodup h')).2 hmem
  exact hperm.eq_of_pairwise (fun a b _ _ hab hba => absurd hba (hasymm hab)) h h'

namespace OrderedMap

variable {κ : Type u} {β : Type v} [KeyOrder κ]

theorem findSorted_eq_some {k : κ} {v : β} {l : List (κ × β)}
    (h : l.Pairwise fun a b => a.1 < b.1) : findSorted k l = some v ↔ (k, v) ∈ l := by
  induction l with
  | nil => simp [findSorted]
  | cons e rest ih =>
      obtain ⟨j, w⟩ := e
      obtain ⟨hj, hrest⟩ := List.pairwise_cons.1 h
      have later : (k, v) ∈ rest → j < k := fun hmem => hj _ hmem
      rw [findSorted, List.mem_cons]
      split
      · next hlt =>
        constructor
        · intro hnone
          cases hnone
        · rintro (heq | hmem)
          · cases heq
            exact absurd hlt (KeyOrder.irrefl k)
          · exact absurd (later hmem) (KeyOrder.asymm hlt)
      · split
        · next hgt =>
          rw [ih hrest]
          constructor
          · exact Or.inr
          · rintro (heq | hmem)
            · cases heq
              exact absurd hgt (KeyOrder.irrefl k)
            · exact hmem
        · next h1 h2 =>
          have heq : k = j := KeyOrder.eq_of_not_lt h1 h2
          subst heq
          constructor
          · intro hsome
            cases hsome
            exact Or.inl rfl
          · rintro (heq | hmem)
            · cases heq
              rfl
            · exact absurd (later hmem) (KeyOrder.irrefl k)

theorem get?_eq_some {m : OrderedMap κ β} {k : κ} {v : β} :
    m.get? k = some v ↔ (k, v) ∈ m.entries := findSorted_eq_some m.ascending

theorem ext_get? {m n : OrderedMap κ β} (h : ∀ k, m.get? k = n.get? k) : m = n := by
  refine ext_entries (eq_of_mem_iff KeyOrder.asymm m.ascending n.ascending fun e => ?_)
  obtain ⟨k, v⟩ := e
  rw [← get?_eq_some, ← get?_eq_some, h]

theorem get?_insert [DecidableEq κ] (m : OrderedMap κ β) (k k' : κ) (v : β) :
    (m.insert k v).get? k' = if k' = k then some v else m.get? k' := by
  split
  · next heq => rw [heq, get?_insert_self]
  · next hne => exact get?_insert_ne m hne v

theorem get?_filter (m : OrderedMap κ β) (p : κ → β → Bool) (k : κ) :
    (m.filter p).get? k = (m.get? k).filter (p k) := by
  refine Option.ext fun v => ?_
  rw [Option.filter_eq_some_iff, get?_eq_some, get?_eq_some]
  exact List.mem_filter

theorem get?_erase [DecidableEq κ] (m : OrderedMap κ β) (k k' : κ) :
    (m.erase k).get? k' = if k' = k then none else m.get? k' := by
  rw [erase, get?_filter]
  split
  · next heq => simp [heq]
  · next hne => cases m.get? k' <;> simp [hne]

theorem contains_eq_false {m : OrderedMap κ β} {k : κ} :
    m.contains k = false ↔ m.get? k = none := by
  rw [contains, Option.isSome_eq_false_iff, Option.isNone_iff_eq_none]

theorem get?_insertIfNew [DecidableEq κ] (m : OrderedMap κ β) (k k' : κ) (v : β) :
    (m.insertIfNew k v).get? k' = if k' = k then some ((m.get? k).getD v) else m.get? k' := by
  rw [insertIfNew]
  split
  · next hcontains =>
    obtain ⟨w, hw⟩ := Option.isSome_iff_exists.1 hcontains
    split
    · next heq => rw [heq, hw, Option.getD_some]
    · rfl
  · next hnew =>
    rw [get?_insert, contains_eq_false.1 (Bool.eq_false_iff.2 hnew), Option.getD_none]

/-! ### Entries put in and taken out again -/

variable [DecidableEq κ]

theorem insert_of_get? {m : OrderedMap κ β} {k : κ} {v : β} (h : m.get? k = some v) :
    m.insert k v = m := by
  refine ext_get? fun j => ?_
  rw [get?_insert]
  split
  · next heq => rw [heq, h]
  · rfl

theorem erase_of_get? {m : OrderedMap κ β} {k : κ} (h : m.get? k = none) : m.erase k = m := by
  refine ext_get? fun j => ?_
  rw [get?_erase]
  split
  · next heq => rw [heq, h]
  · rfl

theorem erase_insert (m : OrderedMap κ β) (k : κ) (v : β) : (m.insert k v).erase k = m.erase k := by
  refine ext_get? fun j => ?_
  rw [get?_erase, get?_erase, get?_insert]
  split <;> rfl

theorem erase_erase (m : OrderedMap κ β) (k : κ) : (m.erase k).erase k = m.erase k :=
  erase_of_get? ((get?_erase ..).trans (if_pos rfl))

/-! ### Counting -/

theorem filter_key (m : OrderedMap κ β) (k : κ) : m.entries.filter (fun e => decide (e.1 = k)) =
    ((m.get? k).map fun v => (k, v)).toList := by
  refine eq_of_mem_iff KeyOrder.asymm (m.ascending.filter _) ?_ fun e => ?_
  · cases m.get? k <;> simp
  · obtain ⟨j, v⟩ := e
    rw [List.mem_filter, decide_eq_true_eq, Option.mem_toList, Option.map_eq_some_iff]
    constructor
    · rintro ⟨hmem, rfl⟩
      exact ⟨v, get?_eq_some.2 hmem, rfl⟩
    · rintro ⟨w, hw, heq⟩
      cases heq
      exact ⟨get?_eq_some.1 hw, rfl⟩

theorem countP_values (m : OrderedMap κ β) (k : κ) (p : β → Bool) : m.values.countP p =
    (m.erase k).values.countP p + (m.get? k).elim 0 fun v => (p v).toNat := by
  have hone : (m.entries.filter fun e => !decide (e.1 ≠ k)).countP (p ·.2) =
      (m.get? k).elim 0 fun v => (p v).toNat := by
    simp only [decide_not, Bool.not_not, filter_key]
    cases m.get? k with
    | none => rfl
    | some v => cases hp : p v <;> simp [hp]
  unfold values
  rw [List.countP_map, List.countP_map, ← hone]
  exact List.countP_eq_countP_filter_add m.entries (p ·.2) fun e => decide (e.1 ≠ k)

end OrderedMap

namespace OrderedSet

variable {κ : Type u} [KeyOrder κ]

theorem ext {s t : OrderedSet κ} (h : ∀ a, a ∈ s ↔ a ∈ t) : s = t :=
  ext_toList (eq_of_mem_iff KeyOrder.asymm s.ascending t.ascending h)

theorem erase_erase [DecidableEq κ] (a : κ) (s : OrderedSet κ) :
    (s.erase a).erase a = s.erase a := by
  refine ext fun x => ?_
  rw [mem_erase, mem_erase, and_assoc, and_self]

theorem isEmpty_iff {s : OrderedSet κ} : s.isEmpty = true ↔ s = ∅ := by
  rw [isEmpty, List.isEmpty_iff]
  exact ⟨fun h => ext_toList h, fun h => h ▸ rfl⟩

end OrderedSet

end MailBridge

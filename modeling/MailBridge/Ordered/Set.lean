import MailBridge.Ordered.Key

/-! # Sorted sets

A finite set kept as the ascending list of its elements, so that it is listed in one order and
two sets with the same elements are equal.
-/

namespace MailBridge

universe u

/-- A finite set, listed in ascending order without repetition. -/
structure OrderedSet (κ : Type u) [KeyOrder κ] where
  toList : List κ
  ascending : toList.Pairwise (· < ·)

namespace OrderedSet

variable {κ : Type u} [KeyOrder κ]

theorem ext_toList {s t : OrderedSet κ} (h : s.toList = t.toList) : s = t := by
  cases s; cases t; cases h; rfl

instance [DecidableEq κ] : DecidableEq (OrderedSet κ) := fun s t =>
  if h : s.toList = t.toList then isTrue (ext_toList h)
  else isFalse fun e => h (e ▸ rfl)

instance : Membership κ (OrderedSet κ) := ⟨fun s a => a ∈ s.toList⟩

theorem mem_def {a : κ} {s : OrderedSet κ} : a ∈ s ↔ a ∈ s.toList := Iff.rfl

instance [DecidableEq κ] (a : κ) (s : OrderedSet κ) : Decidable (a ∈ s) :=
  inferInstanceAs (Decidable (a ∈ s.toList))

def empty : OrderedSet κ := ⟨[], .nil⟩

instance : EmptyCollection (OrderedSet κ) := ⟨empty⟩
instance : Inhabited (OrderedSet κ) := ⟨empty⟩

@[simp] theorem toList_empty : (∅ : OrderedSet κ).toList = [] := rfl

def isEmpty (s : OrderedSet κ) : Bool := s.toList.isEmpty

def size (s : OrderedSet κ) : Nat := s.toList.length

/-- Puts an element at its place in an ascending list, once. -/
def insertSorted (a : κ) : List κ → List κ
  | [] => [a]
  | b :: rest =>
    if a < b then a :: b :: rest
    else if b < a then b :: insertSorted a rest
    else a :: rest

theorem mem_insertSorted {a x : κ} {l : List κ} : x ∈ insertSorted a l ↔ x = a ∨ x ∈ l := by
  induction l with
  | nil => simp [insertSorted]
  | cons b rest ih =>
    unfold insertSorted
    split
    · simp
    · split
      · simp only [List.mem_cons, ih]
        grind
      · next h h' =>
        have heq : a = b := KeyOrder.eq_of_not_lt h h'
        subst heq
        simp

theorem pairwise_insertSorted {a : κ} {l : List κ} (h : l.Pairwise (· < ·)) :
    (insertSorted a l).Pairwise (· < ·) := by
  induction l with
  | nil => simp [insertSorted]
  | cons b rest ih =>
    obtain ⟨hb, hrest⟩ := List.pairwise_cons.1 h
    unfold insertSorted
    split
    · next hab =>
      refine List.pairwise_cons.2 ⟨fun x hx => ?_, h⟩
      rcases List.mem_cons.1 hx with rfl | hx
      · exact hab
      · exact KeyOrder.trans hab (hb x hx)
    · split
      · next hba =>
        refine List.pairwise_cons.2 ⟨fun x hx => ?_, ih hrest⟩
        rcases mem_insertSorted.1 hx with rfl | hx
        · exact hba
        · exact hb x hx
      · next h1 h2 =>
        have heq : a = b := KeyOrder.eq_of_not_lt h1 h2
        subst heq
        exact h

def insert (a : κ) (s : OrderedSet κ) : OrderedSet κ :=
  ⟨insertSorted a s.toList, pairwise_insertSorted s.ascending⟩

def filter (p : κ → Bool) (s : OrderedSet κ) : OrderedSet κ :=
  ⟨s.toList.filter p, s.ascending.filter p⟩

def erase [DecidableEq κ] (a : κ) (s : OrderedSet κ) : OrderedSet κ := s.filter (· ≠ a)

def ofList (l : List κ) : OrderedSet κ := l.foldl (fun s a => s.insert a) ∅

def union (s t : OrderedSet κ) : OrderedSet κ := t.toList.foldl (fun s a => s.insert a) s

/-- The elements of exactly one of the two sets. -/
def symmDiff [DecidableEq κ] (s t : OrderedSet κ) : OrderedSet κ :=
  (s.filter (· ∉ t)).union (t.filter (· ∉ s))

@[simp] theorem mem_empty {a : κ} : a ∉ (∅ : OrderedSet κ) := by simp [mem_def]

@[simp] theorem mem_insert {a x : κ} {s : OrderedSet κ} : x ∈ s.insert a ↔ x = a ∨ x ∈ s :=
  mem_insertSorted

@[simp] theorem mem_filter {p : κ → Bool} {x : κ} {s : OrderedSet κ} :
    x ∈ s.filter p ↔ x ∈ s ∧ p x = true := List.mem_filter

@[simp] theorem mem_erase [DecidableEq κ] {a x : κ} {s : OrderedSet κ} :
    x ∈ s.erase a ↔ x ∈ s ∧ x ≠ a := by simp [erase]

theorem mem_foldl_insert {x : κ} {l : List κ} {s : OrderedSet κ} :
    x ∈ l.foldl (fun s a => s.insert a) s ↔ x ∈ s ∨ x ∈ l := by
  induction l generalizing s with
  | nil => simp
  | cons a rest ih => simp only [List.foldl_cons, ih, mem_insert, List.mem_cons]; grind

@[simp] theorem mem_ofList {x : κ} {l : List κ} : x ∈ ofList l ↔ x ∈ l := by
  simp [ofList, mem_foldl_insert]

@[simp] theorem mem_union {x : κ} {s t : OrderedSet κ} : x ∈ s.union t ↔ x ∈ s ∨ x ∈ t :=
  mem_foldl_insert

@[simp] theorem mem_symmDiff [DecidableEq κ] {x : κ} {s t : OrderedSet κ} :
    x ∈ s.symmDiff t ↔ (x ∈ s ∧ x ∉ t) ∨ (x ∈ t ∧ x ∉ s) := by
  simp [symmDiff]

end OrderedSet

end MailBridge

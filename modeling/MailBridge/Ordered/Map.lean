import MailBridge.Ordered.Key

/-! # Sorted maps

A finite map kept as the list of its entries in ascending order of their keys, one entry for
each key.
-/

namespace MailBridge

universe u v

/-- A finite map, listed in ascending order of its keys. -/
structure OrderedMap (κ : Type u) (β : Type v) [KeyOrder κ] where
  entries : List (κ × β)
  ascending : entries.Pairwise fun a b => a.1 < b.1

namespace OrderedMap

variable {κ : Type u} {β : Type v} [KeyOrder κ]

theorem ext_entries {m n : OrderedMap κ β} (h : m.entries = n.entries) : m = n := by
  cases m; cases n; cases h; rfl

instance [DecidableEq κ] [DecidableEq β] : DecidableEq (OrderedMap κ β) := fun m n =>
  if h : m.entries = n.entries then isTrue (ext_entries h)
  else isFalse fun e => h (e ▸ rfl)

def empty : OrderedMap κ β := ⟨[], .nil⟩

instance : EmptyCollection (OrderedMap κ β) := ⟨empty⟩
instance : Inhabited (OrderedMap κ β) := ⟨empty⟩

@[simp] theorem entries_empty : (∅ : OrderedMap κ β).entries = [] := rfl

def size (m : OrderedMap κ β) : Nat := m.entries.length

def keys (m : OrderedMap κ β) : List κ := m.entries.map (·.1)

def values (m : OrderedMap κ β) : List β := m.entries.map (·.2)

/-- Finds a key among ascending entries. -/
def findSorted (k : κ) : List (κ × β) → Option β
  | [] => none
  | (k', v) :: rest =>
    if k < k' then none
    else if k' < k then findSorted k rest
    else some v

/-- Puts an entry at its place among ascending entries, instead of the one with its key. -/
def insertSorted (k : κ) (v : β) : List (κ × β) → List (κ × β)
  | [] => [(k, v)]
  | (k', v') :: rest =>
    if k < k' then (k, v) :: (k', v') :: rest
    else if k' < k then (k', v') :: insertSorted k v rest
    else (k, v) :: rest

theorem mem_of_mem_insertSorted {k : κ} {v : β} {x : κ × β} {l : List (κ × β)}
    (h : x ∈ insertSorted k v l) : x = (k, v) ∨ x ∈ l := by
  induction l with
  | nil => simpa [insertSorted] using h
  | cons e rest ih =>
    unfold insertSorted at h
    split at h
    · simpa using h
    · split at h
      · rcases List.mem_cons.1 h with rfl | h
        · simp
        · rcases ih h with rfl | h
          · simp
          · simp [h]
      · rcases List.mem_cons.1 h with rfl | h
        · simp
        · simp [h]

theorem pairwise_insertSorted {k : κ} {v : β} {l : List (κ × β)}
    (h : l.Pairwise fun a b => a.1 < b.1) :
    (insertSorted k v l).Pairwise fun a b => a.1 < b.1 := by
  induction l with
  | nil => simp [insertSorted]
  | cons e rest ih =>
    obtain ⟨k', v'⟩ := e
    obtain ⟨hk', hrest⟩ := List.pairwise_cons.1 h
    unfold insertSorted
    split
    · next hlt =>
      refine List.pairwise_cons.2 ⟨fun x hx => ?_, h⟩
      rcases List.mem_cons.1 hx with rfl | hx
      · exact hlt
      · exact KeyOrder.trans hlt (hk' x hx)
    · split
      · next hgt =>
        refine List.pairwise_cons.2 ⟨fun x hx => ?_, ih hrest⟩
        rcases mem_of_mem_insertSorted hx with rfl | hx
        · exact hgt
        · exact hk' x hx
      · next h1 h2 =>
        have heq : k = k' := KeyOrder.eq_of_not_lt h1 h2
        subst heq
        exact List.pairwise_cons.2 ⟨fun x hx => hk' x hx, hrest⟩

def get? (m : OrderedMap κ β) (k : κ) : Option β := findSorted k m.entries

def contains (m : OrderedMap κ β) (k : κ) : Bool := (m.get? k).isSome

/-- Gives a key a value, in place of the one it had. -/
def insert (m : OrderedMap κ β) (k : κ) (v : β) : OrderedMap κ β :=
  ⟨insertSorted k v m.entries, pairwise_insertSorted m.ascending⟩

/-- Gives a key a value unless it has one. -/
def insertIfNew (m : OrderedMap κ β) (k : κ) (v : β) : OrderedMap κ β :=
  if m.contains k then m else m.insert k v

def filter (p : κ → β → Bool) (m : OrderedMap κ β) : OrderedMap κ β :=
  ⟨m.entries.filter fun e => p e.1 e.2, m.ascending.filter _⟩

def erase [DecidableEq κ] (m : OrderedMap κ β) (k : κ) : OrderedMap κ β :=
  m.filter fun k' _ => k' ≠ k

/-- The map of a list of entries, where a later entry replaces an earlier one. -/
def ofList (l : List (κ × β)) : OrderedMap κ β := l.foldl (fun m e => m.insert e.1 e.2) ∅

theorem findSorted_insertSorted_self (k : κ) (v : β) (l : List (κ × β)) :
    findSorted k (insertSorted k v l) = some v := by
  induction l with
  | nil => simp [insertSorted, findSorted, KeyOrder.irrefl]
  | cons e rest ih =>
    unfold insertSorted
    split
    · simp [findSorted, KeyOrder.irrefl]
    · split
      · next h h' => simp [findSorted, h, h', ih]
      · simp [findSorted, KeyOrder.irrefl]

theorem findSorted_insertSorted_ne {k k' : κ} (hne : k' ≠ k) (v : β) (l : List (κ × β)) :
    findSorted k' (insertSorted k v l) = findSorted k' l := by
  induction l with
  | nil =>
    rcases KeyOrder.connected k' k with h | h | h
    · simp [insertSorted, findSorted, h]
    · exact absurd h hne
    · simp [insertSorted, findSorted, h]
  | cons e rest ih =>
    obtain ⟨j, w⟩ := e
    unfold insertSorted
    split
    · next hkj =>
      rcases KeyOrder.connected k' k with h | h | h
      · simp [findSorted, h, KeyOrder.trans h hkj]
      · exact absurd h hne
      · simp [findSorted, h, KeyOrder.asymm h]
    · split
      · simp only [findSorted, ih]
      · next h1 h2 =>
        have heq : k = j := KeyOrder.eq_of_not_lt h1 h2
        subst heq
        rcases KeyOrder.connected k' k with h | h | h
        · simp [findSorted, h]
        · exact absurd h hne
        · simp [findSorted, h, KeyOrder.asymm h]

@[simp] theorem get?_empty (k : κ) : (∅ : OrderedMap κ β).get? k = none := rfl

@[simp] theorem get?_insert_self (m : OrderedMap κ β) (k : κ) (v : β) :
    (m.insert k v).get? k = some v := findSorted_insertSorted_self k v m.entries

theorem get?_insert_ne (m : OrderedMap κ β) {k k' : κ} (hne : k' ≠ k) (v : β) :
    (m.insert k v).get? k' = m.get? k' := findSorted_insertSorted_ne hne v m.entries

end OrderedMap

end MailBridge

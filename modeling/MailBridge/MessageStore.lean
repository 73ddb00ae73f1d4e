import MailBridge.Message

/-! # The messages of a mailbox

Messages are kept in ascending order of their UIDs, beside an index from remote names to UIDs.
The store does not by itself keep two messages from having the same UID or the same remote name,
nor the index from disagreeing with the messages: stored data may be damaged, and what is wrong
with a store can be asked. Of several messages with one UID, the last is found.
-/

namespace MailBridge

/-- The messages of a mailbox with the index of their remote names. -/
structure MessageStore where
  messages : List Message
  index : OrderedMap RemoteId Uid
  ascending : messages.Pairwise fun a b => a.uid.val ≤ b.uid.val

namespace MessageStore

theorem ext_parts {s t : MessageStore} (hm : s.messages = t.messages) (hi : s.index = t.index) :
    s = t := by
  cases s; cases t; cases hm; cases hi; rfl

def empty : MessageStore := ⟨[], ∅, .nil⟩

instance : EmptyCollection MessageStore := ⟨empty⟩
instance : Inhabited MessageStore := ⟨empty⟩

/-- Whether a message comes before another or has its UID. -/
def notAfter (a b : Message) : Bool := decide (a.uid.val ≤ b.uid.val)

theorem pairwise_sorted (l : List Message) :
    (l.mergeSort notAfter).Pairwise fun a b => a.uid.val ≤ b.uid.val :=
  (List.pairwise_mergeSort
    (fun a b c hab hbc => by simp only [notAfter, decide_eq_true_eq] at *; omega)
    (fun a b => by simp only [notAfter, Bool.or_eq_true, decide_eq_true_eq]; omega) l).imp
    fun h => by simpa [notAfter] using h

/-- The store of messages given in any order. Of messages with one remote name, the index names
the last. -/
def ofMessages (l : List Message) : MessageStore :=
  let messages := l.mergeSort notAfter
  ⟨messages, .ofList (messages.map fun m => (m.remoteId, m.uid)), pairwise_sorted l⟩

def size (s : MessageStore) : Nat := s.messages.length

def greatestUid? (s : MessageStore) : Option Uid := s.messages.getLast?.map (·.uid)

def position? (s : MessageStore) (uid : Uid) : Option Nat :=
  match s.messages.findIdx fun m => decide (uid.val < m.uid.val) with
  | 0 => none
  | i + 1 => if s.messages[i]?.map (·.uid) = some uid then some i else none

def get? (s : MessageStore) (uid : Uid) : Option Message :=
  (s.position? uid).bind fun i => s.messages[i]?

def uidOf? (s : MessageStore) (id : RemoteId) : Option Uid := s.index.get? id

def getByRemoteId? (s : MessageStore) (id : RemoteId) : Option Message :=
  (s.uidOf? id).bind s.get?

def at? (s : MessageStore) (n : Seqnum) : Option Message := s.messages[n.toIndex]?

def seqnumOf? (s : MessageStore) (uid : Uid) : Option Seqnum :=
  (s.position? uid).map Seqnum.ofIndex

theorem uid_of_position? {s : MessageStore} {uid : Uid} {i : Nat} (h : s.position? uid = some i) :
    s.messages[i]?.map (·.uid) = some uid := by
  unfold position? at h
  split at h
  · cases h
  · split at h
    · next heq => cases h; exact heq
    · cases h

theorem pairwise_set {l : List Message} {i : Nat} {m : Message}
    (h : l.Pairwise fun a b => a.uid.val ≤ b.uid.val) (hi : l[i]?.map (·.uid) = some m.uid) :
    (l.set i m).Pairwise fun a b => a.uid.val ≤ b.uid.val := by
  have key : (l.set i m).map (·.uid.val) = l.map (·.uid.val) := by
    rw [List.map_set]
    refine List.ext_getElem? fun j => ?_
    rw [List.getElem?_set, List.length_map]
    split
    · next hij =>
      subst hij
      split
      · obtain ⟨x, hx, hu⟩ := Option.map_eq_some_iff.1 hi
        rw [List.getElem?_map, hx, Option.map_some, hu]
      · next hlen => rw [List.getElem?_eq_none (by simpa using hlen)]
    · rfl
  have hmap : ((l.set i m).map (·.uid.val)).Pairwise (· ≤ ·) := by
    rw [key]
    exact List.pairwise_map.2 h
  exact List.pairwise_map.1 hmap

/-- Puts a changed message in the place of the one with its UID. The index stays as it is. -/
def update (s : MessageStore) (m : Message) : MessageStore :=
  match h : s.position? m.uid with
  | some i => ⟨s.messages.set i m, s.index, pairwise_set s.ascending (uid_of_position? h)⟩
  | none => s

/-- Adds a message after all others. Nothing is added if its UID is not above every other, or if
its remote name is known. -/
def append? (s : MessageStore) (m : Message) : Option MessageStore :=
  if h : ∀ x ∈ s.messages, x.uid.val < m.uid.val then
    if s.index.contains m.remoteId then none
    else
      some ⟨s.messages ++ [m], s.index.insert m.remoteId m.uid,
        List.pairwise_append.2 ⟨s.ascending, List.pairwise_singleton .., fun a ha b hb => by
          simp only [List.mem_singleton] at hb
          subst hb
          exact Nat.le_of_lt (h a ha)⟩⟩
  else none

/-- Takes out the messages that satisfy a test, and gives them in ascending order of UIDs. Their
remote names leave the index. -/
def removeWhere (s : MessageStore) (p : Message → Bool) : List Message × MessageStore :=
  let removed := s.messages.filter p
  (removed,
    ⟨s.messages.filter (!p ·), removed.foldl (fun index m => index.erase m.remoteId) s.index,
      s.ascending.filter _⟩)

/-- Puts a message behind those with smaller UIDs. -/
def insertSorted (m : Message) : List Message → List Message
  | [] => [m]
  | x :: rest =>
    if x.uid.val ≤ m.uid.val then x :: insertSorted m rest else m :: x :: rest

theorem mem_insertSorted {m x : Message} {l : List Message} :
    x ∈ insertSorted m l ↔ x = m ∨ x ∈ l := by
  induction l with
  | nil => simp [insertSorted]
  | cons y rest ih =>
    unfold insertSorted
    split
    · simp only [List.mem_cons, ih]
      grind
    · simp

theorem pairwise_insertSorted {m : Message} {l : List Message}
    (h : l.Pairwise fun a b => a.uid.val ≤ b.uid.val) :
    (insertSorted m l).Pairwise fun a b => a.uid.val ≤ b.uid.val := by
  induction l with
  | nil => simp [insertSorted]
  | cons y rest ih =>
    obtain ⟨hy, hrest⟩ := List.pairwise_cons.1 h
    unfold insertSorted
    split
    · next hle =>
      refine List.pairwise_cons.2 ⟨fun x hx => ?_, ih hrest⟩
      rcases mem_insertSorted.1 hx with rfl | hx
      · exact hle
      · exact hy x hx
    · next hgt =>
      refine List.pairwise_cons.2 ⟨fun x hx => ?_, h⟩
      rcases List.mem_cons.1 hx with rfl | hx
      · omega
      · have := hy x hx
        omega

/-- Puts a message back: in the place of the one with its UID, or else at its own place. The
index names it instead of the one it replaced. -/
def reinstate (s : MessageStore) (m : Message) : MessageStore :=
  match h : s.position? m.uid with
  | some i =>
    let index := match s.messages[i]? with
      | some previous => s.index.erase previous.remoteId
      | none => s.index
    ⟨s.messages.set i m, index.insert m.remoteId m.uid,
      pairwise_set s.ascending (uid_of_position? h)⟩
  | none =>
    ⟨insertSorted m s.messages, s.index.insert m.remoteId m.uid,
      pairwise_insertSorted s.ascending⟩

/-- Takes out the message with a UID; its remote name leaves the index. -/
def remove (s : MessageStore) (uid : Uid) : MessageStore :=
  match s.position? uid with
  | some i =>
    let index := match s.messages[i]? with
      | some previous => s.index.erase previous.remoteId
      | none => s.index
    ⟨s.messages.eraseIdx i, index, s.ascending.sublist (List.eraseIdx_sublist ..)⟩
  | none => s

/-- Whether the index names every message, and nothing else. -/
def isIndexed (s : MessageStore) : Bool :=
  s.index.size == s.messages.length &&
    s.messages.all fun m => s.index.get? m.remoteId == some m.uid

/-- The first UID that the next message has as well. -/
def repeatedUid? : List Message → Option Uid
  | a :: b :: rest => if a.uid = b.uid then some a.uid else repeatedUid? (b :: rest)
  | _ => none

/-- The first UID of two messages. -/
def duplicateUid? (s : MessageStore) : Option Uid := repeatedUid? s.messages

end MessageStore

end MailBridge

import MailBridge.MessageStore
import MailBridge.Proofs.Ascending

/-! # The messages of a mailbox as a finite map

As long as no UID is repeated, a store of messages answers for each UID as a finite map does, and
each way of changing the store has its equation. The index of remote names is followed name by
name: it is right about a name if it gives the UIDs of the messages with this name and no others.
-/

namespace MailBridge.MessageStore

def Distinct (s : MessageStore) : Prop := Ascending Message.uid s.messages

theorem get?_eq_some {s : MessageStore} (h : s.Distinct) {uid : Uid} {m : Message} :
    s.get? uid = some m ↔ m ∈ s.messages ∧ m.uid = uid := h.at_placeOf

theorem get?_eq_none {s : MessageStore} (h : s.Distinct) {uid : Uid} :
    s.get? uid = none ↔ ∀ m ∈ s.messages, m.uid ≠ uid := by
  rw [Option.eq_none_iff_forall_ne_some]
  constructor
  · intro hnone m hm heq
    exact hnone m ((get?_eq_some h).2 ⟨hm, heq⟩)
  · intro hno m hsome
    obtain ⟨hm, heq⟩ := (get?_eq_some h).1 hsome
    exact hno m hm heq

theorem get?_of_mem {s : MessageStore} (h : s.Distinct) {m : Message} (hm : m ∈ s.messages) :
    s.get? m.uid = some m := (get?_eq_some h).2 ⟨hm, rfl⟩

theorem messages_eq_of_get? {s t : MessageStore} (hs : s.Distinct) (ht : t.Distinct)
    (h : ∀ uid, s.get? uid = t.get? uid) : s.messages = t.messages := by
  refine hs.ext ht fun m => ?_
  have hiff : s.get? m.uid = some m ↔ t.get? m.uid = some m := by rw [h]
  rw [get?_eq_some hs, get?_eq_some ht] at hiff
  simpa using hiff

theorem get?_congr {s t : MessageStore} (hs : s.Distinct) (ht : t.Distinct) {uid : Uid}
    (h : ∀ m, m.uid = uid → (m ∈ s.messages ↔ m ∈ t.messages)) : s.get? uid = t.get? uid := by
  refine Option.ext fun m => ?_
  rw [get?_eq_some hs, get?_eq_some ht]
  exact ⟨fun ⟨hm, hu⟩ => ⟨(h m hu).1 hm, hu⟩, fun ⟨hm, hu⟩ => ⟨(h m hu).2 hm, hu⟩⟩

theorem ofMessages_of_ascending {l : List Message}
    (h : l.Pairwise fun a b => a.uid.val ≤ b.uid.val) :
    ofMessages l = ⟨l, .ofList (l.map fun m => (m.remoteId, m.uid)), h⟩ := by
  have hsorted : l.mergeSort notAfter = l :=
    List.mergeSort_of_pairwise (h.imp fun hab => decide_eq_true hab)
  refine ext_parts hsorted ?_
  show OrderedMap.ofList ((l.mergeSort notAfter).map _) = _
  rw [hsorted]

/-! ## Changing the messages -/

theorem messages_update {s : MessageStore} (h : s.Distinct) (m : Message) :
    (s.update m).messages = s.messages.map fun x => if x.uid = m.uid then m else x := by
  unfold update
  split
  · next i hi => exact Ascending.set_eq_map h (h.placeOf_eq_some.1 hi)
  · next hnone =>
    have hno := h.placeOf_eq_none.1 hnone
    have hsame : ∀ x ∈ s.messages, (if x.uid = m.uid then m else x) = x := fun x hx =>
      if_neg (hno x hx)
    rw [List.map_congr_left hsame, List.map_id']

@[simp] theorem uidOf?_update (s : MessageStore) (m : Message) (id : RemoteId) :
    (s.update m).uidOf? id = s.uidOf? id := by
  unfold update
  split <;> rfl

theorem Distinct.update {s : MessageStore} (h : s.Distinct) (m : Message) :
    (s.update m).Distinct := by
  unfold Distinct
  rw [messages_update h]
  refine Ascending.map h fun x _ => ?_
  split
  · next heq => exact heq.symm
  · rfl

theorem mem_update {s : MessageStore} (h : s.Distinct) {m x : Message} :
    x ∈ (s.update m).messages ↔
      (x = m ∧ (s.get? m.uid).isSome = true) ∨ (x ∈ s.messages ∧ x.uid ≠ m.uid) := by
  rw [messages_update h, List.mem_map]
  constructor
  · rintro ⟨y, hy, rfl⟩
    split
    · next heq =>
      left
      rw [← heq, get?_of_mem h hy]
      exact ⟨rfl, rfl⟩
    · next hne => exact Or.inr ⟨hy, hne⟩
  · rintro (⟨rfl, hsome⟩ | ⟨hx, hne⟩)
    · obtain ⟨y, hy⟩ := Option.isSome_iff_exists.1 hsome
      obtain ⟨hmem, heq⟩ := (get?_eq_some h).1 hy
      exact ⟨y, hmem, if_pos heq⟩
    · exact ⟨x, hx, if_neg hne⟩

theorem position?_congr {s t : MessageStore}
    (h : s.messages.map (·.uid) = t.messages.map (·.uid)) (uid : Uid) :
    s.position? uid = t.position? uid := by
  have hplace (s : MessageStore) : s.messages.findIdx (fun m => decide (uid.val < m.uid.val)) =
      (s.messages.map (·.uid)).findIdx fun x => decide (uid.val < x.val) := by
    rw [List.findIdx_map]
    rfl
  have hat (i : Nat) : s.messages[i]?.map (·.uid) = t.messages[i]?.map (·.uid) := by
    rw [← List.getElem?_map, ← List.getElem?_map, h]
  simp only [position?, hplace, h, hat]

theorem map_uid_update (s : MessageStore) (m : Message) :
    (s.update m).messages.map (·.uid) = s.messages.map (·.uid) := by
  unfold update
  split
  · next i hi =>
    have hplace := uid_of_position? hi
    rw [← List.getElem?_map] at hplace
    obtain ⟨hlt, heq⟩ := List.getElem?_eq_some_iff.1 hplace
    rw [List.map_set, ← heq, List.set_getElem_self]
  · rfl

/-- What is found after a change, also where several messages have one UID. -/
theorem get?_update (s : MessageStore) (m : Message) (uid : Uid) :
    (s.update m).get? uid = if uid = m.uid then (s.get? uid).map fun _ => m else s.get? uid := by
  have hposition := position?_congr (map_uid_update s m) uid
  unfold get?
  rw [hposition]
  unfold update
  split
  · next i hi =>
    have hplace := uid_of_position? hi
    split
    · next heq =>
      obtain ⟨x, hx, _⟩ := Option.map_eq_some_iff.1 hplace
      have hlt := (List.getElem?_eq_some_iff.1 hx).1
      simp only [heq, hi, Option.bind_some, hx, Option.map_some, List.getElem?_set_self hlt]
    · next hne =>
      cases hj : s.position? uid with
      | none => rfl
      | some j =>
          have hij : i ≠ j := by
            intro heq
            rw [heq, uid_of_position? hj] at hplace
            exact hne (Option.some.inj hplace)
          simp [List.getElem?_set_ne hij]
  · next hnone =>
    split
    · next heq =>
      rw [heq, hnone]
      rfl
    · rfl

theorem get?_update_ne {s : MessageStore} {m : Message} {uid : Uid} (hne : uid ≠ m.uid) :
    (s.update m).get? uid = s.get? uid := by rw [get?_update, if_neg hne]

theorem append?_eq_some {s t : MessageStore} {m : Message} (h : s.append? m = some t) :
    (∀ x ∈ s.messages, x.uid.val < m.uid.val) ∧ s.uidOf? m.remoteId = none ∧
      t.messages = s.messages ++ [m] ∧ t.index = s.index.insert m.remoteId m.uid := by
  unfold append? at h
  split at h
  · next hlt =>
    split at h
    · cases h
    · next hnew =>
      cases h
      exact ⟨hlt, OrderedMap.contains_eq_false.1 (Bool.eq_false_iff.2 hnew), rfl, rfl⟩
  · cases h

theorem Distinct.append? {s t : MessageStore} (h : s.Distinct) {m : Message}
    (ht : s.append? m = some t) : t.Distinct := by
  obtain ⟨hlt, _, hmessages, _⟩ := append?_eq_some ht
  unfold Distinct
  rw [hmessages]
  exact Ascending.append h (List.pairwise_singleton ..) fun a ha b hb => by
    rw [List.mem_singleton.1 hb]
    exact hlt a ha

theorem get?_append?_ne {s t : MessageStore} (h : s.Distinct) {m : Message}
    (ht : s.append? m = some t) {uid : Uid} (hne : uid ≠ m.uid) : t.get? uid = s.get? uid := by
  obtain ⟨_, _, hmessages, _⟩ := append?_eq_some ht
  refine get?_congr (h.append? ht) h fun x hx => ?_
  have hxm : x ≠ m := fun heq => hne (by rw [← hx, heq])
  simp [hmessages, hxm]

theorem Distinct.removeWhere {s : MessageStore} (h : s.Distinct) (p : Message → Bool) :
    (s.removeWhere p).2.Distinct := Ascending.filter h _

theorem mem_removeWhere {s : MessageStore} {p : Message → Bool} {x : Message} :
    x ∈ (s.removeWhere p).2.messages ↔ x ∈ s.messages ∧ p x = false := by
  simp [MessageStore.removeWhere, List.mem_filter]

theorem mem_removed {s : MessageStore} {p : Message → Bool} {x : Message} :
    x ∈ (s.removeWhere p).1 ↔ x ∈ s.messages ∧ p x = true := List.mem_filter

theorem mem_removeWhere_iff_not_removed {s : MessageStore} {p : Message → Bool} {x : Message} :
    x ∈ (s.removeWhere p).2.messages ↔ x ∈ s.messages ∧ x ∉ (s.removeWhere p).1 := by
  rw [mem_removeWhere, mem_removed, ← Bool.not_eq_true]
  exact and_congr_right fun hx => not_congr (and_iff_right hx).symm

theorem removeWhere_of_isEmpty {s : MessageStore} {p : Message → Bool}
    (h : (s.removeWhere p).1.isEmpty = true) : (s.removeWhere p).2 = s := by
  have hnil : s.messages.filter p = [] := List.isEmpty_iff.1 h
  have hkeep : s.messages.filter (!p ·) = s.messages :=
    List.filter_eq_self.2 fun m hm => by simpa using List.filter_eq_nil_iff.1 hnil m hm
  refine ext_parts hkeep ?_
  show (s.messages.filter p).foldl _ s.index = s.index
  rw [hnil, List.foldl_nil]

/-! ## Putting messages back -/

theorem ascending_insertSorted {m : Message} {l : List Message} (h : Ascending Message.uid l)
    (hne : ∀ x ∈ l, x.uid ≠ m.uid) : Ascending Message.uid (insertSorted m l) := by
  induction l with
  | nil => exact List.pairwise_singleton ..
  | cons y rest ih =>
      obtain ⟨hy, hrest⟩ := List.pairwise_cons.1 h
      have hym : y.uid.val ≠ m.uid.val := fun heq => hne y List.mem_cons_self (Uid.ext_val heq)
      unfold insertSorted
      split
      · next hle =>
        refine List.pairwise_cons.2 ⟨fun x hx => ?_, ih hrest fun x hx => hne x (.tail _ hx)⟩
        rcases mem_insertSorted.1 hx with rfl | hx
        · omega
        · exact hy x hx
      · next hgt =>
        refine List.pairwise_cons.2 ⟨fun x hx => ?_, h⟩
        rcases List.mem_cons.1 hx with rfl | hx
        · omega
        · have := hy x hx
          omega

theorem mem_reinstate {s : MessageStore} (h : s.Distinct) {m x : Message} :
    x ∈ (s.reinstate m).messages ↔ x = m ∨ (x ∈ s.messages ∧ x.uid ≠ m.uid) := by
  unfold reinstate
  split
  · next i hi =>
    have hplace := h.placeOf_eq_some.1 hi
    obtain ⟨y, hy, hu⟩ := Option.map_eq_some_iff.1 hplace
    show x ∈ s.messages.set i m ↔ _
    rw [Ascending.set_eq_map h hplace, List.mem_map]
    constructor
    · rintro ⟨z, hz, rfl⟩
      split
      · exact Or.inl rfl
      · next hne => exact Or.inr ⟨hz, hne⟩
    · rintro (rfl | ⟨hx, hne⟩)
      · exact ⟨y, List.mem_of_getElem? hy, if_pos hu⟩
      · exact ⟨x, hx, if_neg hne⟩
  · next hnone =>
    have hno := h.placeOf_eq_none.1 hnone
    rw [mem_insertSorted]
    exact or_congr_right ⟨fun hx => ⟨hx, hno x hx⟩, And.left⟩

theorem Distinct.reinstate {s : MessageStore} (h : s.Distinct) (m : Message) :
    (s.reinstate m).Distinct := by
  unfold MessageStore.reinstate
  split
  · next i hi =>
    show Ascending Message.uid (s.messages.set i m)
    rw [Ascending.set_eq_map h (h.placeOf_eq_some.1 hi)]
    refine Ascending.map h fun x _ => ?_
    split
    · next heq => exact heq.symm
    · rfl
  · next hnone => exact ascending_insertSorted h (h.placeOf_eq_none.1 hnone)

theorem messages_remove {s : MessageStore} (h : s.Distinct) (uid : Uid) :
    (s.remove uid).messages = s.messages.filter fun x => x.uid ≠ uid := by
  unfold remove
  split
  · next i hi => exact Ascending.eraseIdx_eq_filter h (h.placeOf_eq_some.1 hi)
  · next hnone =>
    have hno := h.placeOf_eq_none.1 hnone
    exact (List.filter_eq_self.2 fun x hx => decide_eq_true (hno x hx)).symm

theorem mem_remove {s : MessageStore} (h : s.Distinct) {uid : Uid} {x : Message} :
    x ∈ (s.remove uid).messages ↔ x ∈ s.messages ∧ x.uid ≠ uid := by
  rw [messages_remove h, List.mem_filter, decide_eq_true_eq]

theorem Distinct.remove {s : MessageStore} (h : s.Distinct) (uid : Uid) :
    (s.remove uid).Distinct := by
  unfold Distinct
  rw [messages_remove h]
  exact Ascending.filter h _

theorem uidOf?_reinstate (s : MessageStore) (m : Message) (id : RemoteId) :
    (s.reinstate m).uidOf? id =
      if id = m.remoteId then some m.uid
      else if (s.get? m.uid).map (·.remoteId) = some id then none
      else s.uidOf? id := by
  unfold reinstate
  split
  · next i hi =>
    have hget : s.get? m.uid = s.messages[i]? := by rw [get?, hi, Option.bind_some]
    rw [uidOf?, OrderedMap.get?_insert, hget]
    cases s.messages[i]? with
    | none => rfl
    | some previous =>
        simp only [OrderedMap.get?_erase, Option.map_some, Option.some.injEq, eq_comm]
        rfl
  · next hnone =>
    have hget : s.get? m.uid = none := by rw [get?, hnone, Option.bind_none]
    rw [uidOf?, OrderedMap.get?_insert, hget]
    rfl

theorem uidOf?_remove (s : MessageStore) (uid : Uid) (id : RemoteId) :
    (s.remove uid).uidOf? id =
      if (s.get? uid).map (·.remoteId) = some id then none else s.uidOf? id := by
  unfold remove
  split
  · next i hi =>
    have hget : s.get? uid = s.messages[i]? := by rw [get?, hi, Option.bind_some]
    rw [hget]
    cases s.messages[i]? with
    | none => rfl
    | some previous =>
        simp only [uidOf?, OrderedMap.get?_erase, Option.map_some, Option.some.injEq, eq_comm]
  · next hnone =>
    have hget : s.get? uid = none := by rw [get?, hnone, Option.bind_none]
    rw [hget]
    rfl

/-! ## The index of remote names -/

/-- The index is right about a remote name. -/
def IndexedAt (s : MessageStore) (id : RemoteId) : Prop :=
  ∀ uid, s.uidOf? id = some uid ↔ ∃ m ∈ s.messages, m.remoteId = id ∧ m.uid = uid

theorem IndexedAt.eq_none {s : MessageStore} {id : RemoteId} (h : s.IndexedAt id) :
    s.uidOf? id = none ↔ ∀ m ∈ s.messages, m.remoteId ≠ id := by
  rw [Option.eq_none_iff_forall_ne_some]
  constructor
  · intro hnone m hm heq
    exact hnone m.uid ((h m.uid).2 ⟨m, hm, heq, rfl⟩)
  · intro hno uid hsome
    obtain ⟨m, hm, heq, _⟩ := (h uid).1 hsome
    exact hno m hm heq

theorem IndexedAt.uid_eq {s : MessageStore} {id : RemoteId} (h : s.IndexedAt id) {a b : Message}
    (ha : a ∈ s.messages) (hb : b ∈ s.messages) (hida : a.remoteId = id) (hidb : b.remoteId = id) :
    a.uid = b.uid := by
  have hua := (h a.uid).2 ⟨a, ha, hida, rfl⟩
  have hub := (h b.uid).2 ⟨b, hb, hidb, rfl⟩
  exact Option.some.inj (hua.symm.trans hub)

theorem uidOf?_congr {s t : MessageStore} {id : RemoteId} (hs : s.IndexedAt id)
    (ht : t.IndexedAt id) (h : s.messages = t.messages) : s.uidOf? id = t.uidOf? id := by
  refine Option.ext fun uid => ?_
  rw [hs uid, ht uid, h]

theorem IndexedAt.empty (id : RemoteId) : (∅ : MessageStore).IndexedAt id := by
  intro uid
  constructor
  · intro h
    cases h
  · rintro ⟨m, hm, _⟩
    cases hm

theorem IndexedAt.update {s : MessageStore} {id : RemoteId} (h : s.IndexedAt id)
    (hd : s.Distinct) {old m : Message} (found : s.get? m.uid = some old)
    (name : m.remoteId = old.remoteId) : (s.update m).IndexedAt id := by
  obtain ⟨hold, huid⟩ := (get?_eq_some hd).1 found
  intro uid
  rw [uidOf?_update, h uid]
  constructor
  · rintro ⟨x, hx, hid, hu⟩
    by_cases hxm : x.uid = m.uid
    · have hxold : x = old := Ascending.eq_of_uid_eq hd hx hold (hxm.trans huid.symm)
      subst hxold
      exact ⟨m, (mem_update hd).2 (.inl ⟨rfl, by simp [found]⟩), name.trans hid, huid.symm.trans hu⟩
    · exact ⟨x, (mem_update hd).2 (.inr ⟨hx, hxm⟩), hid, hu⟩
  · rintro ⟨x, hx, hid, hu⟩
    rcases (mem_update hd).1 hx with ⟨rfl, _⟩ | ⟨hx, _⟩
    · exact ⟨old, hold, name.symm.trans hid, huid.trans hu⟩
    · exact ⟨x, hx, hid, hu⟩

theorem IndexedAt.append? {s t : MessageStore} {id : RemoteId} (h : s.IndexedAt id) {m : Message}
    (ht : s.append? m = some t) : t.IndexedAt id := by
  obtain ⟨_, hnew, hmessages, hindex⟩ := append?_eq_some ht
  intro uid
  rw [uidOf?, hindex, OrderedMap.get?_insert, hmessages]
  simp only [List.mem_append, List.mem_singleton]
  split
  · next heq =>
    subst heq
    constructor
    · intro hsome
      exact ⟨m, .inr rfl, rfl, Option.some.inj hsome⟩
    · rintro ⟨x, hx | rfl, hid, hu⟩
      · have := (h uid).2 ⟨x, hx, hid, hu⟩
        rw [hnew] at this
        cases this
      · rw [hu]
  · next hne =>
    constructor
    · intro hsome
      obtain ⟨x, hx, hxid⟩ := (h uid).1 hsome
      exact ⟨x, .inl hx, hxid⟩
    · rintro ⟨x, hx | rfl, hid, hu⟩
      · exact (h uid).2 ⟨x, hx, hid, hu⟩
      · exact absurd hid.symm hne

theorem uidOf?_removeWhere (s : MessageStore) (p : Message → Bool) (id : RemoteId) :
    (s.removeWhere p).2.uidOf? id =
      if ∃ x ∈ (s.removeWhere p).1, x.remoteId = id then none else s.uidOf? id := by
  have hfold (l : List Message) (index : OrderedMap RemoteId Uid) :
      (l.foldl (fun index m => index.erase m.remoteId) index).get? id =
        if ∃ x ∈ l, x.remoteId = id then none else index.get? id := by
    induction l generalizing index with
    | nil => simp
    | cons a rest ih =>
        rw [List.foldl_cons, ih, OrderedMap.get?_erase]
        by_cases ha : a.remoteId = id
        · simp [ha]
        · simp [ha, Ne.symm ha]
  exact hfold _ _

theorem IndexedAt.removeWhere {s : MessageStore} {id : RemoteId} (h : s.IndexedAt id)
    (hd : s.Distinct) (p : Message → Bool) : (s.removeWhere p).2.IndexedAt id := by
  intro uid
  rw [uidOf?_removeWhere]
  split
  · next hgone =>
    obtain ⟨x, hx, hxid⟩ := hgone
    obtain ⟨hx, hpx⟩ := mem_removed.1 hx
    constructor
    · intro hsome
      cases hsome
    · rintro ⟨y, hy, hid, _⟩
      -- the name was removed with the only message that had it
      obtain ⟨hy, hpy⟩ := mem_removeWhere.1 hy
      have hxy : x = y := Ascending.eq_of_uid_eq hd hx hy (h.uid_eq hx hy hxid hid)
      rw [← hxy, hpx] at hpy
      cases hpy
  · next hstays =>
    rw [h uid]
    constructor
    · rintro ⟨x, hx, hid, hu⟩
      have hpx : p x = false := by
        cases hp : p x with
        | false => rfl
        | true => exact absurd ⟨x, mem_removed.2 ⟨hx, hp⟩, hid⟩ hstays
      exact ⟨x, mem_removeWhere.2 ⟨hx, hpx⟩, hid, hu⟩
    · rintro ⟨x, hx, hid, hu⟩
      exact ⟨x, (mem_removeWhere.1 hx).1, hid, hu⟩

end MailBridge.MessageStore

import MailBridge.Mailbox.Integrity
import MailBridge.Proofs.Store

/-! # What the check of integrity means

The check passes exactly if no UID is repeated, all UIDs are below the next one to issue, and the
index of remote names is right about every name. No next UID counts as a number above all UIDs.
-/

namespace MailBridge

namespace UidSpace

/-- The number above all UIDs issued so far: the next UID, if there is one. -/
def bound (s : UidSpace) : Nat := s.next?.elim (maxWord + 1) (·.val)

theorem bound_of_next? {s : UidSpace} {next : Uid} (h : s.next? = some next) :
    s.bound = next.val := by
  rw [bound, h, Option.elim_some]

theorem bound_of_exhausted {s : UidSpace} (h : s.next? = none) : s.bound = maxWord + 1 := by
  rw [bound, h, Option.elim_none]

end UidSpace

theorem Uid.val_lt (uid : Uid) : uid.val < maxWord + 1 := Nat.lt_succ_of_le uid.le_maxWord

theorem Uid.elim_next? (uid : Uid) : uid.next?.elim (maxWord + 1) (·.val) = uid.val + 1 := by
  have hle := uid.le_maxWord
  unfold Uid.next? NzNumber.next? NzNumber.ofNat?
  split
  · rfl
  · next h =>
    simp only [Option.map_none, Option.elim_none]
    omega

namespace UidSpace

theorem issue?_eq_some {s t : UidSpace} {uid : Uid} (h : s.issue? = some (uid, t)) :
    uid.val = s.bound ∧ t.bound = s.bound + 1 ∧ t.validity = s.validity := by
  obtain ⟨next, hnext, heq⟩ := Option.map_eq_some_iff.1 h
  cases heq
  have hbound := bound_of_next? hnext
  exact ⟨hbound.symm, by rw [hbound]; exact Uid.elim_next? uid, rfl⟩

theorem raiseAbove_validity (uid : Uid) (s : UidSpace) :
    (s.raiseAbove uid).validity = s.validity := by
  unfold raiseAbove
  split
  · split <;> rfl
  · rfl

theorem bound_le_raiseAbove (uid : Uid) (s : UidSpace) : s.bound ≤ (s.raiseAbove uid).bound := by
  unfold raiseAbove
  split
  · next next hnext =>
    split
    · next hle =>
      rw [bound_of_next? hnext]
      show next.val ≤ uid.next?.elim (maxWord + 1) (·.val)
      rw [Uid.elim_next?]
      omega
    · exact Nat.le_refl _
  · exact Nat.le_refl _

end UidSpace

namespace UidValidity

theorem ext_val {v w : UidValidity} (h : v.val = w.val) : v = w := by
  cases v; cases w; exact congrArg UidValidity.mk (NzNumber.ext_val h)

theorem le_next (v : UidValidity) (now : Instant) : v.val ≤ (v.next now).val := by
  have hle := v.le_maxWord
  show v.val ≤ max 1 (min (max (v.val + 1) (initial now).val) maxWord)
  omega

theorem lt_next {v : UidValidity} (h : v.val < maxWord) (now : Instant) :
    v.val < (v.next now).val := by
  show v.val < max 1 (min (max (v.val + 1) (initial now).val) maxWord)
  omega

end UidValidity

theorem UidSpace.renew_validity (now : Instant) (s : UidSpace) :
    (s.renew now).validity = s.validity.next now := by
  unfold renew
  split <;> rfl

namespace MessageStore

theorem repeatedUid?_eq_none {l : List Message}
    (h : l.Pairwise fun a b => a.uid.val ≤ b.uid.val) :
    repeatedUid? l = none ↔ Ascending Message.uid l := by
  induction l with
  | nil => exact ⟨fun _ => Ascending.nil, fun _ => rfl⟩
  | cons a rest ih =>
      obtain ⟨ha, hrest⟩ := List.pairwise_cons.1 h
      cases rest with
      | nil => exact ⟨fun _ => List.pairwise_singleton .., fun _ => rfl⟩
      | cons b rest =>
          rw [repeatedUid?]
          split
          · next heq =>
            refine ⟨fun hnone => (by cases hnone), fun hasc => ?_⟩
            have := (List.pairwise_cons.1 hasc).1 b List.mem_cons_self
            rw [heq] at this
            exact absurd this (Nat.lt_irrefl _)
          · next hne =>
            rw [ih hrest]
            constructor
            · intro hasc
              -- the first UID is below the second, which is not above the others
              have hab : a.uid.val < b.uid.val := Nat.lt_of_le_of_ne (ha b List.mem_cons_self)
                fun heq => hne (Uid.ext_val heq)
              refine List.pairwise_cons.2 ⟨fun x hx => ?_, hasc⟩
              rcases List.mem_cons.1 hx with rfl | hx
              · exact hab
              · exact Nat.lt_trans hab ((List.pairwise_cons.1 hasc).1 x hx)
            · exact fun hasc => (List.pairwise_cons.1 hasc).2

theorem duplicateUid?_eq_none {s : MessageStore} : s.duplicateUid? = none ↔ s.Distinct :=
  repeatedUid?_eq_none s.ascending

theorem le_greatestUid? {s : MessageStore} {greatest : Uid} (h : s.greatestUid? = some greatest)
    {m : Message} (hm : m ∈ s.messages) : m.uid.val ≤ greatest.val := by
  obtain ⟨last, hlast, rfl⟩ := Option.map_eq_some_iff.1 h
  obtain ⟨front, hfront⟩ := List.getLast?_eq_some_iff.1 hlast
  have hasc := s.ascending
  rw [hfront] at hasc hm
  rcases List.mem_append.1 hm with hm | hm
  · exact (List.pairwise_append.1 hasc).2.2 m hm last (List.mem_singleton_self last)
  · exact Nat.le_of_eq (by rw [List.mem_singleton.1 hm])

/-- The pairs of remote name and UID that a right index has. -/
def names (s : MessageStore) : List (RemoteId × Uid) := s.messages.map fun m => (m.remoteId, m.uid)

theorem nodup_names {s : MessageStore} (h : s.Distinct) : s.names.Nodup := by
  refine List.pairwise_map.2 (h.imp fun {a b} hab heq => ?_)
  rw [(Prod.mk.inj heq).2] at hab
  exact Nat.lt_irrefl _ hab

theorem isIndexed_iff {s : MessageStore} (h : s.Distinct) :
    s.isIndexed = true ↔ ∀ id, s.IndexedAt id := by
  have hentry (id : RemoteId) (uid : Uid) :
      (∃ m ∈ s.messages, m.remoteId = id ∧ m.uid = uid) ↔ (id, uid) ∈ s.names := by
    simp [names, List.mem_map]
  simp only [isIndexed, Bool.and_eq_true, beq_iff_eq, List.all_eq_true]
  constructor
  · rintro ⟨hsize, hall⟩ id uid
    rw [uidOf?, OrderedMap.get?_eq_some, hentry]
    have hsub : ∀ e ∈ s.names, e ∈ s.index.entries := fun e he => by
      obtain ⟨m, hm, rfl⟩ := List.mem_map.1 he
      exact OrderedMap.get?_eq_some.1 (hall m hm)
    refine ⟨fun hmem => Decidable.byContradiction fun hnot => ?_, hsub (id, uid)⟩
    -- an entry of no message would make the index larger than the list of messages
    have hnodup : ((id, uid) :: s.names).Nodup := List.nodup_cons.2 ⟨hnot, nodup_names h⟩
    have hle := hnodup.length_le_of_subset (List.cons_subset.2 ⟨hmem, hsub⟩)
    rw [List.length_cons, names, List.length_map, ← hsize] at hle
    exact Nat.lt_irrefl _ hle
  · intro hindexed
    have hmem (e : RemoteId × Uid) : e ∈ s.index.entries ↔ e ∈ s.names := by
      rw [← OrderedMap.get?_eq_some, ← hentry]
      exact hindexed e.1 e.2
    have hentries : s.index.entries.Nodup := by
      refine s.index.ascending.imp fun {a b} hab heq => ?_
      subst heq
      exact KeyOrder.irrefl _ hab
    refine ⟨?_, fun m hm => (hindexed m.remoteId m.uid).2 ⟨m, hm, rfl, rfl⟩⟩
    have hperm := (List.perm_ext_iff_of_nodup hentries (nodup_names h)).2 hmem
    rw [OrderedMap.size, hperm.length_eq, names, List.length_map]

end MessageStore

namespace Mailbox

/-- No UID is repeated, and all UIDs are below the next one to issue. -/
structure Orderly (m : Mailbox) : Prop where
  distinct : m.store.Distinct
  below : ∀ x ∈ m.store.messages, x.uid.val < m.uids.bound

/-- The greatest UID decides whether all UIDs are below the next one to issue. -/
theorem below_iff_greatest {m : Mailbox} {greatest next : Uid}
    (hgreatest : m.store.greatestUid? = some greatest) (hnext : m.uids.next? = some next) :
    (∀ x ∈ m.store.messages, x.uid.val < m.uids.bound) ↔ greatest.val < next.val := by
  rw [UidSpace.bound_of_next? hnext]
  constructor
  · intro hbelow
    obtain ⟨last, hlast, rfl⟩ := Option.map_eq_some_iff.1 hgreatest
    exact hbelow last (List.mem_of_getLast? hlast)
  · intro hlt x hx
    exact Nat.lt_of_le_of_lt (MessageStore.le_greatestUid? hgreatest hx) hlt

theorem below_of_exhausted_or_empty {m : Mailbox}
    (h : ∀ greatest next, m.store.greatestUid? = some greatest → m.uids.next? = some next → False) :
    ∀ x ∈ m.store.messages, x.uid.val < m.uids.bound := by
  intro x hx
  cases hnext : m.uids.next? with
  | none =>
      rw [UidSpace.bound_of_exhausted hnext]
      exact x.uid.val_lt
  | some next =>
      cases hlast : m.store.messages.getLast? with
      | none =>
          rw [List.getLast?_eq_none_iff.1 hlast] at hx
          cases hx
      | some last =>
          have hgreatest : m.store.greatestUid? = some last.uid := by
            rw [MessageStore.greatestUid?, hlast, Option.map_some]
          exact (h last.uid next hgreatest hnext).elim

theorem brokenIndex_eq_none {m : Mailbox} (hd : m.store.Distinct) :
    (if m.store.isIndexed then none else some Desync.brokenIndex) = none ↔
      ∀ id, m.store.IndexedAt id := by
  rw [← MessageStore.isIndexed_iff hd]
  split
  · next h => exact ⟨fun _ => h, fun _ => rfl⟩
  · next h => exact ⟨fun h' => (by cases h'), fun h' => absurd h' h⟩

theorem desync?_eq_none {m : Mailbox} :
    m.desync? = none ↔ m.Orderly ∧ ∀ id, m.store.IndexedAt id := by
  cases hdup : m.store.duplicateUid? with
  | some uid =>
      have hnot : ¬ m.store.Distinct := fun hd => by
        rw [MessageStore.duplicateUid?_eq_none.2 hd] at hdup
        cases hdup
      simp only [desync?, hdup]
      exact ⟨fun h => (by cases h), fun h => absurd h.1.distinct hnot⟩
  | none =>
      have hd : m.store.Distinct := MessageStore.duplicateUid?_eq_none.1 hdup
      simp only [desync?, hdup]
      split
      · next greatest next hgreatest hnext =>
        have hbelow := below_iff_greatest hgreatest hnext
        split
        · next hle =>
          refine ⟨fun h => (by cases h), fun h => ?_⟩
          have := hbelow.1 h.1.below
          omega
        · next hgt =>
          rw [brokenIndex_eq_none hd]
          exact ⟨fun h => ⟨⟨hd, hbelow.2 (by omega)⟩, h⟩, And.right⟩
      · next hnone =>
        rw [brokenIndex_eq_none hd]
        exact ⟨fun h => ⟨⟨hd, below_of_exhausted_or_empty hnone⟩, h⟩, And.right⟩

/-- The check passes exactly if the identities of the mailbox are sound. -/
theorem checkIntegrity_iff {m : Mailbox} :
    m.checkIntegrity = .ok () ↔ m.Orderly ∧ ∀ id, m.store.IndexedAt id := by
  rw [← desync?_eq_none, checkIntegrity]
  split
  · next d hd =>
    rw [hd]
    exact ⟨fun h => (by cases h), fun h => (by cases h)⟩
  · next hnone => exact ⟨fun _ => hnone, fun _ => rfl⟩

end Mailbox

end MailBridge

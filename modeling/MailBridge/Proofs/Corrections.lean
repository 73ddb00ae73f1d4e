import Mathlib.Data.List.Permutation
import MailBridge.Proofs.Conformity
import MailBridge.Proofs.Reloading

/-! # What a listing calls for

The corrections that a listing gives are exactly those it calls for, each of them once: a message
that is listed more than once counts as it is listed first. The order in which they come is known
as well.
-/

namespace MailBridge

namespace Correction

def remoteId : Correction → RemoteId
  | create id => id
  | mergeFlags id _ => id
  | remove id => id

end Correction

namespace RemoteMessage

/-- A message comes before another by its place in the remote order, or else by its name. -/
def Precedes (a b : RemoteMessage) : Prop := a.order < b.order ∨ a.order = b.order ∧ a.id < b.id

instance (a b : RemoteMessage) : Decidable (a.Precedes b) :=
  inferInstanceAs (Decidable (_ ∨ _))

theorem cameBefore_iff {a b : RemoteMessage} (hne : a.id ≠ b.id) :
    cameBefore a b = true ↔ a.Precedes b := by
  have hname : ¬ b.id < a.id ↔ a.id < b.id := by
    refine ⟨fun hba => Decidable.byContradiction fun hab => hne ?_, String.lt_asymm⟩
    exact String.le_antisymm (String.not_lt.1 hba) (String.not_lt.1 hab)
  simp only [cameBefore, Precedes, Bool.or_eq_true, Bool.and_eq_true, decide_eq_true_eq,
    beq_iff_eq, hname]

theorem cameBefore_trans (a b c : RemoteMessage) (hab : cameBefore a b = true)
    (hbc : cameBefore b c = true) : cameBefore a c = true := by
  simp only [cameBefore, Bool.or_eq_true, Bool.and_eq_true, decide_eq_true_eq, beq_iff_eq] at *
  rcases hab with hab | ⟨hab, hnames⟩ <;> rcases hbc with hbc | ⟨hbc, hnames'⟩
  · exact .inl (UInt64.lt_trans hab hbc)
  · exact .inl (hbc ▸ hab)
  · exact .inl (hab ▸ hbc)
  · exact .inr ⟨hab.trans hbc,
      String.not_lt.2 (String.le_trans (String.not_lt.1 hnames) (String.not_lt.1 hnames'))⟩

theorem cameBefore_total (a b : RemoteMessage) : (cameBefore a b || cameBefore b a) = true := by
  simp only [cameBefore, Bool.or_eq_true, Bool.and_eq_true, decide_eq_true_eq, beq_iff_eq]
  by_cases hsame : a.order = b.order
  · by_cases h : b.id < a.id
    · exact .inr (.inr ⟨hsame.symm, String.lt_asymm h⟩)
    · exact .inl (.inr ⟨hsame, h⟩)
  · rcases UInt64.lt_or_lt_of_ne hsame with hlt | hgt
    · exact .inl (.inl hlt)
    · exact .inr (.inl hgt)

theorem pairwise_sorted {l : List RemoteMessage} (h : l.Pairwise fun a b => a.id ≠ b.id) :
    (l.mergeSort cameBefore).Pairwise Precedes := by
  have hnames : (l.mergeSort cameBefore).Pairwise fun a b => a.id ≠ b.id :=
    (List.mergeSort_perm l cameBefore).symm.pairwise h fun h => Ne.symm h
  exact ((List.pairwise_mergeSort cameBefore_trans cameBefore_total l).and hnames).imp
    fun {a b} hab => (cameBefore_iff hab.2).1 hab.1

theorem mem_firstListed_iff {l : List RemoteMessage} {first : RemoteMessage} :
    first ∈ firstListed l ↔ l.find? (·.id == first.id) = some first := by
  rw [← find?_firstListed]
  constructor
  · intro hmem
    have hsome : ((firstListed l).find? (·.id == first.id)).isSome = true :=
      List.find?_isSome.2 ⟨first, hmem, by simp⟩
    obtain ⟨found, hfound⟩ := Option.isSome_iff_exists.1 hsome
    have hid : found.id = first.id := by simpa using List.find?_some hfound
    rw [hfound, eq_of_firstListed (List.mem_of_find?_eq_some hfound) hmem hid]
  · exact List.mem_of_find?_eq_some

end RemoteMessage

namespace MessageStore

variable {store : MessageStore} {listed : List RemoteMessage}

theorem index_eq_iff (h : (store.messages.map (·.remoteId)).Nodup) :
    store.index = .ofList store.names ↔ ∀ id, store.IndexedAt id := by
  have hnames : (store.names.map (·.1)).Nodup := by
    rw [names, List.map_map]
    exact h
  have hentry (id : RemoteId) (uid : Uid) :
      (OrderedMap.ofList store.names).get? id = some uid ↔
        ∃ m ∈ store.messages, m.remoteId = id ∧ m.uid = uid := by
    rw [OrderedMap.get?_ofList hnames]
    simp [names]
  constructor
  · intro heq id uid
    rw [uidOf?, heq, hentry]
  · exact fun hi => OrderedMap.ext_get? fun id => Option.ext fun uid =>
      (hi id uid).trans (hentry id uid).symm

theorem getByRemoteId?_eq_some (hd : store.Distinct) (hi : ∀ id, store.IndexedAt id)
    {id : RemoteId} {r : Message} :
    store.getByRemoteId? id = some r ↔ r ∈ store.messages ∧ r.remoteId = id := by
  rw [getByRemoteId?, Option.bind_eq_some_iff]
  constructor
  · rintro ⟨uid, huid, hr⟩
    obtain ⟨other, hother, hid, hsame⟩ := (hi id uid).1 huid
    obtain ⟨hr, heq⟩ := (get?_eq_some hd).1 hr
    rw [hd.eq_of_uid_eq hr hother (heq.trans hsame.symm)]
    exact ⟨hother, hid⟩
  · rintro ⟨hr, hid⟩
    exact ⟨r.uid, (hi id r.uid).2 ⟨r, hr, hid, rfl⟩, get?_of_mem hd hr⟩

/-- The messages that a listing has no more, in the order of their UIDs. -/
def gone (store : MessageStore) (listed : List RemoteMessage) : List Message :=
  store.messages.filter fun r =>
    !((RemoteMessage.firstListed listed).any fun l => l.id == r.remoteId) &&
      !Flags.isDeleted r.flags

/-- The messages that are listed with other flags, as they are listed first. -/
def changed (store : MessageStore) (listed : List RemoteMessage) : List RemoteMessage :=
  (RemoteMessage.firstListed listed).filter fun l =>
    match store.getByRemoteId? l.id with
    | some r => Flags.comparable r.flags ≠ Flags.comparable l.flags
    | none => false

/-- The messages that are listed and not known, as they are listed first, in the remote order. -/
def unknown (store : MessageStore) (listed : List RemoteMessage) : List RemoteMessage :=
  ((RemoteMessage.firstListed listed).filter fun l =>
    (store.getByRemoteId? l.id).isNone).mergeSort RemoteMessage.cameBefore

theorem corrections_eq (store : MessageStore) (listed : List RemoteMessage) :
    store.corrections listed =
      (store.gone listed).map (fun r => .remove r.remoteId) ++
        (store.changed listed).map (fun l => .mergeFlags l.id l.flags) ++
        (store.unknown listed).map fun l => .create l.id := rfl

theorem mem_gone {r : Message} :
    r ∈ store.gone listed ↔
      r ∈ store.messages ∧ (∀ l ∈ listed, l.id ≠ r.remoteId) ∧ .deleted ∉ r.flags := by
  have hlisted : ((RemoteMessage.firstListed listed).any fun l => l.id == r.remoteId) = true ↔
      ∃ l ∈ listed, l.id = r.remoteId := by
    simp only [List.any_eq_true, beq_iff_eq]
    exact RemoteMessage.mem_firstListed
  rw [gone, List.mem_filter, Bool.and_eq_true, Bool.not_eq_true', ← Bool.not_eq_true, hlisted]
  simp [Flags.isDeleted]

theorem mem_changed (hd : store.Distinct) (hi : ∀ id, store.IndexedAt id) {l : RemoteMessage} :
    l ∈ store.changed listed ↔ listed.find? (·.id == l.id) = some l ∧
      ∃ r ∈ store.messages, r.remoteId = l.id ∧ ¬ r.flags.Agree l.flags := by
  rw [changed, List.mem_filter, RemoteMessage.mem_firstListed_iff]
  refine and_congr_right fun _ => ?_
  cases hfound : store.getByRemoteId? l.id with
  | none =>
      have hnobody (r : Message) (hr : r ∈ store.messages) : r.remoteId ≠ l.id := fun hid => by
        rw [(getByRemoteId?_eq_some hd hi).2 ⟨hr, hid⟩] at hfound
        cases hfound
      simp only [Bool.false_eq_true, false_iff, not_exists, not_and]
      exact fun r hr hid => absurd hid (hnobody r hr)
  | some r =>
      obtain ⟨hr, hid⟩ := (getByRemoteId?_eq_some hd hi).1 hfound
      simp only [decide_eq_true_eq, ne_eq, Flags.comparable_eq_iff]
      constructor
      · exact fun h => ⟨r, hr, hid, h⟩
      · rintro ⟨other, hother, hname, h⟩
        have hsame := (getByRemoteId?_eq_some hd hi).2 ⟨hother, hname⟩
        rw [hfound] at hsame
        rwa [Option.some.inj hsame]

theorem first_of_mem_unknown {l : RemoteMessage} (h : l ∈ store.unknown listed) :
    listed.find? (·.id == l.id) = some l :=
  RemoteMessage.mem_firstListed_iff.1 (List.mem_of_mem_filter (List.mem_mergeSort.1 h))

theorem mem_unknown (hd : store.Distinct) (hi : ∀ id, store.IndexedAt id) {l : RemoteMessage} :
    l ∈ store.unknown listed ↔ listed.find? (·.id == l.id) = some l ∧
      ∀ r ∈ store.messages, r.remoteId ≠ l.id := by
  rw [unknown, List.mem_mergeSort, List.mem_filter, RemoteMessage.mem_firstListed_iff,
    Option.isNone_iff_eq_none, Option.eq_none_iff_forall_ne_some]
  refine and_congr_right fun _ => forall_congr' fun r => ?_
  rw [ne_eq, getByRemoteId?_eq_some hd hi, not_and]

theorem nodup_gone (hids : (store.messages.map (·.remoteId)).Nodup) :
    ((store.gone listed).map (·.remoteId)).Nodup :=
  hids.sublist (List.filter_sublist.map _)

theorem nodup_changed : ((store.changed listed).map (·.id)).Nodup :=
  (RemoteMessage.nodup_firstListed listed).sublist (List.filter_sublist.map _)

theorem pairwise_unknown : (store.unknown listed).Pairwise RemoteMessage.Precedes :=
  RemoteMessage.pairwise_sorted
    ((List.pairwise_map.1 (RemoteMessage.nodup_firstListed listed)).filter _)

theorem nodup_unknown : ((store.unknown listed).map (·.id)).Nodup := by
  have hperm := (List.mergeSort_perm ((RemoteMessage.firstListed listed).filter fun l =>
    (store.getByRemoteId? l.id).isNone) RemoteMessage.cameBefore).map (·.id)
  exact hperm.nodup_iff.2
    ((RemoteMessage.nodup_firstListed listed).sublist (List.filter_sublist.map _))

/-- Corrections are those that a listing calls for: each message is concerned at most once, new
messages are created, those with other flags get the flags that are listed first, and those that
are not listed are removed unless they are marked as deleted. The messages to remove come first, in
the order of their UIDs, and the new ones last, in the remote order. -/
structure Calls (store : MessageStore) (listed : List RemoteMessage)
    (corrections : List Correction) : Prop where
  apart : (corrections.map Correction.remoteId).Nodup
  creates : ∀ id, .create id ∈ corrections ↔
    (∃ l ∈ listed, l.id = id) ∧ ∀ r ∈ store.messages, r.remoteId ≠ id
  merges : ∀ id flags, .mergeFlags id flags ∈ corrections ↔
    ∃ first, listed.find? (·.id == id) = some first ∧ first.flags = flags ∧
      ∃ r ∈ store.messages, r.remoteId = id ∧ ¬ r.flags.Agree first.flags
  removes : ∀ id, .remove id ∈ corrections ↔
    (∃ r ∈ store.messages, r.remoteId = id ∧ .deleted ∉ r.flags) ∧ ∀ l ∈ listed, l.id ≠ id
  ordered : ∃ (gone : List Message) (changed new : List RemoteMessage),
    corrections = gone.map (fun r => .remove r.remoteId) ++
      changed.map (fun l => .mergeFlags l.id l.flags) ++ new.map (fun l => .create l.id) ∧
    (∀ r ∈ gone, r ∈ store.messages) ∧ gone.Pairwise (fun a b => a.uid.val < b.uid.val) ∧
    (∀ first ∈ new, listed.find? (·.id == first.id) = some first) ∧
    new.Pairwise RemoteMessage.Precedes

theorem nodup_remoteIds (hd : store.Distinct) (hi : ∀ id, store.IndexedAt id) :
    (store.messages.map (·.remoteId)).Nodup := by
  refine List.pairwise_map.2 (hd.imp_of_mem fun {a b} ha hb hlt hid => ?_)
  rw [(hi b.remoteId).uid_eq ha hb hid rfl] at hlt
  exact Nat.lt_irrefl _ hlt

theorem calls_corrections (hd : store.Distinct) (hi : ∀ id, store.IndexedAt id)
    (listed : List RemoteMessage) : store.Calls listed (store.corrections listed) where
  apart := by
    have hnames : (store.corrections listed).map Correction.remoteId =
        (store.gone listed).map (·.remoteId) ++ (store.changed listed).map (·.id) ++
          (store.unknown listed).map (·.id) := by
      simp only [corrections_eq, List.map_append, List.map_map]
      rfl
    have hgone : ∀ r ∈ store.gone listed, ∀ l, listed.find? (·.id == l.id) = some l →
        r.remoteId ≠ l.id :=
      fun r hr l hl => Ne.symm ((mem_gone.1 hr).2.1 l (List.mem_of_find?_eq_some hl))
    rw [hnames]
    refine List.nodup_append.2 ⟨List.nodup_append.2 ⟨nodup_gone (nodup_remoteIds hd hi),
      nodup_changed, ?_⟩, nodup_unknown, ?_⟩
    · simp only [List.forall_mem_map]
      exact fun r hr l hl => hgone r hr l ((mem_changed hd hi).1 hl).1
    · intro id hid other hother heq
      obtain ⟨l, hl, rfl⟩ := List.mem_map.1 hother
      obtain ⟨hfirst, hnobody⟩ := (mem_unknown hd hi).1 hl
      rcases List.mem_append.1 hid with hid | hid <;> obtain ⟨x, hx, rfl⟩ := List.mem_map.1 hid
      · exact hgone x hx l hfirst heq
      · obtain ⟨_, r, hr, hname, _⟩ := (mem_changed hd hi).1 hx
        exact hnobody r hr (hname.trans heq)
  creates := by
    intro id
    have hmem : .create id ∈ store.corrections listed ↔ ∃ l ∈ store.unknown listed, l.id = id := by
      simp [corrections_eq]
    rw [hmem]
    constructor
    · rintro ⟨l, hl, rfl⟩
      obtain ⟨hfirst, hnobody⟩ := (mem_unknown hd hi).1 hl
      exact ⟨⟨l, List.mem_of_find?_eq_some hfirst, rfl⟩, hnobody⟩
    · rintro ⟨hlisted, hnobody⟩
      obtain ⟨l, hl, rfl⟩ := RemoteMessage.mem_firstListed.2 hlisted
      exact ⟨l, (mem_unknown hd hi).2 ⟨RemoteMessage.mem_firstListed_iff.1 hl, hnobody⟩, rfl⟩
  merges := by
    intro id flags
    have hmem : .mergeFlags id flags ∈ store.corrections listed ↔
        ∃ l ∈ store.changed listed, l.id = id ∧ l.flags = flags := by
      simp [corrections_eq]
    rw [hmem]
    constructor
    · rintro ⟨l, hl, rfl, rfl⟩
      obtain ⟨hfirst, hdiffers⟩ := (mem_changed hd hi).1 hl
      exact ⟨l, hfirst, rfl, hdiffers⟩
    · rintro ⟨first, hfirst, rfl, hdiffers⟩
      obtain rfl : first.id = id := by simpa using List.find?_some hfirst
      exact ⟨first, (mem_changed hd hi).2 ⟨hfirst, hdiffers⟩, rfl, rfl⟩
  removes := by
    intro id
    have hmem : .remove id ∈ store.corrections listed ↔
        ∃ r ∈ store.gone listed, r.remoteId = id := by
      simp [corrections_eq]
    rw [hmem]
    constructor
    · rintro ⟨r, hr, rfl⟩
      obtain ⟨hr, hunlisted, hkept⟩ := mem_gone.1 hr
      exact ⟨⟨r, hr, rfl, hkept⟩, hunlisted⟩
    · rintro ⟨⟨r, hr, rfl, hkept⟩, hunlisted⟩
      exact ⟨r, mem_gone.2 ⟨hr, hunlisted, hkept⟩, rfl⟩
  ordered := ⟨store.gone listed, store.changed listed, store.unknown listed,
    corrections_eq store listed, fun _ hr => (mem_gone.1 hr).1, hd.filter _,
    fun _ => first_of_mem_unknown, pairwise_unknown⟩

theorem nodup_ofMessages {α : Type} (f : Message → α) (l : List Message) :
    ((ofMessages l).messages.map f).Nodup ↔ (l.map f).Nodup :=
  ((List.mergeSort_perm l notAfter).map f).nodup_iff

theorem distinct_of_nodup (h : (store.messages.map (·.uid)).Nodup) : store.Distinct :=
  (store.ascending.and (List.pairwise_map.1 h)).imp fun hab =>
    Nat.lt_of_le_of_ne hab.1 fun heq => hab.2 (Uid.ext_val heq)

/-- A store of messages that have no UID and no remote name in common is corrected by exactly what
the listing calls for, whatever is listed, and however often. Its index is the one that it is made
with, which is also the only one that the check of integrity lets pass. -/
theorem corrections_called_for (huids : (store.messages.map (·.uid)).Nodup)
    (hids : (store.messages.map (·.remoteId)).Nodup) (hindex : store.index = .ofList store.names)
    (listed : List RemoteMessage) : store.Calls listed (store.corrections listed) :=
  calls_corrections (distinct_of_nodup huids) ((index_eq_iff hids).1 hindex) listed

/-- A store that has drifted from the remote account: two of its messages are gone there, a third is
as well but marked as deleted, one has other flags, and one differs by what only the server says. -/
def drifted : MessageStore :=
  .ofMessages
    [{ remoteId := "e", uid := ⟨.clamp 9⟩, modseq := .zero },
      { remoteId := "d", uid := ⟨.clamp 4⟩, modseq := .zero
        flags := .ofList [.seen, .recent, .undecryptable] },
      { remoteId := "b", uid := ⟨.clamp 7⟩, modseq := .zero },
      { remoteId := "c", uid := ⟨.clamp 3⟩, modseq := .zero, flags := .ofList [.deleted] },
      { remoteId := "a", uid := ⟨.clamp 2⟩, modseq := .zero }]

/-- What is listed then, some of it more than once and not always alike. -/
def relisted : List RemoteMessage :=
  [{ id := "f", order := 9 }, { id := "b", flags := .ofList [.flagged] },
    { id := "d", flags := .ofList [.seen] }, { id := "h", order := 5 }, { id := "b" },
    { id := "g", order := 5 }, { id := "h", order := 1 }, { id := "d" }]

theorem corrections_called_for_drifted :
    (drifted.messages.map (·.uid)).Nodup ∧ (drifted.messages.map (·.remoteId)).Nodup ∧
    drifted.index = .ofList drifted.names ∧
    drifted.corrections relisted =
      [.remove "a", .remove "e", .mergeFlags "b" (.ofList [.flagged]), .create "g", .create "h",
        .create "f"] ∧
    drifted.Calls relisted (drifted.corrections relisted) := by
  have huids : (drifted.messages.map (·.uid)).Nodup := (nodup_ofMessages ..).2 (by decide)
  have hids : (drifted.messages.map (·.remoteId)).Nodup := (nodup_ofMessages ..).2 (by decide)
  refine ⟨huids, hids, rfl, ?_, corrections_called_for huids hids rfl relisted⟩
  -- the equations of `isSome` are in the library, those of `isNone` are not
  simp only [corrections, ← Option.not_isSome]
  cbv

/-- Taking a change back may leave the index without the name of a message. To correct the messages
by a listing that has the name creates another message then. -/
theorem corrections_repeat_message :
    (Mailbox.cracked.store.messages.map (·.uid)).Nodup ∧
      (Mailbox.cracked.store.messages.map (·.remoteId)).Nodup ∧
      (∃ r ∈ Mailbox.cracked.store.messages, r.remoteId = "a") ∧
      Mailbox.cracked.store.corrections [{ id := "a" }] = [.create "a"] ∧
      ¬ Mailbox.cracked.store.Calls [{ id := "a" }]
        (Mailbox.cracked.store.corrections [{ id := "a" }]) := by
  have hknown : ∃ r ∈ Mailbox.cracked.store.messages, r.remoteId = "a" := by decide +kernel
  have hcreates : Mailbox.cracked.store.corrections [{ id := "a" }] = [.create "a"] := by
    decide +kernel
  refine ⟨by decide +kernel, by decide +kernel, hknown, hcreates, fun hcalls => ?_⟩
  obtain ⟨r, hr, hid⟩ := hknown
  have hmem : .create "a" ∈ Mailbox.cracked.store.corrections [{ id := "a" }] := by
    rw [hcreates]
    exact List.mem_singleton_self _
  exact ((hcalls.creates "a").1 hmem).2 r hr hid

end MessageStore

end MailBridge

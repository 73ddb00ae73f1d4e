import MailBridge.Proofs.WellKept

/-! # The figures of a mailbox

A mailbox keeps its figures from one change to the next and forgets them while it changes. What a
client is told is what counting the messages anew would give, whatever has been asked of the
mailbox before, and also in the middle of a change that may still be taken back.
-/

namespace MailBridge

/-- What the figures of a mailbox have to be. -/
structure Summary.Describes (figures : Summary) (m : Mailbox) : Prop where
  validity : figures.validity = m.uids.validity
  uidNext : ∀ uid, figures.uidNext = uid ↔
    m.uids.next? = some uid ∨ m.uids.next? = none ∧ uid = .greatest
  total : figures.total = m.store.messages.length
  recent : figures.recent = (m.store.messages.filter fun r => Flag.recent ∈ r.flags).length
  /-- The message at the position has not been read, and all before it have. -/
  firstUnseen : ∀ n, figures.firstUnseen? = some n ↔
    (∃ r, m.store.at? n = some r ∧ Flag.seen ∉ r.flags) ∧
      ∀ k r, k.val < n.val → m.store.at? k = some r → Flag.seen ∈ r.flags
  unseen : figures.unseen = (m.store.messages.filter fun r => Flag.seen ∉ r.flags).length
  modseq : figures.modseq = m.modseq

namespace MessageStore

/-- In a store without repeated UIDs every message is at a position that is a sequence number. -/
theorem lt_maxWord_of_getElem? {s : MessageStore} (h : s.Distinct) {i : Nat} {r : Message}
    (hr : s.messages[i]? = some r) : i < maxWord := by
  obtain ⟨hi, _⟩ := List.getElem?_eq_some_iff.1 hr
  exact Nat.lt_of_lt_of_le hi (Ascending.length_le h)

theorem findIdx?_ofIndex_eq_some {s : MessageStore} (h : s.Distinct) (p : Message → Bool)
    (n : Seqnum) :
    (s.messages.findIdx? p).map Seqnum.ofIndex = some n ↔
      (∃ r, s.at? n = some r ∧ p r = true) ∧
        ∀ k r, k.val < n.val → s.at? k = some r → p r = false := by
  rw [Option.map_eq_some_iff]
  constructor
  · rintro ⟨i, hfound, rfl⟩
    obtain ⟨hi, hp, hbefore⟩ := List.findIdx?_eq_some_iff_getElem.1 hfound
    have hword : i < maxWord := Nat.lt_of_lt_of_le hi (Ascending.length_le h)
    refine ⟨⟨s.messages[i], ?_, hp⟩, fun k r hk hr => ?_⟩
    · rw [at?, Seqnum.toIndex_ofIndex hword]
      exact List.getElem?_eq_getElem hi
    · rw [Seqnum.ofIndex_val hword, Seqnum.val_eq] at hk
      obtain ⟨hlt, hget⟩ := List.getElem?_eq_some_iff.1 hr
      have hnot := hbefore k.toIndex (by omega)
      rw [hget] at hnot
      exact Bool.eq_false_iff.2 hnot
  · rintro ⟨⟨r, hr, hp⟩, hbefore⟩
    obtain ⟨hi, hget⟩ := List.getElem?_eq_some_iff.1 hr
    have hword := lt_maxWord_of_getElem? h hr
    refine ⟨n.toIndex, List.findIdx?_eq_some_iff_getElem.2 ⟨hi, ?_, fun j hj => ?_⟩, ?_⟩
    · rw [hget]
      exact hp
    · have hjlen : j < s.messages.length := Nat.lt_trans hj hi
      have hjword : j < maxWord := Nat.lt_trans hj hword
      have hlt : (Seqnum.ofIndex j).val < n.val := by
        rw [Seqnum.ofIndex_val hjword, Seqnum.val_eq]
        omega
      have hfalse := hbefore (.ofIndex j) s.messages[j] hlt
        (by rw [at?, Seqnum.toIndex_ofIndex hjword]; exact List.getElem?_eq_getElem hjlen)
      exact Bool.eq_false_iff.1 hfalse
    · exact Seqnum.ext_val (by rw [Seqnum.ofIndex_val hword, Seqnum.val_eq])

end MessageStore

namespace Mailbox

variable {m m' : Mailbox}

theorem describes_compute (hd : m.store.Distinct) :
    (Summary.compute m.uids m.store m.modseq).Describes m where
  validity := rfl
  uidNext uid := by
    show m.uids.next?.getD .greatest = uid ↔ _
    cases hnext : m.uids.next? with
    | none => simp [eq_comm]
    | some next => simp
  total := by
    show min m.store.messages.length maxWord = _
    have hle : m.store.messages.length ≤ maxWord := Ascending.length_le hd
    omega
  recent := List.countP_eq_length_filter
  firstUnseen n := by
    show (m.store.messages.findIdx? _).map Seqnum.ofIndex = some n ↔ _
    rw [MessageStore.findIdx?_ofIndex_eq_some hd]
    simp [Flags.isSeen]
  unseen := by
    show m.store.messages.countP _ = _
    rw [List.countP_eq_length_filter]
    simp [Flags.isSeen]
  modseq := rfl

/-- What is asked of a mailbox: an edit that stands by itself, or a change that is kept, and saved
if there is a cache, or else taken back. -/
inductive Deed where
  | edit (e : Edit)
  | change (cache? : Option Cache) (c : Change)

def Deed.apply (m : Mailbox) : Deed → Mailbox
  | edit e => e.apply m
  | change cache? c => (SharedMailbox.perform { mailbox := m, cache? } c).mailbox

def doAll (deeds : List Deed) (m : Mailbox) : Mailbox := deeds.foldl Deed.apply m

/-- What becomes of a mailbox, seen after a deed or while a change is under way. -/
inductive Reaches (m : Mailbox) : Mailbox → Prop
  | between (deeds : List Deed) : Reaches m (m.doAll deeds)
  | within (deeds : List Deed) (edits : List Edit) :
      Reaches m ((m.doAll deeds).startJournal.editAll edits)

section Sound

variable {issued counted : Prop}

theorem Sound.apply_deed (h : m.Sound issued counted) (d : Deed) :
    (d.apply m).Sound issued counted := by
  cases d with
  | edit e => exact h.editAll [e]
  | change cache? c => exact SharedMailbox.sound_perform (s := { mailbox := m, cache? }) h c

theorem Sound.doAll (h : m.Sound issued counted) (deeds : List Deed) :
    (m.doAll deeds).Sound issued counted := by
  induction deeds generalizing m with
  | nil => exact h
  | cons d rest ih => exact ih (h.apply_deed d)

theorem Sound.reaches (h : m.Sound issued counted) (hreach : m.Reaches m') :
    m'.Sound issued counted := by
  cases hreach with
  | between deeds => exact h.doAll deeds
  | within deeds edits => exact (h.doAll deeds).startJournal.editAll edits

end Sound

/-- Whatever has been asked of a mailbox that began with sound identities, its figures are those
that counting its messages gives, and describe it. -/
theorem summary_describes (h : m.Initial) (hsound : m.checkIntegrity = .ok ())
    (hreach : m.Reaches m') :
    m'.summary = .compute m'.uids m'.store m'.modseq ∧ m'.summary.Describes m' := by
  have hd : m.store.Distinct := (checkIntegrity_iff.1 hsound).1.distinct
  have hbegin : m.Sound False False := ⟨hd, h.figured, nofun, nofun⟩
  have hend := hbegin.reaches hreach
  have hsummary := summary_of_figured hend.figured
  refine ⟨hsummary, ?_⟩
  rw [hsummary]
  exact describes_compute hend.distinct

/-- A message is read, its mark is taken off and another one comes; the first is expunged, but not
for good. -/
theorem summary_describes_of_deeds :
    let deeds : List Deed :=
      [.edit (.setFlags 0 .least (OrderedSet.insert .seen ∅) .add),
        .change none ⟨[.receive { remoteId := "b" }, .clearRecent fun _ => true], .ok ()⟩,
        .change none ⟨[.flushPending], .error (.conflict "INBOX" "change given up")⟩]
    savedQueued.Initial ∧ savedQueued.checkIntegrity = .ok () ∧
      (savedQueued.doAll deeds).summary.Describes (savedQueued.doAll deeds) ∧
      (savedQueued.doAll deeds).summary.firstUnseen? = Seqnum.ofNat? 2 :=
  ⟨savedQueued_beginsWell.initial, savedQueued_beginsWell.sound,
    (summary_describes savedQueued_beginsWell.initial savedQueued_beginsWell.sound
      (.between _)).2, by decide⟩

end Mailbox

end MailBridge

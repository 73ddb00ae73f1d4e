import MailBridge.Cache.Codec
import MailBridge.Proofs.DateText
import MailBridge.Proofs.FlagText

/-! # Rows read back as they are written

A message and the head of a mailbox are read back from their rows, apart from what is not saved,
if their numbers have room in a cell and their texts can be read back.
-/

namespace MailBridge

namespace Cell

theorem readText?_ofText? (s? : Option String) : (ofText? s?).readText? = some s? := by
  cases s? <;> rfl

theorem readInteger_ofNat {n : Nat} (h : n ≤ maxSigned) :
    (ofNat n).readInteger = some (n : Int) := by
  rw [ofNat, Nat.min_eq_left h]
  rfl

theorem readWord_ofNat {n : Nat} (h : n ≤ maxWord) : (ofNat n).readWord = some n := by
  have hroom : n ≤ maxSigned := Nat.le_trans h (by decide)
  have hword : (0 : Int) ≤ n ∧ (n : Int) ≤ 4294967295 := by
    unfold maxWord at h
    omega
  rw [ofNat, Nat.min_eq_left hroom, readWord, if_pos hword, Int.toNat_natCast]

theorem readWord_eq_some {cell : Cell} {n : Nat} (h : cell.readWord = some n) :
    cell = .integer n := by
  cases cell with
  | integer k =>
      simp only [readWord, Option.ite_none_right_eq_some, Option.some.injEq] at h
      obtain ⟨⟨hpos, _⟩, rfl⟩ := h
      rw [Int.toNat_of_nonneg hpos]
  | _ => cases h

theorem readText_eq_some {cell : Cell} {s : String} (h : cell.readText = some s) :
    cell = .text s := by
  cases cell with
  | text t => exact congrArg text (Option.some.inj h)
  | _ => cases h

theorem agrees_integer (a b : Int) : (integer a).agrees (integer b) = decide (a = b) := by
  have hpos : 0 < FloatFormat.double.one := by
    rw [FloatFormat.one, Nat.shiftLeft_eq, Nat.one_mul]
    exact Nat.two_pow_pos _
  have hne : (FloatFormat.double.one : Int) ≠ 0 := by omega
  rw [Bool.eq_iff_iff]
  simp [agrees, units?, Int.mul_eq_mul_right_iff hne]

end Cell

theorem Uid.ofNat?_val (uid : Uid) : Uid.ofNat? uid.val = some uid := by
  have hbounds : 0 < uid.val ∧ uid.val ≤ maxWord := ⟨uid.pos, uid.le_maxWord⟩
  simp [ofNat?, NzNumber.ofNat?, hbounds]

theorem Uid.val_of_ofNat? {n : Nat} {uid : Uid} (h : Uid.ofNat? n = some uid) : uid.val = n := by
  simp only [ofNat?, NzNumber.ofNat?, Option.map_eq_some_iff, Option.dite_none_right_eq_some,
    Option.some.injEq] at h
  obtain ⟨_, ⟨_, rfl⟩, rfl⟩ := h
  rfl

theorem Uid.cell_eq_iff {a b : Uid} : Cell.integer a.val = Cell.integer b.val ↔ a = b := by
  constructor
  · intro h
    exact ext_val (Int.ofNat.inj (Cell.integer.inj h))
  · intro h
    rw [h]

theorem Cell.ofNat_uid (uid : Uid) : Cell.ofNat uid.val = .integer uid.val := by
  rw [ofNat, Nat.min_eq_left (Nat.le_trans uid.le_maxWord (by decide))]

theorem Uid.cell_beq (a b : Uid) : (Cell.integer a.val == Cell.integer b.val) = decide (a = b) := by
  rw [Bool.eq_iff_iff, beq_iff_eq, decide_eq_true_eq, cell_eq_iff]

theorem Uid.cell_agrees (a b : Uid) :
    (Cell.integer a.val).agrees (.integer b.val) = decide (a = b) := by
  rw [Cell.agrees_integer, ← cell_beq, Bool.eq_iff_iff, beq_iff_eq, decide_eq_true_eq,
    Cell.integer.injEq]

theorem UidValidity.ofNat?_val (v : UidValidity) : UidValidity.ofNat? v.val = some v := by
  have hbounds : 0 < v.val ∧ v.val ≤ maxWord := ⟨v.pos, v.le_maxWord⟩
  simp [ofNat?, NzNumber.ofNat?, hbounds]

theorem ModSeq.clamp_val (n : ModSeq) : ModSeq.clamp n.val = n :=
  ext_val (Nat.min_eq_left n.le_maxLong)

/-- Whether the message can be read back from its row: its flags and its date can be written, and
its numbers have room. -/
structure Message.Writable (r : Message) : Prop where
  flags : ∀ flag ∈ r.flags, flag.Writable
  date : r.envelope.date.Writable
  order : r.order.toNat ≤ maxSigned
  modseq : r.modseq.val ≤ maxSigned

theorem Message.writable_iff {r : Message} : r.Writable ↔
    (∀ flag ∈ r.flags.toList, flag.Writable) ∧ r.envelope.date.Writable ∧
      r.order.toNat ≤ maxSigned ∧ r.modseq.val ≤ maxSigned :=
  ⟨fun h => ⟨h.flags, h.date, h.order, h.modseq⟩, fun h => ⟨h.1, h.2.1, h.2.2.1, h.2.2.2⟩⟩

instance (r : Message) : Decidable r.Writable := decidable_of_iff' _ Message.writable_iff

/-- The message without its local changes, which are not saved. -/
def Message.plain (r : Message) : Message := { r with localChanges := ∅ }

namespace MessageRow

/-- Reads a row: the message, and whether it waits to be expunged. -/
def saved? (row : MessageRow) : Option (Message × Bool) :=
  row.read?.bind fun (uid, message, pending) =>
    (Uid.ofNat? uid).map fun uid => (message uid, pending)

theorem saved?_ofMessage {r : Message} (h : r.Writable) (name : String) (pending : Bool) :
    (ofMessage name pending r).saved? = some (r.plain, pending) := by
  have huid := Cell.readWord_ofNat (n := r.uid.val) r.uid.le_maxWord
  have hsize := Cell.readWord_ofNat (n := r.size.toNat) (by
    have := r.size.toNat_lt
    unfold maxWord
    omega)
  have hmodseq := Cell.readInteger_ofNat h.modseq
  have horder := Cell.readInteger_ofNat h.order
  have hpending : (Cell.ofNat (if pending then 1 else 0)).readBool = some pending := by
    cases pending <;> rfl
  simp only [saved?, read?, ofMessage, huid, hsize, hmodseq, horder, hpending, Cell.readText,
    Cell.readText?_ofText?, Option.bind_eq_bind, Option.bind_some, Option.pure_def,
    Uid.ofNat?_val, Option.map_some, Flags.ofAtoms_text h.flags, Date.read?_text h.date,
    Option.getD_some, Int.toNat_natCast, ModSeq.clamp_val, UInt32.ofNat_toNat,
    UInt64.ofNat_toNat]
  rfl

theorem key_of_saved? {row : MessageRow} {e : Message × Bool} (h : row.saved? = some e) :
    row.uid = .integer e.1.uid.val ∧ row.remoteId = .text e.1.remoteId ∧ e.1.plain = e.1 := by
  obtain ⟨_, hread, h⟩ := Option.bind_eq_some_iff.1 h
  obtain ⟨uid, hword, rfl⟩ := Option.map_eq_some_iff.1 h
  obtain ⟨n, huid, hread⟩ := Option.bind_eq_some_iff.1 hread
  obtain ⟨id, hid, hread⟩ := Option.bind_eq_some_iff.1 hread
  -- the other cells do not matter
  iterate 13 obtain ⟨_, _, hread⟩ := Option.bind_eq_some_iff.1 hread
  cases hread
  refine ⟨?_, Cell.readText_eq_some hid, rfl⟩
  rw [Cell.readWord_eq_some huid, Uid.val_of_ofNat? hword]

end MessageRow

/-- What is saved of a mailbox beside its messages. -/
structure MailboxHead where
  uids : UidSpace
  modseq : ModSeq
  cursor : Option String

def Mailbox.head (m : Mailbox) : MailboxHead := ⟨m.uids, m.modseq, m.cursor⟩

def MailboxRow.head? (row : MailboxRow) : Option MailboxHead := do
  let validity ← row.uidValidity.readWord
  let next ← row.uidNext.readWord
  let modseq ← row.modseq.readInteger
  let cursor ← row.cursor.readText?
  let validity ← UidValidity.ofNat? validity
  return ⟨⟨validity, Uid.ofNat? next⟩, .clamp modseq.toNat, cursor⟩

theorem MailboxRow.head?_ofMailbox {m : Mailbox} (h : m.modseq.val ≤ maxSigned) :
    (ofMailbox m).head? = some m.head := by
  have hvalidity := Cell.readWord_ofNat (n := m.uids.validity.val) m.uids.validity.le_maxWord
  have hmodseq := Cell.readInteger_ofNat h
  obtain ⟨next, hnext, hread⟩ : ∃ n, (ofMailbox m).uidNext.readWord = some n ∧
      Uid.ofNat? n = m.uids.next? := by
    cases hcase : m.uids.next? with
    | none =>
        refine ⟨0, ?_, rfl⟩
        simp only [ofMailbox, hcase]
        exact Cell.readWord_ofNat (Nat.zero_le _)
    | some uid =>
        refine ⟨uid.val, ?_, uid.ofNat?_val⟩
        simp only [ofMailbox, hcase]
        exact Cell.readWord_ofNat uid.le_maxWord
  simp only [head?, hnext]
  simp [ofMailbox, hvalidity, hmodseq, Cell.readText?_ofText?, UidValidity.ofNat?_val, hread,
    ModSeq.clamp_val, Mailbox.head]

end MailBridge

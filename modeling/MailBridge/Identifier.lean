import MailBridge.Ordered.Key

/-! # Identifiers of messages, epochs and changes

A message has a *UID*, which it keeps for as long as it exists, and in each frozen view of a
mailbox a *sequence number*, which is its position there. A *UID validity* names the epoch in
which UIDs mean something. These three are positive 32-bit numbers. A *modification sequence*
counts the changes of a mailbox and stops at the largest 64-bit number.
-/

namespace MailBridge

def maxWord : Nat := 4294967295

def maxLong : Nat := 18446744073709551615

/-- A point in time, in milliseconds since the epoch of 1970. -/
abbrev Instant := Int

/-- A positive 32-bit number, the `nz-number` of the mail grammar. -/
structure NzNumber where
  val : Nat
  pos : 0 < val
  le_maxWord : val ≤ maxWord
deriving DecidableEq

namespace NzNumber

theorem ext_val {a b : NzNumber} (h : a.val = b.val) : a = b := by
  cases a; cases b; cases h; rfl

/-- The number itself, if it is positive and fits in 32 bits. -/
def ofNat? (n : Nat) : Option NzNumber :=
  if h : 0 < n ∧ n ≤ maxWord then some ⟨n, h.1, h.2⟩ else none

/-- The nearest positive 32-bit number: 1 for zero, the largest one for all that are larger. -/
def clamp (n : Nat) : NzNumber :=
  ⟨max 1 (min n maxWord), by omega, by unfold maxWord; omega⟩

def one : NzNumber := ⟨1, by decide, by decide⟩

def greatest : NzNumber := ⟨maxWord, by decide, by decide⟩

def next? (n : NzNumber) : Option NzNumber := ofNat? (n.val + 1)

end NzNumber

/-- The identifier of a message in its mailbox: assigned once, and not reused in an epoch. -/
structure Uid extends NzNumber
deriving DecidableEq

namespace Uid

theorem ext_val {a b : Uid} (h : a.val = b.val) : a = b := by
  cases a; cases b; exact congrArg Uid.mk (NzNumber.ext_val h)

/-- The UID with the given number, which must be positive and fit in 32 bits. -/
def ofNat? (n : Nat) : Option Uid := (NzNumber.ofNat? n).map Uid.mk

def least : Uid := ⟨.one⟩

def greatest : Uid := ⟨.greatest⟩

/-- The UID to issue after this one; there is none after the last. -/
def next? (uid : Uid) : Option Uid := uid.toNzNumber.next?.map Uid.mk

instance : ToString Uid := ⟨fun uid => toString uid.val⟩

/-- The UID under the name of its kind, as a log shows it. -/
def label (uid : Uid) : String := s!"Uid({uid})"

instance : KeyOrder Uid where
  lt a b := a.val < b.val
  decidableLt a b := inferInstanceAs (Decidable (a.val < b.val))
  irrefl a := Nat.lt_irrefl a.val
  trans := Nat.lt_trans
  connected a b := (Nat.lt_trichotomy a.val b.val).imp_right (Or.imp_left ext_val)

end Uid

/-- The position of a message, counted from 1, in the order of UIDs of a frozen view. -/
structure Seqnum extends NzNumber
deriving DecidableEq

namespace Seqnum

/-- The sequence number with the given value, which must be positive and fit in 32 bits. -/
def ofNat? (n : Nat) : Option Seqnum := (NzNumber.ofNat? n).map Seqnum.mk

def least : Seqnum := ⟨.one⟩

def greatest : Seqnum := ⟨.greatest⟩

/-- The position counted from 0. -/
def toIndex (n : Seqnum) : Nat := n.val - 1

/-- The sequence number of a position counted from 0; positions too large for one share the
greatest. -/
def ofIndex (i : Nat) : Seqnum := ⟨.clamp (i + 1)⟩

instance : ToString Seqnum := ⟨fun n => toString n.val⟩

/-- The sequence number under the name of its kind, as a log shows it. -/
def label (n : Seqnum) : String := s!"Seqnum({n})"

end Seqnum

/-- The epoch of the UIDs of a mailbox: a new one voids every UID that a client has seen. -/
structure UidValidity extends NzNumber
deriving DecidableEq

namespace UidValidity

/-- The UID validity with the given number, which must be positive and fit in 32 bits. -/
def ofNat? (n : Nat) : Option UidValidity := (NzNumber.ofNat? n).map UidValidity.mk

/-- The first UID validity of a mailbox: the whole seconds of the clock, as far as they are a
positive 32-bit number. A time before 1970 counts as too large. -/
def initial (now : Instant) : UidValidity :=
  let seconds := now.fdiv 1000
  if seconds < 0 then ⟨.greatest⟩ else ⟨.clamp seconds.toNat⟩

/-- A UID validity above this one, and not behind the clock: one more or the clock's, whichever
is greater, up to the greatest there is. -/
def next (v : UidValidity) (now : Instant) : UidValidity :=
  ⟨.clamp (max (v.val + 1) (initial now).val)⟩

instance : ToString UidValidity := ⟨fun v => toString v.val⟩

end UidValidity

/-- The number of changes made to a mailbox, which stops at the largest 64-bit number. -/
structure ModSeq where
  val : Nat
  le_maxLong : val ≤ maxLong
deriving DecidableEq

namespace ModSeq

theorem ext_val {a b : ModSeq} (h : a.val = b.val) : a = b := by
  cases a; cases b; cases h; rfl

def zero : ModSeq := ⟨0, by decide⟩

instance : Inhabited ModSeq := ⟨zero⟩

/-- The modification sequence with the given value, which must fit in 64 bits. -/
def ofNat? (n : Nat) : Option ModSeq := if h : n ≤ maxLong then some ⟨n, h⟩ else none

/-- The modification sequence with the given value, or the last one if it is too large. -/
def clamp (n : Nat) : ModSeq := ⟨min n maxLong, by omega⟩

def next (m : ModSeq) : ModSeq := ⟨min (m.val + 1) maxLong, by omega⟩

instance : ToString ModSeq := ⟨fun m => toString m.val⟩

end ModSeq

end MailBridge

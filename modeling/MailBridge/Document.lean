import MailBridge.Identifier

/-! # Documents

A document is a tree of named and listed values, in which settings are given.
-/

namespace MailBridge

inductive Document where
  | null
  | bool (b : Bool)
  /-- A whole number: one of 64 bits, or a negative one of 64 bits with its sign. -/
  | number (n : Int)
  /-- Any other number. -/
  | otherNumber
  | text (s : String)
  | list (items : List Document)
  /-- Named values; no two have the same name. -/
  | object (entries : List (String × Document))

namespace Document

instance : Inhabited Document := ⟨.null⟩

def get? (name : String) : Document → Option Document
  | object entries => entries.lookup name
  | _ => none

def bool? : Document → Option Bool
  | bool b => some b
  | _ => none

def text? : Document → Option String
  | text s => some s
  | _ => none

/-- Reads a number from zero up to the given one. -/
def upTo? (max : Nat) : Document → Option Nat
  | number n => if 0 ≤ n ∧ n ≤ max then some n.toNat else none
  | _ => none

def isList : Document → Bool
  | list _ => true
  | _ => false

end Document

end MailBridge

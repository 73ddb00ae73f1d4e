/-! # Keys with a total order

Sorted sets and sorted maps are kept in the order of their keys. This module says what such
an order has to satisfy, and orders numbers and texts.
-/

namespace MailBridge

universe u

/-- A decidable strict order under which two different keys always compare. -/
class KeyOrder (κ : Type u) extends LT κ where
  decidableLt : DecidableLT κ
  irrefl (a : κ) : ¬ a < a
  trans {a b c : κ} : a < b → b < c → a < c
  connected (a b : κ) : a < b ∨ a = b ∨ b < a

namespace KeyOrder

instance {κ : Type u} [KeyOrder κ] : DecidableLT κ := KeyOrder.decidableLt

variable {κ : Type u} [KeyOrder κ]

theorem asymm {a b : κ} (h : a < b) : ¬ b < a := fun h' => irrefl a (trans h h')

theorem ne_of_lt {a b : κ} (h : a < b) : a ≠ b := fun e => irrefl b (e ▸ h)

theorem eq_of_not_lt {a b : κ} (h : ¬ a < b) (h' : ¬ b < a) : a = b := by
  rcases connected a b with hlt | heq | hgt
  · exact absurd hlt h
  · exact heq
  · exact absurd hgt h'

end KeyOrder

instance : KeyOrder Nat where
  decidableLt := inferInstance
  irrefl := Nat.lt_irrefl
  trans := Nat.lt_trans
  connected := Nat.lt_trichotomy

/-- Texts are ordered by code point. -/
instance : KeyOrder String where
  decidableLt := inferInstance
  irrefl := String.lt_irrefl
  trans := String.lt_trans
  connected := Std.lt_trichotomy

end MailBridge

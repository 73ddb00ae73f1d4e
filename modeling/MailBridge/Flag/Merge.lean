import MailBridge.Flag.Set
import MailBridge.Identifier
import MailBridge.Ordered.Map

/-! # Merging remote flags into local ones

A flag that was changed locally stays as it is until the remote account tells of a later state.
Every other flag follows the remote account, except the mark of a recent message, which the
remote account does not know.
-/

namespace MailBridge

/-- When flags were last changed locally, as far as no later remote state has come in. -/
abbrev LocalChanges := OrderedMap Flag Instant

namespace LocalChanges

/-- Whether a flag was changed locally at the given time or later. -/
def holds (changes : LocalChanges) (taken : Instant) (flag : Flag) : Bool :=
  match changes.get? flag with
  | some changed => decide (taken ≤ changed)
  | none => false

/-- Forgets the changes made before the given time. -/
def forgetBefore (taken : Instant) (changes : LocalChanges) : LocalChanges :=
  changes.filter fun _ changed => decide (taken ≤ changed)

/-- Whether some change was made before the given time. -/
def anyBefore (taken : Instant) (changes : LocalChanges) : Bool :=
  changes.values.any fun changed => decide (changed < taken)

end LocalChanges

namespace Flags

/-- The local flags after a remote state taken at the given time. -/
def merge (here : Flags) (changes : LocalChanges) (remote : Flags) (taken : Instant) : Flags :=
  (here.union remote).filter fun flag =>
    if flag = .recent || changes.holds taken flag then decide (flag ∈ here)
    else decide (flag ∈ remote)

end Flags

end MailBridge

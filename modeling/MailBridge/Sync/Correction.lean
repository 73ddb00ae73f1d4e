import MailBridge.MessageStore
import MailBridge.Remote.Message

/-! # What a listing corrects

Comparing the local messages with a full listing gives the corrections that make them match:
first the messages that are gone, then the flags that differ, then the new messages in the order
in which they came. A message that is listed more than once counts as it is listed first.
-/

namespace MailBridge

/-- One step towards matching the remote account. -/
inductive Correction where
  /-- The message is not known here. -/
  | create (id : RemoteId)
  /-- The message has other flags here. -/
  | mergeFlags (id : RemoteId) (flags : Flags)
  /-- The message is no longer listed. -/
  | remove (id : RemoteId)
deriving DecidableEq

namespace Correction

def text : Correction → String
  | create id => s!"Creating record for remote message {id}"
  | mergeFlags id flags => s!"Merging flags {Flags.text flags} of remote message {id}"
  | remove id => s!"Removing record of remote message {id}"

end Correction

namespace Flags

/-- The flags apart from those that the server sets by itself. -/
def comparable (flags : Flags) : Flags :=
  flags.filter fun flag => flag ≠ .recent && flag ≠ .undecryptable

end Flags

namespace RemoteMessage

/-- The messages without those listed before under the same name. -/
def firstListed : List RemoteMessage → List RemoteMessage
  | [] => []
  | m :: rest => m :: (firstListed rest).filter fun other => other.id ≠ m.id

/-- Whether a message came before another: by its place in the remote order, then by its name. -/
def cameBefore (a b : RemoteMessage) : Bool :=
  decide (a.order < b.order) || (a.order == b.order && decide (¬ b.id < a.id))

end RemoteMessage

namespace MessageStore

/-- The corrections that make the messages match a listing. -/
def corrections (store : MessageStore) (listed : List RemoteMessage) : List Correction :=
  let listed := RemoteMessage.firstListed listed
  let removals := store.messages.filter fun m =>
    !(listed.any fun l => l.id == m.remoteId) && !Flags.isDeleted m.flags
  let updates := listed.filter fun l =>
    match store.getByRemoteId? l.id with
    | some m => Flags.comparable m.flags ≠ Flags.comparable l.flags
    | none => false
  let creations := listed.filter fun l => (store.getByRemoteId? l.id).isNone
  removals.map (fun m => .remove m.remoteId) ++ updates.map (fun l => .mergeFlags l.id l.flags) ++
    (creations.mergeSort RemoteMessage.cameBefore).map fun l => .create l.id

end MessageStore

end MailBridge

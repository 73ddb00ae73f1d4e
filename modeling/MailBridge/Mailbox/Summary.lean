import MailBridge.MessageStore
import MailBridge.UidSpace

/-! # Summaries

The figures of a mailbox that a client is told when it selects the mailbox or asks for its
status.
-/

namespace MailBridge

/-- The figures of a mailbox. -/
structure Summary where
  validity : UidValidity
  /-- The UID that the next message is expected to have. -/
  uidNext : Uid
  /-- The number of messages. -/
  total : Nat
  /-- The number of recent messages. -/
  recent : Nat
  /-- The position of the first message that has not been read. -/
  firstUnseen? : Option Seqnum
  /-- The number of messages that have not been read. -/
  unseen : Nat
  modseq : ModSeq
deriving DecidableEq

namespace Summary

/-- The figures of the given messages. -/
def compute (uids : UidSpace) (store : MessageStore) (modseq : ModSeq) : Summary where
  validity := uids.validity
  uidNext := uids.predicted
  total := min store.size maxWord
  recent := store.messages.countP fun m => Flags.isRecent m.flags
  firstUnseen? := (store.messages.findIdx? fun m => !Flags.isSeen m.flags).map Seqnum.ofIndex
  unseen := store.messages.countP fun m => !Flags.isSeen m.flags
  modseq := modseq

end Summary

end MailBridge

import MailBridge.Proofs.LocalFlags

/-! # A later state of the remote account supersedes an earlier one

The remote account tells the flags of a message as a whole. Once a later state of them has come in,
it makes no difference whether an earlier one came in before, except that the message may carry a
later modification sequence. A state that comes in again changes nothing at all.
-/

namespace MailBridge

namespace LocalChanges

variable (changes : LocalChanges) {earlier later : Instant}

theorem holds_forgetBefore (hle : earlier ≤ later) (flag : Flag) :
    (changes.forgetBefore earlier).holds later flag = changes.holds later flag := by
  rw [holds_eq, holds_eq, get?_forgetBefore]
  cases changes.get? flag with
  | none => rfl
  | some changed => grind

theorem holds_mono (hle : earlier ≤ later) {flag : Flag} (h : changes.holds later flag = true) :
    changes.holds earlier flag = true := by
  rw [holds_eq] at h ⊢
  cases hchanged : changes.get? flag with
  | none => simp [hchanged] at h
  | some changed => grind

theorem forgetBefore_forgetBefore (hle : earlier ≤ later) :
    (changes.forgetBefore earlier).forgetBefore later = changes.forgetBefore later := by
  refine OrderedMap.ext_get? fun flag => ?_
  simp only [get?_forgetBefore]
  cases changes.get? flag with
  | none => rfl
  | some changed => grind

theorem anyBefore_forgetBefore (taken : Instant) :
    (changes.forgetBefore taken).anyBefore taken = false := by
  refine List.any_eq_false.2 fun changed hchanged => ?_
  obtain ⟨e, he, rfl⟩ := List.mem_map.1 hchanged
  have hkept := (List.mem_filter.1 he).2
  grind

end LocalChanges

namespace Message

variable (r : Message) {flag : Flag}

/-- The message without the time of its last change. -/
def undated (r : Message) : Message := { r with modseq := .zero }

/-- The flags of a message once the remote account has told of them: the mark of a recent message
stays, the mark of one that cannot be read is set, and any other flag that a client's change does
not hold follows the remote account. -/
theorem mem_flags_merged (remote : Flags) (taken : Instant) (next : ModSeq) :
    flag ∈ (r.merged remote taken next).flags ↔
      (flag = .undecryptable ∧ r.isUndecryptable = true) ∨
        if flag = .recent ∨ r.localChanges.holds taken flag = true then flag ∈ r.flags
        else flag ∈ remote := by
  rw [← Flags.mem_merge]
  unfold merged
  cases r.isUndecryptable <;> simp

theorem flags_merged_merged {earlier later : Instant} (hle : earlier ≤ later) (old new : Flags)
    (next next' next'' : ModSeq) :
    ((r.merged old earlier next).merged new later next').flags =
      (r.merged new later next'').flags := by
  refine OrderedSet.ext fun flag => ?_
  have hheld : r.localChanges.holds later flag = true → r.localChanges.holds earlier flag = true :=
    r.localChanges.holds_mono hle
  have hkept : (r.merged old earlier next).localChanges.holds later flag =
      r.localChanges.holds later flag := r.localChanges.holds_forgetBefore hle flag
  simp only [mem_flags_merged, hkept, isUndecryptable_merged]
  grind

theorem localChanges_merged_merged {earlier later : Instant} (hle : earlier ≤ later)
    (old new : Flags) (next next' next'' : ModSeq) :
    ((r.merged old earlier next).merged new later next').localChanges =
      (r.merged new later next'').localChanges :=
  r.localChanges.forgetBefore_forgetBefore hle

/-- A later state of the flags leaves no trace of an earlier one but the time of the change. -/
theorem undated_merged_merged {earlier later : Instant} (hle : earlier ≤ later) (old new : Flags)
    (next next' next'' : ModSeq) :
    ((r.merged old earlier next).merged new later next').undated =
      (r.merged new later next'').undated := by
  have hflags := r.flags_merged_merged hle old new next next' next''
  have hchanges := r.localChanges_merged_merged hle old new next next' next''
  calc
    _ = { r.undated with
          flags := ((r.merged old earlier next).merged new later next').flags
          localChanges := ((r.merged old earlier next).merged new later next').localChanges } := rfl
    _ = { r.undated with
          flags := (r.merged new later next'').flags
          localChanges := (r.merged new later next'').localChanges } := by rw [hflags, hchanges]
    _ = _ := rfl

theorem ext_undated {r r' : Message} (h : r.undated = r'.undated) (hmodseq : r.modseq = r'.modseq) :
    r = r' := by
  cases r
  cases r'
  simp_all [undated]

theorem merged_again (remote : Flags) (taken : Instant) (next next' : ModSeq) :
    (r.merged remote taken next).merged remote taken next' = r.merged remote taken next := by
  have hle : taken ≤ taken := Int.le_refl taken
  refine ext_undated (r.undated_merged_merged hle remote remote next next' next) ?_
  exact if_pos (r.flags_merged_merged hle remote remote next next' next)

end Message

namespace Mailbox

variable {m : Mailbox} {id : RemoteId} {uid : Uid}

theorem mergeFlags_cases (m : Mailbox) (id : RemoteId) :
    (∀ remote taken, m.mergeFlags id remote taken = (none, m)) ∨
      ∃ uid r, m.store.uidOf? id = some uid ∧ m.store.get? uid = some r := by
  cases hname : m.store.uidOf? id with
  | none => exact .inl fun remote taken => by simp only [mergeFlags, hname]
  | some uid =>
      cases found : m.store.get? uid with
      | none => exact .inl fun remote taken => by simp only [mergeFlags, hname, found]
      | some r => exact .inr ⟨uid, r, rfl, found⟩

theorem fst_mergeFlags {r : Message} (hname : m.store.uidOf? id = some uid)
    (found : m.store.get? uid = some r) (remote : Flags) (taken : Instant) :
    (m.mergeFlags id remote taken).1 =
      some (uid, decide ((r.merged remote taken m.modseq.next).flags ≠ r.flags)) := by
  by_cases hsame : (r.merged remote taken m.modseq.next).flags = r.flags
  · rw [decide_eq_false (not_not_intro hsame)]
    unfold Message.merged at hsame
    unfold mergeFlags
    simp only [hname, found]
    rw [if_neg (not_not_intro hsame)]
    split <;> rfl
  · rw [decide_eq_true hsame]
    unfold Message.merged at hsame
    unfold mergeFlags
    simp only [hname, found]
    rw [if_pos hsame]

/-- A state of the flags that changes nothing of the message leaves the whole mailbox as it is. -/
theorem mergeFlags_of_merged_eq {r : Message} {remote : Flags} {taken : Instant}
    (hname : m.store.uidOf? id = some uid) (found : m.store.get? uid = some r)
    (h : r.merged remote taken m.modseq.next = r) :
    m.mergeFlags id remote taken = (some (uid, false), m) := by
  have hflags : (r.merged remote taken m.modseq.next).flags = r.flags := by rw [h]
  have hnone : r.localChanges.anyBefore taken = false := by
    rw [← h]
    exact r.localChanges.anyBefore_forgetBefore taken
  unfold Message.merged at hflags
  unfold mergeFlags
  simp only [hname, found]
  rw [if_neg (not_not_intro hflags), if_neg (Bool.eq_false_iff.1 hnone)]

theorem get?_mergeFlags_self {r : Message} (hname : m.store.uidOf? id = some uid)
    (found : m.store.get? uid = some r) (remote : Flags) (taken : Instant) :
    (m.mergeFlags id remote taken).2.store.get? uid =
      some (r.merged remote taken m.modseq.next) := by
  rw [get?_mergeFlags hname, if_pos rfl, found, Option.map_some]

/-- Once a later state of the flags has come in, an earlier one leaves no trace in any message but
the time of the last change, and the later state once more changes nothing. -/
theorem mergeFlags_supersedes {earlier later : Instant} (hle : earlier ≤ later) (m : Mailbox)
    (id : RemoteId) (old new : Flags) :
    (∀ uid, (((m.mergeFlags id old earlier).2.mergeFlags id new later).2.store.get? uid).map
        Message.undated = ((m.mergeFlags id new later).2.store.get? uid).map Message.undated) ∧
      (m.mergeFlags id new later).2.mergeFlags id new later =
        ((m.mergeFlags id new later).1.map fun told => (told.1, false),
          (m.mergeFlags id new later).2) := by
  rcases mergeFlags_cases m id with hnone | ⟨uid, r, hname, found⟩
  · simp only [hnone, implies_true, true_and]
    rfl
  · have hnameOld := (uidOf?_mergeFlags id old earlier m id).trans hname
    have hnameNew := (uidOf?_mergeFlags id new later m id).trans hname
    constructor
    · intro other
      rw [get?_mergeFlags hnameOld, get?_mergeFlags hname, get?_mergeFlags hname]
      split
      · next heq =>
        rw [heq, found]
        exact congrArg some (r.undated_merged_merged hle old new ..)
      · rfl
    · rw [fst_mergeFlags hname found]
      refine mergeFlags_of_merged_eq hnameNew (get?_mergeFlags_self hname found new later) ?_
      exact r.merged_again new later ..

/-- A client has marked the message as read between the two states, and the later one knows it. -/
theorem mergeFlags_supersedes_read : (50 : Instant) ≤ 150 ∧
    ((read.mergeFlags "a" (.ofList [.flagged]) 50).2.mergeFlags "a" (.ofList [.seen]) 150).2.bears
      .flagged .least = false ∧
    (read.mergeFlags "a" (.ofList [.flagged]) 50).2.bears .flagged .least = true ∧
    ((read.mergeFlags "a" (.ofList [.seen]) 150).2.mergeFlags "a" (.ofList [.seen]) 150).1 =
      some (.least, false) := by
  have hle : (50 : Instant) ≤ 150 := by decide
  have hagain := (mergeFlags_supersedes hle read "a" (.ofList [.flagged]) (.ofList [.seen])).2
  refine ⟨hle, by decide +kernel, by decide +kernel, ?_⟩
  rw [hagain]
  decide +kernel

end Mailbox

end MailBridge

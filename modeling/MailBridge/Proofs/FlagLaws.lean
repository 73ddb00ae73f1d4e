import MailBridge.Message
import MailBridge.Proofs.OrderedLaws

/-! # What becomes of single flags

A merge decides each flag by itself: a flag that is held stays as it is here, any other follows the
remote account. The mark of a recent message is the server's own, so clients and the remote account
leave it alone.
-/

namespace MailBridge

namespace Flags

theorem isRecent_congr {flags flags' : Flags} (h : Flag.recent ∈ flags ↔ Flag.recent ∈ flags') :
    isRecent flags = isRecent flags' := by
  simp only [isRecent, h]

theorem isRecent_insert {flag : Flag} (hne : flag ≠ .recent) (flags : Flags) :
    isRecent (OrderedSet.insert flag flags) = isRecent flags :=
  isRecent_congr (by simp [Ne.symm hne])

theorem isRecent_withoutRecent (flags : Flags) : isRecent (withoutRecent flags) = false := by
  simp [isRecent, withoutRecent]

variable {flags flags' : Flags}

theorem withoutRecent_eq_iff : withoutRecent flags = withoutRecent flags' ↔
    ∀ flag, flag ≠ .recent → (flag ∈ flags ↔ flag ∈ flags') := by
  constructor
  · intro h flag hflag
    have hmem := congrArg (flag ∈ ·) h
    simpa [withoutRecent, hflag] using hmem
  · intro h
    refine OrderedSet.ext fun flag => ?_
    by_cases hflag : flag = .recent <;> simp [withoutRecent, hflag, h]

theorem eq_of_withoutRecent (h : withoutRecent flags = withoutRecent flags')
    (hrecent : flags.isRecent = flags'.isRecent) : flags = flags' := by
  refine OrderedSet.ext fun flag => ?_
  by_cases hflag : flag = .recent
  · simpa [isRecent, hflag] using hrecent
  · exact withoutRecent_eq_iff.1 h flag hflag

/-! ## Changes by clients -/

/-- The flags that a change leaves, flag by flag. -/
theorem mem_apply {mode : StoreMode} {delta : Flags} {flag : Flag} :
    flag ∈ apply mode delta flags ↔
      match mode with
      | .add => flag ∈ flags ∨ flag ∈ delta
      | .remove => flag ∈ flags ∧ flag ∉ delta
      | .replace => flag ∈ delta ∨ flag = .recent ∧ .recent ∈ flags := by
  cases mode with
  | add => simp [apply]
  | remove => simp [apply]
  | replace =>
      unfold apply
      dsimp only
      split
      · next hrecent =>
        have hmem : Flag.recent ∈ flags := by simpa [isRecent] using hrecent
        simp [hmem, or_comm]
      · next hnot =>
        have hmem : Flag.recent ∉ flags := by simpa [isRecent] using hnot
        simp [hmem]

/-- A client neither sets nor takes the mark of a recent message. -/
theorem isRecent_apply (mode : StoreMode) (delta flags : Flags) :
    isRecent (apply mode (withoutRecent delta) flags) = isRecent flags := by
  have hdelta : Flag.recent ∉ withoutRecent delta := by simp [withoutRecent]
  refine isRecent_congr ?_
  rw [mem_apply]
  cases mode <;> simp [hdelta]

theorem withoutRecent_apply (mode : StoreMode) (delta : Flags)
    (h : withoutRecent flags = withoutRecent flags') :
    withoutRecent (apply mode delta flags) = withoutRecent (apply mode delta flags') := by
  rw [withoutRecent_eq_iff] at h ⊢
  intro flag hflag
  rw [mem_apply, mem_apply]
  cases mode <;> simp [h flag hflag, hflag]

theorem apply_apply (mode : StoreMode) (delta flags : Flags) :
    apply mode delta (apply mode delta flags) = apply mode delta flags := by
  refine OrderedSet.ext fun flag => ?_
  rw [mem_apply, mem_apply]
  cases mode with
  | add => simp +contextual
  | remove => simp +contextual
  | replace => grind [mem_apply]

/-! ## Merges -/

theorem mem_merge {here : Flags} {changes : LocalChanges} {remote : Flags} {taken : Instant}
    {flag : Flag} : flag ∈ merge here changes remote taken ↔
      if flag = .recent ∨ changes.holds taken flag = true then flag ∈ here else flag ∈ remote := by
  rw [merge, OrderedSet.mem_filter, OrderedSet.mem_union]
  simp only [Bool.or_eq_true, decide_eq_true_eq]
  split
  · simp only [decide_eq_true_eq]
    exact ⟨And.right, fun h => ⟨.inl h, h⟩⟩
  · simp only [decide_eq_true_eq]
    exact ⟨And.right, fun h => ⟨.inr h, h⟩⟩

theorem isRecent_merge (here : Flags) (changes : LocalChanges) (remote : Flags) (taken : Instant) :
    isRecent (merge here changes remote taken) = isRecent here :=
  isRecent_congr (by simp [mem_merge])

end Flags

theorem Flag.undecryptable_ne_recent : Flag.undecryptable ≠ .recent := nofun

theorem Message.isRecent_arrive (content : MessageContent) (uid : Uid) (modseq : ModSeq) :
    Flags.isRecent (arrive content uid modseq).flags = true := by
  have hinsert (flags : Flags) : Flags.isRecent (OrderedSet.insert .recent flags) = true := by
    simp [Flags.isRecent]
  unfold arrive
  dsimp only
  split
  · rw [Flags.isRecent_insert Flag.undecryptable_ne_recent, hinsert]
  · exact hinsert _

end MailBridge

import MailBridge.Proofs.Tending

/-! # Flags that a client has changed

A flag that a client changes is held against what the remote account had before. The hold is on as
long as no later state of the remote account has come in: the first one that does ends it, even if
it leaves the flag as it is. From then on the flag follows whatever state comes in, also one that is
older than the client's change.
-/

namespace MailBridge

namespace LocalChanges

variable (changes : LocalChanges) (flag : Flag)

theorem get?_forgetBefore (taken : Instant) : (changes.forgetBefore taken).get? flag =
    (changes.get? flag).filter fun changed => decide (taken ≤ changed) :=
  OrderedMap.get?_filter ..

theorem holds_eq (taken : Instant) :
    changes.holds taken flag = (changes.get? flag).any fun changed => decide (taken ≤ changed) := by
  unfold holds
  cases changes.get? flag <;> rfl

theorem get?_foldl_insert (now : Instant) (flags : List Flag) :
    (flags.foldl (fun changes flag => changes.insert flag now) changes).get? flag =
      if flag ∈ flags then some now else changes.get? flag := by
  induction flags generalizing changes with
  | nil => simp
  | cons first rest ih =>
      rw [List.foldl_cons, ih, OrderedMap.get?_insert]
      grind

theorem forgetBefore_of_not_anyBefore {taken : Instant} (h : changes.anyBefore taken = false) :
    changes.forgetBefore taken = changes := by
  have hkept : ∀ e ∈ changes.entries, decide (taken ≤ e.2) = true := by
    intro e he
    have hnot := (List.any_eq_false.1 h) e.2 (List.mem_map_of_mem he)
    simpa using hnot
  exact OrderedMap.ext_entries (List.filter_eq_self.2 hkept)

end LocalChanges

namespace Message

variable (r : Message)

def stored (now : Instant) (delta : Flags) (mode : StoreMode) (next : ModSeq) : Message :=
  let flags := Flags.apply mode (Flags.withoutRecent delta) r.flags
  if flags = r.flags then r
  else
    { r with
      flags, modseq := next
      localChanges := (OrderedSet.symmDiff r.flags flags).toList.foldl
        (fun changes flag => changes.insert flag now) r.localChanges }

def merged (remote : Flags) (taken : Instant) (next : ModSeq) : Message :=
  let flags := Flags.merge r.flags r.localChanges remote taken
  let flags := if r.isUndecryptable then OrderedSet.insert .undecryptable flags else flags
  { r with
    flags, modseq := if flags = r.flags then r.modseq else next
    localChanges := r.localChanges.forgetBefore taken }

variable {flag : Flag}

@[simp] theorem isUndecryptable_stored (now : Instant) (delta : Flags) (mode : StoreMode)
    (next : ModSeq) : (r.stored now delta mode next).isUndecryptable = r.isUndecryptable := by
  unfold stored
  dsimp only
  split <;> rfl

@[simp] theorem isUndecryptable_merged (remote : Flags) (taken : Instant) (next : ModSeq) :
    (r.merged remote taken next).isUndecryptable = r.isUndecryptable := rfl

/-- A client's change is noted for exactly the flags that come or go. -/
theorem get?_stored (now : Instant) (delta : Flags) (mode : StoreMode) (next : ModSeq) :
    (r.stored now delta mode next).localChanges.get? flag =
      if flag ∈ (r.stored now delta mode next).flags ↔ flag ∈ r.flags then r.localChanges.get? flag
      else some now := by
  unfold stored
  dsimp only
  split
  · rw [if_pos Iff.rfl]
  · dsimp only
    generalize Flags.apply mode (Flags.withoutRecent delta) r.flags = flags
    have hchanged : flag ∈ (OrderedSet.symmDiff r.flags flags).toList ↔
        ¬ (flag ∈ flags ↔ flag ∈ r.flags) := by
      rw [← OrderedSet.mem_def, OrderedSet.mem_symmDiff]
      grind
    rw [LocalChanges.get?_foldl_insert]
    simp only [hchanged, ite_not]

/-- A flag follows the remote account unless a client's change holds it. -/
theorem mem_merged (hrecent : flag ≠ .recent)
    (hreadable : flag = .undecryptable → r.isUndecryptable = false) (remote : Flags)
    (taken : Instant) (next : ModSeq) : flag ∈ (r.merged remote taken next).flags ↔
      if r.localChanges.holds taken flag then flag ∈ r.flags else flag ∈ remote := by
  have hmerge : flag ∈ Flags.merge r.flags r.localChanges remote taken ↔
      if r.localChanges.holds taken flag then flag ∈ r.flags else flag ∈ remote := by
    rw [Flags.mem_merge]
    simp only [hrecent, false_or]
  rw [← hmerge]
  unfold merged
  dsimp only
  split
  · next hundecryptable =>
    have hne : flag ≠ .undecryptable := by
      intro heq
      rw [hreadable heq] at hundecryptable
      cases hundecryptable
    rw [OrderedSet.mem_insert]
    simp only [hne, false_or]
  · rfl

theorem get?_merged (remote : Flags) (taken : Instant) (next : ModSeq) :
    (r.merged remote taken next).localChanges.get? flag =
      (r.localChanges.get? flag).filter fun changed => decide (taken ≤ changed) :=
  LocalChanges.get?_forgetBefore ..

end Message

namespace Mailbox

/-- Whether the message with a UID has a flag. -/
def bears (flag : Flag) (uid : Uid) (m : Mailbox) : Bool :=
  (m.store.get? uid).any fun r => decide (flag ∈ r.flags)

variable {m : Mailbox} {uid : Uid}

theorem get?_changed {r r' : Message} {f : Message → Message} (found : m.store.get? uid = some r)
    (hf : f r = r') (huid : r'.uid = r.uid) (other : Uid) :
    (m.store.update r').get? other =
      if other = uid then (m.store.get? other).map f else m.store.get? other := by
  rw [MessageStore.get?_update, huid, uid_of_found found]
  split
  · next heq => rw [heq, found, Option.map_some, Option.map_some, hf]
  · rfl

theorem get?_unchanged {f : Message → Message} (h : (m.store.get? uid).map f = m.store.get? uid)
    (other : Uid) : m.store.get? other =
      if other = uid then (m.store.get? other).map f else m.store.get? other := by
  split
  · next heq => rw [heq, h]
  · rfl

theorem get?_setFlags (now : Instant) (uid : Uid) (delta : Flags) (mode : StoreMode) (m : Mailbox)
    (other : Uid) : (m.setFlags now uid delta mode).2.store.get? other =
      if other = uid then (m.store.get? other).map (·.stored now delta mode m.modseq.next)
      else m.store.get? other := by
  unfold setFlags
  split
  · next hnone => exact get?_unchanged (by rw [hnone, Option.map_none]) other
  · next r found =>
    dsimp only
    split
    · next hsame =>
      have hstored : r.stored now delta mode m.modseq.next = r := if_pos hsame
      exact get?_unchanged (by rw [found, Option.map_some, hstored]) other
    · next hchanged =>
      have hstored : r.stored now delta mode m.modseq.next = _ := if_neg hchanged
      simp only [markUnsaved, change_store]
      exact get?_changed (f := (·.stored now delta mode m.modseq.next)) found hstored rfl other

theorem get?_mergeFlags {id : RemoteId} (hname : m.store.uidOf? id = some uid) (remote : Flags)
    (taken : Instant) (other : Uid) : (m.mergeFlags id remote taken).2.store.get? other =
      if other = uid then (m.store.get? other).map (·.merged remote taken m.modseq.next)
      else m.store.get? other := by
  unfold mergeFlags
  simp only [hname]
  split
  · next hnone => exact get?_unchanged (by rw [hnone, Option.map_none]) other
  · next r found =>
    generalize hflags : (if r.isUndecryptable = true then _ else _) = flags
    have hmerged : r.merged remote taken m.modseq.next =
        { r with
          flags, modseq := if flags = r.flags then r.modseq else m.modseq.next
          localChanges := r.localChanges.forgetBefore taken } := by rw [← hflags]; rfl
    split
    · next hchanged =>
      rw [if_neg hchanged] at hmerged
      simp only [markUnsaved, change_store]
      exact get?_changed (f := (·.merged remote taken m.modseq.next)) found hmerged rfl other
    · next hsame =>
      rw [Decidable.not_not.1 hsame, if_pos rfl] at hmerged
      split
      · rw [note_store]
        exact get?_changed (f := (·.merged remote taken m.modseq.next)) found hmerged rfl other
      · next hnone =>
        rw [LocalChanges.forgetBefore_of_not_anyBefore _ (Bool.eq_false_iff.2 hnone)] at hmerged
        exact get?_unchanged (by rw [found, Option.map_some, hmerged]) other

theorem uidOf?_setFlags (now : Instant) (uid : Uid) (delta : Flags) (mode : StoreMode) (m : Mailbox)
    (id : RemoteId) : (m.setFlags now uid delta mode).2.store.uidOf? id = m.store.uidOf? id := by
  unfold setFlags
  split
  · rfl
  · dsimp only
    split
    · rfl
    · simp only [markUnsaved, change_store, MessageStore.uidOf?_update]

theorem uidOf?_mergeFlags (name : RemoteId) (remote : Flags) (taken : Instant) (m : Mailbox)
    (id : RemoteId) : (m.mergeFlags name remote taken).2.store.uidOf? id = m.store.uidOf? id := by
  unfold mergeFlags
  split
  · rfl
  · split
    · rfl
    · next r found =>
      dsimp only
      generalize (if r.isUndecryptable = true then _ else _) = flags
      split
      · simp only [markUnsaved, change_store, MessageStore.uidOf?_update]
      · split
        · simp only [note_store, MessageStore.uidOf?_update]
        · rfl

end Mailbox

/-! ## Changes of flags one after the other -/

namespace Edit

/-- Whether the edit only changes flags, as a client asks or as the remote account tells. -/
def changesFlags : Edit → Bool
  | setFlags .. | mergeFlags .. => true
  | _ => false

/-- Whether a client asks for other flags of the message with the UID. -/
def stores (uid : Uid) : Edit → Bool
  | setFlags _ uid' _ _ => decide (uid' = uid)
  | _ => false

/-- Whether the remote account tells of the flags that the message with the UID had after a given
time. -/
def supersedes (changed : Instant) (uid : Uid) (m : Mailbox) : Edit → Bool
  | mergeFlags id _ taken => decide (m.store.uidOf? id = some uid ∧ changed < taken)
  | _ => false

theorem supersedes_congr {m m' : Mailbox} (h : ∀ id, m'.store.uidOf? id = m.store.uidOf? id)
    (changed : Instant) (uid : Uid) : supersedes changed uid m' = supersedes changed uid m := by
  funext e
  cases e <;> simp only [supersedes, h]

end Edit

namespace Mailbox

variable {m : Mailbox} {uid : Uid} {flag : Flag} {r : Message}

/-- No client that asks for other flags of the message makes this flag come or go. -/
def SparesFlag (flag : Flag) (uid : Uid) : List Edit → Mailbox → Prop
  | [], _ => True
  | e :: rest, m =>
    (e.stores uid = true → (e.apply m).bears flag uid = m.bears flag uid) ∧
      SparesFlag flag uid rest (e.apply m)

/-- What one change of flags does to the hold of a client's earlier change. -/
theorem hold_apply {e : Edit} (he : e.changesFlags = true) (hfound : m.store.get? uid = some r)
    (hspares : e.stores uid = true → (e.apply m).bears flag uid = m.bears flag uid) :
    (∀ id, (e.apply m).store.uidOf? id = m.store.uidOf? id) ∧
      ∃ r', (e.apply m).store.get? uid = some r' ∧ r'.isUndecryptable = r.isUndecryptable ∧
        r'.localChanges.get? flag =
          (r.localChanges.get? flag).filter fun changed => !e.supersedes changed uid m := by
  have hall (changed? : Option Instant) : changed? = changed?.filter fun _ => !false := by
    cases changed? <;> rfl
  cases e with
  | setFlags now target delta mode =>
      refine ⟨uidOf?_setFlags now target delta mode m, ?_⟩
      have hget := get?_setFlags now target delta mode m uid
      by_cases htarget : uid = target
      · subst htarget
        rw [if_pos rfl, hfound, Option.map_some] at hget
        refine ⟨_, hget, r.isUndecryptable_stored .., ?_⟩
        have hsame := hspares (decide_eq_true rfl)
        simp only [Edit.apply, bears, hget, hfound, Option.any_some, decide_eq_decide] at hsame
        rw [Message.get?_stored, if_pos hsame]
        exact hall _
      · rw [if_neg htarget, hfound] at hget
        exact ⟨r, hget, rfl, hall _⟩
  | mergeFlags id remote taken =>
      refine ⟨uidOf?_mergeFlags id remote taken m, ?_⟩
      by_cases hname : m.store.uidOf? id = some uid
      · have hget := get?_mergeFlags hname remote taken uid
        rw [if_pos rfl, hfound, Option.map_some] at hget
        refine ⟨_, hget, r.isUndecryptable_merged .., ?_⟩
        rw [Message.get?_merged]
        congr 1
        funext changed
        rw [Bool.eq_iff_iff]
        simp [Edit.supersedes, hname]
      · -- the update is about another message, or about none
        have hget : (m.mergeFlags id remote taken).2.store.get? uid = m.store.get? uid := by
          cases hother : m.store.uidOf? id with
          | none => simp only [mergeFlags, hother]
          | some other =>
              have hne : uid ≠ other := fun heq => hname (heq ▸ hother)
              rw [get?_mergeFlags hother, if_neg hne]
        refine ⟨r, hget.trans hfound, rfl, ?_⟩
        simp only [Edit.supersedes, hname, false_and, decide_false]
        exact hall _
  | _ => cases he

theorem hold_editAll {edits : List Edit} (hflags : ∀ e ∈ edits, e.changesFlags = true)
    (hfound : m.store.get? uid = some r) (hspares : SparesFlag flag uid edits m) :
    (∀ id, (m.editAll edits).store.uidOf? id = m.store.uidOf? id) ∧
      ∃ r', (m.editAll edits).store.get? uid = some r' ∧ r'.isUndecryptable = r.isUndecryptable ∧
        r'.localChanges.get? flag = (r.localChanges.get? flag).filter fun changed =>
          !edits.any (Edit.supersedes changed uid m) := by
  induction edits generalizing m r with
  | nil =>
      refine ⟨fun _ => rfl, r, hfound, rfl, ?_⟩
      cases r.localChanges.get? flag <;> rfl
  | cons e rest ih =>
      obtain ⟨he, hrest⟩ := List.forall_mem_cons.1 hflags
      obtain ⟨hunmoved, hsparesRest⟩ := hspares
      obtain ⟨hnames, r₁, hfound₁, hreadable₁, hhold₁⟩ := hold_apply he hfound hunmoved
      obtain ⟨hnames', r', hfound', hreadable', hhold'⟩ := ih hrest hfound₁ hsparesRest
      refine ⟨fun id => (hnames' id).trans (hnames id), r', hfound', ?_, ?_⟩
      · exact hreadable'.trans hreadable₁
      · rw [hhold', hhold₁, Option.filter_filter]
        congr 1
        funext changed
        rw [List.any_cons, Bool.not_or, Edit.supersedes_congr hnames]

/-- After a client has changed a flag, an older state of the remote account changes the flag
exactly if a newer one has come in since and the older one tells otherwise of it. -/
theorem stale_update_iff {id : RemoteId} {now : Instant} {delta : Flags} {mode : StoreMode}
    {later : List Edit} {taken : Instant} (hname : m.store.uidOf? id = some uid)
    (hfound : m.store.get? uid = some r) (hrecent : flag ≠ .recent)
    (hreadable : flag = .undecryptable → r.isUndecryptable = false)
    (hchanged : (m.setFlags now uid delta mode).2.bears flag uid ≠ m.bears flag uid)
    (hflags : ∀ e ∈ later, e.changesFlags = true)
    (hspares : SparesFlag flag uid later (m.setFlags now uid delta mode).2) (hstale : taken ≤ now)
    (remote : Flags) :
    ((((m.setFlags now uid delta mode).2.editAll later).mergeFlags id remote taken).2.bears flag
        uid ≠ ((m.setFlags now uid delta mode).2.editAll later).bears flag uid) ↔
      (∃ e ∈ later, e.supersedes now uid m = true) ∧
        ((m.setFlags now uid delta mode).2.editAll later).bears flag uid ≠
          decide (flag ∈ remote) := by
  -- the client's change is what is held
  have hstored := get?_setFlags now uid delta mode m uid
  rw [if_pos rfl, hfound, Option.map_some] at hstored
  generalize hm₁ : (m.setFlags now uid delta mode).2 = m₁ at hstored hchanged hspares ⊢
  have hnames₁ : ∀ id, m₁.store.uidOf? id = m.store.uidOf? id := by
    rw [← hm₁]
    exact uidOf?_setFlags now uid delta mode m
  have hhold : (r.stored now delta mode m.modseq.next).localChanges.get? flag = _ :=
    r.get?_stored now delta mode m.modseq.next
  have hreadable₁ := r.isUndecryptable_stored now delta mode m.modseq.next
  generalize r.stored now delta mode m.modseq.next = r₁ at hstored hhold hreadable₁
  simp only [bears, hstored, hfound, Option.any_some, ne_eq, decide_eq_decide] at hchanged
  rw [if_neg hchanged] at hhold
  -- and held until it is superseded
  obtain ⟨hnames₂, r₂, hfound₂, hreadable₂, hhold₂⟩ := hold_editAll hflags hstored hspares
  simp only [hhold, Option.filter_some, Edit.supersedes_congr hnames₁] at hhold₂
  have hget := get?_mergeFlags ((hnames₂ id).trans ((hnames₁ id).trans hname)) remote taken uid
  rw [if_pos rfl, hfound₂, Option.map_some] at hget
  simp only [bears, hget, hfound₂, Option.any_some, ne_eq, decide_eq_decide]
  have hreadable' : flag = .undecryptable → r₂.isUndecryptable = false := fun heq =>
    hreadable₂.trans (hreadable₁.trans (hreadable heq))
  rw [Message.mem_merged r₂ hrecent hreadable', LocalChanges.holds_eq, hhold₂, ← List.any_eq_true]
  cases hsuperseded : later.any (Edit.supersedes now uid m) with
  | true =>
      simp [iff_comm]
  | false =>
      simp [hstale]

def ofOne : Mailbox := (Mailbox.create "INBOX" 0).editAll [.receive { remoteId := "a" }]

def read : Mailbox := (ofOne.setFlags 100 .least (.ofList [.seen]) .add).2

/-- An older state of the remote account comes in, and a client changes another flag. -/
def interlude : List Edit :=
  [.mergeFlags "a" (.ofList [.flagged]) 50, .setFlags 120 .least (.ofList [.answered]) .add]

/-- After all this, a state as old as the mark leaves it on. -/
theorem stale_update_iff_of_interlude :
    ofOne.store.uidOf? "a" = some .least ∧ (ofOne.store.get? .least).isSome = true ∧
      read.bears .seen .least ≠ ofOne.bears .seen .least ∧ SparesFlag .seen .least interlude read ∧
      ((read.editAll interlude).mergeFlags "a" ∅ 100).2.bears .seen .least =
        (read.editAll interlude).bears .seen .least := by
  have hname : ofOne.store.uidOf? "a" = some .least := rfl
  have hsome : (ofOne.store.get? .least).isSome = true := rfl
  have hchanged : read.bears .seen .least ≠ ofOne.bears .seen .least := by decide +kernel
  have hspares : SparesFlag .seen .least interlude read :=
    ⟨fun hstores => (by cases hstores), fun _ => rfl, trivial⟩
  refine ⟨hname, hsome, hchanged, hspares, Decidable.byContradiction fun hne => ?_⟩
  obtain ⟨r, hfound⟩ := Option.isSome_iff_exists.1 hsome
  have hrecent : Flag.seen ≠ .recent := by decide
  have hreadable : Flag.seen = .undecryptable → r.isUndecryptable = false := fun hsame =>
    absurd hsame (by decide)
  have hflags : ∀ e ∈ interlude, e.changesFlags = true := by decide
  have hstale : (100 : Instant) ≤ 100 := by decide
  obtain ⟨⟨e, he, hsupersedes⟩, _⟩ := (stale_update_iff hname hfound hrecent hreadable hchanged
    hflags hspares hstale ∅).1 hne
  -- no state that came in is newer than the mark
  have hnone : interlude.any (Edit.supersedes 100 .least ofOne) = false := rfl
  exact List.any_eq_false.1 hnone e he hsupersedes

/-- A newer state has come in that agrees with the client. -/
def confirmed : Mailbox := (read.mergeFlags "a" (.ofList [.seen]) 200).2

/-- The newer state has left the mark as it was, and still an older one takes it off. -/
theorem stale_update_returns : read.bears .seen .least ≠ ofOne.bears .seen .least ∧
    confirmed.bears .seen .least = read.bears .seen .least ∧
    (confirmed.mergeFlags "a" ∅ 50).2.bears .seen .least ≠ confirmed.bears .seen .least := by
  decide +kernel

end Mailbox

end MailBridge

import MailBridge.Proofs.Rollback

/-! # UIDs over the history of a mailbox

Looked at between changes, a mailbox never gives a UID of an epoch to two messages: a UID that is
new to the mailbox is above all that it ever had in the epoch, whether changes were kept or taken
back, and a message keeps its UID for as long as it is there.
-/

namespace MailBridge

namespace Mailbox

theorem orderly_create (name : String) (now : Instant) : (create name now).Orderly :=
  ⟨Ascending.nil, fun r hr => by cases hr⟩

theorem Orderly.of_eq {m m' : Mailbox} (h : m.Orderly)
    (hmessages : m'.store.messages = m.store.messages) (huids : m'.uids = m.uids) :
    m'.Orderly := by
  refine ⟨by rw [MessageStore.Distinct, hmessages]; exact h.distinct, ?_⟩
  rw [hmessages, huids]
  exact h.below

end Mailbox

open Mailbox

namespace SharedMailbox

/-- A change leaves all but the index as it was, or keeps what its edits have done. -/
theorem perform_restores_or_keeps {s : SharedMailbox} (hd : s.mailbox.store.Distinct) (c : Change) :
    (∃ store, s.perform c = { s with mailbox := { s.mailbox.keepChanges with store } } ∧
      store.messages = s.mailbox.store.messages) ∨
    ∃ cache?, s.perform c =
      { s with
        mailbox := (s.mailbox.startJournal.editAll (c.edits ++ [.commit, .takeUnsaved])).keepChanges
        cache? } := by
  rcases s.perform_cases c with ⟨edits, heq⟩ | hkept
  · obtain ⟨store, hrollback, hmessages⟩ := rollback_restores hd edits
    exact .inl ⟨store, by rw [heq, hrollback], hmessages⟩
  · exact .inr hkept

theorem distinct_perform {s : SharedMailbox} (hd : s.mailbox.store.Distinct) (c : Change) :
    (s.perform c).mailbox.store.Distinct := by
  rcases perform_restores_or_keeps hd c with ⟨store, heq, hmessages⟩ | ⟨cache?, heq⟩
  · rw [heq, MessageStore.Distinct, hmessages]
    exact hd
  · rw [heq]
    exact distinct_editAll (m := s.mailbox.startJournal) hd _

theorem orderly_perform {s : SharedMailbox} (ho : s.mailbox.Orderly) (c : Change) :
    (s.perform c).mailbox.Orderly := by
  rcases perform_restores_or_keeps ho.distinct c with ⟨store, heq, hmessages⟩ | ⟨cache?, heq⟩
  · rw [heq]
    exact ho.of_eq hmessages rfl
  · rw [heq]
    exact (Orderly.editAll (m := s.mailbox.startJournal) (ho.of_eq rfl rfl) _).of_eq rfl rfl

theorem later_perform {s : SharedMailbox} (hd : s.mailbox.store.Distinct) (c : Change) :
    s.mailbox.Later (s.perform c).mailbox := by
  rcases perform_restores_or_keeps hd c with ⟨store, heq, hmessages⟩ | ⟨cache?, heq⟩
  · have hsame : s.mailbox.Continues { s.mailbox.keepChanges with store } :=
      .of_eq hmessages rfl rfl
    rw [heq]
    exact hsame.later
  · have hbegin : s.mailbox.Continues s.mailbox.startJournal := .of_eq rfl rfl rfl
    have hedits := later_editAll (m := s.mailbox.startJournal) hd
      (c.edits ++ [.commit, .takeUnsaved])
    have hkeep (m : Mailbox) : m.Continues m.keepChanges := .of_eq rfl rfl rfl
    rw [heq]
    exact (hbegin.later.trans hedits).trans (hkeep _).later

theorem orderly_performAll {s : SharedMailbox} (ho : s.mailbox.Orderly) (changes : List Change) :
    (s.performAll changes).mailbox.Orderly := by
  induction changes generalizing s with
  | nil => exact ho
  | cons c rest ih => exact ih (orderly_perform ho c)

theorem later_performAll {s : SharedMailbox} (hd : s.mailbox.store.Distinct)
    (changes : List Change) :
    s.mailbox.Later (s.performAll changes).mailbox := by
  induction changes generalizing s with
  | nil => exact .refl _
  | cons c rest ih => exact (later_perform hd c).trans (ih (distinct_perform hd c))

end SharedMailbox

/-! ## A message keeps its UID -/

namespace Mailbox

/-- Exactly one message has the remote name. -/
def HasOne (id : RemoteId) (m : Mailbox) : Prop :=
  ∃ r ∈ m.store.messages, r.remoteId = id ∧ ∀ r' ∈ m.store.messages, r'.remoteId = id → r' = r

instance (id : RemoteId) (m : Mailbox) : Decidable (m.HasOne id) :=
  inferInstanceAs (Decidable (∃ r ∈ m.store.messages, _))

/-- All messages with the remote name have the UID that those of another mailbox have. -/
def SameUid (id : RemoteId) (m m' : Mailbox) : Prop :=
  ∀ r ∈ m.store.messages, ∀ r' ∈ m'.store.messages,
    r.remoteId = id → r'.remoteId = id → r'.uid = r.uid

theorem HasOne.sameUid {id : RemoteId} {m m' : Mailbox} (h : m.HasOne id)
    (hmessages : m'.store.messages = m.store.messages) : SameUid id m m' := by
  obtain ⟨one, _, _, honly⟩ := h
  intro r hr r' hr' hid hid'
  rw [hmessages] at hr'
  rw [honly r hr hid, honly r' hr' hid']

theorem SameUid.trans {id : RemoteId} {m m' m'' : Mailbox} (h : SameUid id m m')
    (hmid : m'.HasOne id) (h' : SameUid id m' m'') : SameUid id m m'' := by
  obtain ⟨one, hone, hid, _⟩ := hmid
  intro r hr r'' hr'' hidr hidr''
  exact (h' one hone r'' hr'' hid hidr'').trans (h r hr one hone hidr hid)

theorem origin_upkeep {m m' : Mailbox} (hd : m.store.Distinct)
    (hsteps : Relation.ReflTransGen Upkeep m m') : ∀ r' ∈ m'.store.messages,
      ∃ r ∈ m.store.messages, r'.uid = r.uid ∧ r'.remoteId = r.remoteId := by
  have hall : m'.store.Distinct ∧ ∀ r' ∈ m'.store.messages, ∃ r ∈ m.store.messages,
      r'.uid = r.uid ∧ r'.remoteId = r.remoteId := by
    induction hsteps with
    | refl => exact ⟨hd, fun r hr => ⟨r, hr, rfl, rfl⟩⟩
    | tail _ hstep ih =>
        refine ⟨hstep.distinct ih.1, fun r'' hr'' => ?_⟩
        obtain ⟨r', hr', hretains⟩ := hstep.retains ih.1 r'' hr''
        obtain ⟨r, hr, huid, hname⟩ := ih.2 r' hr'
        exact ⟨r, hr, hretains.uid.trans huid, hretains.remoteId.trans hname⟩
  exact hall.2

/-- An edit adds no message or takes none out. -/
theorem apply_adds_or_takes (e : Edit) {m : Mailbox} (ho : m.Orderly) :
    (∀ r' ∈ (e.apply m).store.messages, ∃ r ∈ m.store.messages,
      r'.uid = r.uid ∧ r'.remoteId = r.remoteId) ∨
    ∀ r ∈ m.store.messages, r ∈ (e.apply m).store.messages := by
  cases he : e.renews with
  | true =>
      cases e with
      | invalidate now =>
          left
          rw [Edit.apply, (invalidate_eq now m).2.1]
          intro r hr
          cases hr
      | _ => cases he
  | false =>
      rcases apply_steps e m he with hsteps | hadmission
      · left
        exact origin_upkeep ho.distinct hsteps
      · right
        intro r hr
        rcases hadmission.messages.2.2.2 with heq | ⟨new, heq, _⟩
        · rw [heq]
          exact hr
        · rw [heq]
          exact List.mem_append_left _ hr

theorem sameUid_apply {id : RemoteId} (e : Edit) {m : Mailbox} (ho : m.Orderly) (h : m.HasOne id)
    (h' : (e.apply m).HasOne id) : SameUid id m (e.apply m) := by
  obtain ⟨_, _, _, honly⟩ := h
  obtain ⟨_, _, _, honly'⟩ := h'
  intro r hr r' hr' hid hid'
  rcases apply_adds_or_takes e ho with hold | hkept
  · obtain ⟨old, hmem, huid, hname⟩ := hold r' hr'
    rw [huid, honly old hmem (hname.symm.trans hid'), honly r hr hid]
  · rw [honly' r' hr' hid', honly' r (hkept r hr) hid]

theorem sameUid_editAll {id : RemoteId} (edits : List Edit) {m : Mailbox} (ho : m.Orderly)
    (h : ∀ k, (m.editAll (edits.take k)).HasOne id) : SameUid id m (m.editAll edits) := by
  induction edits generalizing m with
  | nil => exact (h 0).sameUid rfl
  | cons e rest ih =>
      have hnext : ∀ k, ((e.apply m).editAll (rest.take k)).HasOne id := fun k => h (k + 1)
      have ho' : (e.apply m).Orderly := Orderly.editAll ho [e]
      exact (sameUid_apply e ho (h 0) (hnext 0)).trans (hnext 0) (ih ho' hnext)

end Mailbox

namespace SharedMailbox

/-- Exactly one message has the remote name all through the changes, each of which leaves the
messages as they are or has one such message after each of its edits. -/
def Holds (id : RemoteId) (s : SharedMailbox) : List Change → Prop
  | [] => s.mailbox.HasOne id
  | c :: rest =>
    s.mailbox.HasOne id ∧
      ((s.perform c).mailbox.store.messages = s.mailbox.store.messages ∨
        ∀ k, (s.mailbox.startJournal.editAll (c.edits.take k)).HasOne id) ∧
      Holds id (s.perform c) rest

theorem Holds.hasOne {id : RemoteId} {s : SharedMailbox} {changes : List Change}
    (h : s.Holds id changes) : s.mailbox.HasOne id := by
  cases changes with
  | nil => exact h
  | cons c rest => exact h.1

theorem sameUid_performAll {id : RemoteId} {s : SharedMailbox} (ho : s.mailbox.Orderly)
    {changes : List Change} (h : s.Holds id changes) :
    SameUid id s.mailbox (s.performAll changes).mailbox := by
  induction changes generalizing s with
  | nil => exact h.hasOne.sameUid rfl
  | cons c rest ih =>
      obtain ⟨hone, hchange, hrest⟩ := h
      refine SameUid.trans ?_ hrest.hasOne (ih (orderly_perform ho c) hrest)
      rcases hchange with hsame | hthrough
      · exact hone.sameUid hsame
      · rcases perform_restores_or_keeps ho.distinct c with ⟨store, heq, hmessages⟩ | ⟨cache?, heq⟩
        · exact hone.sameUid (by rw [heq]; exact hmessages)
        · have hedits := sameUid_editAll c.edits (m := s.mailbox.startJournal)
            (ho.of_eq rfl rfl) hthrough
          rw [heq, Mailbox.editAll_append, kept_eq]
          exact hedits

/-! ## The history of a new mailbox -/

/-- Of three moments in the history of a mailbox, as long as the UID validity is not the greatest:
in an epoch a UID stands for one remote name, a name that is held keeps its UID, and a UID that is
new after the second moment is above all UIDs of the first. -/
theorem uids_over_history {s : SharedMailbox} {name : String} {now : Instant}
    (hnew : s.mailbox = .create name now) (before between after : List Change)
    (hvalidity : (((s.performAll before).performAll between).performAll
      after).mailbox.uids.validity.val < maxWord) :
    let a := s.performAll before
    let b := a.performAll between
    let c := b.performAll after
    (∀ r ∈ a.mailbox.store.messages, ∀ r' ∈ c.mailbox.store.messages,
      c.mailbox.uids.validity = a.mailbox.uids.validity → r'.uid = r.uid →
        r'.remoteId = r.remoteId) ∧
    (∀ id, a.Holds id between → SameUid id a.mailbox b.mailbox) ∧
    (∀ r ∈ a.mailbox.store.messages, ∀ r' ∈ c.mailbox.store.messages,
      c.mailbox.uids.validity = a.mailbox.uids.validity →
        (∀ x ∈ b.mailbox.store.messages, x.uid ≠ r'.uid) → r.uid.val < r'.uid.val) := by
  intro a b c
  have hoa : a.mailbox.Orderly := orderly_performAll (by rw [hnew]; exact orderly_create ..) before
  have hob : b.mailbox.Orderly := orderly_performAll hoa between
  have hab : a.mailbox.Later b.mailbox := later_performAll hoa.distinct between
  have hbc : b.mailbox.Later c.mailbox := later_performAll hob.distinct after
  refine ⟨?_, fun id hid => sameUid_performAll hoa hid, ?_⟩
  · intro r hr r' hr' hsame huid
    rcases ((hab.trans hbc).continues hsame hvalidity).origin r' hr' with
      ⟨old, hold, hbecomes⟩ | hle
    · have hor : old = r := hoa.distinct.eq_of_uid_eq hold hr (hbecomes.uid.symm.trans huid)
      rw [hbecomes.remoteId, hor]
    · have := hoa.below r hr
      rw [huid] at hle
      omega
  · intro r hr r' hr' hsame habsent
    have hmid := hab.validity
    have hmid' := hbc.validity
    have hbcv : c.mailbox.uids.validity = b.mailbox.uids.validity := by
      refine UidValidity.ext_val ?_
      rw [hsame] at hmid' ⊢
      omega
    have habv : b.mailbox.uids.validity = a.mailbox.uids.validity := hbcv.symm.trans hsame
    have hcontinues := hab.continues habv (by rw [← hbcv]; exact hvalidity)
    rcases (hbc.continues hbcv hvalidity).origin r' hr' with ⟨old, hold, hbecomes⟩ | hle
    · exact absurd hbecomes.uid.symm (habsent old hold)
    · exact Nat.lt_of_lt_of_le (hoa.below r hr) (Nat.le_trans hcontinues.bound hle)

def arrival (id : RemoteId) : Change := ⟨[.receive { remoteId := id }], .ok ()⟩

def removal (id : RemoteId) : Change := ⟨[.markRemoved id, .flushPending], .ok ()⟩

/-- A new mailbox that is not saved. -/
def unused : SharedMailbox := { mailbox := .create "INBOX" 0 }

/-- A message is read while another one comes, which then goes again. -/
def passing : List Change :=
  [⟨[.setFlags 0 .least (OrderedSet.insert .seen ∅) .add, .receive { remoteId := "b" }], .ok ()⟩,
    removal "b"]

/-- A message that stays keeps its UID while others come and go. One that is removed and arrives
again gets a greater UID. -/
theorem uids_over_history_of_return :
    let a := unused.performAll [arrival "a"]
    let b := a.performAll passing
    let c := (a.performAll [removal "a"]).performAll [arrival "a"]
    unused.mailbox = .create "INBOX" 0 ∧ b.mailbox.uids.validity.val < maxWord ∧
      a.Holds "a" passing ∧ b.mailbox.store.messages ≠ a.mailbox.store.messages ∧
      SameUid "a" a.mailbox b.mailbox ∧ c.mailbox.uids.validity.val < maxWord ∧
      ∀ r ∈ a.mailbox.store.messages, ∀ r' ∈ c.mailbox.store.messages,
        r.uid.val < r'.uid.val := by
  intro a b c
  have hvalidity : b.mailbox.uids.validity.val < maxWord := by decide
  have hchanged : b.mailbox.store.messages ≠ a.mailbox.store.messages := by decide
  have hlast : b.mailbox.HasOne "a" := by decide
  have hholds : a.Holds "a" passing := by
    refine ⟨by decide, .inr fun k => ?_, by decide, .inr fun k => ?_, hlast⟩
    -- both changes are made of two edits
    all_goals
      rcases k with _ | _ | k
      · decide
      · decide
      · rw [List.take_of_length_le (Nat.le_add_left 2 k)]
        decide
  have hvalidity' : c.mailbox.uids.validity.val < maxWord := by decide
  have hsame : c.mailbox.uids.validity = a.mailbox.uids.validity := by decide
  have hempty : (a.performAll [removal "a"]).mailbox.store.messages = [] := by decide
  have hstays := uids_over_history (s := unused) rfl [arrival "a"] passing [] (by decide)
  have hreturns := uids_over_history (s := unused) rfl [arrival "a"] [removal "a"] [arrival "a"]
    hvalidity'
  refine ⟨rfl, hvalidity, hholds, hchanged, hstays.2.1 "a" hholds, hvalidity',
    fun r hr r' hr' => hreturns.2.2 r hr r' hr' hsame ?_⟩
  rw [hempty]
  intro x hx
  cases hx

end SharedMailbox

end MailBridge

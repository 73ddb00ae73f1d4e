import MailBridge.Proofs.Saving
import MailBridge.Proofs.WellKept

/-! # The cache follows the mailbox

After a change that was kept, the mailbox can be loaded from the cache as it is, apart from the
local changes of flags; a change that failed leaves the cache alone. This rests on every kept change
noting what it changes, and on no two messages having one remote name.
-/

namespace MailBridge

namespace MessageStore

theorem mem_ofMessages {l : List Message} {r : Message} :
    r ∈ (ofMessages l).messages ↔ r ∈ l := List.mem_mergeSort

theorem distinct_ofMessages {l : List Message} (h : l.Pairwise fun a b => a.uid ≠ b.uid) :
    (ofMessages l).Distinct := by
  have hsorted : (ofMessages l).messages.Pairwise fun a b => a.uid ≠ b.uid :=
    ((List.mergeSort_perm l notAfter).pairwise_iff fun hab => Ne.symm hab).2 h
  refine ((ofMessages l).ascending.and hsorted).imp fun {a b} hab => ?_
  exact Nat.lt_of_le_of_ne hab.1 fun heq => hab.2 (Uid.ext_val heq)

end MessageStore

namespace Cache

/-- The tables are as they are kept: no two messages of one mailbox have a UID or a remote name in
common, and no message is without its mailbox. -/
structure Lawful (c : Cache) : Prop where
  keyed : c.messages.Pairwise fun a b => a.clashes b = false
  owned : ∀ row ∈ c.messages, ∃ owner ∈ c.mailboxes, owner.name = row.mailbox

variable {c : Cache} {name : String}

theorem plain_of_mem_saved {e : Message × Bool} (h : e ∈ c.saved name) : e.1.plain = e.1 := by
  obtain ⟨row, _, he⟩ := List.mem_filterMap.1 h
  exact (MessageRow.key_of_saved? he).2.2

/-- No two messages of one mailbox have a UID or a remote name in common. -/
def Keyed (c : Cache) : Prop := c.messages.Pairwise fun a b => a.clashes b = false

theorem Keyed.apart (h : c.Keyed) (name : String) :
    (c.saved name).Pairwise fun a b => a.1.uid ≠ b.1.uid := by
  refine List.pairwise_filterMap.2 ((h.filter _).imp_of_mem ?_)
  intro a b ha hb hclash x hx y hy heq
  obtain ⟨huidx, _, _⟩ := MessageRow.key_of_saved? hx
  obtain ⟨huidy, _, _⟩ := MessageRow.key_of_saved? hy
  have hsame : (a.mailbox == b.mailbox) = true := by
    rw [beq_iff_eq, (mem_rows.1 ha).2, (mem_rows.1 hb).2]
  have hagree : a.uid.agrees b.uid = true := by
    rw [huidx, huidy, Uid.cell_agrees, decide_eq_true heq]
  simp [MessageRow.clashes, hsame, hagree] at hclash

theorem Lawful.apart (h : c.Lawful) (name : String) :
    (c.saved name).Pairwise fun a b => a.1.uid ≠ b.1.uid := Keyed.apart h.keyed name

theorem Lawful.rows_eq_nil (h : c.Lawful) (hnone : c.load name = .ok none) :
    c.rows name = [] := by
  refine List.eq_nil_iff_forall_not_mem.2 fun row hrow => ?_
  obtain ⟨hrow, hname⟩ := mem_rows.1 hrow
  obtain ⟨owner, howner, heq⟩ := h.owned row hrow
  have hdiffers := List.find?_eq_none.1 (load_eq_none.1 hnone) owner howner
  exact hdiffers (beq_iff_eq.2 (heq.trans hname))

end Cache

theorem Unsaved.isEmpty_iff {u : Unsaved} : u.isEmpty = true ↔ u = {} := by
  obtain ⟨mailbox, reset, written, removed⟩ := u
  simp [isEmpty, OrderedSet.isEmpty_iff, and_assoc]

namespace Mailbox

variable {c : Cache} {m m' : Mailbox} {name : String}

/-! ## Loading what was saved -/

theorem queued_restore (name : String) (head : MailboxHead) (l : List (Message × Bool)) :
    (Cache.restore name head l).Queued :=
  queued_ofSaved _ _ _ _ _ _

theorem plain_of_mem_restore {l : List (Message × Bool)} (hplain : ∀ e ∈ l, e.1.plain = e.1)
    {head : MailboxHead} {r : Message}
    (hr : r ∈ (Cache.restore name head l).store.messages) : r.plain = r := by
  obtain ⟨e, he, rfl⟩ := List.mem_map.1 (MessageStore.mem_ofMessages.1 hr)
  exact hplain e he

section Restore

variable {l : List (Message × Bool)} (happart : l.Pairwise fun a b => a.1.uid ≠ b.1.uid)

include happart

theorem distinct_restore (name : String) (head : MailboxHead) :
    (Cache.restore name head l).store.Distinct :=
  MessageStore.distinct_ofMessages (List.pairwise_map.2 happart)

theorem shows_restore (hplain : ∀ e ∈ l, e.1.plain = e.1) (head : MailboxHead)
    {e : Message × Bool} : (Cache.restore name head l).Shows e ↔ e ∈ l := by
  have hdistinct := distinct_restore happart name head
  have hstore (r : Message) : r ∈ (Cache.restore name head l).store.messages ↔
      ∃ e ∈ l, e.1 = r := MessageStore.mem_ofMessages.trans List.mem_map
  have hpending {e : Message × Bool} (he : e ∈ l) :
      decide (e.1.uid ∈ (Cache.restore name head l).pending) = e.2 := by
    have hsome : ((Cache.restore name head l).store.get? e.1.uid).isSome = true :=
      Option.isSome_iff_exists.2 ⟨_, MessageStore.get?_of_mem hdistinct ((hstore _).2 ⟨e, he, rfl⟩)⟩
    have hiff : e.1.uid ∈ (Cache.restore name head l).pending ↔ e.2 = true := by
      refine Iff.trans OrderedSet.mem_filter ?_
      rw [OrderedSet.mem_ofList, List.mem_map]
      constructor
      · rintro ⟨⟨x, hx, heq⟩, _⟩
        obtain ⟨hx, hwaits⟩ := List.mem_filter.1 hx
        rw [← List.inj_on_of_nodup_map (List.pairwise_map.2 happart) hx he heq]
        exact hwaits
      · exact fun hwaits => ⟨⟨e, List.mem_filter.2 ⟨he, hwaits⟩, rfl⟩, hsome⟩
    rw [Bool.eq_iff_iff, decide_eq_true_eq, hiff]
  have hentry {e : Message × Bool} (he : e ∈ l) :
      Cache.entryOf (Cache.restore name head l).pending e.1 = e :=
    Prod.ext (hplain e he) (hpending he)
  constructor
  · rintro ⟨r, hr, rfl⟩
    obtain ⟨x, hx, rfl⟩ := (hstore r).1 hr
    rw [hentry hx]
    exact hx
  · exact fun he => ⟨e.1, (hstore e.1).2 ⟨e, he, rfl⟩, hentry he⟩

end Restore

/-- The other mailbox is what this one is saved as: all the same but for the local changes of
flags, and for what belongs to the moment. -/
structure SavedAs (m m' : Mailbox) : Prop where
  name : m'.name = m.name
  uids : m'.uids = m.uids
  modseq : m'.modseq = m.modseq
  cursor : m'.cursor = m.cursor
  pending : m'.pending = m.pending
  messages : m'.store.messages = m.store.messages.map Message.plain

theorem mem_pending_iff (hq : m.Queued) {uid : Uid} :
    uid ∈ m.pending ↔ ∃ e, m.Shows e ∧ e.2 = true ∧ e.1.uid = uid := by
  constructor
  · intro huid
    obtain ⟨r, hr, rfl⟩ := hq uid huid
    exact ⟨_, ⟨r, hr, rfl⟩, decide_eq_true huid, rfl⟩
  · rintro ⟨_, ⟨r, _, rfl⟩, hwaits, rfl⟩
    exact of_decide_eq_true hwaits

theorem Tracks.load (hd : m.store.Distinct) (hq : m.Queued) (h : Tracks c m)
    (hnothing : m.unsaved = {}) : ∃ m', c.load m.name = .ok (some m') ∧ m.SavedAs m' := by
  have hhead := h.head (by rw [hnothing])
  have hplain : ∀ e ∈ c.saved m.name, e.1.plain = e.1 := fun _ he => Cache.plain_of_mem_saved he
  have hshows (e : Message × Bool) :
      (Cache.restore m.name m.head (c.saved m.name)).Shows e ↔ m.Shows e := by
    rw [shows_restore h.apart hplain, h.messages e (hnothing ▸ OrderedSet.mem_empty), hnothing]
    simp
  refine ⟨_, Cache.load_eq_ok.2 ⟨h.legible, m.head, hhead, rfl⟩, rfl, rfl, rfl, rfl, ?_, ?_⟩
  · refine OrderedSet.ext fun uid => ?_
    rw [mem_pending_iff (queued_restore _ _ _), mem_pending_iff hq]
    simp only [hshows]
  · refine (distinct_restore h.apart ..).ext (Ascending.map hd fun _ _ => rfl) fun r => ?_
    rw [List.mem_map]
    constructor
    · intro hr
      obtain ⟨x, hx, heq⟩ := (hshows _).1 ⟨r, hr, rfl⟩
      exact ⟨x, hx, (congrArg Prod.fst heq).trans (plain_of_mem_restore hplain hr)⟩
    · rintro ⟨x, hx, rfl⟩
      obtain ⟨r, hr, heq⟩ := (hshows _).2 ⟨x, hx, rfl⟩
      have hrx : r = x.plain := (plain_of_mem_restore hplain hr).symm.trans (congrArg Prod.fst heq)
      rw [← hrx]
      exact hr

/-- How a mailbox is opened with a cache: loaded from there, or as a new one if it is not there. -/
inductive Opened (c : Cache) : Mailbox → Prop
  | loaded {name : String} {m : Mailbox} (h : c.load name = .ok (some m)) : Opened c m
  | fresh {name : String} (h : c.load name = .ok none) (now : Instant) : Opened c (create name now)

theorem Opened.tracks (h : m.Opened c) (hc : c.Lawful) : Tracks c m := by
  cases h with
  | @loaded name m h =>
      obtain ⟨hlegible, head, hhead, rfl⟩ := Cache.load_eq_ok.1 h
      refine ⟨hlegible, hc.apart name, fun uid huid => absurd huid OrderedSet.mem_empty,
        fun e _ => ?_, fun _ => hhead⟩
      refine (shows_restore (hc.apart name) (fun _ he => Cache.plain_of_mem_saved he) head).trans ?_
      exact (and_iff_left ⟨rfl, OrderedSet.mem_empty⟩).symm
  | @fresh name h now =>
      have hrows := hc.rows_eq_nil h
      have hsaved : c.saved name = [] := by rw [Cache.saved, hrows, List.filterMap_nil]
      refine ⟨fun row hrow => ?_, hc.apart name, fun uid huid => absurd huid OrderedSet.mem_empty,
        fun e _ => ?_, fun hmailbox => by cases hmailbox⟩
      · rw [show (create name now).name = name from rfl, hrows] at hrow
        cases hrow
      · rw [show (create name now).name = name from rfl, hsaved]
        refine iff_of_false ?_ ?_
        · rintro ⟨r, hr, _⟩
          cases hr
        · rintro ⟨he, _⟩
          cases he

theorem Opened.distinct_of_keyed (h : m.Opened c) (hc : c.Keyed) : m.store.Distinct := by
  cases h with
  | @loaded name m h =>
      obtain ⟨_, head, _, rfl⟩ := Cache.load_eq_ok.1 h
      exact distinct_restore (hc.apart name) name head
  | fresh => exact Ascending.nil

theorem Opened.distinct (h : m.Opened c) (hc : c.Lawful) : m.store.Distinct :=
  h.distinct_of_keyed hc.keyed

theorem Opened.queued (h : m.Opened c) : m.Queued := by
  cases h with
  | @loaded name m h =>
      obtain ⟨_, head, _, rfl⟩ := Cache.load_eq_ok.1 h
      exact queued_restore _ _ _
  | fresh => exact queued_of_pending rfl

end Mailbox

namespace SharedMailbox

open Mailbox

variable {s : SharedMailbox}

/-- The mailbox is saved in a cache that differs from it in nothing but what is noted. -/
structure Followed (s : SharedMailbox) (c : Cache) : Prop where
  cache : s.cache? = some c
  tracks : Tracks c s.mailbox
  distinct : s.mailbox.store.Distinct
  queued : s.mailbox.Queued

/-- What comes of a change, and what it leaves. -/
def attempt (s : SharedMailbox) (c : Change) : Except MailboxError Unit × SharedMailbox :=
  s.mutate fun m => (c.verdict, m.editAll c.edits)

/-- A change that is kept notes all that it changes of what is saved, and leaves a mailbox that can
be read back. -/
def Savable (s : SharedMailbox) (change : Change) : Prop :=
  (s.attempt change).1 = .ok () →
    NotesAll change.edits s.mailbox.startJournal ∧ (s.perform change).mailbox.Writable

/-- Each change of a run is savable where it comes. -/
def AllSavable : List Change → SharedMailbox → Prop
  | [], _ => True
  | change :: rest, s => s.Savable change ∧ AllSavable rest (s.perform change)

/-- A change that fails leaves the cache alone, and all that it follows of the mailbox. -/
theorem Followed.of_error {c : Cache} {change : Change} {e : MailboxError} (h : s.Followed c)
    (hfailed : (s.attempt change).1 = .error e) : (s.perform change).Followed c := by
  obtain ⟨store, hrollback, hmessages⟩ := rollback_restores h.distinct change.edits
  have heq : s.perform change = { s with mailbox := { s.mailbox.keepChanges with store } } := by
    rw [← hrollback]
    exact mutate_error rfl hfailed
  rw [heq]
  refine ⟨h.cache, h.tracks.of_eq rfl rfl rfl rfl hmessages rfl rfl, ?_,
    h.queued.of_eq hmessages rfl⟩
  unfold MessageStore.Distinct
  rw [hmessages]
  exact h.distinct

theorem Followed.of_ok {c : Cache} {change : Change} (h : s.Followed c)
    (hkept : (s.attempt change).1 = .ok ()) (hsavable : s.Savable change) :
    (s.perform change).mailbox.unsaved = {} ∧ ∃ c', (s.perform change).Followed c' := by
  obtain ⟨hnotes, hwritable⟩ := hsavable hkept
  obtain ⟨c', heq, hsaved⟩ := conclude_saved hkept h.cache
  change s.perform change = _ at heq
  rw [heq] at hwritable ⊢
  rw [show ∀ m : Mailbox, m.commit.takeUnsaved.2.keepChanges =
    { m with summary? := some m.summary, unsaved := {}, journal? := none } from Mailbox.kept_eq]
    at hwritable ⊢
  have hstart : Tracks c s.mailbox.startJournal := h.tracks.of_eq rfl rfl rfl rfl rfl rfl rfl
  have htracks := Tracks.editAll (m := s.mailbox.startJournal) h.distinct h.queued hstart hnotes
  have hdistinct := distinct_editAll (m := s.mailbox.startJournal) h.distinct change.edits
  have hqueued := Queued.editAll (m := s.mailbox.startJournal) h.distinct h.queued change.edits
  generalize s.mailbox.startJournal.editAll change.edits = m at *
  refine ⟨rfl, c', rfl, ?_, hdistinct, hqueued⟩
  rcases hsaved with ⟨hempty, rfl⟩ | hsave
  · exact htracks.of_eq rfl rfl rfl rfl rfl rfl (Unsaved.isEmpty_iff.1 hempty).symm
  · have hafter := htracks.save hdistinct ⟨hwritable.messages, hwritable.names, hwritable.modseq⟩
      hsave
    exact hafter.of_eq rfl rfl rfl rfl rfl rfl rfl

theorem Followed.perform {c : Cache} {change : Change} (h : s.Followed c)
    (hsavable : s.Savable change) : ∃ c', (s.perform change).Followed c' := by
  cases hresult : (s.attempt change).1 with
  | error e => exact ⟨c, h.of_error hresult⟩
  | ok _ => exact (h.of_ok hresult hsavable).2

theorem Followed.performAll {c : Cache} (h : s.Followed c) {changes : List Change}
    (hall : AllSavable changes s) : ∃ c', (s.performAll changes).Followed c' := by
  induction changes generalizing s c with
  | nil => exact ⟨c, h⟩
  | cons change rest ih =>
      obtain ⟨c', h'⟩ := h.perform hall.1
      exact ih h' hall.2

/-- After a run of changes on a mailbox that was opened with a cache, one more change either leaves
the cache with all of the mailbox, if it is kept, or leaves the cache alone. -/
theorem load_performAll {c : Cache} (hc : c.Lawful) (hcache : s.cache? = some c)
    (hopened : s.mailbox.Opened c) {changes : List Change} {last : Change}
    (hall : AllSavable changes s) (hlast : (s.performAll changes).Savable last) :
    (((s.performAll changes).attempt last).1 = .ok () →
      ∃ c' m', ((s.performAll changes).perform last).cache? = some c' ∧
        c'.load ((s.performAll changes).perform last).mailbox.name = .ok (some m') ∧
        ((s.performAll changes).perform last).mailbox.SavedAs m') ∧
    (∀ e, ((s.performAll changes).attempt last).1 = .error e →
      ((s.performAll changes).perform last).cache? = (s.performAll changes).cache?) := by
  have hstart : s.Followed c :=
    ⟨hcache, hopened.tracks hc, hopened.distinct hc, hopened.queued⟩
  obtain ⟨before, hbefore⟩ := hstart.performAll hall
  constructor
  · intro hkept
    obtain ⟨hnothing, c', hafter⟩ := hbefore.of_ok hkept hlast
    obtain ⟨m', hload, hsaved⟩ := hafter.tracks.load hafter.distinct hafter.queued hnothing
    exact ⟨c', m', hafter.cache, hload, hsaved⟩
  · intro e hfailed
    rw [(hbefore.of_error hfailed).cache, hbefore.cache]

/-- A mailbox that has just been opened with an empty cache. -/
def newlyOpened : SharedMailbox where
  mailbox := .create "INBOX" 0
  cache? := some {}

/-- A message arrives, is removed by the remote account, and loses the mark of that again. -/
def unmark : Change where
  edits := [.receive { remoteId := "a" }, .markRemoved "a",
    .setFlags 0 .least (OrderedSet.insert .deleted ∅) .remove]
  verdict := .ok ()

def giveUp : Change := ⟨[.receive { remoteId := "b" }], .error (.conflict "INBOX" "given up")⟩

/-- The message goes, and one with a keyword arrives. -/
def exchange : Change where
  edits := [.flushPending,
    .receive { remoteId := "b", flags := OrderedSet.insert (.keyword "work") ∅ }]
  verdict := .ok ()

theorem savable_unmark : newlyOpened.Savable unmark := by
  refine fun _ => ⟨⟨not_strays_receive rfl _, ?_, id, trivial⟩, by decide +kernel⟩
  rintro ⟨_, _, _, _, _, hqueued, _⟩
  exact OrderedSet.mem_empty hqueued

theorem savable_exchange : ((newlyOpened.perform unmark).perform giveUp).Savable exchange :=
  fun _ => ⟨⟨id, not_strays_receive rfl _, trivial⟩, by decide +kernel⟩

theorem load_performAll_exchange :
    (((newlyOpened.performAll [unmark, giveUp]).attempt exchange).1 = .ok ()) ∧
      ∃ c' m', ((newlyOpened.performAll [unmark, giveUp]).perform exchange).cache? = some c' ∧
        c'.load "INBOX" = .ok (some m') ∧
        ((newlyOpened.performAll [unmark, giveUp]).perform exchange).mailbox.SavedAs m' := by
  have hlawful : ({} : Cache).Lawful := ⟨List.Pairwise.nil, fun row hrow => nomatch hrow⟩
  have hopened : newlyOpened.mailbox.Opened {} := .fresh rfl 0
  have hgiveUp : (newlyOpened.perform unmark).Savable giveUp := fun h => nomatch h
  have hall : AllSavable [unmark, giveUp] newlyOpened := ⟨savable_unmark, hgiveUp, trivial⟩
  have hkept : ((newlyOpened.performAll [unmark, giveUp]).attempt exchange).1 = .ok () := rfl
  exact ⟨hkept, (load_performAll hlawful rfl hopened hall savable_exchange).1 hkept⟩

/-- The remote account removes the message once more. -/
def markAgain : Change := ⟨[.markRemoved "a"], .ok ()⟩

/-- What is kept of the second removal is not saved. -/
theorem load_misses_mark : ((newlyOpened.perform unmark).attempt markAgain).1 = .ok () ∧
    ∃ c' m', ((newlyOpened.perform unmark).perform markAgain).cache? = some c' ∧
      c'.load "INBOX" = .ok (some m') ∧
      m'.modseq ≠ ((newlyOpened.perform unmark).perform markAgain).mailbox.modseq ∧
      m'.store.messages ≠
        ((newlyOpened.perform unmark).perform markAgain).mailbox.store.messages.map
          Message.plain := by
  refine ⟨rfl, _, _, rfl, rfl, ?_, ?_⟩
  · decide +kernel
  · decide +kernel

end SharedMailbox

end MailBridge

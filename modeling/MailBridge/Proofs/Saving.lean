import Mathlib.Data.List.Nodup
import MailBridge.Proofs.Noting
import MailBridge.Proofs.Tables

/-! # What is left to save

As long as every change of what is saved is noted, the cache and what is noted as unsaved together
determine the mailbox: a message that is not noted is in the mailbox exactly if it is in the cache
and has not been taken out since. Saving what is noted then makes the cache show the mailbox.
-/

namespace MailBridge

namespace Mailbox

/-- The mailbox has the message, and it waits to be expunged or not as given. -/
def Shows (m : Mailbox) (e : Message × Bool) : Prop :=
  ∃ r ∈ m.store.messages, Cache.entryOf m.pending r = e

/-- The cache and the mailbox differ in nothing but what is noted as unsaved. -/
structure Tracks (c : Cache) (m : Mailbox) : Prop where
  legible : c.Legible m.name
  apart : (c.saved m.name).Pairwise fun a b => a.1.uid ≠ b.1.uid
  live : ∀ uid ∈ m.unsaved.written, ∃ r ∈ m.store.messages, r.uid = uid
  messages : ∀ e, e.1.uid ∉ m.unsaved.written →
    (m.Shows e ↔ e ∈ c.saved m.name ∧ m.unsaved.reset = false ∧ e.1.uid ∉ m.unsaved.removed)
  head : m.unsaved.mailbox = false → c.head? m.name = some m.head

open Relation

variable {c : Cache} {m m' : Mailbox}

theorem uid_of_entryOf {pending : OrderedSet Uid} {r : Message} {e : Message × Bool}
    (h : Cache.entryOf pending r = e) : r.uid = e.1.uid := by
  rw [← h]
  rfl

theorem shows_congr {e : Message × Bool}
    (hmessages : ∀ r, r.uid = e.1.uid → (r ∈ m'.store.messages ↔ r ∈ m.store.messages))
    (hpending : e.1.uid ∈ m'.pending ↔ e.1.uid ∈ m.pending) : m'.Shows e ↔ m.Shows e := by
  have hentry {r : Message} (hu : r.uid = e.1.uid) :
      Cache.entryOf m'.pending r = Cache.entryOf m.pending r := by
    simp only [Cache.entryOf, hu, hpending]
  constructor
  · rintro ⟨r, hr, he⟩
    have hu := uid_of_entryOf he
    exact ⟨r, (hmessages r hu).1 hr, (hentry hu).symm.trans he⟩
  · rintro ⟨r, hr, he⟩
    have hu := uid_of_entryOf he
    exact ⟨r, (hmessages r hu).2 hr, (hentry hu).trans he⟩

theorem Tracks.of_eq (h : Tracks c m) (hname : m'.name = m.name) (huids : m'.uids = m.uids)
    (hmodseq : m'.modseq = m.modseq) (hcursor : m'.cursor = m.cursor)
    (hmessages : m'.store.messages = m.store.messages) (hpending : m'.pending = m.pending)
    (hunsaved : m'.unsaved = m.unsaved) : Tracks c m' where
  legible := hname ▸ h.legible
  apart := hname ▸ h.apart
  live := by
    rw [hmessages, hunsaved]
    exact h.live
  messages e := by
    have hshows : m'.Shows e ↔ m.Shows e :=
      shows_congr (fun r _ => by rw [hmessages]) (by rw [hpending])
    rw [hunsaved, hname, hshows]
    exact h.messages e
  head := by
    have hhead : m'.head = m.head := by simp only [Mailbox.head, huids, hmodseq, hcursor]
    rw [hunsaved, hname, hhead]
    exact h.head

theorem Tracks.mark (h : Tracks c m) {uid : Uid} (hname : m'.name = m.name)
    (hunsaved : m'.unsaved = m.unsaved.mark uid)
    (hlive : ∀ u, (∃ r ∈ m.store.messages, r.uid = u) ∨ u = uid →
      ∃ r ∈ m'.store.messages, r.uid = u)
    (hothers : ∀ e : Message × Bool, e.1.uid ≠ uid → (m'.Shows e ↔ m.Shows e)) : Tracks c m' where
  legible := hname ▸ h.legible
  apart := hname ▸ h.apart
  live u hu := by
    rw [hunsaved] at hu
    refine hlive u ?_
    rcases OrderedSet.mem_insert.1 hu with hu | hu
    · exact .inr hu
    · exact .inl (h.live u hu)
  messages e he := by
    rw [hunsaved] at he ⊢
    have hmem : ¬ (e.1.uid = uid ∨ e.1.uid ∈ m.unsaved.written) :=
      fun hmem => he (OrderedSet.mem_insert.2 hmem)
    rw [hname, hothers e fun heq => hmem (.inl heq)]
    exact h.messages e fun hwritten => hmem (.inr hwritten)
  head hmailbox := by
    rw [hunsaved] at hmailbox
    cases hmailbox

theorem foldl_drop (l : List Message) (u : Unsaved) :
    l.foldl (fun u r => u.drop r.uid) u =
      { u with
        mailbox := u.mailbox || !l.isEmpty
        written := l.foldl (fun written r => written.erase r.uid) u.written
        removed := (l.map (·.uid)).foldl (fun removed uid => removed.insert uid) u.removed } := by
  induction l generalizing u with
  | nil => simp
  | cons r rest ih =>
      rw [List.foldl_cons, ih]
      simp [Unsaved.drop]

theorem shows_settle (hd : m.store.Distinct) {old r : Message}
    (found : m.store.get? r.uid = some old) (same : r.plain = old.plain) (e : Message × Bool) :
    ({ m with store := m.store.update r } : Mailbox).Shows e ↔ m.Shows e := by
  obtain ⟨hold, hu⟩ := (MessageStore.get?_eq_some hd).1 found
  have hentry : Cache.entryOf m.pending r = Cache.entryOf m.pending old := by
    rw [Cache.entryOf, Cache.entryOf, same, hu]
  constructor
  · rintro ⟨x, hx, he⟩
    rcases (MessageStore.mem_update hd).1 hx with ⟨rfl, _⟩ | ⟨hx, _⟩
    · exact ⟨old, hold, hentry.symm.trans he⟩
    · exact ⟨x, hx, he⟩
  · rintro ⟨x, hx, he⟩
    by_cases hxr : x.uid = r.uid
    · have hxold : x = old := Ascending.eq_of_uid_eq hd hx hold (hxr.trans hu.symm)
      subst hxold
      exact ⟨r, (MessageStore.mem_update hd).2 (.inl ⟨rfl, by simp [found]⟩), hentry.trans he⟩
    · exact ⟨x, (MessageStore.mem_update hd).2 (.inr ⟨hx, hxr⟩), he⟩

theorem Tracks.remove (h : Tracks c m) (p : Message → Bool) {pending : OrderedSet Uid}
    (left : ∀ uid, uid ∈ pending ↔
      uid ∈ m.pending ∧ ∀ r ∈ (m.store.removeWhere p).1, r.uid ≠ uid)
    (hd : m.store.Distinct) (some : (m.store.removeWhere p).1 ≠ []) (modseq : ModSeq) :
    Tracks c
      { m with
        store := (m.store.removeWhere p).2, pending, modseq
        unsaved := (m.store.removeWhere p).1.foldl (fun u r => u.drop r.uid) m.unsaved } where
  legible := h.legible
  apart := h.apart
  live uid huid := by
    rw [foldl_drop] at huid
    obtain ⟨hwritten, hstays⟩ := mem_foldl_erase.1 huid
    obtain ⟨r, hr, rfl⟩ := h.live uid hwritten
    have hkept : r ∉ (m.store.removeWhere p).1 := fun hremoved => hstays r hremoved rfl
    exact ⟨r, MessageStore.mem_removeWhere_iff_not_removed.2 ⟨hr, hkept⟩, rfl⟩
  messages e he := by
    simp only [foldl_drop, OrderedSet.mem_foldl_insert, mem_foldl_erase, List.mem_map] at he ⊢
    by_cases hgone : ∃ r ∈ (m.store.removeWhere p).1, r.uid = e.1.uid
    · -- the only message with the UID is taken out
      refine iff_of_false ?_ fun hsaved => hsaved.2.2 (.inr hgone)
      rintro ⟨x, hx, hxe⟩
      obtain ⟨r, hr, hu⟩ := hgone
      obtain ⟨hx, hkept⟩ := MessageStore.mem_removeWhere_iff_not_removed.1 hx
      have hrm : r ∈ m.store.messages := (MessageStore.mem_removed.1 hr).1
      have hxr : x = r := Ascending.eq_of_uid_eq hd hx hrm ((uid_of_entryOf hxe).trans hu.symm)
      exact hkept (hxr ▸ hr)
    · have hstays : ∀ r ∈ (m.store.removeWhere p).1, r.uid ≠ e.1.uid :=
        fun r hr hu => hgone ⟨r, hr, hu⟩
      have hwritten : e.1.uid ∉ m.unsaved.written := fun hmem => he ⟨hmem, hstays⟩
      refine (shows_congr (fun r hr => ?_) ?_).trans ((h.messages e hwritten).trans ?_)
      · rw [MessageStore.mem_removeWhere_iff_not_removed, and_iff_left_iff_imp]
        exact fun _ hremoved => hstays r hremoved hr
      · rw [left, and_iff_left hstays]
      · rw [or_iff_left hgone]
  head hmailbox := by
    rw [foldl_drop, Bool.or_eq_false_iff] at hmailbox
    simp [some] at hmailbox

/-- A step that notes what it changes keeps the cache in step with the mailbox. -/
theorem Noted.tracks (hd : m.store.Distinct) (h : Tracks c m) (s : Noted False m m') :
    Tracks c m' := by
  cases s with
  | aside => exact h.of_eq rfl rfl rfl rfl rfl rfl rfl
  | slip hno => exact hno.elim
  | head uids cursor =>
      exact ⟨h.legible, h.apart, h.live, h.messages, fun hmailbox => by cases hmailbox⟩
  | @settle old r found same =>
      refine ⟨h.legible, h.apart, fun uid huid => ?_, fun e he => ?_, h.head⟩
      · exact exists_mem_update (h.live uid huid)
      · exact (shows_settle hd found same e).trans (h.messages e he)
  | @write old r found modseq =>
      refine h.mark rfl rfl (fun uid huid => ?_) fun e he => shows_congr (fun x hx => ?_) Iff.rfl
      · refine exists_mem_update ?_
        rcases huid with hold | rfl
        · exact hold
        · exact ⟨old, (MessageStore.get?_eq_some hd).1 found⟩
      · have hxr : x.uid ≠ r.uid := fun heq => he (hx.symm.trans heq)
        have hxne : x ≠ r := fun heq => hxr (heq ▸ rfl)
        simp [markUnsaved, MessageStore.mem_update hd, hxr, hxne]
  | @queue uid r found =>
      refine h.mark rfl rfl (fun u hu => ?_) fun e he => shows_congr (fun x hx => Iff.rfl) ?_
      · rcases hu with hold | rfl
        · exact hold
        · exact ⟨r, (MessageStore.get?_eq_some hd).1 found⟩
      · simp [markUnsaved, he]
  | @enter r store added =>
      obtain ⟨_, _, hmessages, _⟩ := MessageStore.append?_eq_some added
      refine h.mark rfl rfl (fun u hu => ?_) fun e he => shows_congr (fun x hx => ?_) Iff.rfl
      · simp only [markUnsaved, hmessages]
        rcases hu with ⟨x, hx, hxu⟩ | rfl
        · exact ⟨x, List.mem_append_left _ hx, hxu⟩
        · exact ⟨r, List.mem_append_right _ (List.mem_singleton_self r), rfl⟩
      · have hxne : x ≠ r := fun heq => he (hx.symm.trans (heq ▸ rfl))
        simp [markUnsaved, hmessages, hxne]
  | remove p left some modseq => exact h.remove p left hd some modseq
  | renew =>
      refine ⟨h.legible, h.apart, fun uid huid => absurd huid OrderedSet.mem_empty, fun e _ => ?_,
        fun hmailbox => by cases hmailbox⟩
      constructor
      · rintro ⟨r, hr, _⟩
        cases hr
      · rintro ⟨_, hreset, _⟩
        cases hreset

/-- No edit changes something that is saved without noting it. -/
def NotesAll : List Edit → Mailbox → Prop
  | [], _ => True
  | e :: rest, m => ¬ e.Strays m ∧ NotesAll rest (e.apply m)

theorem Tracks.editAll (hd : m.store.Distinct) (hq : m.Queued) (h : Tracks c m)
    {edits : List Edit} (hnotes : NotesAll edits m) : Tracks c (m.editAll edits) := by
  induction edits generalizing m with
  | nil => exact h
  | cons e rest ih =>
      have hsteps : ReflTransGen (Noted False) m (e.apply m) :=
        noted_apply hq (.inr hnotes.1)
      have htracks : Tracks c (e.apply m) := by
        generalize e.apply m = m' at hsteps
        induction hsteps with
        | refl => exact h
        | tail hbefore s ih => exact s.tracks (Noted.queued_of_steps hd hq hbefore).1 ih
      obtain ⟨hd', hq'⟩ := Noted.queued_of_steps hd hq hsteps
      exact ih hd' hq' htracks hnotes.2

/-! ## Saving -/

theorem mem_messagesOf (hd : m.store.Distinct) {r : Message} :
    r ∈ m.unsaved.messagesOf m ↔ r ∈ m.store.messages ∧ r.uid ∈ m.unsaved.written := by
  rw [Unsaved.messagesOf, List.mem_filterMap]
  constructor
  · rintro ⟨uid, huid, found⟩
    obtain ⟨hr, rfl⟩ := (MessageStore.get?_eq_some hd).1 found
    exact ⟨hr, huid⟩
  · rintro ⟨hr, huid⟩
    exact ⟨r.uid, huid, MessageStore.get?_of_mem hd hr⟩

/-- Different messages are not in each other's way, if no two have one remote name. -/
theorem messagesOf_apart (hd : m.store.Distinct)
    (hnames : (m.store.messages.map (·.remoteId)).Nodup) :
    (m.unsaved.messagesOf m).Pairwise fun a b => a.uid ≠ b.uid ∧ a.remoteId ≠ b.remoteId := by
  refine List.pairwise_filterMap.2 (m.unsaved.written.ascending.imp ?_)
  intro a b hab x hxa y hyb
  obtain ⟨hx, rfl⟩ := (MessageStore.get?_eq_some hd).1 hxa
  obtain ⟨hy, rfl⟩ := (MessageStore.get?_eq_some hd).1 hyb
  refine ⟨KeyOrder.ne_of_lt hab, fun hid => ?_⟩
  rw [List.inj_on_of_nodup_map hnames hx hy hid] at hab
  exact KeyOrder.irrefl _ hab

/-- Whether the mailbox can be read back from the cache: its messages can, no two of them have one
remote name, and its count of changes has room. -/
structure Writable (m : Mailbox) : Prop where
  messages : ∀ r ∈ m.store.messages, r.Writable
  names : (m.store.messages.map (·.remoteId)).Nodup
  modseq : m.modseq.val ≤ maxSigned

theorem writable_iff : m.Writable ↔ (∀ r ∈ m.store.messages, r.Writable) ∧
    (m.store.messages.map (·.remoteId)).Nodup ∧ m.modseq.val ≤ maxSigned :=
  ⟨fun h => ⟨h.messages, h.names, h.modseq⟩, fun h => ⟨h.1, h.2.1, h.2.2⟩⟩

instance (m : Mailbox) : Decidable m.Writable := decidable_of_iff' _ writable_iff

theorem Tracks.save (hd : m.store.Distinct) (h : Tracks c m) (hwritable : m.Writable)
    {c' : Cache} (hsave : c.save m m.unsaved = .ok c') : Tracks c' { m with unsaved := {} } := by
  have hwritten : ∀ r ∈ m.unsaved.messagesOf m, r.Writable := fun r hr =>
    hwritable.messages r ((mem_messagesOf hd).1 hr).1
  have hapart := messagesOf_apart hd hwritable.names
  obtain ⟨hlegible, hhead, hsaved⟩ :=
    Cache.save_ok hsave h.legible hwritable.modseq hwritten hapart
  -- a message is kept in the cache if it is not noted and not removed
  have hkept (e : Message × Bool) : e ∈ c'.saved m.name ↔
      (e ∈ c.saved m.name ∧ m.unsaved.reset = false ∧ e.1.uid ∉ m.unsaved.removed ∧
        ∀ r ∈ m.unsaved.messagesOf m, e.1.uid ≠ r.uid ∧ e.1.remoteId ≠ r.remoteId) ∨
      ∃ r ∈ m.unsaved.messagesOf m, Cache.entryOf m.pending r = e := by
    rw [hsaved, List.mem_append, List.mem_filter, decide_eq_true_eq, List.mem_map]
  refine ⟨hlegible, ?_, fun uid huid => absurd huid OrderedSet.mem_empty, fun e _ => ?_,
    fun _ => hhead⟩
  · rw [hsaved]
    refine List.pairwise_append.2 ⟨h.apart.filter _, ?_, ?_⟩
    · exact List.pairwise_map.2 (hapart.imp And.left)
    · intro e he x hx
      obtain ⟨r, hr, rfl⟩ := List.mem_map.1 hx
      exact ((of_decide_eq_true (List.mem_filter.1 he).2).2.2 r hr).1
  · have hsame : ({ m with unsaved := {} } : Mailbox).Shows e ↔ m.Shows e := Iff.rfl
    rw [hsame, and_iff_left ⟨rfl, OrderedSet.mem_empty⟩, hkept]
    constructor
    · rintro ⟨r, hr, rfl⟩
      by_cases huid : r.uid ∈ m.unsaved.written
      · exact .inr ⟨r, (mem_messagesOf hd).2 ⟨hr, huid⟩, rfl⟩
      · obtain ⟨hmem, hreset, hremoved⟩ := (h.messages _ huid).1 ⟨r, hr, rfl⟩
        refine .inl ⟨hmem, hreset, hremoved, fun x hx => ?_⟩
        obtain ⟨hx, hxuid⟩ := (mem_messagesOf hd).1 hx
        have hne : r ≠ x := fun heq => huid (heq ▸ hxuid)
        exact ⟨fun heq => hne (Ascending.eq_of_uid_eq hd hr hx heq),
          fun heq => hne (List.inj_on_of_nodup_map hwritable.names hr hx heq)⟩
    · rintro (⟨hmem, hreset, hremoved, hothers⟩ | ⟨r, hr, he⟩)
      · refine (h.messages e fun huid => ?_).2 ⟨hmem, hreset, hremoved⟩
        -- what is noted is there, so it is written
        obtain ⟨r, hr, hru⟩ := h.live _ huid
        have hrwritten := (mem_messagesOf hd).2 ⟨hr, hru ▸ huid⟩
        exact (hothers r hrwritten).1 hru.symm
      · exact ⟨r, ((mem_messagesOf hd).1 hr).1, he⟩

end Mailbox

end MailBridge

import MailBridge.Proofs.Precedence
import MailBridge.Proofs.Recent
import MailBridge.Proofs.Refetching
import MailBridge.Proofs.Storing

/-! # What a session is told of its own changes of flags

A client that changes flags is shown the messages with their new flags, but the view of its session
keeps the old ones. So the next poll finds these messages later than their entries, and reports them
as it reports what others have changed, unless their flags have come back to what the view has.
-/

namespace MailBridge

open SharedMailbox

/-- A change of flags that a client asks for. -/
structure FlagChange where
  now : Instant
  set : MessageSet
  delta : Flags
  mode : StoreMode

namespace FlagChange

def request (c : FlagChange) : Request := .store c.now c.set c.delta c.mode

def apply (c : FlagChange) (flags : Flags) : Flags :=
  Flags.apply c.mode c.delta.withoutRecent flags

end FlagChange

namespace Selection

/-- Whether a set names a message in view. -/
def names (s : Selection) (t : Seqnum × SnapshotEntry) : MessageSet → Bool
  | .seqnums set => set.contains s.largest.seqnum t.1.val
  | .uids set => set.contains s.largest.uid t.2.uid.val

def flagsAfter (s : Selection) (changes : List FlagChange) (t : Seqnum × SnapshotEntry) : Flags :=
  changes.foldl (fun flags c => if s.names t c.set then c.apply flags else flags) t.2.flags

/-- What there is to report of a message in view after changes of its flags: nothing if they have
come back to what the view has. -/
def owed? (s : Selection) (changes : List FlagChange) (t : Seqnum × SnapshotEntry) :
    Option MessageView :=
  if s.flagsAfter changes t = t.2.flags then none
  else some { MessageView.ofEntry t.1 t.2 with flags := s.flagsAfter changes t }

variable {issued counted : Prop} {m m' : SharedMailbox} {s s' : Selection} {b b' : Mailbox}
  {changes : List FlagChange} {c : FlagChange} {t : Seqnum × SnapshotEntry}
  {targets : List (Seqnum × SnapshotEntry)}

theorem targets_eq_filter {set : MessageSet} (h : s.targets set = .ok targets) :
    targets = s.snapshot.numbered.filter (s.names · set) := by
  cases set with
  | seqnums set =>
      simp only [Selection.targets] at h
      split at h
      · cases h
      · exact (Except.ok.inj h).symm
  | uids set => exact (Except.ok.inj h).symm

@[simp] theorem flagsAfter_nil : s.flagsAfter [] t = t.2.flags := rfl

theorem flagsAfter_append : s.flagsAfter (changes ++ [c]) t =
    if s.names t c.set then c.apply (s.flagsAfter changes t) else s.flagsAfter changes t := by
  simp [flagsAfter]

theorem isRecent_flagsAfter : (s.flagsAfter changes t).isRecent = t.2.flags.isRecent := by
  induction changes using List.reverseRecOn with
  | nil => rfl
  | append_singleton before c ih =>
      rw [flagsAfter_append]
      split
      · exact (Flags.isRecent_apply ..).trans ih
      · exact ih

/-! ## What the view lacks -/

/-- All that the view lacks is what changes of flags have done to its messages, the mark of a recent
message apart. -/
structure Lacks (s : Selection) (changes : List FlagChange) (b : Mailbox) : Prop where
  validity : b.uids.validity = s.snapshot.validity
  pending : b.pending.isEmpty = true
  messages : ∀ t ∈ s.snapshot.numbered, ∃ r ∈ b.store.messages, r.uid = t.2.uid ∧
    Flags.withoutRecent r.flags = Flags.withoutRecent (s.flagsAfter changes t)

theorem Lacks.alike (h : s.Lacks changes b) (ha : b.Alike b') : s.Lacks changes b' := by
  refine ⟨by rw [ha.uids, h.validity], by rw [ha.pending, h.pending], fun t ht => ?_⟩
  obtain ⟨r, hr, hu, hflags⟩ := h.messages t ht
  obtain ⟨r', hr', hstays, hkeeps⟩ := ha.exists_message hr
  exact ⟨r', hr', hstays.trans hu, hkeeps.trans hflags⟩

/-- Changes of messages that are not in view, or of none, do not matter. -/
theorem Lacks.unnamed (h : s.Lacks changes b)
    (hnone : ∀ t ∈ s.snapshot.numbered, s.names t c.set = false) : s.Lacks (changes ++ [c]) b := by
  refine ⟨h.validity, h.pending, fun t ht => ?_⟩
  rw [flagsAfter_append, hnone t ht]
  exact h.messages t ht

theorem aims_iff_names (hasc : Ascending SnapshotEntry.uid s.snapshot.entries)
    (htargets : s.targets c.set = .ok targets) (ht : t ∈ s.snapshot.numbered) :
    Aims targets t.2.uid ↔ s.names t c.set = true := by
  rw [targets_eq_filter htargets]
  constructor
  · rintro ⟨t', ht', hu⟩
    obtain ⟨hmem, hnamed⟩ := List.mem_filter.1 ht'
    obtain rfl := (Snapshot.ascending_numbered_uids hasc).eq_of_uid_eq hmem ht hu
    exact hnamed
  · intro hnamed
    exact ⟨t, List.mem_filter.2 ⟨ht, hnamed⟩, rfl⟩

theorem Lacks.storeEach (hd : b.store.Distinct)
    (hasc : Ascending SnapshotEntry.uid s.snapshot.entries)
    (htargets : s.targets c.set = .ok targets) (h : s.Lacks changes b) :
    s.Lacks (changes ++ [c]) (storeEach c.now c.delta c.mode targets b).2 := by
  have hframes := frames_storeEach c.now c.delta c.mode targets b
  refine ⟨by rw [hframes.uids, h.validity], by rw [hframes.pending, h.pending], fun t ht => ?_⟩
  obtain ⟨r, hr, hu, hflags⟩ := h.messages t ht
  obtain ⟨next, hnext⟩ := get?_storeEach c.now c.delta c.mode targets b t.2.uid
  have hfound := (MessageStore.get?_eq_some hd).2 ⟨hr, hu⟩
  have hd' : (Selection.storeEach c.now c.delta c.mode targets b).2.store.Distinct :=
    distinct_storeEach hd
  rw [hfound] at hnext
  rw [flagsAfter_append]
  by_cases hnamed : s.names t c.set = true
  · rw [if_pos ((aims_iff_names hasc htargets ht).2 hnamed)] at hnext
    obtain ⟨hr', hu'⟩ := (MessageStore.get?_eq_some hd').1 hnext
    refine ⟨_, hr', hu', ?_⟩
    rw [if_pos hnamed, Message.flags_stored]
    exact Flags.withoutRecent_apply _ _ hflags
  · rw [if_neg fun haims => hnamed ((aims_iff_names hasc htargets ht).1 haims)] at hnext
    obtain ⟨hr', hu'⟩ := (MessageStore.get?_eq_some hd').1 hnext
    rw [if_neg hnamed]
    exact ⟨r, hr', hu', hflags⟩

/-! ## After a look -/

theorem lacks_polled (hm : m.mailbox.Sound issued counted)
    (hasc : Ascending SnapshotEntry.uid s.snapshot.entries) (hdated : s.snapshot.Dated m.mailbox)
    (hcounting : (s.poll m).mailbox.mailbox.modseq.val < maxLong) {report : PollReport}
    (hanswer : (s.poll m).answer = .ok report) (hs' : (s.poll m).selection? = some s') :
    s'.Lacks [] (s.poll m).mailbox.mailbox := by
  obtain ⟨b, m', hlooks, heq⟩ := poll_of_answer hanswer
  rw [heq] at hs' hcounting ⊢
  by_cases hcurrent : b.uids.validity = s.snapshot.validity
  · rw [Selection.report, if_pos hcurrent] at hs' hcounting ⊢
    cases hs'
    have hd := (hlooks.sound hm).1.distinct
    obtain ⟨_, _, halike, hpending⟩ := hlooks.spec hd
    have hview := (Mailbox.catchUp_spec (m := b) hasc hd).1
    have hreflects := hdated.discloses (hlooks.discloses hm.distinct).1
      (halike.modseq ▸ hcounting)
    rw [pollChanges_or_pending] at hpending
    refine Lacks.alike ⟨?_, halike.pending ▸ hpending, fun t ht => ?_⟩ halike
    · rw [hview]
      exact hcurrent
    · have he := Snapshot.mem_entries ht
      rw [hview] at he
      obtain ⟨r, hr, hu⟩ := Mailbox.exists_message_caughtUp hd he
      exact ⟨r, hr, hu, (Mailbox.agrees_caughtUp hd hreflects.precedes he hr hu).2.symm⟩
  · rw [Selection.report, if_neg hcurrent] at hs'
    cases hs'

theorem lacks_selected {isReadOnly : Bool} {report : SelectReport}
    (hd : m.mailbox.store.Distinct) (h : m.select isReadOnly = (.ok (report, s), m')) :
    s.Lacks [] m'.mailbox := by
  rcases select_cases isReadOnly m with
    ⟨e, m₁, _, _, heq⟩ | ⟨_, _, _, _, heq, _, hview, _, hleft⟩
  · rw [heq] at h
    cases h
  · rw [heq] at h
    cases h
    have hd' : m.mailbox.startJournal.flushPending.2.store.Distinct :=
      Mailbox.distinct_editAll (m := m.mailbox.startJournal) hd [.flushPending]
    obtain ⟨huids, hpending, _⟩ := Mailbox.flushed_spec m.mailbox.startJournal
    have halike : m.mailbox.startJournal.flushPending.2.Alike m'.mailbox := by
      rw [hleft, Mailbox.kept_eq]
      unfold claiming
      split
      · exact ⟨rfl, rfl, rfl, rfl⟩
      · obtain ⟨hmessages, huids, hmodseq, hpending⟩ :=
          Mailbox.alike_clearRecent hd' fun _ => true
        exact ⟨hmessages, huids, hmodseq, hpending⟩
    refine Lacks.alike ⟨by rw [hview]; rfl, hpending ▸ rfl, fun t ht => ?_⟩ halike
    have he := Snapshot.mem_entries ht
    rw [hview] at he
    obtain ⟨r, hr, heq⟩ := List.mem_map.1 he
    rw [flagsAfter_nil, ← heq]
    exact ⟨r, hr, rfl, rfl⟩

/-! ## A change -/

/-- What the view lacks after a change of flags: the change, too, unless it has failed. -/
structure Incurs {α : Type} (s : Selection) (changes : List FlagChange) (c : FlagChange)
    (o : Outcome α) : Prop where
  stays : o.selection? = some s
  done : ∀ a, o.answer = .ok a → s.Lacks (changes ++ [c]) o.mailbox.mailbox
  failed : ∀ e, o.answer = .error e → s.Lacks changes o.mailbox.mailbox

theorem incurs_failed {α : Type} (h : s.Lacks changes m.mailbox) (e : SessionError) :
    s.Incurs changes c (s.stay (.error e : Except SessionError α) m) where
  stays := rfl
  done a ha := by cases ha
  failed _ _ := h

theorem incurs_done {α : Type} {a : α} (h : s.Lacks (changes ++ [c]) m.mailbox) :
    s.Incurs changes c (s.stay (.ok a) m) where
  stays := rfl
  done _ _ := h
  failed e he := by cases he

theorem alike_mutate_error {α : Type} {f : Mailbox → Except MailboxError α × Mailbox}
    {e : MailboxError} (hd : m.mailbox.store.Distinct)
    (hf : m.mailbox.startJournal.Edited (f m.mailbox.startJournal).2)
    (herror : (m.mutate f).1 = .error e) : m.mailbox.Alike (m.mutate f).2.mailbox := by
  obtain ⟨edits, hedits⟩ := hf
  obtain ⟨store, hrestored, hmessages⟩ := Mailbox.rollback_restores hd edits
  rw [mutate_error hedits herror, hrestored]
  exact ⟨by rw [hmessages], rfl, rfl, rfl⟩

theorem incurs_mutate (hd : m.mailbox.store.Distinct)
    (hasc : Ascending SnapshotEntry.uid s.snapshot.entries) (h : s.Lacks changes m.mailbox)
    (htargets : s.targets c.set = .ok targets) {first : SnapshotEntry}
    {done : Except MailboxError (List (Seqnum × SnapshotEntry × Message)) × SharedMailbox}
    (hdone : m.mutate (storing c.now c.delta c.mode first targets) = done) :
    s.Incurs changes c (s.stay ((done.1.mapError SessionError.mailbox).map fun stored =>
      stored.map fun v => MessageView.ofLive v.1 v.2.1 (some v.2.2)) done.2) := by
  have hlacks : s.Lacks changes m.mailbox.startJournal := h.alike ⟨rfl, rfl, rfl, rfl⟩
  have hstored := hlacks.storeEach (b := m.mailbox.startJournal) hd hasc htargets
  cases hanswer : (m.mutate (storing c.now c.delta c.mode first targets)).1 with
  | error e =>
      have hedited : m.mailbox.startJournal.Edited
          (storing c.now c.delta c.mode first targets m.mailbox.startJournal).2 := by
        rw [storing_mailbox]
        exact (Mailbox.tended_storeEach ..).edited
      have hback := alike_mutate_error hd hedited hanswer
      rw [hdone] at hanswer hback
      rw [hanswer]
      exact incurs_failed (h.alike hback) _
  | ok stored =>
      have hkept := mailbox_mutate_of_kept hanswer
      rw [Mailbox.kept_eq, storing_mailbox] at hkept
      rw [hdone] at hanswer hkept
      rw [hanswer]
      refine incurs_done ?_
      rw [hkept]
      exact hstored.alike ⟨rfl, rfl, rfl, rfl⟩

/-- A change of flags that is carried out is what the view lacks then, too. -/
theorem incurs_store (hm : m.mailbox.Sound issued counted)
    (hasc : Ascending SnapshotEntry.uid s.snapshot.entries) (h : s.Lacks changes m.mailbox)
    (c : FlagChange) : s.Incurs changes c (store c.now c.set c.delta c.mode m s) := by
  have hvalid : m.mailbox.summary.validity = s.snapshot.validity := by
    rw [Mailbox.summary_of_figured hm.figured]
    exact h.validity
  by_cases hwrites : s.isReadOnly = true
  · have hrefused : store c.now c.set c.delta c.mode m s =
        s.stay (.error (.readOnly s.mailbox)) m := by
      simp [store, whileValid, hvalid, hwrites]
    rw [hrefused]
    exact incurs_failed h _
  · rw [Bool.not_eq_true] at hwrites
    cases htargets : s.targets c.set with
    | error e =>
        rw [store_of_error hvalid hwrites htargets]
        exact incurs_failed h _
    | ok targets =>
        cases targets with
        | nil =>
            rw [store_of_nil hvalid hwrites htargets]
            refine incurs_done (h.unnamed fun t ht => ?_)
            have hnone := List.filter_eq_nil_iff.1 (targets_eq_filter htargets).symm t ht
            simpa using hnone
        | cons t rest =>
            rw [store_of_cons hvalid hwrites htargets]
            exact incurs_mutate hm.distinct hasc h htargets rfl

/-! ## The next poll -/

/-- If no messages wait to be expunged, a poll looks at the mailbox as it is. -/
theorem LooksAt.alike {changes : Bool} (hlooks : s.LooksAt m changes b m')
    (hpending : m.mailbox.pending.isEmpty = true) : m.mailbox.Alike b := by
  cases hlooks with
  | still => exact .refl _
  | changed =>
      have hflush : m.mailbox.startJournal.flushPending.2 = m.mailbox.startJournal := by
        have hnone : m.mailbox.startJournal.pending.isEmpty = true := hpending
        unfold Mailbox.flushPending
        rw [if_pos hnone]
      rw [hflush]
      exact ⟨rfl, rfl, rfl, rfl⟩

section Lacking

variable (hasc : Ascending SnapshotEntry.uid s.snapshot.entries) (hd : b.store.Distinct)
  (hprecedes : ∀ e ∈ s.snapshot.entries, ∀ r ∈ b.store.messages, r.uid = e.uid → e.Precedes r)
  (h : s.Lacks changes b)

include hd hprecedes h in
theorem Lacks.flags_refresh (ht : t ∈ s.snapshot.numbered) :
    (b.refresh t.2).flags = s.flagsAfter changes t := by
  obtain ⟨r, hr, hu, hflags⟩ := h.messages t ht
  have hrefreshed := Mailbox.refresh_of_precedes hd hr hu
    (hprecedes t.2 (Snapshot.mem_entries ht) r hr hu)
  exact Flags.eq_of_withoutRecent (hrefreshed.2.trans hflags)
    ((Mailbox.isRecent_refresh b t.2).trans isRecent_flagsAfter.symm)

include hd hprecedes h in
/-- An entry shows other flags than its message unless they have come back. -/
theorem Lacks.differs_iff (ht : t ∈ s.snapshot.numbered) :
    b.differs t.2 = true ↔ s.flagsAfter changes t ≠ t.2.flags := by
  obtain ⟨r, hr, hu, hflags⟩ := h.messages t ht
  have hfound : b.get? t.2.uid = some r := (MessageStore.get?_eq_some hd).2 ⟨hr, hu⟩
  rw [Mailbox.differs_eq_contradicts hd (hprecedes t.2 (Snapshot.mem_entries ht))]
  simp only [Mailbox.contradicts, hfound, Option.any_some, decide_eq_true_eq, hflags]
  refine not_congr ⟨fun heq => ?_, fun heq => by rw [heq]⟩
  exact Flags.eq_of_withoutRecent heq.symm isRecent_flagsAfter

include hasc hd h in
theorem Lacks.view?_caughtUp (ht : t ∈ s.snapshot.numbered) :
    (s.snapshot.catchUp (b.changesSince s.snapshot)).2.view? t.2.uid =
      some (.ofEntry t.1 (b.refresh t.2)) := by
  have hview := (Mailbox.catchUp_spec (m := b) hasc hd).1
  have hlive : s.snapshot.entries.filter (fun e => (b.get? e.uid).isSome) = s.snapshot.entries := by
    refine List.filter_eq_self.2 fun e he => ?_
    rw [← Snapshot.entries_numbered] at he
    obtain ⟨t, ht, rfl⟩ := List.mem_map.1 he
    obtain ⟨r, hr, hu, _⟩ := h.messages t ht
    rw [Mailbox.get?, (MessageStore.get?_eq_some hd).2 ⟨hr, hu⟩]
    rfl
  have hat : s.snapshot.entries[t.1.toIndex]? = some t.2 :=
    (Snapshot.mem_numbered hasc.length_le).1 ht
  have hplace : (s.snapshot.catchUp (b.changesSince s.snapshot)).2.get? t.1 =
      some (b.refresh t.2) := by
    rw [hview, Snapshot.get?, Mailbox.caughtUp, hlive]
    have hlt := (List.getElem?_eq_some_iff.1 hat).1
    rw [List.getElem?_append_left (by simpa using hlt), List.getElem?_map, hat]
    rfl
  refine (Snapshot.view?_eq_some ?_).2 ⟨_, hplace, Mailbox.refresh_uid b t.2, rfl⟩
  rw [hview]
  exact Mailbox.ascending_caughtUp hasc hd

include hasc hd hprecedes h in
theorem Lacks.flagged : (s.snapshot.catchUp (b.changesSince s.snapshot)).1.flagged =
    s.snapshot.numbered.filterMap (s.owed? changes) := by
  rw [Mailbox.flagged_eq hasc hd, ← s.snapshot.entries_numbered, List.filter_map, List.map_map,
    List.filterMap_map, List.filterMap_filter]
  refine List.filterMap_congr fun t ht => ?_
  have hview := h.view?_caughtUp hasc hd ht
  have hflags := h.flags_refresh hd hprecedes ht
  have hdiffers := h.differs_iff hd hprecedes ht
  simp only [Function.comp_apply, owed?, hview]
  by_cases hback : s.flagsAfter changes t = t.2.flags
  · have hsame : b.differs t.2 = false := by simpa [hback] using hdiffers
    simp [hsame, hback]
  · simp [hdiffers.2 hback, hback, MessageView.ofEntry, hflags]

end Lacking

/-- If all that the view lacks is what changes of flags have done, this is what a poll reports. -/
theorem Lacks.poll_flagged (hm : m.mailbox.Sound issued counted)
    (hasc : Ascending SnapshotEntry.uid s.snapshot.entries) (hdated : s.snapshot.Dated m.mailbox)
    (hcounting : m.mailbox.modseq.val < maxLong) (h : s.Lacks changes m.mailbox)
    {report : PollReport} (hanswer : (s.poll m).answer = .ok report) :
    report.flagged = s.snapshot.numbered.filterMap (s.owed? changes) := by
  obtain ⟨b, m', hlooks, heq⟩ := poll_of_answer hanswer
  have halike := hlooks.alike h.pending
  have hlacks := h.alike halike
  have hb := (hlooks.sound hm).1
  have hreflects := hdated.discloses (hlooks.discloses hm.distinct).1
    (halike.modseq ▸ hcounting)
  rw [heq, Selection.report, if_pos hlacks.validity] at hanswer
  cases hanswer
  exact hlacks.flagged hasc hb.distinct hreflects.precedes

end Selection

/-! ## A run -/

/-- The change of flags that a client asks for by an action. -/
def Action.flagChange? (client : String) : Action → Option FlagChange
  | .request c (.store now set delta mode) =>
    if c = client then some ⟨now, set, delta, mode⟩ else none
  | _ => none

theorem Action.flagChange?_eq_some {client : String} {a : Action} {c : FlagChange} :
    a.flagChange? client = some c ↔ a = .request client c.request := by
  cases a with
  | request name r =>
      cases r with
      | store now set delta mode =>
          obtain ⟨now', set', delta', mode'⟩ := c
          simp [flagChange?, FlagChange.request]
      | _ => simp [flagChange?, FlagChange.request]
  | _ => simp [flagChange?]

/-- The client looks at the mailbox as it is. -/
def Action.Looks (client : String) (a : Action) : Prop :=
  a = .request client .poll ∨ ∃ isReadOnly, a = .select client isReadOnly

namespace Attended

variable {issued : Prop} {w w' : Attended} {client : String} {s : Selection} {a : Action}
  {changes : List FlagChange}

/-- The client does nothing but change flags, and nobody else changes more of the mailbox than the
marks of recent messages. -/
def Undisturbed (client : String) : List Action → Attended → Prop
  | [], _ => True
  | a :: rest, w =>
    ((∃ c, a.flagChange? client = some c) ∨
      a.client? ≠ some client ∧ w.mailbox.mailbox.Alike (w.act a).2.mailbox.mailbox) ∧
    Undisturbed client rest (w.act a).2

/-- The changes of flags that a client has asked for and that have not failed. -/
def carriedOut (client : String) : List Action → Attended → List FlagChange
  | [], _ => []
  | a :: rest, w =>
    (match (w.act a).1 with
      | .ok _ => (a.flagChange? client).toList
      | .error _ => []) ++ carriedOut client rest (w.act a).2

theorem lacks_looked (hw : w.InStep issued True) (hdated : w.Dated) (ha : a.Looks client)
    {answer : Response} (hanswer : w.act a = (.ok answer, w'))
    (hcounting : w'.mailbox.mailbox.modseq.val < maxLong)
    (hs : w'.selections.get? client = some s) : s.Lacks [] w'.mailbox.mailbox := by
  rcases ha with rfl | ⟨isReadOnly, rfl⟩
  · cases hbefore : w.selections.get? client with
    | none =>
        simp only [act, hbefore] at hanswer
        cases hanswer
    | some before =>
        rw [act_poll hbefore] at hanswer
        obtain ⟨hok, rfl⟩ := Prod.mk.inj hanswer
        rw [get?_keep, if_pos rfl] at hs
        cases hreport : (before.poll w.mailbox).answer with
        | error e =>
            rw [hreport] at hok
            cases hok
        | ok report =>
            exact Selection.lacks_polled hw.sound (hw.follows client before hbefore).ascending
              (hdated client before hbefore) hcounting hreport hs
  · cases hselect : (w.leave client).mailbox.select isReadOnly with
    | mk result m =>
        cases result with
        | error e =>
            simp only [act, hselect] at hanswer
            cases hanswer
        | ok selected =>
            obtain ⟨report, selection⟩ := selected
            simp only [act, hselect] at hanswer
            cases hanswer
            rw [OrderedMap.get?_insert_self] at hs
            cases hs
            exact Selection.lacks_selected (hw.leave client).sound.distinct hselect

theorem act_flagChange (hs : w.selections.get? client = some s) (c : FlagChange) :
    w.act (.request client c.request) =
      ((Selection.store c.now c.set c.delta c.mode w.mailbox s).answer.map .views,
        ⟨(Selection.store c.now c.set c.delta c.mode w.mailbox s).mailbox, keep client w.selections
          (Selection.store c.now c.set c.delta c.mode w.mailbox s).selection?⟩) := by
  simp only [act, hs]
  rfl

theorem lacks_flagChange (hw : w.InStep issued True) (hs : w.selections.get? client = some s)
    (h : s.Lacks changes w.mailbox.mailbox) (c : FlagChange) :
    (w.act (.request client c.request)).2.selections.get? client = some s ∧
      s.Lacks (changes ++ w.carriedOut client [.request client c.request])
        (w.act (.request client c.request)).2.mailbox.mailbox := by
  have hincurs := Selection.incurs_store hw.sound (hw.follows client s hs).ascending h c
  have hchange : (Action.request client c.request).flagChange? client = some c :=
    Action.flagChange?_eq_some.2 rfl
  rw [act_flagChange hs]
  refine ⟨by rw [get?_keep, if_pos rfl, hincurs.stays], ?_⟩
  cases hanswer : (Selection.store c.now c.set c.delta c.mode w.mailbox s).answer with
  | error e =>
      have hnone : w.carriedOut client [.request client c.request] = [] := by
        simp [carriedOut, act_flagChange hs, hanswer, Except.map]
      rw [hnone, List.append_nil]
      exact hincurs.failed e hanswer
  | ok views =>
      have hone : w.carriedOut client [.request client c.request] = [c] := by
        simp [carriedOut, act_flagChange hs, hanswer, Except.map, hchange]
      rw [hone]
      exact hincurs.done views hanswer

theorem carriedOut_cons (client : String) (a : Action) (rest : List Action) (w : Attended) :
    w.carriedOut client (a :: rest) =
      w.carriedOut client [a] ++ (w.act a).2.carriedOut client rest := by
  simp only [carriedOut, List.append_nil]

theorem carriedOut_other (h : a.client? ≠ some client) (w : Attended) :
    w.carriedOut client [a] = [] := by
  have hnone : a.flagChange? client = none := by
    refine Option.eq_none_iff_forall_ne_some.2 fun c hc => h ?_
    rw [Action.flagChange?_eq_some.1 hc]
    rfl
  cases hanswer : (w.act a).1 <;> simp [carriedOut, hanswer, hnone]

/-- What the view lacks after a run is what the client has changed itself. -/
theorem lacks_actAll (hw : w.InStep issued True) {actions : List Action}
    (hundisturbed : w.Undisturbed client actions) (hs : w.selections.get? client = some s)
    (h : s.Lacks changes w.mailbox.mailbox) :
    (w.actAll actions).selections.get? client = some s ∧
      s.Lacks (changes ++ w.carriedOut client actions) (w.actAll actions).mailbox.mailbox := by
  induction actions generalizing w changes with
  | nil => simpa [carriedOut] using ⟨hs, h⟩
  | cons a rest ih =>
      obtain ⟨hone, hrest⟩ := hundisturbed
      have hstep : (w.act a).2.selections.get? client = some s ∧
          s.Lacks (changes ++ w.carriedOut client [a]) (w.act a).2.mailbox.mailbox := by
        rcases hone with ⟨c, hc⟩ | ⟨hother, halike⟩
        · obtain rfl := Action.flagChange?_eq_some.1 hc
          exact lacks_flagChange hw hs h c
        · rw [get?_act_of_other hother, carriedOut_other hother, List.append_nil]
          exact ⟨hs, h.alike halike⟩
      obtain ⟨hselected, hlacks⟩ := ih (inStep_act hw a) hrest hstep.1 hstep.2
      rw [carriedOut_cons, ← List.append_assoc, actAll_cons]
      exact ⟨hselected, hlacks⟩

/-- Let a client look at the mailbox by a poll or by selecting it, and then change flags, while
nobody else changes the mailbox. Its next poll reports just those messages in view that its own
changes have left with other flags than the view has, each with the flags that they have now. So it
reports nothing if and only if the changes cancel each other. -/
theorem own_changes_reported {m : SharedMailbox} (hinitial : m.mailbox.Initial)
    (hdistinct : m.mailbox.store.Distinct) (hstamped : m.mailbox.Stamped)
    (before : List Action) {client : String} {look : Action} (hlook : look.Looks client)
    {answer : Response} {w : Attended}
    (hanswer : ((alone m).actAll before).act look = (.ok answer, w))
    {s : Selection} (hs : w.selections.get? client = some s)
    {since : List Action} (hundisturbed : w.Undisturbed client since)
    (hcounting : (w.actAll since).mailbox.mailbox.modseq.val < maxLong)
    {report : PollReport} {w' : Attended}
    (hpoll : (w.actAll since).act (.request client .poll) = (.ok (.missed report), w')) :
    report.flagged = s.snapshot.numbered.filterMap (s.owed? (w.carriedOut client since)) ∧
      (report.flagged = [] ↔ ∀ t ∈ s.snapshot.numbered,
        s.flagsAfter (w.carriedOut client since) t = t.2.flags) := by
  have hsound : m.mailbox.Sound False True :=
    ⟨hdistinct, hinitial.figured, False.elim, fun _ => hstamped⟩
  have hbefore := inStep_actAll (inStep_alone hsound) before
  have hdated := dated_actAll (inStep_alone hsound) (dated_alone m) before
  have hw : w.InStep False True := by
    have hlooked := inStep_act hbefore look
    rwa [hanswer] at hlooked
  have hwdated : w.Dated := by
    have hlooked := dated_act hbefore hdated look
    rwa [hanswer] at hlooked
  have hcounting' : w.mailbox.mailbox.modseq.val < maxLong :=
    Nat.lt_of_le_of_lt (discloses_leads hw.sound.distinct (leads_actAll w since)).1.modseq hcounting
  have hlacks := lacks_looked hbefore hdated hlook hanswer hcounting' hs
  obtain ⟨hselected, hlacks⟩ := lacks_actAll hw hundisturbed hs hlacks
  have hsince := inStep_actAll hw since
  have hflagged : report.flagged =
      s.snapshot.numbered.filterMap (s.owed? (w.carriedOut client since)) := by
    obtain ⟨hanswered, _⟩ := poll_of_act hselected hpoll
    exact hlacks.poll_flagged hsince.sound (hsince.follows client s hselected).ascending
      (dated_actAll hw hwdated since client s hselected) hcounting hanswered
  refine ⟨hflagged, ?_⟩
  rw [hflagged, List.filterMap_eq_nil_iff]
  simp [Selection.owed?]

/-- A client of two messages reads both, another client selects the mailbox, and the first one takes
its mark off the second message and asks for one that there is not. -/
def wavering : List Action :=
  [.request "c" (.store 1 (.seqnums [.range (.exact .one) .star]) (.ofList [.seen]) .add),
    .select "d" false,
    .request "c" (.store 2 (.seqnums [.single .star]) (.ofList [.seen]) .remove),
    .request "c" (.store 3 (.seqnums [.single (.exact .greatest)]) (.ofList [.flagged]) .add)]

/-- The first message is reported as the client has left it, and the second one is not. -/
theorem own_changes_reported_of_wavering : ∃ answer w s report w',
    unused.mailbox.Initial ∧ unused.mailbox.store.Distinct ∧ unused.mailbox.Stamped ∧
      (Action.select "c" false).Looks "c" ∧
      ((alone unused).actAll [.change (arrival "a"), .change (arrival "b")]).act
        (.select "c" false) = (.ok answer, w) ∧
      w.selections.get? "c" = some s ∧ w.Undisturbed "c" wavering ∧
      (w.actAll wavering).mailbox.mailbox.modseq.val < maxLong ∧
      (w.actAll wavering).act (.request "c" .poll) = (.ok (.missed report), w') ∧
      report.flagged.map (fun v => (v.uid, v.flags)) = [(.least, .ofList [.seen, .recent])] ∧
      report.flagged = s.snapshot.numbered.filterMap (s.owed? (w.carriedOut "c" wavering)) := by
  have hrun : ∃ answer w s report w',
      ((alone unused).actAll [.change (arrival "a"), .change (arrival "b")]).act
        (.select "c" false) = (.ok answer, w) ∧
      w.selections.get? "c" = some s ∧ w.Undisturbed "c" wavering ∧
      (w.actAll wavering).mailbox.mailbox.modseq.val < maxLong ∧
      (w.actAll wavering).act (.request "c" .poll) = (.ok (.missed report), w') ∧
      report.flagged.map (fun v => (v.uid, v.flags)) = [(.least, .ofList [.seen, .recent])] :=
    ⟨_, _, _, _, _, rfl, rfl, ⟨.inl ⟨_, rfl⟩, .inr ⟨by decide, ⟨rfl, rfl, rfl, rfl⟩⟩,
      .inl ⟨_, rfl⟩, .inl ⟨_, rfl⟩, trivial⟩, by decide, rfl, by decide⟩
  obtain ⟨answer, w, s, report, w', hselect, hs, hundisturbed, hcounting, hpoll, hshown⟩ := hrun
  have hstamped : unused.mailbox.Stamped := fun r hr => by cases hr
  have hlook : (Action.select "c" false).Looks "c" := .inr ⟨false, rfl⟩
  obtain ⟨hflagged, _⟩ := own_changes_reported (m := unused) (.create "INBOX" 0) Ascending.nil
    hstamped [.change (arrival "a"), .change (arrival "b")] hlook hselect hs hundisturbed hcounting
    hpoll
  exact ⟨answer, w, s, report, w', .create "INBOX" 0, Ascending.nil, hstamped, hlook, hselect, hs,
    hundisturbed, hcounting, hpoll, hshown, hflagged⟩

/-- A client that has just selected the mailbox reads the only message, and the next poll reports
this to it. -/
theorem own_change_reported_back : ∃ answer w s report w',
    ((alone unused).actAll [.change (arrival "a")]).act (.select "c" false) = (.ok answer, w) ∧
      w.selections.get? "c" = some s ∧
      w.Undisturbed "c" [.request "c" (.store 1 (.seqnums (.only .one)) (.ofList [.seen]) .add)] ∧
      (w.actAll [.request "c" (.store 1 (.seqnums (.only .one)) (.ofList [.seen]) .add)]).act
        (.request "c" .poll) = (.ok (.missed report), w') ∧
      report.flagged ≠ [] :=
  ⟨_, _, _, _, _, rfl, rfl, ⟨.inl ⟨_, rfl⟩, trivial⟩, rfl, by decide⟩

end Attended

end MailBridge

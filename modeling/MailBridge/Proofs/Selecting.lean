import MailBridge.Proofs.Growth
import MailBridge.Proofs.Mending

/-! # What a client is told when it selects a mailbox

Selecting removes the messages that wait to be expunged, takes figures and a frozen view, and takes
the marks of recent messages, all as one change. So the figures are those of the view, whatever was
counted before, and if the change fails the mailbox is as it was and the session is not registered
with it.
-/

namespace MailBridge

namespace Mailbox

/-- What a client is told of a mailbox, and the view it is given, when it selects the mailbox, which
is then left as another one. -/
structure ShownAs (isReadOnly : Bool) (m : Mailbox) (told : Summary) (view : Snapshot)
    (m' : Mailbox) : Prop where
  validity : told.validity = view.validity
  total : told.total = view.size
  recent : told.recent = (view.entries.filter fun e => Flag.recent ∈ e.flags).length
  /-- The entry at the position has not been read, and all before it have. -/
  firstUnseen : ∀ n, told.firstUnseen? = some n ↔
    (∃ e, view.get? n = some e ∧ Flag.seen ∉ e.flags) ∧
      ∀ k e, k.val < n.val → view.get? k = some e → Flag.seen ∈ e.flags
  uidNext : m.uids.next?.isSome = true → ∀ e ∈ view.entries, e.uid.val < told.uidNext.val
  /-- All messages are in view but those that waited to be expunged. -/
  entries : view.entries =
    (m.store.messages.filter fun r => r.uid ∉ m.pending).map SnapshotEntry.ofMessage
  /-- The same messages are left, under the same UIDs. -/
  left : m'.store.messages.map (·.uid) = view.entries.map (·.uid)
  uids : m'.uids = m.uids
  pending : m'.pending = ∅
  unmarked : isReadOnly = false → ∀ r ∈ m'.store.messages, Flag.recent ∉ r.flags

variable {m : Mailbox} {figures : Summary}

theorem get?_snapshot (m : Mailbox) (n : Seqnum) :
    m.snapshot.get? n = (m.store.at? n).map SnapshotEntry.ofMessage := List.getElem?_map ..

theorem recent_snapshot (h : figures.Describes m) : figures.recent =
    (m.snapshot.entries.filter fun e => Flag.recent ∈ e.flags).length := by
  rw [h.recent, snapshot, List.filter_map, List.length_map]
  rfl

theorem firstUnseen_snapshot (h : figures.Describes m) (n : Seqnum) :
    figures.firstUnseen? = some n ↔
      (∃ e, m.snapshot.get? n = some e ∧ Flag.seen ∉ e.flags) ∧
        ∀ k e, k.val < n.val → m.snapshot.get? k = some e → Flag.seen ∈ e.flags := by
  rw [h.firstUnseen]
  simp only [get?_snapshot, Option.map_eq_some_iff]
  constructor
  · rintro ⟨⟨r, hr, hunseen⟩, hbefore⟩
    refine ⟨⟨_, ⟨r, hr, rfl⟩, hunseen⟩, ?_⟩
    rintro k _ hk ⟨r', hr', rfl⟩
    exact hbefore k r' hk hr'
  · rintro ⟨⟨_, ⟨r, hr, rfl⟩, hunseen⟩, hbefore⟩
    exact ⟨⟨r, hr, hunseen⟩, fun k r' hk hr' => hbefore k _ hk ⟨r', hr', rfl⟩⟩

end Mailbox

namespace SharedMailbox

variable {m m' : SharedMailbox}

theorem shownAs_select {isReadOnly : Bool} {report : SelectReport} {selection : Selection}
    (hgrown : m.Grown) (hsound : m.mailbox.checkIntegrity = .ok ())
    (h : m.select isReadOnly = (.ok (report, selection), m')) :
    m.mailbox.ShownAs isReadOnly report.summary selection.snapshot m'.mailbox := by
  have ho := Mailbox.orderly_of_checkIntegrity hsound
  rcases select_cases isReadOnly m with
    ⟨e, _, _, _, herror⟩ | ⟨_, _, _, _, hok, hsummary, hsnapshot, _, hleft⟩
  · cases herror.symm.trans h
  cases hok.symm.trans h
  -- the figures and the view are taken between the flush and the clearing
  have hflushed := Mailbox.flushed_spec m.mailbox.startJournal
  obtain ⟨hstore, hpending⟩ := Mailbox.flushPending_spec m.mailbox.startJournal
  have hlooked : m.mailbox.startJournal.flushPending.2.Sound False False :=
    hgrown.sound.startJournal.editAll [.flushPending]
  have htakes := Mailbox.takes_look ho.distinct isReadOnly fun _ => true
  rw [show (if isReadOnly then [] else [.clearRecent fun _ => true]) = claiming isReadOnly from rfl,
    ← hleft] at htakes
  have hdescribes := Mailbox.describes_compute hlooked.distinct
  rw [← Mailbox.summary_of_figured hlooked.figured, ← hsummary] at hdescribes
  have hentries : m.mailbox.startJournal.flushPending.2.snapshot.entries =
      (m.mailbox.store.messages.filter fun r => r.uid ∉ m.mailbox.pending).map
        SnapshotEntry.ofMessage := by
    unfold Mailbox.snapshot
    rw [hstore]
    refine congrArg (List.map SnapshotEntry.ofMessage) (List.filter_congr fun r _ => ?_)
    exact (decide_not ..).symm
  rw [hsnapshot]
  refine ⟨hdescribes.validity, ?_, Mailbox.recent_snapshot hdescribes,
    Mailbox.firstUnseen_snapshot hdescribes, ?_, hentries, ?_, htakes.uids', ?_, ?_⟩
  · rw [hdescribes.total, Mailbox.snapshot, Snapshot.size, List.length_map]
  · intro hissues e he
    obtain ⟨next, hnext⟩ := Option.isSome_iff_exists.1 hissues
    obtain ⟨r, hr, rfl⟩ := List.mem_map.1 he
    have hbelow := ho.below r (hflushed.2.2 r hr)
    rw [UidSpace.bound_of_next? hnext] at hbelow
    have htold : report.summary.uidNext = next :=
      (hdescribes.uidNext next).2 (.inl (by rw [hflushed.1]; exact hnext))
    rw [htold]
    exact hbelow
  · rw [htakes.left, Mailbox.snapshot, List.map_map, List.map_map]
    refine List.map_congr_left fun r _ => ?_
    have hcarried : r.Carried False (r.unmarkedIf fun _ => !isReadOnly && true) :=
      r.carried_unmarkedIf _ id
    exact hcarried.uid
  · rw [hleft, Mailbox.kept_eq]
    cases isReadOnly with
    | true => exact hpending
    | false =>
        have hcleared := Mailbox.alike_clearRecent hlooked.distinct fun _ => true
        exact hcleared.pending.trans hpending
  · intro hwrites r' hr' hrecent
    rw [htakes.left] at hr'
    obtain ⟨r, _, rfl⟩ := List.mem_map.1 hr'
    have hunmarked := r.isRecent_unmarkedIf fun _ => !isReadOnly && true
    rw [hwrites] at hunmarked hrecent
    simp [Flags.isRecent] at hunmarked
    exact hunmarked hrecent

/-- A mailbox that could not be selected is exactly as it was. -/
theorem eq_of_select_error {isReadOnly : Bool} {e : MailboxError} (hgrown : m.Grown)
    (hsound : m.mailbox.checkIntegrity = .ok ()) (h : m.select isReadOnly = (.error e, m')) :
    m' = m := by
  have hd := (Mailbox.orderly_of_checkIntegrity hsound).distinct
  have hi := Mailbox.indexed_of_checkIntegrity hsound
  have hmade : ∀ e ∈ .flushPending :: claiming isReadOnly, e.takesIn = false := by
    cases isReadOnly <;> simp [claiming, Edit.takesIn]
  -- no message takes the name of another, so the journal puts everything back
  have hrestored : (m.mailbox.startJournal.editAll
      (.flushPending :: claiming isReadOnly)).rollback = m.mailbox := by
    have hkept :=
      (Mailbox.restoredBut_rollback hsound (.flushPending :: claiming isReadOnly)).eq_iff
      hi |>.2 (Mailbox.not_reassigns_of_takesIn hd hi hmade)
    rw [hkept, Mailbox.keepChanges, ← hgrown.journal?]
  have hfailed (e : MailboxError) (hmodify : (m.modify (lookOver isReadOnly)).1 = .error e) :
      (m.modify (lookOver isReadOnly)).2 = m := by
    have hback : (m.modify (lookOver isReadOnly)).2 = { m with
        mailbox := (m.mailbox.startJournal.editAll
          (.flushPending :: claiming isReadOnly)).rollback } := mutate_error rfl hmodify
    rw [hback, hrestored]
  rw [show lookOver isReadOnly = _ from funext (lookOver_eq isReadOnly)] at hfailed
  unfold select at h
  dsimp only at h
  generalize m.modify _ = modified at hfailed h
  obtain ⟨result, left⟩ := modified
  cases result with
  | ok => cases h
  | error cause =>
      cases h
      exact hfailed e rfl

end SharedMailbox

/-! ## Selecting a mailbox of an account -/

namespace Account

variable {a a' : Account} {s : Session} {now : Instant} {name other : String} {m m' : SharedMailbox}

/-- The mailbox that an account has under a name, whether it is open or would be opened now. -/
def lookUp (now : Instant) (name : String) (a : Account) : Except AccountError Mailbox :=
  (a.openMailbox now name).1.map (·.mailbox)

/-- What is under a name depends on nothing of the account but what is open under it and saved. -/
theorem lookUp_congr (hsettings : a'.settings = a.settings) (hcache : a'.cache? = a.cache?)
    (hmailbox : (a'.shared? name).map (·.mailbox) = (a.shared? name).map (·.mailbox)) :
    a'.lookUp now name = a.lookUp now name := by
  unfold lookUp openMailbox cached?
  rw [hsettings, hcache]
  split
  · cases hm : a.shared? name with
    | none =>
        rw [hm, Option.map_none, Option.map_eq_none_iff] at hmailbox
        rw [hmailbox]
        dsimp only
        split <;> rfl
    | some m =>
        rw [hm, Option.map_some] at hmailbox
        obtain ⟨m', hm', heq⟩ := Option.map_eq_some_iff.1 hmailbox
        rw [hm']
        exact congrArg Except.ok heq
  · rfl

theorem lookUp_put (hm : a.shared? name = some m) (hmailbox : m'.mailbox = m.mailbox)
    (hcache : m'.cache? = m.cache?) (other : String) :
    (a.put name m').lookUp now other = a.lookUp now other := by
  refine lookUp_congr rfl (hcache.trans (cache?_of_shared? hm)) ?_
  rw [shared?_put]
  split
  · next heq => rw [heq, hm, Option.map_some, Option.map_some, hmailbox]
  · cases a.shared? other <;> rfl

theorem lookUp_release (s : Session) (a : Account) (other : String) :
    (a.release s).lookUp now other = a.lookUp now other := by
  rcases a.release_cases s with heq | ⟨name, m, hm, heq⟩
  · rw [heq]
  · have hmailbox : m.release.mailbox = m.mailbox := rfl
    rw [heq]
    exact lookUp_put hm hmailbox rfl other

theorem shared?_of_openMailbox (h : a.openMailbox now name = (.ok m, a')) :
    a'.shared? name = some m ∧ m.cache? = a.cache? ∧ a'.cache? = a.cache? ∧
      a.settings.exposure.shows name = true ∧ a'.settings = a.settings := by
  unfold openMailbox at h
  split at h
  · next hshows =>
    split at h
    · next hm =>
      cases h
      exact ⟨hm, cache?_of_shared? hm, rfl, hshows, rfl⟩
    · split at h <;> cases h
      exact ⟨by rw [shared?_put, if_pos rfl], rfl, rfl, hshows, rfl⟩
  · cases h

theorem lookUp_eq_of_openMailbox (h : a.openMailbox now name = (.ok m, a')) :
    a.lookUp now name = .ok m.mailbox := by
  rw [lookUp, h]
  rfl

theorem lookUp_openMailbox (h : a.openMailbox now name = (.ok m, a')) (other : String) :
    a'.lookUp now other = a.lookUp now other := by
  obtain ⟨hm, _, hcache, hshows, hsettings⟩ := shared?_of_openMailbox h
  by_cases heq : other = name
  · rw [heq, lookUp_eq_of_openMailbox h, lookUp, openMailbox, hsettings, if_pos hshows, hm]
    rfl
  · refine lookUp_congr hsettings hcache ?_
    rcases openMailbox_ok h with ⟨_, rfl⟩ | ⟨_, rfl⟩
    · rfl
    · rw [shared?_put, if_neg heq]
      cases a.shared? other <;> rfl

theorem registered_openMailbox (h : a.openMailbox now name = (.ok m, a')) (other : String) :
    a'.registered other = a.registered other := by
  unfold openMailbox at h
  split at h
  · split at h
    · cases h
      rfl
    · next hnone =>
      split at h <;> cases h
      rw [registered_put]
      split
      · next heq =>
        rw [heq, registered, hnone]
        rfl
      · rfl
  · cases h

/-- A mailbox that has sound identities when it is opened has grown from one that had. -/
theorem grown_of_openMailbox (hgrown : a.Grown) (h : a.openMailbox now name = (.ok m, a'))
    (hsound : m.mailbox.checkIntegrity = .ok ()) : m.Grown := by
  have hd := (Mailbox.orderly_of_checkIntegrity hsound).distinct
  unfold openMailbox at h
  split at h
  · split at h
    · next hm =>
      cases h
      exact hgrown name m hm
    · split at h
      · cases h
      · next hcached =>
        cases h
        exact ⟨_, initial_of_cached now hcached, hd, .refl⟩
  · cases h

/-- A client that selects a mailbox with sound identities is told of it as the change leaves it. Or
else the session has nothing selected, is registered with no mailbox, and all mailboxes, open or
saved, are as they were. -/
theorem select_shows_or_leaves (hauth : s.checkAuthenticated = .ok ()) (hgrown : a.Grown)
    (hsound : ∀ b, a.lookUp now name = .ok b → b.checkIntegrity = .ok ()) (isReadOnly : Bool) :
    (∃ b report selection a' m', a.lookUp now name = .ok b ∧
      a.select now name isReadOnly s = (.ok report, .selected selection, a') ∧
      a'.shared? name = some m' ∧
      b.ShownAs isReadOnly report.summary selection.snapshot m'.mailbox) ∨
    ∃ e a', a.select now name isReadOnly s = (.error e, .authenticated, a') ∧
      a'.cache? = a.cache? ∧
      ∀ other, a'.lookUp now other = a.lookUp now other ∧
        a'.registered other = (a.release s).registered other := by
  have hreleased := hgrown.release s
  unfold select
  simp only [hauth]
  cases hopen : (a.release s).openMailbox now name with
  | mk result a₁ =>
      cases result with
      | error e =>
          rw [openMailbox_error hopen]
          refine .inr ⟨_, _, rfl, cache?_release s a, fun other => ⟨lookUp_release s a other, rfl⟩⟩
      | ok m =>
          have hfound : a.lookUp now name = .ok m.mailbox :=
            (lookUp_release s a name).symm.trans (lookUp_eq_of_openMailbox hopen)
          have hm := hsound m.mailbox hfound
          have hgrown₁ := grown_of_openMailbox hreleased hopen hm
          obtain ⟨hopened, hcache, _⟩ := shared?_of_openMailbox hopen
          dsimp only
          cases hselect : m.select isReadOnly with
          | mk selected m' =>
              cases selected with
              | ok told =>
                  obtain ⟨report, selection⟩ := told
                  refine .inl ⟨m.mailbox, report, selection, _, m', hfound, rfl, ?_, ?_⟩
                  · rw [shared?_put, if_pos rfl]
                  · exact SharedMailbox.shownAs_select hgrown₁ hm hselect
              | error e =>
                  rw [SharedMailbox.eq_of_select_error hgrown₁ hm hselect]
                  refine .inr ⟨_, _, rfl, ?_, fun other => ⟨?_, ?_⟩⟩
                  · exact hcache.trans (cache?_release s a)
                  · rw [lookUp_put hopened rfl rfl, lookUp_openMailbox hopen, lookUp_release]
                  · rw [registered_put]
                    split
                    · next heq =>
                      rw [← registered_openMailbox hopen, heq, registered, hopened]
                      rfl
                    · exact registered_openMailbox hopen other

/-- Two messages have come, and the remote account has removed the first. -/
def arrivals : Change :=
  ⟨[.receive { remoteId := "a" }, .receive { remoteId := "b" }, .markRemoved "a"], .ok ()⟩

/-- An account with an open mailbox, to which a cache may be given later. -/
def expecting (cache? : Option Cache) : Account :=
  (Bridge.unvisited.happenAll [.change "INBOX" arrivals, .recache cache?]).account

theorem grown_expecting {cache? : Option Cache} (h : ∀ c, cache? = some c → c.Keyed) :
    (expecting cache?).Grown := by
  refine Bridge.grown_happenAll ⟨rfl, rfl⟩ _ fun before hbefore c hc => ?_
  rcases List.prefix_cons_iff.1 hbefore with rfl | ⟨l, rfl, hl⟩
  · cases hc
  rcases List.prefix_cons_iff.1 hl with rfl | ⟨l', rfl, hl'⟩
  · cases hc
  obtain rfl := List.prefix_nil.1 hl'
  exact h c hc

/-- The client is told of the second message alone; if the cache refuses messages, the first waits
on. -/
theorem select_shows_or_leaves_expecting :
    (∀ b, (expecting none).lookUp 0 "INBOX" = .ok b → b.checkIntegrity = .ok ()) ∧
    (∃ report selection a' m',
      (expecting none).select 0 "INBOX" false .authenticated =
        (.ok report, .selected selection, a') ∧
      a'.shared? "INBOX" = some m' ∧ report.summary.total = 1 ∧ report.summary.recent = 1 ∧
      selection.snapshot.size = 1 ∧ m'.mailbox.pending = ∅ ∧
      ∀ r ∈ m'.mailbox.store.messages, Flag.recent ∉ r.flags) ∧
    ∃ e a', (expecting (some { refusesMessages := true })).select 0 "INBOX" false .authenticated =
        (.error e, .authenticated, a') ∧
      a'.lookUp 0 "INBOX" = (expecting (some { refusesMessages := true })).lookUp 0 "INBOX" := by
  have hsound (cache? : Option Cache) :
      ∀ b, (expecting cache?).lookUp 0 "INBOX" = .ok b → b.checkIntegrity = .ok () := by
    intro b hb
    cases hb
    rfl
  have hnone : ∀ c, (none : Option Cache) = some c → c.Keyed := fun _ hc => by cases hc
  have hkeyed : ∀ c, some ({ refusesMessages := true } : Cache) = some c → c.Keyed := by
    rintro _ ⟨⟩
    exact List.Pairwise.nil
  have hshown : ((expecting none).select 0 "INBOX" false .authenticated).1.isOk = true := rfl
  have hleft : ((expecting (some { refusesMessages := true })).select 0 "INBOX" false
      .authenticated).1.isOk = false := rfl
  refine ⟨hsound none, ?_, ?_⟩
  · rcases select_shows_or_leaves (s := .authenticated) rfl (grown_expecting hnone) (hsound none)
        false with
      ⟨b, report, selection, a', m', hb, hselect, hm', h⟩ | ⟨e, a', hselect, _⟩
    · cases hb
      have hsize : selection.snapshot.size = 1 := by
        rw [Snapshot.size, h.entries]
        decide +kernel
      have hrecent : report.summary.recent = 1 := by
        rw [h.recent, h.entries]
        decide +kernel
      exact ⟨report, selection, a', m', hselect, hm', h.total.trans hsize, hrecent, hsize,
        h.pending, h.unmarked rfl⟩
    · rw [hselect] at hshown
      cases hshown
  · rcases select_shows_or_leaves (s := .authenticated) rfl (grown_expecting hkeyed) (hsound _)
        false with
      ⟨b, report, selection, a', m', hb, hselect, _⟩ | ⟨e, a', hselect, _, hall⟩
    · rw [hselect] at hleft
      cases hleft
    · exact ⟨e, a', hselect, (hall "INBOX").1⟩

end Account

end MailBridge

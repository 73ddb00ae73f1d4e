import MailBridge.Proofs.Occupancy
import MailBridge.Proofs.Parallel
import MailBridge.Proofs.Voided

/-! # Sessions that only read

A session that has examined a mailbox may still be the first to look at it after the remote account
has removed messages, and then these go. Nothing else of a mailbox is changed by any command of such
a session, whether it succeeds or fails: no flags, the marks of recent messages among them, no UID
and no cursor. It remains so until the session selects a mailbox to write.
-/

namespace MailBridge

namespace MessageStore

variable {s : MessageStore} {r x : Message}

/-- Also where UIDs are repeated, nothing comes with a message that is put back. -/
theorem mem_of_mem_reinstate (h : x ∈ (s.reinstate r).messages) : x = r ∨ x ∈ s.messages := by
  unfold reinstate at h
  split at h
  · exact (List.mem_or_eq_of_mem_set h).symm
  · exact mem_insertSorted.1 h

theorem mem_reinstate_of_ne (hx : x ∈ s.messages) (hne : x.uid ≠ r.uid) :
    x ∈ (s.reinstate r).messages := by
  unfold reinstate
  split
  · next i hi =>
    obtain ⟨j, hj⟩ := List.mem_iff_getElem?.1 hx
    refine List.mem_iff_getElem?.2 ⟨j, ?_⟩
    show (s.messages.set i r)[j]? = some x
    rw [List.getElem?_set_ne ?_, hj]
    rintro rfl
    have huid := uid_of_position? hi
    rw [hj] at huid
    exact hne (Option.some.inj huid)
  · exact mem_insertSorted.2 (.inr hx)

end MessageStore

namespace Mailbox

/-- At most messages have gone that waited to be expunged. -/
structure Untouched (m m' : Mailbox) : Prop where
  uids : m'.uids = m.uids
  cursor : m'.cursor = m.cursor
  unchanged : ∀ r ∈ m'.store.messages, r ∈ m.store.messages
  stays : ∀ r ∈ m.store.messages, r.uid ∉ m.pending → r ∈ m'.store.messages
  pending : ∀ uid ∈ m'.pending, uid ∈ m.pending

namespace Untouched

variable {m m' m'' : Mailbox}

theorem of_eq (huids : m'.uids = m.uids) (hcursor : m'.cursor = m.cursor)
    (hmessages : m'.store.messages = m.store.messages) (hpending : m'.pending = m.pending) :
    m.Untouched m' where
  uids := huids
  cursor := hcursor
  unchanged _ hr := hmessages ▸ hr
  stays _ hr _ := hmessages ▸ hr
  pending _ huid := hpending ▸ huid

theorem refl (m : Mailbox) : m.Untouched m := .of_eq rfl rfl rfl rfl

theorem trans (h : m.Untouched m') (h' : m'.Untouched m'') : m.Untouched m'' where
  uids := h'.uids.trans h.uids
  cursor := h'.cursor.trans h.cursor
  unchanged r hr := h.unchanged r (h'.unchanged r hr)
  stays r hr hno := h'.stays r (h.stays r hr hno) fun hpending => hno (h.pending r.uid hpending)
  pending uid huid := h.pending uid (h'.pending uid huid)

end Untouched

theorem untouched_flushPending (m : Mailbox) : m.Untouched m.flushPending.2 := by
  obtain ⟨hstore, hpending⟩ := flushPending_spec m
  refine ⟨(flushed_spec m).1, (flushPending_frame m).2, (flushed_spec m).2.2, fun r hr hno => ?_,
    fun uid huid => ?_⟩
  · rw [hstore]
    exact MessageStore.mem_removeWhere.2 ⟨hr, decide_eq_false hno⟩
  · rw [hpending] at huid
    cases huid

theorem journal?_flushPending (m : Mailbox) : ∃ j,
    m.startJournal.flushPending.2.journal? = some j ∧ j.store? = none ∧
      ∀ entry ∈ j.messages.entries, ∃ r ∈ m.store.messages, r.uid ∈ m.pending ∧
        entry.2 = some r := by
  have hbegun : ∃ j, some m.begun = some j ∧ j.store? = none ∧ ∀ entry ∈ j.messages.entries,
      ∃ r ∈ m.store.messages, r.uid ∈ m.pending ∧ entry.2 = some r := ⟨_, rfl, rfl, nofun⟩
  unfold flushPending
  split
  · exact hbegun
  · unfold settleRemoval
    dsimp only
    split
    · exact hbegun
    · rw [settle_foldl]
      refine ⟨_, rfl, rfl, fun entry hentry => ?_⟩
      have hkept := OrderedMap.get?_eq_some.2 (show (entry.1, entry.2) ∈ _ from hentry)
      rw [get?_foldl_insertIfNew] at hkept
      obtain ⟨r, hfound, heq⟩ := Option.map_eq_some_iff.1 hkept
      obtain ⟨hr, hwaits⟩ := MessageStore.mem_removed.1 (List.mem_of_find?_eq_some hfound)
      exact ⟨r, hr, of_decide_eq_true hwaits, heq.symm⟩

theorem untouched_foldl_putBack {m : Mailbox} {entries : List (Uid × Option Message)}
    (hentries : ∀ entry ∈ entries, ∃ r ∈ m.store.messages, r.uid ∈ m.pending ∧ entry.2 = some r)
    {store : MessageStore} (hunchanged : ∀ r ∈ store.messages, r ∈ m.store.messages)
    (hstays : ∀ r ∈ m.store.messages, r.uid ∉ m.pending → r ∈ store.messages) :
    (∀ r ∈ (entries.foldl putBack store).messages, r ∈ m.store.messages) ∧
      ∀ r ∈ m.store.messages, r.uid ∉ m.pending →
        r ∈ (entries.foldl putBack store).messages := by
  induction entries generalizing store with
  | nil => exact ⟨hunchanged, hstays⟩
  | cons entry rest ih =>
      obtain ⟨⟨old, hold, hwaits, heq⟩, hrest⟩ := List.forall_mem_cons.1 hentries
      have hback : putBack store entry = store.reinstate old := by
        unfold putBack
        rw [heq]
      rw [List.foldl_cons, hback]
      refine ih hrest (fun r hr => ?_) fun r hr hno => ?_
      · rcases MessageStore.mem_of_mem_reinstate hr with rfl | hr
        · exact hold
        · exact hunchanged r hr
      · refine MessageStore.mem_reinstate_of_ne (hstays r hr hno) fun huid => hno ?_
        rwa [huid]

/-- A failed change that removes the messages that wait puts them back. -/
theorem untouched_rollback (m : Mailbox) :
    m.Untouched (m.startJournal.editAll [.flushPending]).rollback := by
  have hflushed := untouched_flushPending m.startJournal
  obtain ⟨name, store, heq⟩ := rollback_of_heads (heads_editAll m [.flushPending])
  obtain ⟨j, hj, hundropped, hentries⟩ := journal?_flushPending m
  have hstore : store = j.messages.entries.foldl putBack m.startJournal.flushPending.2.store := by
    have hrollback := congrArg Mailbox.store heq
    unfold rollback at hrollback
    rw [show (m.startJournal.editAll [.flushPending]).journal? = some j from hj] at hrollback
    refine hrollback.symm.trans ?_
    dsimp only
    rw [hundropped]
    rfl
  rw [heq]
  obtain ⟨hunchanged, hstays⟩ :=
    untouched_foldl_putBack hentries hflushed.unchanged hflushed.stays
  exact ⟨rfl, rfl, hstore ▸ hunchanged, hstore ▸ hstays, fun _ huid => huid⟩

end Mailbox

namespace SharedMailbox

theorem untouched_modify {α : Type} {f : Mailbox → α × Mailbox} {m : SharedMailbox}
    (hf : (f m.mailbox.startJournal).2 = m.mailbox.startJournal.flushPending.2) :
    m.mailbox.Untouched (m.modify f).2.mailbox := by
  cases hresult : (m.modify f).1 with
  | error e =>
      have hfailed : (m.modify f).2 = { m with
          mailbox := (m.mailbox.startJournal.editAll [.flushPending]).rollback } :=
        mutate_error hf hresult
      rw [hfailed]
      exact Mailbox.untouched_rollback m.mailbox
  | ok a =>
      obtain ⟨_, cache?, hkept⟩ := modify_ok hresult
      have hflushed := Mailbox.untouched_flushPending m.mailbox.startJournal
      rw [hkept, hf, Mailbox.kept_eq]
      exact ⟨hflushed.uids, hflushed.cursor, hflushed.unchanged, hflushed.stays, hflushed.pending⟩

end SharedMailbox

/-! ## Commands of a session that only reads -/

namespace Selection

variable {α : Type} {m m' : SharedMailbox} {s : Selection}

theorem untouched_whileValid {command : SharedMailbox → Selection → Outcome α}
    (h : m.mailbox.Untouched (command m s).mailbox.mailbox) :
    m.mailbox.Untouched (whileValid command m s).mailbox.mailbox := by
  unfold whileValid
  split
  · exact h
  · exact .refl _

theorem untouched_fetch (set : MessageSet) :
    m.mailbox.Untouched (fetch set m s).mailbox.mailbox := by
  refine untouched_whileValid ?_
  split <;> exact .refl _

theorem untouched_search (key : SearchKey) :
    m.mailbox.Untouched (search key m s).mailbox.mailbox :=
  untouched_whileValid (.refl _)

theorem untouched_store (h : s.isReadOnly = true) (now : Instant) (set : MessageSet)
    (delta : Flags) (mode : StoreMode) :
    m.mailbox.Untouched (store now set delta mode m s).mailbox.mailbox := by
  refine untouched_whileValid ?_
  dsimp only
  rw [if_pos h]
  exact .refl _

theorem untouched_expunge (h : s.isReadOnly = true) :
    m.mailbox.Untouched (expunge m s).mailbox.mailbox := by
  refine untouched_whileValid ?_
  dsimp only
  rw [if_pos h]
  exact .refl _

theorem untouched_poll (h : s.isReadOnly = true) :
    m.mailbox.Untouched (s.poll m).mailbox.mailbox := by
  have hlook : m.mailbox.Untouched (if s.pollChanges m.mailbox then
      m.modify fun b => (b.flushPending.2.changesSince s.snapshot,
        if s.isReadOnly then b.flushPending.2
        else (b.flushPending.2.clearRecent s.snapshot.isNew).2)
      else (.ok (m.mailbox.changesSince s.snapshot), m)).2.mailbox := by
    split
    · exact SharedMailbox.untouched_modify rfl
    · exact .refl _
  unfold poll tell
  split
  next result m' heq =>
  dsimp only at heq
  rw [heq] at hlook
  split
  · exact hlook
  · split <;> exact hlook

theorem untouched_close (h : s.isReadOnly = true) :
    m.mailbox.Untouched (close m s).mailbox.mailbox := by
  unfold close
  rw [if_pos h]
  exact .refl _

end Selection

theorem SharedMailbox.untouched_select (m : SharedMailbox) :
    m.mailbox.Untouched (m.select true).2.mailbox := by
  have hmodify : m.mailbox.Untouched (m.modify fun b =>
      ((b.flushPending.2.summary, b.flushPending.2.snapshot), b.flushPending.2)).2.mailbox :=
    untouched_modify rfl
  unfold select
  simp only [if_true]
  generalize m.modify _ = modified at hmodify ⊢
  obtain ⟨result, m'⟩ := modified
  cases result <;> exact hmodify

/-! ## What a session that only reads leaves of an account -/

/-- The session has nothing selected, or something to read. -/
def Session.Reads (s : Session) : Prop :=
  ∀ selection, s.selection? = some selection → selection.isReadOnly = true

def Command.writes : Command → Bool
  | select _ isReadOnly => !isReadOnly
  | _ => false

namespace Account

variable {a a' : Account} {s : Session} {name : String} {m m' : SharedMailbox} {now : Instant}

/-- Nothing has become of any mailbox but that those which waited to be expunged may have gone from
it, since it was open or else since it was opened. -/
structure Untouched (now : Instant) (a a' : Account) : Prop where
  stays : ∀ name, a.Across Mailbox.Untouched name a'
  opens : ∀ name m', a.shared? name = none → a'.shared? name = some m' →
    ∃ m, (a.openMailbox now name).1 = .ok m ∧ m.mailbox.Untouched m'.mailbox

namespace Untouched

theorem refl (a : Account) : a.Untouched now a where
  stays _ := .refl .refl a
  opens name m' hnone hm' := by
    rw [hnone] at hm'
    cases hm'

theorem put (hm : a.shared? name = some m) (h : m.mailbox.Untouched m'.mailbox) :
    a.Untouched now (a.put name m') where
  stays other := .put .refl fun m₀ hm₀ _ => by
    rw [hm] at hm₀
    cases hm₀
    exact h
  opens other m₀ hnone hm₀ := by
    have hne : other ≠ name := fun heq => by
      rw [heq, hm] at hnone
      cases hnone
    rw [shared?_put, if_neg hne, hnone] at hm₀
    cases hm₀

theorem openMailbox (hopen : a.openMailbox now name = (.ok m, a')) : a.Untouched now a' := by
  rcases openMailbox_ok hopen with ⟨_, rfl⟩ | ⟨hnone, rfl⟩
  · exact .refl _
  · refine ⟨fun other => .put .refl fun m₀ hm₀ _ => ?_, fun other m₀ hno hm₀ => ?_⟩
    · rw [hnone] at hm₀
      cases hm₀
    · rw [shared?_put] at hm₀
      split at hm₀
      · next heq =>
        cases hm₀
        exact ⟨m, by rw [heq, hopen], .refl _⟩
      · rw [hno] at hm₀
        cases hm₀

theorem openMailbox_put (hopen : a.openMailbox now name = (.ok m, a'))
    (h : m.mailbox.Untouched m'.mailbox) : a.Untouched now (a'.put name m') where
  stays other := .openMailbox_put .refl hopen fun _ _ => h
  opens other m₀ hnone hm₀ := by
    rw [shared?_put] at hm₀
    split at hm₀
    · next heq =>
      cases hm₀
      exact ⟨m, by rw [heq, hopen], h⟩
    · next hne =>
      obtain ⟨m₁, hm₁, rfl⟩ := Option.map_eq_some_iff.1 hm₀
      exact (openMailbox hopen).opens other m₁ hnone hm₁

end Untouched

theorem release_cases (s : Session) (a : Account) : a.release s = a ∨
    ∃ name m, a.shared? name = some m ∧ a.release s = a.put name m.release := by
  unfold Account.release
  split
  · exact .inl rfl
  · split
    · exact .inl rfl
    · next m hm => exact .inr ⟨_, m, hm, rfl⟩

theorem openMailbox_congr (hsettings : a'.settings = a.settings) (hcache : a'.cache? = a.cache?)
    (hshared : a'.shared? name = a.shared? name) :
    (a'.openMailbox now name).1 = (a.openMailbox now name).1 := by
  unfold openMailbox cached?
  rw [hsettings, hcache, hshared]
  split
  · split
    · rfl
    · split <;> rfl
  · rfl

theorem shared?_of_released (now : Instant) (hnone : a.shared? name = none) (s : Session) :
    (a.release s).shared? name = none ∧
      ((a.release s).openMailbox now name).1 = (a.openMailbox now name).1 := by
  rcases a.release_cases s with heq | ⟨other, m, hm, heq⟩
  · rw [heq]
    exact ⟨hnone, rfl⟩
  · have hne : name ≠ other := fun heq => by
      rw [heq, hm] at hnone
      cases hnone
    have hshared : (a.put other m.release).shared? name = none := by
      rw [shared?_put, if_neg hne, hnone]
      rfl
    have hcache : (a.put other m.release).cache? = a.cache? := by
      unfold shared? at hm
      obtain ⟨o, _, rfl⟩ := Option.map_eq_some_iff.1 hm
      rfl
    rw [heq]
    exact ⟨hshared, openMailbox_congr rfl hcache (hshared.trans hnone.symm)⟩

theorem untouched_release (s : Session) (a : Account) : a.Untouched now (a.release s) := by
  rcases a.release_cases s with heq | ⟨name, m, hm, heq⟩
  · rw [heq]
    exact .refl a
  · rw [heq]
    exact .put hm (.refl _)

theorem Untouched.of_release (h : (a.release s).Untouched now a') : a.Untouched now a' where
  stays name :=
    have hreleased : a.Untouched now (a.release s) := untouched_release s a
    (hreleased.stays name).trans .trans (h.stays name)
  opens name m' hnone hm' := by
    obtain ⟨hreleased, hopen⟩ := shared?_of_released now hnone s
    rw [← hopen]
    exact h.opens name m' hreleased hm'

theorem untouched_onSelection {α : Type} {command : SharedMailbox → Selection → Outcome α}
    (hcommand : ∀ (m : SharedMailbox) selection, s.selection? = some selection →
      m.mailbox.Untouched (command m selection).mailbox.mailbox) :
    a.Untouched now (a.onSelection command s).2.2 := by
  rcases onSelection_cases command s a with heq | ⟨selection, m, rfl, hm, heq⟩
  · rw [heq]
    exact .refl a
  · rw [heq]
    exact .put hm (hcommand m selection rfl)

theorem untouched_onMessages {α : Type}
    {command : MessageSet → SharedMailbox → Selection → Outcome α}
    (hcommand : ∀ set (m : SharedMailbox) selection, s.selection? = some selection →
      m.mailbox.Untouched (command set m selection).mailbox.mailbox) (set : SetRequest) :
    a.Untouched now (a.onMessages set command s).2.2 := by
  rcases onMessages_cases command set s a with heq | ⟨messages, heq⟩
  · rw [heq]
    exact .refl a
  · rw [heq]
    exact untouched_onSelection (hcommand messages)

theorem untouched_select (now : Instant) (name : String) (s : Session) (a : Account) :
    a.Untouched now (a.select now name true s).2.2 := by
  unfold Account.select
  split
  · exact .refl a
  · refine .of_release (s := s) ?_
    split
    · next heq =>
      rw [openMailbox_error heq]
      exact .refl _
    · next m a' hopen =>
      have hselect := m.untouched_select
      split <;> next heq =>
        rw [heq] at hselect
        exact .openMailbox_put hopen hselect

theorem untouched_status (now : Instant) (name : String) (s : Session) (a : Account) :
    a.Untouched now (a.status now name s).2 := by
  unfold Account.status
  split
  · exact .refl a
  · split
    · next heq =>
      rw [openMailbox_error heq]
      exact .refl a
    · next hopen => exact .openMailbox hopen

theorem untouched_poll (h : s.Reads) : a.Untouched now (a.poll s).2.2 := by
  unfold Account.poll
  split
  · exact .refl a
  · exact untouched_onSelection fun _ selection hs => Selection.untouched_poll (h selection hs)

/-- No command of a session that only reads touches a mailbox, unless it selects one to write. -/
theorem untouched_serve {command : Command} (h : s.Reads) (hreads : command.writes = false)
    (now : Instant) : a.Untouched now (a.serve now command s).2.2 := by
  cases command with
  | authenticate =>
      unfold Account.serve
      dsimp only
      split <;> exact .refl a
  | select name isReadOnly =>
      cases isReadOnly with
      | true => exact untouched_select now name s a
      | false => cases hreads
  | status name => exact untouched_status now name s a
  | fetch set => exact untouched_onMessages (fun set _ _ _ => Selection.untouched_fetch set) set
  | store set delta mode =>
      exact untouched_onMessages (fun set _ selection hs =>
        Selection.untouched_store (h selection hs) now set delta mode) set
  | search key => exact untouched_onSelection fun _ _ _ => Selection.untouched_search key
  | expunge =>
      exact untouched_onSelection fun _ selection hs => Selection.untouched_expunge (h selection hs)
  | poll => exact untouched_poll h
  | close =>
      exact untouched_onSelection fun _ selection hs => Selection.untouched_close (h selection hs)
  | unselect => exact untouched_onSelection fun _ _ _ => .refl _
  | logout => exact untouched_release s a

/-! ## Sessions that go on reading -/

theorem reads_onSelection {α : Type} {command : SharedMailbox → Selection → Outcome α}
    (hcommand : Selection.KeepsRegister command) (h : s.Reads) :
    (a.onSelection command s).2.1.Reads := by
  rcases onSelection_cases command s a with heq | ⟨selection, m, rfl, _, heq⟩
  · rw [heq]
    exact h
  · rw [heq]
    intro s' hs
    cases hends : (command m selection).selection? with
    | none =>
        rw [hends] at hs
        cases hs
    | some s'' =>
        rw [hends] at hs
        cases hs
        rw [((hcommand.registers m selection).selection _ hends).2]
        exact h selection rfl

theorem reads_onMessages {α : Type}
    {command : MessageSet → SharedMailbox → Selection → Outcome α}
    (hcommand : ∀ set, Selection.KeepsRegister (command set)) (h : s.Reads) (set : SetRequest) :
    (a.onMessages set command s).2.1.Reads := by
  rcases onMessages_cases command set s a with heq | ⟨messages, heq⟩
  · rw [heq]
    exact h
  · rw [heq]
    exact reads_onSelection (hcommand messages) h

theorem reads_select (now : Instant) (name : String) (s : Session) (a : Account) :
    (a.select now name true s).2.1.Reads := by
  unfold Account.select
  split
  · next hnot =>
    cases s with
    | selected => cases hnot
    | _ => nofun
  · split
    · nofun
    · next m a' _ =>
      rcases m.select_registers true with
        ⟨e, m', hselect, _⟩ | ⟨_, selection, m', hselect, _, _, _, hreadOnly⟩
      · simp only [hselect]
        nofun
      · simp only [hselect]
        intro s' hs
        cases hs
        exact hreadOnly

theorem reads_serve {command : Command} (h : s.Reads) (hreads : command.writes = false)
    (now : Instant) : (a.serve now command s).2.1.Reads := by
  cases command with
  | authenticate =>
      unfold Account.serve
      cases s with
      | unauthenticated => nofun
      | _ => exact h
  | select name isReadOnly =>
      cases isReadOnly with
      | true => exact reads_select now name s a
      | false => cases hreads
  | status name => exact h
  | fetch set => exact reads_onMessages Selection.keepsRegister_fetch h set
  | store set delta mode =>
      exact reads_onMessages (fun set => Selection.keepsRegister_store now set delta mode) h set
  | search key => exact reads_onSelection (Selection.keepsRegister_search key) h
  | expunge => exact reads_onSelection Selection.keepsRegister_expunge h
  | poll =>
      unfold Account.serve Account.poll
      dsimp only [respond]
      split
      · exact h
      · exact reads_onSelection Selection.keepsRegister_poll h
  | close => exact reads_onSelection Selection.keepsRegister_close h
  | unselect => exact reads_onSelection Selection.keepsRegister_unselect h
  | logout => nofun

end Account

/-- Whether a client selects a mailbox to write. -/
def Happening.writes (client : String) : Happening → Bool
  | serve other command => decide (other = client) && command.writes
  | _ => false

namespace Bridge

variable {b : Bridge} {client : String}

theorem sessions_withMailbox {α : Type} (name : String) (f : SharedMailbox → α × SharedMailbox)
    (b : Bridge) : (b.withMailbox name f).2.sessions = b.sessions := by
  unfold withMailbox
  split
  · rfl
  · split <;> rfl

theorem session_congr {b' : Bridge} (h : b'.sessions = b.sessions) :
    b'.session client = b.session client := by rw [session, h, session]

theorem session_happen {happening : Happening}
    (hother : ∀ command, happening ≠ .serve client command) :
    (b.happen happening).session client = b.session client ∨
      ((b.happen happening).session client).selection? = none := by
  cases happening with
  | serve other command =>
      refine .inl ((session_serve other client command b).trans (if_neg fun heq => ?_))
      exact hother command (by rw [heq])
  | connect other authenticated =>
      unfold happen connect disconnect session
      dsimp only
      rw [OrderedMap.get?_insert, OrderedMap.get?_erase]
      split
      · cases authenticated <;> exact .inr rfl
      · exact .inl rfl
  | disconnect other =>
      unfold happen disconnect session
      dsimp only
      rw [OrderedMap.get?_erase]
      split
      · exact .inr rfl
      · exact .inl rfl
  | synchronize name round =>
      refine .inl (session_congr ?_)
      unfold happen synchronize
      dsimp only
      split <;> exact sessions_withMailbox ..
  | script name f =>
      refine .inl (session_congr ?_)
      have hsessions := sessions_withMailbox name (fun m => ((), m)) b
      unfold happen script
      dsimp only
      split <;> next heq =>
        rw [heq] at hsessions
        exact hsessions
  | transact name ops =>
      refine .inl (session_congr ?_)
      unfold happen transact
      dsimp only
      split <;> exact sessions_withMailbox ..
  | settle | change => exact .inl (session_congr (sessions_withMailbox ..))
  | restart => exact .inr rfl
  | _ => exact .inl rfl

theorem reads_happen {happening : Happening} (h : (b.session client).Reads)
    (hnever : happening.writes client = false) : ((b.happen happening).session client).Reads := by
  by_cases hown : ∃ command, happening = .serve client command
  · obtain ⟨command, rfl⟩ := hown
    have hreads : command.writes = false := by simpa [Happening.writes] using hnever
    unfold happen
    rw [session_serve, if_pos rfl]
    exact Account.reads_serve h hreads b.clock
  · rcases session_happen (b := b) fun command heq => hown ⟨command, heq⟩ with hsame | hnone
    · rwa [hsame]
    · intro selection hselection
      rw [hnone] at hselection
      cases hselection

theorem reads_happenAll {happenings : List Happening} (h : (b.session client).Reads)
    (hnever : ∀ happening ∈ happenings, happening.writes client = false) :
    ((b.happenAll happenings).session client).Reads := by
  induction happenings generalizing b with
  | nil => exact h
  | cons happening rest ih =>
      obtain ⟨hfirst, hrest⟩ := List.forall_mem_cons.1 hnever
      rw [happenAll_cons]
      exact ih (reads_happen h hfirst) hrest

/-- From when a client examines a mailbox until it selects one to write, none of its commands
touches any mailbox, whatever happens in between. -/
theorem examining_leaves_mailboxes (b : Bridge) {client mailbox : String}
    {rest before after : List Happening} {command : Command}
    (hnever : ∀ happening ∈ rest, happening.writes client = false)
    (hrun : .serve client (.select mailbox true) :: rest =
      before ++ .serve client command :: after) :
    (b.happenAll before).account.Untouched (b.happenAll before).clock
      (b.happenAll (before ++ [.serve client command])).account := by
  rw [happenAll_append]
  cases before with
  | nil =>
      cases hrun
      exact Account.untouched_select b.clock mailbox (b.session client) b.account
  | cons first before =>
      obtain ⟨rfl, rfl⟩ := List.cons.inj hrun
      have hexamined :
          ((b.happen (.serve client (.select mailbox true))).session client).Reads := by
        unfold happen
        rw [session_serve, if_pos rfl]
        exact Account.reads_select b.clock mailbox (b.session client) b.account
      have hreads := reads_happenAll hexamined fun happening hmem =>
        hnever happening (List.mem_append_left _ hmem)
      refine Account.untouched_serve hreads ?_ _
      have hcommand := hnever (.serve client command) (by simp)
      simpa [Happening.writes] using hcommand

/-- A client has come to a bridge with a mailbox with a message. -/
def awaiting : Bridge :=
  unvisited.happenAll
    [.settle "INBOX" (.batch none [.create { remoteId := "a" }] none), .connect "bob" true]

/-- One message goes while another comes. -/
def relief : Happening :=
  .settle "INBOX" (.batch none [.create { remoteId := "b" }, .remove "a"] none)

/-- The names of the messages of a mailbox, and whether they are recent. -/
def arrivals (name : String) (b : Bridge) : Option (List (RemoteId × Bool)) :=
  (b.account.shared? name).map fun m =>
    m.mailbox.store.messages.map fun r => (r.remoteId, Flags.isRecent r.flags)

theorem examining_leaves_mailboxes_relieved :
    (∀ happening ∈ [relief, .serve "bob" .poll], happening.writes "bob" = false) ∧
    ∃ b b' : Bridge, b = awaiting.happenAll [.serve "bob" (.select "INBOX" true), relief] ∧
      b' = b.happen (.serve "bob" .poll) ∧ b.account.Untouched b.clock b'.account ∧
      b.arrivals "INBOX" = some [("a", true), ("b", true)] ∧
      b'.arrivals "INBOX" = some [("b", true)] := by
  have hnever : ∀ happening ∈ [relief, .serve "bob" .poll], happening.writes "bob" = false := by
    simp [relief, Happening.writes, Command.writes]
  have huntouched := examining_leaves_mailboxes awaiting hnever
    (show [.serve "bob" (.select "INBOX" true), relief, .serve "bob" .poll] =
      [.serve "bob" (.select "INBOX" true), relief] ++ [.serve "bob" .poll] from rfl)
  exact ⟨hnever, _, _, rfl, rfl, huntouched, rfl, rfl⟩

end Bridge

end MailBridge

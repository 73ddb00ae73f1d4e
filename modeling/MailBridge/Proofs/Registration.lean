import MailBridge.Bridge
import MailBridge.Proofs.Meanwhile
import MailBridge.Proofs.Sessions
import MailBridge.Proofs.Tables

/-! # Sessions that are registered with a mailbox

A mailbox knows how many sessions have it selected. A session is registered when it has selected the
mailbox, and no more when its selection ends, however it ends: because it closes the mailbox,
selects another one or fails to, finds its UIDs void, logs out or is cut off. So of all that an
account does for one session, the number stays the number of the other sessions and the session
itself.
-/

namespace MailBridge

open Relation

namespace Mailbox

variable {m m' : Mailbox}

theorem Upkeep.name (s : Upkeep m m') : m'.name = m.name := by
  cases s with
  | note uid => simp
  | mark | forget | raise => rfl
  | commit =>
      unfold Mailbox.commit
      split <;> rfl
  | touch => simp
  | change => simp [Mailbox.change, advance]
  | remove =>
      simp only [advance]
      rw [noteRemoved_eq]

theorem Admission.name (s : Admission m m') : m'.name = m.name := by
  cases s <;> simp [markUnsaved, advance]

theorem name_editAll (edits : List Edit) (m : Mailbox) : (m.editAll edits).name = m.name :=
  editAll_preserves (P := fun m' => m'.name = m.name) (fun h s => s.name.trans h)
    (fun h s => s.name.trans h) (fun now h => by
      unfold Mailbox.invalidate
      dsimp only [advance]
      rw [noteStore_eq]
      exact h) edits rfl

theorem name_rollback (m : Mailbox) : m.rollback.name = m.name := by
  unfold rollback
  split <;> rfl

end Mailbox

namespace SharedMailbox

variable {m m' : SharedMailbox}

theorem name_leads (h : Leads m m') : m'.mailbox.name = m.mailbox.name := by
  induction h with
  | refl => rfl
  | @tail s t _ hstep ih =>
      refine Eq.trans ?_ ih
      cases hstep with
      | change c =>
          rcases perform_cases s c with ⟨edits, heq⟩ | ⟨cache?, heq⟩
          · rw [heq]
            exact (Mailbox.name_rollback _).trans (Mailbox.name_editAll edits _)
          · rw [heq]
            exact Mailbox.name_editAll _ s.mailbox.startJournal
      | aside => rfl

theorem select_registers (isReadOnly : Bool) (m : SharedMailbox) :
    (∃ e m', m.select isReadOnly = (.error e, m') ∧ Leads m m' ∧ m'.sessions = m.sessions) ∨
      ∃ report selection m', m.select isReadOnly = (.ok (report, selection), m') ∧ Leads m m' ∧
        m'.sessions = m.sessions + 1 ∧ selection.mailbox = m.mailbox.name ∧
        selection.isReadOnly = isReadOnly := by
  have hleads : Leads m (m.select isReadOnly).2 := by
    rcases select_cases isReadOnly m with ⟨e, m', h, _, heq⟩ | ⟨_, _, m', h, heq, _⟩
    · rw [heq]
      exact h
    · rw [heq]
      exact h
  have hsessions (f : Mailbox → (Summary × Snapshot) × Mailbox) :
      (m.modify f).2.sessions = m.sessions := sessions_conclude ..
  unfold select at hleads ⊢
  dsimp only at hleads ⊢
  specialize hsessions fun b => ((b.flushPending.2.summary, b.flushPending.2.snapshot),
    if isReadOnly then b.flushPending.2 else (b.flushPending.2.clearRecent fun _ => true).2)
  generalize m.modify _ = modified at hleads hsessions ⊢
  obtain ⟨result, m'⟩ := modified
  cases result with
  | error e => exact .inl ⟨e, m', rfl, hleads, hsessions⟩
  | ok seen =>
      have hname : m'.enter.mailbox.name = m.mailbox.name := name_leads hleads
      exact .inr ⟨_, _, m'.enter, rfl, hleads, congrArg (· + 1) hsessions, hname, rfl⟩

end SharedMailbox

/-! ## The outcome of a command -/

/-- The session is registered with the mailbox as long as it has it selected, and keeps selecting
the same mailbox in the same way. -/
structure Outcome.Registers {α : Type} (m : SharedMailbox) (s : Selection) (o : Outcome α) :
    Prop where
  sessions : o.mailbox.sessions = if o.selection?.isSome then m.sessions else m.sessions - 1
  selection : ∀ s', o.selection? = some s' →
    s'.mailbox = s.mailbox ∧ s'.isReadOnly = s.isReadOnly

namespace Selection

variable {α : Type} {m m' : SharedMailbox} {s : Selection}

theorem registers_view (hsessions : m'.sessions = m.sessions) (snapshot : Snapshot)
    (answer : Except SessionError α) : ({ s with snapshot }.stay answer m').Registers m s where
  sessions := hsessions
  selection _ hs := by
    cases hs
    exact ⟨rfl, rfl⟩

theorem registers_stay (hsessions : m'.sessions = m.sessions) (answer : Except SessionError α) :
    (s.stay answer m').Registers m s := registers_view hsessions s.snapshot answer

theorem registers_leave (hsessions : m'.sessions = m.sessions) (answer : Except SessionError α) :
    (leave answer m').Registers m s where
  sessions := congrArg (· - 1) hsessions
  selection _ hs := by cases hs

theorem registers_whileValid {command : SharedMailbox → Selection → Outcome α}
    (h : (command m s).Registers m s) : (whileValid command m s).Registers m s := by
  unfold whileValid
  split
  · exact h
  · exact registers_leave rfl _

theorem registers_fetch (set : MessageSet) : (fetch set m s).Registers m s := by
  refine registers_whileValid ?_
  split <;> exact registers_stay rfl _

theorem registers_search (key : SearchKey) : (search key m s).Registers m s :=
  registers_whileValid (registers_stay rfl _)

theorem registers_store (now : Instant) (set : MessageSet) (delta : Flags) (mode : StoreMode) :
    (store now set delta mode m s).Registers m s := by
  refine registers_whileValid ?_
  dsimp only
  split
  · exact registers_stay rfl _
  · split
    · exact registers_stay rfl _
    · exact registers_stay rfl _
    · split <;> exact registers_stay (SharedMailbox.sessions_conclude ..) _

theorem sessions_expunge (m : SharedMailbox) : m.expunge.2.sessions = m.sessions :=
  SharedMailbox.sessions_conclude ..

theorem registers_expunge : (expunge m s).Registers m s := by
  have hsessions := sessions_expunge m
  refine registers_whileValid ?_
  dsimp only
  split
  · exact registers_stay rfl _
  · split
    · next heq =>
      rw [heq] at hsessions
      exact registers_stay hsessions _
    · next removed m' heq =>
      rw [heq] at hsessions
      exact registers_view hsessions _ _

theorem registers_poll : (s.poll m).Registers m s := by
  unfold poll tell
  split
  next result m' heq =>
  have hsessions : m'.sessions = m.sessions := by
    split at heq
    · exact (congrArg (·.2.sessions) heq).symm.trans (SharedMailbox.sessions_conclude ..)
    · cases heq
      rfl
  split
  · exact registers_stay hsessions _
  · split
    · exact registers_view hsessions _ _
    · exact registers_leave hsessions _

theorem registers_close : (close m s).Registers m s := by
  have hsessions := sessions_expunge m
  unfold close
  split
  · exact registers_leave rfl _
  · split <;> next heq =>
      rw [heq] at hsessions
      first | exact registers_stay hsessions _ | exact registers_leave hsessions _

end Selection

/-- A command that registers its session rightly and changes the mailbox by changes. -/
structure Selection.KeepsRegister {α : Type} (command : SharedMailbox → Selection → Outcome α) :
    Prop where
  registers : ∀ m s, (command m s).Registers m s
  leads : ∀ m s, SharedMailbox.Leads m (command m s).mailbox

namespace Selection

theorem keepsRegister_of_attends {α : Type} {command : SharedMailbox → Selection → Outcome α}
    (kind : Edit → Bool) (hregisters : ∀ m s, (command m s).Registers m s)
    (hattends : ∀ m s, (command m s).Attends kind False False m s) : KeepsRegister command :=
  ⟨hregisters, fun m s => (hattends m s).leads.leads⟩

theorem keepsRegister_fetch (set : MessageSet) : KeepsRegister (fetch set) :=
  keepsRegister_of_attends (fun _ => true) (fun _ _ => registers_fetch set)
    fun _ _ => attends_fetch set

theorem keepsRegister_search (key : SearchKey) : KeepsRegister (search key) :=
  keepsRegister_of_attends (fun _ => true) (fun _ _ => registers_search key)
    fun _ _ => attends_search key

theorem keepsRegister_store (now : Instant) (set : MessageSet) (delta : Flags)
    (mode : StoreMode) : KeepsRegister (store now set delta mode) :=
  keepsRegister_of_attends _ (fun _ _ => registers_store now set delta mode)
    fun _ _ => attends_store now set delta mode

theorem keepsRegister_expunge : KeepsRegister expunge :=
  keepsRegister_of_attends _ (fun _ _ => registers_expunge) fun _ _ => attends_expunge

theorem keepsRegister_poll : KeepsRegister poll :=
  keepsRegister_of_attends _ (fun _ _ => registers_poll) fun _ _ => attends_tell

theorem keepsRegister_close : KeepsRegister close :=
  keepsRegister_of_attends _ (fun _ _ => registers_close) fun _ _ => attends_close

theorem keepsRegister_unselect : KeepsRegister unselect :=
  keepsRegister_of_attends (fun _ => true) (fun _ _ => registers_leave rfl _)
    fun _ _ => attends_leave .refl _

end Selection

/-! ## Sessions of an account -/

namespace Session

def occupies (name : String) (s : Session) : Bool :=
  s.selection?.any fun selection => decide (selection.mailbox = name)

theorem occupies_of_none {s : Session} (h : s.selection? = none) (name : String) :
    s.occupies name = false := by rw [occupies, h, Option.any_none]

theorem occupies_selected (selection : Selection) (name : String) :
    (selected selection).occupies name = decide (selection.mailbox = name) := rfl

end Session

namespace Account

variable {a : Account} {name other : String} {m : SharedMailbox}

/-- The number of sessions that are registered with a mailbox, if it is open. -/
def registered (name : String) (a : Account) : Nat := (a.shared? name).elim 0 (·.sessions)

theorem shared?_put (name other : String) (m : SharedMailbox) (a : Account) :
    (a.put name m).shared? other =
      if other = name then some m else (a.shared? other).map ({ · with cache? := m.cache? }) := by
  unfold shared? put
  dsimp only
  rw [OrderedMap.get?_insert]
  split
  · rfl
  · rw [Option.map_map]
    rfl

theorem registered_put (name other : String) (m : SharedMailbox) (a : Account) :
    (a.put name m).registered other = if other = name then m.sessions else a.registered other := by
  unfold registered
  rw [shared?_put]
  split
  · rfl
  · cases a.shared? other <;> rfl

/-- With each mailbox, as many sessions are registered as have it selected: the given one, if it
has, and others. And mailboxes are open under their own names. -/
structure Occupied (others : String → Nat) (s : Session) (a : Account) : Prop where
  named : ∀ name m, a.shared? name = some m → m.mailbox.name = name
  registered : ∀ name, a.registered name = others name + (s.occupies name).toNat

theorem onSelection_cases {α : Type} (command : SharedMailbox → Selection → Outcome α)
    (s : Session) (a : Account) : (a.onSelection command s).2 = (s, a) ∨
      ∃ selection m, s = .selected selection ∧ a.shared? selection.mailbox = some m ∧
        (a.onSelection command s).2 = (.ofSelection? (command m selection).selection?,
          a.put selection.mailbox (command m selection).mailbox) := by
  unfold Account.onSelection
  split
  · exact .inl rfl
  · next selection hselection =>
    split
    · exact .inl rfl
    · next m hm =>
      refine .inr ⟨selection, m, ?_, hm, rfl⟩
      cases s <;> cases hselection
      rfl

theorem onMessages_cases {α : Type}
    (command : MessageSet → SharedMailbox → Selection → Outcome α) (set : SetRequest)
    (s : Session) (a : Account) : (a.onMessages set command s).2 = (s, a) ∨
      ∃ messages, (a.onMessages set command s).2 = (a.onSelection (command messages) s).2 := by
  unfold Account.onMessages
  split
  · exact .inl rfl
  · exact .inr ⟨_, rfl⟩

theorem name_cached {mailbox? : Option Mailbox} (now : Instant)
    (h : a.cached? name = .ok mailbox?) : (mailbox?.getD (.create name now)).name = name := by
  unfold cached? at h
  split at h
  · cases mailbox? with
    | none => rfl
    | some m =>
        obtain ⟨_, head, _, rfl⟩ := Cache.load_eq_ok.1 h
        rfl
  · cases h
    rfl

namespace Occupied

variable {others : String → Nat} {s s' : Session}

theorem put (h : a.Occupied others s) (hname : m.mailbox.name = name)
    (hsessions : m.sessions = others name + (s'.occupies name).toNat)
    (helse : ∀ other, other ≠ name → s'.occupies other = s.occupies other) :
    (a.put name m).Occupied others s' where
  named other m' hm' := by
    rw [shared?_put] at hm'
    split at hm'
    · next heq =>
      cases hm'
      rw [heq, hname]
    · obtain ⟨m₀, hm₀, rfl⟩ := Option.map_eq_some_iff.1 hm'
      exact h.named other m₀ hm₀
  registered other := by
    rw [registered_put]
    split
    · next heq => rw [heq, hsessions]
    · next hne => rw [h.registered, helse other hne]

/-- Only what the session occupies matters. -/
theorem congr (h : a.Occupied others s) (hsame : ∀ name, s'.occupies name = s.occupies name) :
    a.Occupied others s' where
  named := h.named
  registered name := by rw [h.registered, hsame]

theorem exists_shared {selection : Selection} (h : a.Occupied others (.selected selection)) :
    ∃ m, a.shared? selection.mailbox = some m ∧ m.mailbox.name = selection.mailbox ∧
      m.sessions = others selection.mailbox + 1 := by
  have hregistered := h.registered selection.mailbox
  rw [Session.occupies_selected, decide_eq_true rfl, Bool.toNat_true] at hregistered
  cases hm : a.shared? selection.mailbox with
  | none =>
      rw [Account.registered, hm, Option.elim_none] at hregistered
      omega
  | some m =>
      rw [Account.registered, hm, Option.elim_some] at hregistered
      exact ⟨m, rfl, h.named _ m hm, hregistered⟩

theorem release (h : a.Occupied others s) (hnone : s'.selection? = none) :
    (a.release s).Occupied others s' := by
  cases s with
  | selected selection =>
      obtain ⟨m, hm, hname, hsessions⟩ := h.exists_shared
      unfold Account.release
      simp only [Session.selection?, hm]
      refine h.put hname ?_ fun other hne => ?_
      · rw [Session.occupies_of_none hnone]
        simp [SharedMailbox.release, hsessions]
      · rw [Session.occupies_of_none hnone, Session.occupies_selected, decide_eq_false hne.symm]
  | _ => exact h.congr fun name => by rw [Session.occupies_of_none hnone]; rfl

theorem openMailbox (h : a.Occupied others s) (now : Instant) (name : String) :
    (a.openMailbox now name).2.Occupied others s ∧ ∀ m, (a.openMailbox now name).1 = .ok m →
      (a.openMailbox now name).2.shared? name = some m := by
  unfold Account.openMailbox
  split
  · cases hm : a.shared? name with
    | some m =>
        refine ⟨h, fun m' hm' => ?_⟩
        cases hm'
        exact hm
    | none =>
        cases hcached : a.cached? name with
        | error e => exact ⟨h, fun m' hm' => by cases hm'⟩
        | ok mailbox? =>
            refine ⟨h.put ?_ ?_ fun _ _ => rfl, fun m' hm' => ?_⟩
            · exact name_cached now hcached
            · rw [← h.registered, Account.registered, hm]
              rfl
            · cases hm'
              rw [shared?_put, if_pos rfl]
  · exact ⟨h, fun m' hm' => by cases hm'⟩

theorem select (h : a.Occupied others s) (now : Instant) (name : String) (isReadOnly : Bool) :
    (a.select now name isReadOnly s).2.2.Occupied others (a.select now name isReadOnly s).2.1 := by
  unfold Account.select
  split
  · exact h
  · have hreleased : (a.release s).Occupied others .authenticated := h.release rfl
    obtain ⟨hopened, hshared⟩ := hreleased.openMailbox now name
    split
    · next heq =>
      rw [heq] at hopened
      exact hopened
    · next m a' heq =>
      rw [heq] at hopened hshared
      have hm := hshared m rfl
      have hname := hopened.named name m hm
      have hregistered : m.sessions = others name := by
        have := hopened.registered name
        rwa [Account.registered, hm, Option.elim_some] at this
      rcases m.select_registers isReadOnly with
        ⟨e, m', hselect, hleads, hsessions⟩ | ⟨_, selection, m', hselect, hleads, hsessions, hto, _⟩
      · simp only [hselect]
        refine hopened.put ((SharedMailbox.name_leads hleads).trans hname) ?_ fun _ _ => rfl
        rw [hsessions, hregistered]
        rfl
      · simp only [hselect]
        rw [hname] at hto
        refine hopened.put ((SharedMailbox.name_leads hleads).trans hname) ?_ fun other hne => ?_
        · rw [hsessions, hregistered, Session.occupies_selected, decide_eq_true hto]
          rfl
        · rw [Session.occupies_selected, hto, decide_eq_false hne.symm]
          rfl

theorem status (h : a.Occupied others s) (now : Instant) (name : String) :
    (a.status now name s).2.Occupied others s := by
  unfold Account.status
  split
  · exact h
  · have hopened := (h.openMailbox now name).1
    split <;> next heq =>
      rw [heq] at hopened
      exact hopened

theorem onSelection {α : Type} {command : SharedMailbox → Selection → Outcome α}
    (hcommand : Selection.KeepsRegister command) (h : a.Occupied others s) :
    (a.onSelection command s).2.2.Occupied others (a.onSelection command s).2.1 := by
  rcases onSelection_cases command s a with heq | ⟨selection, m, rfl, hm, heq⟩
  · rw [heq]
    exact h
  · obtain ⟨m₀, hm₀, hname, hsessions⟩ := h.exists_shared
    obtain rfl : m = m₀ := Option.some.inj (hm.symm.trans hm₀)
    obtain ⟨hafter, hselected⟩ := hcommand.registers m selection
    rw [heq]
    refine h.put ((SharedMailbox.name_leads (hcommand.leads m selection)).trans hname) ?_ ?_
    · rw [hafter]
      cases hs : (command m selection).selection? with
      | none => simp [hsessions, Session.ofSelection?, Session.occupies, Session.selection?]
      | some s' =>
          simp [hsessions, Session.ofSelection?, Session.occupies_selected, (hselected s' hs).1]
    · intro other hne
      rw [Session.occupies_selected, decide_eq_false hne.symm]
      cases hs : (command m selection).selection? with
      | none => rfl
      | some s' =>
          rw [Session.ofSelection?, Session.occupies_selected, (hselected s' hs).1,
            decide_eq_false hne.symm]

theorem onMessages {α : Type} {command : MessageSet → SharedMailbox → Selection → Outcome α}
    (hcommand : ∀ set, Selection.KeepsRegister (command set)) (h : a.Occupied others s)
    (set : SetRequest) :
    (a.onMessages set command s).2.2.Occupied others (a.onMessages set command s).2.1 := by
  rcases onMessages_cases command set s a with heq | ⟨messages, heq⟩
  · rw [heq]
    exact h
  · rw [heq]
    exact h.onSelection (hcommand messages)

theorem poll (h : a.Occupied others s) :
    (a.poll s).2.2.Occupied others (a.poll s).2.1 := by
  unfold Account.poll
  split
  · exact h
  · exact h.onSelection Selection.keepsRegister_poll

/-- Whatever a session asks of an account, the sessions stay registered as they should be. -/
theorem serve (h : a.Occupied others s) (now : Instant) (command : Command) :
    (a.serve now command s).2.2.Occupied others (a.serve now command s).2.1 := by
  cases command with
  | authenticate =>
      unfold Account.serve
      cases s with
      | unauthenticated => exact h.congr fun _ => rfl
      | _ => exact h
  | select name isReadOnly => exact h.select now name isReadOnly
  | status name => exact h.status now name
  | fetch set => exact h.onMessages Selection.keepsRegister_fetch set
  | store set delta mode =>
      exact h.onMessages (fun set => Selection.keepsRegister_store now set delta mode) set
  | search key => exact h.onSelection (Selection.keepsRegister_search key)
  | expunge => exact h.onSelection Selection.keepsRegister_expunge
  | poll => exact h.poll
  | close => exact h.onSelection Selection.keepsRegister_close
  | unselect => exact h.onSelection Selection.keepsRegister_unselect
  | logout => exact h.release rfl

end Occupied

end Account

end MailBridge

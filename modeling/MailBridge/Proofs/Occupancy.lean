import MailBridge.Proofs.Registration
import MailBridge.Proofs.Retention

/-! # Runs of the bridge

Clients connect and are cut off, sessions give commands, mailboxes are synchronized and changed by
others, in any order. In every state of such a run a mailbox knows exactly how many sessions have it
selected; while there are some, synchronization takes no message out of it unless it begins a new
epoch; and commands that show messages or change their flags take none out either and leave the
views of all sessions as they are.
-/

namespace MailBridge

/-! ## What happens -/

/-- What synchronization does to a mailbox, once it knows the answer of the remote account. -/
inductive Settlement where
  | batch (since? : Option (Option String)) (events : List Prepared) (cursor : Option String)
  | reconcile (invalidate : Bool) (prepared : List MessageContent) (listing : Listing)
      (cursor : Option String)

namespace Settlement

/-- Changes a mailbox as synchronization does. -/
def carryOut (settings : SyncSettings) (now : Instant) (m : SharedMailbox) :
    Settlement → Except MailboxError Tally × SharedMailbox
  | batch since? events cursor =>
    m.mutate (·.applyBatch settings m.sessions since? events cursor)
  | reconcile invalidate prepared listing cursor =>
    let (result, m) :=
      m.mutate (·.reconcile settings m.sessions now invalidate prepared listing cursor)
    (result.map (·.1), m)

variable {settings : SyncSettings} {now : Instant} {m : SharedMailbox}

theorem leads_carryOut (settlement : Settlement) :
    SharedMailbox.Leads m (settlement.carryOut settings now m).2 := by
  cases settlement with
  | batch since? events cursor =>
      exact (SharedMailbox.leadsBy_mutate (fun b => (Mailbox.settled_applyBatch settings m.sessions
        since? events cursor b).sparing) m).leads
  | reconcile invalidate prepared listing cursor =>
      exact (SharedMailbox.leadsBy_mutate (Mailbox.sparing_reconcile settings m.sessions now
        invalidate prepared listing cursor) m).leads

theorem sessions_carryOut (settlement : Settlement) :
    (settlement.carryOut settings now m).2.sessions = m.sessions := by
  cases settlement <;> exact SharedMailbox.sessions_conclude ..

theorem extends_carryOut (settlement : Settlement) (h : 0 < m.sessions)
    (hkept : ∀ tally, (settlement.carryOut settings now m).1 = .ok tally →
      tally.invalidated = false) :
    m.mailbox.store.Extends (settlement.carryOut settings now m).2.mailbox.store := by
  cases settlement with
  | batch since? events cursor =>
      exact SharedMailbox.extends_applyBatch h settings since? events cursor
  | reconcile invalidate prepared listing cursor =>
      refine SharedMailbox.extends_reconcile h rfl fun tally corrections hok => hkept tally ?_
      unfold carryOut
      dsimp only
      rw [hok]
      rfl

end Settlement

/-- What happens at a bridge. -/
inductive Happening where
  | serve (client : String) (command : Command)
  | connect (client : String) (authenticated : Bool)
  /-- The client logs out without saying so, or is cut off. -/
  | disconnect (client : String)
  | synchronize (mailbox : String) (round : Round)
  /-- A round that asked the remote account, while anything happened, changes the mailbox now. -/
  | settle (mailbox : String) (settlement : Settlement)
  /-- The remote account will give other answers. -/
  | script (mailbox : String) (f : RemoteScript → RemoteScript)
  | transact (mailbox : String) (ops : List Operation)
  | change (mailbox : String) (change : Change)
  | setClock (now : Instant)
  /-- The cache is as given. -/
  | recache (cache? : Option Cache)
  | seed (m : Mailbox)
  | detach (m : Mailbox)
  | restart

/-- A round of which nothing but what it does is asked. -/
def Round.turn (round : Round) (s : Site) : Except Halt Unit × Site := (.ok (), round.run s)

namespace Bridge

def settle (name : String) (settlement : Settlement) (b : Bridge) :
    Except AccountError (Except MailboxError Tally) × Bridge :=
  b.withMailbox name (settlement.carryOut b.account.settings.sync b.clock)

def happen (b : Bridge) : Happening → Bridge
  | .serve client command => (b.serve client command).2
  | .connect client authenticated =>
    b.connect client (if authenticated then .authenticated else .unauthenticated)
  | .disconnect client => (b.disconnect client).2
  | .synchronize name round => (b.synchronize name round.turn).2
  | .settle name settlement => (b.settle name settlement).2
  | .script name f => (b.script name f).2
  | .transact name ops => (b.transact name ops).2
  | .change name change => (b.withMailbox name fun m => ((), m.perform change)).2
  | .setClock now => { b with clock := now }
  | .recache cache? => { b with account := { b.account with cache? } }
  | .seed m => b.seed m
  | .detach m => b.detach m
  | .restart => b.restart

def happenAll (happenings : List Happening) (b : Bridge) : Bridge := happenings.foldl happen b

@[simp] theorem happenAll_cons (h : Happening) (rest : List Happening) (b : Bridge) :
    b.happenAll (h :: rest) = (b.happen h).happenAll rest := rfl

theorem happenAll_append (before after : List Happening) (b : Bridge) :
    b.happenAll (before ++ after) = (b.happenAll before).happenAll after := List.foldl_append

/-! ## Who has a mailbox selected -/

/-- The number of sessions that have a mailbox selected. -/
def selectedOn (name : String) (b : Bridge) : Nat :=
  b.sessions.values.countP (Session.occupies name)

/-- The number of sessions but one that have a mailbox selected. -/
def othersOn (client name : String) (b : Bridge) : Nat :=
  (b.sessions.erase client).values.countP (Session.occupies name)

/-- Each open mailbox has its own name, and as many sessions are registered with it as have it
selected. -/
structure Occupied (b : Bridge) : Prop where
  named : ∀ name m, b.account.shared? name = some m → m.mailbox.name = name
  registered : ∀ name, b.account.registered name = b.selectedOn name

variable {b b' : Bridge} {client name : String}

theorem selectedOn_eq (client name : String) (b : Bridge) :
    b.selectedOn name = b.othersOn client name + ((b.session client).occupies name).toNat := by
  unfold selectedOn othersOn session
  rw [OrderedMap.countP_values _ client]
  cases b.sessions.get? client <;> rfl

/-- The sessions may be seen as one and the others. -/
theorem occupied_iff (client : String) : b.Occupied ↔
    b.account.Occupied (fun name => b.othersOn client name) (b.session client) := by
  constructor
  · rintro ⟨hnamed, hregistered⟩
    exact ⟨hnamed, fun name => (hregistered name).trans (selectedOn_eq client name b)⟩
  · rintro ⟨hnamed, hregistered⟩
    exact ⟨hnamed, fun name => (hregistered name).trans (selectedOn_eq client name b).symm⟩

theorem occupied_iff_unauthenticated : b.Occupied ↔
    b.account.Occupied (fun name => b.selectedOn name) .unauthenticated :=
  ⟨fun h => ⟨h.named, h.registered⟩, fun h => ⟨h.named, h.registered⟩⟩

theorem Occupied.reseat {account : Account} {s : Session} {inUse : OrderedSet String}
    (h : account.Occupied (fun name => b.othersOn client name) s) :
    Occupied { b with account, inUse, sessions := b.sessions.insert client s } := by
  refine (occupied_iff client).2 ?_
  unfold othersOn session
  dsimp only
  rw [OrderedMap.erase_insert, OrderedMap.get?_insert_self]
  exact h

theorem Occupied.serve (h : b.Occupied) (client : String) (command : Command) :
    (b.serve client command).2.Occupied :=
  .reseat (((occupied_iff client).1 h).serve b.clock command)

theorem Occupied.disconnect (h : b.Occupied) (client : String) :
    (b.disconnect client).2.Occupied := by
  refine (occupied_iff client).2 ?_
  unfold Bridge.disconnect othersOn session
  dsimp only
  rw [OrderedMap.erase_erase, OrderedMap.get?_erase, if_pos rfl]
  exact ((occupied_iff client).1 h).release rfl

theorem Occupied.connect (h : b.Occupied) (client : String) {s : Session}
    (hnone : s.selection? = none) : (b.connect client s).Occupied := by
  have hleft := (occupied_iff client).1 (h.disconnect client)
  have hsession : (b.disconnect client).2.session client = .unauthenticated := by
    unfold Bridge.disconnect session
    dsimp only
    rw [OrderedMap.get?_erase, if_pos rfl]
    rfl
  rw [hsession] at hleft
  exact .reseat (hleft.congr fun name => Session.occupies_of_none hnone name)

theorem Occupied.withMailbox {α : Type} {f : SharedMailbox → α × SharedMailbox}
    (hf : ∀ m, (f m).2.mailbox.name = m.mailbox.name ∧ (f m).2.sessions = m.sessions)
    (h : b.Occupied) (name : String) : (b.withMailbox name f).2.Occupied := by
  have hopen := (occupied_iff_unauthenticated.1 h).openMailbox b.clock name
  unfold Bridge.withMailbox
  split
  · exact ⟨h.named, h.registered⟩
  · split
    · next heq =>
      rw [heq] at hopen
      exact occupied_iff_unauthenticated.2 hopen.1
    · next m account heq =>
      rw [heq] at hopen
      obtain ⟨hopened, hshared⟩ := hopen
      obtain ⟨hname, hsessions⟩ := hf m
      have hm := hshared m rfl
      refine occupied_iff_unauthenticated.2 (hopened.put ?_ ?_ fun _ _ => rfl)
      · rw [hname]
        exact hopened.named name m hm
      · have hregistered := hopened.registered name
        rw [Account.registered, hm, Option.elim_some] at hregistered
        rw [hsessions, hregistered]

theorem Occupied.transact (h : b.Occupied) (name : String) (ops : List Operation) :
    (b.transact name ops).2.Occupied := by
  have hdone := h.withMailbox (f := fun m =>
    (((m.transact ops b.clock).1, (m.transact ops b.clock).2.1), (m.transact ops b.clock).2.2))
    (fun m => by
      obtain ⟨c, _, heq⟩ := m.transact_eq_perform ops b.clock
      exact ⟨SharedMailbox.name_leads (heq ▸ .single (.change c)),
        SharedMailbox.sessions_conclude ..⟩) name
  unfold Bridge.transact
  dsimp only
  split
  · exact hdone
  · exact ⟨hdone.named, hdone.registered⟩

theorem Occupied.script (h : b.Occupied) (name : String) (f : RemoteScript → RemoteScript) :
    (b.script name f).2.Occupied := by
  have hdone := h.withMailbox (f := fun m => ((), m)) (fun _ => ⟨rfl, rfl⟩) name
  unfold Bridge.script
  split <;> next heq =>
    rw [heq] at hdone
    exact ⟨hdone.named, hdone.registered⟩

theorem Occupied.synchronize (h : b.Occupied) (name : String) (round : Round) :
    (b.synchronize name round.turn).2.Occupied := by
  have hdone := h.withMailbox (f := fun shared => (((.ok () : Except Halt Unit),
      round.run (b.site name shared)), (round.run (b.site name shared)).shared))
    (fun m => ⟨SharedMailbox.name_leads (round.leads (b.site name m)),
      (Site.spares_run round (b.site name m)).sessions⟩) name
  unfold Bridge.synchronize Round.turn
  dsimp only
  split
  · exact hdone
  · exact ⟨hdone.named, hdone.registered⟩

theorem Occupied.recache (h : b.Occupied) (cache? : Option Cache) :
    Occupied { b with account := { b.account with cache? } } where
  named name m hm := by
    unfold Account.shared? at hm
    obtain ⟨o, ho, rfl⟩ := Option.map_eq_some_iff.1 hm
    refine h.named name
      { mailbox := o.mailbox, cache? := b.account.cache?, sessions := o.sessions } ?_
    rw [Account.shared?, ho, Option.map_some]
  registered name := by
    refine Eq.trans ?_ (h.registered name)
    unfold Account.registered Account.shared?
    cases b.account.opened.get? name <;> rfl

/-- No mailbox is open and no client connected. -/
structure Fresh (b : Bridge) : Prop where
  opened : b.account.opened = ∅
  sessions : b.sessions = ∅

theorem Fresh.occupied (h : b.Fresh) : b.Occupied where
  named name m hm := by
    rw [Account.shared?, h.opened] at hm
    cases hm
  registered name := by
    rw [Account.registered, Account.shared?, h.opened, selectedOn, h.sessions]
    rfl

theorem Occupied.happen (h : b.Occupied) (happening : Happening) :
    (b.happen happening).Occupied := by
  cases happening with
  | serve client command => exact h.serve client command
  | connect client authenticated => exact h.connect client (by cases authenticated <;> rfl)
  | disconnect client => exact h.disconnect client
  | synchronize name round => exact h.synchronize name round
  | settle name settlement => exact h.withMailbox (fun _ =>
        ⟨SharedMailbox.name_leads settlement.leads_carryOut, settlement.sessions_carryOut⟩) name
  | script name f => exact h.script name f
  | transact name ops => exact h.transact name ops
  | change name change =>
      exact h.withMailbox (f := fun m => ((), m.perform change)) (fun m =>
        ⟨SharedMailbox.name_leads (.single (.change change)),
          SharedMailbox.sessions_conclude ..⟩) name
  | setClock now => exact ⟨h.named, h.registered⟩
  | recache cache? => exact h.recache cache?
  | seed m => exact h.recache _
  | detach m => exact ⟨h.named, h.registered⟩
  | restart => exact Fresh.occupied ⟨rfl, rfl⟩

theorem Occupied.happenAll (h : b.Occupied) (happenings : List Happening) :
    (b.happenAll happenings).Occupied := by
  induction happenings generalizing b with
  | nil => exact h
  | cons happening rest ih =>
      rw [happenAll_cons]
      exact ih (h.happen happening)

end Bridge

/-! ## What becomes of open mailboxes -/

namespace Account

variable {a a' a'' : Account} {name other : String} {m m' : SharedMailbox} {now : Instant}

theorem openMailbox_error {e : AccountError} (h : a.openMailbox now name = (.error e, a')) :
    a' = a := by
  unfold openMailbox at h
  split at h
  · split at h
    · cases h
    · split at h <;> cases h
      rfl
  · cases h
    rfl

theorem openMailbox_ok (h : a.openMailbox now name = (.ok m, a')) :
    a.shared? name = some m ∧ a' = a ∨ a.shared? name = none ∧ a' = a.put name m := by
  unfold openMailbox at h
  split at h
  · split at h
    · next hopen =>
      cases h
      exact .inl ⟨hopen, rfl⟩
    · next hnone =>
      split at h
      · cases h
      · cases h
        exact .inr ⟨hnone, rfl⟩
  · cases h

/-- A mailbox that is open stays open and becomes a related one. -/
def Across (R : Mailbox → Mailbox → Prop) (name : String) (a a' : Account) : Prop :=
  ∀ m, a.shared? name = some m → ∃ m', a'.shared? name = some m' ∧ R m.mailbox m'.mailbox

namespace Across

variable {R : Mailbox → Mailbox → Prop}

theorem refl (hrefl : ∀ m, R m m) (a : Account) : a.Across R name a :=
  fun m hm => ⟨m, hm, hrefl _⟩

theorem trans (htrans : ∀ {l m n}, R l m → R m n → R l n) (h : a.Across R name a')
    (h' : a'.Across R name a'') : a.Across R name a'' := by
  intro m hm
  obtain ⟨m', hm', hR⟩ := h m hm
  obtain ⟨m'', hm'', hR'⟩ := h' m' hm'
  exact ⟨m'', hm'', htrans hR hR'⟩

theorem put (hrefl : ∀ m, R m m)
    (h : ∀ m₀, a.shared? other = some m₀ → name = other → R m₀.mailbox m.mailbox) :
    a.Across R name (a.put other m) := by
  intro m₀ hm₀
  rw [shared?_put]
  split
  · next heq => exact ⟨m, rfl, h m₀ (heq ▸ hm₀) heq⟩
  · rw [hm₀]
    exact ⟨_, rfl, hrefl _⟩

theorem openMailbox_put (hrefl : ∀ m, R m m) (hopen : a.openMailbox now other = (.ok m, a'))
    (h : a.shared? other = some m → name = other → R m.mailbox m'.mailbox) :
    a.Across R name (a'.put other m') := by
  rcases openMailbox_ok hopen with ⟨hm, rfl⟩ | ⟨hnone, rfl⟩
  · refine put hrefl fun m₀ hm₀ heq => ?_
    rw [hm] at hm₀
    cases hm₀
    exact h hm heq
  · intro m₀ hm₀
    have hne : name ≠ other := fun heq => by
      rw [heq, hnone] at hm₀
      cases hm₀
    simp only [shared?_put, if_neg hne, hm₀, Option.map_some]
    exact ⟨_, rfl, hrefl _⟩

end Across

end Account

/-! ## Commands that take no message out -/

/-- All messages stay, and the session sees what it saw, if it sees the mailbox still. -/
structure Outcome.Shows {α : Type} (m : SharedMailbox) (s : Selection) (o : Outcome α) : Prop where
  keeps : m.mailbox.store.Extends o.mailbox.mailbox.store
  selection : ∀ s', o.selection? = some s' → s' = s

namespace Selection

variable {α : Type} {m m' : SharedMailbox} {s : Selection}

theorem shows_stay (h : m.mailbox.store.Extends m'.mailbox.store)
    (answer : Except SessionError α) : (s.stay answer m').Shows m s where
  keeps := h
  selection _ hs := (Option.some.inj hs).symm

theorem shows_whileValid {command : SharedMailbox → Selection → Outcome α}
    (h : (command m s).Shows m s) : (whileValid command m s).Shows m s := by
  unfold whileValid
  split
  · exact h
  · exact ⟨.refl _, nofun⟩

theorem shows_fetch (set : MessageSet) : (fetch set m s).Shows m s := by
  refine shows_whileValid ?_
  split <;> exact shows_stay (.refl _) _

theorem shows_search (key : SearchKey) : (search key m s).Shows m s :=
  shows_whileValid (shows_stay (.refl _) _)

theorem shows_store (now : Instant) (set : MessageSet) (delta : Flags) (mode : StoreMode) :
    (store now set delta mode m s).Shows m s := by
  refine shows_whileValid ?_
  dsimp only
  split
  · exact shows_stay (.refl _) _
  · split
    · exact shows_stay (.refl _) _
    · exact shows_stay (.refl _) _
    · next n e rest _ =>
      split
      all_goals
        refine shows_stay (SharedMailbox.extends_mutate ?_) _
        have hedited :=
          Mailbox.tended_storeEach now delta mode ((n, e) :: rest) m.mailbox.startJournal
        refine .mono (fun _ => Edit.keepsMessages_of_tends) ?_
        split
        · next h =>
          rw [h] at hedited
          exact hedited
        · exact hedited

end Selection

/-- Whether the command only shows messages or changes their flags. -/
def Command.looks : Command → Bool
  | fetch _ | store .. | search _ => true
  | _ => false

namespace Account

variable {a : Account} {s : Session} {name : String}

theorem shows_onSelection {α : Type} {command : SharedMailbox → Selection → Outcome α}
    (hcommand : ∀ m selection, (command m selection).Shows m selection) :
    (∀ name, a.Across (fun m m' => m.store.Extends m'.store) name (a.onSelection command s).2.2) ∧
      ∀ s', (a.onSelection command s).2.1.selection? = some s' → s.selection? = some s' := by
  rcases onSelection_cases command s a with heq | ⟨selection, m, rfl, hm, heq⟩
  · rw [heq]
    exact ⟨fun _ => .refl (fun _ => .refl _) a, fun _ hs => hs⟩
  · rw [heq]
    refine ⟨fun _ => .put (fun _ => .refl _) fun m₀ hm₀ _ => ?_, fun s' hs => ?_⟩
    · obtain rfl : m = m₀ := Option.some.inj (hm.symm.trans hm₀)
      exact (hcommand m selection).keeps
    · cases hends : (command m selection).selection? with
      | none =>
          rw [hends] at hs
          cases hs
      | some s'' =>
          rw [hends] at hs
          cases hs
          rw [(hcommand m selection).selection _ hends]
          rfl

theorem shows_onMessages {α : Type}
    {command : MessageSet → SharedMailbox → Selection → Outcome α}
    (hcommand : ∀ set m selection, (command set m selection).Shows m selection)
    (set : SetRequest) :
    (∀ name, a.Across (fun m m' => m.store.Extends m'.store) name
        (a.onMessages set command s).2.2) ∧
      ∀ s', (a.onMessages set command s).2.1.selection? = some s' → s.selection? = some s' := by
  rcases onMessages_cases command set s a with heq | ⟨messages, heq⟩
  · rw [heq]
    exact ⟨fun _ => .refl (fun _ => .refl _) a, fun _ hs => hs⟩
  · rw [heq]
    exact shows_onSelection (hcommand messages)

/-- A command that only shows messages or changes their flags takes none out of any mailbox, and
leaves the view of its session as it is. -/
theorem serve_looks {command : Command} (h : command.looks = true) (now : Instant) :
    (∀ name, a.Across (fun m m' => m.store.Extends m'.store) name (a.serve now command s).2.2) ∧
      ∀ s', (a.serve now command s).2.1.selection? = some s' → s.selection? = some s' := by
  cases command with
  | fetch set => exact shows_onMessages (fun set _ _ => Selection.shows_fetch set) set
  | store set delta mode =>
      exact shows_onMessages (fun set _ _ => Selection.shows_store now set delta mode) set
  | search key => exact shows_onSelection fun _ _ => Selection.shows_search key
  | _ => cases h

end Account

namespace Bridge

variable {b b' : Bridge} {name : String}

/-- Every mailbox that sessions have selected is open and stays open, with all its messages under
their UIDs and remote names. -/
def SparesSelected (b b' : Bridge) : Prop :=
  ∀ name, 0 < b.selectedOn name → ∃ m m', b.account.shared? name = some m ∧
    b'.account.shared? name = some m' ∧ m.mailbox.store.Extends m'.mailbox.store

/-- Synchronization takes no message out of a mailbox if it does not when it finds sessions
registered. -/
theorem Occupied.sparesSelected {α : Type} {f : SharedMailbox → α × SharedMailbox}
    (h : b.Occupied) (name : String) (hf : ∀ m, 0 < m.sessions →
      (b.withMailbox name f).1 = .ok (f m).1 →
        m.mailbox.store.Extends (f m).2.mailbox.store) :
    b.SparesSelected (b.withMailbox name f).2 := by
  intro other hselected
  have hregistered := h.registered other
  -- a mailbox with which sessions are registered is open
  obtain ⟨m, hm, hsessions⟩ : ∃ m, b.account.shared? other = some m ∧ 0 < m.sessions := by
    cases hm : b.account.shared? other with
    | none =>
        rw [Account.registered, hm, Option.elim_none] at hregistered
        omega
    | some m =>
        rw [Account.registered, hm, Option.elim_some] at hregistered
        exact ⟨m, rfl, by omega⟩
  suffices hacross : b.account.Across (fun m m' => m.store.Extends m'.store) other
      (b.withMailbox name f).2.account by
    obtain ⟨m', hm', hextends⟩ := hacross m hm
    exact ⟨m, m', hm, hm', hextends⟩
  have hrefl (m : Mailbox) : m.store.Extends m.store := .refl _
  unfold Bridge.withMailbox at hf ⊢
  cases hdetached : b.detached.get? name with
  | some alone => exact .refl hrefl _
  | none =>
      rw [hdetached] at hf
      cases hopen : b.account.openMailbox b.clock name with
      | mk result account =>
          rw [hopen] at hf
          cases result with
          | error e =>
              dsimp only
              rw [Account.openMailbox_error hopen]
              exact .refl hrefl _
          | ok opened =>
              refine .openMailbox_put hrefl hopen fun hopened heq => ?_
              rw [heq, hopened] at hm
              cases hm
              exact hf m hsessions rfl

theorem Occupied.sparesSelected_synchronize (h : b.Occupied) (name : String) (round : Round)
    (hothers : ∀ op ∈ (b.remote name).operations, ∀ now e, op.edit? now = some e →
      e.keepsMessages = true)
    (hkept : ∀ record, (b.synchronize name round.turn).1 = .ok record → ∀ mailbox validity,
      .invalidated mailbox validity ∉ record.notices) :
    b.SparesSelected (b.synchronize name round.turn).2 := by
  have hdone : b.SparesSelected (b.withMailbox name fun m => (((.ok () : Except Halt Unit),
      round.run (b.site name m)), (round.run (b.site name m)).shared)).2 := by
    refine h.sparesSelected name fun m hsessions hresult => ?_
    refine ((Site.spares_run round (b.site name m)).keeps hsessions hothers
      fun mailbox validity => ?_).1
    refine hkept ⟨.ok (), (round.run (b.site name m)).calls, _⟩ ?_ mailbox validity
    unfold Bridge.synchronize Round.turn
    dsimp only
    rw [hresult]
  unfold Bridge.synchronize Round.turn
  dsimp only
  split <;> exact hdone

theorem session_serve (client other : String) (command : Command) (b : Bridge) :
    (b.serve client command).2.session other =
      if other = client then (b.account.serve b.clock command (b.session client)).2.1
      else b.session other := by
  unfold serve session
  dsimp only
  rw [OrderedMap.get?_insert]
  split <;> rfl

/-- Whatever has happened, a mailbox knows how many sessions have it selected. While there are some,
synchronization takes no message out of it unless a new epoch begins or others do, and commands that
show messages or change their flags take none out either, and leave all views as they are. -/
theorem selected_mailboxes_keep_messages (h : b.Fresh) (happenings : List Happening)
    (hb : b' = b.happenAll happenings) :
    (∀ name, b'.account.registered name = b'.selectedOn name) ∧
    (∀ name settlement,
      (∀ tally, (b'.settle name settlement).1 = .ok (.ok tally) → tally.invalidated = false) →
        b'.SparesSelected (b'.settle name settlement).2) ∧
    (∀ name (round : Round),
      (∀ op ∈ (b'.remote name).operations, ∀ now e, op.edit? now = some e →
        e.keepsMessages = true) →
      (∀ record, (b'.synchronize name round.turn).1 = .ok record → ∀ mailbox validity,
        .invalidated mailbox validity ∉ record.notices) →
        b'.SparesSelected (b'.synchronize name round.turn).2) ∧
    ∀ client command, command.looks = true →
      (∀ name m, b'.account.shared? name = some m →
        ∃ m', (b'.serve client command).2.account.shared? name = some m' ∧
          m.mailbox.store.Extends m'.mailbox.store) ∧
      ∀ other s, ((b'.serve client command).2.session other).selection? = some s →
        (b'.session other).selection? = some s := by
  have hoccupied : b'.Occupied := hb ▸ h.occupied.happenAll happenings
  refine ⟨hoccupied.registered, fun name settlement hkept => ?_,
    fun name round hothers hkept => ?_, fun client command hlooks => ?_⟩
  · refine hoccupied.sparesSelected name fun m hsessions hresult => ?_
    exact settlement.extends_carryOut hsessions fun tally hok =>
      hkept tally (hresult.trans (by rw [hok]))
  · exact hoccupied.sparesSelected_synchronize name round hothers hkept
  · obtain ⟨hacross, hselection⟩ :=
      b'.account.serve_looks (s := b'.session client) hlooks b'.clock
    refine ⟨fun name => hacross name, fun other s hs => ?_⟩
    rw [session_serve] at hs
    split at hs
    · next heq =>
      rw [heq]
      exact hselection s hs
    · exact hs

/-- A bridge to which no client has come. -/
def unvisited : Bridge := { account := { settings := { name := "post" } }, clock := 0 }

/-- Two clients select a mailbox with a message. -/
def visits : List Happening :=
  [.settle "INBOX" (.batch none [.create { remoteId := "a" }] none), .connect "ann" true,
    .connect "bob" true, .serve "ann" (.select "INBOX" false), .serve "bob" (.select "INBOX" true)]

theorem selected_mailboxes_keep_messages_visited : unvisited.Fresh ∧
    (unvisited.happenAll visits).selectedOn "INBOX" = 2 ∧
    (unvisited.happenAll visits).account.registered "INBOX" = 2 ∧
    ((unvisited.happenAll visits).settle "INBOX" (.batch none [.remove "a"] none)).1 =
      .ok (.ok { removed := 1 }) ∧
    ∃ m m' : SharedMailbox, (unvisited.happenAll visits).account.shared? "INBOX" = some m ∧
      ((unvisited.happenAll visits).settle "INBOX"
        (.batch none [.remove "a"] none)).2.account.shared? "INBOX" = some m' ∧
      ∀ r ∈ m.mailbox.store.messages, ∃ r' ∈ m'.mailbox.store.messages,
        r'.uid = r.uid ∧ r'.remoteId = r.remoteId := by
  have hfresh : unvisited.Fresh := ⟨rfl, rfl⟩
  have hselected : (unvisited.happenAll visits).selectedOn "INBOX" = 2 := rfl
  have hremoved : ((unvisited.happenAll visits).settle "INBOX"
      (.batch none [.remove "a"] none)).1 = .ok (.ok { removed := 1 }) := rfl
  obtain ⟨hcounted, hspared, _⟩ := selected_mailboxes_keep_messages hfresh visits rfl
  have hkept : ∀ tally, ((unvisited.happenAll visits).settle "INBOX"
      (.batch none [.remove "a"] none)).1 = .ok (.ok tally) → tally.invalidated = false := by
    intro tally hok
    rw [hremoved] at hok
    cases hok
    rfl
  obtain ⟨m, m', hm, hm', hextends⟩ := hspared _ _ hkept "INBOX" (by rw [hselected]; decide)
  exact ⟨hfresh, hselected, (hcounted "INBOX").trans hselected, hremoved, m, m', hm, hm',
    fun _ hr => hextends.keeps hr⟩

end Bridge

end MailBridge

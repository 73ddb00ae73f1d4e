import Mathlib.Data.List.Induction
import MailBridge.Proofs.Figures
import MailBridge.Proofs.Persistence
import MailBridge.Proofs.ReadOnly

/-! # Where the mailboxes of an account come from

An account opens a mailbox as a new one or loads it from its cache, in which no two messages of a
mailbox have one UID. From then on the mailbox goes on by changes, whatever sessions,
synchronization and others do. So in every state of a run, each open mailbox has grown from one that
began sound: no UID is repeated, the figures that were kept are right, and no change is under way.
-/

namespace MailBridge

open Relation

theorem Mailbox.Initial.journal? {m : Mailbox} (h : m.Initial) : m.journal? = none := by
  cases h <;> rfl

namespace SharedMailbox

variable {m m' : SharedMailbox}

/-- The mailbox began with no UID repeated, new or saved before, and went on by changes. -/
def Grown (m : SharedMailbox) : Prop :=
  ∃ first : SharedMailbox, first.mailbox.Initial ∧ first.mailbox.store.Distinct ∧ Leads first m

namespace Grown

theorem leads (h : m.Grown) (hleads : Leads m m') : m'.Grown := by
  obtain ⟨first, hinitial, hd, hbefore⟩ := h
  exact ⟨first, hinitial, hd, hbefore.trans hleads⟩

theorem sound (h : m.Grown) : m.mailbox.Sound False False := by
  obtain ⟨first, hinitial, hd, hleads⟩ := h
  have hbegin : first.mailbox.Sound False False := ⟨hd, hinitial.figured, nofun, nofun⟩
  exact (sound_leads hbegin hleads).1

theorem journal? (h : m.Grown) : m.mailbox.journal? = none := by
  obtain ⟨first, hinitial, hd, hleads⟩ := h
  induction hleads with
  | refl => exact hinitial.journal?
  | tail hbefore hstep ih =>
      cases hstep with
      | aside => exact ih
      | change c =>
          have hmid : Grown _ := ⟨first, hinitial, hd, hbefore⟩
          rcases perform_restores_or_keeps hmid.sound.distinct c with
            ⟨store, heq, _⟩ | ⟨cache?, heq⟩
          · rw [heq]
            rfl
          · rw [heq]
            rfl

end Grown

end SharedMailbox

/-! ## Mailboxes of an account -/

namespace Account

variable {a a' : Account} {s : Session} {now : Instant} {name : String} {m : SharedMailbox}

theorem cache?_of_shared? (h : a.shared? name = some m) : m.cache? = a.cache? := by
  unfold shared? at h
  obtain ⟨o, _, rfl⟩ := Option.map_eq_some_iff.1 h
  rfl

theorem cache?_release (s : Session) (a : Account) : (a.release s).cache? = a.cache? := by
  rcases a.release_cases s with heq | ⟨name, m, hm, heq⟩
  · rw [heq]
  · have hcache : m.release.cache? = m.cache? := rfl
    rw [heq]
    exact hcache.trans (cache?_of_shared? hm)

/-- The mailboxes that are open have grown. -/
def Grown (a : Account) : Prop := ∀ name m, a.shared? name = some m → m.Grown

/-- The cache of the account, if it has one, does not have two messages with one UID. -/
def Keyed (a : Account) : Prop := ∀ c, a.cache? = some c → c.Keyed

theorem initial_of_cached {mailbox? : Option Mailbox} (now : Instant)
    (h : a.cached? name = .ok mailbox?) : (mailbox?.getD (.create name now)).Initial := by
  cases mailbox? with
  | none => exact .create name now
  | some b =>
      unfold cached? at h
      split at h
      · obtain ⟨_, head, _, rfl⟩ := Cache.load_eq_ok.1 h
        exact .ofSaved ..
      · cases h

theorem Keyed.distinct_of_cached {mailbox? : Option Mailbox} (hkeyed : a.Keyed) (now : Instant)
    (h : a.cached? name = .ok mailbox?) :
    (mailbox?.getD (.create name now)).store.Distinct := by
  cases mailbox? with
  | none => exact Ascending.nil
  | some b =>
      unfold cached? at h
      split at h
      · next cache hcache =>
        exact (Mailbox.Opened.loaded h).distinct_of_keyed (hkeyed cache hcache)
      · cases h

namespace Grown

theorem put (h : a.Grown) (hm : m.Grown) (name : String) : (a.put name m).Grown := by
  intro other m' hm'
  rw [shared?_put] at hm'
  split at hm'
  · cases hm'
    exact hm
  · obtain ⟨m₀, hm₀, rfl⟩ := Option.map_eq_some_iff.1 hm'
    exact (h other m₀ hm₀).leads (.single (.aside _ _))

theorem release (h : a.Grown) (s : Session) : (a.release s).Grown := by
  rcases a.release_cases s with heq | ⟨name, m, hm, heq⟩
  · rwa [heq]
  · rw [heq]
    exact h.put ((h name m hm).leads (.single (.aside _ _))) name

theorem openMailbox (h : a.Grown) (hkeyed : a.Keyed)
    (hopen : a.openMailbox now name = (.ok m, a')) : m.Grown ∧ a'.Grown := by
  unfold Account.openMailbox at hopen
  split at hopen
  · split at hopen
    · next hm =>
      cases hopen
      exact ⟨h name m hm, h⟩
    · split at hopen
      · cases hopen
      · next hcached =>
        cases hopen
        have hm : SharedMailbox.Grown { mailbox := _, cache? := a.cache? } :=
          ⟨_, initial_of_cached now hcached, hkeyed.distinct_of_cached now hcached, .refl⟩
        exact ⟨hm, h.put hm name⟩
  · cases hopen

theorem select (h : a.Grown) (hkeyed : a.Keyed) (now : Instant) (name : String)
    (isReadOnly : Bool) : (a.select now name isReadOnly s).2.2.Grown := by
  have hreleased := h.release s
  have hkept : (a.release s).Keyed := fun c hc => hkeyed c ((cache?_release s a).symm.trans hc)
  unfold Account.select
  split
  · exact h
  · split
    · next heq =>
      rw [openMailbox_error heq]
      exact hreleased
    · next m a' heq =>
      obtain ⟨hm, hopened⟩ := hreleased.openMailbox hkept heq
      rcases m.select_registers isReadOnly with
        ⟨e, m', hselect, hleads, _⟩ | ⟨_, selection, m', hselect, hleads, _⟩
      all_goals
        simp only [hselect]
        exact hopened.put (hm.leads hleads) name

theorem status (h : a.Grown) (hkeyed : a.Keyed) (now : Instant) (name : String) :
    (a.status now name s).2.Grown := by
  unfold Account.status
  split
  · exact h
  · split <;> next heq =>
      first
        | exact (openMailbox_error heq) ▸ h
        | exact (h.openMailbox hkeyed heq).2

theorem onSelection {α : Type} {command : SharedMailbox → Selection → Outcome α}
    (hcommand : Selection.KeepsRegister command) (h : a.Grown) :
    (a.onSelection command s).2.2.Grown := by
  rcases onSelection_cases command s a with heq | ⟨selection, m, rfl, hm, heq⟩
  · rw [heq]
    exact h
  · rw [heq]
    exact h.put ((h _ m hm).leads (hcommand.leads m selection)) _

theorem onMessages {α : Type} {command : MessageSet → SharedMailbox → Selection → Outcome α}
    (hcommand : ∀ set, Selection.KeepsRegister (command set)) (h : a.Grown) (set : SetRequest) :
    (a.onMessages set command s).2.2.Grown := by
  rcases onMessages_cases command set s a with heq | ⟨messages, heq⟩
  · rw [heq]
    exact h
  · rw [heq]
    exact h.onSelection (hcommand messages)

theorem poll (h : a.Grown) : (a.poll s).2.2.Grown := by
  unfold Account.poll
  split
  · exact h
  · exact h.onSelection Selection.keepsRegister_poll

theorem serve (h : a.Grown) (hkeyed : a.Keyed) (now : Instant) (command : Command) :
    (a.serve now command s).2.2.Grown := by
  cases command with
  | authenticate =>
      unfold Account.serve
      cases s <;> exact h
  | select name isReadOnly => exact h.select hkeyed now name isReadOnly
  | status name => exact h.status hkeyed now name
  | fetch set => exact h.onMessages Selection.keepsRegister_fetch set
  | store set delta mode =>
      exact h.onMessages (fun set => Selection.keepsRegister_store now set delta mode) set
  | search key => exact h.onSelection (Selection.keepsRegister_search key)
  | expunge => exact h.onSelection Selection.keepsRegister_expunge
  | poll => exact h.poll
  | close => exact h.onSelection Selection.keepsRegister_close
  | unselect => exact h.onSelection Selection.keepsRegister_unselect
  | logout => exact h.release s

end Grown

end Account

/-! ## Runs of the bridge -/

namespace Bridge

variable {b : Bridge}

theorem grown_withMailbox {α : Type} {f : SharedMailbox → α × SharedMailbox}
    (hf : ∀ m, SharedMailbox.Leads m (f m).2) (h : b.account.Grown) (hkeyed : b.account.Keyed)
    (name : String) : (b.withMailbox name f).2.account.Grown := by
  unfold Bridge.withMailbox
  split
  · exact h
  · split
    · next heq =>
      rw [Account.openMailbox_error heq]
      exact h
    · next m account heq =>
      obtain ⟨hm, hopened⟩ := h.openMailbox hkeyed heq
      exact hopened.put (hm.leads (hf m)) name

theorem grown_synchronize (h : b.account.Grown) (hkeyed : b.account.Keyed) (name : String)
    (round : Round) : (b.synchronize name round.turn).2.account.Grown := by
  have hdone := grown_withMailbox (f := fun shared => (((.ok () : Except Halt Unit),
      round.run (b.site name shared)), (round.run (b.site name shared)).shared))
    (fun m => round.leads (b.site name m)) h hkeyed name
  unfold Bridge.synchronize Round.turn
  dsimp only
  split <;> exact hdone

theorem grown_script (h : b.account.Grown) (hkeyed : b.account.Keyed) (name : String)
    (f : RemoteScript → RemoteScript) : (b.script name f).2.account.Grown := by
  have hdone := grown_withMailbox (f := fun m => ((), m)) (fun _ => .refl) h hkeyed name
  unfold Bridge.script
  split <;> next heq =>
    rw [heq] at hdone
    exact hdone

theorem grown_transact (h : b.account.Grown) (hkeyed : b.account.Keyed) (name : String)
    (ops : List Operation) : (b.transact name ops).2.account.Grown := by
  have hdone := grown_withMailbox (f := fun m =>
    (((m.transact ops b.clock).1, (m.transact ops b.clock).2.1), (m.transact ops b.clock).2.2))
    (fun m => by
      obtain ⟨c, _, heq⟩ := m.transact_eq_perform ops b.clock
      exact heq ▸ .single (.change c)) h hkeyed name
  unfold Bridge.transact
  dsimp only
  split <;> exact hdone

/-- What the cache has does not matter to a mailbox that is open. -/
theorem grown_recache (h : b.account.Grown) (cache? : Option Cache) :
    Account.Grown { b.account with cache? } := by
  intro name m hm
  obtain ⟨o, ho, rfl⟩ := Option.map_eq_some_iff.1 hm
  refine (h name ⟨o.mailbox, b.account.cache?, o.sessions⟩ ?_).leads (.single (.aside cache? _))
  rw [Account.shared?, ho, Option.map_some]

theorem grown_happen (h : b.account.Grown) (hkeyed : b.account.Keyed) (happening : Happening) :
    (b.happen happening).account.Grown := by
  cases happening with
  | serve client command => exact h.serve hkeyed b.clock command
  | connect client authenticated => exact h.release _
  | disconnect client => exact h.release _
  | synchronize name round => exact grown_synchronize h hkeyed name round
  | settle name settlement =>
      exact grown_withMailbox (fun _ => settlement.leads_carryOut) h hkeyed name
  | script name f => exact grown_script h hkeyed name f
  | transact name ops => exact grown_transact h hkeyed name ops
  | change name change =>
      exact grown_withMailbox (f := fun m => ((), m.perform change))
        (fun _ => .single (.change change)) h hkeyed name
  | setClock now => exact h
  | recache cache? => exact grown_recache h cache?
  | seed m => exact grown_recache h _
  | detach m => exact h
  | restart =>
      intro name m hm
      cases hm

/-- In every state of a run in which the cache never has two messages with one UID, all open
mailboxes have grown. -/
theorem grown_happenAll (h : b.Fresh) (happenings : List Happening)
    (hkeyed : ∀ before, before <+: happenings → (b.happenAll before).account.Keyed) :
    (b.happenAll happenings).account.Grown := by
  induction happenings using List.reverseRecOn with
  | nil =>
      intro name m hm
      rw [happenAll, List.foldl_nil, Account.shared?, h.opened] at hm
      cases hm
  | append_singleton before last ih =>
      rw [happenAll_append]
      refine grown_happen (ih fun l hl => hkeyed l (hl.trans (List.prefix_append ..))) ?_ last
      exact hkeyed before (List.prefix_append ..)

end Bridge

end MailBridge

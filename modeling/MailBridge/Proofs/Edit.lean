import Mathlib.Logic.Relation
import MailBridge.Mailbox.Operation
import MailBridge.Proofs.Store

/-! # Edits of a mailbox

An edit is a change of a mailbox with all that it reads beside the mailbox. Whatever the edit, it
is made of a few kinds of steps: upkeep of the messages that are there, the admission of one more
message, or a new epoch. What every step preserves holds after any edits.
-/

namespace MailBridge

/-- A change of a mailbox, written down with the times that it reads off the clock. -/
inductive Edit where
  | receive (content : MessageContent)
  | setFlags (now : Instant) (uid : Uid) (delta : Flags) (mode : StoreMode)
  | mergeFlags (id : RemoteId) (flags : Flags) (taken : Instant)
  | markRemoved (id : RemoteId)
  | expunge
  | flushPending
  | clearRecent (p : Uid → Bool)
  | raiseUidNext
  | commit
  | invalidate (now : Instant)
  | setCursor (cursor : Option String)
  | takeUnsaved

namespace Edit

/-- The mailbox that an edit leaves, also if it fails. -/
def apply (m : Mailbox) : Edit → Mailbox
  | receive content => (m.receive content).2
  | setFlags now uid delta mode => (m.setFlags now uid delta mode).2
  | mergeFlags id flags taken => (m.mergeFlags id flags taken).2
  | markRemoved id => (m.markRemoved id).2
  | expunge => m.expunge.2
  | flushPending => m.flushPending.2
  | clearRecent p => (m.clearRecent p).2
  | raiseUidNext => m.raiseUidNext
  | commit => m.commit
  | invalidate now => (m.invalidate now).2
  | setCursor cursor => m.setCursor cursor
  | takeUnsaved => m.takeUnsaved.2

def renews : Edit → Bool
  | invalidate _ => true
  | _ => false

def takesIn : Edit → Bool
  | receive _ => true
  | _ => false

end Edit

namespace Mailbox

def editAll (edits : List Edit) (m : Mailbox) : Mailbox := edits.foldl Edit.apply m

@[simp] theorem editAll_nil (m : Mailbox) : m.editAll [] = m := rfl

@[simp] theorem editAll_cons (e : Edit) (edits : List Edit) (m : Mailbox) :
    m.editAll (e :: edits) = (e.apply m).editAll edits := rfl

theorem editAll_append (l l' : List Edit) (m : Mailbox) :
    m.editAll (l ++ l') = (m.editAll l).editAll l' := List.foldl_append

/-! ## Keeping messages in the journal changes nothing else -/

section Note

variable (uid : Uid) (m : Mailbox)

theorem note_eq : m.note uid = { m with journal? := (m.note uid).journal? } := by
  unfold note
  split
  · rfl
  · split <;> rfl

@[simp] theorem note_name : (m.note uid).name = m.name := by rw [note_eq]

@[simp] theorem note_uids : (m.note uid).uids = m.uids := by rw [note_eq]

@[simp] theorem note_store : (m.note uid).store = m.store := by rw [note_eq]

@[simp] theorem note_modseq : (m.note uid).modseq = m.modseq := by rw [note_eq]

@[simp] theorem note_cursor : (m.note uid).cursor = m.cursor := by rw [note_eq]

@[simp] theorem note_pending : (m.note uid).pending = m.pending := by rw [note_eq]

@[simp] theorem note_unsaved : (m.note uid).unsaved = m.unsaved := by rw [note_eq]

@[simp] theorem note_summary? : (m.note uid).summary? = m.summary? := by rw [note_eq]

theorem noteRemoved_eq (removed : List Message) :
    m.noteRemoved removed = { m with journal? := (m.noteRemoved removed).journal? } := by
  unfold noteRemoved
  split
  · rfl
  · split <;> rfl

theorem noteStore_eq : m.noteStore = { m with journal? := m.noteStore.journal? } := by
  unfold noteStore
  split
  · rfl
  · split <;> rfl

end Note

/-! ## The steps that edits are made of -/

/-- A step of looking after the messages that are there. -/
inductive Upkeep (m : Mailbox) : Mailbox → Prop
  | note (uid : Uid) : Upkeep m (m.note uid)
  | mark (cursor : Option String) (pending : OrderedSet Uid) (unsaved : Unsaved) :
      Upkeep m { m with cursor, pending, unsaved }
  | forget : Upkeep m { m with summary? := none }
  | commit : Upkeep m m.commit
  | raise (uid : Uid) : Upkeep m { m with uids := m.uids.raiseAbove uid, summary? := none }
  /-- The message changes, but not in what counts as a change. -/
  | touch {old r : Message} (found : m.store.get? r.uid = some old)
      (name : r.remoteId = old.remoteId) (modseq : r.modseq = old.modseq)
      (flags : Flags.withoutRecent r.flags = Flags.withoutRecent old.flags)
      (figures : r.flags = old.flags ∨ m.summary? = none) :
      Upkeep m { m.note r.uid with store := m.store.update r }
  | change {old r : Message} (found : m.store.get? r.uid = some old)
      (name : r.remoteId = old.remoteId) (modseq : r.modseq = m.modseq.next) :
      Upkeep m (m.change r)
  | remove (p : Message → Bool) (pending : OrderedSet Uid) (unsaved : Unsaved) :
      Upkeep m (advance
        { noteRemoved (m.store.removeWhere p).1 { m with store := (m.store.removeWhere p).2 } with
          pending, unsaved })

/-- The step in which a message is given a UID, and is added unless the UID is not above all
others. -/
inductive Admission (m : Mailbox) : Mailbox → Prop
  | spend {uid : Uid} {uids : UidSpace} (issued : m.uids.issue? = some (uid, uids)) :
      Admission m ((advance { m with uids }).note uid)
  | enter {r : Message} {uids : UidSpace} {store : MessageStore}
      (issued : m.uids.issue? = some (r.uid, uids)) (modseq : r.modseq = m.modseq.next)
      (added : m.store.append? r = some store) :
      Admission m (markUnsaved r.uid { (advance { m with uids }).note r.uid with store })

open Relation

theorem Upkeep.markUnsaved (uid : Uid) (m : Mailbox) : Upkeep m (m.markUnsaved uid) :=
  .mark m.cursor m.pending (m.unsaved.mark uid)

theorem upkeep_change {m : Mailbox} {old r : Message} (found : m.store.get? r.uid = some old)
    (name : r.remoteId = old.remoteId) (modseq : r.modseq = m.modseq.next) :
    ReflTransGen Upkeep m ((m.change r).markUnsaved r.uid) :=
  (ReflTransGen.single (.change found name modseq)).tail (.markUnsaved ..)

theorem uid_of_found {s : MessageStore} {uid : Uid} {r : Message} (h : s.get? uid = some r) :
    r.uid = uid := by
  obtain ⟨i, hi, hr⟩ := Option.bind_eq_some_iff.1 h
  have hu := MessageStore.uid_of_position? hi
  rw [hr] at hu
  exact Option.some.inj hu

theorem receive_steps (content : MessageContent) (m : Mailbox) :
    ReflTransGen Upkeep m (m.receive content).2 ∨ Admission m (m.receive content).2 := by
  unfold receive
  split
  · left
    split
    · exact .refl
    · next r found =>
      split
      · have hu := uid_of_found found
        rw [← hu] at found ⊢
        exact upkeep_change found rfl rfl
      · exact .refl
  · split
    · exact .inl .refl
    · next uid uids issued =>
      right
      dsimp only
      split
      · exact .spend issued
      · next added =>
        rw [note_store, note_modseq] at added
        exact .enter (r := .arrive content uid m.modseq.next) issued rfl added

theorem setFlags_steps (now : Instant) (uid : Uid) (delta : Flags) (mode : StoreMode)
    (m : Mailbox) : ReflTransGen Upkeep m (m.setFlags now uid delta mode).2 := by
  unfold setFlags
  split
  · exact .refl
  · next r found =>
    dsimp only
    split
    · exact .refl
    · have hu := uid_of_found found
      rw [← hu] at found ⊢
      exact upkeep_change found rfl rfl

theorem mergeFlags_steps (id : RemoteId) (flags : Flags) (taken : Instant) (m : Mailbox) :
    ReflTransGen Upkeep m (m.mergeFlags id flags taken).2 := by
  unfold mergeFlags
  split
  · exact .refl
  · split
    · exact .refl
    · next r found =>
      have hu := uid_of_found found
      rw [← hu] at found ⊢
      dsimp only
      generalize (if r.isUndecryptable = true then _ else _) = merged
      split
      · exact upkeep_change found rfl rfl
      · split
        · rw [note_store]
          exact .single (.touch
            (r := { r with localChanges := r.localChanges.forgetBefore taken })
            found rfl rfl rfl (.inl rfl))
        · exact .refl

theorem markRemoved_steps (id : RemoteId) (m : Mailbox) :
    ReflTransGen Upkeep m (m.markRemoved id).2 := by
  unfold markRemoved
  split
  · exact .refl
  · split
    · exact .refl
    · next r found =>
      have hu := uid_of_found found
      rw [← hu] at found ⊢
      have hmark : ReflTransGen Upkeep m
          (if Flags.isDeleted r.flags then m
          else m.change { r with
            flags := OrderedSet.insert .deleted r.flags, modseq := m.modseq.next }) := by
        split
        · exact .refl
        · exact .single (.change found rfl rfl)
      dsimp only
      generalize (if Flags.isDeleted r.flags then m else _) = m' at hmark ⊢
      split
      · exact hmark
      · exact (hmark.tail (.mark _ _ _)).tail (.markUnsaved ..)

theorem settle_foldl (removed : List Message) (m : Mailbox) :
    (removed.map (·.uid)).foldl
        (fun m uid => { m with pending := m.pending.erase uid, unsaved := m.unsaved.drop uid }) m =
      { m with
        pending := removed.foldl (fun pending r => pending.erase r.uid) m.pending
        unsaved := removed.foldl (fun u r => u.drop r.uid) m.unsaved } := by
  induction removed generalizing m with
  | nil => rfl
  | cons r rest ih =>
      simp only [List.map_cons, List.foldl_cons]
      exact ih _

theorem mem_foldl_erase {removed : List Message} {pending : OrderedSet Uid} {uid : Uid} :
    uid ∈ removed.foldl (fun pending r => pending.erase r.uid) pending ↔
      uid ∈ pending ∧ ∀ r ∈ removed, r.uid ≠ uid := by
  induction removed generalizing pending with
  | nil => simp
  | cons r rest ih =>
      simp only [List.foldl_cons, ih, OrderedSet.mem_erase, List.forall_mem_cons, and_assoc]
      exact and_congr_right fun _ => and_congr_left fun _ => ne_comm

theorem settleRemoval_steps (p : Message → Bool) (m : Mailbox) :
    ReflTransGen Upkeep m (settleRemoval (m.store.removeWhere p).1
      { m with store := (m.store.removeWhere p).2 }).2 := by
  unfold settleRemoval
  split
  · next hempty =>
    rw [MessageStore.removeWhere_of_isEmpty hempty]
  · dsimp only
    rw [settle_foldl]
    exact .single (.remove p _ _)

/-- Forgetting messages touches nothing but what is noted of them. -/
theorem settleRemoval_spec (removed : List Message) (m : Mailbox) :
    (settleRemoval removed m).1 = removed.map (·.uid) ∧
      (settleRemoval removed m).2.store = m.store ∧
      (settleRemoval removed m).2.uids = m.uids ∧
      ∀ uid ∈ (settleRemoval removed m).2.pending, uid ∈ m.pending := by
  unfold settleRemoval
  split
  · next hempty =>
    rw [List.isEmpty_iff.1 hempty]
    exact ⟨rfl, rfl, rfl, fun _ h => h⟩
  · dsimp only [advance]
    rw [settle_foldl, noteRemoved_eq]
    exact ⟨rfl, rfl, rfl, fun uid huid => (mem_foldl_erase.1 huid).1⟩

theorem flushed_spec (m : Mailbox) : m.flushPending.2.uids = m.uids ∧
    m.flushPending.2.pending.isEmpty = true ∧
      ∀ r ∈ m.flushPending.2.store.messages, r ∈ m.store.messages := by
  unfold flushPending
  split
  · next hempty => exact ⟨rfl, hempty, fun _ hr => hr⟩
  · dsimp only
    obtain ⟨_, hstore, huids, hpending⟩ := settleRemoval_spec
      (m.store.removeWhere fun r => decide (r.uid ∈ m.pending)).1
      { m with
        store := (m.store.removeWhere fun r => decide (r.uid ∈ m.pending)).2, pending := ∅ }
    refine ⟨huids, ?_, fun r hr => ?_⟩
    · rw [OrderedSet.isEmpty_iff]
      exact OrderedSet.ext fun uid => ⟨fun h => hpending uid h, fun h => by cases h⟩
    · rw [hstore] at hr
      exact (MessageStore.mem_removeWhere.1 hr).1

theorem mem_of_mem_expunge {m : Mailbox} {r : Message} (hr : r ∈ m.expunge.2.store.messages) :
    r ∈ m.store.messages := by
  unfold expunge at hr
  dsimp only at hr
  rw [(settleRemoval_spec ..).2.1] at hr
  exact (MessageStore.mem_removeWhere.1 hr).1

theorem expunge_steps (m : Mailbox) : ReflTransGen Upkeep m m.expunge.2 :=
  settleRemoval_steps (fun r => Flags.isDeleted r.flags) m

theorem flushPending_steps (m : Mailbox) : ReflTransGen Upkeep m m.flushPending.2 := by
  unfold flushPending
  split
  · exact .refl
  · exact (ReflTransGen.single (.mark m.cursor ∅ m.unsaved)).trans
      (settleRemoval_steps (fun r => decide (r.uid ∈ m.pending)) { m with pending := ∅ })

theorem clearRecentOf_forget (m : Mailbox) (uid : Uid) :
    clearRecentOf { m with summary? := none } uid =
      { clearRecentOf m uid with summary? := none } := by
  have hnote : note uid { m with summary? := none } = { m.note uid with summary? := none } := by
    obtain ⟨name, uids, store, modseq, cursor, pending, summary?, unsaved, journal?⟩ := m
    cases journal? with
    | none => rfl
    | some j =>
        unfold note
        dsimp only
        split <;> rfl
  unfold clearRecentOf
  rw [hnote]
  dsimp only
  split <;> rfl

theorem clearRecentOf_steps {m : Mailbox} (h : m.summary? = none) (uid : Uid) :
    ReflTransGen Upkeep m (clearRecentOf m uid) := by
  unfold clearRecentOf
  dsimp only
  rw [note_store]
  split
  · exact .single (.note uid)
  · next r found =>
    have hu := uid_of_found found
    rw [← hu] at found ⊢
    have htouch := Upkeep.touch (r := { r with flags := Flags.withoutRecent r.flags }) found rfl
      rfl (OrderedSet.erase_erase ..) (.inr h)
    exact (ReflTransGen.single htouch).tail (.markUnsaved ..)

theorem clearRecent_steps (p : Uid → Bool) (m : Mailbox) :
    ReflTransGen Upkeep m (m.clearRecent p).2 := by
  have hall (uids : List Uid) (m : Mailbox) : ReflTransGen Upkeep { m with summary? := none }
      { uids.foldl clearRecentOf m with summary? := none } := by
    induction uids generalizing m with
    | nil => exact .refl
    | cons uid rest ih =>
        rw [List.foldl_cons]
        refine ReflTransGen.trans ?_ (ih _)
        rw [← clearRecentOf_forget]
        exact clearRecentOf_steps rfl uid
  unfold clearRecent
  dsimp only
  split
  · next hempty =>
    rw [List.isEmpty_iff.1 hempty]
    exact .refl
  · exact (ReflTransGen.single .forget).trans (hall _ m)

theorem raiseUidNext_steps (m : Mailbox) : ReflTransGen Upkeep m m.raiseUidNext := by
  unfold raiseUidNext
  split
  · exact .refl
  · next greatest _ =>
    exact (ReflTransGen.single (.raise greatest)).tail
      (.mark m.cursor m.pending { m.unsaved with mailbox := true })

theorem setCursor_steps (cursor : Option String) (m : Mailbox) :
    ReflTransGen Upkeep m (m.setCursor cursor) := by
  unfold setCursor
  split
  · exact .refl
  · exact .single (.mark cursor m.pending { m.unsaved with mailbox := true })

theorem upkeep_apply (e : Edit) (m : Mailbox) (hrenews : e.renews = false)
    (htakes : e.takesIn = false) : ReflTransGen Upkeep m (e.apply m) := by
  cases e with
  | receive content => cases htakes
  | setFlags now uid delta mode => exact setFlags_steps now uid delta mode m
  | mergeFlags id flags taken => exact mergeFlags_steps id flags taken m
  | markRemoved id => exact markRemoved_steps id m
  | expunge => exact expunge_steps m
  | flushPending => exact flushPending_steps m
  | clearRecent p => exact clearRecent_steps p m
  | raiseUidNext => exact raiseUidNext_steps m
  | commit => exact .single .commit
  | invalidate now => cases hrenews
  | setCursor cursor => exact setCursor_steps cursor m
  | takeUnsaved => exact .single (.mark m.cursor m.pending {})

/-- An edit begins a new epoch, admits a message, or is upkeep and nothing else. -/
theorem apply_steps (e : Edit) (m : Mailbox) (h : e.renews = false) :
    ReflTransGen Upkeep m (e.apply m) ∨ Admission m (e.apply m) := by
  cases htakes : e.takesIn with
  | false => exact .inl (upkeep_apply e m h htakes)
  | true =>
      cases e with
      | receive content => exact receive_steps content m
      | _ => cases htakes

section Run

variable {P : Mailbox → Prop} (upkeep : ∀ {m m' : Mailbox}, P m → Upkeep m m' → P m')
  (admission : ∀ {m m' : Mailbox}, P m → Admission m m' → P m')

include upkeep admission

theorem apply_preserves {e : Edit} {m : Mailbox} (he : e.renews = false) (h : P m) :
    P (e.apply m) := by
  rcases apply_steps e m he with hsteps | hadmission
  · generalize e.apply m = m' at hsteps
    induction hsteps with
    | refl => exact h
    | tail _ hstep ih => exact upkeep ih hstep
  · exact admission h hadmission

theorem editAll_within {edits : List Edit} {m : Mailbox} (hno : ∀ e ∈ edits, e.renews = false)
    (h : P m) : P (m.editAll edits) := by
  induction edits generalizing m with
  | nil => exact h
  | cons e rest ih =>
      obtain ⟨he, hrest⟩ := List.forall_mem_cons.1 hno
      exact ih hrest (apply_preserves upkeep admission he h)

/-- What every step preserves holds after any edits. -/
theorem editAll_preserves (renewal : ∀ {m : Mailbox} (now : Instant), P m → P (m.invalidate now).2)
    (edits : List Edit) {m : Mailbox} (h : P m) : P (m.editAll edits) := by
  induction edits generalizing m with
  | nil => exact h
  | cons e rest ih =>
      refine ih ?_
      cases he : e.renews with
      | false => exact apply_preserves upkeep admission he h
      | true =>
          cases e with
          | invalidate now => exact renewal now h
          | _ => cases he

end Run

end Mailbox

/-! ## Operations are edits -/

/-- The edit that an operation makes at a time, if it makes one. -/
def Operation.edit? (now : Instant) : Operation → Option Edit
  | receive content => some (.receive content)
  | setFlags uid delta mode => some (.setFlags now uid delta mode)
  | mergeFlags id flags taken => some (.mergeFlags id flags taken)
  | markRemoved id => some (.markRemoved id)
  | expunge => some .expunge
  | flushPending => some .flushPending
  | clearRecentAbove n => some (.clearRecent fun uid => decide (n < uid.val))
  | raiseUidNext => some .raiseUidNext
  | commit => some .commit
  | invalidate => some (.invalidate now)
  | setCursor cursor => some (.setCursor cursor)
  | takeUnsaved => some .takeUnsaved
  | checkIntegrity | get _ | find _ | takeSnapshot | inspect | setClock _ | abandon _ => none

theorem Operation.run_mailbox (op : Operation) (t : Timed) :
    (op.run t).2.mailbox = t.mailbox.editAll (op.edit? t.now).toList := by
  cases op <;> rfl

/-- A run of operations up to the first that fails makes some edits, each for one of them. -/
theorem Operation.runUntilError_mailbox (ops : List Operation) (t : Timed) :
    ∃ edits, (runUntilError ops t).2.2.mailbox = t.mailbox.editAll edits ∧
      ∀ e ∈ edits, ∃ op ∈ ops, ∃ now, op.edit? now = some e := by
  induction ops generalizing t with
  | nil => exact ⟨[], rfl, nofun⟩
  | cons op rest ih =>
      have hop := op.run_mailbox t
      have hmade : ∀ e ∈ (op.edit? t.now).toList, ∃ op' ∈ op :: rest, ∃ now,
          op'.edit? now = some e := fun e he =>
        ⟨op, List.mem_cons_self, t.now, Option.mem_toList.1 he⟩
      unfold runUntilError
      split
      · next t' hrun =>
        rw [hrun] at hop
        exact ⟨_, hop, hmade⟩
      · next reply t' hrun =>
        rw [hrun] at hop
        obtain ⟨edits, hedits, hrest⟩ := ih t'
        refine ⟨(op.edit? t.now).toList ++ edits, ?_, fun e he => ?_⟩
        · rw [Mailbox.editAll_append, ← hop]
          exact hedits
        · rcases List.mem_append.1 he with he | he
          · exact hmade e he
          · obtain ⟨op', hop', hedit⟩ := hrest e he
            exact ⟨op', List.mem_cons_of_mem op hop', hedit⟩

end MailBridge

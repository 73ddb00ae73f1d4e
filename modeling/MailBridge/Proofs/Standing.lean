import MailBridge.Proofs.History

/-! # What holds between changes

Between changes a mailbox that began well has sound UIDs, figures that are right, and no message
with a modification sequence above its own.
-/

namespace MailBridge

namespace Mailbox

/-- The figures of the mailbox are right, if they are known. -/
def Figured (m : Mailbox) : Prop :=
  ∀ figures, m.summary? = some figures → figures = .compute m.uids m.store m.modseq

/-- The figures of messages depend on nothing but their flags. -/
theorem compute_congr {store store' : MessageStore}
    (h : store'.messages.map (·.flags) = store.messages.map (·.flags)) (uids : UidSpace)
    (modseq : ModSeq) : Summary.compute uids store' modseq = .compute uids store modseq := by
  have hlength := congrArg List.length h
  simp only [List.length_map] at hlength
  have hcount (p : Flags → Bool) : store'.messages.countP (fun m => p m.flags) =
      store.messages.countP fun m => p m.flags := by
    have hmap := congrArg (List.countP p) h
    rwa [List.countP_map, List.countP_map] at hmap
  have hfind (p : Flags → Bool) : store'.messages.findIdx? (fun m => p m.flags) =
      store.messages.findIdx? fun m => p m.flags := by
    have hmap := congrArg (List.findIdx? p) h
    rwa [List.findIdx?_map, List.findIdx?_map] at hmap
  unfold Summary.compute MessageStore.size
  rw [hlength, hcount Flags.isRecent, hcount fun flags => !Flags.isSeen flags,
    hfind fun flags => !Flags.isSeen flags]

theorem Figured.of_none {m : Mailbox} (h : m.summary? = none) : m.Figured := by
  intro figures hfigures
  rw [h] at hfigures
  cases hfigures

theorem Figured.of_eq {m m' : Mailbox} (h : m.Figured)
    (hflags : m'.store.messages.map (·.flags) = m.store.messages.map (·.flags))
    (huids : m'.uids = m.uids) (hmodseq : m'.modseq = m.modseq)
    (hsummary : m'.summary? = m.summary?) : m'.Figured := by
  intro figures hfigures
  rw [huids, hmodseq, compute_congr hflags]
  exact h figures (hsummary ▸ hfigures)

theorem figured_commit {m : Mailbox} (h : m.Figured) : m.commit.Figured := by
  unfold commit
  split
  · exact h
  · intro figures hfigures
    cases hfigures
    rfl

theorem summary_of_figured {m : Mailbox} (h : m.Figured) :
    m.summary = .compute m.uids m.store m.modseq := by
  unfold summary
  cases hsummary : m.summary? with
  | none => rfl
  | some figures => rw [Option.getD_some, h figures hsummary]

theorem Upkeep.figured {m m' : Mailbox} (hd : m.store.Distinct) (h : m.Figured)
    (s : Upkeep m m') : m'.Figured := by
  cases s with
  | note uid => exact h.of_eq (by simp) (by simp) (by simp) (by simp)
  | mark => exact h.of_eq rfl rfl rfl rfl
  | forget => exact .of_none rfl
  | commit => exact figured_commit h
  | raise => exact .of_none rfl
  | @touch old r found name modseq flags figures =>
      rcases figures with hsame | hnone
      · refine h.of_eq ?_ (note_uids ..) (note_modseq ..) (note_summary? ..)
        rw [MessageStore.messages_update hd, List.map_map]
        refine List.map_congr_left fun x hx => ?_
        by_cases hxr : x.uid = r.uid
        · have hold : x = old := by
            have hget := MessageStore.get?_of_mem hd hx
            rw [hxr, found] at hget
            exact (Option.some.inj hget).symm
          rw [Function.comp_apply, if_pos hxr, hold]
          exact hsame
        · simp [hxr]
      · exact .of_none (by rw [note_summary?, hnone])
  | change => exact .of_none rfl
  | remove => exact .of_none rfl

theorem Admission.figured {m m' : Mailbox} (s : Admission m m') : m'.Figured := by
  cases s with
  | spend => exact .of_none (note_summary? ..)
  | enter => exact .of_none (note_summary? ..)

/-- What can be relied on between changes. If it is relied on that messages have issued UIDs, all
UIDs are below the next one to issue; if modification sequences are counted on, no message has one
above that of the mailbox. -/
structure Sound (issued counted : Prop) (m : Mailbox) : Prop where
  distinct : m.store.Distinct
  figured : m.Figured
  below : issued → ∀ r ∈ m.store.messages, r.uid.val < m.uids.bound
  stamped : counted → m.Stamped

variable {issued counted : Prop} {m m' : Mailbox}

theorem Upkeep.sound (h : m.Sound issued counted) (s : Upkeep m m') :
    m'.Sound issued counted where
  distinct := s.distinct h.distinct
  figured := s.figured h.distinct h.figured
  below hissued := (s.orderly ⟨h.distinct, h.below hissued⟩).below
  stamped hcounted := s.stamped h.distinct (h.stamped hcounted)

theorem Admission.sound (h : m.Sound issued counted) (s : Admission m m') :
    m'.Sound issued counted where
  distinct := s.distinct h.distinct
  figured := s.figured
  below hissued := (s.orderly ⟨h.distinct, h.below hissued⟩).below
  stamped hcounted := s.stamped (h.stamped hcounted)

theorem sound_invalidate (now : Instant) (m : Mailbox) :
    (m.invalidate now).2.Sound issued counted where
  distinct := (orderly_invalidate now m).distinct
  figured := .of_none (invalidate_eq now m).2.2.2
  below _ := (orderly_invalidate now m).below
  stamped _ := stamped_invalidate now m

theorem Sound.editAll (h : m.Sound issued counted) (edits : List Edit) :
    (m.editAll edits).Sound issued counted :=
  editAll_preserves (P := Sound issued counted) (fun h s => s.sound h) (fun h s => s.sound h)
    (fun now _ => sound_invalidate now _) edits h

theorem Sound.of_eq (h : m.Sound issued counted)
    (hmessages : m'.store.messages = m.store.messages) (huids : m'.uids = m.uids)
    (hmodseq : m'.modseq = m.modseq) (hsummary : m'.summary? = m.summary?) :
    m'.Sound issued counted where
  distinct := by
    rw [MessageStore.Distinct, hmessages]
    exact h.distinct
  figured := h.figured.of_eq (by rw [hmessages]) huids hmodseq hsummary
  below hissued := by
    rw [hmessages, huids]
    exact h.below hissued
  stamped hcounted := by
    unfold Stamped
    rw [hmessages, hmodseq]
    exact h.stamped hcounted

theorem Sound.keepChanges (h : m.Sound issued counted) : m.keepChanges.Sound issued counted :=
  h.of_eq rfl rfl rfl rfl

theorem Sound.startJournal (h : m.Sound issued counted) : m.startJournal.Sound issued counted :=
  h.of_eq rfl rfl rfl rfl

/-- How the mailbox of a run begins: as a new one, or as one that was saved. -/
inductive Initial : Mailbox → Prop
  | create (name : String) (now : Instant) : Initial (create name now)
  | ofSaved (name : String) (uids : UidSpace) (store : MessageStore) (modseq : ModSeq)
      (cursor : Option String) (pending : OrderedSet Uid) :
      Initial (ofSaved name uids store modseq cursor pending)

theorem Initial.figured (h : m.Initial) : m.Figured := by
  cases h with
  | create => exact figured_commit (.of_none rfl)
  | ofSaved => exact figured_commit (.of_none rfl)

end Mailbox

namespace SharedMailbox

open Relation

variable {issued counted : Prop} {s s' : SharedMailbox}

theorem sound_perform (h : s.mailbox.Sound issued counted) (c : Change) :
    (s.perform c).mailbox.Sound issued counted := by
  rcases perform_restores_or_keeps h.distinct c with ⟨store, heq, hmessages⟩ | ⟨cache?, heq⟩
  · rw [heq]
    exact h.of_eq hmessages rfl rfl rfl
  · rw [heq]
    exact (h.startJournal.editAll _).keepChanges

/-- A step by which a shared mailbox goes on: a change, or whatever becomes of the cache and of the
number of sessions. -/
inductive Step (s : SharedMailbox) : SharedMailbox → Prop
  | change (c : Change) : Step s (s.perform c)
  | aside (cache? : Option Cache) (sessions : Nat) : Step s { s with cache?, sessions }

/-- The shared mailbox as it has become by such steps. -/
abbrev Leads (s s' : SharedMailbox) : Prop := ReflTransGen Step s s'

theorem sound_leads (h : s.mailbox.Sound issued counted) (hleads : Leads s s') :
    s'.mailbox.Sound issued counted ∧ s.mailbox.Later s'.mailbox := by
  induction hleads with
  | refl => exact ⟨h, .refl _⟩
  | tail _ hstep ih =>
      cases hstep with
      | change c => exact ⟨sound_perform ih.1 c, ih.2.trans (later_perform ih.1.distinct c)⟩
      | aside => exact ih

theorem leads_mutate {α : Type} {f : Mailbox → Except MailboxError α × Mailbox}
    (hf : ∀ m, ∃ edits, (f m).2 = m.editAll edits) (s : SharedMailbox) :
    Leads s (s.mutate f).2 := by
  obtain ⟨edits, hedits⟩ := hf s.mailbox.startJournal
  obtain ⟨c, _, hc⟩ := mutate_eq_perform hedits
  rw [hc]
  exact .single (.change c)

end SharedMailbox

end MailBridge

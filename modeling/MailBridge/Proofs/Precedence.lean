import MailBridge.Proofs.Mirror
import MailBridge.Proofs.Stamps

/-! # Entries are no later than their messages

A new epoch voids the UIDs in view, and may issue them again. Modification sequences go on through
all epochs, so they tell what a view has missed even then. As long as changes are counted, no entry
of a view is later than a message with its UID, and it shows the flags of the message unless the
message is later, whatever has happened.
-/

namespace MailBridge

open SharedMailbox Snapshot

/-! ## Any changes -/

namespace Mailbox

variable {m m' : Mailbox} {s : Snapshot}

/-- A new epoch drops all messages, and counts as a change. -/
theorem discloses_invalidate (now : Instant) (m : Mailbox) :
    m.Discloses (m.invalidate now).2 := by
  obtain ⟨_, hstore, hmodseq, _⟩ := invalidate_eq now m
  constructor
  · rw [hmodseq]
    exact m.modseq.le_next
  · intro r' hr'
    rw [hstore] at hr'
    cases hr'
  · intro r _
    rw [hmodseq]
    exact .inr ModSeq.lt_next

theorem discloses_anyEdit (hd : m.store.Distinct) (e : Edit) : m.Discloses (e.apply m) := by
  cases hrenews : e.renews with
  | false => exact discloses_apply hd hrenews
  | true =>
      cases e with
      | invalidate now => exact discloses_invalidate now m
      | _ => cases hrenews

theorem discloses_anyEdits (hd : m.store.Distinct) (edits : List Edit) :
    m.Discloses (m.editAll edits) := by
  induction edits generalizing m with
  | nil => exact .refl m
  | cons e rest ih => exact (discloses_anyEdit hd e).trans (ih (distinct_editAll hd [e]))

end Mailbox

namespace SharedMailbox

variable {m m' : SharedMailbox}

theorem discloses_anyChange (hd : m.mailbox.store.Distinct) (c : Change) :
    m.mailbox.Discloses (m.perform c).mailbox := by
  rcases perform_restores_or_keeps hd c with ⟨store, heq, hmessages⟩ | ⟨cache?, heq⟩
  · rw [heq]
    exact .of_eq hmessages (Nat.le_refl _)
  · have hedits := Mailbox.discloses_anyEdits (m := m.mailbox.startJournal) hd
      (c.edits ++ [.commit, .takeUnsaved])
    rw [heq]
    exact ⟨hedits.modseq, hedits.stamped, hedits.gone⟩

theorem discloses_leads (hd : m.mailbox.store.Distinct) (h : Leads m m') :
    m.mailbox.Discloses m'.mailbox ∧ m'.mailbox.store.Distinct := by
  induction h with
  | refl => exact ⟨.refl _, hd⟩
  | tail _ hstep ih =>
      obtain ⟨hdiscloses, hd'⟩ := ih
      cases hstep with
      | change c => exact ⟨hdiscloses.trans (discloses_anyChange hd' c), distinct_perform hd' c⟩
      | aside => exact ⟨hdiscloses, hd'⟩

end SharedMailbox

/-! ## Views -/

namespace Snapshot

variable {s : Snapshot} {m m' : Mailbox}

/-- As long as changes are counted, the entries are no later than the messages. -/
def Dated (s : Snapshot) (m : Mailbox) : Prop := m.modseq.val < maxLong → s.Reflects m

theorem Dated.discloses (h : s.Dated m) (hd : m.Discloses m') : s.Dated m' := by
  intro hcounting
  have hreflects := h (Nat.lt_of_le_of_lt hd.modseq hcounting)
  refine ⟨fun e he => Nat.le_trans (hreflects.stamped e he) hd.modseq, fun e he r' hr' hu => ?_⟩
  rcases hd.stamped r' hr' with ⟨r, hr, hstands⟩ | hlater
  · have hprecedes := hreflects.precedes e he r hr (hstands.uid.symm.trans hu)
    have hflags : Flags.withoutRecent r'.flags = Flags.withoutRecent r.flags :=
      congrArg MessageContent.flags hstands.shown
    constructor
    · rw [hstands.modseq]
      exact hprecedes.modseq
    · intro hle
      rw [hflags]
      exact hprecedes.flags (hstands.modseq ▸ hle)
  · have hstamped := hreflects.stamped e he
    have hstamp := hlater hcounting
    constructor
    · omega
    · omega

theorem Dated.removeWhere (h : s.Dated m) (gone : Uid → Bool) : (s.removeWhere gone).2.Dated m := by
  intro hcounting
  have hreflects := h hcounting
  exact ⟨fun e he => hreflects.stamped e (List.mem_filter.1 he).1,
    fun e he => hreflects.precedes e (List.mem_filter.1 he).1⟩

end Snapshot

namespace Mailbox

variable {m : Mailbox} {s : Snapshot}

theorem dated_snapshot (hd : m.store.Distinct) (hstamped : m.Stamped) : m.snapshot.Dated m := by
  intro _
  constructor
  · intro e he
    obtain ⟨r, hr, rfl⟩ := List.mem_map.1 he
    exact hstamped r hr
  · intro e he r' hr' hu
    obtain ⟨r, hr, rfl⟩ := List.mem_map.1 he
    obtain rfl := hd.eq_of_uid_eq hr' hr hu
    exact ⟨Nat.le_refl _, fun _ => rfl⟩

theorem exists_message_caughtUp (hd : m.store.Distinct) {e : SnapshotEntry}
    (he : e ∈ m.caughtUp s) : ∃ r ∈ m.store.messages, r.uid = e.uid := by
  rcases mem_caughtUp hd he with ⟨x, _, r, hr, hu, rfl⟩ | ⟨r, hr, rfl⟩
  · rw [refresh_uid]
    exact ⟨r, hr, hu⟩
  · exact ⟨r, hr, rfl⟩

/-- A view that catches up takes the stamps of the messages over. -/
theorem dated_caughtUp (hd : m.store.Distinct) (hstamped : m.Stamped)
    (hasc : Ascending SnapshotEntry.uid s.entries) (h : s.Dated m) :
    (s.catchUp (m.changesSince s)).2.Dated m := by
  intro hcounting
  have hagrees := fun e he r hr hu => agrees_caughtUp (s := s) hd (h hcounting).precedes
    (e := e) he (r := r) hr hu
  rw [(catchUp_spec hasc hd).1]
  constructor
  · intro e he
    obtain ⟨r, hr, hu⟩ := exists_message_caughtUp hd he
    rw [(hagrees e he r hr hu).1]
    exact hstamped r hr
  · intro e he r hr hu
    obtain ⟨hmodseq, hflags⟩ := hagrees e he r hr hu
    exact ⟨Nat.le_of_eq (by rw [hmodseq]), fun _ => hflags.symm⟩

end Mailbox

/-! ## Requests -/

theorem Request.quiet {r : Request} (hexpunge : r ≠ expunge) (hpoll : r ≠ poll)
    (m : SharedMailbox) (s : Selection) : s.Quiet (r.serve m s) := by
  cases r with
  | fetch set => exact Selection.quiet_fetch set
  | search key => exact Selection.quiet_search key
  | store now set delta mode => exact Selection.quiet_store now set delta mode
  | expunge => exact absurd rfl hexpunge
  | poll => exact absurd rfl hpoll
  | close => exact Selection.quiet_close
  | unselect => exact Selection.quiet_leave _ _

namespace Selection

variable {issued : Prop} {m m' : SharedMailbox} {s s' : Selection}

theorem dated_expunge (hd : m.mailbox.store.Distinct) (h : s.snapshot.Dated m.mailbox)
    (hs' : (expunge m s).selection? = some s') :
    s'.snapshot.Dated (expunge m s).mailbox.mailbox := by
  rcases expunge_cases m s with
    ⟨e, m', hleads, heq | heq⟩ | ⟨removed, m', hleads, _, _, heq⟩
  · rw [heq] at hs' ⊢
    cases hs'
    exact h.discloses (discloses_leads hd hleads.leads).1
  · rw [heq] at hs'
    cases hs'
  · rw [heq] at hs' ⊢
    cases hs'
    exact (h.discloses (discloses_leads hd hleads.leads).1).removeWhere
      fun uid => decide (uid ∈ removed)

theorem LooksAt.discloses {b : Mailbox} {changes : Bool} (hlooks : s.LooksAt m changes b m')
    (hd : m.mailbox.store.Distinct) :
    m.mailbox.Discloses b ∧ b.Discloses m'.mailbox := by
  cases hlooks with
  | still => exact ⟨.refl _, .refl _⟩
  | changed leads left =>
      have hbegin : m.mailbox.Discloses m.mailbox.startJournal := .of_eq rfl (Nat.le_refl _)
      have hd' : m.mailbox.startJournal.store.Distinct := hd
      refine ⟨hbegin.trans (Mailbox.discloses_anyEdits hd' [.flushPending]), ?_⟩
      have hflushed := Mailbox.discloses_anyEdits
        (Mailbox.distinct_editAll hd' [.flushPending]) (s.clearing ++ [.commit, .takeUnsaved])
      rw [left, ← Mailbox.editAll_append]
      exact ⟨hflushed.modseq, hflushed.stamped, hflushed.gone⟩

theorem dated_poll (hm : m.mailbox.Sound issued True)
    (hasc : Ascending SnapshotEntry.uid s.snapshot.entries) (h : s.snapshot.Dated m.mailbox)
    (hs' : (s.poll m).selection? = some s') :
    s'.snapshot.Dated (s.poll m).mailbox.mailbox := by
  rcases poll_cases m s with ⟨e, m', hleads, _, heq⟩ | ⟨b, m', hlooks, heq⟩
  · rw [heq] at hs' ⊢
    cases hs'
    exact h.discloses (discloses_leads hm.distinct hleads).1
  · rw [heq] at hs' ⊢
    by_cases hcurrent : b.uids.validity = s.snapshot.validity
    · rw [Selection.report, if_pos hcurrent] at hs' ⊢
      cases hs'
      have hb := (hlooks.sound hm).1
      obtain ⟨hbefore, hafter⟩ := hlooks.discloses hm.distinct
      exact (Mailbox.dated_caughtUp hb.distinct (hb.stamped trivial) hasc
        (h.discloses hbefore)).discloses hafter
    · rw [Selection.report, if_neg hcurrent] at hs'
      cases hs'

end Selection

theorem Request.dated {issued : Prop} {m : SharedMailbox} {s s' : Selection}
    (hm : m.mailbox.Sound issued True) (hasc : Ascending SnapshotEntry.uid s.snapshot.entries)
    (h : s.snapshot.Dated m.mailbox) (r : Request) (hs' : (r.serve m s).selection? = some s') :
    s'.snapshot.Dated (r.serve m s).mailbox.mailbox := by
  by_cases hexpunge : r = expunge
  · subst hexpunge
    exact Selection.dated_expunge hm.distinct h hs'
  · by_cases hpoll : r = poll
    · subst hpoll
      exact Selection.dated_poll hm hasc h hs'
    · obtain rfl := r.quiet hexpunge hpoll m s s' hs'
      have hattends : (r.serve m s').Attends (fun _ => true) False False m s' := r.attends m s'
      exact h.discloses (discloses_leads hm.distinct hattends.leads.leads).1

/-! ## Whatever happens -/

namespace Attended

variable {issued : Prop} {w : Attended}

/-- The views of all sessions are dated. -/
def Dated (w : Attended) : Prop :=
  ∀ client s, w.selections.get? client = some s → s.snapshot.Dated w.mailbox.mailbox

theorem dated_alone (m : SharedMailbox) : (alone m).Dated := by
  intro client s hs
  cases hs

theorem Dated.leads (h : w.Dated) (hd : w.mailbox.mailbox.store.Distinct) {m : SharedMailbox}
    (hleads : Leads w.mailbox m) : ({ w with mailbox := m } : Attended).Dated :=
  fun client s hs => (h client s hs).discloses (discloses_leads hd hleads).1

theorem Dated.reselect (h : w.Dated) {client : String} {selection? : Option Selection}
    (hdated : ∀ s, selection? = some s → s.snapshot.Dated w.mailbox.mailbox) :
    ({ w with selections := keep client w.selections selection? } : Attended).Dated := by
  intro c s hs
  dsimp only at hs
  rw [get?_keep] at hs
  split at hs
  · exact hdated s hs
  · exact h c s hs

theorem Dated.leave (h : w.Dated) (hd : w.mailbox.mailbox.store.Distinct) (client : String) :
    (w.leave client).Dated := by
  intro c s hs
  rw [get?_leave] at hs
  split at hs
  · cases hs
  · exact h.leads hd (leads_leave client w) c s hs

theorem dated_selected {isReadOnly : Bool} {m m' : SharedMailbox} {report : SelectReport}
    {selection : Selection} (hm : m.mailbox.Sound issued True)
    (h : m.select isReadOnly = (.ok (report, selection), m')) :
    selection.snapshot.Dated m'.mailbox := by
  rcases select_cases isReadOnly m with
    ⟨e, m₁, _, _, heq⟩ | ⟨_, _, _, _, heq, _, hview, _, hleft⟩
  · rw [heq] at h
    cases h
  · rw [heq] at h
    cases h
    have hb : (m.mailbox.startJournal.editAll [.flushPending]).Sound issued True :=
      hm.startJournal.editAll _
    have hedits := Mailbox.discloses_anyEdits hb.distinct
      (claiming isReadOnly ++ [.commit, .takeUnsaved])
    rw [hview, hleft, ← Mailbox.editAll_append]
    exact (Mailbox.dated_snapshot hb.distinct (hb.stamped trivial)).discloses
      ⟨hedits.modseq, hedits.stamped, hedits.gone⟩

theorem dated_act (hw : w.InStep issued True) (h : w.Dated) (a : Action) : (w.act a).2.Dated := by
  have hd := hw.sound.distinct
  have hleads := leads_act w a
  cases a with
  | select client isReadOnly =>
      have hleft := hw.leave client
      rcases select_cases isReadOnly (w.leave client).mailbox with
        ⟨e, m, hselecting, _, hselect⟩ | ⟨report, selection, m, hselecting, hselect, _⟩
      · simp only [act, hselect]
        exact (h.leave hd client).leads hleft.sound.distinct hselecting
      · have hselected := dated_selected hleft.sound hselect
        simp only [act, hselect]
        have hsome : ∀ s, some selection = some s → s.snapshot.Dated m.mailbox := by
          rintro s ⟨⟩
          exact hselected
        exact ((h.leave hd client).leads hleft.sound.distinct hselecting).reselect hsome
  | request client request =>
      cases hselection : w.selections.get? client with
      | none =>
          simp only [act, hselection]
          exact h
      | some selection =>
          simp only [act, hselection] at hleads ⊢
          refine (h.leads hd hleads).reselect fun s hs => ?_
          exact request.dated hw.sound (hw.follows client selection hselection).ascending
            (h client selection hselection) hs
  | leave client => exact h.leave hd client
  | synchronize round site => exact h.leads hd hleads
  | change change => exact h.leads hd hleads
  | recache cache? => exact h.leads hd hleads

/-- Whatever happens, no view is later than the mailbox. -/
theorem dated_actAll (hw : w.InStep issued True) (h : w.Dated) (actions : List Action) :
    (w.actAll actions).Dated := by
  induction actions generalizing w with
  | nil => exact h
  | cons a rest ih => exact ih (inStep_act hw a) (dated_act hw h a)

end Attended

end MailBridge

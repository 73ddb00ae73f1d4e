import MailBridge.Proofs.Recovery

/-! # What a full listing gathers

A full listing has three stages: the remote account is asked, the contents that are needed are
decrypted, and the mailbox is made to match. Others may act in the first two, but only the third
changes the mailbox by itself.
-/

namespace MailBridge

namespace Site

variable {s : Site}

theorem settings_receive {α : Type} (d : Delivery α) (s : Site) :
    (s.receive d).2.settings = s.settings := by
  have hwait := (Passes.wait d.delay s).settings
  unfold receive
  split <;> next heq =>
    rw [heq] at hwait
    simpa [outside_interfere] using hwait

theorem settings_list (s : Site) : s.list.2.settings = s.settings := by
  unfold list ask
  dsimp only
  split
  · exact settings_receive ..
  · rfl

theorem content_prepare (message : RemoteMessage) (s : Site) :
    (s.prepare message).1.remoteId = message.id ∧ (s.prepare message).1.flags = message.flags := by
  unfold prepare
  dsimp only
  split
  · exact ⟨rfl, rfl⟩
  · exact ⟨rfl, rfl⟩
  · split <;> exact ⟨rfl, rfl⟩

theorem contents_prepareAll (messages : List RemoteMessage) (s : Site) :
    ∀ content ∈ (prepareAll messages s).1,
      ∃ message ∈ messages, content.remoteId = message.id ∧ content.flags = message.flags := by
  induction messages generalizing s with
  | nil => exact fun content h => nomatch h
  | cons message rest ih =>
      intro content hcontent
      rcases List.mem_cons.1 hcontent with rfl | hlater
      · exact ⟨message, List.mem_cons_self, content_prepare message s⟩
      · obtain ⟨other, hother, hsame⟩ := ih _ content hlater
        exact ⟨other, List.mem_cons_of_mem _ hother, hsame⟩

/-- A full listing up to where it changes the mailbox: the contents that it needs, and the site as
others have left it by then. -/
def gathered (s : Site) : List MessageContent × Site :=
  let s' := s.list.2.report (.listed s.list.2.name s.remote.listing.answer.messages.length)
  prepareAll (s'.wanted s.remote.listing.answer) s'

theorem settings_gathered (s : Site) : s.gathered.2.settings = s.settings :=
  (interim_prepareAll ..).settings.trans (settings_list s)

theorem contents_gathered (s : Site) : ∀ content ∈ s.gathered.1,
    ∃ message ∈ RemoteMessage.firstListed s.remote.listing.answer.messages,
      content.remoteId = message.id ∧ content.flags = message.flags := by
  intro content hcontent
  obtain ⟨message, hwanted, hsame⟩ := contents_prepareAll _ _ content hcontent
  exact ⟨message, List.mem_of_mem_filter hwanted, hsame⟩

theorem leadsBy_gathered {kind : Edit → Bool} (s : Site) : s.LeadsBy kind s.gathered.2 := by
  have hreported : s.LeadsBy kind (s.list.2.report
      (.listed s.list.2.name s.remote.listing.answer.messages.length)) :=
    (leadsBy_list s).trans (leadsBy_of_shared rfl fun _ => id)
  exact hreported.trans (leadsBy_prepareAll _ _)

theorem shared_gathered (h : s.Undisturbed) {listing : Listing} {s₁ : Site}
    (hlist : s.list = (.ok listing, s₁)) : s.gathered.2.shared = s.shared := by
  obtain ⟨_, _, _, halone⟩ := list_ok hlist
  obtain ⟨hshared, hremote⟩ := halone h.1
  have hinterim : (s.list.2.report
      (.listed s.list.2.name s.remote.listing.answer.messages.length)).Interim s.gathered.2 :=
    interim_prepareAll ..
  rw [hlist] at hinterim
  exact (hinterim.alone (hremote.trans h.2)).1.trans hshared

/-- A full listing that the remote account answers comes down to the change that makes the mailbox
match, with the contents gathered. -/
theorem resyncFrom_gathered {listing : Listing} {s₁ : Site} (hlist : s.list = (.ok listing, s₁))
    (fallback : Option String) : ∃ invalidate,
      (s.resyncFrom fallback).1 = outcome ((s.gathered.2.shared.mutate
        (·.reconcile s.gathered.2.settings s.gathered.2.shared.sessions s.gathered.2.clock
          invalidate s.gathered.1 s.remote.listing.answer
          (s.remote.listing.answer.cursor <|> fallback))).1.map Prod.fst) ∧
      (s.resyncFrom fallback).2.shared = (s.gathered.2.shared.mutate
        (·.reconcile s.gathered.2.settings s.gathered.2.shared.sessions s.gathered.2.clock
          invalidate s.gathered.1 s.remote.listing.answer
          (s.remote.listing.answer.cursor <|> fallback))).2 := by
  obtain ⟨rfl, _⟩ := list_ok hlist
  refine ⟨(s₁.report (.listed s₁.name s.remote.listing.answer.messages.length)).renewing
    s.remote.listing.answer, ?_⟩
  have hgathered : s.gathered = prepareAll
      ((s₁.report (.listed s₁.name s.remote.listing.answer.messages.length)).wanted
        s.remote.listing.answer)
      (s₁.report (.listed s₁.name s.remote.listing.answer.messages.length)) := by
    rw [gathered, hlist]
  unfold wanted at hgathered
  unfold resyncFrom
  rw [hlist]
  unfold renewing at hgathered ⊢
  dsimp only at hgathered ⊢
  rw [← hgathered, mutate_eq]
  generalize s.gathered.2.shared.mutate _ = done
  obtain ⟨result, shared⟩ := done
  cases result with
  | error e => exact ⟨rfl, rfl⟩
  | ok result =>
      refine ⟨rfl, ?_⟩
      dsimp only [outcome, Except.mapError, report]
      split <;> exact shared_foldl_report (fun s c => .corrected s.name c) ..

theorem list_of_resyncFrom {fallback : Option String} {s' : Site} {tally : Tally}
    (hok : s.resyncFrom fallback = (.ok tally, s')) : ∃ listing s₁, s.list = (.ok listing, s₁) := by
  unfold resyncFrom at hok
  split at hok
  · cases hok
  · next hlist => exact ⟨_, _, hlist⟩

theorem reconcile_gathered {fallback : Option String} {s' : Site} {tally : Tally}
    (hok : s.resyncFrom fallback = (.ok tally, s')) :
    ∃ (invalidate : Bool) (corrections : List Correction) (m' : Mailbox),
      s.gathered.2.shared.mailbox.startJournal.reconcile s.gathered.2.settings
          s.gathered.2.shared.sessions s.gathered.2.clock invalidate s.gathered.1
          s.remote.listing.answer (s.remote.listing.answer.cursor <|> fallback) =
        (.ok (tally, corrections), m') ∧
      s'.shared.mailbox = (m'.editAll [.commit, .takeUnsaved]).keepChanges := by
  obtain ⟨listing, s₁, hlist⟩ := list_of_resyncFrom hok
  obtain ⟨invalidate, hresult, hshared⟩ := resyncFrom_gathered hlist fallback
  rw [hok] at hresult hshared
  cases hmutate : (s.gathered.2.shared.mutate
      (·.reconcile s.gathered.2.settings s.gathered.2.shared.sessions s.gathered.2.clock
        invalidate s.gathered.1 s.remote.listing.answer
        (s.remote.listing.answer.cursor <|> fallback))).1 with
  | error e =>
      rw [hmutate] at hresult
      cases hresult
  | ok result =>
      rw [hmutate] at hresult
      cases hresult
      refine ⟨invalidate, result.2, _, Prod.ext (SharedMailbox.conclude_ok hmutate).1 rfl, ?_⟩
      exact (congrArg SharedMailbox.mailbox hshared).trans
        (SharedMailbox.mailbox_mutate_of_kept hmutate)

end Site

end MailBridge

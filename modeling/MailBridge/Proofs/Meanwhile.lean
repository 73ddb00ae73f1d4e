import MailBridge.Proofs.Engine

/-! # While the remote account is asked

Asking the remote account and decrypting messages change the mailbox only through others, who may
act in the meantime. They take no part in who has the mailbox selected.
-/

namespace MailBridge

namespace SharedMailbox

theorem sessions_conclude {α : Type} (result : Except MailboxError α) (m : Mailbox)
    (s : SharedMailbox) : (s.conclude result m).2.sessions = s.sessions := by
  cases h : (s.conclude result m).1 with
  | error e => rcases conclude_error h with heq | heq <;> rw [heq]
  | ok a =>
      obtain ⟨_, cache?, heq⟩ := conclude_ok h
      rw [heq]

end SharedMailbox

namespace Site

/-- The site after others may have acted. Left alone, the shared mailbox stays as it is. -/
structure Interim (s s' : Site) : Prop where
  leads : s.Leads s'
  sessions : s'.shared.sessions = s.shared.sessions
  settings : s'.settings = s.settings
  alone : s.remote.whileDecrypting = ∅ → s'.shared = s.shared ∧ s'.remote.whileDecrypting = ∅

theorem Interim.of_eq {s s' : Site} (hshared : s'.shared = s.shared)
    (hsettings : s'.settings = s.settings)
    (hremote : s'.remote.whileDecrypting = s.remote.whileDecrypting) : s.Interim s' where
  leads := leads_of_shared hshared
  sessions := congrArg SharedMailbox.sessions hshared
  settings := hsettings
  alone hnone := ⟨hshared, hremote.trans hnone⟩

theorem Interim.refl (s : Site) : s.Interim s := .of_eq rfl rfl rfl

theorem Interim.trans {s s' s'' : Site} (h : s.Interim s') (h' : s'.Interim s'') :
    s.Interim s'' where
  leads := h.leads.trans h'.leads
  sessions := h'.sessions.trans h.sessions
  settings := h'.settings.trans h.settings
  alone hnone := by
    obtain ⟨hshared, hnone⟩ := h.alone hnone
    obtain ⟨hshared', hnone⟩ := h'.alone hnone
    exact ⟨hshared'.trans hshared, hnone⟩

theorem interfere_nil (s : Site) : s.interfere [] = s := rfl

theorem sessions_interfere (ops : List Operation) (s : Site) :
    (s.interfere ops).shared.sessions = s.shared.sessions := by
  unfold interfere
  split
  · rfl
  · exact SharedMailbox.sessions_conclude ..

theorem outside_interfere (ops : List Operation) (s : Site) :
    (s.interfere ops).settings = s.settings ∧ (s.interfere ops).remote = s.remote := by
  unfold interfere
  split <;> exact ⟨rfl, rfl⟩

theorem interim_decrypt (d : Decryption) (id : RemoteId) (secret : String) (s : Site) :
    s.Interim (s.decrypt d id secret).2 := by
  obtain ⟨hsettings, hremote⟩ := outside_interfere ((s.remote.whileDecrypting.get? id).getD [])
    { s.record (.decrypt id) with
      remote := { s.remote with whileDecrypting := s.remote.whileDecrypting.erase id } }
  refine ⟨?_, sessions_interfere .., hsettings, fun hnone => ?_⟩
  · exact (leadsBy_decrypt d id secret s).leads
  · have hno : s.remote.whileDecrypting.get? id = none := by rw [hnone]; rfl
    unfold decrypt
    dsimp only [record]
    rw [hno, Option.getD_none, interfere_nil, hnone]
    exact ⟨rfl, rfl⟩

theorem interim_prepare (message : RemoteMessage) (s : Site) :
    s.Interim (s.prepare message).2 ∧ (s.prepare message).1.remoteId = message.id := by
  unfold prepare
  dsimp only
  split
  · exact ⟨.refl s, rfl⟩
  · exact ⟨.refl s, rfl⟩
  · next secret d _ _ =>
    have hdecrypt := interim_decrypt d message.id secret s
    split <;> next h =>
      rw [h] at hdecrypt
      exact ⟨hdecrypt, rfl⟩

theorem interim_prepareAll (messages : List RemoteMessage) (s : Site) :
    s.Interim (prepareAll messages s).2 := by
  induction messages generalizing s with
  | nil => exact .refl s
  | cons message rest ih => exact (interim_prepare message s).1.trans (ih _)

theorem interim_prepareEvents (events : List RemoteEvent) (s : Site) :
    s.Interim (prepareEvents events s).2 := by
  induction events generalizing s with
  | nil => exact .refl s
  | cons event rest ih =>
      cases event with
      | created message => exact (interim_prepare message s).1.trans (ih _)
      | updated => exact ih s
      | removed => exact ih s

/-- What an answer is, and what may have happened when it comes in. -/
theorem receive_ok {α : Type} {d : Delivery α} {a : α} {s s' : Site}
    (h : s.receive d = (.ok a, s')) : a = d.answer ∧ s'.shared.sessions = s.shared.sessions ∧
      (d.meanwhile = [] → s'.shared = s.shared ∧ s'.remote = s.remote) := by
  have hshared := wait_shared d.delay s
  have hremote := wait_remote d.delay s
  unfold receive at h
  split at h
  · cases h
  · next s₁ hwait =>
    rw [hwait] at hshared hremote
    cases h
    refine ⟨rfl, ?_, fun hnone => ?_⟩
    · rw [sessions_interfere, hshared]
    · rw [hnone, interfere_nil]
      exact ⟨hshared, hremote⟩

theorem list_ok {listing : Listing} {s s' : Site} (h : s.list = (.ok listing, s')) :
    listing = s.remote.listing.answer ∧ s.Leads s' ∧ s'.shared.sessions = s.shared.sessions ∧
      (s.remote.listing.meanwhile = [] → s'.shared = s.shared ∧
        s'.remote.whileDecrypting = s.remote.whileDecrypting) := by
  have hleads := leads_list s
  rw [h] at hleads
  unfold list ask at h
  dsimp only [record] at h
  split at h
  · obtain ⟨hanswer, hsessions, hnone⟩ := receive_ok h
    refine ⟨hanswer, hleads, hsessions, fun hquiet => ?_⟩
    obtain ⟨hshared, hremote⟩ := hnone hquiet
    exact ⟨hshared, by rw [hremote]⟩
  · cases h

end Site

end MailBridge

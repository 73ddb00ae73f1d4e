import MailBridge.Proofs.Amending
import MailBridge.Proofs.Gathering
import MailBridge.Proofs.Mending

/-! # Flags after a full listing

A full listing gives each message that is listed and still there the flags of its first listing,
unless a client has changed them since the listing was made. Which way they come does not matter:
they are so already, they are merged, or the message is new.
-/

namespace MailBridge

namespace Flags

/-- Flags that differ at most in what the server says of a message by itself: that it is recent, and
that it could not be decrypted. -/
def Agree (a b : Flags) : Prop :=
  ∀ flag, flag ≠ .recent → flag ≠ .undecryptable → (flag ∈ a ↔ flag ∈ b)

theorem comparable_eq_iff {a b : Flags} : comparable a = comparable b ↔ a.Agree b := by
  have hmem (flags : Flags) (flag : Flag) :
      flag ∈ comparable flags ↔ flag ∈ flags ∧ flag ≠ .recent ∧ flag ≠ .undecryptable := by
    simp [comparable]
  constructor
  · intro h flag hrecent hundecryptable
    have hsame : flag ∈ comparable a ↔ flag ∈ comparable b := by rw [h]
    simpa [hmem, hrecent, hundecryptable] using hsame
  · refine fun h => OrderedSet.ext fun flag => ?_
    rw [hmem, hmem]
    exact and_congr_left fun hserver => h flag hserver.1 hserver.2

end Flags

namespace Message

variable {r : Message} {remote : Flags} {taken : Instant}

/-- All local changes of the message's flags that are still held were made before the given time. -/
def ChangedBefore (taken : Instant) (r : Message) : Prop :=
  ∀ flag changed, r.localChanges.get? flag = some changed → changed < taken

/-- It is enough to look at the times at which the held changes were made. -/
theorem changedBefore_of_values
    (h : ∀ changed ∈ r.localChanges.values, changed < taken) : r.ChangedBefore taken :=
  fun _ changed hchanged =>
    h changed (List.mem_map.2 ⟨_, OrderedMap.get?_eq_some.1 hchanged, rfl⟩)

theorem agree_arrive (content : MessageContent) (uid : Uid) (next : ModSeq) :
    (arrive content uid next).flags.Agree content.flags := by
  intro flag hrecent hundecryptable
  unfold arrive
  dsimp only
  split <;> simp [OrderedSet.mem_insert, Flags.withoutRecent, hrecent, hundecryptable]

theorem agree_merged (h : r.ChangedBefore taken ∨ r.flags.Agree remote) (next : ModSeq) :
    (r.merged remote taken next).flags.Agree remote := by
  intro flag hrecent hundecryptable
  rw [r.mem_merged hrecent (fun heq => absurd heq hundecryptable)]
  split
  · next hheld =>
    rcases h with hbefore | hagree
    · rw [LocalChanges.holds_eq, Option.any_eq_true] at hheld
      obtain ⟨changed, hchanged, hle⟩ := hheld
      exact absurd (hbefore flag changed hchanged) (Int.not_lt.2 (of_decide_eq_true hle))
    · exact hagree flag hrecent hundecryptable
  · exact Iff.rfl

end Message

namespace RemoteMessage

theorem find?_firstListed (id : RemoteId) (l : List RemoteMessage) :
    (firstListed l).find? (·.id == id) = l.find? (·.id == id) := by
  induction l with
  | nil => rfl
  | cons m rest ih =>
      rw [firstListed, List.find?_cons, List.find?_cons]
      split
      · rfl
      · next hne =>
        rw [List.find?_filter, ← ih]
        congr 1
        funext other
        have : m.id ≠ id := by simpa using hne
        grind

theorem eq_of_firstListed {l : List RemoteMessage} {a b : RemoteMessage} (ha : a ∈ firstListed l)
    (hb : b ∈ firstListed l) (hid : a.id = b.id) : a = b :=
  List.inj_on_of_nodup_map (nodup_firstListed l) ha hb hid

end RemoteMessage

namespace Mailbox

variable {m m' : Mailbox} {listed : RemoteMessage} {prepared : List MessageContent}
  {taken : Instant} {tally tally' : Tally} {correction : Correction} {rest : List Correction}

/-- The message has the flags of the listed one, or gets them by a correction that is still to be
carried out and that no local change is held against. -/
def Heeds (listed : RemoteMessage) (taken : Instant) (rest : List Correction) (r : Message) :
    Prop :=
  r.flags.Agree listed.flags ∨
    r.ChangedBefore taken ∧ .mergeFlags listed.id listed.flags ∈ rest

theorem Heeds.of_cons {r : Message} (h : Heeds listed taken (correction :: rest) r)
    (hne : correction ≠ .mergeFlags listed.id listed.flags) : Heeds listed taken rest r := by
  rcases h with hagree | ⟨hbefore, hmem⟩
  · exact .inl hagree
  · exact .inr ⟨hbefore, (List.mem_cons.1 hmem).resolve_left hne.symm⟩

/-- A correction that comes of a listing does not remove a listed message, and gives it no other
flags than it is first listed with. -/
def ComesOf (listed : RemoteMessage) : Correction → Prop
  | .remove id => id ≠ listed.id
  | .mergeFlags id flags => id = listed.id → flags = listed.flags
  | .create _ => True

theorem Heeds.congr {r r' : Message} (h : Heeds listed taken rest r) (hflags : r'.flags = r.flags)
    (hchanges : r'.localChanges = r.localChanges) : Heeds listed taken rest r' := by
  unfold Heeds Message.ChangedBefore at h ⊢
  rwa [hflags, hchanges]

/-- Every message with a listed name heeds its listing. -/
def AllHeed (listed : RemoteMessage) (taken : Instant) (rest : List Correction) (m : Mailbox) :
    Prop :=
  ∀ r ∈ m.store.messages, r.remoteId = listed.id → Heeds listed taken rest r

theorem AllHeed.markRemoved {id : RemoteId} (hd : m.store.Distinct) (hi : m.Indexed)
    (hne : id ≠ listed.id) (h : m.AllHeed listed taken (.remove id :: rest)) :
    (m.markRemoved id).2.AllHeed listed taken rest := by
  intro r' hr' hid
  obtain ⟨r, hr, rfl⟩ := (mem_markRemoved hd hi id).1 hr'
  by_cases hname : r.remoteId = id
  · rw [if_pos hname] at hid
    exact absurd (hname.symm.trans hid) hne
  · rw [if_neg hname] at hid ⊢
    exact (h r hr hid).of_cons (by simp)

theorem AllHeed.mergeFlags {id : RemoteId} {flags : Flags} (hd : m.store.Distinct) (hi : m.Indexed)
    (hflags : id = listed.id → flags = listed.flags)
    (h : m.AllHeed listed taken (.mergeFlags id flags :: rest)) :
    (m.mergeFlags id flags taken).2.AllHeed listed taken rest := by
  intro r' hr' hid
  obtain ⟨r, hr, rfl⟩ := (mem_mergeFlags hd hi id flags taken).1 hr'
  by_cases hname : r.remoteId = id
  · rw [if_pos hname] at hid ⊢
    obtain rfl := hflags (hname.symm.trans hid)
    -- what was to be merged has been, and what agreed before still does
    exact .inl (Message.agree_merged ((h r hr hid).symm.imp_left And.left) _)
  · rw [if_neg hname] at hid ⊢
    exact (h r hr hid).of_cons fun heq => hname (by cases heq; exact hid)

theorem AllHeed.receive {content : MessageContent} {receipt : Receipt} (hd : m.store.Distinct)
    (hi : m.Indexed) (hflags : content.remoteId = listed.id → content.flags = listed.flags)
    (hok : m.receive content = (.ok receipt, m')) (h : m.AllHeed listed taken rest) :
    m'.AllHeed listed taken rest := by
  intro r' hr' hid
  cases hname : m.store.uidOf? content.remoteId with
  | none =>
      obtain hold | rfl := (mem_receive_new hname hok).1 hr'
      · exact h r' hold hid
      · left
        rw [← hflags hid]
        exact Message.agree_arrive content receipt.uid m.modseq.next
  | some uid =>
      have hthere : r' ∈ (m.receive content).2.store.messages := by rwa [hok]
      obtain ⟨r, hr, rfl⟩ := (mem_receive_known hd hi hname).1 hthere
      split at hid
      · next hsame =>
        rw [if_pos hsame]
        exact (h r hr (by simpa using hid)).congr (by simp) (by simp)
      · next hother =>
        rw [if_neg hother]
        exact h r hr hid

/-- A correction that comes of a listing leaves every message with a listed name heeding it. -/
theorem AllHeed.correct (hd : m.store.Distinct) (hi : m.Indexed)
    (hcomes : ComesOf listed correction)
    (hprepared : ∀ content ∈ prepared, content.remoteId = listed.id →
      content.flags = listed.flags)
    (hok : m.correct true prepared taken tally correction = (.ok tally', m'))
    (h : m.AllHeed listed taken (correction :: rest)) : m'.AllHeed listed taken rest := by
  obtain ⟨id, rfl, rfl⟩ | ⟨id, flags, rfl, rfl⟩ | ⟨content, hcontent, receipt, rfl, hreceived⟩ :=
    correct_cases hok
  · exact h.markRemoved hd hi hcomes
  · exact h.mergeFlags hd hi hcomes
  · have hrest : m.AllHeed listed taken rest := by
      intro r hr hid
      exact (h r hr hid).of_cons (by simp)
    exact hrest.receive hd hi (hprepared content hcontent) hreceived

theorem agree_correctAll {corrections : List Correction} (hd : m.store.Distinct) (hi : m.Indexed)
    (hcomes : ∀ correction ∈ corrections, ComesOf listed correction)
    (hprepared : ∀ content ∈ prepared, content.remoteId = listed.id →
      content.flags = listed.flags)
    (hok : m.correctAll true prepared taken tally corrections = (.ok tally', m'))
    (h : m.AllHeed listed taken corrections) :
    ∀ r' ∈ m'.store.messages, r'.remoteId = listed.id → r'.flags.Agree listed.flags := by
  induction corrections generalizing m tally with
  | nil =>
      cases hok
      intro r hr hid
      simpa [Heeds] using h r hr hid
  | cons correction rest ih =>
      unfold correctAll at hok
      split at hok
      · cases hok
      · next hcorrect =>
        obtain ⟨hfirst, hrest⟩ := List.forall_mem_cons.1 hcomes
        obtain ⟨edits, hedits⟩ := edited_correct true prepared taken tally correction m
        rw [hcorrect] at hedits
        subst hedits
        exact ih (distinct_editAll hd edits) (Indexed.editAll hd hi edits) hrest hok
          (h.correct hd hi hfirst hprepared hcorrect)

theorem comesOf_corrections {listing : Listing}
    (hlisted : listed ∈ RemoteMessage.firstListed listing.messages) :
    ∀ correction ∈ m.store.corrections listing.messages, ComesOf listed correction := by
  intro correction hmem
  simp only [MessageStore.corrections, List.mem_append, List.mem_map, List.mem_filter,
    List.mem_mergeSort] at hmem
  rcases hmem with (⟨r, ⟨_, hunlisted⟩, rfl⟩ | ⟨other, ⟨hother, _⟩, rfl⟩) | ⟨_, _, rfl⟩
  · intro hid
    have hnone := (Bool.and_eq_true_iff.1 hunlisted).1
    simp only [Bool.not_eq_true', List.any_eq_false, beq_iff_eq] at hnone
    exact hnone listed hlisted hid.symm
  · intro hid
    rw [RemoteMessage.eq_of_firstListed hother hlisted hid]
  · trivial

/-- Before the corrections are carried out, either the flags agree or they are to be merged. -/
theorem heeds_corrections {listing : Listing} (hd : m.store.Distinct) (hi : m.Indexed)
    (hlisted : listed ∈ RemoteMessage.firstListed listing.messages) {r : Message}
    (hr : r ∈ m.store.messages) (hid : r.remoteId = listed.id) (hbefore : r.ChangedBefore taken) :
    Heeds listed taken (m.store.corrections listing.messages) r := by
  by_cases hsame : Flags.comparable r.flags = Flags.comparable listed.flags
  · exact .inl (Flags.comparable_eq_iff.1 hsame)
  · have hname : m.store.uidOf? listed.id = some r.uid := (hi _ _).2 ⟨r, hr, hid, rfl⟩
    have hfound : m.store.getByRemoteId? listed.id = some r := by
      rw [MessageStore.getByRemoteId?, hname, Option.bind_some, MessageStore.get?_of_mem hd hr]
    refine .inr ⟨hbefore, ?_⟩
    simp only [MessageStore.corrections, List.mem_append, List.mem_map, List.mem_filter]
    exact .inl (.inr ⟨listed, ⟨hlisted, by simp [hfound, hsame]⟩, rfl⟩)

theorem agree_reconcile {settings : SyncSettings} {sessions : Nat} {now : Instant}
    {invalidate : Bool} {listing : Listing} {cursor : Option String}
    {corrections : List Correction} (ho : m.Orderly) (hupdates : settings.updatesFlags = true)
    (hlisted : listed ∈ RemoteMessage.firstListed listing.messages)
    (hprepared : ∀ content ∈ prepared, content.remoteId = listed.id →
      content.flags = listed.flags)
    (hbefore : ∀ r ∈ m.store.messages, r.ChangedBefore listing.taken)
    (hok : m.reconcile settings sessions now invalidate prepared listing cursor =
      (.ok (tally, corrections), m')) :
    ∀ r' ∈ m'.store.messages, r'.remoteId = listed.id → r'.flags.Agree listed.flags := by
  obtain ⟨hd, hi, hkept⟩ := mend_sound ho now invalidate
  unfold reconcile at hok
  dsimp only at hok
  rw [hupdates] at hok
  split at hok
  · cases hok
  · next corrected hcorrect =>
    cases hok
    intro r' hr' hid
    have hthere : r' ∈ corrected.store.messages := by
      have hunflushed := mem_of_mem_flushUnlessSelected hr'
      rwa [setCursor_store] at hunflushed
    refine agree_correctAll hd hi (comesOf_corrections hlisted) hprepared hcorrect ?_ r' hthere hid
    exact fun r hr hid => heeds_corrections hd hi hlisted hr hid (hbefore r (hkept r hr))

end Mailbox

namespace Site

variable {s s' : Site} {tally : Tally}

/-- After a full listing that comes to its end, every message that is still there and is listed has
the flags it is first listed with, apart from those that the server sets by itself. This holds if
remote flags are taken over and the listing was made later than all local changes that the mailbox
holds when it is compared with the listing: as others have left it by then, which is as it was if
nobody disturbs. -/
theorem resyncFrom_takes_flags {fallback : Option String}
    (hsound : s.shared.mailbox.checkIntegrity = .ok ())
    (hupdates : s.settings.updatesFlags = true)
    (hok : s.resyncFrom fallback = (.ok tally, s')) :
    (s.Undisturbed → s.gathered.2.shared = s.shared) ∧
      ((∀ r ∈ s.gathered.2.shared.mailbox.store.messages,
          r.ChangedBefore s.remote.listing.answer.taken) →
        ∀ r ∈ s'.shared.mailbox.store.messages, ∀ first,
          s.remote.listing.answer.messages.find? (·.id == r.remoteId) = some first →
            r.flags.Agree first.flags) := by
  obtain ⟨invalidate, corrections, m', hreconcile, hkept⟩ := reconcile_gathered hok
  obtain ⟨listing, s₁, hlist⟩ := list_of_resyncFrom hok
  refine ⟨fun h => shared_gathered h hlist, ?_⟩
  intro hbefore r hr first hfirst
  rw [← RemoteMessage.find?_firstListed] at hfirst
  have hlisted := List.mem_of_find?_eq_some hfirst
  have hid : first.id = r.remoteId := by simpa using List.find?_some hfirst
  have ho : s.gathered.2.shared.mailbox.Orderly :=
    orderly_leads (Mailbox.checkIntegrity_iff.1 hsound).1 (leadsBy_gathered s).leads
  have hprepared : ∀ content ∈ s.gathered.1, content.remoteId = first.id →
      content.flags = first.flags := by
    intro content hcontent hsame
    obtain ⟨message, hmessage, hname, hflags⟩ := contents_gathered s content hcontent
    rw [hflags, RemoteMessage.eq_of_firstListed hmessage hlisted (hname.symm.trans hsame)]
  rw [hkept, Mailbox.kept_eq] at hr
  exact Mailbox.agree_reconcile (m := s.gathered.2.shared.mailbox.startJournal)
    ⟨ho.distinct, ho.below⟩
    ((congrArg SyncSettings.updatesFlags (settings_gathered s)).trans hupdates) hlisted hprepared
    hbefore hreconcile r hr hid.symm

/-- A site whose mailbox has a message that a client has read, one that is as the remote account has
it, and none of the third. The first is listed twice, with other flags the second time. -/
def withOutdated : Site where
  shared :=
    { mailbox := (Mailbox.create "INBOX" 0).editAll
        [.receive { remoteId := "a" }, .receive { remoteId := "b" },
          .setFlags 5 .least (.ofList [.seen]) .add, .commit, .takeUnsaved] }
  remote :=
    { listing :=
        { answer :=
            { messages :=
                [{ id := "a", flags := .ofList [.flagged] }, { id := "b" },
                  { id := "a", flags := .ofList [.answered] },
                  { id := "c", flags := .ofList [.draft] }]
              taken := 10 } } }
  decryption? := none
  settings := {}
  clock := 0
  elapsed := 0

/-- The message that the client read is unread again, as the later listing has it. -/
theorem resync_takes_flags_of_withOutdated :
    withOutdated.shared.mailbox.checkIntegrity = .ok () ∧
    withOutdated.settings.updatesFlags = true ∧
    (∀ r ∈ withOutdated.shared.mailbox.store.messages,
      r.ChangedBefore withOutdated.remote.listing.answer.taken) ∧
    ∃ tally s', withOutdated.resync = (.ok tally, s') ∧
      s'.shared.mailbox.roster.toList = ["a", "b", "c"] ∧
      ∀ r ∈ s'.shared.mailbox.store.messages, ∀ first,
        withOutdated.remote.listing.answer.messages.find? (·.id == r.remoteId) = some first →
          r.flags.Agree first.flags := by
  have hok : withOutdated.resync.1 =
      .ok { created := 1, updated := 1, resynced := true } := by decide +kernel
  have hbefore : ∀ r ∈ withOutdated.shared.mailbox.store.messages,
      r.ChangedBefore withOutdated.remote.listing.answer.taken := by
    have hvalues : ∀ r ∈ withOutdated.shared.mailbox.store.messages,
        ∀ changed ∈ r.localChanges.values, changed < 10 := by decide +kernel
    exact fun r hr => Message.changedBefore_of_values (hvalues r hr)
  have hended : withOutdated.resyncFrom none = (_, withOutdated.resync.2) := Prod.ext hok rfl
  obtain ⟨hshared, htakes⟩ := resyncFrom_takes_flags rfl rfl hended
  rw [hshared ⟨rfl, rfl⟩] at htakes
  exact ⟨rfl, rfl, hbefore, _, _, Prod.ext hok rfl, by decide +kernel, htakes hbefore⟩

end Site

end MailBridge

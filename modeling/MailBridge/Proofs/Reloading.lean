import MailBridge.Proofs.Persistence
import MailBridge.Proofs.Waiting

/-! # A mailbox comes back from the cache

A mailbox that is saved in full in an empty cache can be loaded again, in whatever order the rows
come, and is the same but for the local changes of flags. What is not saved is computed anew: the
figures, and the index of remote names. So they are right in the mailbox that comes back, even if
they were not before.
-/

namespace MailBridge

theorem OrderedMap.get?_ofList {κ β : Type} [KeyOrder κ] [DecidableEq κ] {l : List (κ × β)}
    (h : (l.map (·.1)).Nodup) {k : κ} {v : β} : (ofList l).get? k = some v ↔ (k, v) ∈ l := by
  have key : ∀ (l : List (κ × β)) (m : OrderedMap κ β), (l.map (·.1)).Nodup →
      ((l.foldl (fun m e => m.insert e.1 e.2) m).get? k = some v ↔
        (k, v) ∈ l ∨ k ∉ l.map (·.1) ∧ m.get? k = some v) := by
    intro l
    induction l with
    | nil => simp
    | cons e rest ih =>
        intro m h
        obtain ⟨hnew, hrest⟩ := List.nodup_cons.1 h
        rw [List.foldl_cons, ih _ hrest, OrderedMap.get?_insert]
        by_cases hk : k = e.1
        · subst hk
          have hno : (e.1, v) ∉ rest := fun hmem => hnew (List.mem_map.2 ⟨_, hmem, rfl⟩)
          simp [hnew, hno, Prod.ext_iff, eq_comm]
        · simp [hk, Prod.ext_iff]
  simpa [ofList] using key l ∅ h

theorem MessageStore.indexedAt_ofMessages {l : List Message}
    (h : ((ofMessages l).messages.map (·.remoteId)).Nodup) (id : RemoteId) :
    (ofMessages l).IndexedAt id := by
  intro uid
  have hnames : ((ofMessages l).names.map (·.1)).Nodup := by
    rw [names, List.map_map]
    exact h
  refine (OrderedMap.get?_ofList hnames).trans ?_
  simp [names]

namespace Mailbox

variable {c c' : Cache} {m m' : Mailbox}

/-! ## Saving in full -/

/-- What saving relies on: identities that are unique, numbers that have room in a cell, and flags
and dates that are told by their written forms. -/
structure Keepable (m : Mailbox) : Prop where
  distinct : m.store.Distinct
  names : (m.store.messages.map (·.remoteId)).Nodup
  modseq : m.modseq.val ≤ maxSigned
  modseqs : ∀ r ∈ m.store.messages, r.modseq.val ≤ maxSigned
  orders : ∀ r ∈ m.store.messages, r.order.toNat ≤ maxSigned
  flags : ∀ r ∈ m.store.messages, ∀ flag ∈ r.flags, flag.Writable
  dates : ∀ r ∈ m.store.messages, Date.read? r.envelope.date.text = some r.envelope.date

theorem keepable_iff : m.Keepable ↔
    (m.store.messages.Pairwise fun a b => a.uid.val < b.uid.val) ∧
      (m.store.messages.map (·.remoteId)).Nodup ∧ m.modseq.val ≤ maxSigned ∧
      ∀ r ∈ m.store.messages, r.modseq.val ≤ maxSigned ∧ r.order.toNat ≤ maxSigned ∧
        (∀ flag ∈ r.flags.toList, flag.Writable) ∧
        Date.read? r.envelope.date.text = some r.envelope.date := by
  constructor
  · exact fun h => ⟨h.distinct, h.names, h.modseq, fun r hr =>
      ⟨h.modseqs r hr, h.orders r hr, h.flags r hr, h.dates r hr⟩⟩
  · exact fun ⟨hdistinct, hnames, hmodseq, hall⟩ => ⟨hdistinct, hnames, hmodseq,
      fun r hr => (hall r hr).1, fun r hr => (hall r hr).2.1, fun r hr => (hall r hr).2.2.1,
      fun r hr => (hall r hr).2.2.2⟩

instance (m : Mailbox) : Decidable m.Keepable := decidable_of_iff' _ keepable_iff

theorem Keepable.writable (h : m.Keepable) : ∀ r ∈ m.store.messages, r.Writable := fun r hr =>
  ⟨h.flags r hr, Date.writable_iff.2 (h.dates r hr), h.orders r hr, h.modseqs r hr⟩

/-- The mailbox with nothing left to save, and without marks of messages that do not exist. -/
def settled (m : Mailbox) : Mailbox :=
  { m with pending := m.pending.filter fun uid => (m.store.get? uid).isSome, unsaved := {} }

theorem mem_pending_settled (hd : m.store.Distinct) {uid : Uid} :
    uid ∈ m.settled.pending ↔ uid ∈ m.pending ∧ m.store.Has uid := by
  refine OrderedSet.mem_filter.trans (and_congr_right fun _ => ?_)
  rw [Option.isSome_iff_exists]
  exact exists_congr fun r => MessageStore.get?_eq_some hd

theorem queued_settled (hd : m.store.Distinct) : m.settled.Queued :=
  fun _ huid => ((mem_pending_settled hd).1 huid).2

theorem shows_settled (hd : m.store.Distinct) {e : Message × Bool} :
    m.settled.Shows e ↔ m.Shows e := by
  refine exists_congr fun r => and_congr_right fun hr => ?_
  have hpending : r.uid ∈ m.settled.pending ↔ r.uid ∈ m.pending :=
    (mem_pending_settled hd).trans (and_iff_left ⟨r, hr, rfl⟩)
  simp only [Cache.entryOf, hpending]

/-- An empty cache in which all messages have been saved has all of the mailbox. -/
theorem tracks_saved (h : m.Keepable) {unsaved : Unsaved}
    (hall : ∀ r ∈ m.store.messages, r.uid ∈ unsaved.written)
    (hsave : ({} : Cache).save m unsaved = .ok c) : Tracks c m.settled := by
  have hd : ({ m with unsaved } : Mailbox).store.Distinct := h.distinct
  have hmem (r : Message) : r ∈ unsaved.messagesOf m ↔ r ∈ m.store.messages :=
    (mem_messagesOf hd).trans (and_iff_left_of_imp (hall r))
  have happart : (unsaved.messagesOf m).Pairwise fun a b =>
      a.uid ≠ b.uid ∧ a.remoteId ≠ b.remoteId := messagesOf_apart hd h.names
  have hlegible : ({} : Cache).Legible m.name := fun row hrow => nomatch hrow
  obtain ⟨hlegible', hhead, hsaved⟩ := Cache.save_ok hsave hlegible h.modseq
    (fun r hr => h.writable r ((hmem r).1 hr)) happart
  rw [show ({} : Cache).saved m.name = [] from rfl, List.filter_nil, List.nil_append] at hsaved
  refine ⟨hlegible', ?_, fun uid huid => absurd huid OrderedSet.mem_empty, fun e _ => ?_,
    fun _ => hhead⟩
  · rw [show m.settled.name = m.name from rfl, hsaved]
    exact List.pairwise_map.2 (happart.imp And.left)
  · refine (shows_settled h.distinct).trans ?_
    rw [and_iff_left ⟨rfl, OrderedSet.mem_empty⟩, show m.settled.name = m.name from rfl, hsaved,
      List.mem_map]
    exact exists_congr fun r => and_congr_left fun _ => (hmem r).symm

theorem Tracks.of_perm (h : Tracks c m) (hmailboxes : c'.mailboxes = c.mailboxes)
    (hperm : c'.messages.Perm c.messages) : Tracks c' m := by
  have hrows : (c'.rows m.name).Perm (c.rows m.name) := hperm.filter _
  have hsaved : (c'.saved m.name).Perm (c.saved m.name) := hrows.filterMap _
  refine ⟨fun row hrow => h.legible row (hrows.mem_iff.1 hrow), ?_, h.live, fun e he => ?_, ?_⟩
  · exact (hsaved.pairwise_iff Ne.symm).2 h.apart
  · rw [hsaved.mem_iff]
    exact h.messages e he
  · rw [Cache.head?, hmailboxes]
    exact h.head

/-! ## Loading -/

theorem summary_load {name : String} (h : c.load name = .ok (some m)) :
    m.summary = .compute m.uids m.store m.modseq := by
  obtain ⟨_, head, _, rfl⟩ := Cache.load_eq_ok.1 h
  exact summary_of_figured (Initial.ofSaved ..).figured

theorem indexed_load {name : String} (h : c.load name = .ok (some m))
    (hnames : (m.store.messages.map (·.remoteId)).Nodup) : m.Indexed := by
  obtain ⟨_, head, _, rfl⟩ := Cache.load_eq_ok.1 h
  exact MessageStore.indexedAt_ofMessages hnames

/-- With the same UIDs and a right index, nothing is wrong but what is wrong with the UIDs. -/
theorem desync?_of_indexed (hd : m.store.Distinct) (hd' : m'.store.Distinct)
    (hmessages : m'.store.messages.map (·.uid) = m.store.messages.map (·.uid))
    (huids : m'.uids = m.uids) (hi : m'.Indexed) :
    m'.desync? = m.desync?.filter (· ≠ .brokenIndex) := by
  have hgreatest : m'.store.greatestUid? = m.store.greatestUid? := by
    rw [MessageStore.greatestUid?, MessageStore.greatestUid?, ← List.getLast?_map,
      ← List.getLast?_map, hmessages]
  have hindexed : m'.store.isIndexed = true := (MessageStore.isIndexed_iff hd').2 hi
  simp only [desync?, MessageStore.duplicateUid?_eq_none.2 hd,
    MessageStore.duplicateUid?_eq_none.2 hd', hgreatest, huids, hindexed, if_true]
  split
  · split
    · rfl
    · cases m.store.isIndexed <;> rfl
  · cases m.store.isIndexed <;> rfl

/-- The mailbox that comes back has all that is saved, views and figures that fit, and a right
index. -/
structure ReloadsAs (m m' : Mailbox) : Prop where
  name : m'.name = m.name
  uids : m'.uids = m.uids
  modseq : m'.modseq = m.modseq
  cursor : m'.cursor = m.cursor
  messages : m'.store.messages = m.store.messages.map Message.plain
  pending : ∀ uid, uid ∈ m'.pending ↔ uid ∈ m.pending ∧ ∃ r ∈ m.store.messages, r.uid = uid
  snapshot : m'.snapshot = m.snapshot
  summary : m'.summary = .compute m.uids m.store m.modseq
  integrity : m'.checkIntegrity =
    if m.desync? = some .brokenIndex then .ok () else m.checkIntegrity

theorem Tracks.reloads (h : m.Keepable) (htracks : Tracks c m.settled) :
    ∃ m', c.load m.name = .ok (some m') ∧ m.ReloadsAs m' := by
  obtain ⟨m', hload, hsaved⟩ :=
    Tracks.load (m := m.settled) h.distinct (queued_settled h.distinct) htracks rfl
  have hmessages : m'.store.messages = m.store.messages.map Message.plain := hsaved.messages
  have hmap {α : Type} (f : Message → α) (hplain : ∀ r, f r.plain = f r) :
      m'.store.messages.map f = m.store.messages.map f := by
    rw [hmessages, List.map_map]
    exact List.map_congr_left fun r _ => hplain r
  have hd' : m'.store.Distinct := by
    rw [MessageStore.Distinct, hmessages]
    exact Ascending.map h.distinct fun _ _ => rfl
  have hindexed : m'.Indexed := by
    refine indexed_load hload ?_
    rw [hmap _ fun _ => rfl]
    exact h.names
  refine ⟨m', hload, hsaved.name, hsaved.uids, hsaved.modseq, hsaved.cursor, hmessages,
    fun uid => ?_, ?_, ?_, ?_⟩
  · rw [hsaved.pending]
    exact mem_pending_settled h.distinct
  · rw [snapshot, snapshot, hsaved.uids, hsaved.modseq, hmap _ fun _ => rfl]
    rfl
  · rw [summary_load hload, hsaved.uids, hsaved.modseq]
    exact compute_congr (hmap _ fun _ => rfl) ..
  · have hdesync := desync?_of_indexed h.distinct hd' (hmap _ fun _ => rfl) hsaved.uids hindexed
    have hname : m'.name = m.name := hsaved.name
    rw [checkIntegrity, checkIntegrity, hdesync, hname]
    cases m.desync? with
    | none => rfl
    | some d => cases d <;> rfl

/-- A mailbox that is saved in an empty cache with all its messages comes back, in whatever order
the rows do. It has all that waits to be expunged, and the figures that it had if it began with no
UID repeated. -/
theorem reloads_saved (h : m.Keepable) {unsaved : Unsaved}
    (hall : ∀ r ∈ m.store.messages, r.uid ∈ unsaved.written) :
    ∃ c, ({} : Cache).save m unsaved = .ok c ∧
      ∀ c' : Cache, c'.mailboxes = c.mailboxes → c'.messages.Perm c.messages →
        ∃ m', c'.load m.name = .ok (some m') ∧ m.ReloadsAs m' ∧
          ∀ first : Mailbox, first.Initial → first.Reaches m →
            m'.pending = m.pending ∧ (first.store.Distinct → m'.summary = m.summary) := by
  refine ⟨_, rfl, fun c' hmailboxes hperm => ?_⟩
  have htracks := (tracks_saved h hall rfl).of_perm hmailboxes hperm
  obtain ⟨m', hload, hreloads⟩ := htracks.reloads h
  refine ⟨m', hload, hreloads, fun first hinitial hreach => ⟨OrderedSet.ext fun uid => ?_, ?_⟩⟩
  · have hqueued : m.Queued := hinitial.queued.reaches hreach
    rw [hreloads.pending, and_iff_left_iff_imp]
    exact hqueued uid
  · intro hd
    have hbegin : first.Sound False False := ⟨hd, hinitial.figured, nofun, nofun⟩
    rw [hreloads.summary, summary_of_figured (hbegin.reaches hreach).figured]

/-- A mailbox without UIDs left. Both of its messages are marked as deleted, but only the first
waits to be expunged. -/
def crammed : Mailbox :=
  let a : Message :=
    { remoteId := "a", uid := .least, modseq := .zero, flags := OrderedSet.insert .deleted ∅
      decodeError := some "", localChanges := OrderedMap.insert ∅ .deleted 0 }
  let b : Message :=
    { remoteId := "b", uid := .greatest, modseq := .zero, order := 7
      flags := OrderedSet.insert (.keyword "work") (OrderedSet.insert .deleted ∅)
      envelope := { date := ⟨2024, 2, 29, 23, 59, 60, 250000000, -90⟩ } }
  ofSaved "INBOX" ⟨⟨.one⟩, none⟩
    ⟨[a, b], .ofList [("a", .least), ("b", .greatest)],
      List.pairwise_pair.2 (Nat.le_of_lt (by decide))⟩
    .zero (some "") (OrderedSet.insert .least ∅)

theorem reloads_saved_crammed :
    crammed.Keepable ∧
      ∃ c m', ({} : Cache).saveWhole crammed = .ok c ∧ c.load "INBOX" = .ok (some m') ∧
        crammed.ReloadsAs m' ∧ m'.uids.next? = none ∧
        m'.pending = OrderedSet.insert .least ∅ ∧ m'.summary = crammed.summary := by
  have hkeepable : crammed.Keepable := by decide +kernel
  have hall : ∀ r ∈ crammed.store.messages, r.uid ∈
      ({ mailbox := true, written := .ofList (crammed.store.messages.map (·.uid)) } :
        Unsaved).written :=
    fun r hr => OrderedSet.mem_ofList.2 (List.mem_map_of_mem hr)
  obtain ⟨c, hsave, hload⟩ := reloads_saved hkeepable hall
  obtain ⟨m', hload, hreloads, hagrees⟩ := hload c rfl (List.Perm.refl _)
  obtain ⟨hpending, hsummary⟩ := hagrees crammed (.ofSaved ..) (.between [])
  exact ⟨hkeepable, c, m', hsave, hload, hreloads, by rw [hreloads.uids]; rfl,
    by rw [hpending]; rfl, hsummary hkeepable.distinct⟩

/-- A mailbox with a message that the index has lost, as a change was taken back. -/
def cracked : Mailbox := (SharedMailbox.withOne.mutate SharedMailbox.removeAndRestore).2.mailbox

/-- A mailbox that was saved with two messages under one UID, of which taking a change back has left
one. -/
def undoubled : Mailbox :=
  let a : Message :=
    { remoteId := "a", uid := .least, modseq := .zero, flags := OrderedSet.insert .deleted ∅ }
  let doubled := ofSaved "INBOX" ⟨⟨.one⟩, Uid.least.next?⟩
    ⟨[a, { a with remoteId := "b" }], .ofList [("a", .least), ("b", .least)],
      List.pairwise_pair.2 (Nat.le_refl _)⟩
    .zero none ∅
  (Deed.change none ⟨[.expunge], .error (.conflict "INBOX" "given up")⟩).apply doubled

/-- What is computed anew need not agree with what the mailbox had: a broken index is right again,
and so are figures that were of more messages than there are. -/
theorem reload_computes_anew :
    (cracked.Keepable ∧ cracked.checkIntegrity = .error (.desync "INBOX" .brokenIndex) ∧
      ∃ c m', ({} : Cache).saveWhole cracked = .ok c ∧ c.load "INBOX" = .ok (some m') ∧
        m'.checkIntegrity = .ok ()) ∧
    undoubled.Keepable ∧ undoubled.summary.total = 2 ∧
      ∃ c m', ({} : Cache).saveWhole undoubled = .ok c ∧ c.load "INBOX" = .ok (some m') ∧
        m'.summary.total = 1 := by
  refine ⟨⟨by decide +kernel, by decide +kernel, _, _, rfl, rfl, by decide +kernel⟩,
    by decide +kernel, by decide +kernel, _, _, rfl, rfl, by decide +kernel⟩

end Mailbox

end MailBridge

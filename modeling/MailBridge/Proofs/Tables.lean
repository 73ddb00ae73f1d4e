import MailBridge.Proofs.Rows

/-! # What the tables have saved

What is saved of a mailbox is the list of its messages that can be read from the rows of one table,
and the head that is read from its row of the other. Both follow each way of writing to the tables,
and a mailbox is loaded from nothing else.
-/

namespace MailBridge

section Lists

variable {α β γ : Type} {l : List α}

theorem mapM_eq_some_iff {f : α → Option β} {l' : List β} :
    l.mapM f = some l' ↔ (∀ a ∈ l, (f a).isSome = true) ∧ l.filterMap f = l' := by
  induction l generalizing l' with
  | nil =>
      refine ⟨fun h => ⟨fun a ha => ?_, Option.some.inj h⟩, fun h => congrArg some h.2⟩
      cases ha
  | cons a rest ih =>
      rw [List.mapM_cons, List.forall_mem_cons]
      cases hfa : f a with
      | none => simp
      | some b =>
          rw [List.filterMap_cons_some hfa]
          simp only [Option.bind_eq_bind, Option.bind_some, Option.pure_def,
            Option.bind_eq_some_iff, ih, Option.some.injEq, Option.isSome_some, true_and]
          grind

theorem mapM_bind_mapM (f : α → Option β) (g : β → Option γ) (l : List α) :
    ((l.mapM f).bind fun l => l.mapM g) = l.mapM fun a => (f a).bind g := by
  induction l with
  | nil => rfl
  | cons a rest ih =>
      simp only [List.mapM_cons, Option.bind_eq_bind, Option.pure_def, ← ih]
      cases f a with
      | none => rfl
      | some b =>
          cases rest.mapM f with
          | none => cases hb : g b <;> simp [hb]
          | some bs => simp [List.mapM_cons]

theorem filterMap_filter_of {f : α → Option β} {p : α → Bool} {q : β → Bool}
    (h : ∀ a ∈ l, ∀ b, f a = some b → p a = q b) :
    (l.filter p).filterMap f = (l.filterMap f).filter q := by
  induction l with
  | nil => rfl
  | cons a rest ih =>
      obtain ⟨ha, hrest⟩ := List.forall_mem_cons.1 h
      cases hfa : f a with
      | none => cases hpa : p a <;> simp [hpa, hfa, ih hrest]
      | some b =>
          have hpq := ha b hfa
          cases hpa : p a <;> simp [hpa, hfa, ih hrest, ← hpq]

end Lists

/-- The messages of a mailbox that have come or changed. -/
def Unsaved.messagesOf (m : Mailbox) (unsaved : Unsaved) : List Message :=
  unsaved.written.toList.filterMap m.get?

namespace Cache

def rows (name : String) (c : Cache) : List MessageRow :=
  c.messages.filter (·.mailbox == .text name)

/-- The messages that are saved of a mailbox, each with the mark of those that wait to be
expunged. -/
def saved (name : String) (c : Cache) : List (Message × Bool) :=
  (c.rows name).filterMap MessageRow.saved?

/-- All messages that are saved of a mailbox can be read. -/
def Legible (name : String) (c : Cache) : Prop :=
  ∀ row ∈ c.rows name, row.saved?.isSome = true

variable {name : String} {c : Cache}

theorem loadMessages_eq_ok {l : List (Message × Bool)} :
    c.loadMessages name = .ok l ↔ c.Legible name ∧ c.saved name = l := by
  have hpasses : (c.rows name).mapM MessageRow.saved? = some l ↔
      c.Legible name ∧ c.saved name = l := mapM_eq_some_iff
  have hbind := mapM_bind_mapM MessageRow.read?
    (fun read => (Uid.ofNat? read.1).map fun uid => (read.2.1 uid, read.2.2)) (c.rows name)
  rw [← hpasses]
  refine Iff.trans ?_ (Iff.of_eq (congrArg (· = some l) hbind))
  unfold loadMessages
  rw [← rows]
  split
  · next hnone => simp [hnone]
  · next read hread =>
    rw [hread, Option.bind_some]
    split
    · next hnone => simp [hnone]
    · next messages hmessages => simp [hmessages]

/-! ## Writing to the tables -/

theorem mem_rows {row : MessageRow} :
    row ∈ c.rows name ↔ row ∈ c.messages ∧ row.mailbox = .text name := by
  simp [rows]

theorem saved_filter {p : MessageRow → Bool} {q : Message × Bool → Bool}
    (h : ∀ row, row.mailbox = .text name → ∀ e, row.saved? = some e → p row = q e) :
    ({ c with messages := c.messages.filter p } : Cache).saved name = (c.saved name).filter q := by
  have hrows : ({ c with messages := c.messages.filter p } : Cache).rows name =
      (c.rows name).filter p := by
    simp [rows, List.filter_filter, Bool.and_comm]
  rw [saved, hrows]
  exact filterMap_filter_of fun row hrow e he => h row (mem_rows.1 hrow).2 e he

theorem Legible.filter (h : c.Legible name) (p : MessageRow → Bool) :
    ({ c with messages := c.messages.filter p } : Cache).Legible name := by
  intro row hrow
  obtain ⟨hmem, hname⟩ := mem_rows.1 hrow
  exact h row (mem_rows.2 ⟨List.mem_filter.1 hmem |>.1, hname⟩)

theorem saved_deleteMessages : (c.deleteMessages name).saved name = [] := by
  have hnone : (c.deleteMessages name).saved name = (c.saved name).filter fun _ => false :=
    saved_filter fun row hrow _ _ => by simp [hrow]
  rw [hnone]
  simp

theorem saved_deleteMessage (uid : Uid) : (c.deleteMessage name uid.val).saved name =
    (c.saved name).filter fun e => e.1.uid ≠ uid := by
  refine saved_filter fun row hrow e he => ?_
  obtain ⟨huid, _, _⟩ := MessageRow.key_of_saved? he
  simp [hrow, huid, Uid.cell_beq]

theorem clashes_ofMessage {r : Message} {pending : Bool} {row : MessageRow} {e : Message × Bool}
    (hname : row.mailbox = .text name) (he : row.saved? = some e) :
    (MessageRow.ofMessage name pending r).clashes row =
      decide (r.uid = e.1.uid ∨ r.remoteId = e.1.remoteId) := by
  obtain ⟨huid, hid, _⟩ := MessageRow.key_of_saved? he
  have hcell := Cell.ofNat_uid r.uid
  rw [Bool.eq_iff_iff]
  simp [MessageRow.clashes, MessageRow.ofMessage, hname, huid, hid, hcell, Uid.cell_agrees]

theorem saved_append {row : MessageRow} {e : Message × Bool} (hname : row.mailbox = .text name)
    (he : row.saved? = some e) :
    ({ c with messages := c.messages ++ [row] } : Cache).saved name = c.saved name ++ [e] := by
  have hrow : (row.mailbox == .text name) = true := beq_iff_eq.2 hname
  simp [saved, rows, List.filter_append, hrow, he]

theorem Legible.append (h : c.Legible name) {row : MessageRow} {e : Message × Bool}
    (he : row.saved? = some e) :
    ({ c with messages := c.messages ++ [row] } : Cache).Legible name := by
  intro x hx
  obtain ⟨hmem, hname⟩ := mem_rows.1 hx
  rcases List.mem_append.1 hmem with hmem | hmem
  · exact h x (mem_rows.2 ⟨hmem, hname⟩)
  · rw [List.mem_singleton.1 hmem, he, Option.isSome_some]

/-- A message that is written takes the place of those with its UID or its remote name. -/
theorem saved_writeMessage {r : Message} (h : r.Writable) (pending : Bool) :
    (c.writeMessage (.ofMessage name pending r)).saved name =
      ((c.saved name).filter fun e => decide (e.1.uid ≠ r.uid ∧ e.1.remoteId ≠ r.remoteId)) ++
        [(r.plain, pending)] := by
  refine Eq.trans (saved_append (c := { c with messages := c.messages.filter _ }) rfl
    (MessageRow.saved?_ofMessage h name pending)) ?_
  congr 1
  refine saved_filter fun row hrow e he => ?_
  rw [clashes_ofMessage hrow he, Bool.eq_iff_iff]
  simp [eq_comm (a := r.uid), eq_comm (a := r.remoteId)]

theorem Legible.writeMessage (h : c.Legible name) {r : Message} (hr : r.Writable)
    (pending : Bool) : (c.writeMessage (.ofMessage name pending r)).Legible name :=
  (h.filter _).append (MessageRow.saved?_ofMessage hr name pending)

/-! ## The head of a mailbox -/

/-- What is saved of a mailbox beside its messages. -/
def head? (name : String) (c : Cache) : Option MailboxHead :=
  (c.mailboxes.find? (·.name == .text name)).bind MailboxRow.head?

/-- The mailbox made of a head and saved messages. -/
def restore (name : String) (head : MailboxHead) (saved : List (Message × Bool)) : Mailbox :=
  .ofSaved name head.uids (.ofMessages (saved.map (·.1))) head.modseq head.cursor
    (.ofList ((saved.filter (·.2)).map (·.1.uid)))

theorem load_eq_ok {m : Mailbox} : c.load name = .ok (some m) ↔
    c.Legible name ∧ ∃ head, c.head? name = some head ∧ restore name head (c.saved name) = m := by
  unfold load head?
  cases c.mailboxes.find? (·.name == .text name) with
  | none => simp
  | some row =>
      dsimp only
      rw [Option.bind_some]
      split
      · next validity next modseq cursor hvalidity hnext hmodseq hcursor =>
        simp only [MailboxRow.head?, hvalidity, hnext, hmodseq, hcursor, Option.bind_eq_bind,
          Option.bind_some, Option.pure_def]
        split
        · next hnone => simp [hnone]
        · next validity hsome =>
          rw [hsome, Option.bind_some]
          split
          · next e herror =>
            refine ⟨fun h => (by cases h), fun h => ?_⟩
            have hok := loadMessages_eq_ok.2 ⟨h.1, rfl⟩
            rw [herror] at hok
            cases hok
          · next messages hmessages =>
            obtain ⟨hlegible, rfl⟩ := loadMessages_eq_ok.1 hmessages
            simp [hlegible, restore]
      · next hunread =>
        refine ⟨fun h => (by cases h), fun h => ?_⟩
        obtain ⟨_, head, hhead, _⟩ := h
        simp only [MailboxRow.head?, Option.bind_eq_bind, Option.bind_eq_some_iff] at hhead
        obtain ⟨_, hvalidity, _, hnext, _, hmodseq, _, hcursor, _⟩ := hhead
        exact absurd hcursor (hunread _ _ _ _ hvalidity hnext hmodseq)

theorem load_eq_none :
    c.load name = .ok none ↔ c.mailboxes.find? (·.name == .text name) = none := by
  unfold load
  cases c.mailboxes.find? (·.name == .text name) with
  | none => simp
  | some row =>
      refine iff_of_false (fun h => ?_) (Option.some_ne_none row)
      dsimp only at h
      split at h
      · split at h
        · cases h
        · split at h <;> cases h
      · cases h

theorem head?_writeMailbox {m : Mailbox} (h : m.modseq.val ≤ maxSigned) :
    (c.writeMailbox (.ofMailbox m)).head? m.name = some m.head := by
  have hothers : (c.mailboxes.filter fun row => !(MailboxRow.ofMailbox m).clashes row).find?
      (·.name == .text m.name) = none := by
    rw [List.find?_eq_none]
    intro row hrow hname
    have hclash := (List.mem_filter.1 hrow).2
    simp [MailboxRow.clashes, MailboxRow.ofMailbox, beq_iff_eq.1 hname] at hclash
  have hown : ((MailboxRow.ofMailbox m).name == .text m.name) = true := beq_self_eq_true _
  rw [head?, writeMailbox, List.find?_append, hothers, Option.none_or, List.find?_cons, hown]
  exact MailboxRow.head?_ofMailbox h

/-! ## Saving -/

def deleteAll (name : String) (uids : List Uid) (c : Cache) : Cache :=
  uids.foldl (fun c uid => c.deleteMessage name uid.val) c

/-- Writes messages of a mailbox, marked as they wait to be expunged or not. -/
def writeAll (name : String) (pending : OrderedSet Uid) (l : List Message) (c : Cache) : Cache :=
  l.foldl (fun c r => c.writeMessage (.ofMessage name (decide (r.uid ∈ pending)) r)) c

def entryOf (pending : OrderedSet Uid) (r : Message) : Message × Bool :=
  (r.plain, decide (r.uid ∈ pending))

theorem mailboxes_deleteAll (uids : List Uid) :
    (c.deleteAll name uids).mailboxes = c.mailboxes := by
  induction uids generalizing c with
  | nil => rfl
  | cons uid rest ih => exact ih

theorem mailboxes_writeAll (pending : OrderedSet Uid) (l : List Message) :
    (c.writeAll name pending l).mailboxes = c.mailboxes := by
  induction l generalizing c with
  | nil => rfl
  | cons r rest ih => exact ih

theorem Legible.deleteAll (h : c.Legible name) (uids : List Uid) :
    (c.deleteAll name uids).Legible name := by
  induction uids generalizing c with
  | nil => exact h
  | cons uid rest ih => exact ih (h.filter _)

theorem Legible.writeAll (h : c.Legible name) {l : List Message} (hl : ∀ r ∈ l, r.Writable)
    (pending : OrderedSet Uid) : (c.writeAll name pending l).Legible name := by
  induction l generalizing c with
  | nil => exact h
  | cons r rest ih =>
      obtain ⟨hr, hrest⟩ := List.forall_mem_cons.1 hl
      exact ih (h.writeMessage hr _) hrest

theorem saved_deleteAll (uids : List Uid) : (c.deleteAll name uids).saved name =
    (c.saved name).filter fun e => decide (e.1.uid ∉ uids) := by
  induction uids generalizing c with
  | nil => exact (List.filter_eq_self.2 fun e _ => by simp).symm
  | cons uid rest ih =>
      refine Eq.trans ih ?_
      rw [saved_deleteMessage, List.filter_filter]
      refine List.filter_congr fun e _ => ?_
      simp [Bool.and_comm]

/-- Messages that do not get in each other's way take the places of all that were in theirs. -/
theorem saved_writeAll {l : List Message} (hl : ∀ r ∈ l, r.Writable)
    (hapart : l.Pairwise fun a b => a.uid ≠ b.uid ∧ a.remoteId ≠ b.remoteId)
    (pending : OrderedSet Uid) : (c.writeAll name pending l).saved name =
      ((c.saved name).filter fun e =>
        decide (∀ r ∈ l, e.1.uid ≠ r.uid ∧ e.1.remoteId ≠ r.remoteId)) ++
        l.map (entryOf pending) := by
  induction l generalizing c with
  | nil =>
      rw [List.map_nil, List.append_nil]
      exact (List.filter_eq_self.2 fun e _ => by simp).symm
  | cons r rest ih =>
      obtain ⟨hr, hrest⟩ := List.forall_mem_cons.1 hl
      obtain ⟨hfirst, hapart⟩ := List.pairwise_cons.1 hapart
      refine Eq.trans (ih hrest hapart) ?_
      -- the message that was written first stays
      have hstays : [entryOf pending r].filter (fun e =>
          decide (∀ x ∈ rest, e.1.uid ≠ x.uid ∧ e.1.remoteId ≠ x.remoteId)) =
            [entryOf pending r] :=
        List.filter_eq_self.2 fun e he => by
          rw [List.mem_singleton.1 he]
          exact decide_eq_true hfirst
      rw [saved_writeMessage hr, List.filter_append, List.filter_filter, List.append_assoc]
      refine congr (congrArg _ ?_) ?_
      · refine List.filter_congr fun e _ => ?_
        rw [Bool.eq_iff_iff]
        simp [and_comm]
      · exact congrArg (· ++ rest.map (entryOf pending)) hstays

theorem save_ok {m : Mailbox} {unsaved : Unsaved} {c' : Cache} (h : c.save m unsaved = .ok c')
    (hlegible : c.Legible m.name) (hmodseq : m.modseq.val ≤ maxSigned)
    (hwritten : ∀ r ∈ unsaved.messagesOf m, r.Writable)
    (hapart : (unsaved.messagesOf m).Pairwise fun a b =>
      a.uid ≠ b.uid ∧ a.remoteId ≠ b.remoteId) :
    c'.Legible m.name ∧ c'.head? m.name = some m.head ∧
      c'.saved m.name =
        ((c.saved m.name).filter fun e => decide (unsaved.reset = false ∧
          e.1.uid ∉ unsaved.removed ∧ ∀ r ∈ unsaved.messagesOf m,
            e.1.uid ≠ r.uid ∧ e.1.remoteId ≠ r.remoteId)) ++
          (unsaved.messagesOf m).map (entryOf m.pending) := by
  unfold save at h
  dsimp only at h
  rw [← Unsaved.messagesOf] at h
  generalize unsaved.messagesOf m = written at *
  split at h
  · cases h
  · have hbase : ∃ base : Cache, c' = (base.deleteAll m.name unsaved.removed.toList).writeAll
        m.name m.pending written ∧ base.Legible m.name ∧ base.head? m.name = some m.head ∧
        base.saved m.name = (c.saved m.name).filter fun _ => decide (unsaved.reset = false) := by
      refine ⟨_, (Except.ok.inj h).symm, ?_⟩
      have hhead := head?_writeMailbox (c := c) hmodseq
      cases unsaved.reset with
      | true => exact ⟨hlegible.filter _, hhead, saved_deleteMessages.trans (by simp)⟩
      | false =>
          refine ⟨hlegible, hhead, ?_⟩
          exact (List.filter_eq_self.2 fun _ _ => rfl).symm
    obtain ⟨base, rfl, hbase, hhead, hsaved⟩ := hbase
    refine ⟨(hbase.deleteAll _).writeAll hwritten _, ?_, ?_⟩
    · rw [head?, mailboxes_writeAll, mailboxes_deleteAll]
      exact hhead
    · rw [saved_writeAll hwritten hapart, saved_deleteAll, hsaved, List.filter_filter,
        List.filter_filter]
      congr 1
      refine List.filter_congr fun e _ => ?_
      rw [Bool.eq_iff_iff]
      simp [OrderedSet.mem_def]
      grind

end Cache

end MailBridge

import MailBridge.Proofs.Poll

/-! # What a client can know of the view of its session

A client is told how many messages there are when it selects the mailbox, and from then on only
what goes and how many there are when messages have come. If it takes out the messages that go one
by one, each at the sequence number it is told, it knows the view of its session at any time.
-/

namespace MailBridge

open SharedMailbox Snapshot

/-! ## The client -/

/-- What an answer tells of messages that are gone. -/
def goneBy : Except SessionError Response → List (Seqnum × Uid)
  | .ok (.expunged gone) => gone
  | .ok (.missed report) => report.expunged
  | _ => []

/-- The number of messages that an answer tells. -/
def totalBy? : Except SessionError Response → Option Nat
  | .ok (.selected report) => some report.summary.total
  | .ok (.missed report) => report.total?
  | _ => none

/-- What a client knows: the UIDs of the messages at their positions, and the UIDs of those that
it was told are gone. -/
structure Mirror where
  uids : List Uid := []
  reported : List Uid := []
deriving DecidableEq

namespace Mirror

/-- Takes out the message at a sequence number, which has to have the given UID. -/
def expunge? (k : Mirror) (gone : Seqnum × Uid) : Option Mirror :=
  if k.uids[gone.1.toIndex]? = some gone.2 then
    some ⟨k.uids.eraseIdx gone.1.toIndex, k.reported ++ [gone.2]⟩
  else none

/-- Raises the number of messages. The client asks for the UIDs of the new ones, each of which has
to be in the view of its session. -/
def grow? (view : List Uid) (k : Mirror) : Option Nat → Option Mirror
  | none => some k
  | some total =>
    if total ≤ view.length then
      some { k with uids := k.uids ++ (view.take total).drop k.uids.length }
    else none

/-- What a client makes of an answer when its session has the given view. -/
def hear? (view : List Uid) (answer : Except SessionError Response) (k : Mirror) : Option Mirror :=
  ((goneBy answer).foldlM expunge? k).bind fun k => k.grow? view (totalBy? answer)

end Mirror

namespace Attended

def view (client : String) (w : Attended) : List Uid :=
  match w.selections.get? client with
  | some selection => selection.snapshot.entries.map (·.uid)
  | none => []

/-- What a client knows after an action: it hears the answers to its own requests. -/
def follow? (client : String) (w : Attended) (k : Mirror) (a : Action) : Option Mirror :=
  if a.client? = some client then k.hear? ((w.act a).2.view client) (w.act a).1 else some k

def followAll? (client : String) : List Action → Attended → Mirror → Option Mirror
  | [], _, k => some k
  | a :: rest, w, k => (w.follow? client k a).bind ((w.act a).2.followAll? client rest)

/-- What a client knows that selects the mailbox before some actions. -/
def know? (client : String) (isReadOnly : Bool) (after : List Action) (w : Attended) :
    Option Mirror :=
  let (answer, w) := w.act (.select client isReadOnly)
  (Mirror.hear? (w.view client) answer {}).bind (w.followAll? client after)

end Attended

/-! ## One answer -/

namespace Mirror

theorem expunge?_append (front rest reported : List Uid) (uid : Uid) {i : Nat}
    (hi : i = front.length) (hlt : i < maxWord) :
    expunge? ⟨front ++ uid :: rest, reported⟩ (.ofIndex i, uid) =
      some ⟨front ++ rest, reported ++ [uid]⟩ := by
  subst hi
  unfold expunge?
  dsimp only
  rw [Seqnum.toIndex_ofIndex hlt, List.getElem?_append_right (Nat.le_refl _),
    List.eraseIdx_append_of_length_le (Nat.le_refl _)]
  simp

/-- A client that takes out the messages that it is told are gone has those that are left. -/
theorem expunge?_removedFrom (gone : Uid → Bool) (l : List SnapshotEntry)
    (front reported : List Uid) {i : Nat} (hi : i = front.length)
    (hle : i + l.length ≤ maxWord) :
    (removedFrom gone i l).foldlM expunge? ⟨front ++ l.map (·.uid), reported⟩ =
      some ⟨front ++ (l.filter fun e => !gone e.uid).map (·.uid),
        reported ++ (l.filter fun e => gone e.uid).map (·.uid)⟩ := by
  induction l generalizing front reported i with
  | nil => simp [removedFrom]
  | cons e rest ih =>
      rw [List.length_cons] at hle
      unfold removedFrom
      cases hgone : gone e.uid with
      | true =>
          rw [if_pos rfl, List.foldlM_cons, List.map_cons,
            expunge?_append front _ reported e.uid hi (by omega)]
          refine (ih front (reported ++ [e.uid]) hi (by omega)).trans ?_
          simp [hgone]
      | false =>
          have hnext := ih (front ++ [e.uid]) reported (i := i + 1) (by simp [hi]) (by omega)
          simp only [List.append_assoc, List.singleton_append] at hnext
          rw [if_neg Bool.false_ne_true, List.map_cons, hnext]
          simp [hgone]

theorem grow?_append (front added reported : List Uid) {total? : Option Nat}
    (h : (total? = none ∧ added = []) ∨ total? = some (front ++ added).length) :
    grow? (front ++ added) ⟨front, reported⟩ total? = some ⟨front ++ added, reported⟩ := by
  rcases h with ⟨rfl, rfl⟩ | rfl
  · rw [List.append_nil]
    rfl
  · unfold grow?
    dsimp only
    rw [if_pos (Nat.le_refl _), List.take_length, List.drop_left]

end Mirror

/-- What an answer tells leads from one view to the next: some messages go, and some that the
mailbox has come. -/
structure Tells (s s' : Snapshot) (m m' : Mailbox) (answer : Except SessionError Response)
    (gone : Uid → Bool) (added : List Uid) : Prop where
  expunged : goneBy answer = removedFrom gone 0 s.entries
  view : s'.entries.map (·.uid) =
    (s.entries.filter fun e => !gone e.uid).map (·.uid) ++ added
  total : (totalBy? answer = none ∧ added = []) ∨ totalBy? answer = some s'.entries.length
  validity : s'.validity = s.validity
  current : ∀ e ∈ s.entries, gone e.uid = true → s.validity = m.uids.validity
  absent : ∀ e ∈ s.entries, gone e.uid = true → ∀ r ∈ m'.store.messages, r.uid ≠ e.uid
  present : ∀ uid ∈ added, ∃ r ∈ m'.store.messages, r.uid = uid

theorem Tells.nothing {s : Snapshot} {m m' : Mailbox} {answer : Except SessionError Response}
    (hgone : goneBy answer = []) (htotal : totalBy? answer = none) :
    Tells s s m m' answer (fun _ => false) [] where
  expunged := by
    have hnone : s.removeWhere (fun _ => false) = ([], s) := removeWhere_none fun _ _ => rfl
    rw [hgone]
    exact (congrArg Prod.fst hnone).symm
  view := by
    have hall : s.entries.filter (fun e => !false) = s.entries :=
      List.filter_eq_self.2 fun _ _ => rfl
    rw [hall, List.append_nil]
  total := .inl ⟨htotal, rfl⟩
  validity := rfl
  current e _ h := by cases h
  absent e _ h := by cases h
  present uid h := by cases h

theorem Tells.hear? {s s' : Snapshot} {m m' : Mailbox} {answer : Except SessionError Response}
    {gone : Uid → Bool} {added : List Uid} (h : Tells s s' m m' answer gone added)
    (hasc : Ascending SnapshotEntry.uid s.entries) (reported : List Uid) :
    Mirror.hear? (s'.entries.map (·.uid)) answer ⟨s.entries.map (·.uid), reported⟩ =
      some ⟨s'.entries.map (·.uid),
        reported ++ (s.entries.filter fun e => gone e.uid).map (·.uid)⟩ := by
  have hreplay := Mirror.expunge?_removedFrom gone s.entries [] reported (i := 0) rfl
    (by rw [Nat.zero_add]; exact hasc.length_le)
  rw [List.nil_append, List.nil_append] at hreplay
  unfold Mirror.hear?
  rw [h.expunged, hreplay, Option.bind_some, h.view]
  refine Mirror.grow?_append _ added _ ?_
  rw [← h.view, List.length_map]
  exact h.total

theorem exists_of_mem_gone {entries : List SnapshotEntry} {gone : Uid → Bool} {uid : Uid}
    (h : uid ∈ (entries.filter fun e => gone e.uid).map (·.uid)) :
    ∃ e ∈ entries, gone e.uid = true ∧ e.uid = uid := by
  obtain ⟨e, he, heq⟩ := List.mem_map.1 h
  exact ⟨e, (List.mem_filter.1 he).1, (List.mem_filter.1 he).2, heq⟩

theorem Tells.mem_view {s s' : Snapshot} {m m' : Mailbox} {answer : Except SessionError Response}
    {gone : Uid → Bool} {added : List Uid} (h : Tells s s' m m' answer gone added)
    {e' : SnapshotEntry} (he' : e' ∈ s'.entries) :
    (∃ e ∈ s.entries, gone e.uid = false ∧ e.uid = e'.uid) ∨
      ∃ r ∈ m'.store.messages, r.uid = e'.uid := by
  have hmem := List.mem_map_of_mem (f := fun e => e.uid) he'
  rw [h.view] at hmem
  rcases List.mem_append.1 hmem with hkept | hadded
  · obtain ⟨e, he, heq⟩ := List.mem_map.1 hkept
    exact .inl ⟨e, (List.mem_filter.1 he).1, by simpa using (List.mem_filter.1 he).2, heq⟩
  · exact .inr (h.present _ hadded)

theorem Tells.current_before {s s' : Snapshot} {m m' : Mailbox}
    {answer : Except SessionError Response} {gone : Uid → Bool} {added : List Uid}
    (h : Tells s s' m m' answer gone added) (hcurrent : s'.Current m') : s.Current m' :=
  ⟨h.validity.symm.trans hcurrent.validity, hcurrent.below⟩

/-- What a client knows is the view of its session. While the mailbox is in the epoch of the view,
no UID that was reported to be gone is in view, in the mailbox or still to be issued. -/
structure Mirror.Mirrors (issued : Prop) (k : Mirror) (s : Snapshot) (m : Mailbox) : Prop where
  uids : k.uids = s.entries.map (·.uid)
  once : issued → m.uids.validity.val < maxWord → k.reported.Nodup
  below : issued → s.Current m → ∀ uid ∈ k.reported, uid.val < m.uids.bound
  unseen : issued → s.Current m → ∀ uid ∈ k.reported, ∀ e ∈ s.entries, e.uid ≠ uid
  absent : issued → s.Current m → ∀ uid ∈ k.reported, ∀ r ∈ m.store.messages, r.uid ≠ uid

namespace Mirror.Mirrors

variable {issued counted : Prop} {k : Mirror} {s s' : Snapshot} {m m' : Mailbox}

theorem gone_later (h : k.Mirrors issued s m) (hs : s.Follows issued counted m) (hl : m.Later m')
    (hissued : issued) (hcurrent : s.Current m') :
    (∀ uid ∈ k.reported, uid.val < m'.uids.bound) ∧
      ∀ uid ∈ k.reported, ∀ r ∈ m'.store.messages, r.uid ≠ uid := by
  obtain ⟨hbefore, hc⟩ := hcurrent.before hs.validity hl
  have hbelow := h.below hissued hbefore
  refine ⟨fun uid huid => Nat.lt_of_lt_of_le (hbelow uid huid) hc.bound,
    fun uid huid r' hr' heq => ?_⟩
  rcases hc.origin r' hr' with ⟨r, hr, hbecomes⟩ | hnew
  · exact h.absent hissued hbefore uid huid r hr (hbecomes.uid.symm.trans heq)
  · have := hbelow uid huid
    rw [heq] at hnew
    omega

theorem later (h : k.Mirrors issued s m) (hs : s.Follows issued counted m) (hl : m.Later m') :
    k.Mirrors issued s m' where
  uids := h.uids
  once hissued hvalidity := h.once hissued (Nat.lt_of_le_of_lt hl.validity hvalidity)
  below hissued hcurrent := (h.gone_later hs hl hissued hcurrent).1
  unseen hissued hcurrent := h.unseen hissued (hcurrent.before hs.validity hl).1
  absent hissued hcurrent := (h.gone_later hs hl hissued hcurrent).2

variable {answer : Except SessionError Response} {gone : Uid → Bool} {added : List Uid}

theorem once_tells (h : k.Mirrors issued s m) (hs : s.Follows issued counted m)
    (hl : m.Later m') (ht : Tells s s' m m' answer gone added) (hissued : issued)
    (hvalidity : m'.uids.validity.val < maxWord) :
    (k.reported ++ (s.entries.filter fun e => gone e.uid).map (·.uid)).Nodup := by
  have hbefore := Nat.lt_of_le_of_lt hl.validity hvalidity
  have hgone : ((s.entries.filter fun e => gone e.uid).map (·.uid)).Nodup :=
    List.pairwise_map.2 ((hs.ascending.filter _).imp fun hab heq => by
      rw [heq] at hab
      exact Nat.lt_irrefl _ hab)
  refine List.nodup_append.2 ⟨h.once hissued hbefore, hgone, fun uid huid uid' huid' heq => ?_⟩
  -- an expunged message was in view, where no UID is that was reported before
  obtain ⟨e, he, hegone, rfl⟩ := exists_of_mem_gone huid'
  exact h.unseen hissued ⟨ht.current e he hegone, hbefore⟩ uid huid e he heq.symm

theorem below_tells (h : k.Mirrors issued s m) (hs : s.Follows issued counted m)
    (hl : m.Later m') (hissued : issued) (hcurrent : s.Current m') :
    ∀ uid ∈ k.reported ++ (s.entries.filter fun e => gone e.uid).map (·.uid),
      uid.val < m'.uids.bound := by
  intro uid huid
  rcases List.mem_append.1 huid with hreported | hgone
  · exact (h.gone_later hs hl hissued hcurrent).1 uid hreported
  · obtain ⟨e, he, _, rfl⟩ := exists_of_mem_gone hgone
    obtain ⟨hbefore, hc⟩ := hcurrent.before hs.validity hl
    exact Nat.lt_of_lt_of_le ((hs.covers hissued hbefore).below e he) hc.bound

theorem absent_tells (h : k.Mirrors issued s m) (hs : s.Follows issued counted m)
    (hl : m.Later m') (ht : Tells s s' m m' answer gone added) (hissued : issued)
    (hcurrent : s.Current m') :
    ∀ uid ∈ k.reported ++ (s.entries.filter fun e => gone e.uid).map (·.uid),
      ∀ r ∈ m'.store.messages, r.uid ≠ uid := by
  intro uid huid
  rcases List.mem_append.1 huid with hreported | hgone
  · exact (h.gone_later hs hl hissued hcurrent).2 uid hreported
  · obtain ⟨e, he, hegone, rfl⟩ := exists_of_mem_gone hgone
    exact ht.absent e he hegone

theorem unseen_tells (h : k.Mirrors issued s m) (hs : s.Follows issued counted m)
    (hl : m.Later m') (ht : Tells s s' m m' answer gone added) (hissued : issued)
    (hcurrent : s.Current m') :
    ∀ uid ∈ k.reported ++ (s.entries.filter fun e => gone e.uid).map (·.uid),
      ∀ e' ∈ s'.entries, e'.uid ≠ uid := by
  intro uid huid e' he' heq
  rcases ht.mem_view he' with ⟨e, he, hkept, hu⟩ | ⟨r, hr, hu⟩
  · rcases List.mem_append.1 huid with hreported | hgone
    · exact h.unseen hissued (hcurrent.before hs.validity hl).1 uid hreported e he (hu.trans heq)
    · obtain ⟨x, _, hxgone, rfl⟩ := exists_of_mem_gone hgone
      rw [← heq, ← hu, hkept] at hxgone
      cases hxgone
  · exact h.absent_tells hs hl ht hissued hcurrent uid huid r hr (hu.trans heq)

theorem tells (h : k.Mirrors issued s m) (hs : s.Follows issued counted m) (hl : m.Later m')
    (ht : Tells s s' m m' answer gone added) :
    ∃ k', k.hear? (s'.entries.map (·.uid)) answer = some k' ∧ k'.Mirrors issued s' m' := by
  have hheard := ht.hear? hs.ascending k.reported
  rw [← h.uids] at hheard
  exact ⟨_, hheard, {
    uids := rfl
    once := h.once_tells hs hl ht
    below := fun hissued hcurrent => h.below_tells hs hl hissued (ht.current_before hcurrent)
    unseen := fun hissued hcurrent =>
      h.unseen_tells hs hl ht hissued (ht.current_before hcurrent)
    absent := fun hissued hcurrent =>
      h.absent_tells hs hl ht hissued (ht.current_before hcurrent) }⟩

end Mirror.Mirrors

/-! ## One request -/

namespace Selection

variable {issued counted : Prop} {α : Type} {m m' : SharedMailbox} {s s' : Selection} {b : Mailbox}

/-- The view of a session that still has the mailbox selected is as it was. -/
def Quiet (s : Selection) (o : Outcome α) : Prop := ∀ s', o.selection? = some s' → s' = s

theorem quiet_stay (answer : Except SessionError α) (m : SharedMailbox) :
    s.Quiet (s.stay answer m) := by
  intro s' h
  cases h
  rfl

theorem quiet_leave (answer : Except SessionError α) (m : SharedMailbox) :
    s.Quiet (leave answer m) := by
  intro s' h
  cases h

theorem quiet_whileValid {command : SharedMailbox → Selection → Outcome α}
    (h : s.Quiet (command m s)) : s.Quiet (whileValid command m s) := by
  unfold whileValid
  split
  · exact h
  · exact quiet_leave _ _

theorem quiet_fetch (set : MessageSet) : s.Quiet (fetch set m s) := by
  refine quiet_whileValid ?_
  split <;> exact quiet_stay _ _

theorem quiet_search (key : SearchKey) : s.Quiet (search key m s) :=
  quiet_whileValid (quiet_stay _ _)

theorem quiet_store (now : Instant) (set : MessageSet) (delta : Flags) (mode : StoreMode) :
    s.Quiet (store now set delta mode m s) := by
  refine quiet_whileValid ?_
  dsimp only
  split
  · exact quiet_stay _ _
  · split
    · exact quiet_stay _ _
    · exact quiet_stay _ _
    · split <;> exact quiet_stay _ _

theorem quiet_close : s.Quiet (close m s) := by
  unfold close
  split
  · exact quiet_leave _ _
  · split
    · exact quiet_stay _ _
    · exact quiet_leave _ _

theorem tells_quiet {o : Outcome α} (h : s.Quiet o) {f : α → Response}
    (hgone : ∀ a, goneBy (.ok (f a)) = []) (htotal : ∀ a, totalBy? (.ok (f a)) = none)
    (hs' : (o.map f).selection? = some s') : ∃ gone added,
      Tells s.snapshot s'.snapshot m.mailbox (o.map f).mailbox.mailbox (o.map f).answer gone
        added := by
  rw [h s' hs']
  refine ⟨_, _, .nothing ?_ ?_⟩
  · unfold Outcome.map
    cases o.answer with
    | error e => rfl
    | ok a => exact hgone a
  · unfold Outcome.map
    cases o.answer with
    | error e => rfl
    | ok a => exact htotal a

theorem tells_expunge (hm : m.mailbox.Sound issued counted)
    (hs' : ((expunge m s).map Response.expunged).selection? = some s') : ∃ gone added,
      Tells s.snapshot s'.snapshot m.mailbox (expunge m s).mailbox.mailbox
        ((expunge m s).answer.map Response.expunged) gone added := by
  rcases expunge_cases m s with
    ⟨e, m', _, heq | heq⟩ | ⟨removed, m', _, hvalid, hgone, heq⟩
  · rw [heq] at hs' ⊢
    cases hs'
    exact ⟨_, _, .nothing rfl rfl⟩
  · rw [heq] at hs'
    cases hs'
  · rw [heq] at hs' ⊢
    cases hs'
    refine ⟨fun uid => decide (uid ∈ removed), [], rfl, (List.append_nil _).symm, .inl ⟨rfl, rfl⟩,
      rfl, fun _ _ _ => ?_, fun e _ hremoved r hr hu => ?_, fun uid h => by cases h⟩
    · rw [← hvalid, Mailbox.summary_of_figured hm.figured]
      rfl
    · rw [← hu] at hremoved
      exact hgone hm.distinct r hr (of_decide_eq_true hremoved)

/-- A poll that looks at the mailbox in the epoch of the view tells all that the view has missed. -/
theorem LooksAt.tells {b : Mailbox} {m' : SharedMailbox} {changes : Bool}
    (h : s.LooksAt m changes b m') (hd : b.store.Distinct)
    (hasc : Ascending SnapshotEntry.uid s.snapshot.entries)
    (hcurrent : b.uids.validity = s.snapshot.validity) :
    Tells s.snapshot (s.snapshot.catchUp (b.changesSince s.snapshot)).2 m.mailbox m'.mailbox
      (.ok (.missed (s.snapshot.catchUp (b.changesSince s.snapshot)).1))
      (fun uid => (b.get? uid).isNone) ((b.arrived s.snapshot).map (·.uid)) where
  expunged := (Mailbox.catchUp_spec hasc hd).2.1
  view := by
    have hsome : s.snapshot.entries.filter (fun e => (b.get? e.uid).isSome) =
        s.snapshot.entries.filter fun e => !(b.get? e.uid).isNone :=
      List.filter_congr fun e _ => by simp
    rw [(Mailbox.catchUp_spec hasc hd).1, Mailbox.caughtUp, List.map_append, List.map_map,
      List.map_map, hsome]
    exact congrArg (· ++ _) (List.map_congr_left fun e _ => Mailbox.refresh_uid b e)
  total := by
    obtain ⟨hview, _, _, htotal⟩ := Mailbox.catchUp_spec hasc hd
    rw [hview]
    by_cases hempty : (b.arrived s.snapshot).isEmpty
    · refine .inl ⟨htotal.trans (if_pos hempty), ?_⟩
      rw [List.isEmpty_iff.1 hempty]
      rfl
    · exact .inr (htotal.trans (if_neg hempty))
  validity := by rw [(Mailbox.catchUp_spec hasc hd).1]
  current _ _ _ := by rw [← hcurrent, (h.spec hd).1]
  absent e _ hnone r hr hu := by
    have halike := (h.spec hd).2.2.1
    have hget := halike.get? hd e.uid
    rw [Option.isNone_iff_eq_none.1 hnone, Option.map_none, Option.map_eq_none_iff] at hget
    exact (MessageStore.get?_eq_none (halike.distinct hd)).1 hget r hr hu
  present uid huid := by
    obtain ⟨r, hr, rfl⟩ := List.mem_map.1 huid
    have hmem := List.mem_map_of_mem (f := Message.state) (List.mem_filter.1 hr).1
    rw [← (h.spec hd).2.2.1.messages] at hmem
    obtain ⟨r', hr', hstate⟩ := List.mem_map.1 hmem
    exact ⟨r', hr', congrArg Prod.fst hstate⟩

theorem tells_poll (hm : m.mailbox.Sound issued counted)
    (hs : s.snapshot.Follows issued counted m.mailbox)
    (hs' : ((poll m s).map Response.missed).selection? = some s') : ∃ gone added,
      Tells s.snapshot s'.snapshot m.mailbox (poll m s).mailbox.mailbox
        ((poll m s).answer.map Response.missed) gone added := by
  rcases poll_cases m s with ⟨e, m', _, _, heq⟩ | ⟨b, m', hlooks, heq⟩
  · rw [heq] at hs' ⊢
    cases hs'
    exact ⟨_, _, .nothing rfl rfl⟩
  · rw [heq] at hs' ⊢
    unfold report at hs' ⊢
    split at hs'
    · next hcurrent =>
      cases hs'
      rw [if_pos hcurrent]
      exact ⟨_, _, hlooks.tells (hlooks.sound hm).1.distinct hs.ascending hcurrent⟩
    · cases hs'

end Selection

theorem Request.tells {issued counted : Prop} {m : SharedMailbox} {s s' : Selection}
    (hm : m.mailbox.Sound issued counted) (hs : s.snapshot.Follows issued counted m.mailbox)
    (r : Request) (hs' : (r.serve m s).selection? = some s') : ∃ gone added,
      Tells s.snapshot s'.snapshot m.mailbox (r.serve m s).mailbox.mailbox (r.serve m s).answer gone
        added := by
  cases r with
  | fetch set =>
      exact Selection.tells_quiet (Selection.quiet_fetch set) (fun _ => rfl) (fun _ => rfl) hs'
  | search key =>
      exact Selection.tells_quiet (Selection.quiet_search key) (fun _ => rfl) (fun _ => rfl) hs'
  | store now set delta mode =>
      exact Selection.tells_quiet (Selection.quiet_store now set delta mode) (fun _ => rfl)
        (fun _ => rfl) hs'
  | expunge => exact Selection.tells_expunge hm hs'
  | poll => exact Selection.tells_poll hm hs hs'
  | close => exact Selection.tells_quiet Selection.quiet_close (fun _ => rfl) (fun _ => rfl) hs'
  | unselect =>
      exact Selection.tells_quiet (Selection.quiet_leave _ _) (fun _ => rfl) (fun _ => rfl) hs'

/-! ## A run -/

/-- All that the client does, if it is one who acts, is to ask something of what it has selected. -/
def Action.Attends (client : String) (a : Action) : Prop :=
  a.client? = some client → ∃ request, a = .request client request

namespace Attended

variable {issued counted : Prop} {w w' : Attended} {client : String} {a : Action} {k : Mirror}
  {s s' : Selection}

theorem get?_act_of_other (h : a.client? ≠ some client) (w : Attended) :
    (w.act a).2.selections.get? client = w.selections.get? client := by
  cases a with
  | select c isReadOnly =>
      have hne : client ≠ c := fun heq => h (congrArg some heq.symm)
      rcases select_cases isReadOnly (w.leave c).mailbox with
        ⟨e, m, _, _, hselect⟩ | ⟨report, selection, m, _, hselect, _⟩
      · simp only [act, hselect]
        rw [get?_leave, if_neg hne]
      · simp only [act, hselect]
        rw [OrderedMap.get?_insert, if_neg hne, get?_leave, if_neg hne]
  | request c request =>
      have hne : client ≠ c := fun heq => h (congrArg some heq.symm)
      cases hselection : w.selections.get? c with
      | none => simp only [act, hselection]
      | some selection =>
          simp only [act, hselection]
          rw [get?_keep, if_neg hne]
  | leave c =>
      have hne : client ≠ c := fun heq => h (congrArg some heq.symm)
      exact (get?_leave c client w).trans (if_neg hne)
  | synchronize round site => rfl
  | change change => rfl
  | recache cache? => rfl

theorem get?_act_of_none (ha : a.Attends client) (h : w.selections.get? client = none) :
    (w.act a).2.selections.get? client = none := by
  by_cases hclient : a.client? = some client
  · obtain ⟨request, rfl⟩ := ha hclient
    simp only [act, h]
  · rw [get?_act_of_other hclient, h]

theorem get?_actAll_of_none {actions : List Action} (ha : ∀ a ∈ actions, a.Attends client)
    (h : w.selections.get? client = none) : (w.actAll actions).selections.get? client = none := by
  induction actions generalizing w with
  | nil => exact h
  | cons a rest ih =>
      obtain ⟨ha, hrest⟩ := List.forall_mem_cons.1 ha
      exact ih hrest (get?_act_of_none ha h)

theorem view_eq (h : w.selections.get? client = some s) :
    w.view client = s.snapshot.entries.map (·.uid) := by
  unfold view
  rw [h]

theorem mirrors_act (h : w.InStep issued counted) (ha : a.Attends client)
    (hs : w.selections.get? client = some s)
    (hs' : (w.act a).2.selections.get? client = some s')
    (hk : k.Mirrors issued s.snapshot w.mailbox.mailbox) :
    ∃ k', w.follow? client k a = some k' ∧
      k'.Mirrors issued s'.snapshot (w.act a).2.mailbox.mailbox := by
  have hlater := (sound_leads h.sound (leads_act w a)).2
  have hfollows := h.follows client s hs
  by_cases hclient : a.client? = some client
  · obtain ⟨request, rfl⟩ := ha hclient
    have hview := view_eq hs'
    unfold follow?
    rw [if_pos hclient, hview]
    simp only [act, hs] at hs' hlater ⊢
    rw [get?_keep, if_pos rfl] at hs'
    obtain ⟨gone, added, htells⟩ := request.tells h.sound hfollows hs'
    exact hk.tells hfollows hlater htells
  · rw [get?_act_of_other hclient, hs] at hs'
    cases hs'
    exact ⟨k, if_neg hclient, hk.later hfollows hlater⟩

theorem mirrors_actAll (h : w.InStep issued counted) {actions : List Action}
    (ha : ∀ a ∈ actions, a.Attends client) (hs : w.selections.get? client = some s)
    (hs' : (w.actAll actions).selections.get? client = some s')
    (hk : k.Mirrors issued s.snapshot w.mailbox.mailbox) :
    ∃ k', w.followAll? client actions k = some k' ∧
      k'.Mirrors issued s'.snapshot (w.actAll actions).mailbox.mailbox := by
  induction actions generalizing w k s with
  | nil =>
      rw [actAll_nil, hs] at hs'
      cases hs'
      exact ⟨k, rfl, hk⟩
  | cons a rest ih =>
      obtain ⟨ha, hrest⟩ := List.forall_mem_cons.1 ha
      rw [actAll_cons] at hs' ⊢
      cases hnext : (w.act a).2.selections.get? client with
      | none =>
          rw [get?_actAll_of_none hrest hnext] at hs'
          cases hs'
      | some next =>
          obtain ⟨k', hfollow, hk'⟩ := mirrors_act h ha hs hnext hk
          obtain ⟨k'', hfollowAll, hk''⟩ := ih (inStep_act h a) hrest hnext hs' hk'
          exact ⟨k'', by rw [followAll?, hfollow]; exact hfollowAll, hk''⟩

theorem total_eq_length {m : Mailbox} (h : m.Sound issued counted) :
    m.summary.total = m.snapshot.entries.length := by
  rw [Mailbox.summary_of_figured h.figured]
  show min m.store.messages.length maxWord = (m.store.messages.map _).length
  rw [List.length_map, Nat.min_eq_left h.distinct.length_le]

theorem mirrors_select (h : w.InStep issued counted) {isReadOnly : Bool} {report : SelectReport}
    (hselect : w.act (.select client isReadOnly) = (.ok (.selected report), w')) :
    ∃ s k, w'.selections.get? client = some s ∧
      Mirror.hear? (w'.view client) (.ok (.selected report)) {} = some k ∧
      k.Mirrors issued s.snapshot w'.mailbox.mailbox := by
  have hsound := (h.leave client).sound
  rcases select_cases isReadOnly (w.leave client).mailbox with
    ⟨e, m, _, _, heq⟩ | ⟨told, selection, m, _, heq, hsummary, hsnapshot, _⟩
  · simp only [act, heq] at hselect
    cases hselect
  · simp only [act, heq] at hselect
    cases hselect
    have hnow : ((w.leave client).selections.insert client selection).get? client =
        some selection := OrderedMap.get?_insert_self ..
    have hb : (((w.leave client).mailbox.mailbox.startJournal.editAll
        [.flushPending])).Sound issued counted := hsound.startJournal.editAll _
    change ((w.leave client).mailbox.mailbox.startJournal.flushPending.2).Sound issued counted at hb
    have htotal : report.summary.total = (selection.snapshot.entries.map (·.uid)).length := by
      rw [hsummary, hsnapshot, total_eq_length hb, List.length_map]
    refine ⟨selection, ⟨selection.snapshot.entries.map (·.uid), []⟩, hnow, ?_, rfl,
      fun _ _ => List.nodup_nil, ?_, ?_, ?_⟩
    · rw [view_eq hnow]
      exact Mirror.grow?_append [] _ [] (.inr (congrArg some htotal))
    all_goals
      intro _ _ uid huid
      cases huid

/-- Whatever happens between the selection of the mailbox by a client and its end, the client can
take out every message at the sequence number it is told and knows the UIDs in the view of its
session. If no message began with a UID that is still to be issued, the client hears of no UID twice
unless the UID validity is the greatest. -/
theorem mirror_of_run {m : SharedMailbox} (hinitial : m.mailbox.Initial)
    (hdistinct : m.mailbox.store.Distinct) (before after : List Action) {isReadOnly : Bool}
    {report : SelectReport}
    (hselect : ((alone m).actAll before).act (.select client isReadOnly) =
      (.ok (.selected report), w))
    (hafter : ∀ a ∈ after, a.Attends client)
    (hselected : (w.actAll after).selections.get? client = some s) :
    ∃ k, ((alone m).actAll before).know? client isReadOnly after = some k ∧
      k.uids = s.snapshot.entries.map (·.uid) ∧
      ((∀ r ∈ m.mailbox.store.messages, r.uid.val < m.mailbox.uids.bound) →
        (w.actAll after).mailbox.mailbox.uids.validity.val < maxWord → k.reported.Nodup) := by
  have hsound : m.mailbox.Sound (∀ r ∈ m.mailbox.store.messages, r.uid.val < m.mailbox.uids.bound)
      False := ⟨hdistinct, hinitial.figured, fun hissued => hissued, fun h => h.elim⟩
  have hbefore := inStep_actAll (inStep_alone hsound) before
  obtain ⟨s₀, first, hs₀, hfirst, hmirrors⟩ := mirrors_select hbefore hselect
  have hw := inStep_act hbefore (.select client isReadOnly)
  rw [hselect] at hw
  obtain ⟨last, hlast, hmirrors⟩ := mirrors_actAll hw hafter hs₀ hselected hmirrors
  refine ⟨last, ?_, hmirrors.uids, hmirrors.once⟩
  unfold know?
  rw [hselect]
  dsimp only
  rw [hfirst, Option.bind_some, hlast]

/-- The message leaves, another one arrives, and the client is told of both. -/
def exchange (leaving : Change) : List Action :=
  [.change leaving, .request "c" .poll, .change (arrival "b"), .request "c" .poll]

theorem mirror_of_exchange : ∃ report w s k,
    unused.mailbox.Initial ∧ unused.mailbox.store.Distinct ∧
      ((alone unused).actAll [.change (arrival "a")]).act (.select "c" false) =
        (.ok (.selected report), w) ∧
      (∀ a ∈ exchange (removal "a"), a.Attends "c") ∧
      (w.actAll (exchange (removal "a"))).selections.get? "c" = some s ∧
      ((alone unused).actAll [.change (arrival "a")]).know? "c" false (exchange (removal "a")) =
        some k ∧
      k.uids = s.snapshot.entries.map (·.uid) ∧ k.reported.Nodup := by
  have hselect : ∃ report w, ((alone unused).actAll [.change (arrival "a")]).act
      (.select "c" false) = (.ok (.selected report), w) ∧
        (w.actAll (exchange (removal "a"))).mailbox.mailbox.uids.validity.val < maxWord ∧
        ∃ s, (w.actAll (exchange (removal "a"))).selections.get? "c" = some s :=
    ⟨_, _, rfl, by decide, _, rfl⟩
  obtain ⟨report, w, hselect, hvalidity, s, hselected⟩ := hselect
  have hattends : ∀ a ∈ exchange (removal "a"), a.Attends "c" := by
    simp [exchange, Action.Attends, Action.client?]
  obtain ⟨k, hknow, huids, honce⟩ := mirror_of_run (m := unused) (.create "INBOX" 0) Ascending.nil
    [.change (arrival "a")] _ hselect hattends hselected
  have hissued : ∀ r ∈ unused.mailbox.store.messages, r.uid.val < unused.mailbox.uids.bound := by
    intro r hr
    cases hr
  exact ⟨report, w, s, k, .create "INBOX" 0, Ascending.nil, hselect, hattends, hselected, hknow,
    huids, honce hissued hvalidity⟩

def saved (uids : UidSpace) (store : MessageStore) : SharedMailbox where
  mailbox := .ofSaved "INBOX" uids store .zero none ∅

def leastMessage (id : RemoteId) : Message := { remoteId := id, uid := .least, modseq := .zero }

/-- There are no UIDs left in the last epoch that there can be. -/
def spent : SharedMailbox :=
  saved ⟨⟨.greatest⟩, none⟩ (MessageStore.empty.reinstate (leastMessage "a"))

/-- The UID of the message is still to be issued. -/
def misnumbered : SharedMailbox :=
  saved ⟨⟨.one⟩, some .least⟩ (MessageStore.empty.reinstate (leastMessage "a"))

def doubled : SharedMailbox :=
  saved ⟨⟨.one⟩, none⟩
    ⟨[leastMessage "a", leastMessage "b"], .ofList [("a", .least), ("b", .least)], by decide⟩

def failedRemoval : Change := ⟨[.markRemoved "a", .flushPending], .error (.conflict "INBOX" "")⟩

/-- A client hears of a UID twice if the UID validity cannot rise when the UIDs begin anew, or if
the mailbox was saved with a UID still to be issued. If it was saved with two messages of one UID,
the client may be told of more messages than there are. -/
theorem mirror_misled :
    spent.mailbox.checkIntegrity = .ok () ∧
      (alone spent).know? "c" false
        (exchange ⟨[.invalidate 0], .ok ()⟩ ++ exchange (removal "b")) =
          some ⟨[⟨⟨2, by decide, by decide⟩⟩], [.least, .least]⟩ ∧
      (alone misnumbered).know? "c" false (exchange (removal "a") ++ exchange (removal "b")) =
        some ⟨[⟨⟨2, by decide, by decide⟩⟩], [.least, .least]⟩ ∧
      ((alone doubled).actAll [.change failedRemoval]).know? "c" false [] = none :=
  ⟨rfl, by decide, by decide, by decide⟩

end Attended

end MailBridge

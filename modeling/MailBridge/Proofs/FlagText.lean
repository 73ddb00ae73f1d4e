import MailBridge.Flag.Set
import MailBridge.Proofs.OrderedLaws

/-! # Flags read back as they are written

The written form of a set of flags has a blank between two flags, so it can be read back if no
keyword is empty, has a blank in it, or looks like a system flag.
-/

namespace MailBridge

namespace Text

/-- Whether the text is a single word. -/
def IsWord (s : String) : Prop := s.toList ≠ [] ∧ ∀ c ∈ s.toList, isBlank c = false

instance (s : String) : Decidable (IsWord s) :=
  decidable_of_iff (s.toList ≠ [] ∧ s.toList.all (fun c => !isBlank c) = true) (by simp [IsWord])

theorem splitBlanks_append {word cs : List Char} (h : ∀ c ∈ cs, isBlank c = false)
    (rest : List Char) : splitBlanks word (cs ++ rest) = splitBlanks (cs.reverse ++ word) rest := by
  induction cs generalizing word with
  | nil => rfl
  | cons c cs ih =>
      obtain ⟨hc, hcs⟩ := List.forall_mem_cons.1 h
      rw [List.cons_append, splitBlanks, if_neg (by simp [hc]), ih hcs, List.reverse_cons,
        List.append_assoc]
      rfl

theorem splitBlanks_word {cs : List Char} (hne : cs ≠ []) (h : ∀ c ∈ cs, isBlank c = false) :
    splitBlanks [] cs = [cs] := by
  have happend : splitBlanks [] (cs ++ []) = splitBlanks (cs.reverse ++ []) [] :=
    splitBlanks_append h []
  rw [List.append_nil, List.append_nil] at happend
  rw [happend, splitBlanks, if_neg (by simpa using hne), List.reverse_reverse]

theorem splitBlanks_word_blank {cs : List Char} (hne : cs ≠ [])
    (h : ∀ c ∈ cs, isBlank c = false) (rest : List Char) :
    splitBlanks [] (cs ++ ' ' :: rest) = cs :: splitBlanks [] rest := by
  have hblank : isBlank ' ' = true := by decide
  rw [splitBlanks_append h, List.append_nil, splitBlanks, if_pos hblank,
    if_neg (by simpa using hne), List.reverse_reverse]

theorem words_intercalate {l : List String} (h : ∀ s ∈ l, IsWord s) :
    words (" ".intercalate l) = l := by
  have key : ∀ l : List String, (∀ s ∈ l, IsWord s) →
      splitBlanks [] ([' '].intercalate (l.map String.toList)) = l.map String.toList := by
    intro l
    induction l with
    | nil => exact fun _ => rfl
    | cons s rest ih =>
        intro h
        obtain ⟨⟨hne, hword⟩, hrest⟩ := List.forall_mem_cons.1 h
        cases rest with
        | nil => simpa [List.intercalate] using splitBlanks_word hne hword
        | cons t rest =>
            have hsplit := splitBlanks_word_blank hne hword
              ([' '].intercalate ((t :: rest).map String.toList))
            rw [ih hrest] at hsplit
            simpa [List.intercalate_cons_cons] using hsplit
  have hmap : (String.ofList ∘ String.toList) = id := funext fun s => String.ofList_toList
  rw [words, String.toList_intercalate]
  refine Eq.trans (congrArg (List.map String.ofList) (key l h)) ?_
  rw [List.map_map, hmap, List.map_id]

theorem isWord_of_mem_splitBlanks {word cs w : List Char} (hword : ∀ c ∈ word, isBlank c = false)
    (hw : w ∈ splitBlanks word cs) : w ≠ [] ∧ ∀ c ∈ w, isBlank c = false := by
  have hfresh : ∀ c ∈ ([] : List Char), isBlank c = false := List.forall_mem_nil _
  induction cs generalizing word with
  | nil =>
      rw [splitBlanks] at hw
      split at hw
      · exact absurd hw List.not_mem_nil
      · next hne =>
          obtain rfl := List.mem_singleton.1 hw
          exact ⟨by simpa using hne, by simpa using hword⟩
  | cons c rest ih =>
      rw [splitBlanks] at hw
      split at hw
      · split at hw
        · exact ih hfresh hw
        · next hne =>
            obtain rfl | hw := List.mem_cons.1 hw
            · exact ⟨by simpa using hne, by simpa using hword⟩
            · exact ih hfresh hw
      · next hc => exact ih (List.forall_mem_cons.2 ⟨by simpa using hc, hword⟩) hw

theorem isWord_of_mem_words {s w : String} (h : w ∈ words s) : IsWord w := by
  obtain ⟨cs, hcs, rfl⟩ := List.mem_map.1 h
  rw [IsWord, String.toList_ofList]
  exact isWord_of_mem_splitBlanks (List.forall_mem_nil _) hcs

theorem dropWhile_isBlank {cs : List Char} (h : ∀ c ∈ cs, isBlank c = false) :
    cs.dropWhile isBlank = cs := by
  cases cs with
  | nil => rfl
  | cons c rest => exact List.dropWhile_cons_of_neg (by simp [h c List.mem_cons_self])

theorem IsWord.trim {s : String} (h : IsWord s) : Text.trim s = s := by
  have hback : ∀ c ∈ s.toList.reverse, isBlank c = false :=
    fun c hc => h.2 c (List.mem_reverse.1 hc)
  rw [Text.trim, dropWhile_isBlank h.2]
  exact (congrArg (fun l => String.ofList l.reverse) (dropWhile_isBlank hback)).trans
    (by rw [List.reverse_reverse, String.ofList_toList])

end Text

namespace Flag

/-- Whether the flag can be told from its written form: a keyword must be a word without a leading
backslash. -/
def Writable : Flag → Prop
  | keyword s => Text.IsWord s ∧ s.toList.head? ≠ some '\\'
  | _ => True

instance : DecidablePred Writable
  | keyword _ => inferInstanceAs (Decidable (_ ∧ _))
  | seen | answered | flagged | deleted | draft | recent => inferInstanceAs (Decidable True)

theorem isWord_text {flag : Flag} (h : flag.Writable) : Text.IsWord flag.text := by
  cases flag with
  | keyword s => exact h.1
  | _ => decide

theorem ofAtom?_text {flag : Flag} (h : flag.Writable) : ofAtom? flag.text = some flag := by
  cases flag with
  | keyword s =>
      unfold ofAtom? text
      split
      · next heq => exact absurd (by rw [heq, List.head?_cons]) h.2
      · rfl
  | _ => decide

theorem filterMap_ofAtom?_text {l : List Flag} (h : ∀ flag ∈ l, flag.Writable) :
    (l.map text).filterMap ofAtom? = l := by
  induction l with
  | nil => rfl
  | cons flag rest ih =>
      obtain ⟨hflag, hrest⟩ := List.forall_mem_cons.1 h
      rw [List.map_cons, List.filterMap_cons_some (ofAtom?_text hflag), ih hrest]

theorem writable_of_system? {name : String} {flag : Flag} (h : system? name = some flag) :
    flag.Writable := by
  obtain ⟨entry, hentry, rfl⟩ := Option.map_eq_some_iff.1 h
  have hmem := List.mem_of_find?_eq_some hentry
  simp only [List.mem_cons, List.not_mem_nil, or_false] at hmem
  obtain rfl | rfl | rfl | rfl | rfl | rfl := hmem <;> exact trivial

theorem writable_of_ofAtom? {s : String} {flag : Flag} (hs : Text.IsWord s)
    (h : ofAtom? s = some flag) : flag.Writable := by
  unfold ofAtom? at h
  split at h
  · exact writable_of_system? h
  · next hplain =>
      obtain rfl := Option.some.inj h
      refine ⟨hs, fun hhead => ?_⟩
      obtain ⟨name, hname⟩ := List.head?_eq_some_iff.1 hhead
      exact hplain name hname

/-- A word as a person writes it names a system flag or is a keyword as it stands. -/
theorem writable_or_keyword_of_ofText {s : String} {flag : Flag} (hs : Text.IsWord s)
    (h : ofText s = flag) : flag.Writable ∨ flag = keyword s := by
  unfold ofText at h
  rw [hs.trim] at h
  dsimp only at h
  generalize hname : system? _ = named at h
  cases named with
  | some named => exact .inl (h ▸ writable_of_system? hname)
  | none => exact .inr h.symm

end Flag

namespace Flags

theorem writable_of_mem_ofAtoms {s : String} {flag : Flag} (h : flag ∈ ofAtoms s) :
    flag.Writable := by
  obtain ⟨word, hword, hflag⟩ := List.mem_filterMap.1 (OrderedSet.mem_ofList.1 h)
  exact Flag.writable_of_ofAtom? (Text.isWord_of_mem_words hword) hflag

theorem writable_of_mem_ofText {s : String} {flag : Flag} (h : flag ∈ ofText s) :
    flag.Writable := by
  obtain ⟨hread, hkept⟩ := List.mem_filter.1 (OrderedSet.mem_ofList.1 h)
  obtain ⟨word, hword, hflag⟩ := List.mem_map.1 hread
  have hs := Text.isWord_of_mem_words hword
  obtain hwritable | rfl := Flag.writable_or_keyword_of_ofText hs hflag
  · exact hwritable
  · exact ⟨hs, by simpa using hkept⟩

end Flags

theorem Flags.ofAtoms_text {flags : Flags} (h : ∀ flag ∈ flags, flag.Writable) :
    Flags.ofAtoms (Flags.text flags) = flags := by
  have hwords : Text.words (Flags.text flags) = flags.toList.map Flag.text :=
    Text.words_intercalate fun s hs => by
      obtain ⟨flag, hflag, rfl⟩ := List.mem_map.1 hs
      exact Flag.isWord_text (h flag hflag)
  rw [ofAtoms, hwords, Flag.filterMap_ofAtom?_text h]
  exact OrderedSet.ext fun flag => OrderedSet.mem_ofList

/-- The written form of flags is read back as they are if and only if each of them can be told from
its written form: no keyword is empty, has a blank in it or starts with a backslash. The flags that
are read from a text, whether a person wrote it or it stands as it is, are always so, and their
written form reads back as the same flags. -/
theorem Flags.text_reads_back (flags : Flags) (s : String) :
    (ofAtoms (text flags) = flags ↔ ∀ flag ∈ flags, flag.Writable) ∧
      ((∀ flag ∈ ofText s, flag.Writable) ∧ ofAtoms (text (ofText s)) = ofText s) ∧
      ((∀ flag ∈ ofAtoms s, flag.Writable) ∧ ofAtoms (text (ofAtoms s)) = ofAtoms s) := by
  refine ⟨⟨fun hback flag hflag => ?_, ofAtoms_text⟩,
    ⟨fun _ => writable_of_mem_ofText, ofAtoms_text fun _ => writable_of_mem_ofText⟩,
    ⟨fun _ => writable_of_mem_ofAtoms, ofAtoms_text fun _ => writable_of_mem_ofAtoms⟩⟩
  -- The flags are what was read, and what was read can be written.
  rw [← hback] at hflag
  exact writable_of_mem_ofAtoms hflag

/-- A keyword with a blank in it comes back as two, one of which was a flag before. -/
example :
    Flags.ofAtoms (Flags.text (.ofList [.keyword "a b", .keyword "b"])) =
      .ofList [.keyword "a", .keyword "b"] := by
  decide +kernel

end MailBridge

import Mathlib.Algebra.Group.Nat.Defs
import MailBridge.Date.Reader

/-! # Dates read back as they are written

A date that exists is read back from its written form, as long as four places are enough for its
year.
-/

namespace MailBridge

namespace Text

variable {places n : Nat}

theorem toString_eq (s : String) : toString s = s := rfl

theorem decimalValue_eq (cs : List Char) : decimalValue cs = Nat.ofDigitChars 10 cs 0 := rfl

theorem toList_padded (places n : Nat) : (padded places n).toList =
    List.replicate (places - (Nat.toDigits 10 n).length) '0' ++ Nat.toDigits 10 n := by
  simp [padded]

theorem length_padded (hplaces : 0 < places) (h : n < 10 ^ places) :
    (padded places n).toList.length = places := by
  have hle : (Nat.toDigits 10 n).length ≤ places :=
    (Nat.length_toDigits_le_iff (by decide) hplaces).2 h
  rw [toList_padded, List.length_append, List.length_replicate]
  omega

theorem isDigit_padded (places n : Nat) : ∀ c ∈ (padded places n).toList, isDigit c = true := by
  intro c hc
  rw [toList_padded, List.mem_append] at hc
  rcases hc with hc | hc
  · rw [List.eq_of_mem_replicate hc]
    rfl
  · exact Nat.isDigit_of_mem_toDigits (b := 10) (by decide) (by decide) hc

theorem decimalValue_padded (places n : Nat) : decimalValue (padded places n).toList = n := by
  rw [decimalValue_eq, toList_padded, Nat.ofDigitChars_append, Nat.ofDigitChars_replicate_zero,
    Nat.mul_zero, Nat.ofDigitChars_ten_toDigits]

theorem fixedDecimal?_padded (hplaces : 0 < places) (h : n < 10 ^ places) (rest : List Char) :
    fixedDecimal? places ((padded places n).toList ++ rest) = some (n, rest) := by
  have hlength := length_padded hplaces h
  have hdigits : (padded places n).toList.all isDigit = true :=
    List.all_eq_true.2 (isDigit_padded places n)
  have htake : ((padded places n).toList ++ rest).take places = (padded places n).toList :=
    List.take_left' hlength
  have hdrop : ((padded places n).toList ++ rest).drop places = rest := List.drop_left' hlength
  simp only [fixedDecimal?, htake, hdrop, hlength, hdigits, decimalValue_padded]
  simp

theorem digitValue_le {c : Char} (h : isDigit c = true) : digitValue c ≤ 9 := by
  have hbounds : '0'.toNat ≤ c.toNat ∧ c.toNat ≤ '9'.toNat := by
    simpa [isDigit, Char.le_def, UInt32.le_iff_toNat_le] using h
  have hnine : '9'.toNat = '0'.toNat + 9 := by decide
  unfold digitValue
  omega

theorem decimalValue_lt {cs : List Char} (h : ∀ c ∈ cs, isDigit c = true) :
    decimalValue cs < 10 ^ cs.length := by
  have key : ∀ (cs : List Char) (n : Nat), (∀ c ∈ cs, isDigit c = true) →
      cs.foldl (fun n c => 10 * n + digitValue c) n < (n + 1) * 10 ^ cs.length := by
    intro cs
    induction cs with
    | nil => simp
    | cons c rest ih =>
        intro n h
        obtain ⟨hc, hrest⟩ := List.forall_mem_cons.1 h
        have hdigit := digitValue_le hc
        have hroom : 10 * n + digitValue c + 1 ≤ (n + 1) * 10 := by omega
        calc (c :: rest).foldl (fun n c => 10 * n + digitValue c) n
            < (10 * n + digitValue c + 1) * 10 ^ rest.length := ih _ hrest
          _ ≤ (n + 1) * 10 * 10 ^ rest.length := Nat.mul_le_mul_right _ hroom
          _ = (n + 1) * 10 ^ (c :: rest).length := by
              rw [List.length_cons, Nat.pow_succ', Nat.mul_assoc]
  simpa [decimalValue] using key cs 0 h

theorem lt_of_fixedDecimal? {cs rest : List Char} (h : fixedDecimal? places cs = some (n, rest)) :
    n < 10 ^ places := by
  unfold fixedDecimal? at h
  dsimp only at h
  split at h
  · next hdigits =>
    rw [Bool.and_eq_true, decide_eq_true_eq, List.all_eq_true] at hdigits
    have hvalue := decimalValue_lt hdigits.2
    rw [hdigits.1, (Prod.mk.inj (Option.some.inj h)).1] at hvalue
    exact hvalue
  · cases h

end Text

namespace Date

open Text

/-- Whether the text does not go on with a digit or a point. -/
def EndsNumber (cs : List Char) : Prop := ∀ c ∈ cs.head?, isDigit c = false ∧ c ≠ '.'

theorem fraction?_padded {places n : Nat} (hplaces : 0 < places) (hnine : places ≤ 9)
    (h : n < 10 ^ places) {rest : List Char} (hends : EndsNumber rest) :
    fraction? ('.' :: ((padded places n).toList ++ rest)) =
      some (n * Nat.pow 10 (9 - places), rest) := by
  have hlength := length_padded hplaces h
  have hnone : rest.takeWhile isDigit = [] ∧ rest.dropWhile isDigit = rest := by
    cases rest with
    | nil => exact ⟨rfl, rfl⟩
    | cons c rest =>
        obtain ⟨hc, _⟩ := hends c rfl
        simp [hc]
  have htake : ((padded places n).toList ++ rest).takeWhile isDigit = (padded places n).toList := by
    rw [List.takeWhile_append_of_pos (isDigit_padded places n), hnone.1, List.append_nil]
  have hdrop : ((padded places n).toList ++ rest).dropWhile isDigit = rest := by
    rw [List.dropWhile_append_of_pos (isDigit_padded places n), hnone.2]
  have hne : (padded places n).toList.isEmpty = false := by
    rw [← Bool.not_eq_true, List.isEmpty_iff_length_eq_zero]
    omega
  have hkept : (padded places n).toList.take 9 = (padded places n).toList :=
    List.take_of_length_le (by omega)
  simp only [fraction?, htake, hdrop, hne, hkept, hlength, decimalValue_padded]
  simp

theorem fraction?_pointed {places k n : Nat} (hplaces : 0 < places) (hnine : places ≤ 9)
    (h : k < 10 ^ places) (hvalue : k * Nat.pow 10 (9 - places) = n) {rest : List Char}
    (hends : EndsNumber rest) :
    fraction? ((s!".{padded places k}").toList ++ rest) = some (n, rest) := by
  have htext : (s!".{padded places k}").toList = '.' :: (padded places k).toList := by
    simp [toString_eq]
  rw [htext, List.cons_append, fraction?_padded hplaces hnine h hends, hvalue]

theorem fraction?_fractionText {n : Nat} (h : n < 1000000000) {rest : List Char}
    (hends : EndsNumber rest) :
    fraction? ((fractionText n).toList ++ rest) = some (n, rest) := by
  unfold fractionText
  split
  · next hzero =>
    subst hzero
    cases rest with
    | nil => rfl
    | cons c rest =>
        obtain ⟨_, hc⟩ := hends c rfl
        simp [fraction?, hc]
  · split
    · next hmillis =>
      have hvalue : n / 1000000 * 1000000 = n := by omega
      exact fraction?_pointed (by decide) (by decide) (by omega) hvalue hends
    · split
      · next hmicros =>
        have hvalue : n / 1000 * 1000 = n := by omega
        exact fraction?_pointed (by decide) (by decide) (by omega) hvalue hends
      · exact fraction?_pointed (by decide) (by decide) h (Nat.mul_one n) hends

theorem offset?_signed {sign : Char} {direction : Int} {n : Nat} (h : n ≤ 1439)
    (hsign : sign = '+' ∧ direction = 1 ∨ sign = '-' ∧ direction = -1) :
    offset? (sign :: ((padded 2 (n / 60)).toList ++ ':' :: (padded 2 (n % 60)).toList)) =
      some (direction * n, []) := by
  have hhours := fixedDecimal?_padded (show 0 < 2 by decide) (show n / 60 < 10 ^ 2 by omega)
    (':' :: (padded 2 (n % 60)).toList)
  have hminutes := fixedDecimal?_padded (show 0 < 2 by decide) (show n % 60 < 10 ^ 2 by omega) []
  have hminute : n % 60 ≤ 59 := by omega
  rw [List.append_nil] at hminutes
  rcases hsign with ⟨rfl, rfl⟩ | ⟨rfl, rfl⟩
  · simp [offset?, oneOf?, hhours, hminutes, hminute]
    omega
  · simp [offset?, oneOf?, hhours, hminutes, hminute]
    omega

theorem toList_offsetText (offset : Int) : (offsetText offset).toList =
    (if offset < 0 then '-' else '+') ::
      ((padded 2 (offset.natAbs / 60)).toList ++
        ':' :: (padded 2 (offset.natAbs % 60)).toList) := by
  unfold offsetText
  split <;> simp [toString_eq]

theorem offset?_offsetText {offset : Int} (h : offset.natAbs ≤ 1439) :
    offset? (offsetText offset).toList = some (offset, []) := by
  rw [toList_offsetText]
  split
  · next hneg =>
    rw [offset?_signed h (.inr ⟨rfl, rfl⟩), show -1 * (offset.natAbs : Int) = offset by omega]
  · next hpos =>
    rw [offset?_signed h (.inl ⟨rfl, rfl⟩), show 1 * (offset.natAbs : Int) = offset by omega]

theorem endsNumber_offsetText (offset : Int) : EndsNumber (offsetText offset).toList := by
  rw [toList_offsetText]
  intro c hc
  cases hc
  split <;> decide

theorem month_le {year month : Nat} (h : 1 ≤ daysInMonth year month) : month ≤ 12 := by
  unfold daysInMonth at h
  split at h <;> omega

/-- Whether the date exists and its year has four places. -/
def Writable (d : Date) : Prop := d.isValid = true ∧ d.year ≤ 9999

instance (d : Date) : Decidable d.Writable := inferInstanceAs (Decidable (_ ∧ _))

theorem bind_of_eq_some {α β : Type} {read : Option α} {a : α} {next : α → Option β}
    (h : read = some a) : read >>= next = next a := by
  rw [h]
  rfl

/-- A date that can be written is read back as it is. -/
theorem read?_text {d : Date} (h : d.Writable) : read? d.text = some d := by
  obtain ⟨hvalid, hplaces⟩ := h
  have hparts := hvalid
  simp only [isValid, Bool.and_eq_true, decide_eq_true_eq] at hparts
  obtain ⟨⟨⟨⟨⟨⟨hfirst, hlast⟩, _⟩, _⟩, _⟩, hnano⟩, hoffset⟩ := hparts
  have : d.month ≤ 12 := month_le (Nat.le_trans hfirst hlast)
  have : d.day ≤ 31 := by
    refine Nat.le_trans hlast ?_
    unfold daysInMonth
    split <;> (try split) <;> omega
  have hyear := fixedDecimal?_padded (show 0 < 4 by decide) (show d.year < 10 ^ 4 by omega)
  have htwo {n : Nat} (hn : n < 10 ^ 2) (rest : List Char) :=
    fixedDecimal?_padded (show 0 < 2 by decide) hn rest
  have hmonth := htwo (show d.month < 10 ^ 2 by omega)
  have hday := htwo (show d.day < 10 ^ 2 by omega)
  have hhour := htwo (show d.hour < 10 ^ 2 by omega)
  have hminute := htwo (show d.minute < 10 ^ 2 by omega)
  have hsecond := htwo (show d.second < 10 ^ 2 by omega)
  have hdash (rest : List Char) : oneOf? ['-'] ('-' :: rest) = some rest := rfl
  have hcolon (rest : List Char) : oneOf? [':'] (':' :: rest) = some rest := rfl
  have htime (rest : List Char) : oneOf? ['T', 't', ' '] ('T' :: rest) = some rest := rfl
  have htext : d.text.toList = (padded 4 d.year).toList ++ '-' :: ((padded 2 d.month).toList ++
      '-' :: ((padded 2 d.day).toList ++ 'T' :: ((padded 2 d.hour).toList ++
        ':' :: ((padded 2 d.minute).toList ++ ':' :: ((padded 2 d.second).toList ++
          ((fractionText d.nanosecond).toList ++ (offsetText d.offset).toList)))))) := by
    simp only [text, toString_eq, String.toList_append, String.reduceToList, List.cons_append,
      List.nil_append, List.append_assoc]
  unfold read?
  rw [htext]
  refine (bind_of_eq_some (hyear _)).trans ?_
  refine (bind_of_eq_some (hdash _)).trans ?_
  refine (bind_of_eq_some (hmonth _)).trans ?_
  refine (bind_of_eq_some (hdash _)).trans ?_
  refine (bind_of_eq_some (hday _)).trans ?_
  refine (bind_of_eq_some (htime _)).trans ?_
  refine (bind_of_eq_some (hhour _)).trans ?_
  refine (bind_of_eq_some (hcolon _)).trans ?_
  refine (bind_of_eq_some (hminute _)).trans ?_
  refine (bind_of_eq_some (hcolon _)).trans ?_
  refine (bind_of_eq_some (hsecond _)).trans ?_
  refine (bind_of_eq_some (fraction?_fractionText hnano (endsNumber_offsetText _))).trans ?_
  refine (bind_of_eq_some (offset?_offsetText hoffset)).trans ?_
  exact if_pos (by rw [hvalid]; rfl)

theorem writable_of_read? {s : String} {d : Date} (h : read? s = some d) : d.Writable := by
  unfold read? at h
  obtain ⟨_, hyear, h⟩ := Option.bind_eq_some_iff.1 h
  -- the parts behind the year only have to make a date that exists
  iterate 12 obtain ⟨_, _, h⟩ := Option.bind_eq_some_iff.1 h
  dsimp only at h
  rw [Option.ite_none_right_eq_some, Bool.and_eq_true, Option.some.injEq] at h
  obtain ⟨⟨_, hvalid⟩, rfl⟩ := h
  exact ⟨hvalid, Nat.le_of_lt_succ (lt_of_fixedDecimal? hyear)⟩

/-- Dates that can be written are those that are read back. -/
theorem writable_iff {d : Date} : d.Writable ↔ read? d.text = some d :=
  ⟨read?_text, writable_of_read?⟩

end Date

end MailBridge

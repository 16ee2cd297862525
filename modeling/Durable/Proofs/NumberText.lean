import Durable.Json.Token
import Mathlib.Data.List.TakeDrop
import Mathlib.Data.List.TakeWhile

/-!
# Texts of JSON numbers

A text that is read as a number consists of the characters of numbers alone, so that it ends
where anything else follows.  The text of an integer of at most 64 bits is read as the same
integer; of a double this depends on its shortest digits.
-/

namespace Durable

namespace JsonNumber

open JsonToken (isNumberChar)

theorem isDigit_of_mem_toDigits {n : Nat} {c : Char} (member : c ∈ Nat.toDigits 10 n) :
    isDigit c = true :=
  Nat.isDigit_of_mem_toDigits (by omega) (by omega) member

theorem toDigits_head {n : Nat} (positive : n ≠ 0) :
    ∃ c rest, Nat.toDigits 10 n = c :: rest ∧ c ≠ '0' := by
  induction n using Nat.strongRecOn with
  | ind n induction =>
      by_cases small : n < 10
      · have nonzero : ∀ digit < 10, digit ≠ 0 → digit.digitChar ≠ '0' := by decide
        exact ⟨n.digitChar, [], Nat.toDigits_of_lt_base small, nonzero n small positive⟩
      · obtain ⟨c, rest, digits, different⟩ := induction (n / 10) (by omega) (by omega)
        refine ⟨c, rest ++ [(n % 10).digitChar], ?_, different⟩
        rw [Nat.toDigits_of_base_le (by omega) (by omega), digits, List.cons_append]

theorem le_foldl_digits (digits : List Char) (value : Nat) :
    value ≤ digits.foldl (fun value c => value * 10 + Decimal.digitValue c) value := by
  induction digits generalizing value with
  | nil => exact Nat.le_refl _
  | cons c rest induction =>
      have further : value ≤ value * 10 + Decimal.digitValue c := by omega
      exact Nat.le_trans further (induction _)

theorem takeDigits_all (digits : List Char) (significand : Nat)
    (fits : digits.foldl (fun value c => value * 10 + Decimal.digitValue c) significand <
      Decimal.significandBound) :
    Decimal.takeDigits significand digits =
      (digits.foldl (fun value c => value * 10 + Decimal.digitValue c) significand, []) := by
  induction digits generalizing significand with
  | nil => rfl
  | cons c rest induction =>
      rw [List.foldl_cons] at fits ⊢
      have next := Nat.lt_of_le_of_lt (le_foldl_digits rest _) fits
      rw [Decimal.takeDigits]
      simp only [next, if_true]
      exact induction _ fits

theorem takeDigits_toDigits {n : Nat} (fits : n < Decimal.significandBound) :
    Decimal.takeDigits 0 (Nat.toDigits 10 n) = (n, []) := by
  have value : (Nat.toDigits 10 n).foldl (fun value c => value * 10 + Decimal.digitValue c) 0 =
      n := by
    have read := Nat.ofDigitChars_toDigits (n := n) (b := 10) (by omega) (by omega)
    simpa [Nat.ofDigitChars, Decimal.digitValue, Nat.mul_comm] using read
  rw [takeDigits_all _ _ (by rw [value]; exact fits), value]

theorem spanDigits?_all {digits : List Char} (nonempty : digits ≠ [])
    (each : ∀ c ∈ digits, isDigit c = true) : spanDigits? digits = some (digits, []) := by
  unfold spanDigits?
  rw [List.span_eq_takeWhile_dropWhile, List.takeWhile_eq_self_iff.mpr each,
    List.dropWhile_eq_nil_iff.mpr each]
  cases digits with
  | nil => exact absurd rfl nonempty
  | cons c rest => rfl

theorem wholePart?_toDigits (n : Nat) :
    wholePart? (Nat.toDigits 10 n) = some (Nat.toDigits 10 n, []) := by
  by_cases zero : n = 0
  · subst zero
    rfl
  · obtain ⟨c, rest, digits, different⟩ := toDigits_head zero
    have spans := spanDigits?_all Nat.toDigits_ne_nil
      fun c member => isDigit_of_mem_toDigits (n := n) (c := c) member
    rw [digits] at spans ⊢
    unfold wholePart?
    split
    · next same => exact absurd (List.cons.inj same).1 different
    · exact spans

theorem parts?_toDigits (n : Nat) :
    parts? (Nat.toDigits 10 n) = some ⟨false, Nat.toDigits 10 n, none, none⟩ := by
  have whole := wholePart?_toDigits n
  have digits := fun c => isDigit_of_mem_toDigits (n := n) (c := c)
  cases written : Nat.toDigits 10 n with
  | nil => exact absurd written Nat.toDigits_ne_nil
  | cons c rest =>
      rw [written] at whole digits
      have unsigned : c ≠ '-' := by
        rintro rfl
        exact absurd (digits '-' List.mem_cons_self) (by decide)
      simp [parts?, unsigned, whole, fractionPart?, powerPart?]

theorem parts?_minus_toDigits (n : Nat) :
    parts? ('-' :: Nat.toDigits 10 n) = some ⟨true, Nat.toDigits 10 n, none, none⟩ := by
  simp [parts?, wholePart?_toDigits, fractionPart?, powerPart?]

/-- The text of an integer of at most 64 bits is read as the integer. -/
theorem ofText?_integer {value : Int} (least : -(Nat.pow 2 63 : Int) ≤ value)
    (greatest : value < (Nat.pow 2 64 : Int)) :
    ofText? (JsonNumber.integer value).text.toList = some (.integer value) := by
  change -(9223372036854775808 : Int) ≤ value at least
  change value < (18446744073709551616 : Int) at greatest
  cases value with
  | ofNat n =>
      have fits : n < Decimal.significandBound := by
        simp only [Int.ofNat_eq_natCast] at greatest
        change n < 2 ^ 64
        omega
      have written : (JsonNumber.integer (Int.ofNat n)).text.toList = Nat.toDigits 10 n :=
        String.toList_ofList
      rw [written, ofText?, parts?_toDigits, Option.bind_some, ofParts?,
        takeDigits_toDigits fits]
      rfl
  | negSucc n =>
      have small : n + 1 ≤ 2 ^ 63 := by omega
      have fits : n + 1 < Decimal.significandBound := by
        change n + 1 < 2 ^ 64
        omega
      have written : (JsonNumber.integer (Int.negSucc n)).text.toList =
          '-' :: Nat.toDigits 10 (n + 1) := by
        change ("-" ++ String.ofList (Nat.toDigits 10 (n + 1))).toList = _
        simp
      rw [written, ofText?, parts?_minus_toDigits, Option.bind_some, ofParts?,
        takeDigits_toDigits fits]
      have bounded : ¬(n + 1 = 0 ∨ Nat.pow 2 63 < n + 1) := by
        change ¬(n + 1 = 0 ∨ 2 ^ 63 < n + 1)
        omega
      simp only [Bool.not_true, Bool.false_eq_true, if_false, if_neg bounded]
      rfl

/-- What was read from the head of a text is written in the characters of numbers. -/
def TakesNumberChars (text left : List Char) : Prop :=
  ∃ taken, text = taken ++ left ∧ ∀ c ∈ taken, isNumberChar c = true

theorem TakesNumberChars.refl (text : List Char) : TakesNumberChars text text :=
  ⟨[], rfl, by simp⟩

theorem TakesNumberChars.trans {first second third : List Char}
    (earlier : TakesNumberChars first second) (later : TakesNumberChars second third) :
    TakesNumberChars first third := by
  obtain ⟨before, rfl, beforeChars⟩ := earlier
  obtain ⟨after, rfl, afterChars⟩ := later
  refine ⟨before ++ after, (List.append_assoc _ _ _).symm, ?_⟩
  intro c member
  rcases List.mem_append.mp member with early | late
  · exact beforeChars c early
  · exact afterChars c late

theorem TakesNumberChars.cons {c : Char} {text left : List Char} (isChar : isNumberChar c = true)
    (takes : TakesNumberChars text left) : TakesNumberChars (c :: text) left := by
  obtain ⟨taken, rfl, chars⟩ := takes
  exact ⟨c :: taken, rfl, by simpa [isChar] using chars⟩

theorem spanDigits?_takes {text run left : List Char} (read : spanDigits? text = some (run, left)) :
    TakesNumberChars text left := by
  unfold spanDigits? at read
  split at read
  · cases read
  · next digits rest _ spans =>
      cases read
      rw [List.span_eq_takeWhile_dropWhile] at spans
      obtain ⟨rfl, rfl⟩ := Prod.mk.inj spans
      refine ⟨text.takeWhile isDigit, List.takeWhile_append_dropWhile.symm, ?_⟩
      intro c member
      have digit : isDigit c = true := List.mem_takeWhile_imp member
      simp [isNumberChar, digit]

theorem wholePart?_takes {text whole left : List Char}
    (read : wholePart? text = some (whole, left)) : TakesNumberChars text left ∧ text ≠ [] := by
  unfold wholePart? at read
  split at read
  · refine ⟨?_, by simp⟩
    split at read
    · cases read
      exact .cons (by decide) (.refl _)
    · split at read <;> cases read
      exact .cons (by decide) (.refl _)
  · refine ⟨spanDigits?_takes read, ?_⟩
    rintro rfl
    cases read

theorem fractionPart?_takes {text left : List Char} {fraction : Option (List Char)}
    (read : fractionPart? text = some (fraction, left)) : TakesNumberChars text left := by
  unfold fractionPart? at read
  split at read
  · obtain ⟨⟨run, rest⟩, spans, same⟩ := Option.map_eq_some_iff.mp read
    cases same
    exact .cons (by decide) (spanDigits?_takes spans)
  · cases read
    exact .refl _

theorem powerPart?_takes {text left : List Char} {power : Option (Bool × List Char)}
    (read : powerPart? text = some (power, left)) : TakesNumberChars text left := by
  unfold powerPart? at read
  split at read
  rotate_right
  · cases read
    exact .refl _
  -- The sign of the power stands behind either letter.
  all_goals
    split at read
    next found negative digits head =>
      obtain ⟨run, spans, same⟩ := Option.map_eq_some_iff.mp read
      cases same
      refine .cons (by decide) (.trans ?_ (spanDigits?_takes spans))
      split at head <;> cases head
      · exact .cons (by decide) (.refl _)
      · exact .cons (by decide) (.refl _)
      · exact .refl _

theorem ofText?_numberChars {text : List Char} {number : JsonNumber}
    (read : ofText? text = some number) :
    text ≠ [] ∧ ∀ c ∈ text, isNumberChar c = true := by
  obtain ⟨parts, partsRead, _⟩ := Option.bind_eq_some_iff.mp read
  unfold parts? at partsRead
  split at partsRead
  next negative unsigned head =>
  obtain ⟨⟨whole, afterWhole⟩, wholeRead, partsRead⟩ := Option.bind_eq_some_iff.mp partsRead
  obtain ⟨⟨fraction, afterFraction⟩, fractionRead, partsRead⟩ :=
    Option.bind_eq_some_iff.mp partsRead
  obtain ⟨⟨power, left⟩, powerRead, partsRead⟩ := Option.bind_eq_some_iff.mp partsRead
  obtain rfl : left = [] := by
    cases left with
    | nil => rfl
    | cons c rest => cases partsRead
  obtain ⟨takesWhole, nonempty⟩ := wholePart?_takes wholeRead
  obtain ⟨taken, same, chars⟩ :=
    (takesWhole.trans (fractionPart?_takes fractionRead)).trans (powerPart?_takes powerRead)
  rw [List.append_nil] at same
  subst same
  split at head
  · cases head
    exact ⟨by simp, List.forall_mem_cons.mpr ⟨by decide, chars⟩⟩
  · cases head
    exact ⟨nonempty, chars⟩

end JsonNumber

end Durable

import Durable.Proofs.Calendar
import Durable.Time.Printer
import Durable.Time.Reader
import Mathlib.Data.List.Induction
import Mathlib.Data.List.TakeDrop

/-!
# Written instants are read back

An instant that a clock can show is found again from the text that a row holds for it, and
from the one that a record holds.  Numbers are written in digits of a fixed width, so each
part is read back by itself.  In a row the strict form takes the years of four digits, and the
last of the loose forms takes the others.
-/

namespace Durable

namespace Instant

/-- An instant that a clock can show: a leap second comes at the end of a minute only. -/
structure Genuine (t : Instant) : Prop where
  representable : t.Representable
  leap : t.inLeapSecond = true → t.seconds % 60 = 59

private theorem inLeapSecond_false {t : Instant} (nanos : t.nanos < Duration.nanosPerSecond) :
    t.inLeapSecond = false := by
  rw [inLeapSecond, decide_eq_false_iff_not]
  omega

private theorem Genuine.of_carry {seconds : Int} {nanos : Nat}
    (early : earliest.seconds ≤ seconds) (late : (carry seconds nanos).seconds ≤ latest.seconds) :
    (carry seconds nanos).Genuine := by
  have fraction : nanos % Duration.nanosPerSecond < Duration.nanosPerSecond :=
    Nat.mod_lt _ (by decide)
  constructor
  · have carried : (0 : Int) ≤ (nanos / Duration.nanosPerSecond : Nat) := Int.natCast_nonneg _
    refine ⟨early.trans (Int.le_add_of_nonneg_right carried), late, ?_⟩
    exact fraction.trans (by decide)
  · intro leap
    rw [inLeapSecond_false fraction] at leap
    contradiction

private theorem Genuine.plus {t : Instant} (genuine : t.Genuine) {d : Duration}
    (late : (t.plus d).seconds ≤ latest.seconds) : (t.plus d).Genuine := by
  have early := genuine.representable.1
  unfold Instant.plus at late ⊢
  split at late
  · next leap =>
      simp only [leap, if_true] at late ⊢
      split at late
      · next within =>
          simp only [within, and_self, if_true] at late ⊢
          exact ⟨⟨early, late, within.2⟩, fun _ => genuine.leap leap⟩
      · next past =>
          rw [if_neg past]
          exact of_carry (by omega) late
  · next plain =>
      rw [if_neg plain]
      exact of_carry (by omega) late

theorem Genuine.add {t : Instant} (genuine : t.Genuine) (d : Duration) : (t.add d).Genuine := by
  have last : latest.Genuine := ⟨by decide, by decide⟩
  unfold Instant.add
  split
  · dsimp only
    split
    · next late => exact genuine.plus late
    · exact last
  · exact last

private theorem padded_toList (width n : Nat) : (padded width n).toList =
    List.replicate (width - (Nat.toDigits 10 n).length) '0' ++ Nat.toDigits 10 n := by
  simp [padded]

theorem digitsValue_padded (width n : Nat) :
    digitsValue (padded width n).toList = n := by
  have value : digitsValue (padded width n).toList =
      Nat.ofDigitChars 10 (padded width n).toList 0 := by
    simp [digitsValue, Nat.ofDigitChars, Nat.mul_comm]
  rw [value, padded_toList, Nat.ofDigitChars_append, Nat.ofDigitChars_replicate_zero,
    Nat.mul_zero, Nat.ofDigitChars_toDigits (by omega) (by omega)]

private theorem isDigit_padded {width n : Nat} {c : Char}
    (member : c ∈ (padded width n).toList) : isDigit c = true := by
  rw [padded_toList, List.mem_append] at member
  rcases member with zero | digit
  · rw [List.eq_of_mem_replicate zero]
    rfl
  · exact Nat.isDigit_of_mem_toDigits (by omega) (by omega) digit

private theorem length_padded {width n : Nat} (wide : 0 < width) (fits : n < 10 ^ width) :
    (padded width n).toList.length = width := by
  have short := (Nat.length_toDigits_le_iff (by omega) wide).mpr fits
  rw [padded_toList, List.length_append, List.length_replicate]
  omega

private theorem padded_cons (width n : Nat) :
    ∃ c rest, (padded width n).toList = c :: rest ∧ isDigit c = true := by
  cases digits : (padded width n).toList with
  | nil =>
      rw [padded_toList, List.append_eq_nil_iff] at digits
      exact absurd digits.2 Nat.toDigits_ne_nil
  | cons c rest =>
      refine ⟨c, rest, rfl, ?_⟩
      apply isDigit_padded
      rw [digits]
      exact List.mem_cons_self

private theorem takeWhile_padded {width n : Nat} {rest : List Char}
    (ends : ∀ c ∈ rest.head?, isDigit c = false) :
    ((padded width n).toList ++ rest).takeWhile isDigit = (padded width n).toList := by
  rw [List.takeWhile_append_of_pos fun c member => isDigit_padded member]
  cases rest with
  | nil => simp
  | cons c rest => simp [ends c (by simp)]

private theorem dropWhile_padded {width n : Nat} {rest : List Char}
    (ends : ∀ c ∈ rest.head?, isDigit c = false) :
    ((padded width n).toList ++ rest).dropWhile isDigit = rest := by
  rw [List.dropWhile_append_of_pos fun c member => isDigit_padded member]
  cases rest with
  | nil => simp
  | cons c rest => simp [ends c (by simp)]

private theorem number?_of_takeWhile {width limit n : Nat} {rest : List Char}
    (found : (((padded width n).toList ++ rest).take limit).takeWhile isDigit =
      (padded width n).toList) :
    number? limit ((padded width n).toList ++ rest) = some (n, rest) := by
  obtain ⟨c, digits, shape, _⟩ := padded_cons width n
  have value := digitsValue_padded width n
  simp only [number?, found]
  rw [shape] at value ⊢
  simp [value]

private theorem number?_padded {width n : Nat} (wide : 0 < width) (fits : n < 10 ^ width)
    (rest : List Char) :
    number? width ((padded width n).toList ++ rest) = some (n, rest) := by
  apply number?_of_takeWhile
  rw [List.take_left' (length_padded wide fits)]
  have whole : ∀ c ∈ ([] : List Char).head?, isDigit c = false := by simp
  rw [← List.append_nil (padded width n).toList, takeWhile_padded whole, List.append_nil]

private theorem fixed?_padded {width n : Nat} (wide : 0 < width) (fits : n < 10 ^ width)
    (rest : List Char) :
    fixed? width ((padded width n).toList ++ rest) = some (n, rest) := by
  have length := length_padded wide fits
  simp [fixed?, number?_padded wide fits, length, Nat.add_comm]

private theorem wholeNumber?_padded {width n : Nat} {rest : List Char}
    (ends : ∀ c ∈ rest.head?, isDigit c = false) :
    wholeNumber? ((padded width n).toList ++ rest) = some (n, rest) := by
  apply number?_of_takeWhile
  rw [List.take_length, takeWhile_padded ends]

private theorem isBlank_of_isDigit {c : Char} (digit : isDigit c = true) :
    Text.isBlank c = false := by
  have bounds : 48 ≤ c.toNat ∧ c.toNat ≤ 57 := by
    simpa [isDigit, Char.le_def, UInt32.le_iff_toNat_le] using digit
  simp only [Text.isBlank, Bool.or_eq_false_iff, Bool.and_eq_false_iff, decide_eq_false_iff_not,
    beq_eq_false_iff_ne]
  omega

private theorem trimStart_padded (width n : Nat) (rest : List Char) :
    Text.trimStart ((padded width n).toList ++ rest) = (padded width n).toList ++ rest := by
  obtain ⟨c, digits, shape, digit⟩ := padded_cons width n
  rw [shape, List.cons_append, Text.trimStart, List.dropWhile_cons, isBlank_of_isDigit digit]
  rfl

private theorem year?_padded {n : Nat} (fits : n < 10 ^ 4) (rest : List Char) :
    year? ((padded 4 n).toList ++ rest) = some ((n : Int), rest) := by
  have read := number?_padded (by omega) fits rest
  obtain ⟨c, digits, shape, digit⟩ := padded_cons 4 n
  rw [shape, List.cons_append] at read ⊢
  unfold year?
  split
  · next minus =>
      obtain ⟨rfl, -⟩ := List.cons.inj minus
      exact absurd digit (by decide)
  · next plus =>
      obtain ⟨rfl, -⟩ := List.cons.inj plus
      exact absurd digit (by decide)
  · simp [read]

private theorem year?_yearText (year : Int) (rest : List Char) :
    year? ((yearText year).toList ++ '-' :: rest) = some (year, '-' :: rest) := by
  have ends : ∀ c ∈ ('-' :: rest).head?, isDigit c = false := by simp [isDigit]
  have minus : "-".toList = ['-'] := rfl
  have plus : "+".toList = ['+'] := rfl
  unfold yearText
  split
  · next short =>
      rw [year?_padded (by omega)]
      simp
      omega
  · next long =>
      split
      · next negative =>
          rw [String.toList_append, minus, List.append_assoc, List.singleton_append, year?,
            wholeNumber?_padded ends]
          simp [abs_of_neg negative]
      · next positive =>
          rw [String.toList_append, plus, List.append_assoc, List.singleton_append, year?,
            wholeNumber?_padded ends]
          simp
          omega

private theorem fraction?_padded {width n : Nat} {rest : List Char} (wide : 0 < width)
    (narrow : width ≤ 9) (fits : n < 10 ^ width)
    (ends : ∀ c ∈ rest.head?, isDigit c = false) :
    fraction? (("." ++ padded width n).toList ++ rest) =
      some (n * 10 ^ (9 - width), rest) := by
  have dot : ".".toList = ['.'] := rfl
  have length := length_padded wide fits
  have value := digitsValue_padded width n
  have spanned : ((padded width n).toList ++ rest).span isDigit =
      ((padded width n).toList, rest) := by
    rw [List.span_eq_takeWhile_dropWhile, takeWhile_padded ends, dropWhile_padded ends]
  obtain ⟨c, digits, shape, _⟩ := padded_cons width n
  rw [String.toList_append, dot, List.append_assoc, List.singleton_append, fraction?, spanned]
  rw [shape] at length value ⊢
  have kept : (c :: digits).take 9 = c :: digits := List.take_of_length_le (by omega)
  simp only [kept, value, length]
  rfl

/-- A zone ends a fraction, also one that is left out. -/
private theorem fraction?_fractionText {nanos : Nat} (fits : nanos < 1000000000) {mark : Char}
    (noDigit : isDigit mark = false) (noDot : mark ≠ '.') (rest : List Char) :
    fraction? ((fractionText nanos).toList ++ mark :: rest) = some (nanos, mark :: rest) := by
  have ends : ∀ c ∈ (mark :: rest).head?, isDigit c = false := by simpa using noDigit
  unfold fractionText
  split
  · next zero =>
      simp [fraction?, zero, noDot]
  · split
    · next millis =>
        rw [fraction?_padded (by omega) (by omega) (by omega) ends]
        simp
        omega
    · split
      · next micros =>
          rw [fraction?_padded (by omega) (by omega) (by omega) ends]
          simp
          omega
      · rw [fraction?_padded (by omega) (by omega) (by omega) ends]
        simp

/-- The parts that the text of an instant names. -/
def fields (t : Instant) : Fields :=
  let time := t.timeOfDay
  { year := t.date.year
    month := t.date.month
    day := t.date.day
    hour := time / 3600
    minute := time / 60 % 60
    second := if t.inLeapSecond then time % 60 + 1 else time % 60
    nanos := if t.inLeapSecond then t.nanos - Duration.nanosPerSecond else t.nanos }

private theorem fields_nanos (t : Instant) : t.fields.nanos =
    if t.inLeapSecond then t.nanos - Duration.nanosPerSecond else t.nanos := rfl

/-- An instant has the parts that its text names. -/
private theorem ofFields?_fields {t : Instant} (genuine : t.Genuine) :
    ofFields? t.fields 0 = some t := by
  obtain ⟨valid, days⟩ := Calendar.ofDays_spec (t.seconds / secondsPerDay)
  obtain ⟨⟨early, late, nanos⟩, leap⟩ := genuine
  -- A leap second is second `60`, and no other second is.
  have sixty : t.fields.second = 60 ↔ t.inLeapSecond = true := by
    simp only [fields, timeOfDay, secondsPerDay]
    split
    · next inLeap => have := leap inLeap; simp [inLeap]; omega
    · next plain => simp [plain]; omega
  have second : (if t.fields.second = 60 then 59 else t.fields.second) = t.timeOfDay % 60 := by
    by_cases inLeap : t.inLeapSecond = true
    · have := leap inLeap
      rw [if_pos (sixty.mpr inLeap), timeOfDay, secondsPerDay]
      omega
    · rw [if_neg (mt sixty.mp inLeap), fields, if_neg inLeap]
  have fraction : (if t.fields.second = 60 then t.fields.nanos + Duration.nanosPerSecond
      else t.fields.nanos) = t.nanos := by
    by_cases inLeap : t.inLeapSecond = true
    · have := of_decide_eq_true inLeap
      rw [if_pos (sixty.mpr inLeap), fields_nanos, if_pos inLeap]
      omega
    · rw [if_neg (mt sixty.mp inLeap), fields_nanos, if_neg inLeap]
  have civil : Calendar.toDays ⟨t.fields.year, t.fields.month, t.fields.day⟩ * secondsPerDay +
      ((t.fields.hour * 3600 + t.fields.minute * 60 + t.timeOfDay % 60 : Nat) : Int) =
        t.seconds := by
    have day : Calendar.toDays ⟨t.fields.year, t.fields.month, t.fields.day⟩ =
        t.seconds / secondsPerDay := days
    rw [day]
    simp only [fields, timeOfDay, secondsPerDay]
    omega
  simp only [ofFields?, second, fraction, civil, Int.sub_zero]
  rw [if_pos]
  refine ⟨valid, ?_, ?_, ?_, by decide, early, late, early, late⟩
  · simp only [fields, timeOfDay, secondsPerDay]
    omega
  · simp only [fields, timeOfDay, secondsPerDay]
    omega
  · simp only [fields, timeOfDay, secondsPerDay]
    split <;> omega

private theorem stamp_toList (t : Instant) {zone : String} {mark : Char} {rest : List Char}
    (zoned : zone.toList = mark :: rest) : (t.stamp zone).toList =
    (yearText t.fields.year).toList ++ '-' :: ((padded 2 t.fields.month).toList ++
      '-' :: ((padded 2 t.fields.day).toList ++ 'T' :: ((padded 2 t.fields.hour).toList ++
        ':' :: ((padded 2 t.fields.minute).toList ++ ':' :: ((padded 2 t.fields.second).toList ++
          ((fractionText t.fields.nanos).toList ++ mark :: rest)))))) := by
  have dash : "-".toList = ['-'] := rfl
  have colon : ":".toList = [':'] := rfl
  have letter : "T".toList = ['T'] := rfl
  unfold stamp dateText clockText fields
  split <;> simp [*]

private theorem offset_toList : "+00:00".toList = '+' :: ['0', '0', ':', '0', '0'] :=
  rfl

/-- Two digits hold every part but the year, and nine the fraction. -/
private theorem fields_fit {t : Instant} (genuine : t.Genuine) :
    t.fields.month < 10 ^ 2 ∧ t.fields.day < 10 ^ 2 ∧ t.fields.hour < 10 ^ 2 ∧
      t.fields.minute < 10 ^ 2 ∧ t.fields.second < 10 ^ 2 ∧ t.fields.nanos < 1000000000 := by
  obtain ⟨⟨_, months, _, days⟩, _⟩ := Calendar.ofDays_spec (t.seconds / secondsPerDay)
  have short : Calendar.daysInMonth t.date.year t.date.month ≤ 31 := by
    unfold Calendar.daysInMonth
    split <;> (try split) <;> omega
  have nanos := genuine.representable.2.2
  have second : Duration.nanosPerSecond = 1000000000 := rfl
  refine ⟨?_, ?_, ?_, ?_, ?_, ?_⟩
  · exact Nat.lt_of_le_of_lt months (by omega)
  · exact Nat.lt_of_le_of_lt (days.trans short) (by omega)
  · simp only [fields, timeOfDay, secondsPerDay]
    omega
  · simp only [fields]
    omega
  · simp only [fields]
    split <;> omega
  · rw [fields_nanos]
    by_cases inLeap : t.inLeapSecond = true
    · rw [if_pos inLeap]
      omega
    · have := mt decide_eq_true inLeap
      rw [if_neg inLeap]
      omega

section Bind

variable {α : Type} {c : Char} {rest : List Char} {next : List Char → Option α}

-- A part that is read is handed on at once, before the rest of the form is looked at.
private theorem bind_some {value : List Char} : (some value >>= next) = next value :=
  rfl

private theorem bind_literal? : (literal? c (c :: rest) >>= next) = next rest := by
  rw [literal?, if_pos rfl]
  rfl

private theorem bind_fixed? {width n : Nat} {next : Nat × List Char → Option α} (wide : 0 < width)
    (fits : n < 10 ^ width) :
    (fixed? width ((padded width n).toList ++ rest) >>= next) = next (n, rest) := by
  rw [fixed?_padded wide fits]
  rfl

private theorem bind_fraction? {nanos : Nat} {next : Nat × List Char → Option α}
    (fits : nanos < 1000000000) :
    (fraction? ((fractionText nanos).toList ++ '+' :: rest) >>= next) =
      next (nanos, '+' :: rest) := by
  rw [fraction?_fractionText fits (by decide) (by decide)]
  rfl

end Bind

private theorem ofStrict?_stamp {t : Instant} (genuine : t.Genuine)
    (short : 0 ≤ t.fields.year ∧ t.fields.year ≤ 9999) :
    ofStrict? (t.stamp "+00:00") = some t := by
  obtain ⟨month, day, hour, minute, second, nanos⟩ := fields_fit genuine
  have year : t.fields.year.toNat < 10 ^ 4 := by omega
  have signless : ((t.fields.year.toNat : Nat) : Int) = t.fields.year := by omega
  have zone : zuluOrOffset? .colon ['+', '0', '0', ':', '0', '0'] = some (0, []) := rfl
  rw [ofStrict?, stamp_toList t offset_toList, yearText, if_pos short]
  simp only [↓bind_some, ↓bind_literal?, ↓bind_fixed? (by omega) year, ↓bind_fixed? (by omega) month,
    ↓bind_fixed? (by omega) day, ↓bind_fixed? (by omega) hour, ↓bind_fixed? (by omega) minute,
    ↓bind_fixed? (by omega) second, ↓bind_fraction? nanos]
  rw [zone, signless]
  exact ofFields?_fields genuine

private theorem ofStrict?_stamp_signed {t : Instant}
    (long : ¬ (0 ≤ t.fields.year ∧ t.fields.year ≤ 9999)) :
    ofStrict? (t.stamp "+00:00") = none := by
  have minus : "-".toList = ['-'] := rfl
  have plus : "+".toList = ['+'] := rfl
  rw [ofStrict?, stamp_toList t offset_toList, yearText, if_neg long, String.toList_append]
  split
  · rw [minus]
    rfl
  · rw [plus]
    rfl

private theorem trimStart_of_head {c : Char} {rest : List Char} (mark : Text.isBlank c = false) :
    Text.trimStart (c :: rest) = c :: rest := by
  simp [Text.trimStart, mark]

private theorem yearText_trimmed (year : Int) (rest : List Char) :
    Text.trimStart ((yearText year).toList ++ rest) = (yearText year).toList ++ rest := by
  have minus : "-".toList = ['-'] := rfl
  have plus : "+".toList = ['+'] := rfl
  unfold yearText
  split
  · exact trimStart_padded 4 year.toNat rest
  · split
    · rw [String.toList_append, minus, List.append_assoc]
      exact trimStart_of_head (by decide)
    · rw [String.toList_append, plus, List.append_assoc]
      exact trimStart_of_head (by decide)

section Loose

variable {t : Instant}

-- What is written stands without blanks, so it is read alike where blanks may stand.
private theorem trimStart_mark {mark : Char} (dark : Text.isBlank mark = false) (blanks : Bool)
    (rest : List Char) :
    (if blanks = true then Text.trimStart (mark :: rest) else mark :: rest) = mark :: rest := by
  rw [trimStart_of_head dark, ite_self]

private theorem looseDate?_stamp (genuine : t.Genuine) (blanks : Bool) (rest : List Char) :
    looseDate? blanks ((yearText t.fields.year).toList ++ '-' ::
      ((padded 2 t.fields.month).toList ++ '-' :: ((padded 2 t.fields.day).toList ++ rest))) =
        some ((t.fields.year, t.fields.month, t.fields.day), rest) := by
  obtain ⟨month, day, _⟩ := fields_fit genuine
  have dash := fun rest => trimStart_mark (by decide : Text.isBlank '-' = false) blanks rest
  simp [looseDate?, yearText_trimmed, year?_yearText, dash, literal?, trimStart_padded,
    number?_padded (by omega) month, number?_padded (by omega) day]

private theorem looseMinutes?_stamp (genuine : t.Genuine) (blanks : Bool) (rest : List Char) :
    looseMinutes? blanks ((padded 2 t.fields.hour).toList ++ ':' ::
      ((padded 2 t.fields.minute).toList ++ rest)) =
        some ((t.fields.hour, t.fields.minute), rest) := by
  obtain ⟨_, _, hour, minute, _⟩ := fields_fit genuine
  have colon := fun rest => trimStart_mark (by decide : Text.isBlank ':' = false) blanks rest
  simp [looseMinutes?, colon, literal?, trimStart_padded, number?_padded (by omega) hour,
    number?_padded (by omega) minute]

private theorem looseTime?_stamp (genuine : t.Genuine) (blanks : Bool) {mark : Char}
    (noDigit : isDigit mark = false) (noDot : mark ≠ '.') (rest : List Char) :
    looseTime? blanks ((padded 2 t.fields.hour).toList ++ ':' ::
      ((padded 2 t.fields.minute).toList ++ ':' :: ((padded 2 t.fields.second).toList ++
        ((fractionText t.fields.nanos).toList ++ mark :: rest)))) =
      some ((t.fields.hour, t.fields.minute, t.fields.second, t.fields.nanos), mark :: rest) := by
  obtain ⟨_, _, _, _, second, nanos⟩ := fields_fit genuine
  have colon := fun rest => trimStart_mark (by decide : Text.isBlank ':' = false) blanks rest
  simp [looseTime?, looseMinutes?_stamp genuine, colon, literal?, trimStart_padded,
    number?_padded (by omega) second, fraction?_fractionText nanos noDigit noDot]

private theorem read?_blank (genuine : t.Genuine) (seconds : Bool) (zone : Zone) :
    (LooseForm.mk ' ' seconds zone).read? (t.stamp "+00:00") = none := by
  have letter : ∀ rest, Text.trimStart ('T' :: rest) = 'T' :: rest := fun rest =>
    trimStart_of_head (by decide)
  have minutes : ∀ rest, looseMinutes? false ('T' :: rest) = none := by
    intro rest
    simp [looseMinutes?, letter, number?, isDigit]
  cases seconds <;>
    simp [LooseForm.read?, stamp_toList t offset_toList, looseDate?_stamp genuine,
      LooseForm.separate?, letter, looseTime?, minutes]

private theorem read?_minutes (genuine : t.Genuine) (zone : Zone) :
    (LooseForm.mk 'T' false zone).read? (t.stamp "+00:00") = none := by
  have colon : ∀ rest, offset? .loose (Text.trimStart (':' :: rest)) = none := by
    intro rest
    rw [trimStart_of_head (by decide)]
    rfl
  cases zone <;>
    simp [LooseForm.read?, stamp_toList t offset_toList, looseDate?_stamp genuine,
      LooseForm.separate?, literal?, looseMinutes?_stamp genuine, LooseForm.zone?, colon]

private theorem read?_seconds (genuine : t.Genuine) (zone : Zone) :
    (LooseForm.mk 'T' true zone).read? (t.stamp "+00:00") =
      if zone = .offset then some t else none := by
  have offset : offset? .loose (Text.trimStart ['+', '0', '0', ':', '0', '0']) =
      some (0, []) := rfl
  have read : ofFields? ⟨t.fields.year, t.fields.month, t.fields.day, t.fields.hour,
      t.fields.minute, t.fields.second, t.fields.nanos⟩ 0 = some t := ofFields?_fields genuine
  have time := fun rest => looseTime?_stamp genuine false (by decide : isDigit '+' = false) (by decide) rest
  cases zone <;>
    simp [LooseForm.read?, stamp_toList t offset_toList, looseDate?_stamp genuine,
      LooseForm.separate?, literal?, time, LooseForm.zone?, offset, read]

private theorem looseForms_stamp (genuine : t.Genuine) :
    looseForms.findSome? (fun form => form.read? (t.stamp "+00:00")) = some t := by
  simp [looseForms, read?_blank genuine, read?_minutes genuine, read?_seconds genuine]

end Loose

/-- An instant is read back from the text that a row holds for it. -/
theorem ofLoose?_stamp {t : Instant} (genuine : t.Genuine) :
    ofLoose? (t.stamp "+00:00") = some t := by
  by_cases short : 0 ≤ t.fields.year ∧ t.fields.year ≤ 9999
  · rw [ofLoose?, ofStrict?_stamp genuine short]
  · rw [ofLoose?, ofStrict?_stamp_signed short]
    exact looseForms_stamp genuine

/-- An instant is read back from the text that a record holds for it. -/
theorem ofText?_text {t : Instant} (genuine : t.Genuine) : ofText? t.text = some t := by
  have zone : "Z".toList = 'Z' :: [] := rfl
  have universal : recordOffset? (Text.trimStart ['Z']) = some (0, []) := rfl
  have ended : Text.trimStart [] = [] := rfl
  have time := looseTime?_stamp genuine true (by decide : isDigit 'Z' = false) (by decide) []
  have read : ofFields? ⟨t.fields.year, t.fields.month, t.fields.day, t.fields.hour,
      t.fields.minute, t.fields.second, t.fields.nanos⟩ 0 = some t := ofFields?_fields genuine
  rw [ofText?, text, stamp_toList t zone]
  simp [looseDate?_stamp genuine, time, universal, ended, read]

private theorem digitsValue_lt {digits : List Char} (all : ∀ c ∈ digits, isDigit c = true) :
    digitsValue digits < 10 ^ digits.length := by
  induction digits using List.reverseRecOn with
  | nil => simp [digitsValue]
  | append_singleton digits c induction =>
      have earlier := induction fun d member => all d (List.mem_append_left _ member)
      have bounds : 48 ≤ c.toNat ∧ c.toNat ≤ 57 := by
        simpa [isDigit, Char.le_def, UInt32.le_iff_toNat_le] using all c (by simp)
      have zero : '0'.toNat = 48 := rfl
      rw [digitsValue, zero] at earlier ⊢
      rw [List.foldl_append, List.foldl_cons, List.foldl_nil, List.length_append,
        List.length_singleton, Nat.pow_succ]
      omega

private theorem fraction?_lt {text rest : List Char} {nanos : Nat}
    (read : fraction? text = some (nanos, rest)) : nanos < 1000000000 := by
  unfold fraction? at read
  split at read
  · next after =>
      split at read
      · cases read
      · next digits remaining shape spanned =>
          rw [List.span_eq_takeWhile_dropWhile, Prod.mk.injEq] at spanned
          have all : ∀ c ∈ digits.take 9, isDigit c = true := by
            intro c member
            have inDigits := List.mem_of_mem_take member
            rw [← spanned.1] at inDigits
            exact List.all_eq_true.mp List.all_takeWhile c inDigits
          have value := digitsValue_lt all
          have short : (digits.take 9).length ≤ 9 := List.length_take_le 9 digits
          obtain ⟨rfl, -⟩ := Prod.mk.inj (Option.some.inj read)
          calc digitsValue (digits.take 9) * Nat.pow 10 (9 - (digits.take 9).length)
              < 10 ^ (digits.take 9).length * 10 ^ (9 - (digits.take 9).length) :=
                Nat.mul_lt_mul_of_pos_right value (Nat.pow_pos (by omega))
            _ = 10 ^ 9 := by rw [← Nat.pow_add, Nat.add_sub_cancel' short]
            _ = 1000000000 := by rfl
  · obtain ⟨rfl, -⟩ := Prod.mk.inj (Option.some.inj read)
    omega

private theorem of_bind {α β : Type} {read : Option α} {next : α → Option β} {value : β}
    (done : (read >>= next) = some value) : ∃ part, read = some part ∧ next part = some value :=
  Option.bind_eq_some_iff.mp done

private theorem offset?_minutes {separator : OffsetSeparator} {text rest : List Char}
    {offset : Int} (read : offset? separator text = some (offset, rest)) : offset % 60 = 0 := by
  have parts : ∀ {sign : Int} {text : List Char}, sign = 1 ∨ sign = -1 →
      offsetParts? separator sign text = some (offset, rest) → offset % 60 = 0 := by
    intro sign text unit read
    obtain ⟨⟨hours, afterHours⟩, _, read⟩ := of_bind read
    obtain ⟨separated, _, read⟩ := of_bind read
    obtain ⟨⟨minutes, remaining⟩, _, given⟩ := of_bind read
    dsimp only at given
    split at given
    · obtain ⟨rfl, -⟩ := Prod.mk.inj (Option.some.inj given)
      rcases unit with rfl | rfl <;> omega
    · cases given
  unfold offset? at read
  split at read
  · exact parts (.inl rfl) read
  · exact parts (.inr rfl) read
  · exact parts (.inr rfl) read
  · cases read

private theorem zuluOrOffset?_minutes {separator : OffsetSeparator} {text rest : List Char}
    {offset : Int} (read : zuluOrOffset? separator text = some (offset, rest)) :
    offset % 60 = 0 := by
  unfold zuluOrOffset? at read
  split at read
  · cases read
    rfl
  · cases read
    rfl
  · exact offset?_minutes read

private theorem Genuine.of_fields {read : Fields} {offset : Int} {t : Instant}
    (given : ofFields? read offset = some t) (fraction : read.nanos < 1000000000)
    (minutes : offset % 60 = 0) : t.Genuine := by
  have second : Duration.nanosPerSecond = 1000000000 := rfl
  simp only [ofFields?, Option.ite_none_right_eq_some, Option.some.injEq] at given
  obtain ⟨⟨_, _, _, _, _, _, _, early, late⟩, rfl⟩ := given
  by_cases leap : read.second = 60
  · simp only [leap, if_true] at early late ⊢
    refine ⟨⟨early, late, ?_⟩, fun _ => ?_⟩
    · dsimp only
      omega
    · dsimp only [secondsPerDay]
      omega
  · simp only [leap, if_false] at early late ⊢
    refine ⟨⟨early, late, ?_⟩, fun inLeap => ?_⟩
    · dsimp only
      omega
    · have plain : Duration.nanosPerSecond ≤ read.nanos := of_decide_eq_true inLeap
      omega

private theorem ofStrict?_genuine {text : String} {t : Instant}
    (read : ofStrict? text = some t) : t.Genuine := by
  unfold ofStrict? at read
  obtain ⟨⟨year, _⟩, _, read⟩ := of_bind read
  obtain ⟨_, _, read⟩ := of_bind read
  obtain ⟨⟨month, _⟩, _, read⟩ := of_bind read
  obtain ⟨_, _, read⟩ := of_bind read
  obtain ⟨⟨day, _⟩, _, read⟩ := of_bind read
  dsimp only at read
  -- The rest is the same behind each of the separators.
  split at read
  all_goals
    obtain ⟨_, _, read⟩ := of_bind read
    obtain ⟨⟨hour, _⟩, _, read⟩ := of_bind read
    obtain ⟨_, _, read⟩ := of_bind read
    obtain ⟨⟨minute, _⟩, _, read⟩ := of_bind read
    obtain ⟨_, _, read⟩ := of_bind read
    obtain ⟨⟨second, _⟩, _, read⟩ := of_bind read
    obtain ⟨⟨nanos, _⟩, fraction, read⟩ := of_bind read
    obtain ⟨⟨offset, _⟩, zoned, given⟩ := of_bind read
    dsimp only at given
    split at given
    · exact .of_fields given (fraction?_lt fraction) (zuluOrOffset?_minutes zoned)
    · cases given

private theorem zone?_minutes {form : LooseForm} {text : List Char} {offset : Int}
    (zoned : form.zone? text = some offset) : offset % 60 = 0 := by
  unfold LooseForm.zone? at zoned
  split at zoned
  · split at zoned <;> cases zoned
    rfl
  · split at zoned <;> cases zoned
    rfl
  · split at zoned
    · next found offsetRead =>
        cases zoned
        exact offset?_minutes offsetRead
    · cases zoned

private theorem looseTime?_lt {text rest : List Char} {hour minute second nanos : Nat}
    (read : looseTime? false text = some ((hour, minute, second, nanos), rest)) :
    nanos < 1000000000 := by
  unfold looseTime? at read
  obtain ⟨⟨⟨_, _⟩, _⟩, _, read⟩ := of_bind read
  obtain ⟨_, _, read⟩ := of_bind read
  obtain ⟨⟨_, _⟩, _, read⟩ := of_bind read
  obtain ⟨⟨_, _⟩, fraction, given⟩ := of_bind read
  cases given
  exact fraction?_lt fraction

private theorem read?_genuine {form : LooseForm} {text : String} {t : Instant}
    (read : form.read? text = some t) : t.Genuine := by
  unfold LooseForm.read? at read
  obtain ⟨⟨⟨year, month, day⟩, _⟩, _, read⟩ := of_bind read
  obtain ⟨_, _, read⟩ := of_bind read
  -- Whether seconds are given or not, the fraction is less than one.
  have zoned : ∀ {hour minute second nanos : Nat} {rest : List Char}, nanos < 1000000000 →
      (form.zone? rest >>= fun offset =>
        (ofFields? ⟨year, month, day, hour, minute, second, nanos⟩ offset).or
          (ofFields? ⟨year, month, day, hour, minute, second, nanos⟩ 0)) = some t →
      t.Genuine := by
    intro hour minute second nanos rest fraction read
    obtain ⟨offset, zone, given⟩ := of_bind read
    rcases Option.or_eq_some_iff.mp given with shifted | ⟨_, unshifted⟩
    · exact .of_fields shifted fraction (zone?_minutes zone)
    · exact .of_fields unshifted fraction rfl
  split at read
  · obtain ⟨⟨⟨hour, minute, second, nanos⟩, _⟩, timed, read⟩ := of_bind read
    exact zoned (looseTime?_lt timed) read
  · obtain ⟨⟨⟨hour, minute, second, nanos⟩, _⟩, timed, read⟩ := of_bind read
    obtain ⟨_, _, same⟩ := Option.map_eq_some_iff.mp timed
    cases same
    exact zoned (by omega) read

/-- Every instant that is read from a row is one that a clock can show. -/
theorem ofLoose?_genuine {text : String} {t : Instant} (read : ofLoose? text = some t) :
    t.Genuine := by
  unfold ofLoose? at read
  split at read
  · next found strict =>
      cases read
      exact ofStrict?_genuine strict
  · obtain ⟨form, _, given⟩ := List.exists_of_findSome?_eq_some read
    exact read?_genuine given

end Instant

end Durable

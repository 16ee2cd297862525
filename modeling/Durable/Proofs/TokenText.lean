import Durable.Proofs.NumberText
import Mathlib.Data.List.Chain

/-!
# Texts of JSON tokens

The texts of tokens that stand one behind another are scanned into the same tokens, as long
as no two numbers touch.  A string of any characters is found again from its escapes, and a
number whenever it comes back from its own text.
-/

namespace Durable

/-- The number comes back from its text. -/
def JsonNumber.Readable (number : JsonNumber) : Prop :=
  ofText? number.text.toList = some number

namespace JsonToken

def isNumber : JsonToken → Bool
  | .number _ => true
  | _ => false

/-- A token that comes back from its text: every token but some numbers. -/
def Readable : JsonToken → Prop
  | .number value => value.Readable
  | _ => True

theorem hexValue?_digitChar (digit : Nat) (hex : digit < 16) :
    hexValue? digit.digitChar = some digit := by
  have each : ∀ digit < 16, hexValue? (Nat.digitChar digit) = some digit := by decide
  exact each digit hex

theorem unicodeEscape?_hexPair {c : Char} (control : c.toNat < 0x20) (rest : List Char) :
    unicodeEscape? ('0' :: '0' :: (hexPair c.toNat ++ rest)) = some (c, rest) := by
  have zero : hexValue? '0' = some 0 := rfl
  have high := hexValue?_digitChar (c.toNat / 16) (by omega)
  have low := hexValue?_digitChar (c.toNat % 16) (by omega)
  have code : c.toNat / 16 * 16 + c.toNat % 16 = c.toNat := by omega
  have unit : unit? ('0' :: '0' :: (hexPair c.toNat ++ rest)) = some (c.toNat, rest) := by
    simp [unit?, hexPair, zero, high, low, code]
  have noHigh : ¬(0xD800 ≤ c.toNat ∧ c.toNat < 0xDC00) := by omega
  have noLow : ¬(0xDC00 ≤ c.toNat ∧ c.toNat < 0xE000) := by omega
  simp [unicodeEscape?, unit, noHigh, noLow]

/-- A character that was read is put before those that follow it. -/
def prepend (c : Char) (read : List Char × List Char) : List Char × List Char :=
  (c :: read.1, read.2)

theorem scanString_simpleEscape {sign c : Char} (means : simpleEscape? sign = some c)
    (fuel : Nat) (text : List Char) :
    scanString (fuel + 1) ('\\' :: sign :: text) = (scanString fuel text).map (prepend c) := by
  have notUnicode : sign = 'u' → False := by
    rintro rfl
    cases means
  simp [scanString, means, Option.map_eq_bind, Function.comp_def, prepend]

/-- A character is read again from its escape. -/
theorem scanString_escapeChar (c : Char) (fuel : Nat) (text : List Char) :
    scanString (fuel + 1) (escapeChar c ++ text) = (scanString fuel text).map (prepend c) := by
  have ofCode : ∀ {code : Nat}, c.toNat = code → c = Char.ofNat code := by
    rintro _ rfl
    exact (Char.ofNat_toNat c).symm
  by_cases quote : c = '"'
  · subst quote
    exact scanString_simpleEscape rfl fuel text
  by_cases backslash : c = '\\'
  · subst backslash
    exact scanString_simpleEscape rfl fuel text
  by_cases newline : c = '\n'
  · subst newline
    exact scanString_simpleEscape rfl fuel text
  by_cases carriageReturn : c = '\r'
  · subst carriageReturn
    exact scanString_simpleEscape rfl fuel text
  by_cases tab : c = '\t'
  · subst tab
    exact scanString_simpleEscape rfl fuel text
  by_cases backspace : c.toNat = 8
  · rw [ofCode backspace]
    exact scanString_simpleEscape rfl fuel text
  by_cases formFeed : c.toNat = 12
  · rw [ofCode formFeed]
    exact scanString_simpleEscape rfl fuel text
  by_cases control : c.toNat < 0x20
  · have escape := unicodeEscape?_hexPair control text
    simp [escapeChar, quote, backslash, newline, carriageReturn, tab, backspace, formFeed, control,
      scanString, escape, Option.map_eq_bind, Function.comp_def, prepend]
  · simp [escapeChar, quote, backslash, newline, carriageReturn, tab, backspace, formFeed, control,
      scanString, Option.map_eq_bind, Function.comp_def, prepend]

theorem scanString_escaped (chars rest : List Char) {fuel : Nat} (enough : chars.length < fuel) :
    scanString fuel (chars.flatMap escapeChar ++ '"' :: rest) = some (chars, rest) := by
  induction chars generalizing fuel with
  | nil =>
      obtain ⟨fuel, rfl⟩ : ∃ less, fuel = less + 1 := ⟨fuel - 1, by omega⟩
      simp [scanString]
  | cons c chars induction =>
      obtain ⟨fuel, rfl⟩ : ∃ less, fuel = less + 1 := ⟨fuel - 1, by omega⟩
      rw [List.length_cons] at enough
      rw [List.flatMap_cons, List.append_assoc, scanString_escapeChar, induction (by omega)]
      rfl

/-- The text does not go on with a character of a number. -/
def EndsNumber (text : List Char) : Prop :=
  ∀ c ∈ text.head?, isNumberChar c = false

theorem span_number {digits rest : List Char} (chars : ∀ c ∈ digits, isNumberChar c = true)
    (ends : EndsNumber rest) : (digits ++ rest).span isNumberChar = (digits, rest) := by
  rw [List.span_eq_takeWhile_dropWhile, List.takeWhile_append_of_pos chars,
    List.dropWhile_append_of_pos chars]
  cases rest with
  | nil => simp
  | cons c rest => simp [ends c rfl]

theorem scanOne_number {number : JsonNumber} (readable : number.Readable) {rest : List Char}
    (ends : EndsNumber rest) (fuel : Nat) :
    scanOne fuel (number.text.toList ++ rest) = some (.number number, rest) := by
  obtain ⟨nonempty, chars⟩ := JsonNumber.ofText?_numberChars readable
  have spans := span_number chars ends
  have starts : ∀ c left, number.text.toList ++ rest = c :: left → isNumberChar c = true := by
    intro c left same
    cases written : number.text.toList with
    | nil => exact absurd written nonempty
    | cons first others =>
        rw [written, List.cons_append] at same
        rw [← (List.cons.inj same).1]
        exact chars first (by simp [written])
  unfold scanOne
  split
  all_goals try (next same => exact absurd (starts _ _ same) (by decide))
  have read : JsonNumber.ofText? number.text.toList = some number := readable
  rw [spans]
  simp [read]

theorem length_le_escaped (chars : List Char) :
    chars.length ≤ (chars.flatMap escapeChar).length := by
  induction chars with
  | nil => exact Nat.le_refl _
  | cons c chars induction =>
      have atLeast : 1 ≤ (escapeChar c).length := by
        unfold escapeChar
        split_ifs <;> simp
      rw [List.flatMap_cons, List.length_append, List.length_cons]
      omega

/-- A token is scanned from its text; behind a number the text must not go on like one. -/
theorem scanOne_render {token : JsonToken} (readable : token.Readable) {rest : List Char}
    (ends : token.isNumber = true → EndsNumber rest) {fuel : Nat}
    (enough : (token.render ++ rest).length < fuel) :
    scanOne fuel (token.render ++ rest) = some (token, rest) := by
  cases token with
  | openArray => rfl
  | closeArray => rfl
  | openObject => rfl
  | closeObject => rfl
  | comma => rfl
  | colon => rfl
  | null => rfl
  | bool value => cases value <;> rfl
  | number value => exact scanOne_number readable (ends rfl) fuel
  | string value =>
      have length := length_le_escaped value.toList
      simp only [render, renderString, List.cons_append, List.append_assoc, List.length_cons,
        List.length_append] at enough ⊢
      have atLeast : value.toList.length < fuel := by omega
      have scanned := scanString_escaped value.toList rest atLeast
      simp [scanOne, scanned]

theorem isSpace_of_isNumberChar {c : Char} (isChar : isNumberChar c = true) :
    isSpace c = false := by
  cases space : isSpace c with
  | false => rfl
  | true =>
      have blank : ((c = ' ' ∨ c = '\n') ∨ c = '\t') ∨ c = '\r' := by
        simpa [isSpace] using space
      rcases blank with ((rfl | rfl) | rfl) | rfl <;> exact absurd isChar (by decide)

theorem render_head {token : JsonToken} (readable : token.Readable) :
    ∃ c text, token.render = c :: text ∧ isSpace c = false ∧
      (token.isNumber = false → isNumberChar c = false) := by
  cases token with
  | number value =>
      obtain ⟨nonempty, chars⟩ := JsonNumber.ofText?_numberChars readable
      obtain ⟨c, text, written⟩ := List.exists_cons_of_ne_nil nonempty
      refine ⟨c, text, written, ?_, by simp [isNumber]⟩
      exact isSpace_of_isNumberChar (chars c (by simp [written]))
  | bool value => cases value <;> exact ⟨_, _, rfl, by decide, fun _ => by decide⟩
  | _ => exact ⟨_, _, rfl, by decide, fun _ => by decide⟩

/-- No two numbers stand side by side. -/
def Apart (tokens : List JsonToken) : Prop :=
  tokens.IsChain fun token next => token.isNumber = true → next.isNumber = false

theorem Apart.endsNumber {token : JsonToken} {rest : List JsonToken}
    (apart : Apart (token :: rest)) (readable : ∀ next ∈ rest, next.Readable)
    (number : token.isNumber = true) : EndsNumber (rest.flatMap render) := by
  cases rest with
  | nil => simp [EndsNumber]
  | cons next others =>
      have separates := (List.isChain_cons_cons.mp apart).1 number
      obtain ⟨c, text, written, _, noNumber⟩ := render_head (readable next List.mem_cons_self)
      simpa [EndsNumber, written] using noNumber separates

/-- Tokens are scanned from their texts, one behind another. -/
theorem scanAll_flatMap {tokens : List JsonToken} (readable : ∀ token ∈ tokens, token.Readable)
    (apart : Apart tokens) {fuel : Nat} (enough : (tokens.flatMap render).length < fuel) :
    scanAll fuel (tokens.flatMap render) = some tokens := by
  induction tokens generalizing fuel with
  | nil =>
      obtain ⟨less, rfl⟩ : ∃ less, fuel = less + 1 := ⟨fuel - 1, by omega⟩
      rfl
  | cons token rest induction =>
      obtain ⟨less, rfl⟩ : ∃ less, fuel = less + 1 := ⟨fuel - 1, by omega⟩
      have restReadable : ∀ next ∈ rest, next.Readable :=
        fun next member => readable next (List.mem_cons_of_mem _ member)
      have tokenReadable := readable token List.mem_cons_self
      obtain ⟨c, text, written, notSpace, _⟩ := render_head tokenReadable
      rw [List.flatMap_cons] at enough ⊢
      have one := scanOne_render tokenReadable (apart.endsNumber restReadable) enough
      have later : scanAll less (rest.flatMap render) = some rest := by
        apply induction restReadable (List.IsChain.tail apart)
        rw [written, List.cons_append, List.length_cons, List.length_append] at enough
        omega
      rw [written, List.cons_append] at one ⊢
      rw [scanAll, List.dropWhile_cons, notSpace]
      simp [one, later]

end JsonToken

end Durable

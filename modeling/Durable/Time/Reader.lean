import Durable.Text.Blank
import Durable.Time.Instant

/-!
# Reading instants

A date, a time of day and an offset from universal time.  `ofText?` reads the
form of records, in which parts may be short and separated by blanks;
`ofStrict?` reads the fixed-width form of the internet standard; and `ofLoose?`
also reads forms without seconds, or without an offset.
-/

namespace Durable

namespace Instant

/-- The parts of an instant that a text names. -/
structure Fields where
  year : Int
  month : Nat
  day : Nat
  hour : Nat
  minute : Nat
  second : Nat
  nanos : Nat
  deriving DecidableEq, Repr

/-- The instant of some fields whose clock runs `offset` seconds ahead of
universal time.  Second `60` is the leap second after second `59`. -/
def ofFields? (fields : Fields) (offset : Int) : Option Instant :=
  let date : Calendar.Date := ⟨fields.year, fields.month, fields.day⟩
  let leap := fields.second = 60
  let civilSeconds := Calendar.toDays date * secondsPerDay
    + ((fields.hour * 3600 + fields.minute * 60 + (if leap then 59 else fields.second) : Nat) : Int)
  let shifted := civilSeconds - offset
  let nanos := if leap then fields.nanos + Duration.nanosPerSecond else fields.nanos
  if date.Valid ∧ fields.hour < 24 ∧ fields.minute < 60 ∧ fields.second ≤ 60
      ∧ offset.natAbs < 86400
      ∧ earliest.seconds ≤ civilSeconds ∧ civilSeconds ≤ latest.seconds
      ∧ earliest.seconds ≤ shifted ∧ shifted ≤ latest.seconds then
    some ⟨shifted, nanos⟩
  else none

def isDigit (c : Char) : Bool :=
  '0' ≤ c && c ≤ '9'

def digitsValue (digits : List Char) : Nat :=
  digits.foldl (fun value c => value * 10 + (c.toNat - '0'.toNat)) 0

/-- At least one digit and at most `width`; the text after them. -/
def number? (width : Nat) (text : List Char) : Option (Nat × List Char) :=
  match (text.take width).takeWhile isDigit with
  | [] => none
  | digits => some (digitsValue digits, text.drop digits.length)

/-- All digits at the head of a text, at least one. -/
def wholeNumber? (text : List Char) : Option (Nat × List Char) :=
  number? text.length text

/-- Exactly `width` digits. -/
def fixed? (width : Nat) (text : List Char) : Option (Nat × List Char) :=
  match number? width text with
  | some (value, rest) => if rest.length + width = text.length then some (value, rest) else none
  | none => none

def literal? (c : Char) : List Char → Option (List Char)
  | [] => none
  | d :: rest => if c = d then some rest else none

/-- A year with a sign has any number of digits, one without at most four. -/
def year? (text : List Char) : Option (Int × List Char) :=
  match text with
  | '-' :: rest => (wholeNumber? rest).map fun (year, rest) => (-(year : Int), rest)
  | '+' :: rest => (wholeNumber? rest).map fun (year, rest) => ((year : Int), rest)
  | _ => (number? 4 text).map fun (year, rest) => ((year : Int), rest)

/-- A fraction of a second; digits beyond the ninth are dropped. -/
def fraction? (text : List Char) : Option (Nat × List Char) :=
  match text with
  | '.' :: rest =>
    match rest.span isDigit with
    | ([], _) => none
    | (digits, rest) =>
      let kept := digits.take 9
      some (digitsValue kept * Nat.pow 10 (9 - kept.length), rest)
  | _ => some (0, text)

/-- How the hours and the minutes of an offset may be separated. -/
inductive OffsetSeparator where
  | colon
  | loose
  deriving DecidableEq, Repr

def skipSeparator? (separator : OffsetSeparator) (text : List Char) : Option (List Char) :=
  match separator with
  | .colon => literal? ':' text
  | .loose => some (text.dropWhile fun c => c == ':' || Text.isBlank c)

/-- Hours and minutes after a sign, in seconds. -/
def offsetParts? (separator : OffsetSeparator) (sign : Int) (text : List Char) :
    Option (Int × List Char) := do
  let (hours, text) ← fixed? 2 text
  let text ← skipSeparator? separator text
  let (minutes, text) ← fixed? 2 text
  if minutes < 60 then some (sign * ((hours * 3600 + minutes * 60 : Nat) : Int), text) else none

/-- A signed offset; the sign may be the typographic minus. -/
def offset? (separator : OffsetSeparator) (text : List Char) : Option (Int × List Char) :=
  match text with
  | '+' :: rest => offsetParts? separator 1 rest
  | '-' :: rest => offsetParts? separator (-1) rest
  | '−' :: rest => offsetParts? separator (-1) rest
  | _ => none

def zuluOrOffset? (separator : OffsetSeparator) (text : List Char) : Option (Int × List Char) :=
  match text with
  | 'Z' :: rest | 'z' :: rest => some (0, rest)
  | _ => offset? separator text

/-- A date whose parts may be short and preceded by blanks. -/
def looseDate? (blanks : Bool) (text : List Char) : Option ((Int × Nat × Nat) × List Char) := do
  let skip (text : List Char) := if blanks then Text.trimStart text else text
  let (year, text) ← year? (Text.trimStart text)
  let text ← literal? '-' (skip text)
  let (month, text) ← number? 2 (Text.trimStart text)
  let text ← literal? '-' (skip text)
  let (day, text) ← number? 2 (Text.trimStart text)
  some ((year, month, day), text)

/-- Hours and minutes that may be short and preceded by blanks. -/
def looseMinutes? (blanks : Bool) (text : List Char) : Option ((Nat × Nat) × List Char) := do
  let skip (text : List Char) := if blanks then Text.trimStart text else text
  let (hour, text) ← number? 2 (Text.trimStart text)
  let text ← literal? ':' (skip text)
  let (minute, text) ← number? 2 (Text.trimStart text)
  some ((hour, minute), text)

/-- A time of day with seconds and an optional fraction. -/
def looseTime? (blanks : Bool) (text : List Char) :
    Option ((Nat × Nat × Nat × Nat) × List Char) := do
  let skip (text : List Char) := if blanks then Text.trimStart text else text
  let ((hour, minute), text) ← looseMinutes? blanks text
  let text ← literal? ':' (skip text)
  let (second, text) ← number? 2 (Text.trimStart text)
  let (nanos, text) ← fraction? text
  some ((hour, minute, second, nanos), text)

def lowerAsciiChars (text : List Char) : List Char :=
  text.map Char.toLower

/-- The offset at the end of a record's instant: `Z`, `UTC` or hours and minutes. -/
def recordOffset? (text : List Char) : Option (Int × List Char) :=
  if lowerAsciiChars (text.take 3) = ['u', 't', 'c'] then some (0, text.drop 3)
  else zuluOrOffset? .loose text

/-- The form of records. -/
def ofText? (text : String) : Option Instant := do
  let ((year, month, day), text) ← looseDate? true text.toList
  let text ← match text with
    | 't' :: rest | 'T' :: rest | ' ' :: rest => some rest
    | _ => none
  let ((hour, minute, second, nanos), text) ← looseTime? true text
  let (offset, text) ← recordOffset? (Text.trimStart text)
  if (Text.trimStart text).isEmpty then
    ofFields? ⟨year, month, day, hour, minute, second, nanos⟩ offset
  else none

/-- The fixed-width form: four digits for the year and two for all other parts. -/
def ofStrict? (text : String) : Option Instant := do
  let (year, text) ← fixed? 4 text.toList
  let text ← literal? '-' text
  let (month, text) ← fixed? 2 text
  let text ← literal? '-' text
  let (day, text) ← fixed? 2 text
  let text ← match text with
    | 't' :: rest | 'T' :: rest | ' ' :: rest => some rest
    | _ => none
  let (hour, text) ← fixed? 2 text
  let text ← literal? ':' text
  let (minute, text) ← fixed? 2 text
  let text ← literal? ':' text
  let (second, text) ← fixed? 2 text
  let (nanos, text) ← fraction? text
  let (offset, text) ← zuluOrOffset? .colon text
  if text.isEmpty then ofFields? ⟨year, month, day, hour, minute, second, nanos⟩ offset
  else none

/-- What may follow the time of day in a loose form. -/
inductive Zone where
  | none
  | zulu
  | offset
  deriving DecidableEq, Repr

/-- A loose form: what separates date and time, whether seconds are given, and
the zone. -/
structure LooseForm where
  separator : Char
  seconds : Bool
  zone : Zone
  deriving DecidableEq, Repr

/-- A blank as separator stands for any number of blanks. -/
def LooseForm.separate? (form : LooseForm) (text : List Char) : Option (List Char) :=
  if form.separator = ' ' then some (Text.trimStart text) else literal? form.separator text

/-- The offset at the end of a text of this form. -/
def LooseForm.zone? (form : LooseForm) (text : List Char) : Option Int :=
  match form.zone with
  | .none => if text.isEmpty then some 0 else Option.none
  | .zulu => if text = ['Z'] then some 0 else Option.none
  | .offset =>
    match offset? .loose (Text.trimStart text) with
    | some (offset, []) => some offset
    | _ => Option.none

/-- The instant of a text of this form.  An offset that leads out of the range of
instants is read over. -/
def LooseForm.read? (form : LooseForm) (text : String) : Option Instant := do
  let ((year, month, day), text) ← looseDate? false text.toList
  let text ← form.separate? text
  let ((hour, minute, second, nanos), text) ←
    if form.seconds then looseTime? false text
    else (looseMinutes? false text).map fun ((hour, minute), text) => ((hour, minute, 0, 0), text)
  let offset ← form.zone? text
  let fields : Fields := ⟨year, month, day, hour, minute, second, nanos⟩
  (ofFields? fields offset).or (ofFields? fields 0)

def looseForms : List LooseForm :=
  [⟨' ', true, .none⟩, ⟨' ', false, .none⟩, ⟨' ', false, .zulu⟩, ⟨' ', false, .offset⟩,
   ⟨' ', true, .zulu⟩, ⟨' ', true, .offset⟩,
   ⟨'T', false, .none⟩, ⟨'T', false, .zulu⟩, ⟨'T', false, .offset⟩,
   ⟨'T', true, .none⟩, ⟨'T', true, .zulu⟩, ⟨'T', true, .offset⟩]

/-- The strict form, or the first loose form that fits. -/
def ofLoose? (text : String) : Option Instant :=
  match ofStrict? text with
  | some t => some t
  | none => looseForms.findSome? fun form => form.read? text

end Instant

end Durable

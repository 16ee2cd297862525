import Durable.Proofs.JsonGrammar
import Durable.Store
import Mathlib.Data.List.Forall2

/-!
# Which rows can be read

Whether a row can be read is a matter of its columns, each by itself.  The history of an
execution is there just when all its rows can be read, and then it has one record for each
row, in order.  Otherwise the error is that of a ready time, or else of the first row that has
a column at fault, and in that row of the first such column.
-/

namespace Durable

theorem except_bind_error_iff {computation : Except ε α} {next : α → Except ε β} {error : ε} :
    (computation >>= next) = .error error ↔
      computation = .error error ∨
        ∃ value, computation = .ok value ∧ next value = .error error := by
  cases computation with
  | error raised => simp [bind, Except.bind]
  | ok value => simp [bind, Except.bind]

theorem except_bind_ok_iff {computation : Except ε α} {next : α → Except ε β} {value : β} :
    (computation >>= next) = .ok value ↔
      ∃ middle, computation = .ok middle ∧ next middle = .ok value := by
  cases computation with
  | error raised => simp [bind, Except.bind]
  | ok middle => simp [bind, Except.bind]

section Lists

variable {α β ε : Type}

theorem mapM_some_iff {f : α → Option β} {items : List α} {results : List β} :
    items.mapM f = some results ↔
      List.Forall₂ (fun item result => f item = some result) items results := by
  induction items generalizing results with
  | nil => cases results <;> simp
  | cons item items induction =>
      rw [List.mapM_cons]
      cases results <;> simp [Option.bind_eq_some_iff, ← induction]

theorem mapM_none_iff {f : α → Option β} {items : List α} :
    items.mapM f = none ↔ ∃ item ∈ items, f item = none := by
  induction items with
  | nil => simp
  | cons item items induction =>
      cases read : f item with
      | none => simp [List.mapM_cons, read]
      | some result =>
          rw [List.mapM_cons, read]
          cases rest : items.mapM f <;> simp [rest, read, ← induction]

theorem mapM_ok_iff {f : α → Except ε β} {items : List α} {results : List β} :
    items.mapM f = .ok results ↔
      List.Forall₂ (fun item result => f item = .ok result) items results := by
  induction items generalizing results with
  | nil => cases results <;> simp [pure, Except.pure]
  | cons item items induction =>
      rw [List.mapM_cons, except_bind_ok_iff]
      cases results <;> simp [except_bind_ok_iff, ← induction, pure, Except.pure]

/-- The error is that of the first item that fails. -/
theorem mapM_error_iff {f : α → Except ε β} {items : List α} {error : ε} :
    items.mapM f = .error error ↔
      ∃ before item after, items = before ++ item :: after ∧
        (∀ earlier ∈ before, ∃ result, f earlier = .ok result) ∧ f item = .error error := by
  induction items with
  | nil => simp [pure, Except.pure]
  | cons first items induction =>
      rw [List.mapM_cons, except_bind_error_iff]
      constructor
      · rintro (failed | ⟨result, taken, failed⟩)
        · exact ⟨[], first, items, rfl, by simp, failed⟩
        · rw [except_bind_error_iff] at failed
          obtain failed | ⟨_, _, impossible⟩ := failed
          · obtain ⟨before, item, after, rfl, passed, failed⟩ := induction.mp failed
            refine ⟨first :: before, item, after, rfl, ?_, failed⟩
            exact List.forall_mem_cons.mpr ⟨⟨result, taken⟩, passed⟩
          · cases impossible
      · rintro ⟨before, item, after, split, passed, failed⟩
        cases before with
        | nil =>
            cases split
            exact .inl failed
        | cons earlier before =>
            cases split
            obtain ⟨⟨result, taken⟩, passed⟩ := List.forall_mem_cons.mp passed
            have rest := induction.mpr ⟨before, item, after, rfl, passed, failed⟩
            exact .inr ⟨result, taken, except_bind_error_iff.mpr (.inl rest)⟩

theorem exists_optionRel_iff {relation : α → β → Prop} {item : Option α} :
    (∃ result, Option.Rel relation item result) ↔
      ∀ value ∈ item, ∃ result, relation value result := by
  cases item <;> simp [Option.exists]

theorem exists_mem_of_forall₂ {relation : α → β → Prop} {items : List α} {results : List β}
    (related : List.Forall₂ relation items results) {item : α} (member : item ∈ items) :
    ∃ result ∈ results, relation item result := by
  induction related with
  | nil => cases member
  | cons here _ induction =>
      rcases List.mem_cons.mp member with rfl | later
      · exact ⟨_, List.mem_cons_self, here⟩
      · obtain ⟨result, among, holds⟩ := induction later
        exact ⟨result, List.mem_cons_of_mem _ among, holds⟩

theorem exists_forall₂_iff {relation : α → β → Prop} {items : List α} :
    (∃ results, List.Forall₂ relation items results) ↔
      ∀ item ∈ items, ∃ result, relation item result := by
  constructor
  · rintro ⟨results, related⟩ item member
    obtain ⟨result, _, holds⟩ := exists_mem_of_forall₂ related member
    exact ⟨result, holds⟩
  · intro each
    induction items with
    | nil => exact ⟨[], .nil⟩
    | cons item items induction =>
        obtain ⟨⟨result, here⟩, later⟩ := List.forall_mem_cons.mp each
        obtain ⟨results, related⟩ := induction later
        exact ⟨result :: results, .cons here related⟩

theorem forall₂_append_left {relation : α → β → Prop} {earlier later : List α}
    {results : List β} (related : List.Forall₂ relation (earlier ++ later) results) :
    ∃ front behind, List.Forall₂ relation earlier front ∧ List.Forall₂ relation later behind ∧
      results = front ++ behind := by
  induction earlier generalizing results with
  | nil => exact ⟨[], results, .nil, related, rfl⟩
  | cons item earlier induction =>
      rw [List.cons_append, List.forall₂_cons_left_iff] at related
      obtain ⟨result, rest, here, related, rfl⟩ := related
      obtain ⟨front, behind, before, after, rfl⟩ := induction related
      exact ⟨result :: front, behind, .cons here before, after, rfl⟩

end Lists

/-- A number that fits into 32 bits without a sign. -/
def IsCounter (number : Int) : Prop :=
  0 ≤ number ∧ number ≤ 4294967295

instance (number : Int) : Decidable (IsCounter number) :=
  inferInstanceAs (Decidable (0 ≤ number ∧ number ≤ 4294967295))

theorem isCounter_natCast_iff {value : Nat} : IsCounter value ↔ value < counterBound := by
  have bound : counterBound = 4294967296 := rfl
  rw [IsCounter]
  omega

theorem counter?_eq_some_iff {number : Int} {counter : Nat} :
    counter? number = some counter ↔ IsCounter number ∧ (counter : Int) = number := by
  cases number with
  | ofNat value =>
      change (if value < counterBound then some value else none) = some counter ↔ _
      rw [Option.ite_none_right_eq_some, Int.ofNat_eq_natCast, isCounter_natCast_iff,
        Option.some.injEq, Int.ofNat_inj, eq_comm]
  | negSucc value =>
      simp only [counter?, IsCounter, reduceCtorEq, false_iff, not_and]
      omega

theorem counter?_eq_none_iff {number : Int} : counter? number = none ↔ ¬IsCounter number := by
  rw [Option.eq_none_iff_forall_ne_some]
  simp only [ne_eq, counter?_eq_some_iff, not_and]
  refine ⟨fun none counter => ?_, fun unfit counter isCounter => absurd isCounter unfit⟩
  exact none number.toNat counter (Int.toNat_of_nonneg counter.1)

theorem exists_counter?_iff {number : Int} :
    (∃ counter, counter? number = some counter) ↔ IsCounter number := by
  rw [← Option.ne_none_iff_exists', ne_eq, counter?_eq_none_iff, not_not]

theorem OperationKind.ofText?_eq_some_iff {name : String} {kind : OperationKind} :
    ofText? name = some kind ↔ kind.text = name := by
  constructor
  · intro read
    unfold ofText? at read
    split at read <;> cases read <;> rfl
  · rintro rfl
    cases kind <;> rfl

theorem OperationStatus.ofText?_eq_some_iff {name : String} {status : OperationStatus} :
    ofText? name = some status ↔ status.text = name := by
  constructor
  · intro read
    unfold ofText? at read
    split at read <;> cases read <;> rfl
  · rintro rfl
    cases status <;> rfl

section Names

variable {α : Type} {text : α → String} {ofText? : String → Option α}
  (named : ∀ {name value}, ofText? name = some value ↔ text value = name)

include named

theorem text_injective {value other : α} (same : text value = text other) : value = other := by
  have read : ofText? (text other) = some value := named.mpr same
  rw [named.mpr rfl] at read
  exact (Option.some.inj read).symm

theorem ofText?_eq_none_iff {name : String} :
    ofText? name = none ↔ ¬∃ value, text value = name := by
  rw [Option.eq_none_iff_forall_ne_some]
  simp only [ne_eq, named, not_exists]

end Names

namespace Row

theorem require_ok_iff {value : Option α} {error : RowError} {found : α} :
    require value error = .ok found ↔ value = some found := by
  cases value <;> simp [require]

theorem require_error_iff {value : Option α} {error raised : RowError} :
    require value error = .error raised ↔ value = none ∧ raised = error := by
  cases value <;> simp [require, eq_comm]

variable {time : Type}

/-- The result is absent, or the text of a value. -/
def HasResult (row : Row time) : Prop :=
  ∀ text ∈ row.result, ∃ value, Json.WrittenAs value text

theorem readResult?_ok_iff {text : Option String} {result : Option Json} :
    readResult? text = .ok result ↔
      Option.Rel (fun text value => Json.WrittenAs value text) text result := by
  cases text with
  | none => cases result <;> simp [readResult?]
  | some text =>
      cases parsed : Json.parse? text with
      | none =>
          cases result <;> simp [readResult?, ← Json.parse?_eq_some_iff, parsed]
      | some value =>
          cases result <;> simp [readResult?, ← Json.parse?_eq_some_iff, parsed]

theorem readResult?_error_iff {row : Row time} {error : RowError} :
    readResult? row.result = .error error ↔ ¬row.HasResult ∧ error = .malformedResult := by
  cases stored : row.result with
  | none => simp [readResult?, HasResult, stored]
  | some text =>
      cases parsed : Json.parse? text with
      | none => simp [readResult?, HasResult, stored, ← Json.parse?_eq_some_iff, parsed, eq_comm]
      | some value => simp [readResult?, HasResult, stored, ← Json.parse?_eq_some_iff, parsed]

def HasKind (row : Row time) : Prop :=
  ∃ kind : OperationKind, kind.text = row.kind

def HasStatus (row : Row time) : Prop :=
  ∃ status : OperationStatus, status.text = row.status

/-- The columns other than the ready time can be read. -/
structure Convertible (row : Row time) : Prop where
  result : row.HasResult
  ordinal : IsCounter row.ordinal
  kind : row.HasKind
  status : row.HasStatus
  attempt : IsCounter row.attempt

/-- The error of the first column at fault, the ready time apart. -/
inductive Fault (row : Row time) : StoreError → Prop where
  | result (malformed : ¬row.HasResult) : row.Fault (.serialization "a result is not JSON text")
  | ordinal (result : row.HasResult) (bad : ¬IsCounter row.ordinal) :
      row.Fault (.serialization ("bad ordinal " ++ toString row.ordinal))
  | kind (result : row.HasResult) (ordinal : IsCounter row.ordinal) (unknown : ¬row.HasKind) :
      row.Fault (.unknownKind row.kind)
  | status (result : row.HasResult) (ordinal : IsCounter row.ordinal) (kind : row.HasKind)
      (unknown : ¬row.HasStatus) : row.Fault (.unknownStatus row.status)
  | attempt (result : row.HasResult) (ordinal : IsCounter row.ordinal) (kind : row.HasKind)
      (status : row.HasStatus) (bad : ¬IsCounter row.attempt) :
      row.Fault (.serialization ("bad attempt " ++ toString row.attempt))

/-- The ready time is absent, or the text of an instant. -/
def Timely (row : Row String) : Prop :=
  ∀ text ∈ row.readyAt, ∃ t, Instant.ofLoose? text = some t

/-- Every column can be read. -/
def WellFormed (row : Row String) : Prop :=
  row.Timely ∧ row.Convertible

/-- The record has what the columns say, the ready time apart. -/
structure Carries (row : Row time) (record : Operation) : Prop where
  id : record.id = row.operationId
  ordinal : IsCounter row.ordinal ∧ (record.ordinal : Int) = row.ordinal
  name : record.name = row.name
  kind : record.kind.text = row.kind
  status : record.status.text = row.status
  attempt : IsCounter row.attempt ∧ (record.attempt : Int) = row.attempt
  result : Option.Rel (fun text value => Json.WrittenAs value text) row.result record.result
  error : record.error =
    row.errorType.map fun errorType => ⟨errorType, row.errorMessage.getD ""⟩

/-- The record has what the columns say. -/
structure Describes (row : Row String) (record : Operation) : Prop extends row.Carries record where
  readyAt : Option.Rel (fun text t => Instant.ofLoose? text = some t) row.readyAt record.readyAt

theorem readTime?_eq_some_iff {row : Row String} {timed : Row Instant} :
    row.readTime? = some timed ↔
      ∃ readyAt, Option.Rel (fun text t => Instant.ofLoose? text = some t) row.readyAt readyAt ∧
        timed = { row with readyAt := readyAt } := by
  unfold readTime?
  cases row.readyAt with
  | none =>
      constructor
      · intro read
        exact ⟨none, .none, (Option.some.inj read).symm⟩
      · rintro ⟨readyAt, related, rfl⟩
        cases related
        rfl
  | some text =>
      constructor
      · intro read
        obtain ⟨t, given, same⟩ := Option.map_eq_some_iff.mp read
        exact ⟨some t, .some given, same.symm⟩
      · rintro ⟨readyAt, related, rfl⟩
        cases related with
        | some given => exact Option.map_eq_some_iff.mpr ⟨_, given, rfl⟩

theorem readTime?_eq_none_iff {row : Row String} : row.readTime? = none ↔ ¬row.Timely := by
  unfold readTime? Timely
  cases row.readyAt <;> simp [Option.eq_none_iff_forall_ne_some]

theorem toOperation_ok_iff {row : Row Instant} {record : Operation} :
    row.toOperation = .ok record ↔ row.Carries record ∧ record.readyAt = row.readyAt := by
  simp only [toOperation, except_bind_ok_iff, readResult?_ok_iff, require_ok_iff,
    counter?_eq_some_iff, OperationKind.ofText?_eq_some_iff, OperationStatus.ofText?_eq_some_iff]
  constructor
  · rintro ⟨result, hasResult, ordinal, isOrdinal, kind, isKind, status, isStatus, attempt,
      isAttempt, same⟩
    cases same
    exact ⟨⟨rfl, isOrdinal, rfl, isKind, isStatus, isAttempt, hasResult, rfl⟩, rfl⟩
  · rintro ⟨carries, ready⟩
    refine ⟨record.result, carries.result, record.ordinal, carries.ordinal, record.kind,
      carries.kind, record.status, carries.status, record.attempt, carries.attempt, ?_⟩
    rw [← carries.id, ← carries.name, ← ready]
    exact congrArg (fun error => Except.ok { record with error := error }) carries.error.symm

theorem convertible_iff {row : Row time} : row.Convertible ↔ ∃ record, row.Carries record := by
  constructor
  · rintro ⟨hasResult, isOrdinal, ⟨kind, isKind⟩, ⟨status, isStatus⟩, isAttempt⟩
    obtain ⟨result, related⟩ := exists_optionRel_iff.mpr hasResult
    exact ⟨⟨row.operationId, row.ordinal.toNat, row.name, kind, status, row.attempt.toNat, result,
      _, none⟩, rfl, ⟨isOrdinal, Int.toNat_of_nonneg isOrdinal.1⟩, rfl, isKind, isStatus,
      ⟨isAttempt, Int.toNat_of_nonneg isAttempt.1⟩, related, rfl⟩
  · rintro ⟨record, carries⟩
    exact ⟨exists_optionRel_iff.mp ⟨_, carries.result⟩, carries.ordinal.1, ⟨_, carries.kind⟩,
      ⟨_, carries.status⟩, carries.attempt.1⟩

/-- Each column is looked at only if those before it can be read. -/
theorem toOperation_error_iff {row : Row Instant} {error : RowError} :
    row.toOperation = .error error ↔
      ¬row.HasResult ∧ error = .malformedResult ∨
        row.HasResult ∧ (¬IsCounter row.ordinal ∧ error = .badOrdinal row.ordinal ∨
          IsCounter row.ordinal ∧ (¬row.HasKind ∧ error = .unknownKind row.kind ∨
            row.HasKind ∧ (¬row.HasStatus ∧ error = .unknownStatus row.status ∨
              row.HasStatus ∧ ¬IsCounter row.attempt ∧ error = .badAttempt row.attempt))) := by
  simp only [toOperation, except_bind_error_iff, readResult?_error_iff, readResult?_ok_iff,
    exists_optionRel_iff, require_error_iff, require_ok_iff, counter?_eq_none_iff,
    exists_counter?_iff, ofText?_eq_none_iff OperationKind.ofText?_eq_some_iff,
    OperationKind.ofText?_eq_some_iff, ofText?_eq_none_iff OperationStatus.ofText?_eq_some_iff,
    OperationStatus.ofText?_eq_some_iff, exists_and_right, pure, Except.pure, reduceCtorEq,
    and_false, exists_false, or_false]
  rfl

theorem fault_iff {row : Row time} (readyAt : Option Instant) {error : StoreError} :
    row.Fault error ↔ ∃ raised, toOperation { row with readyAt := readyAt } = .error raised ∧
      raised.toStoreError = error := by
  simp only [toOperation_error_iff]
  constructor
  · rintro (malformed | ⟨result, bad⟩ | ⟨result, ordinal, unknown⟩ |
      ⟨result, ordinal, kind, unknown⟩ | ⟨result, ordinal, kind, status, bad⟩)
    · exact ⟨_, .inl ⟨malformed, rfl⟩, rfl⟩
    · exact ⟨_, .inr ⟨result, .inl ⟨bad, rfl⟩⟩, rfl⟩
    · exact ⟨_, .inr ⟨result, .inr ⟨ordinal, .inl ⟨unknown, rfl⟩⟩⟩, rfl⟩
    · exact ⟨_, .inr ⟨result, .inr ⟨ordinal, .inr ⟨kind, .inl ⟨unknown, rfl⟩⟩⟩⟩, rfl⟩
    · exact ⟨_, .inr ⟨result, .inr ⟨ordinal, .inr ⟨kind, .inr ⟨status, bad, rfl⟩⟩⟩⟩, rfl⟩
  · rintro ⟨raised, ⟨malformed, rfl⟩ | ⟨result, ⟨bad, rfl⟩ | ⟨ordinal, ⟨unknown, rfl⟩ |
      ⟨kind, ⟨unknown, rfl⟩ | ⟨status, bad, rfl⟩⟩⟩⟩, rfl⟩
    · exact .result malformed
    · exact .ordinal result bad
    · exact .kind result ordinal unknown
    · exact .status result ordinal kind unknown
    · exact .attempt result ordinal kind status bad

/-- Both stages of reading a row at once. -/
def read (row : Row String) : Except RowError Operation :=
  match row.readTime? with
  | none => .error .unreadableTime
  | some timed => timed.toOperation

theorem read_ok_iff {row : Row String} {record : Operation} :
    row.read = .ok record ↔ row.Describes record := by
  have staged : row.read = .ok record ↔
      ∃ timed, row.readTime? = some timed ∧ timed.toOperation = .ok record := by
    unfold read
    cases row.readTime? <;> simp
  rw [staged]
  simp only [readTime?_eq_some_iff, toOperation_ok_iff]
  constructor
  · rintro ⟨timed, ⟨readyAt, related, rfl⟩, carries, ready⟩
    exact ⟨{ carries with }, by rwa [ready]⟩
  · intro describes
    exact ⟨_, ⟨record.readyAt, describes.readyAt, rfl⟩, { describes with }, rfl⟩

theorem Timely.read_eq {row : Row String} (timely : row.Timely) :
    ∃ readyAt : Option Instant, row.read = toOperation { row with readyAt := readyAt } := by
  obtain ⟨readyAt, related⟩ := exists_optionRel_iff.mpr timely
  have timeRead := readTime?_eq_some_iff.mpr ⟨readyAt, related, rfl⟩
  exact ⟨readyAt, by rw [read, timeRead]⟩

theorem fault_iff_read {row : Row String} (timely : row.Timely) {error : StoreError} :
    row.Fault error ↔ ∃ raised, row.read = .error raised ∧ raised.toStoreError = error := by
  obtain ⟨readyAt, staged⟩ := timely.read_eq
  rw [staged, fault_iff readyAt]

theorem wellFormed_iff {row : Row String} : row.WellFormed ↔ ∃ record, row.Describes record := by
  constructor
  · rintro ⟨timely, convertible⟩
    obtain ⟨readyAt, related⟩ := exists_optionRel_iff.mpr timely
    obtain ⟨record, carries⟩ := convertible_iff.mp convertible
    exact ⟨{ record with readyAt := readyAt }, { carries with readyAt := related }⟩
  · rintro ⟨record, describes⟩
    exact ⟨exists_optionRel_iff.mp ⟨_, describes.readyAt⟩,
      convertible_iff.mpr ⟨record, describes.toCarries⟩⟩

end Row

namespace Table

/-- Why not all of the rows can be read: because of a ready time, or else because of the first
row that has a fault. -/
inductive Fails (rows : List (Row String)) : StoreError → Prop where
  | time {row : Row String} (member : row ∈ rows) (unreadable : ¬row.Timely) :
      Fails rows (.database "query" "a ready time cannot be read")
  | column {before after : List (Row String)} {row : Row String} {error : StoreError}
      (split : rows = before ++ row :: after) (timely : ∀ row ∈ rows, row.Timely)
      (readable : ∀ row ∈ before, row.Convertible) (fault : row.Fault error) : Fails rows error

variable {table : Table} {executionId : String}

theorem history_untimely {row : Row String} (member : row ∈ table.rowsOf executionId)
    (unreadable : ¬row.Timely) : table.history executionId = .error .unreadableTime := by
  have none := mapM_none_iff.mpr ⟨row, member, Row.readTime?_eq_none_iff.mpr unreadable⟩
  rw [history, none]

/-- If all times can be read, the rows are read one after the other. -/
theorem history_timely (timely : ∀ row ∈ table.rowsOf executionId, row.Timely) :
    table.history executionId = (table.rowsOf executionId).mapM Row.read := by
  rw [history]
  generalize table.rowsOf executionId = rows at timely
  cases timesRead : rows.mapM Row.readTime? with
  | none =>
      obtain ⟨row, member, unread⟩ := mapM_none_iff.mp timesRead
      exact absurd (timely row member) (Row.readTime?_eq_none_iff.mp unread)
  | some timed =>
      rw [mapM_some_iff] at timesRead
      clear timely
      dsimp only
      induction timesRead with
      | nil => rfl
      | cons here _ induction => rw [List.mapM_cons, List.mapM_cons, induction, Row.read, here]

theorem history_ok_iff {records : List Operation} :
    table.history executionId = .ok records ↔
      List.Forall₂ Row.Describes (table.rowsOf executionId) records := by
  by_cases timely : ∀ row ∈ table.rowsOf executionId, row.Timely
  · rw [history_timely timely, mapM_ok_iff]
    simp only [Row.read_ok_iff]
  · push Not at timely
    obtain ⟨row, member, unreadable⟩ := timely
    rw [history_untimely member unreadable]
    refine ⟨nofun, fun described => ?_⟩
    obtain ⟨record, _, describes⟩ := exists_mem_of_forall₂ described member
    exact absurd (Row.wellFormed_iff.mpr ⟨record, describes⟩).1 unreadable

theorem history_error_iff {error : StoreError} :
    (∃ raised, table.history executionId = .error raised ∧ raised.toStoreError = error) ↔
      Fails (table.rowsOf executionId) error := by
  constructor
  · rintro ⟨raised, failed, rfl⟩
    by_cases timely : ∀ row ∈ table.rowsOf executionId, row.Timely
    · rw [history_timely timely, mapM_error_iff] at failed
      obtain ⟨before, row, after, split, passed, failed⟩ := failed
      have rowTimely : row.Timely := timely row (by simp [split])
      refine .column split timely ?_ ((Row.fault_iff_read rowTimely).mpr ⟨raised, failed, rfl⟩)
      intro earlier member
      obtain ⟨record, read⟩ := passed earlier member
      exact (Row.wellFormed_iff.mpr ⟨record, Row.read_ok_iff.mp read⟩).2
    · push Not at timely
      obtain ⟨row, member, unreadable⟩ := timely
      rw [history_untimely member unreadable] at failed
      cases failed
      exact .time member unreadable
  · intro fails
    cases fails with
    | time member unreadable => exact ⟨_, history_untimely member unreadable, rfl⟩
    | @column before after row _ split timely readable fault =>
        have rowTimely : row.Timely := timely row (by simp [split])
        obtain ⟨raised, failed, rfl⟩ := (Row.fault_iff_read rowTimely).mp fault
        refine ⟨raised, ?_, rfl⟩
        rw [history_timely timely, mapM_error_iff]
        refine ⟨before, row, after, split, ?_, failed⟩
        intro earlier member
        have earlierTimely : earlier.Timely := timely earlier (by simp [split, member])
        obtain ⟨record, describes⟩ := Row.wellFormed_iff.mp ⟨earlierTimely, readable earlier member⟩
        exact ⟨record, Row.read_ok_iff.mpr describes⟩

end Table

namespace Store

variable {table : Table} {executionId : String}

theorem history_ofTable (table : Table) (executionId : String) :
    ((ofTable table).history executionId).1 =
      (table.history executionId).mapError RowError.toStoreError :=
  rfl

theorem history_ofTable_ok_iff {records : List Operation} :
    ((ofTable table).history executionId).1 = .ok records ↔
      List.Forall₂ Row.Describes (table.rowsOf executionId) records := by
  rw [history_ofTable, ← Table.history_ok_iff]
  cases table.history executionId <;> simp [Except.mapError]

theorem history_ofTable_error_iff {error : StoreError} :
    ((ofTable table).history executionId).1 = .error error ↔
      Table.Fails (table.rowsOf executionId) error := by
  rw [history_ofTable, ← Table.history_error_iff]
  cases table.history executionId <;> simp [Except.mapError]

theorem load_eq (store : Store) (executionId : String) :
    (store.load executionId).1 = (store.history executionId).1.map History.latestStates :=
  rfl

end Store

/-- The rows of an execution are read just if each of them is well-formed.  The records then
describe the rows in order.  Otherwise the error is that of a ready time, or else that of the
first column at fault in the first row that has one.  The latest states cannot be loaded just if
the history cannot be read, for the same error, and rows of other executions do not matter. -/
theorem rows_are_read_just_if_well_formed (rows : List (Row String)) (executionId : String) :
    let store := Store.ofTable ⟨rows⟩
    let own := rows.filter (·.executionId == executionId)
    ((∃ records, (store.history executionId).1 = .ok records) ↔ ∀ row ∈ own, row.WellFormed) ∧
      (∀ records, (store.history executionId).1 = .ok records ↔
        List.Forall₂ Row.Describes own records) ∧
      (∀ error, (store.history executionId).1 = .error error ↔ Table.Fails own error) ∧
      (∀ error, (store.load executionId).1 = .error error ↔
        (store.history executionId).1 = .error error) ∧
      ∀ others : List (Row String), others.filter (·.executionId == executionId) = own →
        ((Store.ofTable ⟨others⟩).history executionId).1 = (store.history executionId).1 ∧
          ((Store.ofTable ⟨others⟩).load executionId).1 = (store.load executionId).1 := by
  intro store own
  have succeeds : ∀ records, (store.history executionId).1 = .ok records ↔
      List.Forall₂ Row.Describes own records := fun _ => Store.history_ofTable_ok_iff
  refine ⟨?_, succeeds, fun _ => Store.history_ofTable_error_iff, ?_, ?_⟩
  · simp only [succeeds, exists_forall₂_iff, Row.wellFormed_iff]
  · intro error
    rw [Store.load_eq]
    cases (store.history executionId).1 <;> simp [Except.map]
  · intro others same
    have history : Table.history ⟨others⟩ executionId = Table.history ⟨rows⟩ executionId := by
      rw [Table.history, Table.rowsOf, same]
      rfl
    rw [Store.load_eq, Store.load_eq, Store.history_ofTable, history]
    exact ⟨rfl, rfl⟩

/-- A row with the type of an error and no message. -/
def Row.unexplained : Row String where
  executionId := "run"
  ordinal := 0
  operationId := "op-0000"
  name := "a"
  kind := "STEP"
  status := "FAILED"
  attempt := 1
  result := none
  errorType := some "Timeout"
  errorMessage := none
  readyAt := none

/-- A row of another execution that is of no known kind. -/
def Row.looping : Row String :=
  { unexplained with executionId := "other", kind := "LOOP" }

/-- A row that is of no known kind is no hindrance to another execution. -/
theorem row_of_unknown_kind_is_passed_over :
    let alone := Store.ofTable ⟨[.unexplained]⟩
    let crowded := Store.ofTable ⟨[.looping, .unexplained]⟩
    (crowded.history "run").1 = (alone.history "run").1 ∧
      (crowded.load "run").1 = (alone.load "run").1 ∧
      (crowded.history "run").1 = .ok
        [⟨"op-0000", 0, "a", .step, .failed, 1, none, some ⟨"Timeout", ""⟩, none⟩] ∧
      (crowded.history "other").1 = .error (.unknownKind "LOOP") := by
  intro alone crowded
  obtain ⟨_, _, _, _, same⟩ := rows_are_read_just_if_well_formed [.unexplained] "run"
  obtain ⟨history, load⟩ := same [.looping, .unexplained] (by decide)
  obtain ⟨_, described, _⟩ :=
    rows_are_read_just_if_well_formed [.looping, .unexplained] "run"
  obtain ⟨_, _, failed, _⟩ :=
    rows_are_read_just_if_well_formed [.looping, .unexplained] "other"
  refine ⟨history, load, (described _).mpr ?_, (failed _).mpr ?_⟩
  · refine .cons ⟨⟨rfl, ⟨?_, rfl⟩, rfl, rfl, rfl, ⟨?_, rfl⟩, .none, rfl⟩, .none⟩ .nil <;> decide
  · have split : [Row.looping, .unexplained].filter (·.executionId == "other") =
        [] ++ Row.looping :: [] := by decide
    have unknown : ¬Row.looping.HasKind := by
      rintro ⟨kind, same⟩
      cases kind <;> simp [OperationKind.text, Row.looping] at same
    have isOrdinal : IsCounter Row.looping.ordinal := by decide
    refine .column split ?_ (by simp) (.kind nofun isOrdinal unknown)
    rw [split]
    exact List.forall_mem_singleton.mpr nofun

end Durable

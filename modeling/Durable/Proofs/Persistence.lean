import Durable.Proofs.LatestRecord
import Durable.Proofs.RowReading
import Durable.Proofs.WrittenInstant

/-!
# What a store gives back

A store in memory gives back the records that were appended.  A table passes the
result and the ready time of a record through a text, and keeps the rest of it.
The history of an execution therefore lists, after what was there before, one
record for each that was appended, in order.
-/

namespace Durable

namespace Operation

/-- The record without its ready time. -/
def timeless (operation : Operation) : Operation :=
  { operation with readyAt := none }

end Operation

namespace Medium

/-- What the medium makes of a result. -/
def restore : Medium → Json → Option Json
  | memory _, value => some value
  | table _, value => Json.parse? value.render

/-- What the medium makes of a ready time. -/
def restoreTime : Medium → Instant → Option Instant
  | memory _, t => some t
  | table _, t => Instant.ofLoose? (t.stamp "+00:00")

/-- The result comes back from the medium as it was. -/
def Keeps (medium : Medium) (value : Json) : Prop :=
  medium.restore value = some value

theorem keeps_null (medium : Medium) : medium.Keeps .null := by
  cases medium with
  | memory records => rfl
  | table rows => rfl

/-- What the medium gives back for a record that was written. -/
def GivesBack (medium : Medium) (written read : Operation) : Prop :=
  ∃ result readyAt,
    read = { written with result := result, readyAt := readyAt } ∧
      written.result.mapM medium.restore = some result

/-- What the medium gives back for a record that was written, with what it makes of the
ready time. -/
def Restores (medium : Medium) (written read : Operation) : Prop :=
  ∃ result readyAt,
    read = { written with result := result, readyAt := readyAt } ∧
      written.result.mapM medium.restore = some result ∧
      written.readyAt.mapM medium.restoreTime = some readyAt

theorem Restores.givesBack {medium : Medium} {written read : Operation}
    (restores : medium.Restores written read) : medium.GivesBack written read := by
  obtain ⟨result, readyAt, same, restored, _⟩ := restores
  exact ⟨result, readyAt, same, restored⟩

/-- An instant that a clock can show comes back from every medium. -/
theorem restoreTime_genuine (medium : Medium) {t : Instant} (genuine : t.Genuine) :
    medium.restoreTime t = some t := by
  cases medium with
  | memory records => rfl
  | table rows => rw [restoreTime, Instant.ofLoose?_stamp genuine]

theorem restoreTime_restored {medium : Medium} {t back : Instant}
    (given : medium.restoreTime t = some back) : medium.restoreTime back = some back := by
  cases medium with
  | memory records => rfl
  | table rows =>
      rw [restoreTime] at given
      exact restoreTime_genuine _ (Instant.ofLoose?_genuine given)

theorem restore_append (medium : Medium) (executionId : String) (operation : Operation) :
    (medium.append executionId operation).restore = medium.restore := by
  cases medium <;> rfl

theorem restoreTime_append (medium : Medium) (executionId : String) (operation : Operation) :
    (medium.append executionId operation).restoreTime = medium.restoreTime := by
  cases medium <;> rfl

namespace GivesBack

variable {medium : Medium} {written read : Operation}

theorem ordinal (given : medium.GivesBack written read) : read.ordinal = written.ordinal := by
  obtain ⟨result, readyAt, rfl, _⟩ := given
  rfl

theorem status (given : medium.GivesBack written read) : read.status = written.status := by
  obtain ⟨result, readyAt, rfl, _⟩ := given
  rfl

theorem attempt (given : medium.GivesBack written read) : read.attempt = written.attempt := by
  obtain ⟨result, readyAt, rfl, _⟩ := given
  rfl

theorem timeless (given : medium.GivesBack written read)
    (kept : ∀ value, written.result = some value → medium.Keeps value) :
    read.timeless = written.timeless := by
  obtain ⟨result, readyAt, rfl, restored⟩ := given
  have same : result = written.result := by
    cases given : written.result with
    | none => simpa [given] using restored.symm
    | some value =>
        have keeps : medium.restore value = some value := kept value given
        simpa [given, keeps] using restored.symm
  rw [same]
  rfl

end GivesBack

end Medium

private theorem mapM_of_rel {α β : Type} {write : α → String} {read : String → Option β}
    {restore : α → Option β} (restores : ∀ value, restore value = read (write value))
    {item : Option α} {result : Option β}
    (related : Option.Rel (fun text value => read text = some value) (item.map write) result) :
    item.mapM restore = some result := by
  cases item with
  | none =>
      cases related
      rfl
  | some value =>
      cases related with
      | some given => simp [restores, given]

/-- What the row of a record describes is what a table gives back for the record. -/
theorem Row.Describes.restores {executionId : String} {operation read : Operation}
    (describes : (Row.ofOperation executionId operation).Describes read) (table : Table) :
    (Medium.table table).Restores operation read := by
  have id : read.id = operation.id := describes.id
  have ordinal : read.ordinal = operation.ordinal := Int.ofNat_inj.mp describes.ordinal.2
  have name : read.name = operation.name := describes.name
  have kind := text_injective OperationKind.ofText?_eq_some_iff describes.kind
  have status := text_injective OperationStatus.ofText?_eq_some_iff describes.status
  have attempt : read.attempt = operation.attempt := Int.ofNat_inj.mp describes.attempt.2
  have error : read.error = operation.error := by
    rw [describes.error]
    cases written : operation.error <;> simp [Row.ofOperation, written]
  have result : Option.Rel (fun text value => Json.parse? text = some value)
      (operation.result.map Json.render) read.result := by
    simp only [Json.parse?_eq_some_iff]
    exact describes.result
  have readyAt : Option.Rel (fun text t => Instant.ofLoose? text = some t)
      (operation.readyAt.map (Instant.stamp · "+00:00")) read.readyAt := describes.readyAt
  refine ⟨read.result, read.readyAt, ?_, ?_, ?_⟩
  · rw [← id, ← ordinal, ← name, ← kind, ← status, ← attempt, ← error]
  · exact mapM_of_rel (fun _ => by rw [Medium.restore]) result
  · exact mapM_of_rel (fun _ => by rw [Medium.restoreTime]) readyAt

namespace Table

theorem rowsOf_append (table : Table) (executionId : String) (operation : Operation) :
    (table.append executionId operation).rowsOf executionId =
      table.rowsOf executionId ++ [Row.ofOperation executionId operation] := by
  simp [rowsOf, append, List.filter_append, Row.ofOperation]

theorem history_append {table : Table} {executionId : String} {operation : Operation}
    {history : List Operation}
    (read : (table.append executionId operation).history executionId = .ok history) :
    ∃ earlier last, table.history executionId = .ok earlier ∧
      history = earlier ++ [last] ∧ (Medium.table table).Restores operation last := by
  rw [history_ok_iff, rowsOf_append] at read
  obtain ⟨earlier, lasts, earlierRead, lastRead, rfl⟩ := forall₂_append_left read
  obtain ⟨last, nothing, describes, none, rfl⟩ := List.forall₂_cons_left_iff.mp lastRead
  cases none
  exact ⟨earlier, last, history_ok_iff.mpr earlierRead, rfl, describes.restores table⟩

end Table

theorem Medium.history_table {table : Table} {executionId : String} {history : List Operation} :
    (Medium.table table).history executionId = .ok history ↔
      table.history executionId = .ok history := by
  simp only [Medium.history]
  cases table.history executionId <;> simp [Except.mapError]

namespace Medium

theorem history_append {medium : Medium} {executionId : String} {operation : Operation}
    {history : List Operation}
    (read : (medium.append executionId operation).history executionId = .ok history) :
    ∃ earlier last, medium.history executionId = .ok earlier ∧
      history = earlier ++ [last] ∧ medium.Restores operation last := by
  cases medium with
  | memory records =>
      refine ⟨(records.filter (·.1 == executionId)).map Prod.snd, operation, rfl, ?_,
        operation.result, operation.readyAt, rfl, ?_, ?_⟩
      · simpa [append, Medium.history, List.filter_append] using (Except.ok.inj read).symm
      · cases operation.result <;> rfl
      · cases operation.readyAt <;> rfl
  | table rows =>
      obtain ⟨earlier, last, earlierRead, same, given⟩ :=
        Table.history_append (history_table.mp read)
      exact ⟨earlier, last, history_table.mpr earlierRead, same, given⟩

/-- The medium once some records of an execution have been appended. -/
def appendAll (medium : Medium) (executionId : String) (records : List Operation) : Medium :=
  records.foldl (fun medium operation => medium.append executionId operation) medium

@[simp] theorem appendAll_nil (medium : Medium) (executionId : String) :
    medium.appendAll executionId [] = medium :=
  rfl

@[simp] theorem appendAll_cons (medium : Medium) (executionId : String)
    (operation : Operation) (records : List Operation) :
    medium.appendAll executionId (operation :: records) =
      (medium.append executionId operation).appendAll executionId records :=
  rfl

theorem appendAll_append (medium : Medium) (executionId : String)
    (earlier later : List Operation) :
    medium.appendAll executionId (earlier ++ later) =
      (medium.appendAll executionId earlier).appendAll executionId later :=
  List.foldl_append

theorem restore_appendAll (medium : Medium) (executionId : String) (records : List Operation) :
    (medium.appendAll executionId records).restore = medium.restore := by
  induction records generalizing medium with
  | nil => rfl
  | cons operation records induction =>
      exact (induction _).trans (restore_append medium executionId operation)

theorem restoreTime_appendAll (medium : Medium) (executionId : String)
    (records : List Operation) :
    (medium.appendAll executionId records).restoreTime = medium.restoreTime := by
  induction records generalizing medium with
  | nil => rfl
  | cons operation records induction =>
      exact (induction _).trans (restoreTime_append medium executionId operation)

/-- A history that can be read after some appends lists what it listed before them,
and then what the medium gives back for each record, in order. -/
theorem history_restored {medium : Medium} {executionId : String}
    {records history : List Operation}
    (read : (medium.appendAll executionId records).history executionId = .ok history) :
    ∃ earlier later, medium.history executionId = .ok earlier ∧
      history = earlier ++ later ∧ List.Forall₂ medium.Restores records later := by
  induction records using List.reverseRecOn generalizing history with
  | nil => exact ⟨history, [], read, by simp, .nil⟩
  | append_singleton records operation induction =>
      rw [appendAll_append, appendAll_cons, appendAll_nil] at read
      obtain ⟨before, last, beforeRead, rfl, given⟩ := history_append read
      obtain ⟨earlier, later, earlierRead, rfl, lasting⟩ := induction beforeRead
      rw [Restores, restore_appendAll, restoreTime_appendAll] at given
      refine ⟨earlier, later ++ [last], earlierRead, List.append_assoc _ _ _, ?_⟩
      exact List.rel_append lasting (.cons given .nil)

theorem history_appendAll {medium : Medium} {executionId : String}
    {records history : List Operation}
    (read : (medium.appendAll executionId records).history executionId = .ok history) :
    ∃ earlier later, medium.history executionId = .ok earlier ∧
      history = earlier ++ later ∧ List.Forall₂ medium.GivesBack records later := by
  obtain ⟨earlier, later, earlierRead, same, restored⟩ := history_restored read
  exact ⟨earlier, later, earlierRead, same, restored.imp fun _ _ => Restores.givesBack⟩

end Medium

namespace OperationLog

/-- What loading gives: the log of the history that was read, over the same
medium. -/
theorem load_ok {store after : Store} {executionId : String} {log : OperationLog}
    (loaded : load store executionId = (.ok log, after)) :
    ∃ history, store.medium.history executionId = .ok history ∧
      log = ofRecords executionId (History.latestStates history) ∧
      after.medium = store.medium ∧ after.faults = store.faults ∧
      after.appends = store.appends := by
  simp only [load, Store.load, Store.history] at loaded
  split at loaded
  next fault failing => simp [Except.map] at loaded
  next reading =>
    simp only [Prod.mk.injEq] at loaded
    obtain ⟨given, rfl⟩ := loaded
    cases read : store.medium.history executionId with
    | error error => simp [read, Except.map] at given
    | ok history =>
        simp only [read, Except.map, Except.ok.injEq] at given
        exact ⟨history, rfl, given.symm, rfl, rfl, rfl⟩

theorem lookup?_latestStates (executionId : String) (history : List Operation)
    (ordinal : Nat) :
    (ofRecords executionId (History.latestStates history)).lookup? ordinal =
      History.latest? history ordinal := by
  rw [lookup?_ofRecords, History.latest?_latestStates]

end OperationLog

end Durable

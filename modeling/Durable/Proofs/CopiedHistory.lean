import Durable.Proofs.RereadValues
import Durable.Proofs.TableRefinement

/-!
# Copies of a history

A history that was read from a table can be appended to an empty table and read again.  The
copy gives the same records, however the texts of the first table were spelled: what one
reading leaves of a row is left by every further one.
-/

namespace Durable

namespace Row

namespace Describes

variable {row : Row String} {record : Operation}

theorem fits (describes : row.Describes record) : record.Fits := by
  obtain ⟨isOrdinal, ordinal⟩ := describes.ordinal
  obtain ⟨isAttempt, attempt⟩ := describes.attempt
  rw [← ordinal, isCounter_natCast_iff] at isOrdinal
  rw [← attempt, isCounter_natCast_iff] at isAttempt
  exact ⟨isOrdinal, isAttempt⟩

theorem result_comesBack (describes : row.Describes record)
    (reprints : ∀ value ∈ record.result, value.Reprints) (value : Json)
    (result : record.result = some value) : Json.parse? value.render = some value := by
  have related := describes.result
  rw [result] at related
  generalize row.result = stored at related
  cases related with
  | some written =>
      exact Json.parse?_render_of_parse? (Json.parse?_eq_some_iff.mpr written)
        (reprints value result)

theorem again (describes : row.Describes record)
    (reprints : ∀ value ∈ record.result, value.Reprints) (executionId : String) :
    (ofOperation executionId record).Describes record :=
  describes_ofOperation describes.fits (describes.result_comesBack reprints)
    (fun t ready => Instant.ofLoose?_stamp (describes.timed t ready)) executionId

end Describes

end Row

theorem recordsOf_labelled (executionId : String) (records : List Operation) :
    recordsOf executionId (records.map (executionId, ·)) = records := by
  induction records with
  | nil => rfl
  | cons record records induction => simpa [recordsOf] using induction

theorem Store.history_of_copy {executionId : String} {records : List Operation}
    (describes : ∀ record ∈ records, (Row.ofOperation executionId record).Describes record) :
    (((ofTable .empty).appendEach (records.map (executionId, ·))).2.history executionId).1 =
      .ok records := by
  rw [appendEach_ofTable]
  refine Medium.history_table.mpr (Table.history_ok_iff.mpr ?_)
  rw [Table.rowsOf_appends, recordsOf_labelled, List.forall₂_map_left_iff, List.forall₂_same]
  exact describes

/-- Copying a history that can be read loses nothing, if the doubles in its results come back
from their texts.  Let the history of an execution be read from any table, and its records be
appended in order to an empty one.  That table takes all of them.  It gives the same history
again and the same latest states, and each row that was read and the row of its record are read
as the same record. -/
theorem copy_of_history_is_lossless (rows : List (Row String)) (executionId copyId : String)
    {records : List Operation}
    (readable : ((Store.ofTable ⟨rows⟩).history executionId).1 = .ok records)
    (reprints : ∀ record ∈ records, ∀ value ∈ record.result, value.Reprints) :
    let copy := (Store.ofTable .empty).appendEach (records.map (copyId, ·))
    copy.1 = .ok () ∧ (copy.2.history copyId).1 = .ok records ∧
      (copy.2.load copyId).1 = ((Store.ofTable ⟨rows⟩).load executionId).1 ∧
      ∀ row ∈ rows, row.executionId = executionId →
        ∃ record ∈ records, row.read = .ok record ∧
          (Row.ofOperation copyId record).read = .ok record := by
  intro copy
  have described : List.Forall₂ Row.Describes (Table.rowsOf ⟨rows⟩ executionId) records :=
    Store.history_ofTable_ok_iff.mp readable
  have again : ∀ record ∈ records, (Row.ofOperation copyId record).Describes record := by
    intro record member
    obtain ⟨row, _, describes⟩ := exists_mem_of_forall₂ described.flip member
    exact describes.again (reprints record member) copyId
  have history : (copy.2.history copyId).1 = .ok records := Store.history_of_copy again
  refine ⟨?_, history, ?_, ?_⟩
  · exact congrArg Prod.fst (Store.appendEach_ofTable _)
  · rw [Store.load_eq, Store.load_eq, history, readable]
  · intro row member own
    have among : row ∈ Table.rowsOf ⟨rows⟩ executionId := by simp [Table.rowsOf, member, own]
    obtain ⟨record, kept, describes⟩ := exists_mem_of_forall₂ described among
    exact ⟨record, kept, Row.read_ok_iff.mpr describes, Row.read_ok_iff.mpr (again record kept)⟩

/-- A row whose result has spaces and a repeated key, whose error has a message and no type, and
whose time is that of another zone. -/
def Row.oddlySpelled : Row String where
  executionId := "run"
  ordinal := 4294967295
  operationId := "op-0000"
  name := "a"
  kind := "TIMER"
  status := "PENDING"
  attempt := 1
  result := some "\x7b\"b\": 1, \"b\": 2\x7d"
  errorType := none
  errorMessage := some "lost"
  readyAt := some "2025-03-01 13:00:00+01:00"

/-- The copy of the row has other texts and is read as the same record. -/
theorem copy_of_oddly_spelled_row_is_lossless :
    let record : Operation := ⟨"op-0000", 4294967295, "a", .timer, .pending, 1,
      some (.object [("b", .number (.integer 2))]), none, some ⟨1740830400, 0⟩⟩
    let original := Store.ofTable ⟨[.oddlySpelled]⟩
    let copy := ((Store.ofTable .empty).appendEach [("copy", record)]).2
    (original.history "run").1 = .ok [record] ∧ (copy.history "copy").1 = .ok [record] ∧
      (Row.ofOperation "copy" record).result ≠ Row.oddlySpelled.result ∧
      (Row.ofOperation "copy" record).errorMessage ≠ Row.oddlySpelled.errorMessage ∧
      (Row.ofOperation "copy" record).readyAt ≠ Row.oddlySpelled.readyAt := by
  intro record original copy
  have result : Json.parse? "\x7b\"b\": 1, \"b\": 2\x7d" =
      some (.object [("b", .number (.integer 2))]) := by rfl
  have readyAt : Instant.ofLoose? "2025-03-01 13:00:00+01:00" = some ⟨1740830400, 0⟩ := by
    decide +kernel
  have describes : Row.oddlySpelled.Describes record :=
    ⟨⟨rfl, ⟨by decide, rfl⟩, rfl, rfl, rfl, ⟨by decide, rfl⟩,
      .some (Json.parse?_eq_some_iff.mp result), rfl⟩, .some readyAt⟩
  have own : Table.rowsOf ⟨[.oddlySpelled]⟩ "run" = [.oddlySpelled] := by decide
  have readable : (original.history "run").1 = .ok [record] := by
    rw [Store.history_ofTable_ok_iff, own]
    exact .cons describes .nil
  have reprints : ∀ each ∈ [record], ∀ value ∈ each.result, value.Reprints := by
    simp [record, Json.Reprints, Json.numbers, Json.numbers.memberNumbers]
  obtain ⟨_, copied, _⟩ :=
    copy_of_history_is_lossless [.oddlySpelled] "run" "copy" readable reprints
  exact ⟨readable, copied, by decide +kernel, by decide +kernel, by decide +kernel⟩

end Durable

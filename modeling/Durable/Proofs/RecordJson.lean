import Durable.Operation.Codec
import Durable.Proofs.GroundChange
import Durable.Proofs.LogRefinement
import Durable.Value

/-!
# Records as JSON

A record is written as an object of nine members.  A part that is absent is written as null, and
a null member is read as absent, so everything comes back but a result that is null itself.  A
call sees the loss only where it replays a success: there it finds no result at all.
-/

namespace Durable

namespace Json

theorem lookup_insertMember (key other : String) (value : Json)
    (members : List (String × Json)) :
    lookup key (insertMember other value members) =
      if key = other then some value else lookup key members := by
  induction members with
  | nil => rfl
  | cons head rest induction =>
      obtain ⟨name, kept⟩ := head
      rw [insertMember]
      split
      · rfl
      · split
        · next same =>
            subst same
            by_cases here : key = other
            · simp [lookup, here]
            · simp [lookup, here]
        · next different =>
            rw [lookup, lookup, induction]
            by_cases here : key = name
            · have notOther : key ≠ other := by
                rw [here]
                exact Ne.symm different
              rw [if_pos here, if_pos here, if_neg notOther]
            · rw [if_neg here, if_neg here]

theorem lookup_eq_none {key : String} {members : List (String × Json)}
    (absent : key ∉ members.map Prod.fst) : lookup key members = none := by
  induction members with
  | nil => rfl
  | cons head rest induction =>
      rw [List.map_cons, List.mem_cons, not_or] at absent
      rw [lookup, if_neg absent.1]
      exact induction absent.2

theorem lookup_foldl {members : List (String × Json)} (distinct : (members.map Prod.fst).Nodup)
    (done : List (String × Json)) (key : String) :
    lookup key (members.foldl (fun sorted member => insertMember member.1 member.2 sorted)
        done) =
      (lookup key members).or (lookup key done) := by
  induction members generalizing done with
  | nil => rfl
  | cons member others induction =>
      obtain ⟨name, value⟩ := member
      rw [List.map_cons, List.nodup_cons] at distinct
      obtain ⟨fresh, distinct⟩ := distinct
      rw [List.foldl_cons, induction distinct, lookup_insertMember, lookup]
      by_cases here : key = name
      · rw [if_pos here, if_pos here, here, lookup_eq_none fresh]
        rfl
      · rw [if_neg here, if_neg here]

theorem record?_ofMembers {members : List (String × Json)}
    (distinct : (members.map Prod.fst).Nodup) (names : List String) :
    (ofMembers members).record? names =
      some fun name => (lookup name members).getD .null := by
  rw [ofMembers, record?]
  refine congrArg some (funext fun name => ?_)
  rw [lookup_foldl distinct, lookup, Option.or_none]

/-- What a reader takes the value of a part for that may be absent. -/
def present? : Json → Option Json
  | .null => none
  | value => some value

theorem optional?_present (value : Json) : value.optional? some = some value.present? := by
  cases value <;> rfl

variable {α : Type} {read : Json → Option α} {encode : α → Json}

theorem optional?_of_ne_null {value : Json} (present : value ≠ .null) :
    value.optional? read = (read value).map some := by
  cases value with
  | null => exact absurd rfl present
  | _ => rfl

theorem optional?_ofOption {part : Option α}
    (reads : ∀ value, part = some value → read (encode value) = some value)
    (present : ∀ value, encode value ≠ .null) :
    (ofOption encode part).optional? read = some part := by
  cases part with
  | none => rfl
  | some value =>
      rw [ofOption, optional?_of_ne_null (present value), reads value rfl]
      rfl

end Json

namespace ErrorObject

/-- The members of an error in the order in which they are written. -/
def members (error : ErrorObject) : List (String × Json) :=
  [("error_type", .string error.errorType), ("message", .string error.message)]

theorem members_ascending (error : ErrorObject) :
    error.members.Pairwise fun first second => first.1 < second.1 := by
  simp only [members, List.pairwise_cons, List.mem_singleton, forall_eq]
  decide

theorem toJson_eq (error : ErrorObject) : error.toJson = .object error.members :=
  Json.ofMembers_ascending error.members_ascending

theorem toJson_sound (error : ErrorObject) : error.toJson.Sound := by
  rw [toJson_eq]
  apply Json.Sound.object _ _ error.members_ascending
  simp only [members, List.forall_mem_cons, List.not_mem_nil, false_implies, implies_true,
    and_true]
  exact ⟨.string _, .string _⟩

theorem ofJson?_toJson (error : ErrorObject) : ofJson? error.toJson = some error := by
  rw [toJson_eq]
  rfl

end ErrorObject

theorem Instant.ofJson?_toJson {t : Instant} (genuine : t.Genuine) :
    ofJson? t.toJson = some t := by
  rw [ofJson?, toJson, Json.text?, Option.bind_some]
  exact ofText?_text genuine

namespace Operation

/-- The record as it comes back from its JSON form: a result that is null is absent. -/
def reread (record : Operation) : Operation :=
  { record with result := record.result.bind Json.present? }

theorem reread_eq_iff (record : Operation) :
    record.reread = record ↔ record.result ≠ some .null := by
  obtain ⟨id, ordinal, name, kind, status, attempt, result, error, readyAt⟩ := record
  simp only [reread, mk.injEq, true_and, and_true]
  cases result with
  | none => simp
  | some value => cases value <;> simp [Json.present?]

/-- A record comes back but for its result. -/
theorem twins_reread (record : Operation) : record.Twins record.reread :=
  ⟨rfl, rfl, rfl, rfl, rfl, rfl, rfl, rfl⟩

/-- The members of a record in the order in which they are written. -/
def members (record : Operation) : List (String × Json) :=
  [("id", .string record.id),
   ("ordinal", .natural record.ordinal),
   ("name", .string record.name),
   ("kind", .string record.kind.text),
   ("status", .string record.status.text),
   ("attempt", .natural record.attempt),
   ("result", record.result.getD .null),
   ("error", .ofOption ErrorObject.toJson record.error),
   ("ready_at", .ofOption Instant.toJson record.readyAt)]

theorem toJson_eq (record : Operation) : record.toJson = .ofMembers record.members :=
  rfl

theorem record?_toJson (record : Operation) :
    ∃ member, record.toJson.record? memberNames = some member ∧
      member "id" = .string record.id ∧
      member "ordinal" = .natural record.ordinal ∧
      member "name" = .string record.name ∧
      member "kind" = .string record.kind.text ∧
      member "status" = .string record.status.text ∧
      member "attempt" = .natural record.attempt ∧
      member "result" = record.result.getD .null ∧
      member "error" = .ofOption ErrorObject.toJson record.error ∧
      member "ready_at" = .ofOption Instant.toJson record.readyAt := by
  have distinct : (record.members.map Prod.fst).Nodup := by
    change memberNames.Nodup
    decide
  refine ⟨_, Json.record?_ofMembers distinct memberNames, ?_⟩
  exact ⟨rfl, rfl, rfl, rfl, rfl, rfl, rfl, rfl, rfl⟩

/-- Everything comes back from the JSON form but a result that is null. -/
theorem ofJson?_toJson {record : Operation} (fits : record.Fits)
    (genuine : ∀ t, record.readyAt = some t → t.Genuine) :
    ofJson? record.toJson = some record.reread := by
  obtain ⟨member, read, ids, ordinals, names, kinds, statuses, attempts, results, errors,
    readyTimes⟩ := record.record?_toJson
  have ordinal : (Json.natural record.ordinal).naturalBelow? counterBound =
      some record.ordinal := if_pos fits.1
  have attempt : (Json.natural record.attempt).naturalBelow? counterBound =
      some record.attempt := if_pos fits.2
  have kind : OperationKind.ofJson? (.string record.kind.text) = some record.kind :=
    OperationKind.ofText?_eq_some_iff.mpr rfl
  have status : OperationStatus.ofJson? (.string record.status.text) = some record.status :=
    OperationStatus.ofText?_eq_some_iff.mpr rfl
  have result : (record.result.getD .null).optional? some =
      some (record.result.bind Json.present?) := by
    cases record.result with
    | none => rfl
    | some value => exact Json.optional?_present value
  have error : (Json.ofOption ErrorObject.toJson record.error).optional? ErrorObject.ofJson? =
      some record.error := by
    apply Json.optional?_ofOption
    · exact fun error _ => error.ofJson?_toJson
    · intro error
      rw [error.toJson_eq]
      exact Json.noConfusion
  have readyAt : (Json.ofOption Instant.toJson record.readyAt).optional? Instant.ofJson? =
      some record.readyAt := by
    apply Json.optional?_ofOption
    · exact fun t ready => Instant.ofJson?_toJson (genuine t ready)
    · exact fun t => Json.noConfusion
  simp only [ofJson?, read, Option.bind_eq_bind, Option.bind_some, ids, ordinals, names, kinds,
    statuses, attempts, results, errors, readyTimes, Json.text?, ordinal, attempt, kind, status,
    result, error, readyAt]
  rfl

/-- The text of a record, with its members in the order in which they are written. -/
def jsonText (record : Operation) : String :=
  (Json.object record.members).render

def ofJsonText? (text : String) : Option Operation :=
  (Json.parse? text).bind ofJson?

/-- How many brackets are open at most inside the result. -/
def resultDepth (record : Operation) : Nat :=
  (record.result.getD .null).depth

theorem members_sound {record : Operation} (fits : record.Fits)
    (sound : ∀ value, record.result = some value → value.Sound) :
    ∀ member ∈ record.members, member.2.Sound := by
  have counter : ∀ {n : Nat}, n < counterBound → (Json.natural n).Sound := by
    intro n small
    apply Json.Sound.number
    constructor
    · have least : (-(Nat.pow 2 63 : Nat) : Int) ≤ 0 := by decide
      exact least.trans (Int.natCast_nonneg n)
    · have greatest : counterBound < Nat.pow 2 64 := by decide
      exact Int.ofNat_lt.mpr (small.trans greatest)
  have result : (record.result.getD .null).Sound := by
    cases given : record.result with
    | none => exact .null
    | some value => exact sound value given
  have error : (Json.ofOption ErrorObject.toJson record.error).Sound := by
    cases record.error with
    | none => exact .null
    | some error => exact error.toJson_sound
  have readyAt : (Json.ofOption Instant.toJson record.readyAt).Sound := by
    cases record.readyAt with
    | none => exact .null
    | some t => exact .string t.text
  simp only [members, List.forall_mem_cons, List.not_mem_nil, false_implies, implies_true,
    and_true]
  exact ⟨.string _, counter fits.1, .string _, .string _, .string _, counter fits.2, result,
    error, readyAt⟩

/-- The brackets of the record itself count as well. -/
theorem depth_members (record : Operation) :
    (Json.object record.members).depth ≤ Json.Machine.maxOpen ↔
      record.resultDepth < Json.Machine.maxOpen := by
  have error : (Json.ofOption ErrorObject.toJson record.error).depth ≤ 1 := by
    cases record.error with
    | none => exact Nat.zero_le 1
    | some error =>
        rw [Json.ofOption, error.toJson_eq]
        exact Nat.le_refl 1
  have readyAt : (Json.ofOption Instant.toJson record.readyAt).depth = 0 := by
    cases record.readyAt <;> rfl
  have bound : Json.Machine.maxOpen = 127 := rfl
  simp only [Json.depth, members, Json.depth.membersDepth, Json.natural, resultDepth]
  omega

theorem ofJsonText?_jsonText {record : Operation} (fits : record.Fits)
    (genuine : ∀ t, record.readyAt = some t → t.Genuine)
    (sound : ∀ value, record.result = some value → value.Sound) :
    ofJsonText? record.jsonText =
      if record.resultDepth < Json.Machine.maxOpen then some record.reread else none := by
  rw [ofJsonText?, jsonText, Json.parse?_render_members (members_sound fits sound)]
  by_cases shallow : record.resultDepth < Json.Machine.maxOpen
  · rw [if_pos (record.depth_members.mpr shallow), if_pos shallow, Option.bind_some,
      ← toJson_eq]
    exact ofJson?_toJson fits genuine
  · rw [if_neg (mt record.depth_members.mp shallow), if_neg shallow]
    rfl

end Operation

namespace Ground

/-- Grounds over one store, with logs that hold the same records but for their results. -/
structure UpToResults (first second : Ground) : Prop where
  executionId : second.log.executionId = first.log.executionId
  records : ∀ ordinal,
    Option.Rel Operation.Twins (first.log.lookup? ordinal) (second.log.lookup? ordinal)
  store : second.store = first.store

namespace UpToResults

theorem insert {first second : Ground} (same : first.UpToResults second)
    {operation other : Operation} (twins : operation.Twins other) (store : Store) :
    UpToResults ⟨first.log.insert operation, store⟩ ⟨second.log.insert other, store⟩ where
  executionId := same.executionId
  records := by
    intro ordinal
    dsimp only
    rw [OperationLog.lookup?_insert, OperationLog.lookup?_insert, twins.ordinal]
    split
    · exact .some twins
    · exact same.records ordinal
  store := rfl

theorem refl (ground : Ground) : ground.UpToResults ground where
  executionId := rfl
  records := fun _ => Operation.Twins.refl? _
  store := rfl

theorem alike : Alike UpToResults where
  executionId := executionId
  records := records
  commit := by
    intro first second operation same
    have sameAppend : second.store.append second.log.executionId operation =
        first.store.append first.log.executionId operation := by
      rw [same.store, same.executionId]
    simp only [Ground.commit, OperationLog.commit, sameAppend]
    cases first.store.append first.log.executionId operation with
    | mk result left =>
        cases result with
        | error error => exact ⟨rfl, same.executionId, same.records, rfl⟩
        | ok given => exact ⟨rfl, same.insert (.refl operation) left⟩

end UpToResults

end Ground

namespace Invocation

variable {V : Type}

/-- The invocation with a record in its log. -/
def holding (invocation : Invocation V) (record : Operation) : Invocation V :=
  invocation.upon ⟨invocation.log.insert record, invocation.store⟩

variable {invocation : Invocation V} {record : Operation} {name : String}

theorem holding_lookup? (invocation : Invocation V) (record : Operation) (ordinal : Nat) :
    (invocation.holding record).log.lookup? ordinal =
      if record.ordinal = ordinal then some record else invocation.log.lookup? ordinal :=
  OperationLog.lookup?_insert invocation.log record ordinal

theorem holding_upToResults (invocation : Invocation V) (record : Operation) :
    (invocation.holding record).ground.UpToResults (invocation.holding record.reread).ground :=
  (Ground.UpToResults.refl invocation.ground).insert record.twins_reread invocation.store

/-- Where the record is replayed, what came back of it is replayed. -/
theorem Replays.reread (replays : (invocation.holding record).Replays name record) :
    (invocation.holding record.reread).Replays name record.reread where
  free := replays.free
  fresh := replays.fresh
  found := by
    have here : record.ordinal = invocation.nextOrdinal :=
      OperationLog.lookup?_ordinal replays.found
    exact (holding_lookup? _ _ _).trans (if_pos here)
  kind := replays.kind
  name := replays.name
  succeeded := replays.succeeded

theorem Replays.cases {first second : Operation}
    (here : (invocation.holding record).Replays name first)
    (there : (invocation.holding record.reread).Replays name second) :
    (first = record ∧ second = record.reread) ∨ second = first := by
  have found : (if record.ordinal = invocation.nextOrdinal then some record
      else invocation.log.lookup? invocation.nextOrdinal) = some first :=
    (holding_lookup? _ _ _).symm.trans here.found
  have foundThere : (if record.ordinal = invocation.nextOrdinal then some record.reread
      else invocation.log.lookup? invocation.nextOrdinal) = some second :=
    (holding_lookup? _ _ _).symm.trans there.found
  by_cases own : record.ordinal = invocation.nextOrdinal
  · rw [if_pos own] at found
    rw [if_pos own] at foundThere
    exact .inl ⟨(Option.some.inj found).symm, (Option.some.inj foundThere).symm⟩
  · rw [if_neg own] at found
    rw [if_neg own] at foundThere
    exact .inr (Option.some.inj (foundThere.symm.trans found))

/-- A step does the same with the record that came back, unless it replays a null result. -/
theorem step_holding (kept : ¬((invocation.holding record).Replays name record ∧
      record.result = some .null)) (config : StepConfig) (codec : Codec V) (body : StepBody V) :
    Mirrors Ground.UpToResults ((invocation.holding record).step name config codec body)
      ((invocation.holding record.reread).step name config codec body) := by
  apply step_mirrors Ground.UpToResults.alike (holding_upToResults invocation record)
  intro first second here there
  rcases here.cases there with ⟨rfl, rfl⟩ | rfl
  · have notNull : first.result ≠ some .null := fun null => kept ⟨here, null⟩
    rw [first.reread_eq_iff.mpr notNull]
  · rfl

end Invocation

open Ground Invocation in
/-- The JSON form of a record gives back everything but a result that is null, which comes back
as absent: as a value, and as a text unless the result is nested too deeply for it.  With what
came back in its log instead of the record, an invocation carries out a wait alike, and leaves
everything as it would be but for results in the log.  The same holds of a step, unless it
replays a null result: then it returns what its codec reads from null, and with what came back
it fails. -/
theorem json_form_keeps_all_but_null_results {V : Type} {record : Operation}
    (fits : record.Fits) (genuine : ∀ t, record.readyAt = some t → t.Genuine) :
    Operation.ofJson? record.toJson = some record.reread ∧
      ((∀ value, record.result = some value → value.Sound) →
        Operation.ofJsonText? record.jsonText =
          if record.resultDepth < Json.Machine.maxOpen then some record.reread else none) ∧
      (record.reread = record ↔ record.result ≠ some .null) ∧
      ∀ invocation : Invocation V,
        let original := invocation.holding record
        let again := invocation.holding record.reread
        (∀ name duration,
          Mirrors UpToResults (original.wait name duration) (again.wait name duration)) ∧
        ∀ name config codec body,
          (¬(original.Replays name record ∧ record.result = some .null) →
            Mirrors UpToResults (original.step name config codec body)
              (again.step name config codec body)) ∧
          (original.Replays name record → record.result = some .null →
            (original.step name config codec body).1 =
                .returned ((codec.decode .null).mapError .serialization) ∧
              (again.step name config codec body).1 = .returned (.error
                (.invalidOperationState name "succeeded without a recorded result"))) := by
  refine ⟨Operation.ofJson?_toJson fits genuine, Operation.ofJsonText?_jsonText fits genuine,
    record.reread_eq_iff, ?_⟩
  intro invocation original again
  have same : original.ground.UpToResults again.ground := holding_upToResults invocation record
  refine ⟨fun name duration => wait_mirrors UpToResults.alike same name duration, ?_⟩
  intro name config codec body
  refine ⟨fun kept => step_holding kept config codec body, ?_⟩
  intro replays null
  have recalled : record.replay codec = (codec.decode .null).mapError .serialization := by
    rw [Operation.replay, null]
  have lost : record.reread.replay codec = .error
      (.invalidOperationState record.name "succeeded without a recorded result") := by
    have absent : record.reread.result = none := by
      rw [Operation.reread, null]
      rfl
    rw [Operation.replay, absent]
    rfl
  constructor
  · rw [replays.step config codec body, recalled]
  · rw [replays.reread.step config codec body, lost, replays.name]

/-- A pending timer comes back from its value and from its text. -/
theorem pending_timer_comes_back :
    let timer := Operation.timer 0 "w" ⟨1740830400, 500000000⟩
    Operation.ofJson? timer.toJson = some timer ∧
      Operation.ofJsonText? timer.jsonText = some timer := by
  intro timer
  have fits : timer.Fits := ⟨by decide, by decide⟩
  have genuine : ∀ t, timer.readyAt = some t → t.Genuine := by
    intro t ready
    cases ready
    exact ⟨by decide, by decide⟩
  obtain ⟨value, text, _⟩ := json_form_keeps_all_but_null_results (V := Unit) fits genuine
  refine ⟨value, ?_⟩
  apply text
  intro result given
  cases given

/-- The result of a step without a value is null: its record does not come back, and the step
that succeeded with it fails with what came back. -/
theorem null_result_comes_back_as_absent :
    let record := (Operation.step 0 "x").withState (.succeeded 1 .null)
    let lost := { record with result := none }
    let began : Invocation Value := .start ⟨"run", []⟩ .empty ⟨⟨1740830400, 0⟩⟩ true
    let body : StepBody Value := fun _ => ⟨[], .value .unit⟩
    let codec := ResultType.unit.codec
    Operation.ofJson? record.toJson = some lost ∧
      ((began.holding record).step "x" .standard codec body).1 = .returned (.ok .unit) ∧
      ((began.holding lost).step "x" .standard codec body).1 = .returned (.error
        (.invalidOperationState "x" "succeeded without a recorded result")) := by
  intro record lost began body codec
  refine ⟨?_, rfl, rfl⟩
  apply Operation.ofJson?_toJson
  · exact ⟨by decide, by decide⟩
  · intro t ready
    cases ready

end Durable

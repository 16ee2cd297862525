import Durable.Proofs.Settlement

/-!
# Orderly logs

Over a store that held nothing of the execution at first, the recorded ordinals have no
gap and no name is recorded twice.  A pass that has not been halted has passed recorded
operations only, and has declared exactly their names; whatever it appended lies behind
it.
-/

namespace Durable

variable {V : Type}

namespace OperationLog

/-- The name that is recorded at an ordinal. -/
def named (log : OperationLog) (ordinal : Nat) : Option String :=
  (log.lookup? ordinal).map Operation.name

theorem named_insertAll {log : OperationLog} {records : List Operation} {ordinal : Nat}
    {name : String}
    (own : ∀ operation ∈ records, operation.ordinal = ordinal ∧ operation.name = name)
    (other : Nat) :
    (log.insertAll records).named other =
      if other = ordinal ∧ records ≠ [] then some name else log.named other := by
  induction records using List.reverseRecOn with
  | nil => simp
  | append_singleton records operation induction =>
      obtain ⟨sameOrdinal, sameName⟩ := own operation (by simp)
      have before := induction fun earlier member => own earlier (by simp [member])
      rw [insertAll_append, insertAll_cons, insertAll_nil, named, lookup?_insert, sameOrdinal]
      by_cases here : ordinal = other
      · simp [here, sameName]
      · rw [if_neg here]
        rw [named] at before
        simp [before, Ne.symm here]

end OperationLog

/-- The names stand at the first ordinals, and no name stands at two. -/
structure Orderly (named : Nat → Option String) : Prop where
  contiguous : ∀ {first second}, first ≤ second → named first = none → named second = none
  distinct : ∀ {first second name}, named first = some name → named second = some name →
    first = second

theorem Orderly.put {named : Nat → Option String} (orderly : Orderly named) {ordinal : Nat}
    {name : String} (reached : ∀ earlier, earlier < ordinal → named earlier ≠ none)
    (fresh : ∀ earlier, earlier < ordinal → named earlier ≠ some name)
    (fits : ∀ recorded, named ordinal = some recorded → recorded = name) :
    Orderly fun other => if other = ordinal then some name else named other := by
  -- Nothing is recorded at or behind the ordinal under the name, unless it stands there.
  have only : ∀ other, named other = some name → other = ordinal := by
    intro other here
    cases found : named ordinal with
    | some recorded =>
        rw [fits recorded found] at found
        exact orderly.distinct here found
    | none =>
        by_cases before : other < ordinal
        · exact absurd here (fresh other before)
        · rw [orderly.contiguous (Nat.le_of_not_lt before) found] at here
          simp at here
  constructor
  · intro first second le absent
    by_cases firstHere : first = ordinal
    · simp [firstHere] at absent
    · rw [if_neg firstHere] at absent
      by_cases secondHere : second = ordinal
      · exact absurd absent (reached first (by omega))
      · rw [if_neg secondHere]
        exact orderly.contiguous le absent
  · intro first second other firstNamed secondNamed
    by_cases firstHere : first = ordinal
    · rw [if_pos firstHere, Option.some.injEq] at firstNamed
      subst firstNamed
      by_cases secondHere : second = ordinal
      · rw [firstHere, secondHere]
      · rw [if_neg secondHere] at secondNamed
        rw [firstHere, only second secondNamed]
    · rw [if_neg firstHere] at firstNamed
      by_cases secondHere : second = ordinal
      · rw [if_pos secondHere, Option.some.injEq] at secondNamed
        subst secondNamed
        rw [secondHere, only first firstNamed]
      · rw [if_neg secondHere] at secondNamed
        exact orderly.distinct firstNamed secondNamed

theorem Leaves.found {invocation : Invocation V} {medium : Medium} {records : List Operation}
    {tells : Operation → Prop} {record : Operation}
    (leaves : Leaves invocation medium records tells record) :
    (invocation.log.insertAll records).lookup? invocation.nextOrdinal = some record := by
  rw [OperationLog.lookup?_insertAll]
  cases leaves with
  | recalled unwritten found told => simp [unwritten, found]
  | written latest told => simp [latest]

namespace Invocation

/-- The place of an invocation that no error has halted. -/
structure Placed (invocation : Invocation V) : Prop where
  reached : ∀ ordinal, ordinal < invocation.nextOrdinal → invocation.log.named ordinal ≠ none
  declared : ∀ name, invocation.declaredAt? name ≠ none ↔
    ∃ ordinal, ordinal < invocation.nextOrdinal ∧ invocation.log.named ordinal = some name

/-- What holds throughout a pass over an orderly log. -/
structure Regular (invocation : Invocation V) : Prop where
  orderly : Orderly invocation.log.named
  placed : invocation.halt = none → Placed invocation
  behind : ∀ operation ∈ Occurrence.records invocation.occurrences,
    operation.ordinal < invocation.nextOrdinal

theorem declaredAt?_declare (invocation : Invocation V) (kind : OperationKind)
    (name other : String) :
    (invocation.declare kind name).declaredAt? other =
      (invocation.declaredAt? other).or
        (if name = other then some invocation.nextOrdinal else none) := by
  cases known : invocation.declaredAt? name with
  | some first =>
      have same : (invocation.declare kind name).names = invocation.names := by
        simp only [declare, known]
      rw [declaredAt?, same, ← declaredAt?]
      by_cases here : name = other
      · subst here
        simp [known]
      · simp [here]
  | none =>
      have same : (invocation.declare kind name).names =
          invocation.names ++ [(name, invocation.nextOrdinal)] := by
        simp only [declare, known]
      rw [declaredAt?, same, List.find?_append, declaredAt?]
      cases invocation.names.find? (·.1 == other) with
      | some found => rfl
      | none => by_cases here : name = other <;> simp [here]

variable {before after : Invocation V} {kind : OperationKind} {name : String}
  {emitted : List (Occurrence V)} {halt : Option Halt}

namespace Called

theorem orderly (called : Called before after kind name emitted halt) (regular : Regular before)
    (free : before.halt = none) (own : OwnRecords before kind name (Occurrence.records emitted)) :
    Orderly after.log.named := by
  obtain ⟨reached, declared⟩ := regular.placed free
  rw [called.log]
  by_cases unwritten : Occurrence.records emitted = []
  · rw [unwritten, OperationLog.insertAll_nil]
    exact regular.orderly
  · have named : (before.log.insertAll (Occurrence.records emitted)).named =
        fun other => if other = before.nextOrdinal then some name else before.log.named other := by
      funext other
      rw [OperationLog.named_insertAll fun operation member =>
        ⟨(own.own operation member).1, (own.own operation member).2.2⟩]
      simp [unwritten]
    rw [named]
    apply regular.orderly.put reached
    · intro earlier below here
      exact (declared name).mpr ⟨earlier, below, here⟩ (own.fresh unwritten)
    · intro recorded here
      obtain ⟨operation, found, rfl⟩ := Option.map_eq_some_iff.mp here
      exact (own.fits unwritten operation found).2

theorem behind (called : Called before after kind name emitted halt) (regular : Regular before)
    (own : OwnRecords before kind name (Occurrence.records emitted)) :
    ∀ operation ∈ Occurrence.records after.occurrences,
      operation.ordinal < after.nextOrdinal := by
  intro operation member
  rw [called.records, List.mem_append] at member
  rw [called.nextOrdinal]
  rcases member with earlier | here
  · have below := regular.behind operation earlier
    omega
  · have ordinal := (own.own operation here).1
    omega

/-- A call that leaves a record of its name keeps the place. -/
theorem placed (called : Called before after kind name emitted halt) (regular : Regular before)
    (free : before.halt = none) (own : OwnRecords before kind name (Occurrence.records emitted))
    {record : Operation} (named : record.name = name)
    (left : (before.log.insertAll (Occurrence.records emitted)).lookup? before.nextOrdinal =
      some record) : Placed after := by
  obtain ⟨reached, declared⟩ := regular.placed free
  have here : after.log.named before.nextOrdinal = some name := by
    rw [called.log, OperationLog.named, left, Option.map_some, named]
  have below : ∀ ordinal, ordinal < before.nextOrdinal →
      after.log.named ordinal = before.log.named ordinal := by
    intro ordinal less
    rw [called.log, OperationLog.named_insertAll fun operation member =>
      ⟨(own.own operation member).1, (own.own operation member).2.2⟩]
    have different : ordinal ≠ before.nextOrdinal := by omega
    simp [different]
  constructor
  · intro ordinal less
    rw [called.nextOrdinal] at less
    by_cases last : ordinal = before.nextOrdinal
    · simp [last, here]
    · rw [below ordinal (by omega)]
      exact reached ordinal (by omega)
  · intro other
    have names : after.declaredAt? other = (before.declare kind name).declaredAt? other := by
      rw [declaredAt?, called.names, ← declaredAt?]
    have either : (before.declare kind name).declaredAt? other ≠ none ↔
        before.declaredAt? other ≠ none ∨ name = other := by
      rw [declaredAt?_declare]
      by_cases here : name = other <;> simp [here]
    rw [names, either, declared, called.nextOrdinal]
    constructor
    · rintro (⟨ordinal, less, found⟩ | rfl)
      · exact ⟨ordinal, by omega, (below ordinal less).trans found⟩
      · exact ⟨before.nextOrdinal, by omega, here⟩
    · rintro ⟨ordinal, less, found⟩
      by_cases last : ordinal = before.nextOrdinal
      · subst last
        exact .inr (Option.some.inj (here.symm.trans found))
      · exact .inl ⟨ordinal, by omega, (below ordinal (by omega)).symm.trans found⟩

end Called

theorem regular_preserved (semantics : String → StepSemantics) :
    Preserved (StepCall.Agreed (V := V) semantics) Regular
      fun invocation => Orderly invocation.log.named := by
  refine ⟨Regular.orderly, ?_, ?_, ?_⟩
  · intro before after emitted extension isQuiet place regular
    have sameLog : after.log = before.log := by
      rw [extension.log, isQuiet.records, OperationLog.insertAll_nil]
    constructor
    · rw [sameLog]
      exact regular.orderly
    · intro free
      obtain ⟨reached, declared⟩ := regular.placed (place.halt.symm.trans free)
      constructor
      · rw [place.nextOrdinal, sameLog]
        exact reached
      · rw [place.nextOrdinal, sameLog]
        unfold declaredAt?
        rw [place.names]
        exact declared
    · rw [extension.occurrences, isQuiet.records_append, place.nextOrdinal]
      exact regular.behind
  · intro before after call reply middle agreed free course called regular
    have sameRecords := (reply.returning_quiet call.name after).records_append middle
    have own := course.ownRecords
    rw [← sameRecords] at own
    have orderly := called.orderly regular free own
    refine ⟨orderly, fun returns => ⟨orderly, fun goesOn => ?_, called.behind regular own⟩⟩
    cases reply with
    | crashed => exact absurd rfl returns
    | returned outcome =>
        rw [called.halt] at goesOn
        obtain ⟨_, record, _, named, _, leaves⟩ := course.leaves (.memory []) goesOn agreed
        have left := leaves.found
        rw [← sameRecords] at left
        exact called.placed regular free own named left
  · intro before after call outcome middle free course called regular
    have sameRecords : Occurrence.records (middle
        ++ [⟨after.now, .waitReturned call.name outcome after.isReplaying⟩]) =
        Occurrence.records middle := by
      simp [Effect.record?]
    have own := course.ownRecords
    rw [← sameRecords] at own
    refine ⟨called.orderly regular free own, fun goesOn => ?_, called.behind regular own⟩
    rw [called.halt] at goesOn
    obtain ⟨_, record, _, named, _, leaves⟩ := course.settles semantics (.memory []) goesOn
    have left := leaves.found
    rw [← sameRecords] at left
    exact called.placed regular free own named left

end Invocation

end Durable

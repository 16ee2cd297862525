import Durable.Proofs.Persistence
import Durable.Invocation.Step
import Durable.Invocation.Wait

/-!
# What a call emits

The occurrences that are emitted between two states of an invocation determine
the log and the medium of the later state: both take in the records that were
appended, in order.  `Extends` states this, and it composes.  A single write
either is lost, and then it changes nothing but the count of appends, or it is
kept.
-/

namespace Durable

variable {V : Type}

namespace Effect

def record? : Effect V → Option Operation
  | .appended operation => some operation
  | _ => none

def isBody : Effect V → Bool
  | .bodyBegun .. => true
  | _ => false

def isChatter : Effect V → Bool
  | .logged _ => true
  | _ => false

end Effect

namespace Occurrence

/-- The records that were appended, in order. -/
def records (occurrences : List (Occurrence V)) : List Operation :=
  occurrences.filterMap fun occurrence => occurrence.effect.record?

/-- The bodies that were begun, in order. -/
def bodies (occurrences : List (Occurrence V)) : List (Occurrence V) :=
  occurrences.filter fun occurrence => occurrence.effect.isBody

/-- Occurrences that are forwarded log calls. -/
def Chatter (occurrences : List (Occurrence V)) : Prop :=
  ∀ occurrence ∈ occurrences, occurrence.effect.isChatter = true

@[simp] theorem records_nil : records ([] : List (Occurrence V)) = [] :=
  rfl

@[simp] theorem records_append (earlier later : List (Occurrence V)) :
    records (earlier ++ later) = records earlier ++ records later := by
  simp [records]

@[simp] theorem records_cons (occurrence : Occurrence V) (rest : List (Occurrence V)) :
    records (occurrence :: rest) = occurrence.effect.record?.toList ++ records rest := by
  cases recorded : occurrence.effect.record? <;> simp [records, recorded]

@[simp] theorem bodies_nil : bodies ([] : List (Occurrence V)) = [] :=
  rfl

@[simp] theorem bodies_append (earlier later : List (Occurrence V)) :
    bodies (earlier ++ later) = bodies earlier ++ bodies later := by
  simp [bodies]

@[simp] theorem bodies_cons (occurrence : Occurrence V) (rest : List (Occurrence V)) :
    bodies (occurrence :: rest) =
      (if occurrence.effect.isBody then [occurrence] else []) ++ bodies rest := by
  cases begun : occurrence.effect.isBody <;> simp [bodies, begun]

theorem Chatter.records {chatter : List (Occurrence V)} (logs : Chatter chatter) :
    Occurrence.records chatter = [] := by
  apply List.filterMap_eq_nil_iff.mpr
  intro occurrence member
  have isLog := logs occurrence member
  cases effect : occurrence.effect <;> simp_all [Effect.isChatter, Effect.record?]

theorem Chatter.bodies {chatter : List (Occurrence V)} (logs : Chatter chatter) :
    Occurrence.bodies chatter = [] := by
  apply List.filter_eq_nil_iff.mpr
  intro occurrence member
  have isLog := logs occurrence member
  cases effect : occurrence.effect <;> simp_all [Effect.isChatter, Effect.isBody]

/-- Occurrences among which no record is appended and no body begins. -/
structure Quiet (occurrences : List (Occurrence V)) : Prop where
  records : records occurrences = []
  bodies : bodies occurrences = []

theorem Quiet.records_append {later : List (Occurrence V)} (isQuiet : Quiet later)
    (earlier : List (Occurrence V)) :
    Occurrence.records (earlier ++ later) = Occurrence.records earlier := by
  rw [Occurrence.records_append, isQuiet.records, List.append_nil]

theorem Quiet.bodies_append {later : List (Occurrence V)} (isQuiet : Quiet later)
    (earlier : List (Occurrence V)) :
    Occurrence.bodies (earlier ++ later) = Occurrence.bodies earlier := by
  rw [Occurrence.bodies_append, isQuiet.bodies, List.append_nil]

theorem Quiet.append {earlier later : List (Occurrence V)} (first : Quiet earlier)
    (second : Quiet later) : Quiet (earlier ++ later) := by
  constructor
  · rw [second.records_append, first.records]
  · rw [second.bodies_append, first.bodies]

theorem Chatter.quiet {chatter : List (Occurrence V)} (logs : Chatter chatter) : Quiet chatter :=
  ⟨logs.records, logs.bodies⟩

theorem Chatter.append {earlier later : List (Occurrence V)} (first : Chatter earlier)
    (second : Chatter later) : Chatter (earlier ++ later) := by
  intro occurrence member
  rcases List.mem_append.mp member with before | after
  · exact first occurrence before
  · exact second occurrence after

end Occurrence

namespace OperationLog

/-- The log once some records have been appended. -/
def insertAll (log : OperationLog) (records : List Operation) : OperationLog :=
  records.foldl insert log

@[simp] theorem insertAll_nil (log : OperationLog) : log.insertAll [] = log :=
  rfl

@[simp] theorem insertAll_cons (log : OperationLog) (operation : Operation)
    (records : List Operation) :
    log.insertAll (operation :: records) = (log.insert operation).insertAll records :=
  rfl

theorem insertAll_append (log : OperationLog) (earlier later : List Operation) :
    log.insertAll (earlier ++ later) = (log.insertAll earlier).insertAll later :=
  List.foldl_append

@[simp] theorem insertAll_executionId (log : OperationLog) (records : List Operation) :
    (log.insertAll records).executionId = log.executionId := by
  induction records generalizing log with
  | nil => rfl
  | cons operation records induction => exact induction (log.insert operation)

theorem Sorted.insertAll {log : OperationLog} (sorted : log.Sorted) (records : List Operation) :
    (log.insertAll records).Sorted := by
  induction records generalizing log with
  | nil => exact sorted
  | cons operation records induction => exact induction (sorted.insert operation)

theorem lookup?_insertAll (log : OperationLog) (records : List Operation) (ordinal : Nat) :
    (log.insertAll records).lookup? ordinal =
      (History.latest? records ordinal).or (log.lookup? ordinal) := by
  induction records using List.reverseRecOn with
  | nil => rfl
  | append_singleton records operation induction =>
      rw [insertAll_append, insertAll_cons, insertAll_nil, lookup?_insert, induction,
        History.latest?_append_singleton]
      by_cases same : operation.ordinal = ordinal <;> simp [same]

/-- A log to which records were appended agrees with the history that is read back
afterwards, up to what the medium makes of a record. -/
theorem lookup?_reread {medium : Medium} {executionId : String}
    {before records after : List Operation} (read : medium.history executionId = .ok before)
    (readAgain : (medium.appendAll executionId records).history executionId = .ok after)
    (ordinal : Nat) :
    Option.Rel (fun written reread => reread = written ∨ medium.GivesBack written reread)
      (((ofRecords executionId (History.latestStates before)).insertAll records).lookup? ordinal)
      (History.latest? after ordinal) := by
  obtain ⟨earlier, later, earlierRead, rfl, given⟩ := Medium.history_appendAll readAgain
  rw [read, Except.ok.injEq] at earlierRead
  subst earlierRead
  rw [lookup?_insertAll, lookup?_latestStates, History.latest?_append]
  have related := History.latest?_forall₂ (fun _ _ => Medium.GivesBack.ordinal) given ordinal
  generalize History.latest? records ordinal = latest at related ⊢
  generalize History.latest? later ordinal = latestRead at related ⊢
  cases related with
  | some given => exact .some (.inr given)
  | none =>
      cases History.latest? before ordinal with
      | none => exact .none
      | some operation => exact .some (.inl rfl)

end OperationLog

namespace Clock

/-- The later clock shows what the earlier one does after some durations, one after
another. -/
def Reaches (before after : Clock) : Prop :=
  ∃ durations : List Duration, after = durations.foldl advanceBy before

@[simp] theorem Reaches.refl (clock : Clock) : Reaches clock clock :=
  ⟨[], rfl⟩

theorem Reaches.trans {first second third : Clock} (earlier : Reaches first second)
    (later : Reaches second third) : Reaches first third := by
  obtain ⟨before, rfl⟩ := earlier
  obtain ⟨after, rfl⟩ := later
  exact ⟨before ++ after, List.foldl_append.symm⟩

theorem Reaches.advanceBy (clock : Clock) (duration : Duration) :
    Reaches clock (clock.advanceBy duration) :=
  ⟨[duration], rfl⟩

theorem Reaches.genuine {before after : Clock} (reaches : Reaches before after)
    (genuine : before.now.Genuine) : after.now.Genuine := by
  obtain ⟨durations, rfl⟩ := reaches
  induction durations generalizing before with
  | nil => exact genuine
  | cons duration durations induction => exact induction (genuine.add duration)

end Clock

namespace Invocation

/-- The later state has emitted these occurrences since the earlier one, and has
taken in the records that were appended among them; its clock has only moved on. -/
structure Extends (before after : Invocation V) (emitted : List (Occurrence V)) : Prop where
  occurrences : after.occurrences = before.occurrences ++ emitted
  log : after.log = before.log.insertAll (Occurrence.records emitted)
  medium : after.store.medium =
    before.store.medium.appendAll before.log.executionId (Occurrence.records emitted)
  faults : after.store.faults = before.store.faults
  clock : before.clock.Reaches after.clock

/-- No call was declared or settled between the two states. -/
structure SamePlace (before after : Invocation V) : Prop where
  halt : after.halt = before.halt
  nextOrdinal : after.nextOrdinal = before.nextOrdinal
  names : after.names = before.names

theorem SamePlace.refl (invocation : Invocation V) : SamePlace invocation invocation :=
  ⟨rfl, rfl, rfl⟩

theorem SamePlace.trans {first second third : Invocation V} (earlier : SamePlace first second)
    (later : SamePlace second third) : SamePlace first third :=
  ⟨later.halt.trans earlier.halt, later.nextOrdinal.trans earlier.nextOrdinal,
    later.names.trans earlier.names⟩

namespace Extends

variable {before after : Invocation V} {emitted : List (Occurrence V)}

theorem refl (invocation : Invocation V) : Extends invocation invocation [] :=
  ⟨by simp, rfl, rfl, rfl, .refl _⟩

theorem executionId (extension : Extends before after emitted) :
    after.log.executionId = before.log.executionId := by
  rw [extension.log, OperationLog.insertAll_executionId]

theorem trans {middle : Invocation V} {later : List (Occurrence V)}
    (first : Extends before middle emitted) (second : Extends middle after later) :
    Extends before after (emitted ++ later) := by
  constructor
  · rw [second.occurrences, first.occurrences, List.append_assoc]
  · rw [second.log, first.log, Occurrence.records_append, OperationLog.insertAll_append]
  · rw [second.medium, first.medium, first.executionId, Occurrence.records_append,
      Medium.appendAll_append]
  · rw [second.faults, first.faults]
  · exact first.clock.trans second.clock

theorem lookup? (extension : Extends before after emitted) (ordinal : Nat) :
    after.log.lookup? ordinal =
      (History.latest? (Occurrence.records emitted) ordinal).or
        (before.log.lookup? ordinal) := by
  rw [extension.log, OperationLog.lookup?_insertAll]

theorem emit (invocation : Invocation V) (effect : Effect V) (silent : effect.record? = none) :
    Extends invocation (invocation.emit effect) [⟨invocation.now, effect⟩] := by
  constructor <;> simp [Invocation.emit, silent]

end Extends

/-- What comes of a write that the log has admitted. -/
inductive Writes (before : Invocation V) (operation : Operation) :
    Except StoreError Operation → Invocation V → Prop where
  | lost (error : StoreError)
      (failing : before.store.faults.append (before.store.appends + 1) = some error) :
      Writes before operation (.error error)
        { before with
          store := { before.store with appends := before.store.appends + 1 }
          occurrences := before.occurrences ++ [⟨before.now, .appendFailed operation error⟩] }
  | kept (taken : before.store.faults.append (before.store.appends + 1) = none) :
      Writes before operation (.ok operation)
        { before with
          log := before.log.insert operation
          store :=
            { before.store with
              appends := before.store.appends + 1
              medium := before.store.medium.append before.log.executionId operation }
          occurrences := before.occurrences ++ [⟨before.now, .appended operation⟩] }

theorem write_writes {invocation after : Invocation V} {operation : Operation}
    {result : Except StoreError Operation}
    (wrote : invocation.write (.ok operation) = (result, after)) :
    Writes invocation operation result after := by
  cases planned : invocation.store.faults.append (invocation.store.appends + 1) with
  | some error =>
      simp only [Invocation.write, OperationLog.commit, Store.append, planned] at wrote
      cases wrote
      exact .lost error planned
  | none =>
      simp only [Invocation.write, OperationLog.commit, Store.append, planned] at wrote
      cases wrote
      exact .kept planned

namespace Writes

variable {before after : Invocation V} {operation written : Operation} {error : StoreError}
  {result : Except StoreError Operation}

theorem samePlace (writes : Writes before operation result after) : SamePlace before after := by
  cases writes <;> exact ⟨rfl, rfl, rfl⟩

theorem logger (writes : Writes before operation result after) :
    after.logger = before.logger := by
  cases writes <;> rfl

theorem now (writes : Writes before operation result after) : after.now = before.now := by
  cases writes <;> rfl

theorem lost_extends (writes : Writes before operation (.error error) after) :
    Extends before after [⟨before.now, .appendFailed operation error⟩] := by
  cases writes
  constructor <;> simp [Effect.record?]

theorem kept_extends (writes : Writes before operation (.ok written) after) :
    Extends before after [⟨before.now, .appended operation⟩] := by
  cases writes
  constructor <;> simp [Effect.record?]

theorem reliable (writes : Writes before operation (.error error) after)
    (reliable : before.store.faults = .none) : False := by
  cases writes with
  | lost _ failing => simp [reliable, FaultPlan.none] at failing

end Writes

/-- A call that was not stopped by a halt has consumed an ordinal, and has left
the halt that its reply calls for. -/
structure Called (before after : Invocation V) (kind : OperationKind) (name : String)
    (emitted : List (Occurrence V)) (halt : Option Halt) : Prop where
  extension : Extends before after
    (⟨before.now, .declared before.nextOrdinal kind name⟩ :: emitted)
  nextOrdinal : after.nextOrdinal = before.nextOrdinal + 1
  names : after.names = (before.declare kind name).names
  halt : after.halt = halt

namespace Called

variable {before after : Invocation V} {kind : OperationKind} {name : String}
  {emitted : List (Occurrence V)} {halt : Option Halt}

theorem records (called : Called before after kind name emitted halt) :
    Occurrence.records after.occurrences =
      Occurrence.records before.occurrences ++ Occurrence.records emitted := by
  simp [called.extension.occurrences, Effect.record?]

theorem bodies (called : Called before after kind name emitted halt) :
    Occurrence.bodies after.occurrences =
      Occurrence.bodies before.occurrences ++ Occurrence.bodies emitted := by
  simp [called.extension.occurrences, Effect.isBody]

theorem quiet (called : Called before after kind name emitted halt)
    (isQuiet : Occurrence.Quiet before.occurrences) (emittedQuiet : Occurrence.Quiet emitted) :
    Occurrence.Quiet after.occurrences := by
  constructor
  · rw [called.records, isQuiet.records, emittedQuiet.records, List.append_nil]
  · rw [called.bodies, isQuiet.bodies, emittedQuiet.bodies, List.append_nil]

theorem log (called : Called before after kind name emitted halt) :
    after.log = before.log.insertAll (Occurrence.records emitted) := by
  simp [called.extension.log, Effect.record?]

end Called

theorem declare_extends (invocation : Invocation V) (kind : OperationKind) (name : String) :
    Extends invocation (invocation.declare kind name)
      [⟨invocation.now, .declared invocation.nextOrdinal kind name⟩] := by
  constructor <;> simp [declare, Invocation.emit, Effect.record?]

/-- The halt that an outcome calls for. -/
def haltOf? (outcome : Except DurableError α) : Option Halt :=
  match outcome with
  | .ok _ => none
  | .error error => Halt.ofError? error

theorem haltOf?_of_isFatal {error : DurableError} (fatal : error.isFatal = true) :
    haltOf? (.error error : Except DurableError α) = some (.fatal error) := by
  cases error <;> first | rfl | simp [DurableError.isFatal] at fatal

theorem settle_extends (invocation : Invocation V) (outcome : Except DurableError α) :
    Extends invocation (invocation.settle outcome) [] := by
  unfold settle noteHalt
  split <;> constructor <;> simp [refresh, withReplaying]

theorem settle_halt {invocation : Invocation V} (free : invocation.halt = none)
    (outcome : Except DurableError α) :
    (invocation.settle outcome).halt = haltOf? outcome := by
  unfold settle noteHalt
  cases outcome <;> simp [refresh, withReplaying, free, haltOf?]

theorem settle_nextOrdinal (invocation : Invocation V) (outcome : Except DurableError α) :
    (invocation.settle outcome).nextOrdinal = invocation.nextOrdinal := by
  unfold settle noteHalt
  split <;> rfl

theorem settle_names (invocation : Invocation V) (outcome : Except DurableError α) :
    (invocation.settle outcome).names = invocation.names := by
  unfold settle noteHalt
  split <;> rfl

theorem called_of_settled {before finished : Invocation V} {kind : OperationKind}
    {name : String} {middle : List (Occurrence V)} {outcome : Except DurableError α}
    {effect : Effect V} (free : before.halt = none) (silent : effect.record? = none)
    (place : SamePlace (before.declare kind name) finished)
    (extension : Extends (before.declare kind name) finished middle) :
    Called before ((finished.settle outcome).emit effect) kind name
      (middle ++ [⟨(finished.settle outcome).now, effect⟩]) (haltOf? outcome) := by
  have finishedFree : finished.halt = none := place.halt.trans free
  constructor
  · have whole := ((declare_extends before kind name).trans extension).trans
      ((settle_extends finished outcome).trans (.emit (finished.settle outcome) _ silent))
    simpa using whole
  · exact (settle_nextOrdinal finished outcome).trans place.nextOrdinal
  · exact (settle_names finished outcome).trans place.names
  · exact settle_halt finishedFree outcome

theorem findRecord_cases (invocation : Invocation V) (kind : OperationKind) (name : String) :
    (∃ first, invocation.declaredAt? name = some first ∧
        invocation.findRecord kind name = .error (.duplicateOperationName name first)) ∨
      invocation.declaredAt? name = none ∧
        ((∃ operation, invocation.log.lookup? invocation.nextOrdinal = some operation ∧
            ¬(operation.kind = kind ∧ operation.name = name) ∧
            invocation.findRecord kind name = .error (.replayMismatch invocation.nextOrdinal
              operation.kind operation.name kind name)) ∨
          (∃ recorded, invocation.log.lookup? invocation.nextOrdinal = recorded ∧
            (∀ operation, recorded = some operation →
              operation.kind = kind ∧ operation.name = name) ∧
            invocation.findRecord kind name = .ok recorded)) := by
  unfold findRecord
  cases known : invocation.declaredAt? name with
  | some first => exact .inl ⟨first, rfl, rfl⟩
  | none =>
      refine .inr ⟨rfl, ?_⟩
      cases found : invocation.log.lookup? invocation.nextOrdinal with
      | none => exact .inr ⟨none, rfl, by simp, rfl⟩
      | some operation =>
          by_cases same : operation.kind = kind ∧ operation.name = name
          · refine .inr ⟨some operation, rfl, ?_, by simp [same]⟩
            intro other equality
            cases equality
            exact same
          · exact .inl ⟨operation, rfl, same, by simp [same]⟩

end Invocation

end Durable

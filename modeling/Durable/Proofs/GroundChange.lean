import Durable.Proofs.StepCourse

/-!
# Calls over other grounds

A call works on a log and a store.  It sees of them only the records that it finds and how its
appends are answered, and of a record it sees the result only in a step that replays it.  Two
grounds that are alike in this, and stay alike as records are appended, let a call do the same:
everything but the ground is the same at its end.
-/

namespace Durable

variable {V : Type}

namespace Operation

/-- Records that differ in their results at most. -/
structure Twins (first second : Operation) : Prop where
  id : second.id = first.id
  ordinal : second.ordinal = first.ordinal
  name : second.name = first.name
  kind : second.kind = first.kind
  status : second.status = first.status
  attempt : second.attempt = first.attempt
  error : second.error = first.error
  readyAt : second.readyAt = first.readyAt

namespace Twins

theorem refl (operation : Operation) : operation.Twins operation :=
  ⟨rfl, rfl, rfl, rfl, rfl, rfl, rfl, rfl⟩

theorem refl? (found : Option Operation) : Option.Rel Twins found found := by
  cases found with
  | none => exact .none
  | some record => exact .some (refl record)

variable {first second : Operation} (twins : first.Twins second)

include twins

theorem withState (update : OperationUpdate) :
    second.withState update = first.withState update := by
  simp only [Operation.withState, twins.id, twins.ordinal, twins.name, twins.kind]

theorem nextState (update : OperationUpdate) :
    OperationLog.nextState second update = OperationLog.nextState first update := by
  have terminal : second.isTerminal = first.isTerminal :=
    congrArg OperationStatus.isTerminal twins.status
  rw [OperationLog.nextState, OperationLog.nextState, apply, apply, terminal, twins.status,
    twins.attempt, twins.name, twins.ordinal, twins.withState update]

theorem isReady (now : Instant) : second.isReady now = first.isReady now := by
  rw [Operation.isReady, Operation.isReady, twins.readyAt]

end Twins

end Operation

/-- Plans for a step that have found twins. -/
inductive StepPlan.Twins : StepPlan → StepPlan → Prop where
  | replay {first second : Operation} (twins : first.Twins second) :
      Twins (.replay first) (.replay second)
  | fail (error : DurableError) : Twins (.fail error) (.fail error)
  | interrupt {first second : Operation} (twins : first.Twins second) :
      Twins (.interrupt first) (.interrupt second)
  | attempt (number : Nat) : Twins (.attempt number) (.attempt number)

theorem StepPlan.ofRecord_twins {first second : Option Operation}
    (twins : Option.Rel Operation.Twins first second) (semantics : StepSemantics)
    (now : Instant) :
    StepPlan.Twins (.ofRecord first semantics now) (.ofRecord second semantics now) := by
  cases twins with
  | none => exact .attempt 1
  | @some first second twins =>
      simp only [ofRecord, twins.status, twins.attempt, twins.name, twins.error, twins.readyAt,
        twins.isReady]
      cases first.status with
      | succeeded => exact .replay twins
      | failed => exact .fail _
      | pending =>
          dsimp only
          split
          · exact .attempt _
          · exact .fail _
      | started =>
          cases semantics with
          | atMostOnce => exact .interrupt twins
          | atLeastOnce => exact .attempt _

/-- Plans for a wait that have found twins. -/
inductive WaitPlan.Twins : WaitPlan → WaitPlan → Prop where
  | start : Twins .start .start
  | pass : Twins .pass .pass
  | elapse {first second : Operation} (twins : first.Twins second) :
      Twins (.elapse first) (.elapse second)
  | fail (error : DurableError) : Twins (.fail error) (.fail error)

theorem WaitPlan.ofRecord_twins {first second : Option Operation}
    (twins : Option.Rel Operation.Twins first second) (now : Instant) :
    WaitPlan.Twins (.ofRecord first now) (.ofRecord second now) := by
  cases twins with
  | none => exact .start
  | @some first second twins =>
      simp only [ofRecord, twins.status, twins.name, twins.readyAt, twins.isReady]
      cases first.status with
      | succeeded => exact .pass
      | started => exact .fail _
      | failed => exact .fail _
      | pending =>
          dsimp only
          split
          · exact .elapse twins
          · exact .fail _

/-- What an invocation works on. -/
structure Ground where
  log : OperationLog
  store : Store

namespace Ground

/-- Append a record that was admitted. -/
def commit (ground : Ground) (operation : Operation) : Except StoreError Operation × Ground :=
  let written := ground.log.commit ground.store operation
  (written.outcome, ⟨written.log, written.store⟩)

/-- Grounds that are related belong to one execution and have twins at every ordinal.  They
answer an append alike, and are related afterwards. -/
structure Alike (related : Ground → Ground → Prop) : Prop where
  executionId : ∀ {first second}, related first second →
    second.log.executionId = first.log.executionId
  records : ∀ {first second}, related first second → ∀ ordinal,
    Option.Rel Operation.Twins (first.log.lookup? ordinal) (second.log.lookup? ordinal)
  commit : ∀ {first second} (operation : Operation), related first second →
    (second.commit operation).1 = (first.commit operation).1 ∧
      related (first.commit operation).2 (second.commit operation).2

namespace Alike

variable {related : Ground → Ground → Prop} (alike : Alike related) {first second : Ground}
  (grounds : related first second)

include alike grounds

theorem lookup?_cases (ordinal : Nat) :
    (first.log.lookup? ordinal = none ∧ second.log.lookup? ordinal = none) ∨
      ∃ here there, first.log.lookup? ordinal = some here ∧
        second.log.lookup? ordinal = some there ∧ here.Twins there := by
  have records := alike.records grounds ordinal
  cases here : first.log.lookup? ordinal with
  | none =>
      rw [here] at records
      cases there : second.log.lookup? ordinal with
      | none => exact .inl ⟨rfl, rfl⟩
      | some record =>
          rw [there] at records
          cases records
  | some record =>
      rw [here] at records
      cases there : second.log.lookup? ordinal with
      | none =>
          rw [there] at records
          cases records
      | some other =>
          rw [there] at records
          cases records with
          | some twins => exact .inr ⟨record, other, rfl, rfl, twins⟩

theorem contains (ordinal : Nat) : second.log.contains ordinal = first.log.contains ordinal := by
  rw [OperationLog.contains, OperationLog.contains]
  rcases alike.lookup?_cases grounds ordinal with ⟨here, there⟩ | ⟨_, _, here, there, _⟩
  · rw [here, there]
  · rw [here, there]
    rfl

theorem admitRecord (operation : Operation) :
    second.log.admitRecord operation = first.log.admitRecord operation := by
  rw [OperationLog.admitRecord, OperationLog.admitRecord]
  rcases alike.lookup?_cases grounds operation.ordinal with
    ⟨here, there⟩ | ⟨_, _, here, there, twins⟩
  · rw [here, there]
  · rw [here, there]
    dsimp only
    rw [twins.name]

theorem admitUpdate (ordinal : Nat) (update : OperationUpdate) :
    second.log.admitUpdate ordinal update = first.log.admitUpdate ordinal update := by
  rw [OperationLog.admitUpdate, OperationLog.admitUpdate]
  rcases alike.lookup?_cases grounds ordinal with ⟨here, there⟩ | ⟨_, _, here, there, twins⟩
  · rw [here, there]
  · rw [here, there]
    exact twins.nextState update

end Alike

end Ground

namespace Invocation

def ground (invocation : Invocation V) : Ground :=
  ⟨invocation.log, invocation.store⟩

/-- The invocation over another ground. -/
def upon (invocation : Invocation V) (ground : Ground) : Invocation V :=
  { invocation with log := ground.log, store := ground.store }

/-- The second result is the first one but for the ground, which is related. -/
def Mirrors (related : Ground → Ground → Prop) (result mirrored : α × Invocation V) : Prop :=
  ∃ ground, mirrored = (result.1, result.2.upon ground) ∧ related result.2.ground ground

/-- The call replays the record: it is not refused, and finds a success at its ordinal. -/
structure Replays (invocation : Invocation V) (name : String) (record : Operation) : Prop where
  free : invocation.halt = none
  fresh : invocation.declaredAt? name = none
  found : invocation.log.lookup? invocation.nextOrdinal = some record
  kind : record.kind = .step
  name : record.name = name
  succeeded : record.status = .succeeded

theorem Replays.findRecord {invocation : Invocation V} {name : String} {record : Operation}
    (replays : invocation.Replays name record) :
    invocation.findRecord .step name = .ok (some record) := by
  simp only [Invocation.findRecord, replays.fresh, replays.found, replays.kind, replays.name,
    and_self, if_true]

theorem Replays.of_planned {invocation : Invocation V} {name : String} {record : Operation}
    {recorded : Option Operation} {semantics : StepSemantics} {now : Instant}
    (free : invocation.halt = none) (found : invocation.findRecord .step name = .ok recorded)
    (planned : StepPlan.ofRecord recorded semantics now = .replay record) :
    invocation.Replays name record := by
  obtain ⟨rfl, succeeded⟩ := StepPlan.ofRecord_eq_replay planned
  rcases findRecord_cases invocation .step name with
    ⟨first, _, refused⟩ | ⟨fresh, ⟨other, _, _, refused⟩ | ⟨given, here, fits, same⟩⟩
  · cases found.symm.trans refused
  · cases found.symm.trans refused
  · cases found.symm.trans same
    obtain ⟨kind, sameName⟩ := fits record rfl
    exact ⟨free, fresh, here, kind, sameName, succeeded⟩

theorem Replays.step {invocation : Invocation V} {name : String} {record : Operation}
    (replays : invocation.Replays name record) (config : StepConfig) (codec : Codec V)
    (body : StepBody V) :
    (invocation.step name config codec body).1 = .returned (record.replay codec) := by
  simp only [Invocation.step, callStep, replays.free, replays.findRecord, StepPlan.ofRecord,
    replays.succeeded, follow]

section Unread

variable (invocation : Invocation V) (ground : Ground)

theorem logCall_upon (level : LogLevel) (message : String) :
    (invocation.upon ground).logCall level message =
      (invocation.logCall level message).upon ground := by
  have sameLogger : (invocation.upon ground).logger = invocation.logger := rfl
  unfold logCall
  rw [sameLogger]
  cases invocation.logger.log? level message <;> rfl

private theorem actions_upon (actions : List BodyAction) :
    actions.foldl act (invocation.upon ground) = (actions.foldl act invocation).upon ground := by
  induction actions generalizing invocation with
  | nil => rfl
  | cons action actions induction =>
      have acted : (invocation.upon ground).act action = (invocation.act action).upon ground := by
        cases action with
        | log level message => exact logCall_upon invocation ground level message
        | advance duration => rfl
      rw [List.foldl_cons, List.foldl_cons, acted]
      exact induction (invocation.act action)

theorem runBody_upon (context : StepContext) (body : StepBody V) :
    (invocation.upon ground).runBody context body =
      ((invocation.runBody context body).1,
        (invocation.runBody context body).2.upon ground) := by
  have acted := actions_upon
    { invocation with logger := (invocation.logger.enter context.scope).1 } ground
    (body context).actions
  simp only [upon] at acted
  simp only [runBody, upon, acted]

theorem logCall_ground (level : LogLevel) (message : String) :
    (invocation.logCall level message).ground = invocation.ground := by
  have unread := logCall_upon invocation invocation.ground level message
  have same := congrArg Invocation.ground unread
  exact same

theorem runBody_ground (context : StepContext) (body : StepBody V) :
    (invocation.runBody context body).2.ground = invocation.ground := by
  have unread := runBody_upon invocation invocation.ground context body
  have same := congrArg (fun result => result.2.ground) unread
  exact same

theorem settle_ground (outcome : Except DurableError α) :
    (invocation.settle outcome).ground = invocation.ground := by
  unfold settle noteHalt
  split <;> rfl

end Unread

section Calls

variable {related : Ground → Ground → Prop} (alike : Ground.Alike related)
  {invocation : Invocation V} {ground : Ground} (grounds : related invocation.ground ground)

include alike grounds

theorem settle_upon (outcome : Except DurableError α) :
    (invocation.upon ground).settle outcome = (invocation.settle outcome).upon ground := by
  have sameFlag : (invocation.upon ground).refresh = invocation.refresh.upon ground := by
    have contained := alike.contains grounds invocation.nextOrdinal
    simp only [refresh]
    exact congrArg (fun flag => (invocation.withReplaying flag).upon ground) contained
  have sameHalt : (invocation.refresh.upon ground).halt = invocation.refresh.halt := rfl
  unfold settle
  rw [sameFlag]
  unfold noteHalt
  rw [sameHalt]
  cases invocation.refresh.halt with
  | some halt => rfl
  | none => cases outcome <;> rfl

theorem settle_mirrors (outcome : Except DurableError α) (reply : β) (effect : Bool → Effect V) :
    Mirrors related
      (reply, (invocation.settle outcome).emit (effect (invocation.settle outcome).isReplaying))
      (reply, ((invocation.upon ground).settle outcome).emit
        (effect ((invocation.upon ground).settle outcome).isReplaying)) := by
  have settles := settle_upon alike grounds outcome
  refine ⟨ground, by rw [settles]; rfl, ?_⟩
  have kept := settle_ground invocation outcome
  change related (invocation.settle outcome).ground ground
  rw [kept]
  exact grounds

theorem write_mirrors (admitted : Except StoreError Operation) :
    Mirrors related (invocation.write admitted) ((invocation.upon ground).write admitted) := by
  cases admitted with
  | error error => exact ⟨ground, rfl, grounds⟩
  | ok operation =>
      obtain ⟨answered, lasting⟩ := alike.commit operation grounds
      have sameLog : (invocation.upon ground).log = ground.log := rfl
      have sameStore : (invocation.upon ground).store = ground.store := rfl
      simp only [Ground.commit, Invocation.ground] at answered lasting
      simp only [write, sameLog, sameStore]
      rw [answered]
      cases outcome : (invocation.log.commit invocation.store operation).outcome with
      | error error => exact ⟨_, rfl, lasting⟩
      | ok given => exact ⟨_, rfl, lasting⟩

theorem record_mirrors (operation : Operation) :
    Mirrors related (invocation.record operation)
      ((invocation.upon ground).record operation) := by
  have admits : (invocation.upon ground).log.admitRecord operation =
      invocation.log.admitRecord operation := alike.admitRecord grounds operation
  rw [record, record, admits]
  exact write_mirrors alike grounds _

theorem update_mirrors (ordinal : Nat) (update : OperationUpdate) :
    Mirrors related (invocation.update ordinal update)
      ((invocation.upon ground).update ordinal update) := by
  have admits : (invocation.upon ground).log.admitUpdate ordinal update =
      invocation.log.admitUpdate ordinal update := alike.admitUpdate grounds ordinal update
  rw [Invocation.update, Invocation.update, admits]
  exact write_mirrors alike grounds _

theorem put_mirrors (template : Operation) (update : OperationUpdate) :
    Mirrors related (invocation.put template update)
      ((invocation.upon ground).put template update) := by
  have contained : (invocation.upon ground).log.contains template.ordinal =
      invocation.log.contains template.ordinal := alike.contains grounds template.ordinal
  unfold put
  rw [contained]
  split
  · exact update_mirrors alike grounds _ _
  · cases OperationLog.nextState template update with
    | error error => exact ⟨ground, rfl, grounds⟩
    | ok operation => exact record_mirrors alike grounds operation

theorem conclude_mirrors (template : Operation) (update : OperationUpdate)
    (diagnostic : Diagnostic) (outcome : Except DurableError V) :
    Mirrors related (invocation.conclude template update diagnostic outcome)
      ((invocation.upon ground).conclude template update diagnostic outcome) := by
  obtain ⟨other, same, lasting⟩ := put_mirrors alike grounds template update
  simp only [conclude, same]
  cases placed : invocation.put template update with
  | mk result written =>
      rw [placed] at lasting
      cases result <;> exact ⟨other, rfl, lasting⟩

theorem succeed_mirrors (template : Operation) (context : StepContext) (codec : Codec V)
    (value : V) :
    Mirrors related (invocation.succeed template context codec value)
      ((invocation.upon ground).succeed template context codec value) := by
  unfold succeed
  cases codec.encode value <;> exact conclude_mirrors alike grounds _ _ _ _

theorem fail_mirrors (template : Operation) (context : StepContext) (retry : RetryPolicy)
    (error : ErrorObject) :
    Mirrors related (invocation.fail template context retry error)
      ((invocation.upon ground).fail template context retry error) := by
  unfold Invocation.fail
  cases retry context.attempt error <;> exact conclude_mirrors alike grounds _ _ _ _

theorem mark_mirrors (template : Operation) (semantics : StepSemantics) (number : Nat) :
    Mirrors related (invocation.mark template semantics number)
      ((invocation.upon ground).mark template semantics number) := by
  cases semantics with
  | atLeastOnce => exact ⟨ground, rfl, grounds⟩
  | atMostOnce =>
      obtain ⟨other, same, lasting⟩ := put_mirrors alike grounds template (.started number)
      simp only [mark, same]
      cases placed : invocation.put template (.started number) with
      | mk result written =>
          rw [placed] at lasting
          cases result <;> exact ⟨other, rfl, lasting⟩

theorem attempt_mirrors (ordinal : Nat) (name : String) (number : Nat) (config : StepConfig)
    (codec : Codec V) (body : StepBody V) :
    Mirrors related (invocation.attempt ordinal name number config codec body)
      ((invocation.upon ground).attempt ordinal name number config codec body) := by
  have unreplayed : related (invocation.withReplaying false).ground ground := grounds
  have sameExecution : (invocation.upon ground).executionId = invocation.executionId :=
    alike.executionId grounds
  obtain ⟨marked, same, markedGrounds⟩ :=
    mark_mirrors alike unreplayed (.step ordinal name) config.semantics number
  have unreplays : (invocation.upon ground).withReplaying false =
      (invocation.withReplaying false).upon ground := rfl
  unfold attempt
  dsimp only
  rw [unreplays, same, sameExecution]
  cases placed : (invocation.withReplaying false).mark (.step ordinal name) config.semantics
      number with
  | mk result begun =>
      rw [placed] at markedGrounds
      cases result with
      | error error => exact ⟨marked, rfl, markedGrounds⟩
      | ok given =>
          let context : StepContext :=
            ⟨invocation.executionId, (Operation.step ordinal name).id, name, number⟩
          let opened := begun.emit
            (.bodyBegun ordinal config.semantics context begun.isReplaying)
          have ran := runBody_upon opened marked context body
          have emits : (begun.upon marked).emit (.bodyBegun ordinal config.semantics context
              (begun.upon marked).isReplaying) = opened.upon marked := rfl
          dsimp only
          rw [emits, ran]
          have kept := runBody_ground opened context body
          cases finishes : opened.runBody context body with
          | mk ending finished =>
              rw [finishes] at kept
              have finishedGrounds : related finished.ground marked := by
                rw [kept]
                exact markedGrounds
              cases ending with
              | crash => exact ⟨marked, rfl, finishedGrounds⟩
              | value value =>
                  obtain ⟨other, succeeds, concludes⟩ := succeed_mirrors alike finishedGrounds
                    (.step ordinal name) context codec value
                  exact ⟨other, congrArg (fun result => (Reply.returned result.1, result.2)) succeeds,
                    concludes⟩
              | failure error =>
                  obtain ⟨other, fails, concludes⟩ := fail_mirrors alike finishedGrounds
                    (.step ordinal name) context config.retry error
                  exact ⟨other, congrArg (fun result => (Reply.returned result.1, result.2)) fails,
                    concludes⟩

theorem interrupt_mirrors {operation other : Operation} (twins : operation.Twins other) :
    Mirrors related (invocation.interrupt operation)
      ((invocation.upon ground).interrupt other) := by
  have sameExecution : (invocation.upon ground).executionId = invocation.executionId :=
    alike.executionId grounds
  let diagnosed := invocation.diagnose
    (.stepInterrupted invocation.executionId operation.id operation.attempt)
  have diagnosedGrounds : related diagnosed.ground ground := grounds
  have diagnoses : (invocation.upon ground).diagnose
      (.stepInterrupted invocation.executionId operation.id operation.attempt) =
        diagnosed.upon ground := rfl
  unfold interrupt
  simp only [sameExecution, twins.id, twins.ordinal, twins.name, twins.attempt, twins.error]
  cases operation.error with
  | some noted => exact ⟨ground, rfl, grounds⟩
  | none =>
      obtain ⟨left, same, lasting⟩ := update_mirrors alike diagnosedGrounds operation.ordinal
        (.interrupted operation.attempt
          (DurableError.stepInterrupted operation.name operation.attempt).toObject)
      dsimp only
      rw [diagnoses, same]
      cases updated : diagnosed.update operation.ordinal (.interrupted operation.attempt
          (DurableError.stepInterrupted operation.name operation.attempt).toObject) with
      | mk result after =>
          rw [updated] at lasting
          cases result <;> exact ⟨left, rfl, lasting⟩

theorem follow_mirrors (ordinal : Nat) (name : String) (config : StepConfig) (codec : Codec V)
    (body : StepBody V) {plan other : StepPlan} (twins : plan.Twins other)
    (replays : ∀ first second, plan = .replay first → other = .replay second →
      second.replay codec = first.replay codec) :
    Mirrors related (invocation.follow ordinal name config codec body plan)
      ((invocation.upon ground).follow ordinal name config codec body other) := by
  cases twins with
  | @replay first second twins =>
      have sameExecution : (invocation.upon ground).executionId = invocation.executionId :=
        alike.executionId grounds
      have sameOutcome := replays first second rfl rfl
      simp only [follow, sameExecution, sameOutcome, twins.id]
      exact ⟨ground, rfl, grounds⟩
  | fail error => exact ⟨ground, rfl, grounds⟩
  | interrupt twins =>
      obtain ⟨left, same, lasting⟩ := interrupt_mirrors alike grounds twins
      simp only [follow, same]
      exact ⟨left, rfl, lasting⟩
  | attempt number => exact attempt_mirrors alike grounds ordinal name number config codec body

theorem findRecord_twins (kind : OperationKind) (name : String) :
    (∃ error, invocation.findRecord kind name = .error error ∧
      (invocation.upon ground).findRecord kind name = .error error) ∨
    ∃ first second, invocation.findRecord kind name = .ok first ∧
      (invocation.upon ground).findRecord kind name = .ok second ∧
      Option.Rel Operation.Twins first second := by
  have names : (invocation.upon ground).declaredAt? name = invocation.declaredAt? name := rfl
  have records := alike.lookup?_cases grounds invocation.nextOrdinal
  unfold findRecord
  rw [names]
  cases invocation.declaredAt? name with
  | some first => exact .inl ⟨_, rfl, rfl⟩
  | none =>
      dsimp only
      rcases records with ⟨here, there⟩ | ⟨first, second, here, there, twins⟩
      · have found : invocation.log.lookup? invocation.nextOrdinal = none := here
        have foundThere : (invocation.upon ground).log.lookup? (invocation.upon ground).nextOrdinal =
            none := there
        rw [found, foundThere]
        exact .inr ⟨none, none, rfl, rfl, .none⟩
      · have found : invocation.log.lookup? invocation.nextOrdinal = some first := here
        have foundThere : (invocation.upon ground).log.lookup? (invocation.upon ground).nextOrdinal =
            some second := there
        rw [found, foundThere]
        dsimp only
        rw [twins.kind, twins.name]
        split
        · exact .inr ⟨some first, some second, rfl, rfl, .some twins⟩
        · exact .inl ⟨_, rfl, rfl⟩

/-- A step does the same over a related ground, if what it replays tells the same there. -/
theorem step_mirrors (name : String) (config : StepConfig) (codec : Codec V) (body : StepBody V)
    (replays : ∀ first second, invocation.Replays name first →
      (invocation.upon ground).Replays name second → second.replay codec = first.replay codec) :
    Mirrors related (invocation.step name config codec body)
      ((invocation.upon ground).step name config codec body) := by
  have called : Mirrors related (invocation.callStep name config codec body)
      ((invocation.upon ground).callStep name config codec body) := by
    have sameHalt : (invocation.upon ground).halt = invocation.halt := rfl
    unfold callStep
    rw [sameHalt]
    cases halted : invocation.halt with
    | some halt => exact ⟨ground, rfl, grounds⟩
    | none =>
        have declaredGrounds : related (invocation.declare .step name).ground ground := grounds
        rcases findRecord_twins alike grounds .step name with
          ⟨error, here, there⟩ | ⟨first, second, here, there, twins⟩
        · rw [here, there]
          exact ⟨ground, rfl, grounds⟩
        · rw [here, there]
          apply follow_mirrors alike declaredGrounds _ name config codec body
            (StepPlan.ofRecord_twins twins config.semantics invocation.now)
          intro original other planned plannedThere
          apply replays original other
          · exact .of_planned halted here planned
          · exact .of_planned halted there plannedThere
  obtain ⟨other, same, lasting⟩ := called
  unfold step
  rw [same]
  cases calls : invocation.callStep name config codec body with
  | mk reply finished =>
      rw [calls] at lasting
      cases reply with
      | crashed => exact ⟨other, rfl, lasting⟩
      | returned outcome => exact settle_mirrors alike lasting outcome _ _

theorem startTimer_mirrors (ordinal : Nat) (name : String) (duration : Duration) :
    Mirrors related (invocation.startTimer ordinal name duration)
      ((invocation.upon ground).startTimer ordinal name duration) := by
  have sameNow : (invocation.upon ground).now = invocation.now := rfl
  have sameExecution : (invocation.upon ground).executionId = invocation.executionId :=
    alike.executionId grounds
  unfold startTimer
  simp only [sameNow]
  split
  · cases OperationLog.nextState (.timer ordinal name (invocation.now.add duration))
      (.elapsed (.timer ordinal name (invocation.now.add duration))) with
    | error error => exact ⟨ground, rfl, grounds⟩
    | ok elapsed =>
        obtain ⟨other, same, lasting⟩ := record_mirrors alike grounds elapsed
        exact ⟨other, congrArg (fun result => (ofWrite result.1, result.2)) same, lasting⟩
  · obtain ⟨other, same, lasting⟩ := record_mirrors alike grounds
      (.timer ordinal name (invocation.now.add duration))
    rw [same]
    cases recorded : invocation.record (.timer ordinal name (invocation.now.add duration)) with
    | mk result after =>
        rw [recorded] at lasting
        cases result with
        | error error => exact ⟨other, rfl, lasting⟩
        | ok given =>
            have sameAfter : (after.upon other).executionId = after.executionId :=
              alike.executionId lasting
            simp only [sameAfter]
            exact ⟨other, rfl, lasting⟩

theorem elapseTimer_mirrors (ordinal : Nat) {timer other : Operation}
    (twins : timer.Twins other) :
    Mirrors related (invocation.elapseTimer ordinal timer)
      ((invocation.upon ground).elapseTimer ordinal other) := by
  have sameUpdate : OperationUpdate.elapsed other = .elapsed timer := by
    rw [OperationUpdate.elapsed, OperationUpdate.elapsed, twins.attempt, twins.readyAt]
  obtain ⟨left, same, lasting⟩ := update_mirrors alike grounds ordinal (.elapsed timer)
  unfold elapseTimer
  rw [sameUpdate, same, twins.id]
  cases updated : invocation.update ordinal (.elapsed timer) with
  | mk result after =>
      rw [updated] at lasting
      cases result with
      | error error => exact ⟨left, rfl, lasting⟩
      | ok given =>
          have sameAfter : (after.upon left).executionId = after.executionId :=
            alike.executionId lasting
          simp only [sameAfter]
          exact ⟨left, rfl, lasting⟩

/-- A wait does the same over a related ground. -/
theorem wait_mirrors (name : String) (duration : Duration) :
    Mirrors related (invocation.wait name duration)
      ((invocation.upon ground).wait name duration) := by
  have called : Mirrors related (invocation.callWait name duration)
      ((invocation.upon ground).callWait name duration) := by
    have sameHalt : (invocation.upon ground).halt = invocation.halt := rfl
    unfold callWait
    rw [sameHalt]
    cases invocation.halt with
    | some halt => exact ⟨ground, rfl, grounds⟩
    | none =>
        have declaredGrounds : related (invocation.declare .timer name).ground ground := grounds
        rcases findRecord_twins alike grounds .timer name with
          ⟨error, here, there⟩ | ⟨first, second, here, there, twins⟩
        · rw [here, there]
          exact ⟨ground, rfl, grounds⟩
        · rw [here, there]
          have planned := WaitPlan.ofRecord_twins twins invocation.now
          have sameNow : (invocation.upon ground).now = invocation.now := rfl
          dsimp only
          rw [sameNow]
          revert planned
          generalize WaitPlan.ofRecord first invocation.now = plan
          generalize WaitPlan.ofRecord second invocation.now = other
          intro planned
          cases planned with
          | start => exact startTimer_mirrors alike declaredGrounds _ _ _
          | pass => exact ⟨ground, rfl, grounds⟩
          | elapse timers => exact elapseTimer_mirrors alike declaredGrounds _ timers
          | fail error => exact ⟨ground, rfl, grounds⟩
  obtain ⟨other, same, lasting⟩ := called
  unfold wait
  rw [same]
  cases calls : invocation.callWait name duration with
  | mk outcome finished =>
      rw [calls] at lasting
      exact settle_mirrors alike lasting outcome _ _

end Calls

end Invocation

end Durable

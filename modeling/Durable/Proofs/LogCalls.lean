import Durable.Proofs.CallChanges

/-!
# Log calls

A log call of the workflow is forwarded just when there is no record of the next ordinal, and
carries no operation.  What a step call forwards are the log calls of the body that it runs,
each with the scope of the attempt; whether the body runs decides, not what the log held.
-/

namespace Durable

variable {V O : Type}

open Occurrence

/-- A log call before it is forwarded. -/
abbrev Remark := LogLevel × String

namespace LogEntry

/-- The remark as it is forwarded from the scope of an operation, or from none. -/
def ofRemark (executionId : String) (operation : Option OperationScope) (remark : Remark) :
    LogEntry :=
  ⟨remark.1, remark.2, executionId, operation⟩

end LogEntry

namespace BodyAction

def remark? : BodyAction → Option Remark
  | .log level message => some (level, message)
  | .advance _ => none

end BodyAction

namespace BodyRun

/-- The log calls of a body. -/
def remarks (run : BodyRun V) : List Remark :=
  run.actions.filterMap BodyAction.remark?

end BodyRun

namespace Occurrence

@[simp] theorem logEntries_nil : logEntries ([] : List (Occurrence V)) = [] :=
  rfl

@[simp] theorem logEntries_append (earlier later : List (Occurrence V)) :
    logEntries (earlier ++ later) = logEntries earlier ++ logEntries later := by
  simp [logEntries]

@[simp] theorem logEntries_cons (occurrence : Occurrence V) (rest : List (Occurrence V)) :
    logEntries (occurrence :: rest) =
      occurrence.effect.logEntry?.toList ++ logEntries rest := by
  cases logged : occurrence.effect.logEntry? <;> simp [logEntries, logged]

/-- What a body forwards that is begun here. -/
def spoken (executionId : String) (body : StepBody V) (occurrence : Occurrence V) :
    List LogEntry :=
  match occurrence.effect with
  | .bodyBegun _ _ context _ =>
    (body context).remarks.map (.ofRemark executionId (some context.scope))
  | _ => []

end Occurrence

theorem Effect.logEntry?_of_report {effect : Effect V} (reports : effect.isReport = true) :
    effect.logEntry? = none := by
  cases effect <;> simp_all [isReport, logEntry?]

theorem Effect.isBody_of_report {effect : Effect V} (reports : effect.isReport = true) :
    effect.isBody = false := by
  cases effect <;> simp_all [isReport, isBody]

namespace Invocation

theorem logCall_of_audible {invocation : Invocation V}
    (audible : invocation.logger.isSilent = false) (level : LogLevel) (message : String) :
    invocation.logCall level message =
      invocation.emit (.logged (.ofRemark invocation.logger.executionId
        invocation.logger.current? (level, message))) := by
  simp [logCall, Logger.log?, audible, LogEntry.ofRemark]

theorem logCall_of_silent {invocation : Invocation V} (silent : invocation.logger.isSilent = true)
    (level : LogLevel) (message : String) : invocation.logCall level message = invocation := by
  simp [logCall, Logger.log?, silent]

private theorem actions_entries (actions : List BodyAction) {invocation : Invocation V}
    (audible : invocation.logger.isSilent = false) :
    (actions.foldl act invocation).logger = invocation.logger ∧
      logEntries (actions.foldl act invocation).occurrences =
        logEntries invocation.occurrences ++ (actions.filterMap BodyAction.remark?).map
          (.ofRemark invocation.logger.executionId invocation.logger.current?) := by
  induction actions generalizing invocation with
  | nil => simp
  | cons action actions induction =>
      cases action with
      | log level message =>
          have forwarded := logCall_of_audible audible level message
          have stillAudible : (invocation.logCall level message).logger.isSilent = false := by
            rw [forwarded]
            exact audible
          obtain ⟨logger, entries⟩ := induction stillAudible
          rw [forwarded] at logger entries
          simp only [List.foldl_cons, act, forwarded]
          refine ⟨logger, entries.trans ?_⟩
          simp [emit, Effect.logEntry?, BodyAction.remark?]
      | advance duration =>
          have moved : (invocation.advance duration).logger.isSilent = false := audible
          exact induction moved

end Invocation

namespace Logger

/-- The loggers differ in the flag, and in how many scopes were entered, at most. -/
structure Matches (logger other : Logger) : Prop where
  executionId : logger.executionId = other.executionId
  suppress : logger.suppress = other.suppress
  scopes : logger.scopes = other.scopes

theorem Matches.refl (logger : Logger) : Matches logger logger :=
  ⟨rfl, rfl, rfl⟩

theorem Matches.trans {first second third : Logger} (earlier : Matches first second)
    (later : Matches second third) : Matches first third :=
  ⟨earlier.executionId.trans later.executionId, earlier.suppress.trans later.suppress,
    earlier.scopes.trans later.scopes⟩

theorem exit_enter (logger : Logger) (scope : OperationScope) :
    ((logger.enter scope).1.exit (logger.enter scope).2).Matches logger := by
  refine ⟨rfl, rfl, ?_⟩
  simp [enter, exit]

end Logger

namespace Invocation

/-- A body that is run outside the replay forwards each of its log calls, in the scope of its
attempt, and leaves the scopes as they were. -/
theorem runBody_entries {begun : Invocation V} (live : begun.isReplaying = false)
    (context : StepContext) (body : StepBody V) :
    (begun.runBody context body).2.logger.Matches begun.logger ∧
      logEntries (begun.runBody context body).2.occurrences =
        logEntries begun.occurrences ++
          (body context).remarks.map
            (.ofRemark begun.logger.executionId (some context.scope)) := by
  let inside : Invocation V := { begun with logger := (begun.logger.enter context.scope).1 }
  have audible : inside.logger.isSilent = false := by
    have flag : begun.logger.replaying = false := live
    simp [inside, Logger.enter, Logger.isSilent, flag]
  have innermost : inside.logger.current? = some context.scope := by
    simp [inside, Logger.enter, Logger.current?]
  obtain ⟨logger, entries⟩ := actions_entries (body context).actions audible
  constructor
  · have exits := begun.logger.exit_enter context.scope
    rw [show (begun.logger.enter context.scope).1 = inside.logger from rfl, ← logger] at exits
    exact exits
  · rw [innermost] at entries
    exact entries

/-- Since the first state the invocation has forwarded what the bodies have said that it ran,
and has left the scopes as they were. -/
structure Heard (body : StepBody V) (before after : Invocation V) : Prop where
  executionId : after.executionId = before.executionId
  logger : after.logger.Matches before.logger
  forwarded : ∃ emitted, after.occurrences = before.occurrences ++ emitted ∧
    logEntries emitted = (bodies emitted).flatMap (spoken before.logger.executionId body)

namespace Heard

variable {body : StepBody V} {before after changed : Invocation V}

theorem refl (body : StepBody V) (invocation : Invocation V) : Heard body invocation invocation :=
  ⟨rfl, .refl _, [], by simp, rfl⟩

theorem aside (heard : Heard body before after)
    (executionId : changed.executionId = after.executionId)
    (logger : changed.logger.Matches after.logger) {later : List (Occurrence V)}
    (occurrences : changed.occurrences = after.occurrences ++ later)
    (noBody : bodies later = []) (unspoken : logEntries later = []) :
    Heard body before changed := by
  obtain ⟨emitted, sofar, entries⟩ := heard.forwarded
  refine ⟨executionId.trans heard.executionId, logger.trans heard.logger, emitted ++ later, ?_, ?_⟩
  · rw [occurrences, sofar, List.append_assoc]
  · rw [logEntries_append, unspoken, bodies_append, noBody, List.append_nil, List.append_nil,
      entries]

theorem entries (heard : Heard body before after) {emitted : List (Occurrence V)}
    (occurrences : after.occurrences = before.occurrences ++ emitted) :
    logEntries after.occurrences = logEntries before.occurrences ++
      (bodies emitted).flatMap (spoken before.logger.executionId body) := by
  obtain ⟨same, sofar, entries⟩ := heard.forwarded
  rw [sofar, List.append_cancel_left_eq] at occurrences
  rw [sofar, logEntries_append, entries, occurrences]

end Heard

theorem heard_lasting (body : StepBody V) (before : Invocation V) :
    Lasting (fun other => other = body) (Heard body before) where
  write := by
    intro after admitted heard
    cases admitted with
    | error error => exact heard
    | ok operation =>
        cases wrote : after.write (.ok operation) with
        | mk result written =>
            have writes := write_writes wrote
            have logger : written.logger.Matches after.logger := by
              rw [writes.logger]
              exact .refl _
            cases writes with
            | lost error failing =>
                exact heard.aside rfl logger rfl (by simp [Effect.isBody])
                  (by simp [Effect.logEntry?])
            | kept taken =>
                exact heard.aside rfl logger rfl (by simp [Effect.isBody])
                  (by simp [Effect.logEntry?])
  report := by
    intro after effect reports heard
    exact heard.aside rfl (.refl _) rfl (by simp [Effect.isBody_of_report reports])
      (by simp [Effect.logEntry?_of_report reports])
  flag replaying heard := heard.aside rfl ⟨rfl, rfl, rfl⟩ (List.append_nil _).symm rfl rfl
  place halt nextOrdinal names heard :=
    heard.aside rfl (.refl _) (List.append_nil _).symm rfl rfl
  body := by
    rintro after body ordinal semantics context rfl live heard
    obtain ⟨emitted, sofar, entries⟩ := heard.forwarded
    let begun := after.emit (.bodyBegun ordinal semantics context false)
    have begunLive : begun.isReplaying = false := live
    obtain ⟨logger, forwarded⟩ := runBody_entries begunLive context body
    cases ran : begun.runBody context body with
    | mk ending finished =>
        obtain ⟨_, _, chatter, logs, extension, _⟩ := runBody_course ran
        rw [ran] at logger forwarded
        -- The log calls of the body are all that it adds, as it appends and begins nothing.
        have said : logEntries chatter = (body context).remarks.map
            (.ofRemark begun.logger.executionId (some context.scope)) := by
          rw [extension.occurrences, logEntries_append] at forwarded
          exact List.append_cancel_left forwarded
        refine ⟨extension.executionId.trans heard.executionId, logger.trans heard.logger,
          emitted ++ (⟨after.now, .bodyBegun ordinal semantics context false⟩ :: chatter), ?_, ?_⟩
        · rw [extension.occurrences, ← List.append_assoc, ← sofar]
          simp [begun, emit]
        · have executionId : begun.logger.executionId = before.logger.executionId :=
            heard.logger.executionId
          rw [executionId] at said
          simp [entries, said, logs.bodies, Effect.logEntry?, Effect.isBody, spoken]

theorem settle_replaying (invocation : Invocation V) (outcome : Except DurableError α) :
    (invocation.settle outcome).isReplaying =
      (invocation.settle outcome).log.contains (invocation.settle outcome).nextOrdinal := by
  unfold settle noteHalt
  split <;> rfl

/-- The logger of an invocation between two calls: it drops log calls while there is a record
of the next ordinal, and no scope is open. -/
structure Attuned (invocation : Invocation V) : Prop where
  executionId : invocation.logger.executionId = invocation.executionId
  suppress : invocation.logger.suppress = true
  scopes : invocation.logger.scopes = []
  replaying : invocation.isReplaying = invocation.log.contains invocation.nextOrdinal

theorem observe_entries (invocation : Invocation V) :
    logEntries (invocation.emit (.observed invocation.observation)).occurrences =
      logEntries invocation.occurrences := by
  simp [emit, Effect.logEntry?]

namespace Attuned

variable {before after : Invocation V} (attuned : before.Attuned)

include attuned

theorem logCall (level : LogLevel) (message : String) :
    (before.logCall level message).Attuned ∧
      logEntries (before.logCall level message).occurrences =
        logEntries before.occurrences ++
          if before.log.contains before.nextOrdinal then []
          else [.ofRemark before.executionId none (level, message)] := by
  have flag : before.logger.isSilent = before.log.contains before.nextOrdinal := by
    rw [← attuned.replaying, Logger.isSilent, attuned.suppress]
    rfl
  cases ahead : before.log.contains before.nextOrdinal with
  | true =>
      rw [logCall_of_silent (flag.trans ahead)]
      exact ⟨attuned, by simp⟩
  | false =>
      have outside : before.logger.current? = none := by
        rw [Logger.current?, attuned.scopes]
        rfl
      rw [logCall_of_audible (flag.trans ahead), outside, attuned.executionId]
      refine ⟨⟨attuned.executionId, attuned.suppress, attuned.scopes, attuned.replaying⟩, ?_⟩
      simp [emit, Effect.logEntry?]

theorem observe : (before.emit (.observed before.observation)).Attuned :=
  ⟨attuned.executionId, attuned.suppress, attuned.scopes, attuned.replaying⟩

theorem advance (duration : Duration) : (before.advance duration).Attuned :=
  ⟨attuned.executionId, attuned.suppress, attuned.scopes, attuned.replaying⟩

theorem of_heard {body : StepBody V} (heard : Heard body before after)
    (replaying : after.isReplaying = after.log.contains after.nextOrdinal) : after.Attuned where
  executionId :=
    heard.logger.executionId.trans (attuned.executionId.trans heard.executionId.symm)
  suppress := heard.logger.suppress.trans attuned.suppress
  scopes := heard.logger.scopes.trans attuned.scopes
  replaying := replaying

theorem step (call : StepCall V) {outcome : Except DurableError V}
    (stepped : before.step call.name call.config call.codec call.body =
      (.returned outcome, after)) :
    after.Attuned ∧ Heard call.body before after := by
  have heard := (heard_lasting call.body before).step call.name call.config call.codec rfl
    (.refl call.body before)
  rw [stepped] at heard
  refine ⟨attuned.of_heard heard ?_, heard⟩
  unfold Invocation.step at stepped
  split at stepped
  · cases stepped
  · cases stepped
    exact settle_replaying _ _

theorem wait (call : WaitCall) {outcome : Except DurableError Unit}
    (waited : before.wait call.name call.duration = (outcome, after)) :
    after.Attuned ∧ ∀ body, Heard body before after := by
  have heard : ∀ body : StepBody V, Heard body before after := by
    intro body
    have heard := (heard_lasting body before).wait call.name call.duration (.refl body before)
    rw [waited] at heard
    exact heard
  refine ⟨attuned.of_heard (heard fun _ => ⟨[], .crash⟩) ?_, heard⟩
  unfold Invocation.wait at waited
  cases waited
  exact settle_replaying _ _

end Attuned

end Invocation

end Durable

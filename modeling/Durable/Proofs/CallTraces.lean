import Durable.Proofs.Halting
import Durable.Proofs.InterruptedCalls

/-!
# The traces of calls

What a pass emits is what its calls emit, and log calls and observations between them.
Every record and every body comes from a call, and none comes after a call that halted the
invocation.
-/

namespace Durable

variable {V O : Type}

open Occurrence

namespace MadeCall

variable {made : MadeCall V}

theorem extends_emitted (made : MadeCall V) :
    Invocation.Extends made.before made.after made.emitted := by
  suffices extended : ∃ rest, Invocation.Extends made.before made.after rest by
    obtain ⟨rest, extension⟩ := extended
    rwa [emitted, extension.occurrences, List.drop_left]
  cases halted : made.before.halt with
  | none =>
      cases declared : made.declaration with
      | step call =>
          obtain ⟨_, _, _, called, _⟩ := step_called halted declared
          exact ⟨_, called.extension⟩
      | wait call =>
          obtain ⟨_, _, _, called, _⟩ := wait_called halted declared
          exact ⟨_, called.extension⟩
  | some halt =>
      obtain ⟨before, declaration⟩ := made
      cases declaration with
      | step call =>
          simp only [after, result, Invocation.step_halted halted]
          exact ⟨_, (Invocation.settle_extends before _).trans (.emit _ _ rfl)⟩
      | wait call =>
          simp only [after, result, Invocation.wait_halted halted]
          exact ⟨_, (Invocation.settle_extends before _).trans (.emit _ _ rfl)⟩

theorem occurrences_after (made : MadeCall V) :
    made.after.occurrences = made.before.occurrences ++ made.emitted :=
  made.extends_emitted.occurrences

theorem quiet_of_halted {halt : Halt} (halted : made.before.halt = some halt) :
    Quiet made.emitted := by
  obtain ⟨_, idle⟩ := of_halted halted
  have recorded := idle.records
  have ran := idle.bodies
  rw [occurrences_after, records_append] at recorded
  rw [occurrences_after, bodies_append] at ran
  exact ⟨List.append_right_eq_self.mp recorded, List.append_right_eq_self.mp ran⟩

end MadeCall

namespace Effect

/-- Something is recorded or run. -/
def Stirs (effect : Effect V) : Prop :=
  effect.record? ≠ none ∨ effect.isBody = true

end Effect

theorem Occurrence.Quiet.still {occurrences : List (Occurrence V)} (isQuiet : Quiet occurrences)
    {occurrence : Occurrence V} (member : occurrence ∈ occurrences) :
    ¬occurrence.effect.Stirs := by
  have unrecorded := List.filterMap_eq_nil_iff.mp isQuiet.records occurrence member
  have idle := List.filter_eq_nil_iff.mp isQuiet.bodies occurrence member
  rintro (recorded | begun)
  · exact recorded unrecorded
  · exact idle begun

theorem Workflow.stirred_by_call {workflow : Workflow V O} {before : Invocation V}
    {occurrence : Occurrence V} (stirs : occurrence.effect.Stirs)
    (member : occurrence ∈ (workflow.run before).2.occurrences) :
    occurrence ∈ before.occurrences ∨
      ∃ made ∈ workflow.calls before, occurrence ∈ made.emitted := by
  induction workflow generalizing before with
  | done outcome => exact .inl member
  | step name config codec body next induction =>
      let made : MadeCall V := ⟨before, .step ⟨name, config, codec, body⟩⟩
      have occurred := made.occurrences_after
      cases stepped : before.step name config codec body with
      | mk reply after =>
          have same : made.result = (reply.map some, after) := MadeCall.result_of_step stepped
          rw [MadeCall.after, same] at occurred
          have here : occurrence ∈ after.occurrences → occurrence ∈ before.occurrences ∨
              ∃ made ∈ (Workflow.step name config codec body next).calls before,
                occurrence ∈ made.emitted := by
            rw [occurred, List.mem_append]
            rintro (earlier | emitted)
            · exact .inl earlier
            · exact .inr ⟨made, by simp [calls, made], emitted⟩
          simp only [run, stepped] at member
          cases reply with
          | crashed => exact here member
          | returned outcome =>
              rcases induction outcome member with after | ⟨later, isCall, emitted⟩
              · exact here after
              · refine .inr ⟨later, ?_, emitted⟩
                simp only [calls, stepped]
                exact List.mem_cons_of_mem _ isCall
  | wait name duration next induction =>
      let made : MadeCall V := ⟨before, .wait ⟨name, duration⟩⟩
      have occurred := made.occurrences_after
      cases waited : before.wait name duration with
      | mk outcome after =>
          have sameAfter : made.after = after := by
            simp only [made, MadeCall.after, MadeCall.result, waited]
          rw [sameAfter] at occurred
          simp only [run, waited] at member
          rcases induction outcome member with earlier | ⟨later, isCall, emitted⟩
          · rw [occurred, List.mem_append] at earlier
            exact earlier.imp id fun emitted => ⟨made, by simp [calls, made], emitted⟩
          · refine .inr ⟨later, ?_, emitted⟩
            simp only [calls, waited]
            exact List.mem_cons_of_mem _ isCall
  | log level message next induction =>
      obtain ⟨chatter, logs, extension, _⟩ := Invocation.logCall_course before level message
      rcases induction member with after | call
      · rw [extension.occurrences, List.mem_append] at after
        rcases after with earlier | talk
        · exact .inl earlier
        · exact absurd stirs (Quiet.still ⟨logs.records, logs.bodies⟩ talk)
      · exact .inr call
  | observe next induction =>
      rcases induction before.observation member with after | call
      · rcases List.mem_append.mp after with earlier | seen
        · exact .inl earlier
        · exact absurd stirs (Quiet.still (Invocation.emit_quiet before _ rfl rfl) seen)
      · exact .inr call
  | advance duration next induction => exact induction member

/-- Whatever a visit records or runs comes from one of its calls. -/
theorem Visit.stirred_by_call {visit : Visit V O} {executionId : String} {store : Store}
    {occurrence : Occurrence V} (stirs : occurrence.effect.Stirs)
    (member : occurrence ∈ (visit.answer executionId store).occurrences) :
    ∃ made ∈ visit.calls executionId store, occurrence ∈ made.emitted := by
  rcases visit.answer_cases executionId store with
    ⟨error, after, failed, answered⟩ |
      ⟨log, after, ending, final, closing, loaded, ran, closingQuiet, occurrences, _⟩
  · rw [answered] at member
    cases member
  · rw [occurrences] at member
    rcases List.mem_append.mp member with passed | closed
    · have inRun : occurrence ∈
          (visit.workflow.run (visit.begun executionId log after)).2.occurrences := by
        rw [ran]
        exact passed
      rcases Workflow.stirred_by_call stirs inRun with begun | call
      · exact absurd stirs ((visit.begun_quiet executionId log after).still begun)
      · simp only [Visit.calls, loaded]
        exact call
    · exact absurd stirs (closingQuiet.still closed)

theorem Workflow.run_continues (workflow : Workflow V O) (before : Invocation V) :
    ∃ rest, (workflow.run before).2.occurrences = before.occurrences ++ rest := by
  have kept : Invocation.Preserved (fun _ : StepCall V => True)
      (fun invocation => ∃ rest, invocation.occurrences = before.occurrences ++ rest)
      (fun invocation => ∃ rest, invocation.occurrences = before.occurrences ++ rest) := by
    have extend : ∀ {middle after : Invocation V} {emitted : List (Occurrence V)},
        Invocation.Extends middle after emitted →
        (∃ rest, middle.occurrences = before.occurrences ++ rest) →
        ∃ rest, after.occurrences = before.occurrences ++ rest := by
      rintro middle after emitted extension ⟨rest, occurred⟩
      exact ⟨rest ++ emitted, by rw [extension.occurrences, occurred, List.append_assoc]⟩
    refine ⟨id, ?_, ?_, ?_⟩
    · intro before after emitted extension _ _ continues
      exact extend extension continues
    · intro before after call reply middle _ _ _ called continues
      have continued := extend called.extension continues
      exact ⟨continued, fun _ => continued⟩
    · intro before after call outcome middle _ _ called continues
      exact extend called.extension continues
  exact kept.run workflow.everyStep_true ⟨[], (List.append_nil _).symm⟩

/-- What a call of a pass emits is there at the end of the pass. -/
theorem Workflow.emitted_in_run {workflow : Workflow V O} {before : Invocation V}
    {made : MadeCall V} (member : made ∈ workflow.calls before) {occurrence : Occurrence V}
    (emitted : occurrence ∈ made.emitted) :
    occurrence ∈ (workflow.run before).2.occurrences := by
  have after : occurrence ∈ made.after.occurrences := by
    rw [made.occurrences_after]
    exact List.mem_append_right _ emitted
  induction workflow generalizing before with
  | done outcome => cases member
  | step name config codec body next induction =>
      cases stepped : before.step name config codec body with
      | mk reply finished =>
          simp only [calls, run, stepped, List.mem_cons] at member ⊢
          cases reply with
          | crashed =>
              simp only [List.not_mem_nil, or_false] at member
              subst member
              simpa only [MadeCall.after, MadeCall.result, stepped] using after
          | returned outcome =>
              rcases member with rfl | later
              · obtain ⟨rest, occurred⟩ := (next outcome).run_continues finished
                simp only [MadeCall.after, MadeCall.result, stepped] at after
                simp only [occurred]
                exact List.mem_append_left _ after
              · exact induction outcome later
  | wait name duration next induction =>
      cases waited : before.wait name duration with
      | mk outcome finished =>
          simp only [calls, run, waited, List.mem_cons] at member ⊢
          rcases member with rfl | later
          · obtain ⟨rest, occurred⟩ := (next outcome).run_continues finished
            simp only [MadeCall.after, MadeCall.result, waited] at after
            rw [occurred]
            exact List.mem_append_left _ after
          · exact induction outcome later
  | log level message next induction => exact induction member
  | observe next induction => exact induction before.observation member
  | advance duration next induction => exact induction member

theorem Visit.emitted_in_answer {visit : Visit V O} {executionId : String} {store : Store}
    {made : MadeCall V} (member : made ∈ visit.calls executionId store)
    {occurrence : Occurrence V} (emitted : occurrence ∈ made.emitted) :
    occurrence ∈ (visit.answer executionId store).occurrences := by
  obtain ⟨log, after, loaded, inPass⟩ := Visit.mem_calls member
  have happened := Workflow.emitted_in_run inPass emitted
  obtain ⟨ending, ended, closing, ran, _, occurrences, _⟩ := visit.answer_of_loaded loaded
  rw [ran] at happened
  rw [occurrences]
  exact List.mem_append_left _ happened

/-- After a call that halted its invocation a visit records and runs nothing more. -/
theorem Visit.quiet_after_halt {visit : Visit V O} {executionId : String} {store : Store}
    {made : MadeCall V} (member : made ∈ visit.calls executionId store)
    (returns : made.reply ≠ .crashed) (halts : made.after.halt ≠ none) :
    ∃ rest, Quiet rest ∧
      (visit.answer executionId store).occurrences = made.after.occurrences ++ rest := by
  let stopped : Invocation V → Prop := fun invocation => invocation.halt ≠ none ∧
    ∃ rest, Quiet rest ∧ invocation.occurrences = made.after.occurrences ++ rest
  have kept : Invocation.Preserved (fun _ : StepCall V => True) stopped stopped := by
    refine ⟨id, ?_, ?_, ?_⟩
    · rintro before after emitted extension isQuiet place ⟨halted, rest, restQuiet, occurred⟩
      refine ⟨by rwa [place.halt], rest ++ emitted, restQuiet.append isQuiet, ?_⟩
      rw [extension.occurrences, occurred, List.append_assoc]
    · rintro before after call reply middle _ free _ _ ⟨halted, _⟩
      exact absurd free halted
    · rintro before after call outcome middle free _ _ ⟨halted, _⟩
      exact absurd free halted
  obtain ⟨ended, closing, ⟨_, rest, restQuiet, occurred⟩, closingQuiet, occurrences⟩ :=
    Visit.answer_after kept visit.workflow.everyStep_true member returns
      ⟨halts, [], ⟨rfl, rfl⟩, (List.append_nil _).symm⟩
  refine ⟨rest ++ closing, restQuiet.append closingQuiet, ?_⟩
  rw [occurrences, occurred, List.append_assoc]

end Durable

import Durable.Proofs.WaitCourse

/-!
# Traces

A trace lists occurrences in order.  A property of every occurrence together with
what came before it is checked along the trace, piece by piece.
-/

namespace Durable

variable {V : Type}

theorem append_eq_append_cons {α : Type} {earlier later front back : List α} {item : α}
    (split : earlier ++ later = front ++ item :: back) :
    (∃ part, earlier = front ++ item :: part ∧ back = part ++ later) ∨
      ∃ part, front = earlier ++ part ∧ later = part ++ item :: back := by
  rcases List.append_eq_append_iff.mp split with ⟨part, rfl, laterEq⟩ | ⟨part, rfl, backEq⟩
  · exact .inr ⟨part, rfl, laterEq⟩
  · cases part with
    | nil => exact .inr ⟨[], by simp, by simpa using backEq.symm⟩
    | cons head part =>
        obtain ⟨rfl, rfl⟩ := List.cons.inj backEq
        exact .inl ⟨part, rfl, rfl⟩

namespace Effect

/-- The ordinal of the operation whose body begins. -/
def bodyOrdinal? : Effect V → Option Nat
  | .bodyBegun ordinal _ _ _ => some ordinal
  | _ => none

/-- The ordinal and the attempt of a body that begins. -/
def begunAttempt? : Effect V → Option (Nat × Nat)
  | .bodyBegun ordinal _ context _ => some (ordinal, context.attempt)
  | _ => none

/-- The ordinal and the attempt of a body that begins under at-most-once
semantics. -/
def guardedBody? : Effect V → Option (Nat × Nat)
  | .bodyBegun ordinal .atMostOnce context _ => some (ordinal, context.attempt)
  | _ => none

theorem bodyOrdinal?_of_not_isBody {effect : Effect V} (idle : effect.isBody = false) :
    effect.bodyOrdinal? = none := by
  cases effect <;> first | rfl | simp [isBody] at idle

theorem begunAttempt?_of_not_isBody {effect : Effect V} (idle : effect.isBody = false) :
    effect.begunAttempt? = none := by
  cases effect <;> first | rfl | simp [isBody] at idle

theorem guardedBody?_of_not_isBody {effect : Effect V} (idle : effect.isBody = false) :
    effect.guardedBody? = none := by
  cases effect <;> first | rfl | simp [isBody] at idle

end Effect

namespace Occurrence

/-- The bodies that were begun under at-most-once semantics, each with its ordinal
and attempt. -/
def guardedBodies (trace : List (Occurrence V)) : List (Nat × Nat) :=
  trace.filterMap fun occurrence => occurrence.effect.guardedBody?

@[simp] theorem guardedBodies_nil : guardedBodies ([] : List (Occurrence V)) = [] :=
  rfl

@[simp] theorem guardedBodies_append (earlier later : List (Occurrence V)) :
    guardedBodies (earlier ++ later) = guardedBodies earlier ++ guardedBodies later := by
  simp [guardedBodies]

@[simp] theorem guardedBodies_cons (occurrence : Occurrence V) (rest : List (Occurrence V)) :
    guardedBodies (occurrence :: rest) =
      occurrence.effect.guardedBody?.toList ++ guardedBodies rest := by
  cases guarded : occurrence.effect.guardedBody? <;> simp [guardedBodies, guarded]

theorem guardedBodies_of_bodies {occurrences : List (Occurrence V)}
    (idle : bodies occurrences = []) : guardedBodies occurrences = [] := by
  apply List.filterMap_eq_nil_iff.mpr
  intro occurrence member
  have notBody := List.filter_eq_nil_iff.mp idle occurrence member
  exact Effect.guardedBody?_of_not_isBody (by simpa using notBody)

/-- The ordinals of the operations whose bodies were begun, in order. -/
def bodyOrdinals (trace : List (Occurrence V)) : List Nat :=
  trace.filterMap fun occurrence => occurrence.effect.bodyOrdinal?

@[simp] theorem bodyOrdinals_nil : bodyOrdinals ([] : List (Occurrence V)) = [] :=
  rfl

@[simp] theorem bodyOrdinals_append (earlier later : List (Occurrence V)) :
    bodyOrdinals (earlier ++ later) = bodyOrdinals earlier ++ bodyOrdinals later := by
  simp [bodyOrdinals]

@[simp] theorem bodyOrdinals_cons (occurrence : Occurrence V) (rest : List (Occurrence V)) :
    bodyOrdinals (occurrence :: rest) =
      occurrence.effect.bodyOrdinal?.toList ++ bodyOrdinals rest := by
  cases begun : occurrence.effect.bodyOrdinal? <;> simp [bodyOrdinals, begun]

theorem bodyOrdinals_of_bodies {occurrences : List (Occurrence V)}
    (idle : bodies occurrences = []) : bodyOrdinals occurrences = [] := by
  apply List.filterMap_eq_nil_iff.mpr
  intro occurrence member
  have notBody := List.filter_eq_nil_iff.mp idle occurrence member
  exact Effect.bodyOrdinal?_of_not_isBody (by simpa using notBody)

/-- The property holds of every occurrence together with what came before it. -/
def Each (property : List (Occurrence V) → Occurrence V → Prop)
    (trace : List (Occurrence V)) : Prop :=
  ∀ before occurrence after, trace = before ++ occurrence :: after →
    property before occurrence

namespace Each

variable {property : List (Occurrence V) → Occurrence V → Prop}

theorem nil : Each property [] := by
  intro before occurrence after split
  simp at split

theorem append {earlier later : List (Occurrence V)} :
    Each property (earlier ++ later) ↔
      Each property earlier ∧
        Each (fun before => property (earlier ++ before)) later := by
  constructor
  · intro each
    constructor
    · intro before occurrence after split
      exact each before occurrence (after ++ later) (by simp [split])
    · intro before occurrence after split
      exact each (earlier ++ before) occurrence after (by simp [split])
  · rintro ⟨first, second⟩ before occurrence after split
    rcases append_eq_append_cons split with ⟨part, rfl, _⟩ | ⟨part, rfl, rfl⟩
    · exact first before occurrence part rfl
    · exact second part occurrence after rfl

theorem cons {occurrence : Occurrence V} {rest : List (Occurrence V)} :
    Each property (occurrence :: rest) ↔
      property [] occurrence ∧ Each (fun before => property (occurrence :: before)) rest := by
  rw [← List.singleton_append, append]
  constructor
  · rintro ⟨first, second⟩
    exact ⟨first [] occurrence [] rfl, second⟩
  · rintro ⟨first, second⟩
    refine ⟨?_, second⟩
    intro before other after split
    cases before with
    | nil =>
        simp only [List.nil_append, List.cons.injEq] at split
        rw [← split.1]
        exact first
    | cons head before => simp at split

theorem of_bodies {occurrences : List (Occurrence V)} (idle : bodies occurrences = [])
    (asksNothing : ∀ before occurrence, occurrence.effect.isBody = false →
      property before occurrence) :
    Each property occurrences := by
  intro before occurrence after split
  apply asksNothing
  have notBody := List.filter_eq_nil_iff.mp idle occurrence (by simp [split])
  simpa using notBody

theorem imp {weaker : List (Occurrence V) → Occurrence V → Prop}
    {trace : List (Occurrence V)} (each : Each property trace)
    (implies : ∀ before occurrence, property before occurrence → weaker before occurrence) :
    Each weaker trace := by
  intro before occurrence after split
  exact implies before occurrence (each before occurrence after split)

end Each

end Occurrence

end Durable

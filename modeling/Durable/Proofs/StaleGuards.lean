import Durable.Proofs.LogScopes

/-!
# Stale guards

The scope of a guard is closed with an outer scope when the outer guard is dropped first.  The
guard that is left is stale: it cuts the stack at a depth at which scopes may have been entered
since.  It never closes a scope that is older than its own, and it closes none at all as long
as no scope is entered while a stale guard is left.
-/

namespace Durable

open LoggerUse

namespace LoggerSession

/-- Scopes are entered only while the scopes of all guards that are left are open. -/
def EntersFresh (session : LoggerSession) (uses : List LoggerUse) : Prop :=
  ∀ moment ∈ moments [] uses, moment.2.scope?.isSome = true →
    ∀ guard ∈ (session.after moment.1).guards, (session.after moment.1).Holds guard

instance (session : LoggerSession) (uses : List LoggerUse) :
    Decidable (session.EntersFresh uses) :=
  inferInstanceAs (Decidable (∀ moment ∈ moments [] uses, _))

/-- A stale guard knows a depth that the stack does not exceed. -/
def Harmless (session : LoggerSession) : Prop :=
  ∀ guard ∈ session.guards, ¬session.Holds guard →
    session.logger.scopes.length ≤ guard.depth

theorem without_scopes_eq_iff (session : LoggerSession) (guard : ScopeGuard) :
    (session.without guard).logger.scopes = session.logger.scopes ↔
      session.logger.scopes.length ≤ guard.depth := by
  constructor
  · intro same
    have length := congrArg List.length same
    rw [without_scopes, List.length_take] at length
    omega
  · intro short
    exact List.take_of_length_le short

namespace Tidy

variable {session : LoggerSession} (tidy : session.Tidy)

include tidy

theorem split_of_holds {guard : ScopeGuard} (live : guard ∈ session.guards)
    (holds : session.Holds guard) : ∃ own inner,
      session.logger.scopes = (session.without guard).logger.scopes ++ own :: inner ∧
        own.serial = guard.serial := by
  obtain ⟨own, found, same⟩ := tidy.found_of_holds live holds
  obtain ⟨inside, isOwn⟩ := List.getElem?_eq_some_iff.mp found
  refine ⟨own, session.logger.scopes.drop (guard.depth + 1), ?_, same⟩
  calc session.logger.scopes
    _ = session.logger.scopes.take guard.depth ++ session.logger.scopes.drop guard.depth :=
        (List.take_append_drop _ _).symm
    _ = session.logger.scopes.take guard.depth ++
          own :: session.logger.scopes.drop (guard.depth + 1) := by
        rw [List.drop_eq_getElem_cons inside, isOwn]

theorem current?_of_holds {guard : ScopeGuard} (holds : session.Holds guard) :
    ∃ scope ∈ session.logger.scopes, session.logger.current? = some scope.scope ∧
      guard.serial ≤ scope.serial := by
  obtain ⟨own, member, same⟩ := holds
  cases last : session.logger.scopes.getLast? with
  | none =>
      rw [List.getLast?_eq_none_iff.mp last] at member
      cases member
  | some innermost =>
      refine ⟨innermost, List.mem_of_getLast? last, by rw [Logger.current?, last]; rfl, ?_⟩
      obtain ⟨outer, scopes⟩ := List.getLast?_eq_some_iff.mp last
      have ascending := tidy.ascending
      rw [scopes, List.pairwise_append] at ascending
      rw [scopes, List.mem_append, List.mem_singleton] at member
      rw [← same]
      rcases member with below | itself
      · exact Nat.le_of_lt (ascending.2.2 own below innermost (List.mem_singleton_self _))
      · exact Nat.le_of_eq (congrArg OpenScope.serial itself)

/-- A scope is closed only by a guard that was entered together with it or before it. -/
theorem closed_by_earlier {use : LoggerUse} {scope : OpenScope}
    (was : scope ∈ session.logger.scopes)
    (closed : scope ∉ (session.perform use).logger.scopes) :
    ∃ guard ∈ session.guards, use = .drop guard.serial ∧ guard.serial ≤ scope.serial := by
  cases use with
  | enter context => exact absurd (List.mem_append_left _ was) closed
  | replay flag => exact absurd was closed
  | log suppress level message => exact absurd was closed
  | drop serial =>
      rcases session.perform_drop_cases serial with same | ⟨guard, live, rfl, dropped⟩
      · rw [same] at closed
        exact absurd was closed
      · rw [dropped] at closed
        refine ⟨guard, live, rfl, ?_⟩
        obtain ⟨index, found⟩ := List.mem_iff_getElem?.mp was
        have deep : guard.depth ≤ index := by
          by_contra above
          apply closed
          apply List.mem_of_getElem? (i := index)
          exact (List.getElem?_take_of_lt (Nat.lt_of_not_le above)).trans found
        exact tidy.later guard live index scope deep found

omit tidy in
theorem harmless_enter {context : OperationScope}
    (fresh : ∀ guard ∈ session.guards, session.Holds guard) :
    (session.perform (.enter context)).Harmless := by
  intro guard live stale
  exfalso
  apply stale
  rcases List.mem_append.mp live with before | new
  · obtain ⟨scope, member, same⟩ := fresh guard before
    exact ⟨scope, List.mem_append_left _ member, same⟩
  · obtain rfl := List.mem_singleton.mp new
    exact ⟨⟨session.logger.entered, context⟩,
      List.mem_append_right _ (List.mem_singleton_self _), rfl⟩

theorem harmless_without (harmless : session.Harmless) (guard : ScopeGuard) :
    (session.without guard).Harmless := by
  intro other member stale
  have live : other ∈ session.guards := (List.mem_filter.mp member).1
  rw [without_scopes, List.length_take]
  by_cases held : session.Holds other
  · obtain ⟨scope, found, same⟩ := tidy.found_of_holds live held
    have deep : guard.depth ≤ other.depth := by
      by_contra above
      apply stale
      refine ⟨scope, List.mem_of_getElem? (i := other.depth) ?_, same⟩
      exact (List.getElem?_take_of_lt (Nat.lt_of_not_le above)).trans found
    exact Nat.le_trans (Nat.min_le_left _ _) deep
  · exact Nat.le_trans (Nat.min_le_right _ _) (harmless other live held)

theorem harmless_after {uses : List LoggerUse} (harmless : session.Harmless)
    (entersFresh : session.EntersFresh uses) : (session.after uses).Harmless := by
  induction uses using List.reverseRecOn with
  | nil => exact harmless
  | append_singleton uses use induction =>
      rw [EntersFresh, moments_concat, List.forall_mem_append] at entersFresh
      have before : (session.after uses).Harmless := induction entersFresh.1
      have last := entersFresh.2 (uses, use) (List.mem_singleton_self _)
      rw [after_concat]
      cases use with
      | enter context => exact harmless_enter (last rfl)
      | replay flag => exact before
      | log suppress level message => exact before
      | drop serial =>
          rcases (session.after uses).perform_drop_cases serial with
            same | ⟨guard, live, rfl, dropped⟩
          · rwa [same]
          · rw [dropped]
            exact (tidy.after uses).harmless_without before guard

end Tidy

theorem begin_harmless (executionId : String) (replaying : Bool) :
    (begin executionId replaying).Harmless := by
  intro guard live
  cases live

/-- Guards that are dropped in reverse order are never stale. -/
theorem LastFirst.entersFresh {session : LoggerSession} {uses : List LoggerUse}
    (lastFirst : session.LastFirst uses) (nested : session.Nested) (tidy : session.Tidy) :
    session.EntersFresh uses := by
  induction uses using List.reverseRecOn with
  | nil => simp [EntersFresh, moments]
  | append_singleton uses use induction =>
      rw [LastFirst, moments_concat, List.forall_mem_append] at lastFirst
      rw [EntersFresh, moments_concat, List.forall_mem_append]
      refine ⟨induction lastFirst.1, ?_⟩
      have now : (session.after uses).Nested := LastFirst.nested lastFirst.1 nested tidy
      rw [List.forall_mem_singleton]
      intro _ guard live
      have open' : guard.serial ∈ (session.after uses).logger.scopes.map OpenScope.serial := by
        rw [now]
        exact List.mem_map_of_mem live
      exact List.mem_map.mp open'

end LoggerSession

open LoggerSession in
/-- A scope is closed only by its own guard or by one that was entered before it.  A guard whose
scope is open closes just this scope and those inside of it, and until then calls belong to the
scope or to one inside of it.  A stale guard closes nothing just if the stack is no deeper than
it was below the guard's scope.  That is so as long as no scope is entered while a stale guard is
left, and therefore always if guards are dropped in reverse order; then a scope is closed only by
a guard whose own scope is open. -/
theorem scopes_are_closed_by_earlier_guards (executionId : String) (replaying : Bool)
    (uses : List LoggerUse) :
    let start := LoggerSession.begin executionId replaying
    let session := start.after uses
    (∀ use, ∀ scope ∈ session.logger.scopes, scope ∉ (session.perform use).logger.scopes →
      ∃ guard ∈ session.guards, use = .drop guard.serial ∧ guard.serial ≤ scope.serial ∧
        (start.EntersFresh uses → session.Holds guard)) ∧
    (∀ guard ∈ session.guards,
      let left := session.perform (.drop guard.serial)
      (session.Holds guard →
        (∃ own inner, session.logger.scopes = left.logger.scopes ++ own :: inner ∧
          own.serial = guard.serial) ∧
        ∃ scope ∈ session.logger.scopes, session.logger.current? = some scope.scope ∧
          guard.serial ≤ scope.serial) ∧
      (¬session.Holds guard →
        (left.logger.scopes = session.logger.scopes ↔
          session.logger.scopes.length ≤ guard.depth) ∧
        (start.EntersFresh uses → left.logger.scopes = session.logger.scopes))) ∧
    (start.LastFirst uses → start.EntersFresh uses) := by
  intro start session
  have begun : start.Tidy := begin_tidy executionId replaying
  have tidy : session.Tidy := begun.after uses
  have harmless : start.EntersFresh uses → session.Harmless :=
    begun.harmless_after (begin_harmless executionId replaying)
  have unchanged : ∀ guard ∈ session.guards, ¬session.Holds guard → start.EntersFresh uses →
      (session.without guard).logger.scopes = session.logger.scopes := by
    intro guard live stale entersFresh
    exact (session.without_scopes_eq_iff guard).mpr (harmless entersFresh guard live stale)
  refine ⟨?_, ?_, fun lastFirst => lastFirst.entersFresh (begin_nested _ _) begun⟩
  · intro use scope was closed
    obtain ⟨guard, live, rfl, earlier⟩ := tidy.closed_by_earlier was closed
    refine ⟨guard, live, rfl, earlier, fun entersFresh => ?_⟩
    by_contra stale
    rw [tidy.perform_drop live, unchanged guard live stale entersFresh] at closed
    exact closed was
  · intro guard live
    dsimp only
    rw [tidy.perform_drop live]
    refine ⟨fun holds => ⟨tidy.split_of_holds live holds, tidy.current?_of_holds holds⟩, ?_⟩
    intro stale
    exact ⟨session.without_scopes_eq_iff guard, unchanged guard live stale⟩

/-- The guard of an inner scope that was closed with the outer one closes nothing more. -/
theorem inner_guard_is_dropped_late :
    let outer : OperationScope := ⟨"op-0000", "outer", 1⟩
    let inner : OperationScope := ⟨"op-0001", "inner", 1⟩
    let start := LoggerSession.begin "run" false
    let uses : List LoggerUse := [.enter outer, .enter inner, .drop 0]
    let session := start.after uses
    start.EntersFresh uses ∧ ⟨1, 1⟩ ∈ session.guards ∧ ¬session.Holds ⟨1, 1⟩ ∧
      (session.perform (.drop 1)).logger.scopes = session.logger.scopes := by
  intro outer inner start uses session
  have entersFresh : start.EntersFresh uses := by decide
  have live : (⟨1, 1⟩ : ScopeGuard) ∈ session.guards := by decide
  have stale : ¬session.Holds ⟨1, 1⟩ := by decide
  obtain ⟨-, guards, -⟩ := scopes_are_closed_by_earlier_guards "run" false uses
  obtain ⟨-, late⟩ := guards ⟨1, 1⟩ live
  exact ⟨entersFresh, live, stale, (late stale).2 entersFresh⟩

/-- The guard of a scope that is long closed closes the innermost of two scopes that were entered
since, whose own guard is left: calls made inside of it belong to the outer one. -/
theorem stale_guard_closes_a_later_scope :
    let scope (name : String) : OperationScope := ⟨"op-0000", name, 1⟩
    let session := (LoggerSession.begin "run" false).after
      [.enter (scope "a"), .enter (scope "b"), .drop 0, .enter (scope "c"), .enter (scope "d")]
    let left := session.perform (.drop 1)
    ⟨1, 1⟩ ∈ session.guards ∧ ¬session.Holds ⟨1, 1⟩ ∧
      session.logger.current? = some (scope "d") ∧ ⟨3, 1⟩ ∈ left.guards ∧
      ¬left.Holds ⟨3, 1⟩ ∧ left.logger.current? = some (scope "c") := by
  decide

end Durable

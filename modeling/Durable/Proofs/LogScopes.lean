import Durable.Logger
import Mathlib.Data.List.Induction
import Mathlib.Data.List.Nodup

/-!
# Log scopes

A logger and its clones are used in any order: scopes are entered, guards are dropped, the
replay flag changes and messages are logged.  A guard knows only how deep the stack was below
its scope.  Still every open scope belongs to a guard that was not dropped, at the depth that
the guard knows, so that no scope is left when all guards are gone.
-/

namespace Durable

/-- A use of a logger or of one of its clones.  They share the open scopes, the replay flag and
the receiver of what is forwarded; each suppresses calls during replay or not. -/
inductive LoggerUse where
  | enter (scope : OperationScope)
  | drop (serial : Nat)
  | replay (flag : Bool)
  | log (suppress : Bool) (level : LogLevel) (message : String)
  deriving DecidableEq, Repr

namespace LoggerUse

def scope? : LoggerUse → Option OperationScope
  | .enter scope => some scope
  | _ => none

def flag? : LoggerUse → Option Bool
  | .replay flag => some flag
  | _ => none

/-- The scopes that are entered, in order; the serial number of a scope is its place here. -/
def entered (uses : List LoggerUse) : List OperationScope :=
  uses.filterMap scope?

/-- The replay flag after some uses: the one that was set last. -/
def flagAfter (initial : Bool) (uses : List LoggerUse) : Bool :=
  (uses.filterMap flag?).getLast?.getD initial

/-- Every use with the uses before it, which follow some earlier ones. -/
def moments (earlier : List LoggerUse) : List LoggerUse → List (List LoggerUse × LoggerUse)
  | [] => []
  | use :: later => (earlier, use) :: moments (earlier ++ [use]) later

theorem entered_concat (uses : List LoggerUse) (use : LoggerUse) :
    entered (uses ++ [use]) = entered uses ++ use.scope?.toList := by
  cases use <;> simp [entered, scope?]

theorem flagAfter_concat (initial : Bool) (uses : List LoggerUse) (use : LoggerUse) :
    flagAfter initial (uses ++ [use]) = use.flag?.getD (flagAfter initial uses) := by
  cases use <;> simp [flagAfter, flag?]

theorem moments_concat (earlier uses : List LoggerUse) (use : LoggerUse) :
    moments earlier (uses ++ [use]) = moments earlier uses ++ [(earlier ++ uses, use)] := by
  induction uses generalizing earlier with
  | nil => simp [moments]
  | cons first uses induction => simp [moments, induction]

end LoggerUse

/-- A logger in use: the guards that were not dropped, in order of entry, and the entries that
were forwarded. -/
structure LoggerSession where
  logger : Logger
  guards : List ScopeGuard
  entries : List LogEntry
  deriving DecidableEq, Repr

namespace LoggerSession

/-- A new logger of an execution. -/
def begin (executionId : String) (replaying : Bool) : LoggerSession :=
  ⟨.ofExecution executionId true replaying, [], []⟩

/-- The session without one of its guards. -/
def without (session : LoggerSession) (guard : ScopeGuard) : LoggerSession :=
  { session with
    logger := session.logger.exit guard
    guards := session.guards.filter (·.serial != guard.serial) }

@[simp] theorem without_scopes (session : LoggerSession) (guard : ScopeGuard) :
    (session.without guard).logger.scopes = session.logger.scopes.take guard.depth := rfl

@[simp] theorem without_guards (session : LoggerSession) (guard : ScopeGuard) :
    (session.without guard).guards =
      session.guards.filter (·.serial != guard.serial) := rfl

/-- What a log call forwards, which is made with or without suppression. -/
def heard? (session : LoggerSession) : LoggerUse → Option LogEntry
  | .log suppress level message => { session.logger with suppress := suppress }.log? level message
  | _ => none

/-- What a use does.  A guard is dropped once at most. -/
def perform (session : LoggerSession) (use : LoggerUse) : LoggerSession :=
  match use with
  | .enter scope =>
    let (logger, guard) := session.logger.enter scope
    { session with logger := logger, guards := session.guards ++ [guard] }
  | .drop serial =>
    match session.guards.find? (·.serial == serial) with
    | none => session
    | some guard => session.without guard
  | .replay flag => { session with logger := session.logger.withReplaying flag }
  | .log _ _ _ => { session with entries := session.entries ++ (session.heard? use).toList }

def after (session : LoggerSession) (uses : List LoggerUse) : LoggerSession :=
  uses.foldl perform session

@[simp] theorem after_concat (session : LoggerSession) (uses : List LoggerUse)
    (use : LoggerUse) : session.after (uses ++ [use]) = (session.after uses).perform use := by
  simp [after]

/-- The scope of the guard is open. -/
def Holds (session : LoggerSession) (guard : ScopeGuard) : Prop :=
  ∃ scope ∈ session.logger.scopes, scope.serial = guard.serial

instance (session : LoggerSession) (guard : ScopeGuard) : Decidable (session.Holds guard) :=
  inferInstanceAs (Decidable (∃ scope ∈ session.logger.scopes, _))

section Uses

variable (session : LoggerSession)

theorem perform_drop_cases (serial : Nat) :
    session.perform (.drop serial) = session ∨
      ∃ guard ∈ session.guards, guard.serial = serial ∧
        session.perform (.drop serial) = session.without guard := by
  cases found : session.guards.find? (·.serial == serial) with
  | none =>
      left
      rw [perform, found]
  | some guard =>
      right
      refine ⟨guard, List.mem_of_find?_eq_some found, ?_, ?_⟩
      · simpa using List.find?_some found
      · rw [perform, found]

theorem perform_drop_of {P : LoggerSession → Prop} (serial : Nat) (same : P session)
    (closed : ∀ guard, P (session.without guard)) : P (session.perform (.drop serial)) := by
  rcases session.perform_drop_cases serial with unchanged | ⟨guard, _, _, dropped⟩
  · rw [unchanged]
    exact same
  · rw [dropped]
    exact closed guard

theorem perform_executionId (use : LoggerUse) :
    (session.perform use).logger.executionId = session.logger.executionId := by
  cases use with
  | drop serial =>
      apply session.perform_drop_of
        (P := fun after => after.logger.executionId = session.logger.executionId)
      · rfl
      · exact fun _ => rfl
  | enter scope => rfl
  | replay flag => rfl
  | log suppress level message => rfl

theorem perform_replaying (use : LoggerUse) :
    (session.perform use).logger.replaying = use.flag?.getD session.logger.replaying := by
  cases use with
  | drop serial =>
      apply session.perform_drop_of
        (P := fun after => after.logger.replaying = session.logger.replaying)
      · rfl
      · exact fun _ => rfl
  | enter scope => rfl
  | replay flag => rfl
  | log suppress level message => rfl

theorem perform_entered (use : LoggerUse) :
    (session.perform use).logger.entered =
      session.logger.entered + use.scope?.toList.length := by
  cases use with
  | drop serial =>
      apply session.perform_drop_of
        (P := fun after => after.logger.entered = session.logger.entered)
      · rfl
      · exact fun _ => rfl
  | enter scope => rfl
  | replay flag => rfl
  | log suppress level message => rfl

theorem perform_entries (use : LoggerUse) :
    (session.perform use).entries = session.entries ++ (session.heard? use).toList := by
  cases use with
  | drop serial =>
      apply session.perform_drop_of (P := fun after => after.entries = session.entries ++ [])
      · exact (List.append_nil _).symm
      · exact fun _ => (List.append_nil _).symm
  | enter scope => exact (List.append_nil _).symm
  | replay flag => exact (List.append_nil _).symm
  | log suppress level message => rfl

theorem scopes_of_perform {use : LoggerUse} {index : Nat} {scope : OpenScope}
    (found : (session.perform use).logger.scopes[index]? = some scope) :
    session.logger.scopes[index]? = some scope ∨
      use.scope? = some scope.scope ∧ index = session.logger.scopes.length ∧
        scope.serial = session.logger.entered := by
  cases use with
  | enter context =>
      change (session.logger.scopes ++ [⟨session.logger.entered, context⟩])[index]? = _ at found
      rcases Nat.lt_or_ge index session.logger.scopes.length with below | above
      · left
        rwa [List.getElem?_append_left below] at found
      · right
        rw [List.getElem?_append_right above, List.getElem?_singleton] at found
        split at found
        · next top =>
            cases found
            exact ⟨rfl, by omega, rfl⟩
        · cases found
  | drop serial =>
      left
      rcases session.perform_drop_cases serial with same | ⟨guard, _, _, dropped⟩
      · rwa [same] at found
      · rw [dropped, without_scopes, List.getElem?_take] at found
        split at found
        · exact found
        · cases found
  | replay flag => exact .inl found
  | log suppress level message => exact .inl found

end Uses

/-- Open scopes and guards fit each other: an open scope belongs to a guard that was not dropped
and knows its depth, and from the depth of any guard on there are only scopes that were entered
together with the guard or after it. -/
structure Tidy (session : LoggerSession) : Prop where
  owned : ∀ index scope, session.logger.scopes[index]? = some scope →
    ⟨scope.serial, index⟩ ∈ session.guards
  ascending : session.logger.scopes.Pairwise fun outer inner => outer.serial < inner.serial
  ordered : session.guards.Pairwise fun first second => first.serial < second.serial
  begun : ∀ guard ∈ session.guards, guard.serial < session.logger.entered
  later : ∀ guard ∈ session.guards, ∀ index scope, guard.depth ≤ index →
    session.logger.scopes[index]? = some scope → guard.serial ≤ scope.serial

theorem begin_tidy (executionId : String) (replaying : Bool) :
    (begin executionId replaying).Tidy := by
  constructor <;> simp [begin, Logger.ofExecution]

namespace Tidy

variable {session : LoggerSession} (tidy : session.Tidy)

include tidy

theorem eq_of_serial {first second : ScopeGuard} (firstLive : first ∈ session.guards)
    (secondLive : second ∈ session.guards) (same : first.serial = second.serial) :
    first = second := by
  have distinct : (session.guards.map ScopeGuard.serial).Nodup :=
    List.pairwise_map.mpr (tidy.ordered.imp fun less => Nat.ne_of_lt less)
  exact List.inj_on_of_nodup_map distinct firstLive secondLive same

theorem found_of_holds {guard : ScopeGuard} (live : guard ∈ session.guards)
    (holds : session.Holds guard) :
    ∃ scope, session.logger.scopes[guard.depth]? = some scope ∧ scope.serial = guard.serial := by
  obtain ⟨scope, member, same⟩ := holds
  obtain ⟨index, found⟩ := List.mem_iff_getElem?.mp member
  have owner := tidy.owned index scope found
  obtain rfl : ⟨scope.serial, index⟩ = guard := tidy.eq_of_serial owner live same
  exact ⟨scope, found, rfl⟩

theorem perform_drop {guard : ScopeGuard} (live : guard ∈ session.guards) :
    session.perform (.drop guard.serial) = session.without guard := by
  rw [perform]
  cases found : session.guards.find? (·.serial == guard.serial) with
  | none =>
      have missing := List.find?_eq_none.mp found guard live
      simp at missing
  | some other =>
      have same : other.serial = guard.serial := by simpa using List.find?_some found
      rw [tidy.eq_of_serial (List.mem_of_find?_eq_some found) live same]

theorem serial_lt_entered {index : Nat} {scope : OpenScope}
    (found : session.logger.scopes[index]? = some scope) :
    scope.serial < session.logger.entered :=
  tidy.begun _ (tidy.owned index scope found)

theorem enter (context : OperationScope) : (session.perform (.enter context)).Tidy := by
  constructor
  · intro index scope found
    rcases session.scopes_of_perform found with before | ⟨_, top, new⟩
    · exact List.mem_append_left _ (tidy.owned index scope before)
    · rw [top, new]
      exact List.mem_append_right _ (List.mem_singleton_self _)
  · apply List.pairwise_append.mpr
    refine ⟨tidy.ascending, List.pairwise_singleton _ _, ?_⟩
    intro scope member last isLast
    obtain ⟨index, found⟩ := List.mem_iff_getElem?.mp member
    obtain rfl := List.mem_singleton.mp isLast
    exact tidy.serial_lt_entered found
  · apply List.pairwise_append.mpr
    refine ⟨tidy.ordered, List.pairwise_singleton _ _, ?_⟩
    intro guard live last isLast
    obtain rfl := List.mem_singleton.mp isLast
    exact tidy.begun guard live
  · intro guard live
    rcases List.mem_append.mp live with before | new
    · exact Nat.lt_succ_of_lt (tidy.begun guard before)
    · obtain rfl := List.mem_singleton.mp new
      exact Nat.lt_succ_self _
  · intro guard live index scope deep found
    rcases List.mem_append.mp live with before | new
    · rcases session.scopes_of_perform found with old | ⟨_, _, new⟩
      · exact tidy.later guard before index scope deep old
      · rw [new]
        exact Nat.le_of_lt (tidy.begun guard before)
    · obtain rfl := List.mem_singleton.mp new
      rcases session.scopes_of_perform found with old | ⟨_, _, new⟩
      · obtain ⟨inside, _⟩ := List.getElem?_eq_some_iff.mp old
        exact absurd inside (Nat.not_lt_of_le deep)
      · exact Nat.le_of_eq new.symm

theorem without {guard : ScopeGuard} (live : guard ∈ session.guards) :
    (session.without guard).Tidy := by
  -- What is open afterwards was open before, below the depth of the guard.
  have cut : ∀ index scope, (session.without guard).logger.scopes[index]? = some scope →
      index < guard.depth ∧ session.logger.scopes[index]? = some scope := by
    intro index scope found
    rw [without_scopes, List.getElem?_take] at found
    split at found
    · next below => exact ⟨below, found⟩
    · cases found
  constructor
  · intro index scope found
    obtain ⟨below, before⟩ := cut index scope found
    have owner := tidy.owned index scope before
    refine List.mem_filter.mpr ⟨owner, ?_⟩
    rw [bne_iff_ne]
    intro same
    have depth : index = guard.depth :=
      congrArg ScopeGuard.depth (tidy.eq_of_serial owner live same)
    exact Nat.ne_of_lt below depth
  · exact tidy.ascending.sublist (List.take_sublist _ _)
  · exact tidy.ordered.sublist List.filter_sublist
  · intro other member
    exact tidy.begun other (List.mem_filter.mp member).1
  · intro other member index scope deep found
    obtain ⟨_, before⟩ := cut index scope found
    exact tidy.later other (List.mem_filter.mp member).1 index scope deep before

theorem perform (use : LoggerUse) : (session.perform use).Tidy := by
  cases use with
  | enter scope => exact tidy.enter scope
  | drop serial =>
      rcases session.perform_drop_cases serial with same | ⟨guard, live, _, dropped⟩
      · rwa [same]
      · rw [dropped]
        exact tidy.without live
  | replay flag => exact ⟨tidy.owned, tidy.ascending, tidy.ordered, tidy.begun, tidy.later⟩
  | log suppress level message =>
      exact ⟨tidy.owned, tidy.ascending, tidy.ordered, tidy.begun, tidy.later⟩

theorem after (uses : List LoggerUse) : (session.after uses).Tidy := by
  induction uses using List.reverseRecOn with
  | nil => exact tidy
  | append_singleton uses use induction =>
      rw [after_concat]
      exact induction.perform use

theorem scopes_eq_nil (gone : session.guards = []) : session.logger.scopes = [] := by
  apply List.eq_nil_iff_forall_not_mem.mpr
  intro scope member
  obtain ⟨index, found⟩ := List.mem_iff_getElem?.mp member
  have owner := tidy.owned index scope found
  rw [gone] at owner
  cases owner

end Tidy

open LoggerUse

/-- What the rule of suppression makes of a log call at its moment: nothing while replayed calls
are suppressed and the flag is set, and else an entry with the innermost open scope. -/
def forwarded? (start : LoggerSession) : List LoggerUse × LoggerUse → Option LogEntry
  | (earlier, .log suppress level message) =>
    if suppress = true ∧ flagAfter start.logger.replaying earlier = true then none
    else
      some ⟨level, message, start.logger.executionId,
        (start.after earlier).logger.scopes.getLast?.map OpenScope.scope⟩
  | _ => none

/-- What can be told of a session from its uses. -/
structure Tells (start session : LoggerSession) (uses : List LoggerUse) : Prop where
  executionId : session.logger.executionId = start.logger.executionId
  replaying : session.logger.replaying = flagAfter start.logger.replaying uses
  count : session.logger.entered = (entered uses).length
  named : ∀ scope ∈ session.logger.scopes, (entered uses)[scope.serial]? = some scope.scope
  entries : session.entries = (moments [] uses).filterMap start.forwarded?

theorem begin_tells (executionId : String) (replaying : Bool) :
    (begin executionId replaying).Tells (begin executionId replaying) [] := by
  constructor <;> simp [begin, Logger.ofExecution, flagAfter, entered, moments]

namespace Tells

variable {start : LoggerSession} {uses : List LoggerUse}
  (tells : start.Tells (start.after uses) uses)

include tells

/-- The rule of suppression is followed by every log call. -/
theorem heard?_eq (use : LoggerUse) :
    (start.after uses).heard? use = start.forwarded? (uses, use) := by
  cases use with
  | log suppress level message =>
      simp [heard?, Logger.log?, Logger.isSilent, Logger.current?, forwarded?, tells.replaying,
        tells.executionId]
  | enter scope => rfl
  | drop serial => rfl
  | replay flag => rfl

theorem perform (use : LoggerUse) :
    start.Tells ((start.after uses).perform use) (uses ++ [use]) := by
  constructor
  · exact (perform_executionId _ use).trans tells.executionId
  · rw [perform_replaying, flagAfter_concat, tells.replaying]
  · rw [perform_entered, entered_concat, List.length_append, tells.count]
  · intro scope member
    obtain ⟨index, found⟩ := List.mem_iff_getElem?.mp member
    rw [entered_concat]
    rcases scopes_of_perform _ found with before | ⟨enters, _, new⟩
    · have named := tells.named scope (List.mem_of_getElem? before)
      obtain ⟨inside, _⟩ := List.getElem?_eq_some_iff.mp named
      rwa [List.getElem?_append_left inside]
    · rw [enters, new, tells.count]
      simp
  · rw [perform_entries, tells.heard?_eq, moments_concat, List.filterMap_append, tells.entries]
    cases forwarded : start.forwarded? (uses, use) <;> simp [forwarded]

end Tells

/-- The uses of a new logger tell what it holds and what it forwarded. -/
theorem after_tells (executionId : String) (replaying : Bool) (uses : List LoggerUse) :
    (begin executionId replaying).Tells ((begin executionId replaying).after uses) uses := by
  induction uses using List.reverseRecOn with
  | nil => exact begin_tells executionId replaying
  | append_singleton uses use induction =>
      rw [after_concat]
      exact induction.perform use

/-- A guard that is dropped is the last one of those that are left. -/
def LastFirst (session : LoggerSession) (uses : List LoggerUse) : Prop :=
  ∀ moment ∈ moments [] uses, ∀ guard ∈ (session.after moment.1).guards,
    moment.2 = .drop guard.serial → (session.after moment.1).guards.getLast? = some guard

instance (session : LoggerSession) (uses : List LoggerUse) : Decidable (session.LastFirst uses) :=
  inferInstanceAs (Decidable (∀ moment ∈ moments [] uses, _))

/-- Every guard that is left has its scope open, and there are no other open scopes. -/
def Nested (session : LoggerSession) : Prop :=
  session.logger.scopes.map OpenScope.serial = session.guards.map ScopeGuard.serial

theorem begin_nested (executionId : String) (replaying : Bool) :
    (begin executionId replaying).Nested :=
  rfl

/-- Dropping the last guard closes the innermost scope. -/
theorem Nested.without {session : LoggerSession} (nested : session.Nested) (tidy : session.Tidy)
    {guard : ScopeGuard} (last : session.guards.getLast? = some guard) :
    (session.without guard).Nested := by
  obtain ⟨front, guards⟩ := List.getLast?_eq_some_iff.mp last
  have live : guard ∈ session.guards := List.mem_of_getLast? last
  have split : session.logger.scopes.map OpenScope.serial =
      front.map ScopeGuard.serial ++ [guard.serial] := by
    rw [nested, guards, List.map_append, List.map_singleton]
  obtain ⟨outer, innermost, scopes, outerSerials, innerSerial⟩ := List.map_eq_append_iff.mp split
  obtain ⟨own, rfl, ownSerial⟩ := List.map_eq_singleton_iff.mp innerSerial
  have depth : guard.depth = outer.length := by
    have found : session.logger.scopes[outer.length]? = some own := by simp [scopes]
    have owner := tidy.owned outer.length own found
    exact congrArg ScopeGuard.depth (tidy.eq_of_serial live owner ownSerial.symm)
  have cut : session.logger.scopes.take guard.depth = outer := by
    rw [depth, scopes, List.take_left]
  have left : session.guards.filter (·.serial != guard.serial) = front := by
    have ordered := tidy.ordered
    rw [guards, List.pairwise_append] at ordered
    have others : ∀ other ∈ front, (other.serial != guard.serial) = true := by
      intro other member
      rw [bne_iff_ne]
      exact Nat.ne_of_lt (ordered.2.2 other member guard (List.mem_singleton_self _))
    rw [guards, List.filter_append, List.filter_eq_self.mpr others]
    simp
  rw [Nested, without_scopes, without_guards, cut, left]
  exact outerSerials

/-- When guards are dropped in reverse order, exactly the scopes of those that are left are
open. -/
theorem LastFirst.nested {session : LoggerSession} {uses : List LoggerUse}
    (lastFirst : session.LastFirst uses) (nested : session.Nested) (tidy : session.Tidy) :
    (session.after uses).Nested := by
  induction uses using List.reverseRecOn with
  | nil => exact nested
  | append_singleton uses use induction =>
      rw [LastFirst, moments_concat, List.forall_mem_append] at lastFirst
      have before : (session.after uses).Nested := induction lastFirst.1
      have last := lastFirst.2 (uses, use) (List.mem_singleton_self _)
      rw [after_concat]
      cases use with
      | enter scope => simpa [Nested, perform, Logger.enter] using before
      | drop serial =>
          rcases (session.after uses).perform_drop_cases serial with
            same | ⟨guard, live, rfl, dropped⟩
          · rwa [same]
          · rw [dropped]
            exact before.without (tidy.after uses) (last guard live rfl)
      | replay flag => exact before
      | log suppress level message => exact before

end LoggerSession

open LoggerUse LoggerSession in
/-- Log scopes are always released and attached to the right calls, however a logger and its
clones are used.  An open scope belongs to a guard that was not dropped, open scopes are in
order of entry, and when all guards are gone no operation is current; if guards are dropped in
reverse order, the open scopes are exactly those of the guards that are left.  The receiver gets
the calls that are made without suppression or while the flag is not set, in order, each with
the scope that is innermost at its moment. -/
theorem log_scopes_are_released_and_attached (executionId : String) (replaying : Bool)
    (uses : List LoggerUse) :
    let start := LoggerSession.begin executionId replaying
    let session := start.after uses
    (∀ index scope, session.logger.scopes[index]? = some scope →
      ⟨scope.serial, index⟩ ∈ session.guards ∧
        (entered uses)[scope.serial]? = some scope.scope) ∧
    (session.logger.scopes.Pairwise fun outer inner => outer.serial < inner.serial) ∧
    (session.guards = [] → session.logger.current? = none) ∧
    (start.LastFirst uses → session.logger.scopes.map (fun scope => some scope.scope) =
      session.guards.map fun guard => (entered uses)[guard.serial]?) ∧
    session.entries = (moments [] uses).filterMap start.forwarded? := by
  intro start session
  have tidy : session.Tidy := (begin_tidy executionId replaying).after uses
  have tells := after_tells executionId replaying uses
  refine ⟨?_, tidy.ascending, ?_, ?_, tells.entries⟩
  · intro index scope found
    exact ⟨tidy.owned index scope found, tells.named scope (List.mem_of_getElem? found)⟩
  · intro gone
    rw [Logger.current?, tidy.scopes_eq_nil gone]
    rfl
  · intro lastFirst
    have nested : session.Nested :=
      lastFirst.nested (begin_nested executionId replaying) (begin_tidy executionId replaying)
    calc session.logger.scopes.map (fun scope => some scope.scope)
      _ = session.logger.scopes.map (fun scope => (entered uses)[scope.serial]?) :=
          List.map_congr_left fun scope member => (tells.named scope member).symm
      _ = (session.logger.scopes.map OpenScope.serial).map fun serial => (entered uses)[serial]? :=
          List.map_map.symm
      _ = (session.guards.map ScopeGuard.serial).map fun serial => (entered uses)[serial]? := by
          rw [nested]
      _ = session.guards.map fun guard => (entered uses)[guard.serial]? := List.map_map

/-- An inner scope is left before the outer one.  What is logged while recorded operations are
replayed is heard through the clone that does not suppress it, and what is logged afterwards
through any. -/
theorem inner_scope_is_released_first :
    let outer : OperationScope := ⟨"op-0000", "outer", 1⟩
    let inner : OperationScope := ⟨"op-0001", "inner", 2⟩
    let uses : List LoggerUse := [.enter outer, .log true .info "unheard",
      .log false .info "replayed", .enter inner, .replay false, .log true .info "inside", .drop 1,
      .log true .warn "outside"]
    let start := LoggerSession.begin "run" true
    start.LastFirst uses ∧
      (start.after uses).logger.scopes.map (fun scope => some scope.scope) = [some outer] ∧
      (start.after uses).entries = [⟨.info, "replayed", "run", some outer⟩,
        ⟨.info, "inside", "run", some inner⟩, ⟨.warn, "outside", "run", some outer⟩] := by
  intro outer inner uses start
  have lastFirst : start.LastFirst uses := by decide
  obtain ⟨-, -, -, nested, forwarded⟩ := log_scopes_are_released_and_attached "run" true uses
  exact ⟨lastFirst, (nested lastFirst).trans (by decide), forwarded.trans (by decide)⟩

end Durable

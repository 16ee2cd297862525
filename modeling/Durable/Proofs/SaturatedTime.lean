import Durable.Clock
import Durable.Proofs.InstantOrder

/-!
# Saturated time

Outside of leap seconds an instant stands for a number of nanoseconds, and adding a duration
adds its nanoseconds, up to the latest instant.  A clock that is moved by any calls therefore
never goes back, except from the one leap second behind the latest instant: from there a
duration that leads out of the leap second leads back to the latest instant.
-/

namespace Durable

namespace Duration

/-- One duration after the other. -/
protected def plus (a b : Duration) : Duration :=
  ofParts (a.seconds + b.seconds) (a.nanos + b.nanos)

theorem toNanos_plus (a b : Duration) : (a.plus b).toNanos = a.toNanos + b.toNanos := by
  simp only [Duration.plus, ofParts, toNanos, nanosPerSecond]
  omega

theorem nanos_plus_lt (a b : Duration) : (a.plus b).nanos < nanosPerSecond :=
  Nat.mod_lt _ (by decide)

theorem atMost_iff_toNanos {a b : Duration} (aParts : a.nanos < nanosPerSecond)
    (bParts : b.nanos < nanosPerSecond) : a.atMost b = true ↔ a.toNanos ≤ b.toNanos := by
  simp only [nanosPerSecond] at aParts bParts
  simp only [atMost, toNanos, nanosPerSecond, Bool.or_eq_true, Bool.and_eq_true,
    decide_eq_true_eq, beq_iff_eq]
  omega

end Duration

namespace Instant

/-- An instant outside of leap seconds. -/
structure Plain (t : Instant) : Prop where
  representable : t.Representable
  noLeap : t.inLeapSecond = false

theorem nanos_lt_of_noLeap {t : Instant} (noLeap : t.inLeapSecond = false) :
    t.nanos < Duration.nanosPerSecond := by
  rw [inLeapSecond, decide_eq_false_iff_not] at noLeap
  exact Nat.lt_of_not_le noLeap

theorem noLeap_of_nanos_lt {t : Instant} (parts : t.nanos < Duration.nanosPerSecond) :
    t.inLeapSecond = false := by
  rw [inLeapSecond, decide_eq_false_iff_not]
  exact Nat.not_le_of_lt parts

theorem latest_plain : latest.Plain :=
  ⟨by decide, by decide⟩

theorem le_iff_toNanos {a b : Instant} (aNoLeap : a.inLeapSecond = false)
    (bNoLeap : b.inLeapSecond = false) : a ≤ b ↔ a.toNanos ≤ b.toNanos := by
  have aParts := nanos_lt_of_noLeap aNoLeap
  have bParts := nanos_lt_of_noLeap bNoLeap
  rw [le_def]
  simp only [toNanos, Duration.nanosPerSecond] at aParts bParts ⊢
  omega

theorem eq_of_toNanos {a b : Instant} (aNoLeap : a.inLeapSecond = false)
    (bNoLeap : b.inLeapSecond = false) (same : a.toNanos = b.toNanos) : a = b :=
  le_antisymm ((le_iff_toNanos aNoLeap bNoLeap).mpr (le_of_eq same))
    ((le_iff_toNanos bNoLeap aNoLeap).mpr (ge_of_eq same))

theorem toNanos_carry (seconds : Int) (nanos : Nat) :
    (carry seconds nanos).toNanos = seconds * Duration.nanosPerSecond + nanos := by
  simp only [carry, toNanos, Duration.nanosPerSecond]
  omega

theorem carry_noLeap (seconds : Int) (nanos : Nat) :
    (carry seconds nanos).inLeapSecond = false :=
  noLeap_of_nanos_lt (Nat.mod_lt _ (by decide))

theorem plus_of_noLeap {t : Instant} (noLeap : t.inLeapSecond = false) (d : Duration) :
    t.plus d = carry (t.seconds + d.seconds) (t.nanos + d.nanos) := by
  rw [plus, noLeap]
  rfl

theorem toNanos_plus {t : Instant} (noLeap : t.inLeapSecond = false) (d : Duration) :
    (t.plus d).toNanos = t.toNanos + d.toNanos := by
  rw [plus_of_noLeap noLeap, toNanos_carry]
  simp only [toNanos, Duration.toNanos, Duration.nanosPerSecond]
  omega

theorem seconds_le_latest_iff {t : Instant} (noLeap : t.inLeapSecond = false) :
    t.seconds ≤ latest.seconds ↔ t.toNanos ≤ latest.toNanos := by
  have parts := nanos_lt_of_noLeap noLeap
  simp only [latest, toNanos, Duration.nanosPerSecond] at parts ⊢
  omega

theorem latest_lt_of_longer {t : Instant} (representable : t.Representable) {d : Duration}
    (parts : d.nanos < Duration.nanosPerSecond) (longer : d.atMost longestStep = false) :
    latest.toNanos < t.toNanos + d.toNanos := by
  have early := representable.1
  have long : longestStep.toNanos < d.toNanos := by
    apply Nat.lt_of_not_le
    rw [← Duration.atMost_iff_toNanos parts (by decide), longer]
    exact Bool.false_ne_true
  simp only [earliest, latest, longestStep, toNanos, Duration.toNanos,
    Duration.nanosPerSecond] at early long ⊢
  omega

/-- The sum is the exact one, or the latest instant if that is earlier. -/
theorem Plain.add {t : Instant} (plain : t.Plain) {d : Duration}
    (parts : d.nanos < Duration.nanosPerSecond) :
    (t.add d).Plain ∧
      (t.add d).toNanos = Min.min (t.toNanos + d.toNanos) latest.toNanos := by
  have exact := toNanos_plus plain.noLeap d
  have sumNoLeap : (t.plus d).inLeapSecond = false := by
    rw [plus_of_noLeap plain.noLeap]
    exact carry_noLeap _ _
  unfold Instant.add
  split
  · dsimp only
    split
    · next within =>
        have notEarlier : t.seconds ≤ (t.plus d).seconds := by
          have later := t.le_plus d
          rw [le_def] at later
          omega
        have sumParts := nanos_lt_of_noLeap sumNoLeap
        refine ⟨⟨⟨plain.representable.1.trans notEarlier, within, ?_⟩, sumNoLeap⟩, ?_⟩
        · simp only [Duration.nanosPerSecond] at sumParts ⊢
          omega
        · rw [seconds_le_latest_iff sumNoLeap] at within
          rw [← exact, Int.min_eq_left within]
    · next beyond =>
        rw [seconds_le_latest_iff sumNoLeap, exact] at beyond
        exact ⟨latest_plain, (Int.min_eq_right (le_of_not_ge beyond)).symm⟩
  · next longer =>
      have beyond := latest_lt_of_longer plain.representable parts (Bool.eq_false_of_not_eq_true longer)
      exact ⟨latest_plain, (Int.min_eq_right (le_of_lt beyond)).symm⟩

theorem Plain.add_le_add {t u : Instant} (tPlain : t.Plain) (uPlain : u.Plain) {d e : Duration}
    (dParts : d.nanos < Duration.nanosPerSecond) (eParts : e.nanos < Duration.nanosPerSecond)
    (later : t ≤ u) (longer : d.toNanos ≤ e.toNanos) : t.add d ≤ u.add e := by
  obtain ⟨fromT, exactT⟩ := tPlain.add dParts
  obtain ⟨fromU, exactU⟩ := uPlain.add eParts
  rw [le_iff_toNanos tPlain.noLeap uPlain.noLeap] at later
  rw [le_iff_toNanos fromT.noLeap fromU.noLeap, exactT, exactU]
  omega

theorem Plain.add_add {t : Instant} (plain : t.Plain) {a b : Duration}
    (aParts : a.nanos < Duration.nanosPerSecond) (bParts : b.nanos < Duration.nanosPerSecond) :
    (t.add a).add b = t.add (a.plus b) := by
  obtain ⟨first, firstExact⟩ := plain.add aParts
  obtain ⟨second, secondExact⟩ := first.add bParts
  obtain ⟨whole, wholeExact⟩ := plain.add (a.nanos_plus_lt b)
  apply eq_of_toNanos second.noLeap whole.noLeap
  rw [secondExact, firstExact, wholeExact, Duration.toNanos_plus]
  omega

theorem latest_lt_iff {t : Instant} (representable : t.Representable) :
    latest < t ↔ t.seconds = latest.seconds ∧ Duration.nanosPerSecond ≤ t.nanos := by
  have late := representable.2.1
  rw [lt_def]
  simp only [latest, Duration.nanosPerSecond] at late ⊢
  omega

/-- The duration leads out of the leap second behind the latest instant. -/
def Overruns (t : Instant) (d : Duration) : Prop :=
  latest < t ∧ 2 * Duration.nanosPerSecond ≤ t.nanos + d.toNanos

instance (t : Instant) (d : Duration) : Decidable (t.Overruns d) :=
  inferInstanceAs (Decidable (_ ∧ _))

/-- From there it leads back, and nowhere else. -/
theorem add_lt_iff {t : Instant} (representable : t.Representable) {d : Duration}
    (parts : d.nanos < Duration.nanosPerSecond) : t.add d < t ↔ t.Overruns d := by
  rcases le_or_gt t latest with notBehind | behind
  · have notBack := not_lt.mpr (le_add notBehind d)
    have notOver : ¬t.Overruns d := fun overruns => not_lt.mpr notBehind overruns.1
    exact iff_of_false notBack notOver
  · obtain ⟨last, leap⟩ := (latest_lt_iff representable).mp behind
    have inLeap : t.inLeapSecond = true := by
      rwa [inLeapSecond, decide_eq_true_eq]
    by_cases stays : d.seconds = 0 ∧ t.nanos + d.nanos < 2 * Duration.nanosPerSecond
    · -- A sum that stays within the leap second is not earlier.
      have sum : t.plus d = ⟨t.seconds, t.nanos + d.nanos⟩ := by
        rw [plus, if_pos inLeap, if_pos stays]
      have short : d.atMost longestStep = true := by
        rw [Duration.atMost_iff_toNanos parts (by decide)]
        simp only [Duration.toNanos, longestStep, Duration.nanosPerSecond] at parts ⊢
        omega
      have added : t.add d = t.plus d := by
        rw [Instant.add, if_pos short]
        exact if_pos (by rw [sum, last])
      have notBack : ¬t.add d < t := not_lt.mpr (added ▸ t.le_plus d)
      have notOver : ¬t.Overruns d := by
        rintro ⟨-, overruns⟩
        rw [Duration.toNanos, stays.1] at overruns
        omega
      exact iff_of_false notBack notOver
    · -- Any other sum is beyond the seconds of time.
      have sum : t.plus d =
          carry (t.seconds + d.seconds) (t.nanos - Duration.nanosPerSecond + d.nanos) := by
        rw [plus, if_pos inLeap, if_neg stays]
      have beyond : ¬(t.plus d).seconds ≤ latest.seconds := by
        rw [sum, carry, last]
        simp only [Duration.nanosPerSecond] at stays leap ⊢
        omega
      have added : t.add d = latest := by
        rw [Instant.add]
        split
        · exact if_neg beyond
        · rfl
      have overruns : t.Overruns d := by
        refine ⟨behind, ?_⟩
        simp only [Duration.toNanos, Duration.nanosPerSecond] at stays leap ⊢
        omega
      exact iff_of_true (added ▸ behind) overruns

theorem plus_nanos_lt (t : Instant) (d : Duration) :
    (t.plus d).nanos < 2 * Duration.nanosPerSecond := by
  have carried : ∀ seconds nanos, (carry seconds nanos).nanos < 2 * Duration.nanosPerSecond :=
    fun _ _ => (Nat.mod_lt _ (by decide)).trans (by decide)
  unfold plus
  split
  · split
    · next stays => exact stays.2
    · exact carried _ _
  · exact carried _ _

theorem add_representable {t : Instant} (representable : t.Representable) (d : Duration) :
    (t.add d).Representable := by
  have last : latest.Representable := latest_plain.representable
  unfold Instant.add
  split
  · dsimp only
    split
    · next within =>
        have later := t.le_plus d
        rw [le_def] at later
        have early := representable.1
        exact ⟨by omega, within, t.plus_nanos_lt d⟩
    · exact last
  · exact last

end Instant

namespace Clock

/-- A call that moves a clock. -/
inductive Call where
  | advanceTo (t : Instant)
  | advanceBy (d : Duration)
  deriving DecidableEq, Repr

namespace Call

/-- What a call is given can be represented. -/
def Representable : Call → Prop
  | advanceTo t => t.Representable
  | advanceBy d => d.Representable

/-- The call leads out of the leap second behind the latest instant. -/
def Overruns (clock : Clock) : Call → Prop
  | advanceTo _ => False
  | advanceBy d => clock.now.Overruns d

end Call

/-- The reading that a call returns, and the clock after it. -/
def answer (clock : Clock) : Call → Instant × Clock
  | .advanceTo t => ((clock.advanceTo t).now, clock.advanceTo t)
  | .advanceBy d => ((clock.advanceBy d).now, clock.advanceBy d)

/-- The clock after some calls. -/
def after (clock : Clock) (calls : List Call) : Clock :=
  calls.foldl (fun clock call => (clock.answer call).2) clock

/-- What the calls return. -/
def answers (clock : Clock) : List Call → List Instant
  | [] => []
  | call :: rest => (clock.answer call).1 :: (clock.answer call).2.answers rest

/-- What a call makes of a reading: the later of two instants, or a sum. -/
def Call.Moves (before after : Instant) : Call → Prop
  | advanceTo t => after = max before t
  | advanceBy d => after = before.add d ∧ (before.Plain →
      after.Plain ∧ after.toNanos = min (before.toNanos + d.toNanos) Instant.latest.toNanos)

theorem answer_reading (clock : Clock) (call : Call) :
    (clock.answer call).1 = (clock.answer call).2.now := by
  cases call <;> rfl

theorem advanceTo_now (clock : Clock) (t : Instant) :
    (clock.advanceTo t).now = max clock.now t := by
  change clock.now.max t = max clock.now t
  rcases le_total clock.now t with later | earlier
  · rw [Instant.max_eq_right later, max_eq_right later]
  · rw [Instant.max_eq_left earlier, max_eq_left earlier]

theorem answer_moves (clock : Clock) {call : Call} (given : call.Representable) :
    call.Moves clock.now (clock.answer call).1 := by
  cases call with
  | advanceTo t => exact clock.advanceTo_now t
  | advanceBy d => exact ⟨rfl, fun plain => plain.add given.2⟩

theorem answer_representable {clock : Clock} (shown : clock.now.Representable) {call : Call}
    (given : call.Representable) : (clock.answer call).2.now.Representable := by
  cases call with
  | advanceTo t =>
      change (clock.advanceTo t).now.Representable
      rw [advanceTo_now]
      rcases max_choice clock.now t with same | jumped
      · rwa [same]
      · rwa [jumped]
  | advanceBy d => exact Instant.add_representable shown d

theorem answer_lt_iff {clock : Clock} (shown : clock.now.Representable) {call : Call}
    (given : call.Representable) : (clock.answer call).2.now < clock.now ↔ call.Overruns clock := by
  cases call with
  | advanceTo t =>
      have forward : clock.now ≤ (clock.advanceTo t).now := by
        rw [advanceTo_now]
        exact le_max_left _ _
      exact iff_of_false (not_lt.mpr forward) id
  | advanceBy d => exact Instant.add_lt_iff shown given.2

theorem after_concat (clock : Clock) (calls : List Call) (call : Call) :
    clock.after (calls ++ [call]) = ((clock.after calls).answer call).2 := by
  simp [after]

theorem answers_at (clock : Clock) (earlier : List Call) (call : Call) (later : List Call) :
    (clock.answers (earlier ++ call :: later))[earlier.length]? =
      some (clock.after (earlier ++ [call])).now := by
  induction earlier generalizing clock with
  | nil => simp [answers, after, answer_reading]
  | cons first earlier induction =>
      rw [List.cons_append, answers, List.length_cons, List.getElem?_cons_succ, induction]
      rfl

/-- No call overruns the end of time. -/
def StaysInTime (clock : Clock) (calls : List Call) : Prop :=
  ∀ earlier call later, calls = earlier ++ call :: later → ¬call.Overruns (clock.after earlier)

theorem staysInTime_cons {clock : Clock} {call : Call} {calls : List Call} :
    clock.StaysInTime (call :: calls) ↔
      ¬call.Overruns clock ∧ (clock.answer call).2.StaysInTime calls := by
  constructor
  · intro stays
    refine ⟨stays [] call calls rfl, ?_⟩
    rintro earlier next later rfl
    exact stays (call :: earlier) next later rfl
  · rintro ⟨head, tail⟩ earlier next later same
    rcases List.cons_eq_append_iff.mp same with ⟨rfl, rest⟩ | ⟨others, rfl, rest⟩
    · cases rest
      exact head
    · exact tail others next later rest

/-- The readings of a clock go back just if a call overruns the end of time. -/
theorem isChain_answers_iff {clock : Clock} (shown : clock.now.Representable)
    {calls : List Call} (given : ∀ call ∈ calls, call.Representable) :
    (clock.now :: clock.answers calls).IsChain (· ≤ ·) ↔ clock.StaysInTime calls := by
  induction calls generalizing clock with
  | nil => simp [answers, StaysInTime]
  | cons call calls induction =>
      have callGiven := given call List.mem_cons_self
      have tail := induction (answer_representable shown callGiven)
        fun later member => given later (List.mem_cons_of_mem _ member)
      rw [answers, answer_reading, List.isChain_cons_cons, tail, staysInTime_cons,
        ← answer_lt_iff shown callGiven, not_lt]

/-- A clock that is never moved behind the latest instant stays in time. -/
theorem staysInTime_of_le {clock : Clock} (late : clock.now ≤ Instant.latest)
    {calls : List Call} (targets : ∀ t, .advanceTo t ∈ calls → t ≤ Instant.latest) :
    clock.StaysInTime calls := by
  induction calls generalizing clock with
  | nil => simp [StaysInTime]
  | cons call calls induction =>
      have within : ¬call.Overruns clock ∧ (clock.answer call).2.now ≤ Instant.latest := by
        cases call with
        | advanceTo t =>
            refine ⟨id, ?_⟩
            exact (clock.advanceTo_now t).trans_le (max_le late (targets t List.mem_cons_self))
        | advanceBy d =>
            exact ⟨fun overruns => not_lt.mpr late overruns.1, Instant.add_le_latest late d⟩
      rw [staysInTime_cons]
      refine ⟨within.1, induction within.2 ?_⟩
      exact fun t member => targets t (List.mem_cons_of_mem _ member)

end Clock

/-- Sums saturate exactly, and clocks go forward.  Outside of leap seconds a sum has the
nanoseconds of the instant and the duration together, or those of the latest instant if they
are fewer; so it is not earlier than where it starts, it is monotone in both, and two
durations are added like their sum.  Of any calls on a clock each returns the reading after
it, which is the later of the reading and the target, or a sum.  The readings never decrease,
unless a duration leads out of the leap second behind the latest instant, and that happens
only to a clock that was put there. -/
theorem sums_saturate_and_clocks_go_forward (t : Instant) (d : Duration) (clock : Clock)
    (calls : List Clock.Call) :
    (t.Plain → d.Representable →
      (t.add d).Plain ∧
      (t.add d).toNanos = min (t.toNanos + d.toNanos) Instant.latest.toNanos ∧
      t ≤ t.add d ∧
      (∀ u : Instant, u.Plain → ∀ e : Duration, e.Representable →
        t ≤ u → d.toNanos ≤ e.toNanos → t.add d ≤ u.add e) ∧
      ∀ e : Duration, e.Representable → (t.add d).add e = t.add (d.plus e)) ∧
    (clock.now.Representable → (∀ call ∈ calls, call.Representable) →
      (∀ earlier call later, calls = earlier ++ call :: later →
        (clock.answers calls)[earlier.length]? =
            some (clock.after (earlier ++ [call])).now ∧
          call.Moves (clock.after earlier).now (clock.after (earlier ++ [call])).now) ∧
      ((clock.now :: clock.answers calls).Pairwise (· ≤ ·) ↔ clock.StaysInTime calls) ∧
      (clock.now ≤ Instant.latest → (∀ t, .advanceTo t ∈ calls → t ≤ Instant.latest) →
        clock.StaysInTime calls)) := by
  constructor
  · intro plain given
    obtain ⟨sumPlain, exact⟩ := plain.add given.2
    have notBehind : t ≤ Instant.latest := by
      rw [Instant.le_iff_toNanos plain.noLeap Instant.latest_plain.noLeap,
        ← Instant.seconds_le_latest_iff plain.noLeap]
      exact plain.representable.2.1
    refine ⟨sumPlain, exact, Instant.le_add notBehind d, ?_, ?_⟩
    · intro u uPlain e eGiven later longer
      exact plain.add_le_add uPlain given.2 eGiven.2 later longer
    · intro e eGiven
      exact plain.add_add given.2 eGiven.2
  · intro shown given
    refine ⟨?_, ?_, fun late targets => Clock.staysInTime_of_le late targets⟩
    · rintro earlier call later rfl
      refine ⟨clock.answers_at earlier call later, ?_⟩
      rw [Clock.after_concat, ← Clock.answer_reading]
      exact Clock.answer_moves _ (given call (by simp))
    · rw [← List.isChain_iff_pairwise]
      exact Clock.isChain_answers_iff shown given

/-- The longest duration leads from the earliest instant to the latest one, and a clock that
is moved like this never goes back. -/
theorem longest_duration_leads_to_latest :
    let longest : Duration := ⟨18446744073709551615, 999999999⟩
    let calls : List Clock.Call := [.advanceBy longest, .advanceTo .epoch, .advanceBy longest]
    longest.Representable ∧ Instant.earliest.Plain ∧
      (Instant.earliest.add longest).toNanos = Instant.latest.toNanos ∧
      (Instant.earliest :: Clock.answers ⟨.earliest⟩ calls).Pairwise (· ≤ ·) := by
  intro longest calls
  have representable : longest.Representable := by decide
  have plain : Instant.earliest.Plain := ⟨by decide, by decide⟩
  obtain ⟨sums, clocks⟩ := sums_saturate_and_clocks_go_forward .earliest longest ⟨.earliest⟩ calls
  obtain ⟨-, exact, -⟩ := sums plain representable
  refine ⟨representable, plain, exact.trans (by decide), ?_⟩
  have given : ∀ call ∈ calls, call.Representable := by
    simp only [calls, List.forall_mem_cons, Clock.Call.Representable]
    exact ⟨representable, by decide, representable, by simp⟩
  obtain ⟨-, forward, stays⟩ := clocks plain.representable given
  refine forward.mpr (stays (by decide) ?_)
  intro t target
  obtain rfl : t = .epoch := by simpa [calls] using target
  decide

/-- A clock in the leap second behind the latest instant goes back by a second that is added. -/
theorem clock_goes_back_from_last_leap_second :
    let behind : Instant := { Instant.latest with nanos := 1500000000 }
    let calls : List Clock.Call := [.advanceTo behind, .advanceBy (.ofSeconds 1)]
    behind.Genuine ∧ Clock.answers ⟨.epoch⟩ calls = [behind, Instant.latest] ∧
      ¬(Instant.epoch :: Clock.answers ⟨.epoch⟩ calls).Pairwise (· ≤ ·) :=
  ⟨⟨by decide, by decide⟩, by decide, by decide⟩

end Durable

import Durable.Proofs.SaturatedTime
import Durable.Retry.Backoff

/-!
# Backoff delays

Whatever the source of random numbers draws, a delay that a backoff grants is at least one
second long and no longer than its base delay, unless that is shorter than a second.  The
delays that a jitter allows are exactly those that some source draws, and the computation of a
draw asks for no empty range and stays within its machine words.
-/

namespace Durable

namespace Duration

theorem toNanos_ofMillis (millis : Nat) : (ofMillis millis).toNanos = millis * 1000000 := by
  simp only [ofMillis, toNanos, nanosPerSecond]
  omega

theorem ofMillis_parts (millis : Nat) : (ofMillis millis).nanos < nanosPerSecond := by
  simp only [ofMillis, nanosPerSecond]
  omega

theorem ofMillis_representable {millis : Nat} (fits : millis < 2 ^ 64) :
    (ofMillis millis).Representable := by
  refine ⟨?_, ofMillis_parts millis⟩
  have seconds : millis / 1000 ≤ millis := Nat.div_le_self millis 1000
  exact Nat.lt_of_le_of_lt seconds fits

theorem toMillis_eq (d : Duration) : d.toMillis = d.toNanos / 1000000 := by
  simp only [toMillis, toNanos, nanosPerSecond]
  omega

theorem eq_of_toNanos {a b : Duration} (aParts : a.nanos < nanosPerSecond)
    (bParts : b.nanos < nanosPerSecond) (same : a.toNanos = b.toNanos) : a = b := by
  obtain ⟨seconds, nanos⟩ := a
  obtain ⟨otherSeconds, otherNanos⟩ := b
  simp only [toNanos, nanosPerSecond] at aParts bParts same
  rw [mk.injEq]
  omega

theorem max_choice (a b : Duration) : a.max b = a ∨ a.max b = b := by
  unfold Duration.max
  split
  · exact .inr rfl
  · exact .inl rfl

theorem max_representable {a b : Duration} (aFits : a.Representable) (bFits : b.Representable) :
    (a.max b).Representable := by
  rcases max_choice a b with first | second
  · rwa [first]
  · rwa [second]

theorem toNanos_max {a b : Duration} (aParts : a.nanos < nanosPerSecond)
    (bParts : b.nanos < nanosPerSecond) : (a.max b).toNanos = max a.toNanos b.toNanos := by
  have order := atMost_iff_toNanos aParts bParts
  unfold Duration.max
  split
  · next shorter =>
      exact (Nat.max_eq_right (order.mp shorter)).symm
  · next longer =>
      rw [order] at longer
      exact (Nat.max_eq_left (Nat.le_of_not_le longer)).symm

theorem ofSecondsFloat?_representable {seconds : Float} {d : Duration}
    (read : ofSecondsFloat? seconds = some d) : d.Representable := by
  unfold ofSecondsFloat? at read
  split at read
  · cases read
  · dsimp only at read
    split at read
    · cases read
    · split at read
      · next fits =>
          cases read
          exact ⟨fits, Nat.mod_lt _ (by decide)⟩
      · cases read

end Duration

/-- A number as a word of so many bits. -/
def word? (bits n : Nat) : Option Nat :=
  if n < 2 ^ bits then some n else none

/-- A difference of words, which is not negative. -/
def difference? (a b : Nat) : Option Nat :=
  if b ≤ a then some (a - b) else none

theorem word?_of_lt {bits n : Nat} (fits : n < 2 ^ bits) : word? bits n = some n :=
  if_pos fits

theorem difference?_of_le {a b : Nat} (le : b ≤ a) : difference? a b = some (a - b) :=
  if_pos le

namespace Sampler

/-- A draw from a range, which has both of its ends and is not empty. -/
def drawFrom? (sampler : Sampler) (low high : Nat) : Option Nat :=
  (difference? high low).map fun width => low + sampler.pick width

/-- The source that draws one number, as far as the limit allows. -/
def always (n : Nat) : Sampler where
  pick limit := min n limit
  pick_le limit := Nat.min_le_right n limit

theorem always_pick {n limit : Nat} (within : n ≤ limit) : (always n).pick limit = n :=
  Nat.min_eq_left within

theorem drawFrom?_zero (sampler : Sampler) (high : Nat) :
    sampler.drawFrom? 0 high = some (sampler.pick high) := by
  rw [drawFrom?, difference?_of_le (Nat.zero_le high), Option.map_some, Nat.zero_add, Nat.sub_zero]

end Sampler

namespace Jitter

open ExponentialBackoff (leastDelay spreadDelay)

/-- The spread of a delay in machine words.  It is none when a number leaves its word, when a
difference is negative, and when a range is empty. -/
def spread? (jitter : Jitter) (sampler : Sampler) (delay : Duration) : Option Duration := do
  let fromSeconds ← word? 128 (delay.seconds * 1000)
  let whole ← word? 128 (fromSeconds + delay.nanos / 1000000)
  let millis ← word? 64 (min whole (2 ^ 64 - 1))
  match jitter with
  | .none => some delay
  | .full =>
    let draw ← sampler.drawFrom? 0 millis
    some (.ofMillis draw)
  | .half =>
    let rest ← difference? millis (millis / 2)
    let draw ← sampler.drawFrom? 0 rest
    let sum ← word? 64 (millis / 2 + draw)
    some (.ofMillis sum)

/-- The milliseconds from which a delay is drawn: all whole ones, as far as they fit 64 bits. -/
def wholeMillis (base : Duration) : Nat :=
  min (base.toNanos / 1000000) (2 ^ 64 - 1)

theorem millisOf_eq (base : Duration) : millisOf base = wholeMillis base := by
  rw [millisOf, wholeMillis, base.toMillis_eq]
  rfl

theorem wholeMillis_lt (base : Duration) : wholeMillis base < 2 ^ 64 := by
  unfold wholeMillis
  omega

theorem wholeMillis_le (base : Duration) : wholeMillis base * 1000000 ≤ base.toNanos := by
  unfold wholeMillis
  omega

theorem half_pick_le (sampler : Sampler) (millis : Nat) :
    millis / 2 + sampler.pick (millis - millis / 2) ≤ millis := by
  have draw := sampler.pick_le (millis - millis / 2)
  omega

/-- The spread of a delay never leaves the machine words that it is computed in. -/
theorem spread?_eq (jitter : Jitter) (sampler : Sampler) {delay : Duration}
    (fits : delay.Representable) : jitter.spread? sampler delay = some (jitter.spread sampler delay) := by
  obtain ⟨secondsFit, nanosFit⟩ := fits
  simp only [Duration.nanosPerSecond, Nat.pow_eq] at secondsFit nanosFit
  have fromSeconds : word? 128 (delay.seconds * 1000) = some (delay.seconds * 1000) :=
    word?_of_lt (by omega)
  have whole : word? 128 (delay.seconds * 1000 + delay.nanos / 1000000) = some delay.toMillis :=
    word?_of_lt (by omega)
  have capped : word? 64 (min delay.toMillis (2 ^ 64 - 1)) = some (millisOf delay) :=
    word?_of_lt (by omega)
  have halves : millisOf delay / 2 ≤ millisOf delay := Nat.div_le_self _ _
  have drawn : millisOf delay / 2 + sampler.pick (millisOf delay - millisOf delay / 2) < 2 ^ 64 := by
    have word : millisOf delay < 2 ^ 64 := millisOf_eq delay ▸ wholeMillis_lt delay
    exact Nat.lt_of_le_of_lt (half_pick_le sampler _) word
  simp only [spread?, fromSeconds, whole, capped, Option.bind_eq_bind, Option.bind_some]
  cases jitter with
  | none => rfl
  | full => simp only [Sampler.drawFrom?_zero, Option.bind_some, spread]
  | half =>
      simp only [difference?_of_le halves, Sampler.drawFrom?_zero, word?_of_lt drawn,
        Option.bind_some, spread]

theorem leastDelay_toNanos : leastDelay.toNanos = 1000 * 1000000 := by
  decide

/-- The delays that may become of a base delay.  Without jitter it is the base delay itself, or
one second if that is longer; a delay that is drawn has whole milliseconds, and under half
jitter it comes from the upper half of them. -/
structure Allows (jitter : Jitter) (base delay : Duration) : Prop where
  representable : delay.Representable
  least : leastDelay.toNanos ≤ delay.toNanos
  most : delay.toNanos ≤ max leastDelay.toNanos base.toNanos
  exact : jitter = .none → delay.toNanos = max leastDelay.toNanos base.toNanos
  drawn : jitter ≠ .none →
    ∃ millis, delay = .ofMillis millis ∧ millis ≤ max 1000 (wholeMillis base)
  upper : jitter = .half → wholeMillis base / 2 * 1000000 ≤ delay.toNanos

theorem ofMillis_max_leastDelay (millis : Nat) :
    (Duration.ofMillis millis).max leastDelay = .ofMillis (max millis 1000) := by
  apply Duration.eq_of_toNanos
  · rcases Duration.max_choice (.ofMillis millis) leastDelay with first | second
    · rw [first]
      exact Duration.ofMillis_parts millis
    · rw [second]
      decide
  · exact Duration.ofMillis_parts _
  · rw [Duration.toNanos_max (Duration.ofMillis_parts millis) (by decide), leastDelay_toNanos,
      Duration.toNanos_ofMillis, Duration.toNanos_ofMillis]
    omega

theorem allows_ofMillis {jitter : Jitter} {base : Duration} (jittered : jitter ≠ .none)
    {millis : Nat} (within : millis ≤ wholeMillis base)
    (upper : jitter = .half → wholeMillis base / 2 ≤ millis) :
    jitter.Allows base ((Duration.ofMillis millis).max leastDelay) := by
  have word : millis < 2 ^ 64 := Nat.lt_of_le_of_lt within (wholeMillis_lt base)
  have short : millis * 1000000 ≤ base.toNanos :=
    (Nat.mul_le_mul_right 1000000 within).trans (wholeMillis_le base)
  rw [ofMillis_max_leastDelay]
  constructor
  · apply Duration.ofMillis_representable
    exact Nat.max_lt.mpr ⟨word, by decide⟩
  · rw [Duration.toNanos_ofMillis, leastDelay_toNanos]
    exact Nat.mul_le_mul_right 1000000 (Nat.le_max_right millis 1000)
  · rw [Duration.toNanos_ofMillis, leastDelay_toNanos]
    rcases Nat.le_total millis 1000 with shorter | longer
    · rw [Nat.max_eq_right shorter]
      exact Nat.le_max_left _ _
    · rw [Nat.max_eq_left longer]
      exact short.trans (Nat.le_max_right _ _)
  · intro unjittered
    exact absurd unjittered jittered
  · intro _
    refine ⟨max millis 1000, rfl, Nat.max_le.mpr ⟨?_, Nat.le_max_left _ _⟩⟩
    exact within.trans (Nat.le_max_right _ _)
  · intro half
    rw [Duration.toNanos_ofMillis]
    exact Nat.mul_le_mul_right 1000000 ((upper half).trans (Nat.le_max_left _ _))

theorem allows_spreadDelay (jitter : Jitter) (sampler : Sampler) {base : Duration}
    (fits : base.Representable) : jitter.Allows base (spreadDelay jitter sampler base) := by
  cases jitter with
  | none =>
      have longer := Duration.toNanos_max fits.2 (b := leastDelay) (by decide)
      have same : (spreadDelay .none sampler base).toNanos =
          max leastDelay.toNanos base.toNanos := longer.trans (Nat.max_comm _ _)
      constructor
      · exact Duration.max_representable fits (by decide)
      · rw [same]
        exact Nat.le_max_left _ _
      · exact Nat.le_of_eq same
      · exact fun _ => same
      · exact fun jittered => absurd rfl jittered
      · exact fun half => by cases half
  | full =>
      have draw := sampler.pick_le (millisOf base)
      rw [millisOf_eq] at draw
      rw [spreadDelay, spread, millisOf_eq]
      exact allows_ofMillis (by simp) draw (fun half => by cases half)
  | half =>
      have draw := half_pick_le sampler (wholeMillis base)
      rw [spreadDelay, spread, millisOf_eq]
      exact allows_ofMillis (by simp) draw (fun _ => Nat.le_add_right _ _)

/-- Every delay that is allowed is drawn by some source. -/
theorem Allows.exists_sampler {jitter : Jitter} {base delay : Duration}
    (allows : jitter.Allows base delay) (fits : base.Representable) :
    ∃ sampler, spreadDelay jitter sampler base = delay := by
  cases jitter with
  | none =>
      have unspread := allows_spreadDelay .none (.always 0) fits
      refine ⟨.always 0, Duration.eq_of_toNanos unspread.representable.2 allows.representable.2 ?_⟩
      rw [unspread.exact rfl, allows.exact rfl]
  | full =>
      obtain ⟨millis, rfl, within⟩ := allows.drawn (by simp)
      have long := allows.least
      rw [Duration.toNanos_ofMillis, leastDelay_toNanos] at long
      -- A base delay below one second leaves only the shortest delay, whatever is drawn.
      refine ⟨.always (min millis (wholeMillis base)), ?_⟩
      rw [spreadDelay, spread, millisOf_eq, Sampler.always_pick (Nat.min_le_right _ _),
        ofMillis_max_leastDelay]
      congr 1
      omega
  | half =>
      obtain ⟨millis, rfl, within⟩ := allows.drawn (by simp)
      have long := allows.least
      have upper := allows.upper rfl
      rw [Duration.toNanos_ofMillis] at long upper
      rw [leastDelay_toNanos] at long
      let wanted := min millis (wholeMillis base) - wholeMillis base / 2
      have inRange : wanted ≤ wholeMillis base - wholeMillis base / 2 := by
        dsimp only [wanted]
        omega
      refine ⟨.always wanted, ?_⟩
      rw [spreadDelay, spread, millisOf_eq, Sampler.always_pick inRange, ofMillis_max_leastDelay]
      congr 1
      dsimp only [wanted]
      omega

end Jitter

namespace ExponentialBackoff

variable {backoff : ExponentialBackoff} {attempt : Nat} {error : ErrorObject}

/-- The growth of the delay ends in a duration, since the longest delay takes the place of
seconds that are too many. -/
theorem baseDelay_representable (longest : backoff.maxDelay.Representable) (attempt : Nat) :
    (backoff.baseDelay attempt).Representable := by
  unfold baseDelay
  dsimp only
  generalize Retry.larger _ _ = capped
  cases read : Duration.ofSecondsFloat? capped with
  | none => exact longest
  | some d => exact Duration.ofSecondsFloat?_representable read

theorem isExhausted_iff : backoff.isExhausted attempt error = true ↔
    backoff.maxAttempts ≤ attempt ∨ error.errorType ∈ backoff.nonRetryable := by
  rw [isExhausted, Bool.or_eq_true, decide_eq_true_eq, List.contains_iff_mem]

theorem delay?_eq_none_iff {sampler : Sampler} : backoff.delay? sampler attempt error = none ↔
    backoff.maxAttempts ≤ attempt ∨ error.errorType ∈ backoff.nonRetryable := by
  rw [← isExhausted_iff, delay?]
  by_cases exhausted : backoff.isExhausted attempt error = true
  · simp [exhausted]
  · simp [exhausted]

theorem delay?_eq_some {sampler : Sampler} {delay : Duration}
    (granted : backoff.delay? sampler attempt error = some delay) :
    delay = spreadDelay backoff.jitter sampler (backoff.baseDelay attempt) := by
  unfold delay? at granted
  split at granted
  · cases granted
  · cases granted
    rfl

end ExponentialBackoff

open ExponentialBackoff in
/-- Backoff delays stay in their bounds.  Whatever is drawn, no delay is granted just if the
attempts are used up or the error is not retried.  A delay that is granted is one that the
jitter allows for the base delay of the attempt.  For every base delay the computation of the
draw stays within its machine words, and the delays that the jitter allows are those that are
drawn by some source. -/
theorem backoff_delays_stay_in_bounds (backoff : ExponentialBackoff)
    (longest : backoff.maxDelay.Representable) (attempt : Nat) (error : ErrorObject) :
    (∀ sampler, backoff.delay? sampler attempt error = none ↔
      backoff.maxAttempts ≤ attempt ∨ error.errorType ∈ backoff.nonRetryable) ∧
    (backoff.baseDelay attempt).Representable ∧
    (∀ sampler delay, backoff.delay? sampler attempt error = some delay →
      backoff.jitter.Allows (backoff.baseDelay attempt) delay) ∧
    ∀ base : Duration, base.Representable →
      (∀ sampler, backoff.jitter.spread? sampler base =
        some (backoff.jitter.spread sampler base)) ∧
      ∀ delay, backoff.jitter.Allows base delay ↔
        ∃ sampler, spreadDelay backoff.jitter sampler base = delay := by
  have baseFits := baseDelay_representable longest attempt
  refine ⟨fun sampler => delay?_eq_none_iff, baseFits, ?_, ?_⟩
  · intro sampler delay granted
    rw [delay?_eq_some granted]
    exact Jitter.allows_spreadDelay backoff.jitter sampler baseFits
  · intro base fits
    refine ⟨fun sampler => backoff.jitter.spread?_eq sampler fits, fun delay => ⟨?_, ?_⟩⟩
    · intro allows
      exact allows.exists_sampler fits
    · rintro ⟨sampler, rfl⟩
      exact Jitter.allows_spreadDelay backoff.jitter sampler fits

/-- The longest duration has more milliseconds than a word holds, and half jitter draws from the
upper half of those of a word. -/
theorem longest_delay_is_drawn_from_upper_half :
    let longest : Duration := ⟨18446744073709551615, 999999999⟩
    let backoff : ExponentialBackoff := { ExponentialBackoff.standard with
      initialDelay := longest, maxDelay := longest, jitter := .half }
    longest.Representable ∧ backoff.baseDelay 1 = longest ∧
      Jitter.wholeMillis longest = 18446744073709551615 ∧
      ∃ delay, backoff.delay? (.always 0) 1 ⟨"Busy", ""⟩ = some delay ∧
        Jitter.Allows .half longest delay ∧ delay = .ofMillis 9223372036854775807 := by
  intro longest backoff
  have fits : longest.Representable := by decide
  have base : backoff.baseDelay 1 = longest := by decide +kernel
  have granted : backoff.delay? (.always 0) 1 ⟨"Busy", ""⟩ =
      some (.ofMillis 9223372036854775807) := by decide +kernel
  obtain ⟨-, -, bounds, -⟩ := backoff_delays_stay_in_bounds backoff fits 1 ⟨"Busy", ""⟩
  have allows := bounds (.always 0) _ granted
  rw [base] at allows
  exact ⟨fits, base, by decide +kernel, _, granted, allows, rfl⟩

end Durable

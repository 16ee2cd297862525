import Durable.Proofs.Emission
import Mathlib.Order.Defs.LinearOrder

/-!
# The order of instants

Instants are ordered by their seconds and then by their nanoseconds.  A sum is never later
than the latest instant when it starts from one that is not; then it is not earlier than
where it starts.  Only in the leap second behind the latest instant can a sum go back.
-/

namespace Durable

namespace Instant

theorem le_def (a b : Instant) :
    a ≤ b ↔ a.seconds < b.seconds ∨ (a.seconds = b.seconds ∧ a.nanos ≤ b.nanos) :=
  Iff.rfl

theorem lt_def (a b : Instant) :
    a < b ↔ a.seconds < b.seconds ∨ (a.seconds = b.seconds ∧ a.nanos < b.nanos) :=
  Iff.rfl

instance : LinearOrder Instant where
  le_refl a := by
    rw [le_def]
    omega
  le_trans a b c first second := by
    rw [le_def] at *
    omega
  lt_iff_le_not_ge a b := by
    rw [lt_def, le_def, le_def]
    omega
  le_antisymm a b first second := by
    rw [le_def] at first second
    have seconds : a.seconds = b.seconds := by omega
    have nanos : a.nanos = b.nanos := by omega
    cases a
    cases b
    rw [Instant.mk.injEq]
    exact ⟨seconds, nanos⟩
  le_total a b := by
    rw [le_def, le_def]
    omega
  toDecidableLE := inferInstance
  toDecidableEq := inferInstance
  toDecidableLT := inferInstance

theorem le_max (a b : Instant) : a ≤ a.max b ∧ b ≤ a.max b := by
  unfold Instant.max
  split
  · next later => exact ⟨le_of_lt later, le_refl b⟩
  · next notLater => exact ⟨le_refl a, not_lt.mp notLater⟩

theorem max_eq_right {a b : Instant} (later : a ≤ b) : a.max b = b := by
  unfold Instant.max
  split
  · rfl
  · next notLater => exact le_antisymm later (not_lt.mp notLater)

theorem max_eq_left {a b : Instant} (earlier : b ≤ a) : a.max b = a := by
  unfold Instant.max
  rw [if_neg (not_lt.mpr earlier)]

theorem min_le (a b : Instant) : a.min b ≤ a ∧ a.min b ≤ b := by
  unfold Instant.min
  split
  · next earlier => exact ⟨le_of_lt earlier, le_refl b⟩
  · next notEarlier => exact ⟨le_refl a, not_lt.mp notEarlier⟩

theorem min_eq (a b : Instant) : a.min b = a ∨ a.min b = b := by
  unfold Instant.min
  split
  · exact .inr rfl
  · exact .inl rfl

theorem le_plus (t : Instant) (d : Duration) : t ≤ t.plus d := by
  rw [le_def]
  unfold plus
  split
  · split
    · simp
    · next past =>
        simp only [carry, Duration.nanosPerSecond] at past ⊢
        omega
  · next plain =>
      simp only [inLeapSecond, Duration.nanosPerSecond, carry] at plain ⊢
      omega

private theorem carry_le_latest {seconds : Int} {nanos : Nat}
    (within : (carry seconds nanos).seconds ≤ latest.seconds) : carry seconds nanos ≤ latest := by
  have fraction : (carry seconds nanos).nanos < Duration.nanosPerSecond :=
    Nat.mod_lt _ (by decide)
  have last : latest.nanos + 1 = Duration.nanosPerSecond := rfl
  rw [le_def]
  omega

private theorem plus_le_latest {t : Instant} {d : Duration} (late : t ≤ latest)
    (within : (t.plus d).seconds ≤ latest.seconds) : t.plus d ≤ latest := by
  unfold plus at within ⊢
  split
  · next leap =>
      have behind : t.seconds < latest.seconds := by
        have last : latest.nanos + 1 = Duration.nanosPerSecond := rfl
        rw [le_def] at late
        rw [inLeapSecond, decide_eq_true_eq] at leap
        omega
      split
      · rw [le_def]
        exact .inl behind
      · next past =>
          rw [if_pos leap, if_neg past] at within
          exact carry_le_latest within
  · next plain =>
      rw [if_neg plain] at within
      exact carry_le_latest within

/-- A sum goes back only to the latest instant. -/
theorem le_add_or_eq_latest (t : Instant) (d : Duration) : t ≤ t.add d ∨ t.add d = latest := by
  unfold add
  split
  · dsimp only
    split
    · exact .inl (le_plus t d)
    · exact .inr rfl
  · exact .inr rfl

theorem le_add {t : Instant} (late : t ≤ latest) (d : Duration) : t ≤ t.add d := by
  rcases le_add_or_eq_latest t d with notEarlier | last
  · exact notEarlier
  · rw [last]
    exact late

theorem add_le_latest {t : Instant} (late : t ≤ latest) (d : Duration) : t.add d ≤ latest := by
  unfold add
  split
  · dsimp only
    split
    · next within => exact plus_le_latest late within
    · exact le_refl latest
  · exact le_refl latest

end Instant

namespace Clock

/-- A clock goes back only from behind the latest instant, and no further than there. -/
theorem Reaches.le_or_latest_le {before after : Clock} (reaches : Reaches before after) :
    before.now ≤ after.now ∨ Instant.latest ≤ after.now := by
  obtain ⟨durations, rfl⟩ := reaches
  induction durations generalizing before with
  | nil => exact .inl (le_refl before.now)
  | cons duration durations induction =>
      rcases @induction (before.advanceBy duration) with notEarlier | behind
      · rcases Instant.le_add_or_eq_latest before.now duration with further | last
        · exact .inl (further.trans notEarlier)
        · exact .inr (last.symm.trans_le notEarlier)
      · exact .inr behind

end Clock

end Durable

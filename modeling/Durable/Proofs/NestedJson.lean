import Durable.Proofs.JsonText

/-!
# Nested JSON texts

A value of any depth has a text, but a text with more than `127` open brackets is not read.
-/

namespace Durable

namespace Json

/-- Arrays inside one another. -/
def nested : Nat → Json
  | 0 => .null
  | depth + 1 => .array [nested depth]

theorem nested_sound (depth : Nat) : (nested depth).Sound := by
  induction depth with
  | zero => exact .null
  | succ depth induction => exact .array _ (by simpa using induction)

theorem nested_depth (levels : Nat) : (nested levels).depth = levels := by
  induction levels with
  | zero => rfl
  | succ levels induction =>
      rw [nested, depth, depth.elementsDepth, depth.elementsDepth, induction, Nat.max_zero,
        Nat.add_comm]

theorem nested_unread {depth : Nat} (deep : Machine.maxOpen < depth) :
    parse? (nested depth).render = none := by
  rw [(nested_sound depth).parse?_render, nested_depth, if_neg (by omega)]

end Json

end Durable

import Mathlib.Data.List.Basic

namespace Pugputer

/-! A stretch of a memory as a list. -/

variable {α : Type}

def span (f : Nat → α) (off n : Nat) : List α := (List.range n).map fun i => f (off + i)

@[simp] theorem span_zero (f : Nat → α) (off : Nat) : span f off 0 = [] := rfl

@[simp] theorem span_length (f : Nat → α) (off n : Nat) : (span f off n).length = n := by
  rw [span, List.length_map, List.length_range]

theorem span_append (f : Nat → α) (off m n : Nat) :
    span f off m ++ span f (off + m) n = span f off (m + n) := by
  rw [span, span, span, List.range_add, List.map_append, List.map_map]
  congr 1
  apply List.map_congr_left
  intro i _
  rw [Function.comp_apply, Nat.add_assoc]

/-- Two stretches with the same bytes, wherever they are. -/
theorem span_congr {f g : Nat → α} {off off' n : Nat}
    (same : ∀ i < n, f (off + i) = g (off' + i)) : span f off n = span g off' n := by
  apply List.map_congr_left
  intro i inside
  exact same i (List.mem_range.mp inside)

end Pugputer

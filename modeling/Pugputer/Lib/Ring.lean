import Mathlib.Data.Nat.Notation

namespace Pugputer.Ring

/-! A ring buffer over any cells, and the queue it stands for. -/

/-- The slot `i` places after `start` in a ring of `capacity` slots. -/
def slot (capacity start i : Nat) : Nat :=
  if start + i < capacity then start + i else start + i - capacity

def advance (capacity i : Nat) : Nat := if i + 1 < capacity then i + 1 else 0

theorem slot_eq_mod {capacity start i : Nat} (bound : start < capacity) (inside : i < capacity) :
    slot capacity start i = (start + i) % capacity := by
  unfold slot
  split
  · rename_i below
    exact (Nat.mod_eq_of_lt below).symm
  · rw [Nat.mod_eq_sub_mod (by omega), Nat.mod_eq_of_lt (by omega)]

theorem advance_eq_mod {capacity i : Nat} (bound : i < capacity) :
    advance capacity i = (i + 1) % capacity := by
  unfold advance
  split
  · rename_i below
    exact (Nat.mod_eq_of_lt below).symm
  · have atEnd : i + 1 = capacity := by omega
    rw [atEnd, Nat.mod_self]

theorem slot_zero {capacity start : Nat} (bound : start < capacity) :
    slot capacity start 0 = start := by
  simp [slot, bound]

theorem slot_lt {capacity start i : Nat} (bound : start < capacity)
    (inside : i ≤ capacity) : slot capacity start i < capacity := by
  unfold slot
  split <;> omega

theorem advance_lt {capacity i : Nat} (positive : 0 < capacity) :
    advance capacity i < capacity := by
  unfold advance
  split <;> omega

theorem advance_slot {capacity start i : Nat} (bound : start < capacity)
    (inside : i < capacity) :
    advance capacity (slot capacity start i) = slot capacity start (i + 1) := by
  unfold advance slot
  split <;> split <;> split <;> omega

theorem slot_advance {capacity start i : Nat} (bound : start < capacity)
    (inside : i < capacity) :
    slot capacity (advance capacity start) i = slot capacity start (i + 1) := by
  unfold advance slot
  split <;> split <;> split <;> omega

theorem slot_injective {capacity start i j : Nat} (iBound : i < capacity)
    (jBound : j < capacity) (equal : slot capacity start i = slot capacity start j) : i = j := by
  unfold slot at equal
  split at equal <;> split at equal <;> omega

/-- The ring with these indices and cells holds the queue `contents`. -/
structure Holds (capacity : Nat) (cells : Nat → α) (head tail count : Nat)
    (contents : List α) : Prop where
  length : count = contents.length
  fits : contents.length ≤ capacity
  tail_lt : tail < capacity
  head_eq : head = slot capacity tail count
  cell : ∀ i (inside : i < contents.length), cells (slot capacity tail i) = contents[i]

namespace Holds

variable {capacity head tail count : Nat} {cells : Nat → α} {contents : List α}

theorem head_lt (holds : Holds capacity cells head tail count contents) :
    head < capacity := by
  rw [holds.head_eq, holds.length]
  exact slot_lt holds.tail_lt holds.fits

theorem empty (positive : 0 < capacity) : Holds capacity cells 0 0 0 [] where
  length := rfl
  fits := Nat.zero_le _
  tail_lt := positive
  head_eq := (slot_zero positive).symm
  cell := fun _ inside => absurd inside (Nat.not_lt_zero _)

/-- A value stored at the head joins the queue at its end. -/
theorem put (next : Nat → α) (value : α)
    (holds : Holds capacity cells head tail count contents)
    (room : contents.length < capacity) (stored : next head = value)
    (kept : ∀ i < capacity, i ≠ head → next i = cells i) :
    Holds capacity next (advance capacity head) tail (count + 1) (contents ++ [value]) where
  length := by simp [holds.length]
  fits := by
    rw [List.length_append, List.length_singleton]
    exact room
  tail_lt := holds.tail_lt
  head_eq := by
    rw [holds.head_eq, advance_slot holds.tail_lt (by rw [holds.length]; exact room)]
  cell := by
    intro i inside
    have last := holds.length
    rw [List.length_append, List.length_singleton] at inside
    by_cases old : i < contents.length
    · have apart : slot capacity tail i ≠ head := by
        intro clash
        rw [holds.head_eq] at clash
        have := slot_injective (by omega) (by omega) clash
        omega
      have inRing := slot_lt (i := i) holds.tail_lt (by omega)
      rw [kept _ inRing apart, holds.cell i old, List.getElem_append_left old]
    · have atEnd : i = contents.length := by omega
      subst atEnd
      have storedAt : next (slot capacity tail contents.length) = value := by
        rw [← holds.length, ← holds.head_eq, stored]
      rw [storedAt, List.getElem_concat_length rfl]

/-- The value at the tail is the first of the queue; moving the tail drops it. -/
theorem take {first : α} {rest : List α}
    (holds : Holds capacity cells head tail count (first :: rest)) :
    cells tail = first ∧
      Holds capacity cells head (advance capacity tail) (count - 1) rest := by
  have fits := holds.fits
  have length := holds.length
  rw [List.length_cons] at fits length
  refine ⟨?_, by omega, by omega, advance_lt (by omega), ?_, ?_⟩
  · have found := holds.cell 0 (by simp)
    rw [slot_zero holds.tail_lt] at found
    simpa using found
  · rw [holds.head_eq, slot_advance holds.tail_lt (by omega)]
    congr 1
    omega
  · intro i inside
    have found := holds.cell (i + 1) (by simpa using inside)
    rw [slot_advance holds.tail_lt (by omega), found, List.getElem_cons_succ]

end Holds

end Pugputer.Ring

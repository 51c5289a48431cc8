import Mathlib.Tactic.Ring

namespace Pugputer.Budget

/-! Loops that spend from a budget and count what they have spent in `w` bits. -/

variable {τ ρ : Type} {w : Nat}

/-- While less than the budget is spent: leave for a reason, or add what a step costs. -/
def spend (step : τ → Nat × τ) (leave : τ → Option ρ) (budget : BitVec w) :
    (fuel : Nat) → BitVec w → τ → Option (BitVec w × Option ρ × τ)
  | 0, _, _ => none
  | fuel + 1, consumed, t =>
      if consumed < budget then
        match leave t with
        | some why => some (consumed, some why, t)
        | none =>
            spend step leave budget fuel (consumed + BitVec.ofNat w (step t).1) (step t).2
      else some (consumed, none, t)

/-- Steps that no reason to leave prevents, and what they cost together. -/
inductive Steps (step : τ → Nat × τ) (leave : τ → Option ρ) (t : τ) : Nat → τ → Prop
  | refl : Steps step leave t 0 t
  | more {cost : Nat} {u : τ} (before : Steps step leave t cost u) (going : leave u = none) :
      Steps step leave t (cost + (step u).1) (step u).2

section

variable {step : τ → Nat × τ} {leave : τ → Option ρ} {budget consumed : BitVec w} {t u : τ}

/-- What holds at a cost of nothing, and what each step takes along, holds of all steps. -/
theorem Steps.holds {cost : Nat} (Holds : Nat → τ → Prop) (start : Holds 0 t)
    (taken : ∀ cost u, Holds cost u → leave u = none → Holds (cost + (step u).1) (step u).2)
    (steps : Steps step leave t cost u) : Holds cost u := by
  induction steps with
  | refl => exact start
  | more _ going ih => exact taken _ _ ih going

/-- Where the loop stands after its last step: what came before it was within the budget. -/
inductive LastStep (step : τ → Nat × τ) (leave : τ → Option ρ) (budget : Nat) (t : τ) :
    Nat → τ → Prop
  | refl : LastStep step leave budget t 0 t
  | one {cost : Nat} {u : τ} (before : Steps step leave t cost u) (going : leave u = none)
      (within : cost < budget) :
      LastStep step leave budget t (cost + (step u).1) (step u).2

theorem LastStep.steps {budget cost : Nat} (last : LastStep step leave budget t cost u) :
    Steps step leave t cost u := by
  cases last with
  | refl => exact .refl
  | one before going _ => exact .more before going

/-- A loop that ended, having consumed what its steps cost. -/
structure Ended (step : τ → Nat × τ) (leave : τ → Option ρ) (budget : BitVec w) (t : τ)
    (consumed : BitVec w) (why : Option ρ) (last : τ) : Prop where
  lastStep : LastStep step leave budget.toNat t consumed.toNat last
  reason : why = if consumed < budget then leave last else none
  left : consumed < budget → leave last ≠ none

private theorem spend_from {most : Nat}
    (costs : ∀ u, leave u = none → 1 ≤ (step u).1 ∧ (step u).1 ≤ most)
    (fits : budget.toNat + most ≤ 2 ^ w) (remaining : Nat) :
    ∀ {consumed : BitVec w} {u : τ}, budget.toNat - consumed.toNat ≤ remaining →
      LastStep step leave budget.toNat t consumed.toNat u →
      ∃ fuel why total last, Ended step leave budget t total why last ∧
        ∀ more, spend step leave budget (fuel + more) consumed u = some (total, why, last) := by
  induction remaining with
  | zero =>
      intro consumed u near lastStep
      have past : ¬ consumed < budget := by
        rw [BitVec.lt_def]
        omega
      refine ⟨1, none, consumed, u, ⟨lastStep, by rw [if_neg past], fun less => absurd less past⟩,
        fun more => ?_⟩
      rw [Nat.add_comm, spend, if_neg past]
  | succ remaining ih =>
      intro consumed u near lastStep
      by_cases under : consumed < budget
      · cases leaves : leave u with
        | some why =>
            refine ⟨1, some why, consumed, u,
              ⟨lastStep, by rw [if_pos under, leaves], fun _ => by simp [leaves]⟩, fun more => ?_⟩
            rw [Nat.add_comm, spend, if_pos under, leaves]
        | none =>
            have within := BitVec.lt_def.mp under
            obtain ⟨some', bounded⟩ := costs u leaves
            have exact' : (consumed + BitVec.ofNat w (step u).1).toNat =
                consumed.toNat + (step u).1 := by
              rw [BitVec.toNat_add, BitVec.toNat_ofNat, Nat.add_mod_mod, Nat.mod_eq_of_lt]
              omega
            have stepped : LastStep step leave budget.toNat t
                (consumed + BitVec.ofNat w (step u).1).toNat (step u).2 := by
              rw [exact']
              exact .one lastStep.steps leaves within
            obtain ⟨fuel, why, total, last, ended, spent⟩ := ih (by omega) stepped
            refine ⟨fuel + 1, why, total, last, ended, fun more => ?_⟩
            rw [Nat.add_right_comm, spend, if_pos under, leaves]
            exact spent more
      · refine ⟨1, none, consumed, u, ⟨lastStep, by rw [if_neg under], fun less => absurd less under⟩,
          fun more => ?_⟩
        rw [Nat.add_comm, spend, if_neg under]

/-- When every step costs something, and the counter has room for the budget and one step
more, the loop ends. -/
theorem spend_ends {most : Nat}
    (costs : ∀ u, leave u = none → 1 ≤ (step u).1 ∧ (step u).1 ≤ most)
    (fits : budget.toNat + most ≤ 2 ^ w) (t : τ) :
    ∃ fuel why total last, Ended step leave budget t total why last ∧
      ∀ more, spend step leave budget (fuel + more) 0 t = some (total, why, last) :=
  spend_from costs fits budget.toNat (Nat.sub_le _ _) (by simpa using .refl)

/-- A loop that an invariant keeps below its budget, with no reason to leave, never ends. -/
theorem spend_never (Inv : BitVec w → τ → Prop)
    (turns : ∀ consumed u, Inv consumed u → consumed < budget ∧ leave u = none ∧
      Inv (consumed + BitVec.ofNat w (step u).1) (step u).2) :
    ∀ (fuel : Nat) {consumed : BitVec w} {u : τ}, Inv consumed u →
      spend step leave budget fuel consumed u = none
  | 0, _, _, _ => rfl
  | fuel + 1, consumed, u, holds => by
      obtain ⟨under, going, next⟩ := turns consumed u holds
      rw [spend, if_pos under, going]
      exact spend_never Inv turns fuel next

/-- A loop on a richer state does what the loop on the state it carries does. -/
theorem spend_map {τ' : Type} {step' : τ' → Nat × τ'} {leave' : τ' → Option ρ} (erase : τ → τ')
    (steps : ∀ t, step' (erase t) = ((step t).1, erase (step t).2))
    (leaves : ∀ t, leave' (erase t) = leave t) (budget : BitVec w) :
    ∀ (fuel : Nat) (consumed : BitVec w) (t : τ),
      spend step' leave' budget fuel consumed (erase t) =
        (spend step leave budget fuel consumed t).map fun (n, why, t) => (n, why, erase t)
  | 0, _, _ => rfl
  | fuel + 1, consumed, t => by
      rw [spend, spend, leaves, steps]
      split
      · cases leave t with
        | some why => rfl
        | none => exact spend_map erase steps leaves budget fuel _ _
      · rfl

end

end Pugputer.Budget

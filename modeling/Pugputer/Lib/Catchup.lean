import Mathlib.Data.Nat.Notation

namespace Pugputer.Catchup

/-! A loop that takes turns as long as one is due, and a clock that makes turns due. -/

variable {σ : Type u} {ε : Type v} (due : σ → Prop) (turn : σ → σ) (seen : σ → ε)

/-- The loop ends, having seen these things, one before each turn. -/
inductive Ends : σ → σ → List ε → Prop
  | done {s : σ} (idle : ¬due s) : Ends s s []
  | turn {s last : σ} {log : List ε} (isDue : due s) (rest : Ends (turn s) last log) :
      Ends s last (seen s :: log)

/-- `while (due s) s = turn s;`, `none` if a turn is still due after `fuel` of them. -/
def loop [DecidablePred due] : Nat → σ → Option (σ × List ε)
  | 0, s => if due s then none else some (s, [])
  | fuel + 1, s =>
      if due s then (loop fuel (turn s)).map fun result => (result.1, seen s :: result.2)
      else some (s, [])

variable {due turn seen}

theorem Ends.idle {s last : σ} {log : List ε} (ends : Ends due turn seen s last log) :
    ¬due last := by
  induction ends with
  | done idle => exact idle
  | turn _ _ ih => exact ih

theorem Ends.unique {s last last' : σ} {log log' : List ε}
    (ends : Ends due turn seen s last log) (ends' : Ends due turn seen s last' log') :
    last = last' ∧ log = log' := by
  induction ends generalizing last' log' with
  | done idle =>
      cases ends' with
      | done _ => exact ⟨rfl, rfl⟩
      | turn isDue _ => exact absurd isDue idle
  | turn isDue _ ih =>
      cases ends' with
      | done idle => exact absurd isDue idle
      | turn _ rest =>
          obtain ⟨sameLast, sameLog⟩ := ih rest
          exact ⟨sameLast, congrArg _ sameLog⟩

theorem Ends.of_loop [DecidablePred due] {fuel : Nat} {s last : σ} {log : List ε}
    (ran : loop due turn seen fuel s = some (last, log)) : Ends due turn seen s last log := by
  induction fuel generalizing s log with
  | zero =>
      rw [loop] at ran
      split at ran
      · cases ran
      · rename_i idle
        cases ran
        exact .done idle
  | succ fuel ih =>
      rw [loop] at ran
      split at ran
      · rename_i isDue
        obtain ⟨⟨last', rest⟩, tail, same⟩ := Option.map_eq_some_iff.mp ran
        cases same
        exact .turn isDue (ih tail)
      · rename_i idle
        cases ran
        exact .done idle

/-- A measure that every turn lowers is fuel enough. -/
theorem loop_total [DecidablePred due] (Inv : σ → Prop) (m : σ → Nat)
    (kept : ∀ s, Inv s → due s → Inv (turn s)) (lower : ∀ s, Inv s → due s → m (turn s) < m s)
    {fuel : Nat} {s : σ} (inv : Inv s) (enough : m s ≤ fuel) :
    ∃ last log, loop due turn seen fuel s = some (last, log) := by
  induction fuel generalizing s with
  | zero =>
      have idle : ¬due s := fun isDue => by
        have := lower s inv isDue
        omega
      exact ⟨s, [], if_neg idle⟩
  | succ fuel ih =>
      by_cases isDue : due s
      · have smaller : m (turn s) ≤ fuel := by
          have := lower s inv isDue
          omega
        obtain ⟨last, log, ran⟩ := ih (kept s inv isDue) smaller
        exact ⟨last, seen s :: log, by rw [loop, if_pos isDue, ran]; rfl⟩
      · exact ⟨s, [], if_neg isDue⟩

/-- What every turn keeps, of the state and of what was seen so far, the loop keeps. -/
theorem Ends.keeps (Inv : σ → List ε → Prop)
    (kept : ∀ s past, Inv s past → due s → Inv (turn s) (past ++ [seen s]))
    {s last : σ} {log past : List ε} (ends : Ends due turn seen s last log) (start : Inv s past) :
    Inv last (past ++ log) := by
  induction ends generalizing past with
  | done _ => rwa [List.append_nil]
  | @turn s _ log isDue _ ih =>
      rw [← List.singleton_append, ← List.append_assoc]
      exact ih (kept s past start isDue)

/-- Advancing the clock in two parts, with the turns of the first in between, comes to the
same as advancing it at once. -/
theorem Ends.sliced (advance : Nat → σ → σ) {m n : Nat}
    (add : ∀ s, advance n (advance m s) = advance (m + n) s)
    (commutes : ∀ n s, advance n (turn s) = turn (advance n s))
    (sees : ∀ n s, seen (advance n s) = seen s) (later : ∀ n s, due s → due (advance n s))
    {s middle last : σ} {log log' : List ε}
    (first : Ends due turn seen (advance m s) middle log)
    (second : Ends due turn seen (advance n middle) last log') :
    Ends due turn seen (advance (m + n) s) last (log ++ log') := by
  rw [← add s]
  generalize advance m s = s at first
  induction first with
  | done _ => exact second
  | @turn s _ _ isDue _ ih =>
      rw [List.cons_append, ← sees n]
      refine .turn (later n s isDue) ?_
      rw [← commutes]
      exact ih second

end Pugputer.Catchup

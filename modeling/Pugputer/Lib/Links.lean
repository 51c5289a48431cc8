import Mathlib.Data.Fintype.EquivFin
import Mathlib.Logic.Function.Basic

namespace Pugputer.Lib.Links

/-! A table of links, and what is reached by following them: a link that is not live ends a
chain. -/

variable {α : Type*} {live : α → Prop} {stop : α} {f f' : α → α} {c x : α}

/-- What is reached from `c` by following links. -/
inductive Followed (live : α → Prop) (f : α → α) (c : α) : α → Prop
  | here (isLive : live c) : Followed live f c c
  | next {x : α} (before : Followed live f c x) (isLive : live (f x)) : Followed live f c (f x)

theorem Followed.isLive (followed : Followed live f c x) : live x := by
  cases followed with
  | here isLive => exact isLive
  | next _ isLive => exact isLive

/-- Nothing is reached past `stop`. -/
theorem Followed.of_dead (dead : ¬live c) : ¬Followed live f c x := by
  intro followed
  induction followed with
  | here isLive => exact dead isLive
  | next _ _ ih => exact ih

variable [DecidableEq α]

/-- A walk that sets each link to `stop` before it follows it. -/
inductive Walk (live : α → Prop) (stop : α) : (α → α) → α → (α → α) → Prop
  | ends {f : α → α} {c : α} (dead : ¬live c) : Walk live stop f c f
  | step {f f' : α → α} {c : α} (isLive : live c)
      (rest : Walk live stop (Function.update f c stop) (f c) f') : Walk live stop f c f'

/-- What is reached is `c`, and what is reached from its link without passing `c` again. -/
theorem followed_update (dead : ¬live stop) (isLive : live c) :
    Followed live f c x ↔ x = c ∨ Followed live (Function.update f c stop) (f c) x := by
  constructor
  · intro followed
    induction followed with
    | here _ => exact .inl rfl
    | @next y before nextLive ih =>
        by_cases same : y = c
        · rw [same] at nextLive ⊢
          exact .inr (.here nextLive)
        · have followed := ih.resolve_left same
          have link : Function.update f c stop y = f y := Function.update_of_ne same _ _
          exact .inr (link ▸ followed.next (link.symm ▸ nextLive))
  · rintro (rfl | followed)
    · exact .here isLive
    · induction followed with
      | here nextLive => exact .next (.here isLive) nextLive
      | @next y _ nextLive ih =>
          have other : y ≠ c := by
            rintro rfl
            rw [Function.update_self] at nextLive
            exact dead nextLive
          rw [Function.update_of_ne other] at nextLive ⊢
          exact ih.next nextLive

/-- It stops what is reached, and nothing else. -/
theorem Walk.result (dead : ¬live stop) (walk : Walk live stop f c f') (x : α) :
    (Followed live f c x → f' x = stop) ∧ (¬Followed live f c x → f' x = f x) := by
  induction walk with
  | ends notLive => exact ⟨fun followed => absurd followed (Followed.of_dead notLive), fun _ => rfl⟩
  | @step f f' c isLive rest ih =>
      rw [followed_update dead isLive]
      refine ⟨?_, fun apart => ?_⟩
      · rintro (rfl | followed)
        · by_cases again : Followed live (Function.update f x stop) (f x) x
          · exact ih.1 again
          · rw [ih.2 again, Function.update_self]
        · exact ih.1 followed
      · rw [not_or] at apart
        rw [ih.2 apart.2, Function.update_of_ne apart.1]

/-- The walk ends whatever the links are: each step leaves one live link less. -/
theorem walk_exists [Finite α] (dead : ¬live stop) (f : α → α) (c : α) :
    ∃ f', Walk live stop f c f' := by
  classical
  have := Fintype.ofFinite α
  generalize size : (Finset.univ.filter fun x => live (f x)).card = n
  induction n using Nat.strong_induction_on generalizing f c with
  | _ n ih =>
      by_cases isLive : live c
      · by_cases nextLive : live (f c)
        · have fewer : (Finset.univ.filter fun x => live (Function.update f c stop x)).card < n := by
            rw [← size]
            refine Finset.card_lt_card ⟨fun x member => ?_, fun sub => ?_⟩
            · rw [Finset.mem_filter] at member ⊢
              by_cases same : x = c
              · rw [same, Function.update_self] at member
                exact absurd member.2 dead
              · rw [Function.update_of_ne same] at member
                exact member
            · have member := sub (Finset.mem_filter.mpr ⟨Finset.mem_univ c, nextLive⟩)
              rw [Finset.mem_filter, Function.update_self] at member
              exact dead member.2
          obtain ⟨f', walk⟩ := ih _ fewer (Function.update f c stop) (f c) rfl
          exact ⟨f', .step isLive walk⟩
        · exact ⟨_, .step isLive (.ends nextLive)⟩
      · exact ⟨f, .ends isLive⟩

end Pugputer.Lib.Links

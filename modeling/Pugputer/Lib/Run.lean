import Mathlib.Data.Nat.Notation

namespace Pugputer.Run

/-! Runs of a partial step function, and the two induction rules about them. -/

variable {σ ε : Type u}

/-- The state after a list of events, if every one of them can happen. -/
def run (next : σ → ε → Option σ) : σ → List ε → Option σ
  | s, [] => some s
  | s, event :: rest => (next s event).bind fun s' => run next s' rest

@[simp] theorem run_nil (next : σ → ε → Option σ) (s : σ) : run next s [] = some s := rfl

theorem run_cons {next : σ → ε → Option σ} {s last : σ} {event : ε} {rest : List ε} :
    run next s (event :: rest) = some last ↔
      ∃ s', next s event = some s' ∧ run next s' rest = some last := by
  simp [run, Option.bind_eq_some_iff]

theorem run_append {next : σ → ε → Option σ} {s last : σ} {first second : List ε} :
    run next s (first ++ second) = some last ↔
      ∃ s', run next s first = some s' ∧ run next s' second = some last := by
  induction first generalizing s with
  | nil => simp
  | cons event rest ih =>
      rw [List.cons_append, run_cons]
      constructor
      · rintro ⟨s', step, tail⟩
        obtain ⟨middle, head, second⟩ := ih.mp tail
        exact ⟨middle, run_cons.mpr ⟨s', step, head⟩, second⟩
      · rintro ⟨middle, head, second⟩
        obtain ⟨s', step, tail⟩ := run_cons.mp head
        exact ⟨s', step, ih.mpr ⟨middle, tail, second⟩⟩

theorem run_append_bind (next : σ → ε → Option σ) (s : σ) (first second : List ε) :
    run next s (first ++ second) = (run next s first).bind fun s' => run next s' second := by
  induction first generalizing s with
  | nil => rfl
  | cons event rest ih =>
      rw [List.cons_append, run, run, Option.bind_assoc]
      exact congrArg _ (funext fun s' => ih s')

/-- What every step preserves holds after every run. -/
theorem run_invariant {next : σ → ε → Option σ} (Inv : σ → Prop)
    (preserved : ∀ s event s', Inv s → next s event = some s' → Inv s')
    {s last : σ} {events : List ε} (start : Inv s)
    (ran : run next s events = some last) : Inv last := by
  induction events generalizing s with
  | nil =>
      cases ran
      exact start
  | cons event rest ih =>
      obtain ⟨s', step, tail⟩ := run_cons.mp ran
      exact ih (preserved s event s' start step) tail

/-- Every step of a run that happens meets a condition on its state and event. -/
def Throughout (next : σ → ε → Option σ) (Meets : σ → ε → Prop) : σ → List ε → Prop
  | _, [] => True
  | s, event :: rest =>
      Meets s event ∧ ∀ s', next s event = some s' → Throughout next Meets s' rest

/-- What every step that meets the condition preserves holds after every run that meets
it throughout. -/
theorem run_invariant_throughout {next : σ → ε → Option σ} {Meets : σ → ε → Prop}
    (Inv : σ → Prop)
    (preserved : ∀ s event s', Inv s → Meets s event → next s event = some s' → Inv s')
    {s last : σ} {events : List ε} (start : Inv s) (meets : Throughout next Meets s events)
    (ran : run next s events = some last) : Inv last := by
  induction events generalizing s with
  | nil =>
      cases ran
      exact start
  | cons event rest ih =>
      obtain ⟨s', step, tail⟩ := run_cons.mp ran
      exact ih (preserved s event s' start meets.1 step) (meets.2 s' step) tail

/-! Logs that only grow at the end. -/

/-- Every entry of a log stands in the relation `P` to what came before it. -/
def Each (P : List α → α → Prop) (log : List α) : Prop :=
  ∀ before entry after, log = before ++ entry :: after → P before entry

theorem Each.nil {P : List α → α → Prop} : Each P [] := by
  intro before entry after split
  simp at split

theorem Each.snoc {P : List α → α → Prop} {log : List α} {last : α} (each : Each P log)
    (new : P log last) : Each P (log ++ [last]) := by
  intro before entry after split
  rcases List.eq_nil_or_concat after with rfl | ⟨rest, final, rfl⟩
  · obtain ⟨rfl, same⟩ := List.append_inj' split rfl
    cases same
    exact new
  · have regrouped : log ++ [last] = (before ++ entry :: rest) ++ [final] := by
      simpa using split
    obtain ⟨rfl, -⟩ := List.append_inj' regrouped rfl
    exact each before entry rest rfl

end Pugputer.Run

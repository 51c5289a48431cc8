import Mathlib.Logic.Basic

namespace Pugputer.Move

/-! Moves between cells of one memory, a cell at a time, in a given order. -/

/-- A memory some of whose cells cannot be written. -/
structure Memory (σ α β : Type*) where
  peek : σ → α → β
  poke : σ → α → β → σ
  Writable : σ → α → Prop
  peek_self : ∀ {s a v}, Writable s a → peek (poke s a v) a = v
  peek_other : ∀ {s a b v}, b ≠ a ∨ ¬Writable s a → peek (poke s a v) b = peek s b
  writable_poke : ∀ {s a b v}, Writable (poke s a v) b ↔ Writable s b

namespace Memory

variable {σ α β ι : Type*} (m : Memory σ α β) (src dst : ι → α)

def move (s : σ) (order : List ι) : σ :=
  order.foldl (fun s k => m.poke s (dst k) (m.peek s (src k))) s

@[simp] theorem move_nil (s : σ) : m.move src dst s [] = s := rfl

@[simp] theorem move_cons (s : σ) (k : ι) (order : List ι) :
    m.move src dst s (k :: order) =
      m.move src dst (m.poke s (dst k) (m.peek s (src k))) order := rfl

theorem move_append (s : σ) (first second : List ι) :
    m.move src dst s (first ++ second) = m.move src dst (m.move src dst s first) second :=
  List.foldl_append

variable {m src dst} {s : σ}

theorem writable_move {order : List ι} {a : α} :
    m.Writable (m.move src dst s order) a ↔ m.Writable s a := by
  induction order generalizing s with
  | nil => rfl
  | cons k order ih => rw [move_cons, ih, m.writable_poke]

/-- A cell that is nobody's destination keeps its value. -/
theorem peek_move_other {order : List ι} {a : α}
    (other : ∀ k ∈ order, m.Writable s (dst k) → a ≠ dst k) :
    m.peek (m.move src dst s order) a = m.peek s a := by
  induction order generalizing s with
  | nil => rfl
  | cons k order ih =>
      rw [move_cons, ih fun j later writable =>
        other j (List.mem_cons_of_mem k later) (m.writable_poke.mp writable)]
      apply m.peek_other
      by_cases writable : m.Writable s (dst k)
      · exact .inl (other k List.mem_cons_self writable)
      · exact .inr writable

/-- A cell moved while its source is still what it was arrives. -/
theorem peek_move {before after : List ι} {k : ι} (writable : m.Writable s (dst k))
    (fresh : ∀ j ∈ before, m.Writable s (dst j) → src k ≠ dst j)
    (last : ∀ j ∈ after, dst k ≠ dst j) :
    m.peek (m.move src dst s (before ++ k :: after)) (dst k) = m.peek s (src k) := by
  rw [move_append, move_cons, peek_move_other fun j later _ => last j later,
    m.peek_self (writable_move.mpr writable), peek_move_other fresh]

/-- While the one cell with another value is not read, all others keep theirs. -/
theorem peek_move_blank {order : List ι} {a : α} {v : β} (blank : ∀ b, b ≠ a → m.peek s b = v)
    (unread : ∀ j ∈ order, src j ≠ a) :
    ∀ b, b ≠ a → m.peek (m.move src dst s order) b = v := by
  induction order generalizing s with
  | nil => exact blank
  | cons j order ih =>
      rw [move_cons]
      refine ih ?_ fun i later => unread i (List.mem_cons_of_mem j later)
      intro b other
      have value : m.peek s (src j) = v := blank _ (unread j List.mem_cons_self)
      by_cases hit : b = dst j ∧ m.Writable s (dst j)
      · rw [hit.1, m.peek_self hit.2, value]
      · rw [m.peek_other (not_and_or.mp hit), blank b other]

theorem peek_move_same {order : List ι} {v : β} (same : ∀ b, m.peek s b = v) (b : α) :
    m.peek (m.move src dst s order) b = v := by
  induction order generalizing s with
  | nil => exact same b
  | cons j order ih =>
      rw [move_cons]
      apply ih
      intro c
      by_cases hit : c = dst j ∧ m.Writable s (dst j)
      · rw [hit.1, m.peek_self hit.2, same]
      · rw [m.peek_other (not_and_or.mp hit), same]

/-- The one cell with another value, written over before it was read, is lost. -/
theorem peek_move_lost {before : List ι} {a : α} {j : ι} {v : β}
    (blank : ∀ b, b ≠ a → m.peek s b = v) (clobbered : dst j = a) (writable : m.Writable s a)
    (unread : ∀ i ∈ before ++ [j], src i ≠ a) (after : List ι) (b : α) :
    m.peek (m.move src dst s (before ++ j :: after)) b = v := by
  have first : ∀ b, b ≠ a → m.peek (m.move src dst s before) b = v :=
    peek_move_blank blank fun i member => unread i (List.mem_append_left _ member)
  have still : m.Writable (m.move src dst s before) a := writable_move.mpr writable
  have value : m.peek (m.move src dst s before) (src j) = v :=
    first _ (unread j (List.mem_append_right _ List.mem_cons_self))
  rw [move_append, move_cons, value, clobbered]
  apply peek_move_same
  intro c
  by_cases hit : c = a
  · rw [hit, m.peek_self still]
  · rw [m.peek_other (.inl hit), first c hit]

end Memory

end Pugputer.Move

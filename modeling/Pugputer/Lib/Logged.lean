import Mathlib.Data.List.Basic

namespace Pugputer

/-! A computation with the log of what it touched on the way. -/

structure Logged (ε : Type u) (α : Type v) where
  value : α
  log : List ε

namespace Logged

variable {ε : Type u} {α β : Type v}

instance : Monad (Logged ε) where
  pure a := ⟨a, []⟩
  bind x f := ⟨(f x.value).value, x.log ++ (f x.value).log⟩

/-- Nothing but an entry in the log. -/
def note (e : ε) (a : α) : Logged ε α := ⟨a, [e]⟩

@[simp] theorem value_pure (a : α) : (pure a : Logged ε α).value = a := rfl

@[simp] theorem value_bind (x : Logged ε α) (f : α → Logged ε β) :
    (x >>= f).value = (f x.value).value := rfl

theorem log_bind (x : Logged ε α) (f : α → Logged ε β) :
    (x >>= f).log = x.log ++ (f x.value).log := rfl

@[simp] theorem value_note (e : ε) (a : α) : (note e a).value = a := rfl

instance : LawfulMonad (Logged ε) := LawfulMonad.mk' (Logged ε)
  (fun x => congrArg (Logged.mk x.value) (List.append_nil x.log))
  (fun _ _ => rfl)
  (fun x _ _ => congrArg (Logged.mk _) (List.append_assoc x.log _ _))

theorem value_foldlM (f : β → α → Logged ε β) (l : List α) (b : β) :
    (l.foldlM f b).value = l.foldl (fun b a => (f b a).value) b := by
  induction l generalizing b with
  | nil => rfl
  | cons a rest ih =>
      rw [List.foldlM_cons, value_bind, ih]
      rfl

/-- Everything in the log is so. -/
def All (P : ε → Prop) (x : Logged ε α) : Prop := ∀ e ∈ x.log, P e

variable {P : ε → Prop}

@[simp] theorem all_pure (a : α) : All P (pure a : Logged ε α) ↔ True :=
  iff_true_intro fun _ member => absurd member List.not_mem_nil

@[simp] theorem all_bind (x : Logged ε α) (f : α → Logged ε β) :
    All P (x >>= f) ↔ All P x ∧ All P (f x.value) :=
  List.forall_mem_append

@[simp] theorem all_note (e : ε) (a : α) : All P (note e a) ↔ P e :=
  List.forall_mem_singleton

/-- A loop whose turns are so or not whatever is carried from one to the next. -/
theorem all_foldlM {f : β → α → Logged ε β} {Q : α → Prop} {l : List α}
    (turn : ∀ b, ∀ a ∈ l, All P (f b a) ↔ Q a) (b : β) :
    All P (l.foldlM f b) ↔ ∀ a ∈ l, Q a := by
  induction l generalizing b with
  | nil => simp
  | cons a rest ih =>
      rw [List.foldlM_cons, all_bind, turn b a List.mem_cons_self, List.forall_mem_cons,
        ih fun b a member => turn b a (List.mem_cons_of_mem _ member)]

end Logged

end Pugputer

namespace Pugputer.Lib

/-! Reading back what was written. -/

variable {β ε α γ σ : Type}

abbrev Reading (β ε α : Type) := StateT (List β) (Except ε) α

/-- `p` reads `text` as `a`, whatever comes after it. -/
def Reads (p : Reading β ε α) (text : List β) (a : α) : Prop :=
  ∀ rest, p (text ++ rest) = .ok (a, rest)

namespace Reading

def next (short : ε) : Reading β ε β
  | [] => .error short
  | b :: rest => .ok (b, rest)

/-- So many. -/
def take (short : ε) : (n : Nat) → Reading β ε { text : List β // text.length = n }
  | 0 => pure ⟨[], rfl⟩
  | n + 1 => do
      let b ← next short
      let more ← take short n
      pure ⟨b :: more.1, congrArg (· + 1) more.2⟩

/-- Entries up to a stop, each with its first byte read. -/
def entries [DecidableEq β] (short spent : ε) (stop : β)
    (entry : (b : β) → b ≠ stop → σ → Reading β ε σ) : (fuel : Nat) → σ → Reading β ε σ
  | 0, _ => throw spent
  | fuel + 1, s => do
      let b ← next short
      if stopped : b = stop then pure s
      else
        let s ← entry b stopped s
        entries short spent stop entry fuel s

end Reading

namespace Reads

variable {p : Reading β ε α} {f : α → Reading β ε γ} {text more : List β} {a : α} {c : γ}

theorem pure (a : α) : Reads (pure a : Reading β ε α) [] a := fun _ => rfl

theorem bind (first : Reads p text a) (second : Reads (f a) more c) :
    Reads (p >>= f) (text ++ more) c := by
  intro rest
  show (p (text ++ more ++ rest)).bind (fun r => f r.1 r.2) = _
  rw [List.append_assoc, first]
  exact second rest

theorem map (g : α → γ) (first : Reads p text a) :
    Reads (p >>= fun a => Pure.pure (g a)) text (g a) := by
  have whole : Reads (p >>= fun a => Pure.pure (g a)) (text ++ []) (g a) := first.bind (pure (g a))
  rwa [List.append_nil] at whole

theorem next (short : ε) (b : β) : Reads (Reading.next short) [b] b := fun _ => rfl

/-- One byte, then the rest. -/
theorem head {short : ε} {f : β → Reading β ε γ} (b : β) (second : Reads (f b) more c) :
    Reads (Reading.next short >>= f) (b :: more) c :=
  (next short b).bind second

theorem take (short : ε) {n : Nat} {text : List β} (long : text.length = n) :
    Reads (Reading.take short n) text ⟨text, long⟩ := by
  subst long
  induction text with
  | nil => exact pure _
  | cons b text ih => exact head b (map _ ih)

variable {stop : β} {δ : Type}

/-- Each entry is read from its first byte on, in the state that the ones before it leave. -/
def Entries (stop : β) (entry : (b : β) → b ≠ stop → σ → Reading β ε σ) (write : δ → List β) (f : σ → δ → σ)
    (s : σ) (xs : List δ) : Prop :=
  ∀ before x after, before ++ x :: after = xs → ∃ b more, ∃ first : b ≠ stop,
    write x = b :: more ∧ Reads (entry b first (before.foldl f s)) more (f (before.foldl f s) x)

variable {entry : (b : β) → b ≠ stop → σ → Reading β ε σ} {write : δ → List β} {f : σ → δ → σ}
  {x : δ} {xs : List δ} {s : σ}

theorem Entries.tail (each : Entries stop entry write f s (x :: xs)) : Entries stop entry write f (f s x) xs :=
  fun before y after split => each (x :: before) y after (congrArg (x :: ·) split)

/-- Where every entry has a first byte, there are no more entries than bytes. -/
theorem length_le (some : ∀ x ∈ xs, write x ≠ []) : xs.length ≤ (xs.flatMap write).length := by
  induction xs with
  | nil => exact Nat.zero_le _
  | cons x xs ih =>
      have one := List.length_pos_iff.mpr (some x List.mem_cons_self)
      have rest := ih fun y inside => some y (List.mem_cons_of_mem x inside)
      rw [List.length_cons, List.flatMap_cons, List.length_append]
      omega

variable [DecidableEq β]

theorem entries (short spent : ε) {fuel : Nat} (each : Entries stop entry write f s xs)
    (enough : xs.length < fuel) :
    Reads (Reading.entries short spent stop entry fuel s) (xs.flatMap write ++ [stop])
      (xs.foldl f s) := by
  induction xs generalizing s fuel with
  | nil =>
      cases fuel with
      | zero => exact absurd enough (Nat.not_lt_zero _)
      | succ fuel =>
          refine head stop ?_
          rw [dif_pos rfl]
          exact pure s
  | cons x xs ih =>
      cases fuel with
      | zero => exact absurd enough (Nat.not_lt_zero _)
      | succ fuel =>
          obtain ⟨b, more, first, written, one⟩ := each [] x xs rfl
          rw [List.flatMap_cons, written, List.append_assoc, List.cons_append]
          refine head b ?_
          rw [dif_neg first]
          exact one.bind (ih each.tail (Nat.lt_of_succ_lt_succ enough))

/-- Where the first byte of the first one has been read. -/
theorem entries_from (short spent : ε) (fuel : Nat)
    (each : Entries stop entry write f s (x :: xs)) (enough : xs.length < fuel) :
    ∃ b more, ∃ first : b ≠ stop, (x :: xs).flatMap write = b :: more ∧
      Reads (entry b first s >>= Reading.entries short spent stop entry fuel) (more ++ [stop])
        ((x :: xs).foldl f s) := by
  obtain ⟨b, more, first, written, one⟩ := each [] x xs rfl
  refine ⟨b, more ++ xs.flatMap write, first, ?_, ?_⟩
  · rw [List.flatMap_cons, written, List.cons_append]
  · rw [List.append_assoc]
    exact one.bind (entries short spent each.tail enough)

end Reads

end Pugputer.Lib

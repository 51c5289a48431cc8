import Pugputer.Linker.Relocating
import Pugputer.Objects.RoundTrip

namespace Pugputer.Objects

/-! What LINK makes of an expression is what it means where the sections have been put. -/

open Linker (Chars Sect Links symvalue findexpf findext findlocal localIn evalTerm evalrel
  operate apply epush ESTKMAX relocOne patch)

variable {n : Nat} (sect : Fin n → Sect)

/-- The same but for the constant sections, which have no place. -/
structure Alike (s s' : Links n) : Prop where
  proc : ∀ i, (sect i).const = false → s'.proc i = s.proc i
  load : ∀ i, (sect i).const = false → s'.load i = s.load i
  synth : s'.synth = s.synth
  code : s'.code = s.code

variable {sect} {s s' s'' : Links n}

namespace Alike

theorem refl (s : Links n) : Alike sect s s := ⟨fun _ _ => rfl, fun _ _ => rfl, rfl, rfl⟩

theorem trans (first : Alike sect s s') (second : Alike sect s' s'') : Alike sect s s'' where
  proc := fun i placed => (second.proc i placed).trans (first.proc i placed)
  load := fun i placed => (second.load i placed).trans (first.load i placed)
  synth := second.synth.trans first.synth
  code := second.code.trans first.code

theorem symm (alike : Alike sect s s') : Alike sect s' s where
  proc := fun i placed => (alike.proc i placed).symm
  load := fun i placed => (alike.load i placed).symm
  synth := alike.synth.symm
  code := alike.code.symm

theorem constin (i : Fin n) (s : Links n) : Alike sect s (s.constin sect i) := by
  rw [Links.constin]
  split
  · exact refl s
  · next skip =>
      rw [Bool.not_eq_true, Bool.or_eq_false_iff, Bool.not_eq_false'] at skip
      have other : ∀ j, (sect j).const = false → j ≠ i := by
        rintro j placed rfl
        rw [skip.2] at placed
        cases placed
      exact ⟨fun j placed => Function.update_of_ne (other j placed) _ _,
        fun j placed => Function.update_of_ne (other j placed) _ _, rfl, rfl⟩

variable (alike : Alike sect s s')

include alike

theorem same_findexpf (RESONLY : Bool) (B : Nat) (name : Chars) (L : List (Fin n)) :
    findexpf sect RESONLY B name s' L = findexpf sect RESONLY B name s L := by
  induction L with
  | nil => rfl
  | cons i L ih =>
      have same : (s'.proc i || (sect i).const || RESONLY) =
          (s.proc i || (sect i).const || RESONLY) := by
        cases const : (sect i).const with
        | true => rw [Bool.or_true, Bool.or_true]
        | false => rw [alike.proc i const]
      rw [findexpf, findexpf, ih, same]

theorem same_symvalue (i : Fin n) (v : Word) : symvalue sect s' i v = symvalue sect s i v := by
  rw [symvalue, symvalue]
  split
  · rfl
  · next placed => rw [alike.load i (Bool.not_eq_true _ ▸ placed)]

theorem same_findext (RESONLY : Bool) (CURFILE : Nat) (name : Chars) :
    (findext sect RESONLY CURFILE name s').1 = (findext sect RESONLY CURFILE name s).1 := by
  rw [findext, findext, alike.synth, alike.same_findexpf, alike.same_findexpf]
  split
  · rfl
  · dsimp only
    split
    · rfl
    · next i v _ =>
        have grown := ((constin i s).symm.trans alike).trans (constin i s')
        exact congrArg some (grown.same_symvalue i v)

theorem same_findlocal (i : Fin n) (name : Chars) :
    findlocal sect i name s' = findlocal sect i name s := by
  have same : localIn sect name s' = localIn sect name s := by
    funext j
    rw [localIn, localIn]
    exact congrArg (Option.map · _) (funext fun y => alike.same_symvalue j y.val)
  rw [findlocal, findlocal, same]

end Alike

theorem findext_alike (RESONLY : Bool) (CURFILE : Nat) (name : Chars) (s : Links n) :
    Alike sect s (findext sect RESONLY CURFILE name s).2 := by
  rw [findext]
  split
  · exact .refl s
  · dsimp only
    split
    · exact .refl s
    · exact .constin _ s

/-! Expressions. -/

section Evaluated

variable (sect) (o : Object) (i : Fin n) (s)

/-- Where LINK has a base. -/
def place? : Base → Option Word
  | .sect B => findlocal sect i (basename (o.sectname B)) s
  | .imp name => (findext sect false (sect i).file name s).1

def place (b : Base) : Word := (place? sect s o i b).getD 0#16

/-- Every base is found. -/
def Resolved (ts : List Term) : Prop := ∀ t ∈ ts, (place? sect s o i t.id).isSome

end Evaluated

variable {o : Object} {i : Fin n}

@[simp] theorem low_setWidth (v : Word) : low (v.setWidth 32) = v := by
  rw [low, BitVec.setWidth_setWidth_of_le _ (by omega), BitVec.setWidth_eq]

@[simp] theorem low_signExtend (v : Word) : low (v.signExtend 32) = v := by
  ext j inside
  rw [low, BitVec.getElem_setWidth, BitVec.getLsbD_signExtend]
  simp [inside, show j < 32 by omega]

/-- A term's base goes on the stack. -/
theorem evalTerm_base {t : Term} {st : List (BitVec 32)} (room : st.length < ESTKMAX)
    (alike : Alike sect s s') (found : (place? sect s o i t.id).isSome) :
    ∃ s'', Alike sect s s'' ∧ evalTerm sect i st s' (baseTerm o t.id) =
      (some ((place sect s o i t.id).setWidth 32 :: st), s'') := by
  obtain ⟨v, value⟩ := Option.isSome_iff_exists.mp found
  have got : place sect s o i t.id = v := by rw [place, value, Option.getD_some]
  have push (w : BitVec 32) : epush st w = some (w :: st) := if_pos room
  rw [got]
  cases same : t.id with
  | sect B =>
      rw [same] at value
      refine ⟨s', alike, ?_⟩
      have looked : findlocal sect i (basename (o.sectname B)) s' = some v :=
        (alike.same_findlocal i _).trans value
      have named : basename (o.sectname B) ≠ [] := List.cons_ne_nil _ _
      rw [baseTerm, evalTerm, if_neg named, looked, Option.bind_some, push]
  | imp name =>
      rw [same] at value
      refine ⟨_, alike.trans (findext_alike false (sect i).file name s'), ?_⟩
      have looked : (findext sect false (sect i).file name s').1 = some v :=
        (alike.same_findext false _ name).trans value
      rw [baseTerm, evalTerm, looked, Option.bind_some, push]

theorem evalrel_cons {t : Linker.Term} {ts : List Linker.Term} {st st' : List (BitVec 32)}
    (one : evalTerm sect i st s t = (some st', s')) :
    evalrel sect i (t :: ts) st s = evalrel sect i ts st' s' := by
  rw [evalrel, one]

/-- A term comes to one number on the stack. -/
theorem evalrel_term {t : Term} {st : List (BitVec 32)} (room : st.length + 1 < ESTKMAX)
    (alike : Alike sect s s') (found : (place? sect s o i t.id).isSome) (ts : List Linker.Term) :
    ∃ w s'', Alike sect s s'' ∧ low w = t.at (place sect s o i) ∧
      evalrel sect i (termItems o t ++ ts) st s' = evalrel sect i ts (w :: st) s'' := by
  rw [termItems]
  split
  · next one =>
      have room : st.length < ESTKMAX := by omega
      obtain ⟨s'', later, base⟩ := evalTerm_base room alike found
      refine ⟨_, s'', later, ?_, evalrel_cons base⟩
      rw [low_setWidth, Term.at, one, BitVec.one_mul]
  · have coef : evalTerm sect i st s' (.int t.coef) = (some (t.coef.signExtend 32 :: st), s') := by
      rw [evalTerm, epush, if_pos (by omega)]
    have room : (t.coef.signExtend 32 :: st).length < ESTKMAX := room
    obtain ⟨s'', later, base⟩ := evalTerm_base room alike found
    refine ⟨_, s'', later, ?_, ((evalrel_cons coef).trans (evalrel_cons base)).trans
      (evalrel_cons rfl)⟩
    rw [Asmlink.MUL32_eq, low_mul, low_signExtend, low_setWidth, Term.at]

/-- Terms come to a number each, the last one on top. -/
theorem evalrel_terms {ts : List Term} {st : List (BitVec 32)} (room : st.length + ts.length < ESTKMAX)
    (alike : Alike sect s s') (found : Resolved sect s o i ts) (more : List Linker.Term) :
    ∃ st' s'', Alike sect s s'' ∧ st'.length = st.length + ts.length ∧
      (st'.map low).sum = total (place sect s o i) ts + (st.map low).sum ∧
      evalrel sect i (ts.flatMap (termItems o) ++ more) st s' = evalrel sect i more st' s'' := by
  induction ts generalizing st s' with
  | nil => exact ⟨st, s', alike, rfl, (zero_add _).symm, rfl⟩
  | cons t ts ih =>
      rw [List.length_cons] at room
      have enough : st.length + 1 < ESTKMAX := by omega
      obtain ⟨w, s'', later, value, one⟩ := evalrel_term enough alike (found t List.mem_cons_self)
        (ts.flatMap (termItems o) ++ more)
      have room' : (w :: st).length + ts.length < ESTKMAX := by
        rw [List.length_cons]
        omega
      obtain ⟨st', s₃, last, long, sum, rest⟩ :=
        ih room' later fun u inside => found u (List.mem_cons_of_mem t inside)
      refine ⟨st', s₃, last, ?_, ?_, ?_⟩
      · rw [long, List.length_cons, List.length_cons]
        omega
      · rw [sum, List.map_cons, List.sum_cons, value, total_cons]
        ring
      · rw [List.flatMap_cons, List.append_assoc, one, rest]

/-- The sums that are left. -/
theorem evalrel_sums {k : Nat} {st : List (BitVec 32)} (long : st.length = k + 1) :
    evalrel sect i (List.replicate k (.op 1#8)) st s = (some (st.map low).sum, s) := by
  induction k generalizing st with
  | zero =>
      obtain ⟨v, rfl⟩ := List.length_eq_one_iff.mp long
      show (some (low v), s) = _
      rw [List.map_singleton, List.sum_singleton]
  | succ k ih =>
      match st, long with
      | b :: a :: st, long =>
          have one : evalTerm sect i (b :: a :: st) s (.op 1#8) = (some ((a + b) :: st), s) := rfl
          have shorter : ((a + b) :: st).length = k + 1 := by
            rw [List.length_cons] at long ⊢
            exact Nat.succ.inj long
          rw [List.replicate_succ, evalrel_cons one, ih shorter, List.map_cons, List.sum_cons,
            List.map_cons, List.sum_cons, List.map_cons, List.sum_cons, low_add]
          congr 2
          ring

/-- A relocation's expression comes to its constant and its terms. -/
theorem evalrel_reloc (r : Relocation) (found : Resolved sect s o i r.terms.list) :
    ∃ s', Alike sect s s' ∧ evalrel sect i (linkReloc o r).expr [] s =
      (some (r.const + total (place sect s o i) r.terms.list), s') := by
  have few : r.terms.list.length ≤ 4 := r.terms.few
  have some : 0 < r.terms.list.length := List.length_pos_iff.mpr r.some
  rw [linkReloc, exprItems]
  dsimp only
  by_cases none : r.const = 0#16
  · have room : ([] : List (BitVec 32)).length + r.terms.list.length < ESTKMAX := by
      rw [List.length_nil, ESTKMAX]
      omega
    obtain ⟨st, s', alike, long, sum, rest⟩ := evalrel_terms room (.refl s) found
      (List.replicate (r.terms.list.length - 1) (.op 1#8))
    have one : st.length = r.terms.list.length - 1 + 1 := by
      rw [long, List.length_nil]
      omega
    refine ⟨s', alike, ?_⟩
    rw [if_pos none, if_pos none, List.nil_append, rest, evalrel_sums one, sum, none]
    exact congrArg (fun v => (Option.some v, s')) (by simp)
  · have const : evalTerm sect i [] s (.int r.const) = (Option.some [r.const.signExtend 32], s) := rfl
    have room : [r.const.signExtend 32].length + r.terms.list.length < ESTKMAX := by
      rw [List.length_singleton, ESTKMAX]
      omega
    obtain ⟨st, s', alike, long, sum, rest⟩ := evalrel_terms room (.refl s) found
      (List.replicate (r.terms.list.length - 0) (.op 1#8))
    have one : st.length = r.terms.list.length - 0 + 1 := by
      rw [long, List.length_singleton]
      omega
    refine ⟨s', alike, ?_⟩
    rw [if_neg none, if_neg none, List.append_assoc, List.singleton_append, evalrel_cons const, rest,
      evalrel_sums one, sum, List.map_singleton, List.sum_singleton, low_signExtend, add_comm]

/-- RELREC's record of an expression's value. -/
def Relocation.Of (r : Relocation) (e : Expr) : Prop :=
  r.const = low e.value.EVAL ∧ r.terms = e.value.EVNT

/-- LINK puts at a relocation what the expression comes to with every base where it has been
placed. -/
theorem relocated (e : Expr) (r : Relocation) (plain : e.value.COMPLEX = false) (kept : r.Of e)
    (found : Resolved sect s o i r.terms.list) :
    ∃ s', Alike sect s s' ∧ relocOne sect i s (linkReloc o r) =
      (patch (linkReloc o r) (e.at (place sect s o i)) (s.code i)).map fun code =>
        { s' with code := Function.update s'.code i code } := by
  obtain ⟨s', alike, value⟩ := evalrel_reloc r found
  have same : r.const + total (place sect s o i) r.terms.list = e.at (place sect s o i) := by
    rw [← Expr.value_at _ plain, Relocatable.at, kept.1, kept.2]
  refine ⟨s', alike, ?_⟩
  rw [relocOne, value, same]
  dsimp only
  rw [alike.code]

def sampleSect : Fin 1 → Sect := fun _ => linkSect sampleObject 1 1#8 sampleSection

/-- The section is at $2000. -/
def sampleLinks : Links 1 := { Links.start sampleSect 0x100#16 with load := fun _ => 0x2000#16 }

theorem relocated_sample : ∃ s', Alike sampleSect sampleLinks s' ∧
    relocOne sampleSect ⟨0, Nat.one_pos⟩ sampleLinks (linkReloc sampleObject sampleRelocation) =
      .ok { s' with code := Function.update s'.code ⟨0, Nat.one_pos⟩ [[0x20#8, 0x03#8]] } :=
  relocated (.bin Asmlink.OP_PLUS (.addr 1#32 (.sect 1#8)) (.num 2#32)) sampleRelocation (by decide)
    ⟨by decide, rfl⟩ (by
      intro t inside
      rw [List.mem_singleton.mp inside]
      decide)

end Pugputer.Objects

import Mathlib.Data.List.Permutation
import Pugputer.Basic
import Pugputer.Lib.Heapsort

namespace Pugputer.Asmlink

/-! The symbol listings of ASM and of LINK. -/

/-- LOWCASE. -/
def lowcase (c : Byte) : Byte := if 0x41#8 ≤ c ∧ c ≤ 0x5A#8 then c + 0x20#8 else c

/-- SYMCMP's loops over two names, to the NULs after them. -/
def namecmp (fold : Byte → Byte) : List Byte → List Byte → Ordering
  | [], [] => .eq
  | [], _ :: _ => .lt
  | _ :: _, [] => .gt
  | a :: x, b :: y =>
      if fold a = fold b then namecmp fold x y else if fold a < fold b then .lt else .gt

theorem namecmp_eq (fold : Byte → Byte) (x y : List Byte) :
    namecmp fold x y = compare (x.map fold) (y.map fold) := by
  induction x generalizing y with
  | nil => cases y <;> rfl
  | cons a x ih =>
      cases y with
      | nil => rfl
      | cons b y =>
          have compared : compare (fold a) (fold b) =
            if fold a < fold b then .lt else if fold a = fold b then .eq else .gt := rfl
          rw [namecmp, ih, List.map_cons, List.map_cons, List.compare_cons_cons, compared]
          by_cases same : fold a = fold b
          · rw [if_pos same, if_neg (by bv_omega), if_pos same, Ordering.eq_then]
          · rw [if_neg same]
            by_cases less : fold a < fold b
            · rw [if_pos less, if_pos less, Ordering.lt_then]
            · rw [if_neg less, if_neg less, if_neg same, Ordering.gt_then]

/-! ASM's. -/

/-- What SYMCMP reads of a symbol's record. -/
structure Symbol where
  name : List Byte
  ctx : Word
  seq : Word
  deriving DecidableEq, Inhabited

namespace Symbol

variable (x y : Symbol)

/-- SYMCMP: whether `x` is put before key 2, `y`. -/
def symcmp : Bool :=
  match namecmp lowcase x.name y.name with
  | .lt => true
  | .gt => false
  | .eq =>
      if x.name = y.name then
        if x.ctx ≠ y.ctx then x.ctx.slt y.ctx else y.seq.ult x.seq
      else x.seq.ult y.seq

def fold : List Byte := x.name.map lowcase

/-- Of one name in any case, but not the same. -/
def Variant : Prop := x.fold = y.fold ∧ x.name ≠ y.name

instance : Decidable (Variant x y) := inferInstanceAs (Decidable (_ ∧ _))

/-- Of one name, and in the order of contexts, or of one context and set later. -/
def Ahead : Prop := x.name = y.name ∧ (x.ctx.slt y.ctx ∨ x.ctx = y.ctx ∧ y.seq < x.seq)

instance : Decidable (Ahead x y) := inferInstanceAs (Decidable (_ ∧ (_ ∨ _)))

end Symbol

/-- The symbols, from the hash table's buckets; `none` if there are too many. -/
def sortsyms (HASHTAB : List (List Symbol)) : Option (List Symbol) :=
  if 4000 < HASHTAB.flatten.length then none
  else some (heapsorted Symbol.symcmp HASHTAB.flatten)

/-! LINK's. -/

structure LinkSymbol where
  name : List Byte
  file : Byte
  deriving DecidableEq, Inhabited

/-- SYMCMP; `FILENAME` is a file's name by its number. -/
def LinkSymbol.symcmp (FILENAME : Byte → List Byte) (x y : LinkSymbol) : Bool :=
  match namecmp id x.name y.name with
  | .lt => true
  | .gt => false
  | .eq => (namecmp id (FILENAME x.file) (FILENAME y.file)).isLT

/-- The synthetic symbols, then each section's; `none` if there are too many. -/
def mapsyms (FILENAME : Byte → List Byte) (SYNTH : List LinkSymbol) (sections : List (List LinkSymbol)) :
    Option (List LinkSymbol) :=
  if 4000 < (SYNTH ++ sections.flatten).length then none
  else some (heapsorted (LinkSymbol.symcmp FILENAME) (SYNTH ++ sections.flatten))

/-! What a listing is to be. -/

/-- The symbols, none before one that is to be put ahead of it, by an order. -/
structure Listed {α : Type} (before : α → α → Bool) (symbols out : List α) : Prop where
  perm : out.Perm symbols
  sorted : out.Pairwise fun x y => ¬before y x = true
  order : StrictWeak before (· ∈ symbols)

theorem linkcmp_eq (FILENAME : Byte → List Byte) :
    LinkSymbol.symcmp FILENAME = fun x y => (compareLex (compareOn LinkSymbol.name)
      (compareOn fun s => FILENAME s.file) x y).isLT := by
  funext x y
  rw [LinkSymbol.symcmp, namecmp_eq, namecmp_eq, List.map_id, List.map_id, List.map_id, List.map_id,
    compareLex, compareOn, compareOn]
  cases compare x.name y.name <;> rfl

theorem mapsyms_listed (FILENAME : Byte → List Byte) (SYNTH : List LinkSymbol)
    (sections : List (List LinkSymbol)) (few : (SYNTH ++ sections.flatten).length ≤ 4000) :
    ∃ out, mapsyms FILENAME SYNTH sections = some out ∧
      Listed (LinkSymbol.symcmp FILENAME) (SYNTH ++ sections.flatten) out := by
  have order : StrictWeak (LinkSymbol.symcmp FILENAME) (· ∈ SYNTH ++ sections.flatten) := by
    rw [linkcmp_eq]
    exact .of_cmp _ _
  exact ⟨_, if_neg (Nat.not_lt.mpr few), heapsorted_perm _ _, heapsorted_sorted _ _ order, order⟩

/-! When ASM's SYMCMP is an order. -/

/-- No case variant of a name was defined from one to the other of two symbols of that name that are
put in the opposite order. -/
def Orderly (symbols : List Symbol) : Prop :=
  ∀ x ∈ symbols, ∀ y ∈ symbols, ∀ z ∈ symbols, x.Ahead y → z.Variant x →
    y.seq ≤ z.seq → ¬z.seq ≤ x.seq

namespace Symbol

variable {x y z : Symbol}

theorem symcmp_lt (less : compare x.fold y.fold = .lt) : x.symcmp y = true := by
  rw [fold, fold, ← namecmp_eq] at less
  rw [symcmp, less]

theorem symcmp_gt (greater : compare x.fold y.fold = .gt) : x.symcmp y = false := by
  rw [fold, fold, ← namecmp_eq] at greater
  rw [symcmp, greater]

theorem namecmp_fold (same : x.fold = y.fold) : namecmp lowcase x.name y.name = .eq := by
  rw [namecmp_eq]
  exact Std.LawfulEqCmp.compare_eq_iff_eq.mpr same

theorem symcmp_name (same : x.name = y.name) : x.symcmp y = true ↔ x.Ahead y := by
  have fold_eq : x.fold = y.fold := congrArg (List.map lowcase) same
  rw [symcmp, namecmp_fold fold_eq, Ahead]
  dsimp only
  rw [if_pos same]
  by_cases ctx : x.ctx = y.ctx
  · have never : ¬y.ctx.slt y.ctx = true := fun less =>
      Int.lt_irrefl _ (BitVec.slt_iff_toInt_lt.mp less)
    rw [if_neg (not_not_intro ctx), ctx, BitVec.ult_iff_lt]
    exact ⟨fun later => ⟨same, .inr ⟨rfl, later⟩⟩, fun ahead =>
      (ahead.2.resolve_left never).2⟩
  · rw [if_pos ctx]
    simp only [same, ctx, true_and, false_and, or_false]

theorem symcmp_variant (variant : x.Variant y) : x.symcmp y = true ↔ x.seq < y.seq := by
  rw [symcmp, namecmp_fold variant.1]
  dsimp only
  rw [if_neg variant.2, BitVec.ult_iff_lt]

theorem Ahead.asymm (ahead : x.Ahead y) : ¬y.Ahead x := by
  rintro ⟨-, behind⟩
  rcases ahead.2 with less | ⟨same, later⟩
  · have less := BitVec.slt_iff_toInt_lt.mp less
    rcases behind with greater | ⟨equal, -⟩
    · have greater := BitVec.slt_iff_toInt_lt.mp greater
      omega
    · rw [equal] at less
      exact Int.lt_irrefl _ less
  · rcases behind with greater | ⟨-, earlier⟩
    · rw [same] at greater
      exact Int.lt_irrefl _ (BitVec.slt_iff_toInt_lt.mp greater)
    · exact BitVec.lt_asymm later earlier

/-- The symbols of one name are put in an order. -/
theorem Ahead.weak (ahead : x.Ahead z) (same : y.name = x.name) : x.Ahead y ∨ y.Ahead z := by
  by_cases before : x.Ahead y
  · exact .inl before
  · refine .inr ⟨same.trans ahead.1, ?_⟩
    have before : ¬(x.ctx.slt y.ctx = true ∨ x.ctx = y.ctx ∧ y.seq < x.seq) := fun later =>
      before ⟨same.symm, later⟩
    rw [not_or, BitVec.slt_iff_toInt_lt] at before
    have back : y.ctx = x.ctx → ¬y.seq < x.seq := fun equal later => before.2 ⟨equal.symm, later⟩
    rcases ahead.2 with less | ⟨equal, later⟩
    · have less := BitVec.slt_iff_toInt_lt.mp less
      refine .inl (BitVec.slt_iff_toInt_lt.mpr ?_)
      omega
    · by_cases ctx : y.ctx = x.ctx
      · refine .inr ⟨ctx.trans equal, ?_⟩
        have := back ctx
        bv_omega
      · refine .inl (BitVec.slt_iff_toInt_lt.mpr ?_)
        have apart : y.ctx.toInt ≠ x.ctx.toInt := fun same => ctx (BitVec.toInt_inj.mp same)
        rw [← equal]
        omega

/-- A way of a symbol's being put before another. -/
theorem symcmp_iff : x.symcmp y = true ↔
    compare x.fold y.fold = .lt ∨ x.Ahead y ∨ x.Variant y ∧ x.seq < y.seq := by
  have folds : ∀ {o}, compare x.fold y.fold = o → o ≠ .eq → ¬x.Ahead y ∧ ¬x.Variant y := by
    intro o compared other
    refine ⟨fun ahead => other ?_, fun variant => other ?_⟩
    · rw [← compared]
      exact Std.LawfulEqCmp.compare_eq_iff_eq.mpr (congrArg (List.map lowcase) ahead.1)
    · rw [← compared]
      exact Std.LawfulEqCmp.compare_eq_iff_eq.mpr variant.1
  cases compared : compare x.fold y.fold with
  | lt => exact iff_of_true (symcmp_lt compared) (.inl rfl)
  | gt =>
      obtain ⟨ahead, variant⟩ := folds compared Ordering.noConfusion
      rw [symcmp_gt compared]
      simp only [ahead, variant, false_and, or_false, reduceCtorEq, Bool.false_eq_true]
  | eq =>
      have fold := Std.LawfulEqCmp.compare_eq_iff_eq.mp compared
      by_cases same : x.name = y.name
      · have variant : ¬x.Variant y := fun variant => variant.2 same
        rw [symcmp_name same]
        simp only [variant, false_and, or_false, reduceCtorEq, false_or]
      · have ahead : ¬x.Ahead y := fun ahead => same ahead.1
        rw [symcmp_variant ⟨fold, same⟩]
        simp only [ahead, Variant, fold, same, ne_eq, not_false_eq_true, true_and, reduceCtorEq,
          false_or]

theorem Variant.symm (variant : x.Variant y) : y.Variant x :=
  ⟨variant.1.symm, variant.2.symm⟩

/-- Of two of one name, the later is ahead unless the earlier is. -/
theorem Ahead.total (same : x.name = y.name) (later : x.seq < y.seq) (behind : ¬x.Ahead y) :
    y.Ahead x := by
  refine ⟨same.symm, ?_⟩
  have behind : ¬x.ctx.slt y.ctx = true := fun less => behind ⟨same, .inl less⟩
  rw [BitVec.slt_iff_toInt_lt] at behind
  by_cases ctx : y.ctx = x.ctx
  · exact .inr ⟨ctx, later⟩
  · have apart : y.ctx.toInt ≠ x.ctx.toInt := fun same => ctx (BitVec.toInt_inj.mp same)
    exact .inl (BitVec.slt_iff_toInt_lt.mpr (by omega))

theorem symcmp_asymm (less : x.symcmp y = true) : ¬y.symcmp x = true := by
  rcases symcmp_iff.mp less with folds | ahead | ⟨variant, earlier⟩
  · rw [symcmp_gt (Std.OrientedCmp.gt_of_lt folds)]
    exact Bool.false_ne_true
  · rw [symcmp_name ahead.1.symm]
    exact ahead.asymm
  · rw [symcmp_variant variant.symm]
    exact BitVec.lt_asymm earlier

theorem symcmp_le (less : x.symcmp y = true) : (compare x.fold y.fold).isLE := by
  rcases symcmp_iff.mp less with folds | ahead | ⟨variant, -⟩
  · rw [folds]
    rfl
  · have folds : x.fold = y.fold := congrArg (List.map lowcase) ahead.1
    rw [folds]
    exact Std.ReflCmp.isLE_rfl
  · rw [variant.1]
    exact Std.ReflCmp.isLE_rfl

end Symbol

/-- Symbols whose names are the same but for their cases. -/
theorem Orderly.weak {symbols : List Symbol} {x y z : Symbol} (orderly : Orderly symbols)
    (sx : x ∈ symbols) (sy : y ∈ symbols) (sz : z ∈ symbols) (same : x.fold = y.fold)
    (less : x.Ahead z ∨ x.Variant z ∧ x.seq < z.seq) : x.symcmp y = true ∨ y.symcmp z = true := by
  rcases less with ahead | ⟨variant, earlier⟩
  · by_cases name : y.name = x.name
    · rw [Symbol.symcmp_name name.symm, Symbol.symcmp_name (name.trans ahead.1)]
      exact ahead.weak name
    · have variant : y.Variant x := ⟨same.symm, name⟩
      have variant' : y.Variant z :=
        ⟨same.symm.trans (congrArg (List.map lowcase) ahead.1), fun equal => name (equal.trans ahead.1.symm)⟩
      rw [Symbol.symcmp_variant variant.symm, Symbol.symcmp_variant variant']
      have between := orderly x sx z sz y sy ahead variant
      by_contra neither
      rw [not_or, BitVec.not_lt, BitVec.not_lt] at neither
      exact between neither.2 neither.1
  · by_cases name : y.name = x.name
    · have variant' : y.Variant z := ⟨same.symm.trans variant.1, fun equal => variant.2 (name.symm.trans equal)⟩
      rw [Symbol.symcmp_name name.symm, Symbol.symcmp_variant variant']
      by_contra neither
      rw [not_or, BitVec.not_lt] at neither
      have later : x.seq < y.seq := by bv_omega
      have ahead := Symbol.Ahead.total name.symm later neither.1
      exact orderly y sy x sx z sz ahead variant'.symm (BitVec.le_of_lt earlier) neither.2
    · have variant' : x.Variant y := ⟨same, fun equal => name equal.symm⟩
      rw [Symbol.symcmp_variant variant']
      by_cases last : y.name = z.name
      · rw [Symbol.symcmp_name last]
        by_contra neither
        rw [not_or, BitVec.not_lt] at neither
        have later : y.seq < z.seq := by bv_omega
        have ahead := Symbol.Ahead.total last later neither.2
        exact orderly z sz y sy x sx ahead variant neither.1 (BitVec.le_of_lt earlier)
      · have variant'' : y.Variant z := ⟨same.symm.trans variant.1, last⟩
        rw [Symbol.symcmp_variant variant'']
        bv_omega

theorem orderly_iff (symbols : List Symbol) :
    StrictWeak Symbol.symcmp (· ∈ symbols) ↔ Orderly symbols := by
  constructor
  · intro order x sx y sy z sz ahead variant later earlier
    have variant' : z.Variant y :=
      ⟨variant.1.trans (congrArg (List.map lowcase) ahead.1), fun equal => variant.2 (equal.trans ahead.1.symm)⟩
    rcases order.weak x z y sx sz sy ((Symbol.symcmp_name ahead.1).mpr ahead) with first | second
    · exact BitVec.not_lt.mpr earlier ((Symbol.symcmp_variant variant.symm).mp first)
    · exact BitVec.not_lt.mpr later ((Symbol.symcmp_variant variant').mp second)
  · intro orderly
    refine ⟨fun x y _ _ less => Symbol.symcmp_asymm less, fun x y z sx sy sz less => ?_⟩
    cases folds : compare x.fold y.fold with
    | lt => exact .inl (Symbol.symcmp_lt folds)
    | gt =>
        refine .inr (Symbol.symcmp_lt ?_)
        exact Std.TransCmp.lt_of_lt_of_isLE (Std.OrientedCmp.lt_of_gt folds) (Symbol.symcmp_le less)
    | eq =>
        have same := Std.LawfulEqCmp.compare_eq_iff_eq.mp folds
        rcases Symbol.symcmp_iff.mp less with first | others
        · rw [same] at first
          exact .inr (Symbol.symcmp_lt first)
        · exact orderly.weak sx sy sz same others

/-- ASM's listing is sorted just when no case variant is in the way; LINK's always is. -/
theorem listings_sorted (HASHTAB : List (List Symbol)) (FILENAME : Byte → List Byte)
    (SYNTH : List LinkSymbol) (sections : List (List LinkSymbol))
    (few : HASHTAB.flatten.length ≤ 4000) (few' : (SYNTH ++ sections.flatten).length ≤ 4000) :
    ((∃ out, sortsyms HASHTAB = some out ∧ Listed Symbol.symcmp HASHTAB.flatten out) ∧
      ∃ out, mapsyms FILENAME SYNTH sections = some out ∧
        Listed (LinkSymbol.symcmp FILENAME) (SYNTH ++ sections.flatten) out) ↔
      Orderly HASHTAB.flatten := by
  rw [← orderly_iff]
  constructor
  · rintro ⟨⟨out, -, listed⟩, -⟩
    exact listed.order
  · intro order
    refine ⟨⟨_, if_neg (Nat.not_lt.mpr few), heapsorted_perm _ _, heapsorted_sorted _ _ order, order⟩, ?_⟩
    exact mapsyms_listed FILENAME SYNTH sections few'

theorem listings_sorted_cases :
    ((∃ out, sortsyms [[⟨[0x61#8], 0xFFFF#16, 2#16⟩], [⟨[0x41#8], 0xFFFF#16, 1#16⟩]] = some out ∧
        Listed Symbol.symcmp [⟨[0x61#8], 0xFFFF#16, 2#16⟩, ⟨[0x41#8], 0xFFFF#16, 1#16⟩] out) ∧
      ∃ out, mapsyms (fun _ => []) [⟨[0x73#8], 0#8⟩] [[⟨[0x61#8], 1#8⟩]] = some out ∧
        Listed (LinkSymbol.symcmp fun _ => []) [⟨[0x73#8], 0#8⟩, ⟨[0x61#8], 1#8⟩] out) ↔
      Orderly [⟨[0x61#8], 0xFFFF#16, 2#16⟩, ⟨[0x41#8], 0xFFFF#16, 1#16⟩] :=
  listings_sorted [[⟨[0x61#8], 0xFFFF#16, 2#16⟩], [⟨[0x41#8], 0xFFFF#16, 1#16⟩]] (fun _ => [])
    [⟨[0x73#8], 0#8⟩] [[⟨[0x61#8], 1#8⟩]] (Nat.le_of_ble_eq_true rfl) (Nat.le_of_ble_eq_true rfl)

/-- Foo set on lines 1 and 3, and foo on line 2, in their buckets. -/
def circle : List (List Symbol) :=
  [[⟨[0x46#8, 0x6F#8, 0x6F#8], 0xFFFF#16, 3#16⟩, ⟨[0x46#8, 0x6F#8, 0x6F#8], 0xFFFF#16, 1#16⟩],
    [⟨[0x66#8, 0x6F#8, 0x6F#8], 0xFFFF#16, 2#16⟩]]

theorem circle_unsorted : ∃ out, sortsyms circle = some out ∧
    ¬out.Pairwise fun x y => ¬y.symcmp x = true := by
  have each : ∀ out ∈ circle.flatten.permutations',
      ¬out.Pairwise fun x y => ¬y.symcmp x = true := by
    decide
  exact ⟨_, if_neg (by decide), each _ (List.mem_permutations'.mpr (heapsorted_perm _ _))⟩

end Pugputer.Asmlink

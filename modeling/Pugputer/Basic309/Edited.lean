import Pugputer.Basic309.Program

namespace Pugputer.Basic309.Lines

/-! DEL. -/

/-- What follows DEL: `n`, `n-`, `n-m` or something else after `n`; LAF67 makes 0 of no number. -/
inductive Range
  | line (n : Word)
  | onward (n : Word)
  | upTo (n m : Word)
  | other (n : Word)

def Range.first : Range → Word
  | .line n | .onward n | .upTo n _ | .other n => n

/-- BINVAL at L8990: L898C stores its upper byte only. -/
def Range.last? : Range → Option Word
  | .line n => some n
  | .onward n => some (word 0xFF#8 (loByte n))
  | .upTo _ m => some m
  | .other _ => none

/-- L8993: past the lines up to the number. -/
def l8993 (mem : Memory) (BINVAL : Word) : (fuel U : Nat) → Option Nat
  | 0, _ => none
  | fuel + 1, U =>
      if mem.word U = 0#16 then some U
      else if (mem.word (U + 2)).toNat ≤ BINVAL.toNat then
        l8993 mem BINVAL fuel (mem.word U).toNat
      else some U

/-- L89B8: what is left of the program moves down, until VARTAB; X comes out. -/
def l89b8 (VARTAB : Nat) : (fuel U X : Nat) → Memory → Option (Memory × Nat)
  | 0, _, _, _ => none
  | fuel + 1, U, X, mem =>
      if U = VARTAB then some (mem, X) else l89b8 VARTAB fuel (U + 1) (X + 1) (mem.put X (mem U))

def del (TXTTAB fuel : Nat) (r : Range) (p : Program) : Option Program :=
  (lad05 p.mem r.first fuel TXTTAB).bind fun found =>
    match r.last? with
    | none => some p
    | some BINVAL =>
        let VD3 := found.2
        (l8993 p.mem BINVAL fuel VD3).bind fun U =>
          (l89b8 p.VARTAB fuel U VD3 p.mem).bind fun moved =>
            (lacf1 fuel VD3 moved.1).map fun mem => { mem, VARTAB := moved.2 }

def Range.has (r : Range) (num : Word) : Bool :=
  match r.last? with
  | none => false
  | some last => r.first.toNat ≤ num.toNat && num.toNat ≤ last.toNat

/-- DEL n- is of every line from `n` on: LAF67 takes no number past 63999. -/
theorem onward_has {n num : Word} (entered : num.toNat < 0xFF00) :
    (Range.onward n).has num = decide (n.toNat ≤ num.toNat) := by
  have large : 0xFF00 ≤ (word 0xFF#8 (loByte n)).toNat := by
    rw [word, BitVec.toNat_append]
    exact Nat.left_le_or
  rw [Range.has, Range.last?, Range.first]
  dsimp only
  rw [decide_eq_true (by omega : num.toNat ≤ (word 0xFF#8 (loByte n)).toNat), Bool.and_true]

section Deleting

open Memory

variable {mem : Memory} {fuel TXTTAB : Nat} {p : Program} {ls : List Line} {r : Range}

theorem l8993_spec {a : Nat} (BINVAL : Word) (here : mem.At a (image (linked a ls)))
    (small : a + sizes ls < 65536) (enough : ls.length < fuel) :
    ∃ upTo after, ls = upTo ++ after ∧ l8993 mem BINVAL fuel a = some (a + sizes upTo) ∧
      (∀ l ∈ upTo, l.num.toNat ≤ BINVAL.toNat) ∧
      ∀ l rest, after = l :: rest → BINVAL.toNat < l.num.toNat := by
  induction ls generalizing a fuel with
  | nil =>
      obtain ⟨fuel, rfl⟩ := Nat.exists_eq_succ_of_ne_zero (Nat.ne_of_gt enough)
      have stop : mem.word a = 0#16 := @At.word mem a 0#16 here
      refine ⟨[], [], rfl, ?_, by rintro l ⟨⟩, by rintro l rest ⟨⟩⟩
      rw [l8993]
      exact if_pos stop
  | cons l ls ih =>
      obtain ⟨fuel, rfl⟩ := Nat.exists_eq_succ_of_ne_zero (Nat.ne_of_gt (Nat.zero_lt_of_lt enough))
      rw [sizes_cons] at small
      have five : 0 < l.size := Nat.succ_pos _
      obtain ⟨nonzero, value⟩ := @link_next a l.size (by omega) five
      obtain ⟨next, number, rest⟩ := line_here here
      rw [l8993, next, if_neg nonzero, number]
      by_cases within : l.num.toNat ≤ BINVAL.toNat
      · obtain ⟨upTo, after, split, ran, low, high⟩ := ih rest (by omega)
          (Nat.lt_of_succ_lt_succ enough)
        refine ⟨l :: upTo, after, congrArg (l :: ·) split, ?_, fun k inside => ?_, high⟩
        · rw [if_pos within, value, ran, sizes_cons, Nat.add_assoc]
        · rcases List.mem_cons.mp inside with rfl | inside
          · exact within
          · exact low k inside
      · refine ⟨[], l :: ls, rfl, if_neg within, by rintro k ⟨⟩, ?_⟩
        rintro _ _ ⟨⟩
        exact Nat.not_le.mp within

theorem l89b8_spec {k U X : Nat} (down : X ≤ U) (enough : k < fuel) :
    ∃ mem', l89b8 (U + k) fuel U X mem = some (mem', X + k) ∧
      (∀ i < k, mem' (X + i) = mem (U + i)) ∧ ∀ x < X, mem' x = mem x := by
  induction k generalizing U X mem fuel with
  | zero =>
      obtain ⟨fuel, rfl⟩ := Nat.exists_eq_succ_of_ne_zero (Nat.ne_of_gt enough)
      refine ⟨mem, ?_, by rintro i ⟨⟩, fun _ _ => rfl⟩
      rw [l89b8]
      exact if_pos rfl
  | succ k ih =>
      obtain ⟨fuel, rfl⟩ := Nat.exists_eq_succ_of_ne_zero (Nat.ne_of_gt (Nat.zero_lt_of_lt enough))
      obtain ⟨mem', ran, moved, kept⟩ := @ih (mem.put X (mem U)) fuel (U + 1) (X + 1) (by omega)
        (Nat.lt_of_succ_lt_succ enough)
      rw [show U + 1 + k = U + (k + 1) by omega, show X + 1 + k = X + (k + 1) by omega] at ran
      refine ⟨mem', ?_, fun i small => ?_, fun x below => ?_⟩
      · rw [l89b8]
        exact (if_neg (by omega)).trans ran
      · cases i with
        | zero => exact (kept X (Nat.lt_succ_self X)).trans (put_same X _)
        | succ i =>
            have there := moved i (by omega)
            rw [put_other _ (by omega)] at there
            rw [show X + (i + 1) = X + 1 + i by omega, there]
            exact congrArg mem (by omega)
      · exact (kept x (Nat.lt_succ_of_lt below)).trans (put_other _ (Nat.ne_of_lt below))

/-- In order, the first line's number is the lowest. -/
theorem sorted_least {n : Nat} (sorted : Sorted ls) (first : ∀ l rest, ls = l :: rest → n ≤ l.num.toNat) :
    ∀ l ∈ ls, n ≤ l.num.toNat := by
  cases ls with
  | nil => rintro l ⟨⟩
  | cons k ls =>
      have least := first k ls rfl
      intro l inside
      rcases List.mem_cons.mp inside with rfl | inside
      · exact least
      · exact Nat.le_trans least (Nat.le_of_lt ((List.pairwise_cons.mp sorted).1 l inside))

/-- The lines between two addresses go out, and the ones after them are linked again. -/
theorem removed_placed {before gone after : List Line}
    (placed : Placed TXTTAB p (before ++ gone ++ after)) (enough : 65536 < fuel) :
    let VD3 := TXTTAB + sizes before
    ∃ mem₁ mem₂ VARTAB,
      l89b8 p.VARTAB fuel (VD3 + sizes gone) VD3 p.mem = some (mem₁, VARTAB) ∧
      lacf1 fuel VD3 mem₁ = some mem₂ ∧ Placed TXTTAB { mem := mem₂, VARTAB } (before ++ after) := by
  obtain ⟨here, VARTAB, small⟩ := placed
  rw [sizes_append, sizes_append] at VARTAB
  rw [linked_append, linked_append, image_append, at_append, opening_length, List.map_append,
    linked_lines, linked_lines, sizes_append, opening_append, at_append, opening_length,
    linked_lines, ← Nat.add_assoc] at here
  obtain ⟨⟨first, -⟩, last⟩ := here
  obtain ⟨mem₁, moved, there, kept⟩ := @l89b8_spec p.mem fuel (sizes after + 2)
    (TXTTAB + sizes before + sizes gone) (TXTTAB + sizes before) (by omega) (by omega)
  have down : mem₁.At (TXTTAB + sizes before)
      (image (linked (TXTTAB + sizes before + sizes gone) after)) := by
    refine last.moved fun i inside => there i ?_
    rwa [image_length, linked_lines] at inside
  obtain ⟨mem₂, ran, relinked, kept₂⟩ := lacf1_spec down
    (linked_links (by omega)) (by rw [linked_lines]; omega) (by rw [linked_lines]; omega : _ < fuel)
  rw [linked_lines] at relinked
  have top : p.VARTAB = TXTTAB + sizes before + sizes gone + (sizes after + 2) := by omega
  refine ⟨mem₁, mem₂, TXTTAB + sizes before + (sizes after + 2), by rw [top, moved], ran, ?_, ?_, ?_⟩
  · rw [linked_append, image_append, at_append, opening_length, linked_lines]
    refine ⟨first.kept fun x _ under => ?_, relinked⟩
    rw [opening_length, linked_lines] at under
    exact (kept₂ x under).trans (kept x under)
  · rw [sizes_append]
    dsimp only
    omega
  · dsimp only
    omega

theorem sorted_filter (sorted : Sorted ls) (keep : Line → Bool) : Sorted (ls.filter keep) :=
  List.Pairwise.filter keep sorted

theorem contents_filter (ls : List Line) (num : Word) :
    contents (ls.filter fun l => !r.has l.num) num =
      if r.has num then none else contents ls num := by
  rw [contents, List.find?_filter, contents]
  induction ls with
  | nil => simp only [List.find?_nil, Option.map_none, ite_self]
  | cons l ls ih =>
      by_cases same : l.num = num
      · cases has : r.has num <;> simp_all
      · simp_all

/-- DEL takes out the lines of its range, and no others. -/
theorem del_spec (placed : Placed TXTTAB p ls) (sorted : Sorted ls) (enough : 65536 < fuel)
    (r : Range) :
    ∃ p', del TXTTAB fuel r p = some p' ∧ Placed TXTTAB p' (ls.filter fun l => !r.has l.num) := by
  have fewer := sizes_length ls
  have VARTAB := placed.VARTAB
  have small := placed.small
  obtain ⟨⟨carry, VD3⟩, before, rest, ran, sought⟩ :=
    @lad05_spec p.mem TXTTAB fuel r.first ls placed.here (by omega) (by omega)
  obtain ⟨split, address, below, -, some⟩ := sought
  dsimp only at address
  subst split address
  rw [del, ran, Option.bind_some]
  rw [sizes_append] at VARTAB
  rw [List.length_append, sizes_append] at fewer
  cases last : r.last? with
  | none =>
      refine ⟨p, rfl, ?_⟩
      rw [List.filter_eq_self.mpr fun l _ => by rw [Range.has, last, Bool.not_false]]
      exact placed
  | some BINVAL =>
      have later := placed.here
      rw [linked_append, image_append, at_append, opening_length, linked_lines] at later
      obtain ⟨gone, after, split, passed, low, high⟩ :=
        @l8993_spec p.mem fuel rest (TXTTAB + sizes before) BINVAL later.2 (by omega) (by omega)
      subst split
      have least : ∀ l ∈ gone ++ after, r.first.toNat ≤ l.num.toNat :=
        sorted_least (List.pairwise_append.mp sorted).2.1 fun l rest split => (some l rest split).1
      rw [← List.append_assoc] at placed sorted ⊢
      obtain ⟨mem₁, mem₂, top, moved, relinked, placed'⟩ := removed_placed placed enough
      refine ⟨{ mem := mem₂, VARTAB := top }, ?_, ?_⟩
      · dsimp only
        rw [passed, Option.bind_some, moved, Option.bind_some, relinked]
        rfl
      have has (num : Word) : r.has num =
          (decide (r.first.toNat ≤ num.toNat) && decide (num.toNat ≤ BINVAL.toNat)) := by
        rw [Range.has, last]
      have kept : (before ++ gone ++ after).filter (fun l => !r.has l.num) = before ++ after := by
        have stays : ∀ l ∈ before, (!r.has l.num) = true := fun l inside => by
          rw [has, decide_eq_false (Nat.not_le.mpr (below l inside)), Bool.false_and, Bool.not_false]
        have goes : ∀ l ∈ gone, ¬(!r.has l.num) = true := fun l inside => by
          have least := least l (List.mem_append_left after inside)
          rw [has, decide_eq_true least, decide_eq_true (low l inside)]
          decide
        have past : ∀ l ∈ after, (!r.has l.num) = true := fun l inside => by
          have above : BINVAL.toNat < l.num.toNat :=
            sorted_least (List.pairwise_append.mp sorted).2.1 high l inside
          rw [has, decide_eq_false (Nat.not_le.mpr above), Bool.and_false, Bool.not_false]
        rw [List.filter_append, List.filter_append, List.filter_eq_self.mpr stays,
          List.filter_eq_nil_iff.mpr goes, List.filter_eq_self.mpr past, List.append_nil]
      rw [kept]
      exact placed'

end Deleting

/-! Everything that is entered, and DEL and NEW. -/

structure Entry where
  num : Word
  text : Text
  /-- The byte at LINHDR-2; an RTS comes after it. -/
  stub : Byte

inductive Edit
  | enter (e : Entry)
  | del (r : Range)
  | new

def Edit.perform (TXTTAB S fuel : Nat) (p : Program) : Edit → Option Entered
  | .enter e => laca8 TXTTAB S (word e.stub 0x39#8) fuel e.num e.text p
  | .del r => (Lines.del TXTTAB fuel r p).map .done
  | .new => some (.done (Lines.new TXTTAB p.mem))

def run (TXTTAB S fuel : Nat) : List Edit → Program → Option Entered
  | [], p => some (.done p)
  | e :: es, p =>
      match e.perform TXTTAB S fuel p with
      | some (.done p) => run TXTTAB S fuel es p
      | other => other

/-- What each number's line says from then on. -/
def Edit.says (program : Word → Option (List Byte)) : Edit → Word → Option (List Byte)
  | .enter e => Function.update program e.num e.text.line?
  | .del r => fun num => if r.has num then none else program num
  | .new => fun _ => none

theorem stub_link (stub : Byte) : word stub 0x39#8 ≠ 0#16 := by
  intro zero
  have low := congrArg loByte zero
  rw [loByte_word] at low
  exact absurd low (by decide)

theorem new_placed {TXTTAB : Nat} (mem : Memory) (small : TXTTAB + 2 ≤ 65536) :
    Placed TXTTAB (new TXTTAB mem) [] where
  here := Memory.putWord_at TXTTAB 0#16
  VARTAB := rfl
  small := small

section Editing

variable {TXTTAB S fuel : Nat} {p : Program} {ls : List Line}

theorem Edit.perform_spec (enough : 65536 < fuel) (placed : Placed TXTTAB p ls) (sorted : Sorted ls)
    (e : Edit) :
    (∃ p' ls', e.perform TXTTAB S fuel p = some (.done p') ∧ Placed TXTTAB p' ls' ∧ Sorted ls' ∧
      contents ls' = Edit.says (contents ls) e) ∨
    ∃ p', e.perform TXTTAB S fuel p = some (.om p') := by
  cases e with
  | enter e => exact laca8_spec placed sorted (stub_link e.stub) (Nat.le_of_lt enough)
  | del r =>
      obtain ⟨p', ran, placed'⟩ := del_spec placed sorted enough r
      refine .inl ⟨p', _, ?_, placed', sorted_filter sorted _, funext fun num => contents_filter ls num⟩
      rw [Edit.perform, ran]
      rfl
  | new =>
      have small : TXTTAB + 2 ≤ 65536 := by
        have whole := placed.VARTAB
        have fits := placed.small
        omega
      exact .inl ⟨_, [], rfl, new_placed p.mem small, .nil, rfl⟩

theorem run_spec (enough : 65536 < fuel) (es : List Edit) (placed : Placed TXTTAB p ls)
    (sorted : Sorted ls) :
    (∃ p' ls', run TXTTAB S fuel es p = some (.done p') ∧ Placed TXTTAB p' ls' ∧ Sorted ls' ∧
      contents ls' = es.foldl Edit.says (contents ls)) ∨
    ∃ p', run TXTTAB S fuel es p = some (.om p') := by
  induction es generalizing p ls with
  | nil => exact .inl ⟨p, ls, rfl, placed, sorted, rfl⟩
  | cons e es ih =>
      rw [run]
      rcases @Edit.perform_spec TXTTAB S fuel p ls enough placed sorted e with
        ⟨p', ls', one, placed', sorted', said⟩ | ⟨p', one⟩
      · rw [one]
        rcases ih placed' sorted' with ⟨p₁, ls₁, rest, placed₁, sorted₁, said₁⟩ | om
        · refine .inl ⟨p₁, ls₁, rest, placed₁, sorted₁, ?_⟩
          rw [said₁, said, List.foldl_cons]
        · exact .inr om
      · rw [one]
        exact .inr ⟨p', rfl⟩

end Editing

/-- Whatever lines are entered after NEW, replaced and taken out, by DEL too: unless memory runs
out, the program has what each number's line says last, in order and each with the address of the
next one, and a search finds the numbers that there are. -/
theorem program_edited {TXTTAB S fuel : Nat} (mem : Memory) (es : List Edit)
    (small : TXTTAB + 2 ≤ 65536) (enough : 65536 < fuel) :
    (∃ p ls, run TXTTAB S fuel es (new TXTTAB mem) = some (.done p) ∧ Placed TXTTAB p ls ∧
      Sorted ls ∧ contents ls = es.foldl Edit.says (fun _ => none) ∧
      ∀ num, ∃ V47, lad05 p.mem num fuel TXTTAB = some ((contents ls num).isNone, V47)) ∨
    ∃ p, run TXTTAB S fuel es (new TXTTAB mem) = some (.om p) := by
  rcases @run_spec TXTTAB S fuel (new TXTTAB mem) [] enough es (new_placed mem small) .nil with
    ⟨p, ls, ran, placed, sorted, said⟩ | om
  · exact .inl ⟨p, ls, ran, placed, sorted, said, lad05_contents placed sorted (Nat.le_of_lt enough)⟩
  · exact .inr om

/-- 20 END (as its token), 10 REM and 30 END, and DEL 15-25. -/
def sampleEdits : List Edit :=
  [.enter { num := 20, text := ⟨[0x8A#8], by decide, by decide⟩, stub := 0 },
   .enter { num := 10, text := ⟨[0x82#8], by decide, by decide⟩, stub := 0 },
   .enter { num := 30, text := ⟨[0x8A#8], by decide, by decide⟩, stub := 0 },
   .del (.upTo 15 25)]

theorem program_edited_sample :
    ∃ p ls, run 0x2600 0x7F00 65537 sampleEdits (new 0x2600 fun _ => 0#8) = some (.done p) ∧
      Placed 0x2600 p ls ∧ contents ls 10#16 = some [0x82#8] ∧ contents ls 20#16 = none ∧
      contents ls 30#16 = some [0x8A#8] := by
  rcases @program_edited 0x2600 0x7F00 65537 (fun _ => 0#8) sampleEdits (by decide)
    (Nat.le_refl _) with ⟨p, ls, ran, placed, -, said, -⟩ | ⟨p, om⟩
  · refine ⟨p, ls, ran, placed, ?_, ?_, ?_⟩
    · rw [said]
      decide
    · rw [said]
      decide
    · rw [said]
      decide
  · cases om

end Pugputer.Basic309.Lines

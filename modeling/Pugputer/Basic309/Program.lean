import Mathlib.Logic.Function.Basic
import Pugputer.Basic

namespace Pugputer.Basic309.Lines

/-! The program in memory: its lines in order, each with the address of the next one. -/

def STKBUF : Nat := 58

abbrev Memory := Nat → Byte

namespace Memory

variable (mem : Memory)

def word (X : Nat) : Word := Pugputer.word (mem X) (mem (X + 1))

def put (X : Nat) (A : Byte) : Memory := Function.update mem X A

def putWord (X : Nat) (U : Word) : Memory := (mem.put X (hiByte U)).put (X + 1) (loByte U)

end Memory

/-- A line's text, crunched: its NUL is not in it, and TMPLOC holds its length. -/
structure Text where
  bytes : List Byte
  nonul : 0#8 ∉ bytes
  fits : bytes.length + 5 < 256

structure Line extends Text where
  num : Word

/-- LAD05: the line with the number, or else (with the carry) where it would go. -/
def lad05 (mem : Memory) (BINVAL : Word) : (fuel X : Nat) → Option (Bool × Nat)
  | 0, _ => none
  | fuel + 1, X =>
      if mem.word X = 0#16 then some (true, X)
      else if BINVAL.toNat ≤ (mem.word (X + 2)).toNat then
        some (BINVAL.toNat < (mem.word (X + 2)).toNat, X)
      else lad05 mem BINVAL fuel (mem.word X).toNat

/-- LACC0: what is left of the program moves down, until VARTAB. -/
def lacc0 (VARTAB : Nat) : (fuel U X : Nat) → Memory → Option Memory
  | 0, _, _, _ => none
  | fuel + 1, U, X, mem =>
      let mem := mem.put X (mem U)
      if X + 1 = VARTAB then some mem else lacc0 VARTAB fuel (U + 1) (X + 1) mem

/-- LAC28, from the top down to V47; V45 comes out. -/
def lac28 (V47 : Nat) : (fuel U X : Nat) → Memory → Option (Memory × Nat)
  | 0, _, _, _ => none
  | fuel + 1, U, X, mem =>
      let mem := mem.put (U - 1) (mem (X - 1))
      if X - 1 = V47 then some (mem, U - 1) else lac28 V47 fuel (U - 1) (X - 1) mem

/-- LACDD. -/
def lacdd (V45 : Nat) : (line : List Byte) → (X : Nat) → Memory → Option Memory
  | [], _, _ => none
  | A :: line, X, mem =>
      let mem := mem.put X A
      if X + 1 = V45 then some mem else lacdd V45 line (X + 1) mem

/-- LACF7: past the line's NUL. -/
def lacf7 (mem : Memory) : (fuel U : Nat) → Option Nat
  | 0, _ => none
  | fuel + 1, U => if mem U = 0#8 then some (U + 1) else lacf7 mem fuel (U + 1)

/-- LACF1: each line gets the address of the next one. -/
def lacf1 : (fuel X : Nat) → Memory → Option Memory
  | 0, _, _ => none
  | fuel + 1, X, mem =>
      if mem.word X = 0#16 then some mem
      else (lacf7 mem fuel (X + 4)).bind fun U => lacf1 fuel U (mem.putWord X (BitVec.ofNat 16 U))

/-- The program's text, which goes up to VARTAB. -/
structure Program where
  mem : Memory
  VARTAB : Nat

/-- LAC37: there is room below the stack. -/
def lac37 (S D : Nat) : Bool := D + STKBUF < 65536 && D + STKBUF < S

/-- What becomes of a line: OM has the program as it is by then. -/
inductive Entered
  | done (p : Program)
  | om (p : Program)

/-- LACC8: the line goes in at V47, if there is any; `link` is what is in front of LINHDR. -/
def lacc8 (TXTTAB S : Nat) (link : Word) (fuel V47 : Nat) (num : Word) (text : Text) (p : Program) :
    Option Entered :=
  if text.bytes = [] then
    (lacf1 fuel TXTTAB p.mem).map fun mem => .done { p with mem }
  else
    let V41 := p.VARTAB + (text.bytes.length + 5)
    if lac37 S V41 then
      (lac28 V47 fuel (V41 + 1) (p.VARTAB + 1) p.mem).bind fun moved =>
        (lacdd moved.2 ([hiByte link, loByte link, hiByte num, loByte num] ++ text.bytes ++ [0#8])
            V47 moved.1).bind fun mem =>
          (lacf1 fuel TXTTAB mem).map fun mem => .done { mem, VARTAB := V41 }
    else some (.om p)

/-- LACA8: a line with that number goes out, and the new one in. -/
def laca8 (TXTTAB S : Nat) (link : Word) (fuel : Nat) (num : Word) (text : Text) (p : Program) :
    Option Entered :=
  (lad05 p.mem num fuel TXTTAB).bind fun found =>
    if found.1 then lacc8 TXTTAB S link fuel found.2 num text p
    else
      let next := (p.mem.word found.2).toNat
      let VARTAB := found.2 + p.VARTAB - next
      (lacc0 VARTAB fuel next found.2 p.mem).bind fun mem =>
        lacc8 TXTTAB S link fuel found.2 num text { mem, VARTAB }

/-- NEW. -/
def new (TXTTAB : Nat) (mem : Memory) : Program where
  mem := (mem.put TXTTAB 0#8).put (TXTTAB + 1) 0#8
  VARTAB := TXTTAB + 2

/-! Bytes in memory. -/

namespace Memory

variable {mem mem' : Memory} {a b : Nat} {S T : List Byte}

/-- The bytes are in memory, from `a` on. -/
def At (mem : Memory) : (a : Nat) → List Byte → Prop
  | _, [] => True
  | a, A :: T => mem a = A ∧ mem.At (a + 1) T

theorem at_append : mem.At a (S ++ T) ↔ mem.At a S ∧ mem.At (a + S.length) T := by
  induction S generalizing a with
  | nil => exact (iff_of_eq (true_and _)).symm
  | cons A S ih =>
      rw [List.cons_append, At, At, ih, List.length_cons, and_assoc, Nat.add_assoc, Nat.add_comm 1]

/-- What is at `a` in one memory is at `b` in another. -/
theorem At.moved (here : mem.At a T) (same : ∀ i < T.length, mem' (b + i) = mem (a + i)) :
    mem'.At b T := by
  induction T generalizing a b with
  | nil => trivial
  | cons A T ih =>
      refine ⟨(same 0 (Nat.succ_pos _)).trans here.1, ih here.2 fun i small => ?_⟩
      have next := same (i + 1) (Nat.succ_lt_succ small)
      rwa [Nat.add_right_comm b, Nat.add_right_comm a]

theorem At.kept (here : mem.At a T)
    (same : ∀ x, a ≤ x → x < a + T.length → mem' x = mem x) : mem'.At a T :=
  here.moved fun i small => same (a + i) (Nat.le_add_right a i) (Nat.add_lt_add_left small a)

theorem put_same (X : Nat) (A : Byte) : mem.put X A X = A := by
  rw [put, Function.update_self]

theorem put_other {X x : Nat} (A : Byte) (other : x ≠ X) : mem.put X A x = mem x := by
  rw [put, Function.update_of_ne other]

theorem At.word {U : Word} (here : mem.At a [hiByte U, loByte U]) : mem.word a = U := by
  obtain ⟨hi, lo, -⟩ := here
  rw [Memory.word, hi, lo, word_hiByte_loByte]

theorem putWord_at (X : Nat) (U : Word) : (mem.putWord X U).At X [hiByte U, loByte U] :=
  ⟨by rw [putWord, put_other _ (by omega), put_same], by rw [putWord, put_same], trivial⟩

theorem putWord_other {X x : Nat} (U : Word) (other : x < X ∨ X + 2 ≤ x) :
    mem.putWord X U x = mem x := by
  rw [putWord, put_other _ (by omega), put_other _ (by omega)]

end Memory

/-! The loops. -/

section Loops

open Memory

variable {mem : Memory} {fuel : Nat}

theorem lacc0_spec {k : Nat} {U X : Nat} (down : X ≤ U) (enough : k < fuel) :
    ∃ mem', lacc0 (X + (k + 1)) fuel U X mem = some mem' ∧
      (∀ i < k + 1, mem' (X + i) = mem (U + i)) ∧ ∀ x < X, mem' x = mem x := by
  induction k generalizing U X mem fuel with
  | zero =>
      obtain ⟨fuel, rfl⟩ := Nat.exists_eq_succ_of_ne_zero (Nat.ne_of_gt enough)
      refine ⟨mem.put X (mem U), by rw [lacc0]; exact if_pos rfl, fun i one => ?_, fun x below => ?_⟩
      · rw [Nat.lt_one_iff.mp one]
        exact put_same X _
      · exact put_other _ (Nat.ne_of_lt below)
  | succ k ih =>
      obtain ⟨fuel, rfl⟩ := Nat.exists_eq_succ_of_ne_zero (Nat.ne_of_gt (Nat.zero_lt_of_lt enough))
      obtain ⟨mem', ran, moved, kept⟩ := @ih (mem.put X (mem U)) fuel (U + 1) (X + 1) (by omega)
        (Nat.lt_of_succ_lt_succ enough)
      rw [show X + 1 + (k + 1) = X + (k + 1 + 1) by omega] at ran
      refine ⟨mem', ?_, fun i small => ?_, fun x below => ?_⟩
      · rw [lacc0]
        exact (if_neg (by omega)).trans ran
      · cases i with
        | zero => exact (kept X (Nat.lt_succ_self X)).trans (put_same X _)
        | succ i =>
            have there := moved i (by omega)
            rw [put_other _ (by omega)] at there
            rw [show X + (i + 1) = X + 1 + i by omega, there]
            exact congrArg mem (by omega)
      · exact (kept x (Nat.lt_succ_of_lt below)).trans (put_other _ (Nat.ne_of_lt below))

theorem lac28_spec {k : Nat} (V47 d : Nat) (enough : k < fuel) :
    ∃ mem', lac28 V47 fuel (V47 + (k + 1) + d) (V47 + (k + 1)) mem = some (mem', V47 + d) ∧
      (∀ i < k + 1, mem' (V47 + i + d) = mem (V47 + i)) ∧ (∀ x < V47 + d, mem' x = mem x) ∧
      ∀ x, V47 + (k + 1) + d ≤ x → mem' x = mem x := by
  induction k generalizing mem fuel with
  | zero =>
      obtain ⟨fuel, rfl⟩ := Nat.exists_eq_succ_of_ne_zero (Nat.ne_of_gt enough)
      rw [lac28, show V47 + (0 + 1) + d - 1 = V47 + d by omega,
        show V47 + (0 + 1) - 1 = V47 by omega]
      refine ⟨mem.put (V47 + d) (mem V47), if_pos rfl, fun i one => ?_, fun x below => ?_,
        fun x above => ?_⟩
      · rw [Nat.lt_one_iff.mp one]
        exact put_same _ _
      · exact put_other _ (Nat.ne_of_lt below)
      · exact put_other _ (by omega)
  | succ k ih =>
      obtain ⟨fuel, rfl⟩ := Nat.exists_eq_succ_of_ne_zero (Nat.ne_of_gt (Nat.zero_lt_of_lt enough))
      rw [lac28, show V47 + (k + 1 + 1) + d - 1 = V47 + (k + 1) + d by omega,
        show V47 + (k + 1 + 1) - 1 = V47 + (k + 1) by omega]
      obtain ⟨mem', ran, moved, below, above⟩ :=
        @ih (mem.put (V47 + (k + 1) + d) (mem (V47 + (k + 1)))) fuel (Nat.lt_of_succ_lt_succ enough)
      refine ⟨mem', (if_neg (by omega)).trans ran, fun i small => ?_, fun x under => ?_,
        fun x over_ => ?_⟩
      · by_cases last : i = k + 1
        · rw [last, above _ (by omega), show V47 + (k + 1) + d = V47 + (k + 1) + d from rfl]
          exact put_same _ _
        · rw [moved i (by omega)]
          exact put_other _ (by omega)
      · exact (below x under).trans (put_other _ (by omega))
      · exact (above x (by omega)).trans (put_other _ (by omega))

theorem lacdd_spec {line : List Byte} {X : Nat} (some : line ≠ []) :
    ∃ mem', lacdd (X + line.length) line X mem = Option.some mem' ∧ mem'.At X line ∧
      ∀ x, x < X ∨ X + line.length ≤ x → mem' x = mem x := by
  induction line generalizing X mem with
  | nil => exact absurd rfl some
  | cons A line ih =>
      rw [lacdd]
      by_cases last : line = []
      · subst last
        refine ⟨mem.put X A, if_pos rfl, ⟨put_same X A, trivial⟩, fun x outside => put_other A ?_⟩
        rw [List.length_singleton] at outside
        omega
      · have more := List.length_pos_iff.mpr last
        obtain ⟨mem', ran, here, kept⟩ := @ih (mem.put X A) (X + 1) last
        rw [List.length_cons, show X + (line.length + 1) = X + 1 + line.length by omega]
        refine ⟨mem', (if_neg (by omega)).trans ran, ⟨?_, here⟩, fun x outside => ?_⟩
        · exact (kept X (.inl (Nat.lt_succ_self X))).trans (put_same X A)
        · exact (kept x (by omega)).trans (put_other A (by omega))

theorem lacf7_spec {text : List Byte} (nonul : 0#8 ∉ text) {U : Nat}
    (here : mem.At U (text ++ [0#8])) (enough : text.length < fuel) :
    lacf7 mem fuel U = some (U + (text.length + 1)) := by
  induction text generalizing U fuel with
  | nil =>
      obtain ⟨fuel, rfl⟩ := Nat.exists_eq_succ_of_ne_zero (Nat.ne_of_gt enough)
      rw [lacf7]
      exact if_pos here.1
  | cons A text ih =>
      obtain ⟨fuel, rfl⟩ := Nat.exists_eq_succ_of_ne_zero (Nat.ne_of_gt (Nat.zero_lt_of_lt enough))
      rw [List.mem_cons, not_or] at nonul
      have next := ih nonul.2 here.2 (Nat.lt_of_succ_lt_succ enough)
      rw [lacf7, if_neg (here.1.symm ▸ Ne.symm nonul.1), next, List.length_cons]
      exact congrArg some (by omega)

end Loops

/-! Lines in memory. -/

def Line.size (l : Line) : Nat := l.bytes.length + 5

/-- A line from its number on. -/
def Line.rest (l : Line) : List Byte := [hiByte l.num, loByte l.num] ++ l.bytes ++ [0#8]

def linkBytes (link : Word) : List Byte := [hiByte link, loByte link]

/-- Lines with what they have for the address of the next one. -/
def image : List (Word × Line) → List Byte
  | [] => [0#8, 0#8]
  | (link, l) :: ls => linkBytes link ++ l.rest ++ image ls

def sizes : List Line → Nat
  | [] => 0
  | l :: ls => l.size + sizes ls

/-- With the address of the next line, from `a` on. -/
def linked : (a : Nat) → List Line → List (Word × Line)
  | _, [] => []
  | a, l :: ls => (BitVec.ofNat 16 (a + l.size), l) :: linked (a + l.size) ls

theorem rest_length (l : Line) : l.rest.length + 2 = l.size := by
  rw [Line.rest, Line.size, List.length_append, List.length_append]
  simp only [List.length_cons, List.length_nil]
  omega

theorem line_length (link : Word) (l : Line) : (linkBytes link ++ l.rest).length = l.size := by
  have one := rest_length l
  rw [List.length_append, linkBytes]
  simp only [List.length_cons, List.length_nil]
  omega

theorem sizes_cons (l : Line) (ls : List Line) : sizes (l :: ls) = l.size + sizes ls := by
  rw [sizes]

theorem sizes_append (ls ls' : List Line) : sizes (ls ++ ls') = sizes ls + sizes ls' := by
  induction ls with
  | nil => rw [List.nil_append, sizes, Nat.zero_add]
  | cons l ls ih => rw [List.cons_append, sizes, ih, sizes, Nat.add_assoc]

theorem image_length (ls : List (Word × Line)) :
    (image ls).length = sizes (ls.map Prod.snd) + 2 := by
  induction ls with
  | nil => rfl
  | cons l ls ih =>
      obtain ⟨link, l⟩ := l
      rw [image, List.length_append, line_length, ih, List.map_cons, sizes_cons, Nat.add_assoc]

@[simp] theorem linked_lines (a : Nat) (ls : List Line) : (linked a ls).map Prod.snd = ls := by
  induction ls generalizing a with
  | nil => rfl
  | cons l ls ih => rw [linked, List.map_cons, ih]

theorem linked_append (a : Nat) (ls ls' : List Line) :
    linked a (ls ++ ls') = linked a ls ++ linked (a + sizes ls) ls' := by
  induction ls generalizing a with
  | nil => rfl
  | cons l ls ih => rw [List.cons_append, linked, ih, sizes_cons, linked, List.cons_append, Nat.add_assoc]

/-- Lines that others come after. -/
def opening (ls : List (Word × Line)) : List Byte := ls.flatMap fun l => linkBytes l.1 ++ l.2.rest

theorem image_append (ls ls' : List (Word × Line)) : image (ls ++ ls') = opening ls ++ image ls' := by
  induction ls with
  | nil => rfl
  | cons l ls ih =>
      have first : opening (l :: ls) = linkBytes l.1 ++ l.2.rest ++ opening ls := List.flatMap_cons
      rw [List.cons_append, image, ih, first, List.append_assoc, List.append_assoc, List.append_assoc]

theorem opening_append (ls ls' : List (Word × Line)) :
    opening (ls ++ ls') = opening ls ++ opening ls' :=
  List.flatMap_append

theorem opening_length (ls : List (Word × Line)) : (opening ls).length = sizes (ls.map Prod.snd) := by
  have whole := image_length ls
  rw [← List.append_nil ls, image_append, List.length_append, List.append_nil] at whole
  have two : (image []).length = 2 := rfl
  omega

open Memory

variable {mem : Memory} {a fuel : Nat}

theorem link_next {a size : Nat} (small : a + size < 65536) (some : 0 < size) :
    BitVec.ofNat 16 (a + size) ≠ 0#16 ∧ (BitVec.ofNat 16 (a + size)).toNat = a + size := by
  have value : (BitVec.ofNat 16 (a + size)).toNat = a + size := by
    rw [BitVec.toNat_ofNat]
    exact Nat.mod_eq_of_lt small
  refine ⟨fun zero => ?_, value⟩
  rw [zero] at value
  have none : a + size = 0 := value.symm
  omega

theorem line_here {l : Line} {ls : List Line} (here : mem.At a (image (linked a (l :: ls)))) :
    mem.word a = BitVec.ofNat 16 (a + l.size) ∧ mem.word (a + 2) = l.num ∧
      mem.At (a + l.size) (image (linked (a + l.size) ls)) := by
  rw [linked, image, at_append, line_length, at_append] at here
  obtain ⟨⟨link, line⟩, rest⟩ := here
  rw [Line.rest, at_append, at_append] at line
  exact ⟨link.word, line.1.1.word, rest⟩

/-- The line with the number, and no line before it has it or a higher one. -/
structure Sought (BINVAL : Word) (a : Nat) (ls : List Line) (found : Bool × Nat)
    (before after : List Line) : Prop where
  split : ls = before ++ after
  address : found.2 = a + sizes before
  below : ∀ l ∈ before, l.num.toNat < BINVAL.toNat
  none : after = [] → found.1 = true
  some : ∀ l ls, after = l :: ls → BINVAL.toNat ≤ l.num.toNat ∧
    (found.1 = false ↔ BINVAL = l.num)

theorem lad05_spec (BINVAL : Word) {ls : List Line} (here : mem.At a (image (linked a ls)))
    (small : a + sizes ls < 65536) (enough : ls.length < fuel) :
    ∃ found before after, lad05 mem BINVAL fuel a = some found ∧
      Sought BINVAL a ls found before after := by
  induction ls generalizing a fuel with
  | nil =>
      obtain ⟨fuel, rfl⟩ := Nat.exists_eq_succ_of_ne_zero (Nat.ne_of_gt enough)
      have stop : mem.word a = 0#16 := @At.word mem a 0#16 here
      refine ⟨(true, a), [], [], ?_, rfl, rfl, by rintro l ⟨⟩, fun _ => rfl, by rintro l ls ⟨⟩⟩
      rw [lad05]
      exact if_pos stop
  | cons l ls ih =>
      obtain ⟨fuel, rfl⟩ := Nat.exists_eq_succ_of_ne_zero (Nat.ne_of_gt (Nat.zero_lt_of_lt enough))
      rw [sizes_cons] at small
      obtain ⟨nonzero, value⟩ := @link_next a l.size (by omega) (Nat.succ_pos _)
      obtain ⟨next, number, rest⟩ := line_here here
      rw [lad05, next, if_neg nonzero, number]
      by_cases stops : BINVAL.toNat ≤ l.num.toNat
      · refine ⟨(decide (BINVAL.toNat < l.num.toNat), a), [], l :: ls, if_pos stops, rfl, rfl,
          by rintro l ⟨⟩, by rintro ⟨⟩, ?_⟩
        rintro _ _ ⟨⟩
        refine ⟨stops, ?_⟩
        rw [decide_eq_false_iff_not, Nat.not_lt, ← BitVec.toNat_inj]
        exact ⟨fun ge => Nat.le_antisymm stops ge, fun same => Nat.le_of_eq same.symm⟩
      · obtain ⟨found, before, after, ran, sought⟩ := ih rest (by omega)
          (Nat.lt_of_succ_lt_succ enough)
        refine ⟨found, l :: before, after, ?_, ?_⟩
        · rw [if_neg stops, value]
          exact ran
        · refine ⟨congrArg (l :: ·) sought.split, ?_, fun k inside => ?_, sought.none, sought.some⟩
          · rw [sought.address, sizes_cons, Nat.add_assoc]
          · rcases List.mem_cons.mp inside with rfl | inside
            · exact Nat.not_le.mp stops
            · exact sought.below k inside

/-- Whatever the lines have, as long as it is not 0, they get the addresses. -/
theorem lacf1_spec {ls : List (Word × Line)} (here : mem.At a (image ls))
    (links : ∀ l ∈ ls, l.1 ≠ 0#16) (small : a + sizes (ls.map Prod.snd) < 65536)
    (enough : sizes (ls.map Prod.snd) < fuel) :
    ∃ mem', lacf1 fuel a mem = some mem' ∧ mem'.At a (image (linked a (ls.map Prod.snd))) ∧
      ∀ x < a, mem' x = mem x := by
  induction ls generalizing a fuel mem with
  | nil =>
      obtain ⟨fuel, rfl⟩ := Nat.exists_eq_succ_of_ne_zero (Nat.ne_of_gt enough)
      have stop : mem.word a = 0#16 := @At.word mem a 0#16 here
      refine ⟨mem, ?_, here, fun _ _ => rfl⟩
      rw [lacf1]
      exact if_pos stop
  | cons l ls ih =>
      obtain ⟨link, l⟩ := l
      obtain ⟨fuel, rfl⟩ := Nat.exists_eq_succ_of_ne_zero (Nat.ne_of_gt (Nat.zero_lt_of_lt enough))
      rw [List.map_cons, sizes_cons] at small enough
      dsimp only at small enough
      have size : l.size = l.bytes.length + 5 := rfl
      rw [image, at_append, line_length, at_append] at here
      obtain ⟨⟨first, line⟩, rest⟩ := here
      have next : mem.word a = link := first.word
      have nonzero : link ≠ 0#16 := links (link, l) List.mem_cons_self
      have text : mem.At (a + 4) (l.bytes ++ [0#8]) := by
        rw [Line.rest, List.append_assoc, at_append] at line
        exact line.2
      have scan := lacf7_spec l.nonul text (by omega : l.bytes.length < fuel)
      rw [show a + 4 + (l.bytes.length + 1) = a + l.size by omega] at scan
      have later : (mem.putWord a (BitVec.ofNat 16 (a + l.size))).At (a + l.size) (image ls) :=
        rest.kept fun x above _ => putWord_other _ (by omega)
      obtain ⟨mem', ran, relinked, kept⟩ := @ih _ (a + l.size) fuel later
        (fun k inside => links k (List.mem_cons_of_mem _ inside)) (by omega) (by omega)
      refine ⟨mem', ?_, ?_, fun x below => ?_⟩
      · rw [lacf1, next, if_neg nonzero, scan]
        exact ran
      · rw [List.map_cons, linked, image, at_append, line_length, at_append]
        refine ⟨⟨?_, ?_⟩, relinked⟩
        · refine (putWord_at a (BitVec.ofNat 16 (a + l.size))).kept fun x _ under => kept x ?_
          rw [List.length_cons, List.length_singleton] at under
          omega
        · have long := rest_length l
          refine At.kept line fun x above under => ?_
          change a + 2 ≤ x at above
          change x < a + 2 + l.rest.length at under
          exact (kept x (by omega)).trans (putWord_other _ (by omega))
      · exact (kept x (by omega)).trans (putWord_other _ (.inl below))

/-! What is entered. -/

/-- The line as it is entered, if it has a text. -/
def entered (num : Word) (text : Text) : List Line :=
  if text.bytes = [] then [] else [{ text with num }]

theorem linked_links {ls : List Line} (small : a + sizes ls < 65536) :
    ∀ l ∈ linked a ls, l.1 ≠ 0#16 := by
  induction ls generalizing a with
  | nil => rintro l ⟨⟩
  | cons l ls ih =>
      rw [sizes_cons] at small
      intro k inside
      rcases List.mem_cons.mp inside with rfl | inside
      · exact (@link_next a l.size (by omega) (Nat.succ_pos _)).1
      · exact ih (by omega) k inside

section Entering

variable {TXTTAB S : Nat} {link num : Word} {text : Text} {p : Program} {before after : List (Word × Line)}
  {ls : List Line}

/-- The program as LACC8 has it: its lines' addresses are not right any more. -/
structure Opened (TXTTAB : Nat) (p : Program) (before after : List (Word × Line)) : Prop where
  here : p.mem.At TXTTAB (image (before ++ after))
  links : ∀ l ∈ before ++ after, l.1 ≠ 0#16
  VARTAB : p.VARTAB = TXTTAB + sizes (before.map Prod.snd) + sizes (after.map Prod.snd) + 2
  small : p.VARTAB ≤ 65536

/-- The lines are what there is from TXTTAB to VARTAB, each with the address of the next one. -/
structure Placed (TXTTAB : Nat) (p : Program) (ls : List Line) : Prop where
  here : p.mem.At TXTTAB (image (linked TXTTAB ls))
  VARTAB : p.VARTAB = TXTTAB + sizes ls + 2
  small : p.VARTAB ≤ 65536

/-- A line's place is made, and it is put there. -/
theorem Opened.inserted (opened : Opened TXTTAB p before after) (room : p.VARTAB < 65536)
    (enough : 65536 ≤ fuel) :
    let V47 := TXTTAB + sizes (before.map Prod.snd)
    let V45 := V47 + (text.bytes.length + 5)
    ∃ mem₁ mem₂, lac28 V47 fuel (p.VARTAB + (text.bytes.length + 5) + 1) (p.VARTAB + 1) p.mem =
        some (mem₁, V45) ∧
      lacdd V45 ([hiByte link, loByte link, hiByte num, loByte num] ++ text.bytes ++ [0#8]) V47
        mem₁ = some mem₂ ∧
      mem₂.At TXTTAB (image (before ++ (link, { text with num }) :: after)) := by
  obtain ⟨here, -, VARTAB, -⟩ := opened
  let l : Line := { text with num }
  have size : l.size = text.bytes.length + 5 := rfl
  have line : [hiByte link, loByte link, hiByte num, loByte num] ++ text.bytes ++ [0#8] =
      linkBytes link ++ l.rest := rfl
  rw [image_append, at_append, opening_length] at here
  obtain ⟨first, last⟩ := here
  obtain ⟨mem₁, hole, moved, below, -⟩ := @lac28_spec p.mem fuel
    (sizes (after.map Prod.snd) + 2) (TXTTAB + sizes (before.map Prod.snd))
    (text.bytes.length + 5) (by omega)
  obtain ⟨mem₂, put, written, kept⟩ := @lacdd_spec mem₁ (linkBytes link ++ l.rest)
    (TXTTAB + sizes (before.map Prod.snd)) (List.cons_ne_nil _ _)
  rw [line_length, size] at put kept
  have top : p.VARTAB + (text.bytes.length + 5) + 1 =
      TXTTAB + sizes (before.map Prod.snd) + (sizes (after.map Prod.snd) + 2 + 1) +
        (text.bytes.length + 5) := by omega
  have bottom : p.VARTAB + 1 =
      TXTTAB + sizes (before.map Prod.snd) + (sizes (after.map Prod.snd) + 2 + 1) := by omega
  refine ⟨mem₁, mem₂, by rw [top, bottom, hole], by rw [line, put], ?_⟩
  change mem₂.At TXTTAB (image (before ++ (link, l) :: after))
  rw [image_append, at_append, opening_length, image, at_append, line_length]
  refine ⟨first.kept fun x above under => ?_, written, last.moved fun i inside => ?_⟩
  · rw [opening_length] at under
    exact (kept x (.inl under)).trans (below x (by omega))
  · rw [image_length] at inside
    have there := moved i (by omega)
    rw [kept _ (.inr (by omega)), ← there, size]
    exact congrArg mem₁ (by omega)

theorem lacc8_spec (opened : Opened TXTTAB p before after) (nonzero : link ≠ 0#16)
    (enough : 65536 ≤ fuel) :
    (∃ p', lacc8 TXTTAB S link fuel (TXTTAB + sizes (before.map Prod.snd)) num text p =
        some (.done p') ∧
      Placed TXTTAB p' (before.map Prod.snd ++ entered num text ++ after.map Prod.snd)) ∨
    (text.bytes ≠ [] ∧ lac37 S (p.VARTAB + (text.bytes.length + 5)) = false ∧
      lacc8 TXTTAB S link fuel (TXTTAB + sizes (before.map Prod.snd)) num text p =
        some (.om p)) := by
  have ⟨here, links, VARTAB, small⟩ := opened
  rw [lacc8]
  by_cases empty : text.bytes = []
  · have total : sizes ((before ++ after).map Prod.snd) =
        sizes (before.map Prod.snd) + sizes (after.map Prod.snd) := by
      rw [List.map_append, sizes_append]
    obtain ⟨mem', ran, relinked, -⟩ := lacf1_spec here links (by omega) (by omega : _ < fuel)
    refine .inl ⟨{ p with mem := mem' }, ?_, ?_⟩
    · rw [if_pos empty, ran]
      rfl
    · rw [entered, if_pos empty, List.append_nil, ← List.map_append]
      exact ⟨relinked, by rw [total, ← Nat.add_assoc]; exact VARTAB, small⟩
  · rw [if_neg empty]
    dsimp only
    cases room : lac37 S (p.VARTAB + (text.bytes.length + 5)) with
    | false => exact .inr ⟨empty, rfl, rfl⟩
    | true =>
        rw [lac37, Bool.and_eq_true, decide_eq_true_eq, decide_eq_true_eq, STKBUF] at room
        let l : Line := { text with num }
        have size : l.size = text.bytes.length + 5 := rfl
        have total : sizes ((before ++ (link, l) :: after).map Prod.snd) =
            sizes (before.map Prod.snd) + (l.size + sizes (after.map Prod.snd)) := by
          rw [List.map_append, sizes_append, List.map_cons, sizes_cons]
        have addresses : ∀ k ∈ before ++ (link, l) :: after, k.1 ≠ 0#16 := by
          intro k inside
          rcases List.mem_append.mp inside with early | late
          · exact links k (List.mem_append_left _ early)
          · rcases List.mem_cons.mp late with rfl | late
            · exact nonzero
            · exact links k (List.mem_append_right _ late)
        obtain ⟨mem₁, mem₂, hole, put, inserted⟩ :=
          @Opened.inserted fuel TXTTAB link num text p before after opened (by omega) enough
        have lines : mem₂.At TXTTAB (image (before ++ (link, l) :: after)) := inserted
        obtain ⟨mem₃, ran, relinked, -⟩ := lacf1_spec lines addresses (by omega)
          (by omega : _ < fuel)
        refine .inl ⟨{ mem := mem₃, VARTAB := p.VARTAB + (text.bytes.length + 5) }, ?_, ?_⟩
        · rw [if_pos rfl, hole, Option.bind_some, put, Option.bind_some, ran]
          rfl
        · have there : (before ++ (link, l) :: after).map Prod.snd =
              before.map Prod.snd ++ entered num text ++ after.map Prod.snd := by
            rw [entered, if_neg empty, List.append_assoc, List.singleton_append, List.map_append,
              List.map_cons]
          rw [← there]
          refine ⟨relinked, ?_, ?_⟩
          · rw [total]
            dsimp only
            omega
          · dsimp only
            omega

/-- In order, and no number twice. -/
def Sorted (ls : List Line) : Prop := ls.Pairwise fun k l => k.num.toNat < l.num.toNat

/-- What a number's line says. -/
def contents (ls : List Line) (num : Word) : Option (List Byte) :=
  (ls.find? (·.num = num)).map (·.bytes)

/-- The text as it is entered for a number; an empty one takes the line out. -/
def Text.line? (text : Text) : Option (List Byte) := if text.bytes = [] then none else some text.bytes

theorem contents_append (ls ls' : List Line) (k : Word) :
    contents (ls ++ ls') k = (contents ls k).or (contents ls' k) := by
  rw [contents, List.find?_append, Option.map_or]
  rfl

theorem contents_none {k : Word} (lacks : ∀ l ∈ ls, l.num ≠ k) : contents ls k = none := by
  rw [contents, Option.map_eq_none_iff, List.find?_eq_none]
  intro l inside
  simpa using lacks l inside

theorem contents_entered (num : Word) (text : Text) (k : Word) :
    contents (entered num text) k = if k = num then text.line? else none := by
  rw [entered, Text.line?]
  split
  · split <;> rfl
  · split
    · next same =>
        subst same
        simp [contents]
    · next other =>
        refine contents_none fun l inside => ?_
        rw [List.mem_singleton.mp inside]
        exact Ne.symm other

/-- What was there between two parts, at most one line with that number, is replaced. -/
theorem contents_replaced {lower old upper : List Line}
    (below : ∀ l ∈ lower, l.num.toNat < num.toNat) (same : ∀ l ∈ old, l.num = num)
    (above : ∀ l ∈ upper, num.toNat < l.num.toNat) :
    contents (lower ++ entered num text ++ upper) =
      Function.update (contents (lower ++ old ++ upper)) num text.line? := by
  funext k
  rw [contents_append, contents_append, contents_entered]
  by_cases here : k = num
  · subst here
    have noLower : contents lower k = none := contents_none fun l inside same => by
      have less := below l inside
      rw [same] at less
      exact Nat.lt_irrefl _ less
    have noUpper : contents upper k = none := contents_none fun l inside same => by
      have less := above l inside
      rw [same] at less
      exact Nat.lt_irrefl _ less
    rw [Function.update_self, noLower, noUpper, if_pos rfl, Option.none_or, Option.or_none]
  · have noOld : contents old k = none := contents_none fun l inside again =>
      here (again.symm.trans (same l inside))
    rw [Function.update_of_ne here, contents_append, contents_append, noOld, if_neg here]

theorem sorted_replaced {lower old upper : List Line} (sorted : Sorted (lower ++ old ++ upper))
    (below : ∀ l ∈ lower, l.num.toNat < num.toNat) (above : ∀ l ∈ upper, num.toNat < l.num.toNat) :
    Sorted (lower ++ entered num text ++ upper) := by
  rw [Sorted, List.append_assoc, List.pairwise_append] at sorted
  obtain ⟨first, rest, between⟩ := sorted
  have last := (List.pairwise_append.mp rest).2.1
  have number : ∀ l ∈ entered num text, l.num = num := by
    intro l inside
    rw [entered] at inside
    split at inside
    · cases inside
    · rw [List.mem_singleton.mp inside]
  have one : Sorted (entered num text) := by
    rw [entered]
    split
    · exact List.Pairwise.nil
    · exact List.pairwise_singleton _ _
  rw [Sorted, List.append_assoc, List.pairwise_append, List.pairwise_append]
  refine ⟨first, ⟨one, last, fun k inside l among => ?_⟩, fun k inside l among => ?_⟩
  · rw [number k inside]
    exact above l among
  · rcases List.mem_append.mp among with entered | among
    · rw [number l entered]
      exact below k inside
    · exact between k inside l (List.mem_append_right _ among)

theorem sizes_length (ls : List Line) : ls.length ≤ sizes ls := by
  induction ls with
  | nil => exact Nat.zero_le _
  | cons l ls ih =>
      have five : l.size = l.bytes.length + 5 := rfl
      rw [sizes_cons, List.length_cons]
      omega

theorem Sought.above {carry : Bool} {V47 : Nat} {lower upper : List Line}
    (sought : Sought num a ls (carry, V47) lower upper) (sorted : Sorted ls) (lacks : carry = true) :
    ∀ l ∈ upper, num.toNat < l.num.toNat := by
  obtain ⟨split, -, -, -, some⟩ := sought
  subst split lacks
  cases upper with
  | nil => rintro l ⟨⟩
  | cons l ls =>
      obtain ⟨le, match_⟩ := some l ls rfl
      have other : num.toNat ≠ l.num.toNat := fun same =>
        Bool.false_ne_true (match_.mpr (BitVec.toNat_inj.mp same)).symm
      intro k inside
      rcases List.mem_cons.mp inside with rfl | inside
      · omega
      · have more := (List.pairwise_cons.mp (List.pairwise_append.mp sorted).2.1).1 k inside
        omega

theorem Placed.opened {lower upper : List Line} (placed : Placed TXTTAB p (lower ++ upper)) :
    Opened TXTTAB p (linked TXTTAB lower) (linked (TXTTAB + sizes lower) upper) := by
  obtain ⟨here, VARTAB, small⟩ := placed
  rw [linked_append] at here
  rw [sizes_append] at VARTAB
  have linksBefore := @linked_links TXTTAB lower (by omega)
  have linksAfter := @linked_links (TXTTAB + sizes lower) upper (by omega)
  refine ⟨here, fun l inside => ?_, by rw [linked_lines, linked_lines]; omega, small⟩
  exact (List.mem_append.mp inside).elim (linksBefore l) (linksAfter l)

/-- A line is taken out. -/
theorem lacc0_opened {lower upper : List Line} {l : Line}
    (placed : Placed TXTTAB p (lower ++ l :: upper)) (enough : 65536 ≤ fuel) :
    let V47 := TXTTAB + sizes lower
    let next := (p.mem.word V47).toNat
    let VARTAB := V47 + p.VARTAB - next
    ∃ mem', lacc0 VARTAB fuel next V47 p.mem = some mem' ∧
      Opened TXTTAB { mem := mem', VARTAB } (linked TXTTAB lower) (linked (V47 + l.size) upper) := by
  obtain ⟨here, VARTAB, small⟩ := placed
  rw [sizes_append, sizes_cons] at VARTAB
  have size : l.size = l.bytes.length + 5 := rfl
  obtain ⟨-, next⟩ := @link_next (TXTTAB + sizes lower) l.size (by omega) (by omega)
  rw [linked_append, linked, image_append, at_append, opening_length, linked_lines, image,
    at_append, line_length] at here
  obtain ⟨first, line, last⟩ := here
  have link : p.mem.word (TXTTAB + sizes lower) =
      BitVec.ofNat 16 (TXTTAB + sizes lower + l.size) := (at_append.mp line).1.word
  have shorter : TXTTAB + sizes lower + p.VARTAB - (TXTTAB + sizes lower + l.size) =
      TXTTAB + sizes lower + (sizes upper + 1 + 1) := by omega
  obtain ⟨mem', moved, there, kept⟩ := @lacc0_spec p.mem fuel (sizes upper + 1)
    (TXTTAB + sizes lower + l.size) (TXTTAB + sizes lower) (by omega) (by omega)
  have linksBefore := @linked_links TXTTAB lower (by omega)
  have linksAfter := @linked_links (TXTTAB + sizes lower + l.size) upper (by omega)
  dsimp only
  rw [link, next, shorter]
  refine ⟨mem', moved, ?_, fun l inside => ?_, by rw [linked_lines, linked_lines]; dsimp only; omega,
    by dsimp only; omega⟩
  · rw [image_append, at_append, opening_length, linked_lines]
    refine ⟨first.kept fun x _ under => kept x ?_, last.moved fun i inside => there i ?_⟩
    · rwa [opening_length, linked_lines] at under
    · rwa [image_length, linked_lines] at inside
  · exact (List.mem_append.mp inside).elim (linksBefore l) (linksAfter l)

theorem Opened.enters {lower upper : List Line} {a b : Nat}
    (opened : Opened TXTTAB p (linked a lower) (linked b upper)) (nonzero : link ≠ 0#16)
    (enough : 65536 ≤ fuel) :
    (∃ p', lacc8 TXTTAB S link fuel (TXTTAB + sizes lower) num text p = some (.done p') ∧
      Placed TXTTAB p' (lower ++ entered num text ++ upper)) ∨
    ∃ p', lacc8 TXTTAB S link fuel (TXTTAB + sizes lower) num text p = some (.om p') := by
  have enters := @lacc8_spec fuel TXTTAB S link num text p _ _ opened nonzero enough
  rw [linked_lines, linked_lines] at enters
  rcases enters with done | ⟨-, -, om⟩
  · exact .inl done
  · exact .inr ⟨p, om⟩

/-- A line entered either runs out of memory or is the one that its number has from then on. -/
theorem laca8_spec (placed : Placed TXTTAB p ls) (sorted : Sorted ls) (nonzero : link ≠ 0#16)
    (enough : 65536 ≤ fuel) :
    (∃ p' ls', laca8 TXTTAB S link fuel num text p = some (.done p') ∧ Placed TXTTAB p' ls' ∧
      Sorted ls' ∧ contents ls' = Function.update (contents ls) num text.line?) ∨
    ∃ p', laca8 TXTTAB S link fuel num text p = some (.om p') := by
  have fewer := sizes_length ls
  have VARTAB := placed.VARTAB
  have small := placed.small
  obtain ⟨⟨carry, V47⟩, before, after, ran, sought⟩ :=
    @lad05_spec p.mem TXTTAB fuel num ls placed.here (by omega) (by omega)
  have above := sought.above sorted
  obtain ⟨split, address, below, none, some⟩ := sought
  dsimp only at address none some
  subst split address
  rw [laca8, ran, Option.bind_some]
  dsimp only
  cases carry with
  | true =>
      rw [if_pos rfl]
      refine (placed.opened.enters nonzero enough).imp_left fun ⟨p', done, placed'⟩ => ?_
      refine ⟨p', _, done, placed', ?_, ?_⟩
      · exact @sorted_replaced num text before [] after (by rwa [List.append_nil]) below (above rfl)
      · have replaced := @contents_replaced num text before [] after below (by rintro l ⟨⟩)
          (above rfl)
        rwa [List.append_nil] at replaced
  | false =>
      cases after with
      | nil => cases none rfl
      | cons l rest =>
          have same : num = l.num := (some l rest rfl).2.mp rfl
          have sorted' : Sorted (before ++ [l] ++ rest) := by
            rwa [List.append_assoc, List.singleton_append]
          have above : ∀ k ∈ rest, num.toNat < k.num.toNat := by
            rw [same]
            exact (List.pairwise_cons.mp (List.pairwise_append.mp sorted).2.1).1
          obtain ⟨mem', moved, opened⟩ := lacc0_opened placed enough
          rw [if_neg Bool.false_ne_true, moved, Option.bind_some]
          refine (opened.enters nonzero enough).imp_left fun ⟨p', done, placed'⟩ => ?_
          refine ⟨p', _, done, placed', ?_, ?_⟩
          · exact @sorted_replaced num text before [l] rest sorted' below above
          · have replaced := @contents_replaced num text before [l] rest below
              (fun k inside => (List.mem_singleton.mp inside) ▸ same.symm) above
            rwa [List.append_assoc before [l], List.singleton_append] at replaced

/-- LAD01 finds the numbers that have a line. -/
theorem lad05_contents (placed : Placed TXTTAB p ls) (sorted : Sorted ls) (enough : 65536 ≤ fuel)
    (num : Word) :
    ∃ V47, lad05 p.mem num fuel TXTTAB = some ((contents ls num).isNone, V47) := by
  obtain ⟨here, VARTAB, small⟩ := placed
  have fewer := sizes_length ls
  obtain ⟨⟨carry, V47⟩, before, after, ran, sought⟩ :=
    @lad05_spec p.mem TXTTAB fuel num ls here (by omega) (by omega)
  refine ⟨V47, ran.trans (congrArg (fun c => some (c, V47)) ?_)⟩
  have above := sought.above sorted
  obtain ⟨split, -, below, none, some⟩ := sought
  subst split
  have noLower : contents before num = Option.none := contents_none fun l inside same => by
    have less := below l inside
    rw [same] at less
    exact Nat.lt_irrefl _ less
  rw [contents_append, noLower, Option.none_or]
  cases carry with
  | true =>
      have noUpper : contents after num = Option.none := contents_none fun l inside same => by
        have less := above rfl l inside
        rw [same] at less
        exact Nat.lt_irrefl _ less
      rw [noUpper]
      rfl
  | false =>
      cases after with
      | nil => cases none rfl
      | cons l rest =>
          have same : num = l.num := (some l rest rfl).2.mp rfl
          simp [contents, same]

end Entering

end Pugputer.Basic309.Lines

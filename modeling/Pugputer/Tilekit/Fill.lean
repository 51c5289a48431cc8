import Mathlib.Data.Finset.Card
import Mathlib.Data.Finset.Prod
import Pugputer.Tilekit.Flood

namespace Pugputer.Tilekit

/-! MFILL: the cells of a map that are joined to one. -/

def mfmax : Nat := 1024

/-- CELLADDR. -/
def MapCalc.celladdr (m : MapCalc) (p : Nat × Nat) : Nat :=
  (m.mbase + 2 * ((p.2 <<< m.mapwsh) + p.1) % 0x10000) % 0x1000000

def MapCalc.getcell (m : MapCalc) (vram : Nat → Byte) (p : Nat × Nat) : Word :=
  word (vram (m.celladdr p)) (vram (m.celladdr p + 1))

def MapCalc.putcell (m : MapCalc) (MPEN : Word) (vram : Nat → Byte) (p : Nat × Nat) : Nat → Byte :=
  Function.update (Function.update vram (m.celladdr p) (hiByte MPEN)) (m.celladdr p + 1) (loByte MPEN)

/-- What MFILL changes; the stack's top is first. -/
structure Filling where
  vram : Nat → Byte
  MFSTACK : List (Nat × Nat)

/-- The rows looked at from one, which the first and the last have no two of. -/
def above (FY : Nat) : Option Nat := if FY = 0 then none else some (FY - 1)

def MapCalc.below (m : MapCalc) (FY : Nat) : Option Nat :=
  if FY + 1 < m.maph then some (FY + 1) else none

/-- MFLOOK, if there is a row to look at, with its flag; an error when the stack is full. -/
def mflook (m : MapCalc) (FOLDC : Word) (FX : Nat) (row : Option Nat) (s : Filling) (flag : Bool) :
    Except Filling (Filling × Bool) :=
  match row with
  | none => .ok (s, flag)
  | some r =>
      if m.getcell s.vram (FX, r) ≠ FOLDC then .ok (s, false)
      else if flag then .ok (s, flag)
      else if mfmax ≤ s.MFSTACK.length then .error s
      else .ok ({ s with MFSTACK := (FX, r) :: s.MFSTACK }, true)

/-- MFILL2: where the stretch starts. -/
def mfStart (m : MapCalc) (FOLDC : Word) (vram : Nat → Byte) (FY : Nat) : (FX : Nat) → Nat
  | 0 => 0
  | FX + 1 =>
      if m.getcell vram (FX, FY) ≠ FOLDC then FX + 1 else mfStart m FOLDC vram FY FX

/-- MFILL4, with as many columns left before FX is past 255. -/
def mfRow (m : MapCalc) (FOLDC MPEN : Word) (FY : Nat) :
    (columns FX : Nat) → (FUP FDOWN : Bool) → Filling → Except Filling Filling
  | 0, _, _, _, s => .ok s
  | columns + 1, FX, FUP, FDOWN, s =>
      if m.getcell s.vram (FX, FY) ≠ FOLDC then .ok s
      else do
        let s := { s with vram := m.putcell MPEN s.vram (FX, FY) }
        let (s, FUP) ← mflook m FOLDC FX (above FY) s FUP
        let (s, FDOWN) ← mflook m FOLDC FX (m.below FY) s FDOWN
        if FX + 1 < m.mapw then mfRow m FOLDC MPEN FY columns (FX + 1) FUP FDOWN s else .ok s

/-- MFILL1. -/
def mfLoop (m : MapCalc) (FOLDC MPEN : Word) : (fuel : Nat) → Filling → Option (Except Filling Filling)
  | 0, _ => none
  | fuel + 1, s =>
      match s.MFSTACK with
      | [] => some (.ok s)
      | (FX, FY) :: rest =>
          let s := { s with MFSTACK := rest }
          if m.getcell s.vram (FX, FY) ≠ FOLDC then mfLoop m FOLDC MPEN fuel s
          else
            let FX := mfStart m FOLDC s.vram FY FX
            match mfRow m FOLDC MPEN FY (256 - FX) FX false false s with
            | .ok s => mfLoop m FOLDC MPEN fuel s
            | .error s => some (.error s)

/-- An error where MFILL stops with its message. -/
def mfill (m : MapCalc) (fuel : Nat) (p : Nat × Nat) (MPEN : Word) (vram : Nat → Byte) :
    Option (Except Filling Filling) :=
  let FOLDC := m.getcell vram p
  if FOLDC = MPEN then some (.ok ⟨vram, []⟩)
  else mfLoop m FOLDC MPEN fuel ⟨vram, [p]⟩

/-! Cells apart from each other in memory. -/

/-- The cells of a map as it is calculated. -/
structure MapCalc.Fits (m : MapCalc) : Prop where
  wide : m.mapw ≤ 256
  width : m.mapw = 1 <<< m.mapwsh
  cells : m.mapw * m.maph ≤ 0x4000
  place : m.mbase + 0x10000 ≤ 0x1000000

def MapCalc.In (m : MapCalc) (p : Nat × Nat) : Prop := p.1 < m.mapw ∧ p.2 < m.maph

theorem mapCalcOf_fits (curl : Nat) (few : curl < 3) (m : MapSize) : (Editor.mapCalcOf curl m).Fits := by
  have wide := m.wide
  have high := m.high
  have cells := m.cells
  have place : (curl + 1) * slice ≤ 3 * slice := Nat.mul_le_mul_right slice few
  refine ⟨?_, ?_, ?_, ?_⟩
  · exact (Nat.shiftLeft_eq 32 m.wc).trans_le (Nat.mul_le_mul_left 32 (Nat.pow_le_pow_right (by omega) wide))
  · dsimp only [Editor.mapCalcOf]
    rw [Nat.shiftLeft_eq, Nat.shiftLeft_eq, Nat.pow_add, Nat.one_mul, Nat.mul_comm]
  · dsimp only [Editor.mapCalcOf]
    rw [Nat.shiftLeft_eq, Nat.shiftLeft_eq]
    calc 32 * 2 ^ m.wc * (32 * 2 ^ m.hc) = 32 * 32 * (2 ^ m.wc * 2 ^ m.hc) :=
          Nat.mul_mul_mul_comm 32 _ 32 _
      _ = 32 * 32 * 2 ^ (m.wc + m.hc) := by rw [Nat.pow_add]
      _ ≤ 32 * 32 * 2 ^ 4 := Nat.mul_le_mul_left _ (Nat.pow_le_pow_right (by omega) cells)
  · dsimp only [Editor.mapCalcOf]
    rw [slice] at place ⊢
    omega

namespace MapCalc

variable {m : MapCalc} {MPEN : Word} {vram : Nat → Byte} {p q : Nat × Nat}

theorem Fits.celladdr_eq (fits : m.Fits) (inside : m.In p) :
    m.celladdr p = m.mbase + 2 * (p.2 * m.mapw + p.1) ∧ p.2 * m.mapw + p.1 < m.maph * m.mapw := by
  have rows : (p.2 + 1) * m.mapw ≤ m.maph * m.mapw := Nat.mul_le_mul_right _ inside.2
  have cells := fits.cells
  have place := fits.place
  have across := inside.1
  rw [Nat.mul_comm] at cells
  rw [Nat.add_mul, Nat.one_mul] at rows
  have width := fits.width
  rw [Nat.shiftLeft_eq, Nat.one_mul] at width
  rw [celladdr, Nat.shiftLeft_eq, ← width]
  generalize p.2 * m.mapw = row at rows ⊢
  generalize m.maph * m.mapw = all at rows cells ⊢
  omega

theorem Fits.apart (fits : m.Fits) (inside : m.In p) (inside' : m.In q) (other : p ≠ q) :
    m.celladdr p + 1 < m.celladdr q ∨ m.celladdr q + 1 < m.celladdr p := by
  rw [(fits.celladdr_eq inside).1, (fits.celladdr_eq inside').1]
  have same : p.2 * m.mapw + p.1 ≠ q.2 * m.mapw + q.1 := by
    intro same
    have across := congrArg (· % m.mapw) same
    have down := congrArg (· / m.mapw) same
    rw [Nat.mul_comm p.2, Nat.mul_comm q.2, Nat.mul_add_mod, Nat.mul_add_mod,
      Nat.mod_eq_of_lt inside.1, Nat.mod_eq_of_lt inside'.1] at across
    have some_ : 0 < m.mapw := Nat.zero_lt_of_lt inside.1
    rw [Nat.mul_comm p.2, Nat.mul_comm q.2, Nat.mul_add_div some_, Nat.mul_add_div some_,
      Nat.div_eq_of_lt inside.1, Nat.div_eq_of_lt inside'.1] at down
    exact other (Prod.ext across down)
  omega

theorem getcell_putcell_self : m.getcell (m.putcell MPEN vram p) p = MPEN := by
  have apart : m.celladdr p ≠ m.celladdr p + 1 := Nat.ne_of_lt (Nat.lt_succ_self _)
  rw [getcell, putcell, Function.update_self, Function.update_of_ne apart, Function.update_self,
    word_hiByte_loByte]

theorem putcell_other {a : Nat} (other : a ≠ m.celladdr p ∧ a ≠ m.celladdr p + 1) :
    m.putcell MPEN vram p a = vram a := by
  rw [putcell, Function.update_of_ne other.2, Function.update_of_ne other.1]

/-- The cells of a map that have a value. -/
def Alike (m : MapCalc) (vram : Nat → Byte) (FOLDC : Word) (q : Nat × Nat) : Prop :=
  m.In q ∧ m.getcell vram q = FOLDC

/-- Memory with some cells filled. -/
structure Painted (m : MapCalc) (MPEN : Word) (vram : Nat → Byte) (F : Nat × Nat → Prop)
    (vram' : Nat → Byte) : Prop where
  cells : ∀ q, F q → m.getcell vram' q = MPEN
  bytes : ∀ a, (∀ q, F q → a ≠ m.celladdr q ∧ a ≠ m.celladdr q + 1) → vram' a = vram a

variable {F : Nat × Nat → Prop} {vram' : Nat → Byte} {FOLDC : Word}

theorem Fits.elsewhere (fits : m.Fits) (inside : m.In p) (inside' : m.In q) (other : p ≠ q) :
    (m.celladdr p ≠ m.celladdr q ∧ m.celladdr p ≠ m.celladdr q + 1) ∧
      m.celladdr p + 1 ≠ m.celladdr q ∧ m.celladdr p + 1 ≠ m.celladdr q + 1 := by
  have apart := fits.apart inside inside' other
  omega

theorem Fits.getcell_putcell (fits : m.Fits) (inside : m.In p) (inside' : m.In q) (other : q ≠ p) :
    m.getcell (m.putcell MPEN vram p) q = m.getcell vram q := by
  have elsewhere := fits.elsewhere inside' inside other
  rw [getcell, putcell_other elsewhere.1, putcell_other elsewhere.2, getcell]

theorem Painted.unfilled (fits : m.Fits) (painted : m.Painted MPEN vram F vram')
    (within : ∀ q, F q → m.In q) (other : MPEN ≠ FOLDC) (inside : m.In q) :
    m.getcell vram' q = FOLDC ↔ Unfilled (m.Alike vram FOLDC) F q := by
  by_cases filled : F q
  · rw [painted.cells q filled]
    exact iff_of_false other fun unfilled => unfilled.2 filled
  · have same : m.getcell vram' q = m.getcell vram q := by
      rw [getcell, getcell, painted.bytes, painted.bytes]
      · intro p paint
        exact (fits.elsewhere inside (within p paint) fun same => filled (by rw [same]; exact paint)).2
      · intro p paint
        exact (fits.elsewhere inside (within p paint) fun same => filled (by rw [same]; exact paint)).1
    rw [same]
    exact ⟨fun old => ⟨⟨inside, old⟩, filled⟩, fun unfilled => unfilled.1.2⟩

theorem Painted.fill (fits : m.Fits) (painted : m.Painted MPEN vram F vram')
    (within : ∀ q, F q → m.In q) (inside : m.In p) :
    m.Painted MPEN vram (filling F p) (m.putcell MPEN vram' p) where
  cells q filled := by
    by_cases same : q = p
    · rw [same, getcell_putcell_self]
    · have filled := filled.resolve_right same
      rw [fits.getcell_putcell inside (within q filled) same, painted.cells q filled]
  bytes a apart := by
    rw [putcell_other (apart p (.inr rfl))]
    exact painted.bytes a fun q filled => apart q (.inl filled)

/-- How many cells have a value. -/
def count (m : MapCalc) (FOLDC : Word) (vram : Nat → Byte) : Nat :=
  ((Finset.range m.mapw ×ˢ Finset.range m.maph).filter fun q => m.getcell vram q = FOLDC).card

theorem Fits.count_putcell (fits : m.Fits) (inside : m.In p) (same : m.getcell vram p = FOLDC)
    (other : MPEN ≠ FOLDC) : m.count FOLDC (m.putcell MPEN vram p) + 1 = m.count FOLDC vram := by
  have grid : ∀ {q}, q ∈ Finset.range m.mapw ×ˢ Finset.range m.maph ↔ m.In q := by
    intro q
    rw [Finset.mem_product, Finset.mem_range, Finset.mem_range, In]
  have erased : ((Finset.range m.mapw ×ˢ Finset.range m.maph).filter fun q =>
        m.getcell (m.putcell MPEN vram p) q = FOLDC) =
      ((Finset.range m.mapw ×ˢ Finset.range m.maph).filter fun q =>
        m.getcell vram q = FOLDC).erase p := by
    ext q
    rw [Finset.mem_erase, Finset.mem_filter, Finset.mem_filter, grid]
    by_cases here : q = p
    · subst here
      rw [getcell_putcell_self]
      exact iff_of_false (fun both => other both.2) fun both => both.1 rfl
    · refine ⟨fun both => ⟨here, both.1, ?_⟩, fun both => ⟨both.2.1, ?_⟩⟩
      · rw [← fits.getcell_putcell inside both.1 here]
        exact both.2
      · rw [fits.getcell_putcell inside both.2.1 here]
        exact both.2.2
  rw [count, count, erased]
  exact Finset.card_erase_add_one (Finset.mem_filter.mpr ⟨grid.mpr inside, same⟩)

end MapCalc

/-! One row's stretch. -/

section Run

variable {m : MapCalc} {FOLDC MPEN : Word} {vram : Nat → Byte} {X : Nat × Nat}
  {F : Nat × Nat → Prop} {L : List (Nat × Nat)} {s : Filling}

/-- How MFILL stands, with the places L to go on from. -/
structure Under (m : MapCalc) (FOLDC MPEN : Word) (vram : Nat → Byte) (X : Nat × Nat)
    (F : Nat × Nat → Prop) (L : List (Nat × Nat)) (s : Filling) : Prop where
  painted : m.Painted MPEN vram F s.vram
  fills : Fills (m.Alike vram FOLDC) X F L
  stack : ∀ p ∈ s.MFSTACK, m.In p
  room : s.MFSTACK.length ≤ mfmax

/-- The flag of a row looked at, before column `x`: the stretch it is about leads on. -/
def Follows (U : Nat × Nat → Prop) (L : List (Nat × Nat)) (x : Nat) (row : Option Nat) (flag : Bool) :
    Prop :=
  ∀ r ∈ row, flag = true → ∃ x', x = x' + 1 ∧ Covered U L (x', r)

/-- What looking at a row leaves. -/
structure Looked (U : Nat × Nat → Prop) (x : Nat) (row : Option Nat) (s s' : Filling) (flag : Bool) :
    Prop where
  vram : s'.vram = s.vram
  sub : s.MFSTACK ⊆ s'.MFSTACK
  stacked : ∀ p ∈ s'.MFSTACK, p ∈ s.MFSTACK ∨ U p ∧ ∃ r ∈ row, p = (x, r)
  covers : ∀ r ∈ row, U (x, r) → Covered U s'.MFSTACK (x, r)
  follows : Follows U s'.MFSTACK (x + 1) row flag
  room : s.MFSTACK.length ≤ mfmax → s'.MFSTACK.length ≤ mfmax

theorem mflook_spec {U : Nat × Nat → Prop} {x : Nat} {row : Option Nat} {flag : Bool}
    (decides : ∀ r ∈ row, m.getcell s.vram (x, r) = FOLDC ↔ U (x, r))
    (follows : Follows U s.MFSTACK x row flag) :
    mflook m FOLDC x row s flag = .error s ∧ mfmax ≤ s.MFSTACK.length ∨
      ∃ s' flag', mflook m FOLDC x row s flag = .ok (s', flag') ∧ Looked U x row s s' flag' := by
  cases row with
  | none =>
      refine .inr ⟨s, flag, rfl, rfl, List.Subset.refl _, fun p member => .inl member, ?_, ?_, id⟩
      · exact fun r member => absurd member (Option.not_mem_none r)
      · exact fun r member => absurd member (Option.not_mem_none r)
  | some r =>
      have decides := decides r rfl
      rw [mflook]
      by_cases alike : m.getcell s.vram (x, r) = FOLDC
      · rw [if_neg (not_not_intro alike)]
        have inside := decides.mp alike
        cases flag with
        | true =>
            rw [if_pos rfl]
            obtain ⟨x', rfl, covered⟩ := follows r rfl rfl
            have covered := covered.next inside
            refine .inr ⟨s, true, rfl, rfl, List.Subset.refl _, fun p member => .inl member, ?_, ?_, id⟩
            · rintro r' ⟨⟩ -
              exact covered
            · rintro r' ⟨⟩ -
              exact ⟨x' + 1, rfl, covered⟩
        | false =>
            rw [if_neg Bool.false_ne_true]
            by_cases full : mfmax ≤ s.MFSTACK.length
            · exact .inl ⟨if_pos full, full⟩
            · rw [if_neg full]
              have covered : Covered U ((x, r) :: s.MFSTACK) (x, r) :=
                Covered.self inside List.mem_cons_self
              refine .inr ⟨_, true, rfl, rfl, List.subset_cons_self _ _, fun p member => ?_, ?_, ?_,
                fun _ => ?_⟩
              · rcases List.mem_cons.mp member with rfl | older
                · exact .inr ⟨inside, r, rfl, rfl⟩
                · exact .inl older
              · rintro r' ⟨⟩ -
                exact covered
              · rintro r' ⟨⟩ -
                exact ⟨x, rfl, covered⟩
              · rw [List.length_cons]
                omega
      · rw [if_pos alike]
        refine .inr ⟨s, false, rfl, rfl, List.Subset.refl _, fun p member => .inl member, ?_, ?_, id⟩
        · rintro r' ⟨⟩ inside
          exact absurd (decides.mpr inside) alike
        · exact fun r' _ set => absurd set Bool.false_ne_true

theorem mem_above {r FY : Nat} : r ∈ above FY ↔ r + 1 = FY := by
  rw [above]
  split
  · next first => exact iff_of_false (Option.not_mem_none r) (by omega)
  · next later => rw [Option.mem_some_iff]; omega

theorem mem_below {r FY : Nat} : r ∈ m.below FY ↔ FY + 1 = r ∧ r < m.maph := by
  rw [MapCalc.below]
  split
  · next within => rw [Option.mem_some_iff]; omega
  · next last => exact iff_of_false (Option.not_mem_none r) (by omega)

theorem Follows.mono {U : Nat × Nat → Prop} {L L' : List (Nat × Nat)} {x : Nat} {row : Option Nat}
    {flag : Bool} (follows : Follows U L x row flag) (sub : L ⊆ L') : Follows U L' x row flag := by
  intro r here set
  obtain ⟨x', last, covered⟩ := follows r here set
  exact ⟨x', last, covered.mono sub⟩

theorem Follows.fill {L : List (Nat × Nat)} {x FX FY : Nat} {row : Option Nat} {flag : Bool}
    (follows : Follows (Unfilled (m.Alike vram FOLDC) F) L x row flag) (apart : ∀ r ∈ row, r ≠ FY) :
    Follows (Unfilled (m.Alike vram FOLDC) (filling F (FX, FY))) L x row flag := by
  intro r here set
  obtain ⟨x', last, covered⟩ := follows r here set
  refine ⟨x', last, covered.row fun i unfilled => unfilled.apart fun same => apart r here ?_⟩
  exact (Prod.mk.inj same).2

/-- The stack is full, and only cells of the region are filled. -/
def Full (m : MapCalc) (FOLDC MPEN : Word) (vram : Nat → Byte) (X : Nat × Nat) (s : Filling) : Prop :=
  s.MFSTACK.length = mfmax ∧ ∃ F, m.Painted MPEN vram F s.vram ∧
    ∀ q, F q → Joined Beside (m.Alike vram FOLDC) X q

/-- How a row ends, with so many cells to fill at most. -/
def RowEnds (m : MapCalc) (FOLDC MPEN : Word) (vram : Nat → Byte) (X : Nat × Nat) (n : Nat) :
    Except Filling Filling → Prop
  | .ok s => (∃ F, Under m FOLDC MPEN vram X F s.MFSTACK s) ∧ m.count FOLDC s.vram ≤ n
  | .error s => Full m FOLDC MPEN vram X s

theorem RowEnds.mono {n n' : Nat} {r : Except Filling Filling}
    (ends : RowEnds m FOLDC MPEN vram X n r) (le : n ≤ n') : RowEnds m FOLDC MPEN vram X n' r := by
  cases r with
  | ok s => exact ⟨ends.1, ends.2.trans le⟩
  | error s => exact ends

theorem Under.within (under : Under m FOLDC MPEN vram X F L s) (start : m.Alike vram FOLDC X) :
    ∀ q, F q → m.In q :=
  fun q filled => ((under.fills.within q filled).within start).1

/-- The cells left to fill in the row, before and after the ones from FX on. -/
theorem mfRow_spec (fits : m.Fits) (other : MPEN ≠ FOLDC) (start : m.Alike vram FOLDC X)
    {columns FX FY : Nat} {FUP FDOWN : Bool}
    (under : Under m FOLDC MPEN vram X F ((FX, FY) :: s.MFSTACK) s) (inside : m.In (FX, FY))
    (whole : FX + columns = 256)
    (leftmost : ∀ x', FX = x' + 1 → ¬Unfilled (m.Alike vram FOLDC) F (x', FY))
    (up : Follows (Unfilled (m.Alike vram FOLDC) F) s.MFSTACK FX (above FY) FUP)
    (down : Follows (Unfilled (m.Alike vram FOLDC) F) s.MFSTACK FX (m.below FY) FDOWN) :
    RowEnds m FOLDC MPEN vram X
      (m.count FOLDC s.vram - if m.getcell s.vram (FX, FY) = FOLDC then 1 else 0)
      (mfRow m FOLDC MPEN FY columns FX FUP FDOWN s) := by
  induction columns generalizing FX F FUP FDOWN s with
  | zero =>
      have wide := fits.wide
      have across := inside.1
      dsimp only at across
      omega
  | succ columns ih =>
      have within := under.within start
      rw [mfRow]
      by_cases alike : m.getcell s.vram (FX, FY) = FOLDC
      · rw [if_neg (not_not_intro alike), if_pos alike]
        have unfilled := (under.painted.unfilled fits within other inside).mp alike
        have here := under.fills.stacked (FX, FY) List.mem_cons_self unfilled.1
        have painted := under.painted.fill fits within inside
        have joined : ∀ q, filling F (FX, FY) q → Joined Beside (m.Alike vram FOLDC) X q := by
          rintro q (filled | rfl)
          · exact under.fills.within q filled
          · exact here
        have within' : ∀ q, filling F (FX, FY) q → m.In q := fun q filled =>
          ((joined q filled).within start).1
        have fewer := fits.count_putcell inside alike other
        have upper : ∀ r ∈ above FY, r ≠ FY := fun r row => by
          have := mem_above.mp row
          omega
        have lower : ∀ r ∈ m.below FY, r ≠ FY := fun r row => by
          have := mem_below.mp row
          omega
        have upperIn : ∀ r ∈ above FY, m.In (FX, r) := fun r row => by
          have := mem_above.mp row
          have high := inside.2
          exact ⟨inside.1, by dsimp only at high ⊢; omega⟩
        have lowerIn : ∀ r ∈ m.below FY, m.In (FX, r) := fun r row =>
          ⟨inside.1, (mem_below.mp row).2⟩
        generalize m.putcell MPEN s.vram (FX, FY) = after at painted fewer ⊢
        dsimp only [bind, Except.bind]
        rcases mflook_spec (m := m) (s := { s with vram := after })
            (fun r row => painted.unfilled fits within' other (upperIn r row)) (up.fill upper) with
          ⟨full, most⟩ | ⟨s₂, FUP₂, ok₂, looked₂⟩
        · rw [full]
          exact ⟨Nat.le_antisymm under.room most, _, painted, joined⟩
        rw [ok₂]
        dsimp only
        have same₂ := looked₂.vram
        have sub₂ := looked₂.sub
        have stacked₂ := looked₂.stacked
        have room₂ := looked₂.room
        dsimp only at same₂ sub₂ stacked₂ room₂
        rcases mflook_spec (m := m) (s := s₂)
            (fun r row => by
              rw [same₂]
              exact painted.unfilled fits within' other (lowerIn r row))
            ((down.fill lower).mono sub₂) with
          ⟨full, most⟩ | ⟨s₃, FDOWN₃, ok₃, looked₃⟩
        · rw [full]
          refine ⟨Nat.le_antisymm (room₂ under.room) most, _, ?_, joined⟩
          rw [same₂]
          exact painted
        rw [ok₃]
        dsimp only
        have same₃ : s₃.vram = after := looked₃.vram.trans same₂
        have fills : Fills (m.Alike vram FOLDC) X (filling F (FX, FY)) ((FX + 1, FY) :: s₃.MFSTACK) := by
          refine under.fills.fill unfilled leftmost (List.Subset.trans sub₂ looked₃.sub)
            (fun p member inside' => ?_) fun y' near unfilled' => ?_
          · rcases looked₃.stacked p member with older | ⟨-, r, row, rfl⟩
            · rcases stacked₂ p older with oldest | ⟨-, r, row, rfl⟩
              · exact under.fills.stacked p (List.mem_cons_of_mem _ oldest) inside'
              · exact here.step (.inr ⟨rfl, .inr (mem_above.mp row)⟩) inside'
            · exact here.step (.inr ⟨rfl, .inl (mem_below.mp row).1⟩) inside'
          · rcases near with before | after
            · exact (looked₂.covers y' (mem_above.mpr before) unfilled').mono looked₃.sub
            · exact looked₃.covers y' (mem_below.mpr ⟨after, unfilled'.1.1.2⟩) unfilled'
        have under' : Under m FOLDC MPEN vram X (filling F (FX, FY))
            ((FX + 1, FY) :: s₃.MFSTACK) s₃ := by
          refine ⟨?_, fills, fun p member => ?_, looked₃.room (room₂ under.room)⟩
          · rw [same₃]
            exact painted
          · rcases looked₃.stacked p member with older | new
            · rcases stacked₂ p older with oldest | new
              · exact under.stack p oldest
              · exact new.1.1.1
            · exact new.1.1.1
        rw [← same₃] at fewer
        by_cases more : FX + 1 < m.mapw
        · rw [if_pos more]
          refine (ih under' ⟨more, inside.2⟩ (by omega) (fun x' last old => ?_)
            (looked₂.follows.mono looked₃.sub) looked₃.follows).mono (by omega)
          rw [← Nat.succ.inj last] at old
          exact old.2 (.inr rfl)
        · rw [if_neg more]
          refine ⟨⟨_, under'.painted, under'.fills.drop ?_, under'.stack, under'.room⟩, by omega⟩
          exact fun old => more old.1.1.1
      · rw [if_pos alike, if_neg alike]
        refine ⟨⟨F, under.painted, under.fills.drop fun unfilled => alike ?_, under.stack, under.room⟩,
          by omega⟩
        exact (under.painted.unfilled fits within other inside).mpr unfilled

theorem mfStart_spec {FX FY : Nat} (here : m.getcell vram (FX, FY) = FOLDC) :
    (Between FX (mfStart m FOLDC vram FY FX) fun i => m.getcell vram (i, FY) = FOLDC) ∧
      mfStart m FOLDC vram FY FX ≤ FX ∧
      ∀ x', mfStart m FOLDC vram FY FX = x' + 1 → m.getcell vram (x', FY) ≠ FOLDC := by
  induction FX with
  | zero =>
      refine ⟨fun i low high => ?_, Nat.le_refl _, fun x' last => ?_⟩
      · rw [mfStart, Nat.max_self, Nat.le_zero] at high
        rw [high]
        exact here
      · rw [mfStart] at last
        omega
  | succ FX ih =>
      rw [mfStart]
      by_cases before : m.getcell vram (FX, FY) = FOLDC
      · rw [if_neg (not_not_intro before)]
        obtain ⟨between, le, starts⟩ := ih before
        refine ⟨fun i low high => ?_, Nat.le_succ_of_le le, starts⟩
        by_cases last : i = FX + 1
        · rw [last]
          exact here
        · exact between i (by omega) (by omega)
      · rw [if_pos before]
        refine ⟨fun i low high => ?_, Nat.le_refl _, fun x' last => ?_⟩
        · rw [Nat.min_self] at low
          rw [Nat.max_self] at high
          rw [Nat.le_antisymm high low]
          exact here
        · rw [← Nat.succ.inj last]
          exact before

theorem mfStretch_spec (fits : m.Fits) (other : MPEN ≠ FOLDC) (start : m.Alike vram FOLDC X)
    {FX FY : Nat} (under : Under m FOLDC MPEN vram X F ((FX, FY) :: s.MFSTACK) s)
    (inside : m.In (FX, FY)) (alike : m.getcell s.vram (FX, FY) = FOLDC) :
    RowEnds m FOLDC MPEN vram X (m.count FOLDC s.vram - 1)
      (mfRow m FOLDC MPEN FY (256 - mfStart m FOLDC s.vram FY FX) (mfStart m FOLDC s.vram FY FX)
        false false s) := by
  have within := under.within start
  have painted := under.painted
  have across := inside.1
  have wide := fits.wide
  obtain ⟨between, le, starts⟩ := mfStart_spec alike
  generalize mfStart m FOLDC s.vram FY FX = FX' at between le starts ⊢
  dsimp only at across
  have inside' : m.In (FX', FY) := ⟨Nat.lt_of_le_of_lt le across, inside.2⟩
  have along : Between FX FX' fun i => Unfilled (m.Alike vram FOLDC) F (i, FY) := by
    intro i low high
    have inside'' : m.In (i, FY) := ⟨by dsimp only; omega, inside.2⟩
    exact (painted.unfilled fits within other inside'').mp (between i low high)
  generalize columns_eq : 256 - FX' = columns
  have ends : RowEnds m FOLDC MPEN vram X
      (m.count FOLDC s.vram - if m.getcell s.vram (FX', FY) = FOLDC then 1 else 0)
      (mfRow m FOLDC MPEN FY columns FX' false false s) := mfRow_spec fits other start
    ⟨painted, under.fills.along along, under.stack, under.room⟩ inside' (by omega)
    (fun x' last unfilled => starts x' last
      ((painted.unfilled fits within other unfilled.1.1).mpr unfilled))
    (fun r _ set => absurd set Bool.false_ne_true)
    (fun r _ set => absurd set Bool.false_ne_true)
  rw [if_pos between.last] at ends
  exact ends

/-- The whole region is filled, or the stack is full. -/
def Ends (m : MapCalc) (FOLDC MPEN : Word) (vram : Nat → Byte) (X : Nat × Nat) :
    Except Filling Filling → Prop
  | .ok s => m.Painted MPEN vram (Joined Beside (m.Alike vram FOLDC) X) s.vram
  | .error s => Full m FOLDC MPEN vram X s

theorem Under.ends (under : Under m FOLDC MPEN vram X F [] s) :
    Ends m FOLDC MPEN vram X (.ok s) := by
  have same : F = Joined Beside (m.Alike vram FOLDC) X :=
    funext fun q => propext ⟨under.fills.within q, under.fills.done⟩
  rw [Ends, ← same]
  exact under.painted

/-- Each place taken off the stack fills a cell or leaves one place less. -/
theorem mfLoop_spec (fits : m.Fits) (other : MPEN ≠ FOLDC) (start : m.Alike vram FOLDC X)
    {fuel : Nat} (under : Under m FOLDC MPEN vram X F s.MFSTACK s)
    (enough : (mfmax + 1) * m.count FOLDC s.vram + s.MFSTACK.length < fuel) :
    ∃ r, mfLoop m FOLDC MPEN fuel s = some r ∧ Ends m FOLDC MPEN vram X r := by
  induction fuel generalizing F s with
  | zero => exact absurd enough (Nat.not_lt_zero _)
  | succ fuel ih =>
      obtain ⟨after, stack⟩ := s
      rw [mfLoop]
      cases stack with
      | nil => exact ⟨_, rfl, under.ends⟩
      | cons p rest =>
          obtain ⟨FX, FY⟩ := p
          have inside := under.stack (FX, FY) List.mem_cons_self
          have within := under.within start
          have painted := under.painted
          have fills := under.fills
          have room := under.room
          have stack : ∀ p ∈ rest, m.In p := fun p member =>
            under.stack p (List.mem_cons_of_mem _ member)
          dsimp only at painted fills room enough ⊢
          rw [List.length_cons] at room enough
          by_cases alike : m.getcell after (FX, FY) = FOLDC
          · rw [if_neg (not_not_intro alike)]
            have ends := mfStretch_spec (s := ⟨after, rest⟩) fits other start
              ⟨painted, fills, stack, by dsimp only; omega⟩ inside alike
            dsimp only at ends
            generalize mfRow m FOLDC MPEN FY _ _ false false ⟨after, rest⟩ = row at ends ⊢
            have some_ : 0 < m.count FOLDC after := by
              have := fits.count_putcell inside alike other
              omega
            cases row with
            | ok s' =>
                obtain ⟨⟨F', under'⟩, fewer⟩ := ends
                have room' := under'.room
                refine ih under' ?_
                have less : (mfmax + 1) * m.count FOLDC s'.vram + (mfmax + 1) ≤
                    (mfmax + 1) * m.count FOLDC after := by
                  rw [← Nat.mul_succ]
                  exact Nat.mul_le_mul_left _ (by omega)
                omega
            | error s' =>
                exact ⟨_, rfl, ends⟩
          · rw [if_pos alike]
            refine ih ⟨painted, fills.drop fun unfilled => alike ?_, stack, ?_⟩ ?_
            · exact (painted.unfilled fits within other inside).mpr unfilled
            · dsimp only
              omega
            · dsimp only
              omega

theorem mfill_spec (fits : m.Fits) (inside : m.In X) (MPEN : Word) (vram : Nat → Byte) {fuel : Nat}
    (enough : (mfmax + 1) * (m.mapw * m.maph) + 1 < fuel) :
    ∃ r, mfill m fuel X MPEN vram = some r ∧ Ends m (m.getcell vram X) MPEN vram X r := by
  have start : m.Alike vram (m.getcell vram X) X := ⟨inside, rfl⟩
  rw [mfill]
  generalize m.getcell vram X = FOLDC at start ⊢
  by_cases same : FOLDC = MPEN
  · rw [if_pos same]
    exact ⟨_, rfl, fun q joined => (joined.within start).2.trans same, fun _ _ => rfl⟩
  · rw [if_neg same]
    have cells : m.count FOLDC vram ≤ m.mapw * m.maph := by
      refine (Finset.card_filter_le _ _).trans ?_
      rw [Finset.card_product, Finset.card_range, Finset.card_range]
    refine mfLoop_spec (F := fun _ => False) fits (fun equal => same equal.symm) start
      ⟨⟨fun _ => False.elim, fun _ _ => rfl⟩, ⟨fun _ => False.elim, ?_, fun _ _ => False.elim, ?_⟩, ?_, ?_⟩ ?_
    · intro p member inside'
      rw [List.mem_singleton.mp member]
      exact .start
    · exact .inr (Covered.self ⟨start, id⟩ List.mem_cons_self)
    · intro p member
      rw [List.mem_singleton.mp member]
      exact inside
    · exact Nat.le_of_ble_eq_true rfl
    · exact Nat.lt_of_le_of_lt (Nat.add_le_add_right (Nat.mul_le_mul_left _ cells) 1) enough

end Run

/-- Both fills end with the whole region of the pen's value, and MFILL with its stack full where it
cannot. -/
theorem fills_region :
    (∀ (k : Kind) (x y : Fin k.tsize) (PENC : Byte) (TILEBUF : Byte → Byte) (fuel : Nat),
      512 ≤ fuel → ∃ T', flood k fuel (x, y) PENC TILEBUF = some T' ∧
        k.Flooded (x, y) PENC TILEBUF T') ∧
    ∀ (curl : Fin 3) (size : MapSize) (p : Nat × Nat) (MPEN : Word) (vram : Nat → Byte) (fuel : Nat),
      (Editor.mapCalcOf curl size).In p →
      (mfmax + 1) * ((Editor.mapCalcOf curl size).mapw * (Editor.mapCalcOf curl size).maph) + 1 < fuel →
      ∃ r, mfill (Editor.mapCalcOf curl size) fuel p MPEN vram = some r ∧
        Ends (Editor.mapCalcOf curl size) ((Editor.mapCalcOf curl size).getcell vram p) MPEN vram p r :=
  ⟨fun k x y PENC TILEBUF _ enough => flood_spec k x.isLt y.isLt PENC TILEBUF enough,
    fun curl size _ MPEN vram _ inside enough =>
      mfill_spec (mapCalcOf_fits curl curl.isLt size) inside MPEN vram enough⟩

theorem fills_region_blank :
    (∃ T', flood ⟨8, 4, .inl rfl, .inl rfl⟩ 512 (0, 0) 1#8 (fun _ => 0#8) = some T' ∧
      Kind.Flooded ⟨8, 4, .inl rfl, .inl rfl⟩ (0, 0) 1#8 (fun _ => 0#8) T') ∧
    ∃ r, mfill (Editor.mapCalcOf 0 ⟨0, 0, by decide, by decide, by decide⟩) 2000000 (3, 4) 1#16
        (fun _ => 0#8) = some r ∧
      Ends (Editor.mapCalcOf 0 ⟨0, 0, by decide, by decide, by decide⟩) (word 0#8 0#8) 1#16
        (fun _ => 0#8) (3, 4) r :=
  ⟨fills_region.1 ⟨8, 4, .inl rfl, .inl rfl⟩ (0 : Fin 8) (0 : Fin 8) 1#8 (fun _ => 0#8) 512 (by decide),
    fills_region.2 0 ⟨0, 0, by decide, by decide, by decide⟩ (3, 4) 1#16 (fun _ => 0#8) 2000000
      ⟨by decide, by decide⟩ (by decide)⟩

end Pugputer.Tilekit

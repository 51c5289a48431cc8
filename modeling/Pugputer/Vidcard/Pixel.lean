import Mathlib.Tactic.IntervalCases
import Pugputer.Vidcard.Card
import Pugputer.Vidcard.Raster

namespace Pugputer.Vidcard

/-! One pixel in packed memory. -/

theorem ones_bit : ∀ bits ≤ 8, ∀ k < 8, (Card.ones bits).getLsbD k = decide (k < bits) := by
  decide

theorem mask_bit : ∀ bits ≤ 8, ∀ shift < 8, ∀ k < 8,
    (Card.ones bits <<< shift).getLsbD k = decide (shift ≤ k ∧ k < shift + bits) := by
  decide

namespace Card

/-- Drawing changes what the memory holds, and nothing else of the card. -/
def Redraws (c c' : Card) : Prop :=
  ∃ vram cfg psram, psram.isSome = c.psram.isSome ∧ c' = { c with vram, cfg, psram }

theorem Redraws.refl (c : Card) : c.Redraws c := ⟨_, _, _, rfl, rfl⟩

theorem Redraws.trans {c d e : Card} (first : c.Redraws d) (second : d.Redraws e) :
    c.Redraws e := by
  obtain ⟨_, _, _, present, rfl⟩ := first
  obtain ⟨vram, cfg, psram, same, rfl⟩ := second
  exact ⟨vram, cfg, psram, same.trans present, rfl⟩

theorem poke_redraws (c : Card) (a : Nat) (v : Byte) : c.Redraws (c.poke a v) := by
  unfold poke
  dsimp only
  split
  · exact ⟨_, _, _, rfl, rfl⟩
  · split
    · exact ⟨_, _, _, rfl, rfl⟩
    · split
      · rename_i present
        split
        · exact ⟨_, _, _, by rw [present]; rfl, rfl⟩
        · exact .refl c
      · exact .refl c

theorem pset_redraws (c : Card) (x y : Int) (col : Byte) : c.Redraws (c.pset x y col) := by
  unfold pset
  split
  · exact .refl c
  · dsimp only
    split
    · exact poke_redraws ..
    · exact poke_redraws ..

/-- An address where memory is. -/
def Backed (c : Card) (a : Nat) : Prop :=
  a < vcVramSize ∨ (vcPsramBase ≤ a ∧ a < 0x1000000 ∧ c.psram.isSome)

theorem peek_poke (c : Card) {a b : Nat} (v : Byte) (backed : c.Backed a) (bound : b < 0x1000000) :
    (c.poke a v).peek b = if b = a then v else c.peek b := by
  have small : a < 0x1000000 := by
    rcases backed with low | ⟨-, high, -⟩
    · exact Nat.lt_trans low (by decide)
    · exact high
  rw [poke, Nat.mod_eq_of_lt small]
  rcases backed with low | ⟨base, -, present⟩
  · rw [if_pos low, peek, peek, Nat.mod_eq_of_lt bound]
    dsimp only
    by_cases same : b = a
    · rw [if_pos same, if_pos (by omega), same, Function.update_self]
    · rw [if_neg same, Function.update_of_ne same]
  · have notLow : ¬a < vcVramSize := Nat.not_lt.mpr (Nat.le_trans (by decide) base)
    have notCfg : ¬(vcCfgBase ≤ a ∧ a < vcCfgBase + vcCfgSize) := by
      rintro ⟨-, high⟩
      exact absurd (Nat.lt_of_le_of_lt base high) (by decide)
    obtain ⟨psram, found⟩ := Option.isSome_iff_exists.mp present
    rw [if_neg notLow, if_neg notCfg, found]
    dsimp only
    rw [if_pos base, peek, peek, Nat.mod_eq_of_lt bound]
    dsimp only
    by_cases same : b = a
    · rw [if_pos same, same, if_neg notLow, if_neg notCfg, if_pos base, Function.update_self]
    · rw [if_neg same, found]
      dsimp only
      split
      · rfl
      · split
        · rfl
        · split
          · exact Function.update_of_ne (by omega) ..
          · rfl

/-- The bits of memory in one row, each byte from its bit 7 down. -/
def bitAt (c : Card) (g : Nat) : Bool := (c.peek (g / 8)).getLsbD (7 - g % 8)

/-- The first bit of a pixel of the target. -/
def pixelBit (c : Card) (x y : Nat) : Nat :=
  (c.tAddr.toNat + y * c.tStride.toNat) * 8 + x * c.tBpp.toNat

/-- A target whose rows do not overlap and lie where memory is. -/
structure Target (c : Card) : Prop where
  depth : c.tBpp.toNat = 1 ∨ c.tBpp.toNat = 2 ∨ c.tBpp.toNat = 4 ∨ c.tBpp.toNat = 8
  rows : c.tW.toNat * c.tBpp.toNat ≤ 8 * c.tStride.toNat
  placed :
    (∀ y < c.tH.toNat, (c.tAddr.toNat + y * c.tStride.toNat) * 8 + c.tW.toNat * c.tBpp.toNat ≤
      vcVramSize * 8) ∨
    (c.psram.isSome ∧ vcPsramBase ≤ c.tAddr.toNat ∧
      ∀ y < c.tH.toNat, (c.tAddr.toNat + y * c.tStride.toNat) * 8 + c.tW.toNat * c.tBpp.toNat ≤
        0x1000000 * 8)

variable {c : Card}

theorem Target.positive (target : c.Target) : 0 < c.tBpp.toNat := by
  rcases target.depth with depth | depth | depth | depth <;> omega

/-- Where a pixel of the target is, its byte and its bits in it. -/
theorem Target.pixel (target : c.Target) {x y : Nat} (xIn : x < c.tW.toNat) (yIn : y < c.tH.toNat) :
    c.Backed (c.tAddr.toNat + y * c.tStride.toNat + x * c.tBpp.toNat / 8) ∧
      c.tAddr.toNat + y * c.tStride.toNat + x * c.tBpp.toNat / 8 < 0x1000000 ∧
      x * c.tBpp.toNat % 8 + c.tBpp.toNat ≤ 8 ∧
      c.pixelBit x y = (c.tAddr.toNat + y * c.tStride.toNat + x * c.tBpp.toNat / 8) * 8 +
        x * c.tBpp.toNat % 8 := by
  have row : x * c.tBpp.toNat + c.tBpp.toNat ≤ c.tW.toNat * c.tBpp.toNat := by
    rw [← Nat.succ_mul]
    exact Nat.mul_le_mul_right _ xIn
  have aligned : x * c.tBpp.toNat % 8 + c.tBpp.toNat ≤ 8 := by
    rcases target.depth with depth | depth | depth | depth <;> rw [depth] <;> omega
  have whole : c.pixelBit x y = (c.tAddr.toNat + y * c.tStride.toNat + x * c.tBpp.toNat / 8) * 8 +
      x * c.tBpp.toNat % 8 := by
    rw [pixelBit]
    omega
  have positive := target.positive
  rcases target.placed with inVram | ⟨present, base, inPsram⟩
  · have bound := inVram y yIn
    have below : c.tAddr.toNat + y * c.tStride.toNat + x * c.tBpp.toNat / 8 < vcVramSize := by
      omega
    exact ⟨.inl below, Nat.lt_trans below (by decide), aligned, whole⟩
  · have bound := inPsram y yIn
    have below : c.tAddr.toNat + y * c.tStride.toNat + x * c.tBpp.toNat / 8 < 0x1000000 := by
      omega
    exact ⟨.inr ⟨by omega, below, present⟩, below, aligned, whole⟩

theorem pset_outside (x y : Int) (col : Byte)
    (outside : x < 0 ∨ y < 0 ∨ (c.tW.toNat : Int) ≤ x ∨ (c.tH.toNat : Int) ≤ y) :
    c.pset x y col = c := if_pos outside

/-- What `pset` does to each bit of memory. -/
theorem Target.pset_bit (target : c.Target) {x y : Nat} (xIn : x < c.tW.toNat)
    (yIn : y < c.tH.toNat) (col : Byte) {g : Nat} (bound : g < 0x8000000) :
    (c.pset x y col).bitAt g =
      if c.pixelBit x y ≤ g ∧ g < c.pixelBit x y + c.tBpp.toNat then
        col.getLsbD (c.pixelBit x y + c.tBpp.toNat - 1 - g)
      else c.bitAt g := by
  obtain ⟨backed, below, aligned, whole⟩ := target.pixel xIn yIn
  have inside : ¬((x : Int) < 0 ∨ (y : Int) < 0 ∨ (c.tW.toNat : Int) ≤ x ∨
      (c.tH.toNat : Int) ≤ y) := by omega
  have gBound : g / 8 < 0x1000000 := by omega
  have positive := target.positive
  rw [pset, if_neg inside]
  dsimp only [Int.toNat_natCast]
  generalize c.tAddr.toNat + y * c.tStride.toNat + x * c.tBpp.toNat / 8 = a at *
  generalize x * c.tBpp.toNat % 8 = first at *
  rw [whole]
  split
  · rename_i eight
    rw [bitAt, peek_poke c col backed gBound, eight]
    by_cases same : g / 8 = a
    · rw [if_pos same, if_pos (by omega)]
      congr 1
      omega
    · rw [if_neg same, if_neg (by omega)]
      rfl
  · rw [bitAt, peek_poke c _ backed gBound]
    by_cases same : g / 8 = a
    · rw [if_pos same, bitAt, same]
      have mask := mask_bit c.tBpp.toNat (by omega) (8 - c.tBpp.toNat - first) (by omega)
        (7 - g % 8) (by omega)
      have small : 7 - g % 8 < 8 := by omega
      simp only [BitVec.getLsbD_or, BitVec.getLsbD_and, BitVec.getLsbD_not, mask,
        BitVec.getLsbD_shiftLeft, small, decide_true, Bool.true_and]
      by_cases covered : 8 - c.tBpp.toNat - first ≤ 7 - g % 8 ∧
          7 - g % 8 < 8 - c.tBpp.toNat - first + c.tBpp.toNat
      · have notBelow : ¬7 - g % 8 < 8 - c.tBpp.toNat - first := Nat.not_lt.mpr covered.1
        rw [if_pos (by omega)]
        simp only [covered, and_self, decide_true, Bool.not_true, Bool.and_false, Bool.false_or,
          Bool.and_true, notBelow, decide_false, Bool.not_false, Bool.true_and]
        congr 1
        omega
      · rw [if_neg (by omega)]
        simp only [covered, decide_false, Bool.not_false, Bool.and_true, Bool.and_false,
          Bool.or_false]
    · rw [if_neg same, if_neg (by omega)]
      rfl

/-- The first bit of a pixel anywhere in memory, where `pget` finds it. -/
def sourceBit (base stride x y bpp : Nat) : Nat :=
  (base + y * stride + x * bpp / 8) % 0x1000000 * 8 + x * bpp % 8

theorem peek_mod (a : Nat) : c.peek (a % 0x1000000) = c.peek a := by
  rw [peek, peek, Nat.mod_mod]

theorem pget_bit {bpp : Nat} (depth : bpp = 1 ∨ bpp = 2 ∨ bpp = 4 ∨ bpp = 8)
    (base stride x y : Nat) {k : Nat} (small : k < 8) :
    (c.pget base stride x y bpp).getLsbD k =
      (decide (k < bpp) && c.bitAt (sourceBit base stride x y bpp + bpp - 1 - k)) := by
  have aligned : x * bpp % 8 + bpp ≤ 8 := by
    rcases depth with depth | depth | depth | depth <;> rw [depth] <;> omega
  rw [pget, sourceBit, ← peek_mod]
  generalize (base + y * stride + x * bpp / 8) % 0x1000000 = a at *
  generalize x * bpp % 8 = first at *
  split
  · rename_i eight
    rw [bitAt, eight, decide_eq_true small, Bool.true_and]
    have byte : (a * 8 + first + 8 - 1 - k) / 8 = a := by omega
    rw [byte]
    congr 1
    omega
  · rw [BitVec.getLsbD_and, BitVec.getLsbD_ushiftRight, ones_bit bpp (by omega) k small,
      Bool.and_comm]
    by_cases inPixel : k < bpp
    · have byte : (a * 8 + first + bpp - 1 - k) / 8 = a := by omega
      rw [bitAt, byte]
      congr 2
      omega
    · simp [inPixel]

theorem Target.pget_bit (target : c.Target) {x y : Nat} (xIn : x < c.tW.toNat)
    (yIn : y < c.tH.toNat) {k : Nat} (small : k < 8) :
    (c.pget c.tAddr.toNat c.tStride.toNat x y c.tBpp.toNat).getLsbD k =
      (decide (k < c.tBpp.toNat) && c.bitAt (c.pixelBit x y + c.tBpp.toNat - 1 - k)) := by
  obtain ⟨-, below, -, whole⟩ := target.pixel xIn yIn
  rw [Card.pget_bit target.depth _ _ _ _ small, sourceBit, Nat.mod_eq_of_lt below, whole]

/-- Different pixels share no bit. -/
theorem Target.apart (target : c.Target) {x y x' y' : Nat} (xIn : x < c.tW.toNat)
    (xIn' : x' < c.tW.toNat) (different : ¬(x = x' ∧ y = y')) :
    c.pixelBit x y + c.tBpp.toNat ≤ c.pixelBit x' y' ∨
      c.pixelBit x' y' + c.tBpp.toNat ≤ c.pixelBit x y := by
  have row {i : Nat} (inside : i < c.tW.toNat) :
      i * c.tBpp.toNat + c.tBpp.toNat ≤ 8 * c.tStride.toNat := by
    rw [← Nat.succ_mul]
    exact Nat.le_trans (Nat.mul_le_mul_right _ inside) target.rows
  have below {j k : Nat} (less : j < k) :
      j * c.tStride.toNat + c.tStride.toNat ≤ k * c.tStride.toNat := by
    rw [← Nat.succ_mul]
    exact Nat.mul_le_mul_right _ less
  have first := row xIn
  have second := row xIn'
  simp only [pixelBit]
  rcases Nat.lt_trichotomy y y' with less | same | more
  · have rows := below less
    omega
  · rw [same]
    rcases Nat.lt_trichotomy x x' with left | equal | right
    · have step : x * c.tBpp.toNat + c.tBpp.toNat ≤ x' * c.tBpp.toNat := by
        rw [← Nat.succ_mul]
        exact Nat.mul_le_mul_right _ left
      omega
    · exact absurd ⟨equal, same⟩ different
    · have step : x' * c.tBpp.toNat + c.tBpp.toNat ≤ x * c.tBpp.toNat := by
        rw [← Nat.succ_mul]
        exact Nat.mul_le_mul_right _ right
      omega
  · have rows := below more
    omega

/-- The target, read back. -/
def raster (c : Card) : Raster where
  width := c.tW.toNat
  height := c.tH.toNat
  pixel x y :=
    if x < c.tW.toNat ∧ y < c.tH.toNat then
      c.pget c.tAddr.toNat c.tStride.toNat x y c.tBpp.toNat
    else 0

/-- A color as the target can hold it. -/
def reduce (c : Card) (col : Byte) : Byte := col &&& ones c.tBpp.toNat

theorem raster_pixel (i j : Nat) :
    c.raster.pixel i j = if i < c.tW.toNat ∧ j < c.tH.toNat then
      c.pget c.tAddr.toNat c.tStride.toNat i j c.tBpp.toNat else 0 := rfl

theorem Redraws.target {c c' : Card} (redraws : c.Redraws c') (target : c.Target) :
    c'.Target := by
  obtain ⟨_, _, _, same, rfl⟩ := redraws
  refine ⟨target.depth, target.rows, ?_⟩
  rcases target.placed with inVram | ⟨present, base, inPsram⟩
  · exact .inl inVram
  · exact .inr ⟨same.trans present, base, inPsram⟩

theorem reduce_bit (bpp : c.tBpp.toNat ≤ 8) (col : Byte) {k : Nat} (small : k < 8) :
    (c.reduce col).getLsbD k = (decide (k < c.tBpp.toNat) && col.getLsbD k) := by
  rw [reduce, BitVec.getLsbD_and, ones_bit c.tBpp.toNat bpp k small, Bool.and_comm]

/-- Setting a pixel is plotting a point on the array. -/
theorem Target.pset_raster (target : c.Target) (x y : Int) (col : Byte) :
    (c.pset x y col).raster = c.raster.plot ⟨x, y, c.reduce col⟩ := by
  by_cases outside : x < 0 ∨ y < 0 ∨ (c.tW.toNat : Int) ≤ x ∨ (c.tH.toNat : Int) ≤ y
  · rw [pset_outside x y col outside]
    ext i j
    · rfl
    · rfl
    · have miss : ¬((i : Int) = x ∧ (j : Int) = y ∧ i < c.raster.width ∧ j < c.raster.height) := by
        intro ⟨atX, atY, xIn, yIn⟩
        change i < c.tW.toNat at xIn
        change j < c.tH.toNat at yIn
        omega
      rw [Raster.plot_pixel, if_neg miss]
  · have inside : 0 ≤ x ∧ 0 ≤ y ∧ x < (c.tW.toNat : Int) ∧ y < (c.tH.toNat : Int) := by omega
    obtain ⟨x, rfl⟩ := Int.eq_ofNat_of_zero_le inside.1
    obtain ⟨y, rfl⟩ := Int.eq_ofNat_of_zero_le inside.2.1
    have xIn : x < c.tW.toNat := by omega
    have yIn : y < c.tH.toNat := by omega
    have after := (pset_redraws c x y col).target target
    have bpp : c.tBpp.toNat ≤ 8 := by
      rcases target.depth with depth | depth | depth | depth <;> omega
    obtain ⟨vram, cfg, psram, -, drawn⟩ := pset_redraws c x y col
    have sizes : (c.pset x y col).tW = c.tW ∧ (c.pset x y col).tH = c.tH ∧
        (c.pset x y col).tBpp = c.tBpp ∧
        ∀ i j, (c.pset x y col).pixelBit i j = c.pixelBit i j := by
      rw [drawn]
      exact ⟨rfl, rfl, rfl, fun _ _ => rfl⟩
    obtain ⟨width, height, depth, first⟩ := sizes
    apply Raster.ext
    · exact congrArg BitVec.toNat width
    · exact congrArg BitVec.toNat height
    funext i j
    rw [raster_pixel, Raster.plot_pixel, raster_pixel, width, height]
    by_cases here : i < c.tW.toNat ∧ j < c.tH.toNat
    · rw [if_pos here, if_pos here]
      apply BitVec.eq_of_getLsbD_eq
      intro k small
      have bound : c.pixelBit i j + c.tBpp.toNat ≤ 0x8000000 := by
        obtain ⟨-, below, aligned, whole⟩ := target.pixel here.1 here.2
        omega
      rw [after.pget_bit (by rw [width]; exact here.1) (by rw [height]; exact here.2) small,
        first, depth, target.pset_bit xIn yIn col (by omega)]
      have positive := target.positive
      by_cases same : i = x ∧ j = y
      · obtain ⟨rfl, rfl⟩ := same
        have hit : (i : Int) = i ∧ (j : Int) = j ∧ i < c.raster.width ∧ j < c.raster.height :=
          ⟨rfl, rfl, here⟩
        rw [if_pos hit, c.reduce_bit bpp col small]
        by_cases inPixel : k < c.tBpp.toNat
        · rw [if_pos (by omega)]
          congr 2
          omega
        · simp [inPixel]
      · have miss : ¬((i : Int) = x ∧ (j : Int) = y ∧ i < c.raster.width ∧ j < c.raster.height) :=
          fun ⟨atX, atY, _⟩ => same ⟨by omega, by omega⟩
        rw [if_neg miss, target.pget_bit here.1 here.2 small]
        by_cases inPixel : k < c.tBpp.toNat
        · have apart := target.apart here.1 xIn same
          rw [if_neg (by omega)]
        · simp [inPixel]
    · have miss : ¬((i : Int) = x ∧ (j : Int) = y ∧ i < c.raster.width ∧ j < c.raster.height) :=
        fun ⟨_, _, inside⟩ => here inside
      rw [if_neg here, if_neg here, if_neg miss]

/-- The bits of a point that lies in the target. -/
def Covers (c : Card) (p : Plot) (g : Nat) : Prop :=
  ∃ x y : Nat, p.x = x ∧ p.y = y ∧ x < c.tW.toNat ∧ y < c.tH.toNat ∧
    c.pixelBit x y ≤ g ∧ g < c.pixelBit x y + c.tBpp.toNat

theorem Target.pset_elsewhere (target : c.Target) (p : Plot) {g : Nat} (bound : g < 0x8000000)
    (elsewhere : ¬c.Covers p g) : (c.pset p.x p.y p.color).bitAt g = c.bitAt g := by
  by_cases outside : p.x < 0 ∨ p.y < 0 ∨ (c.tW.toNat : Int) ≤ p.x ∨ (c.tH.toNat : Int) ≤ p.y
  · rw [pset_outside p.x p.y p.color outside]
  · have inside : 0 ≤ p.x ∧ 0 ≤ p.y ∧ p.x < (c.tW.toNat : Int) ∧ p.y < (c.tH.toNat : Int) := by
      omega
    obtain ⟨x, xEq⟩ := Int.eq_ofNat_of_zero_le inside.1
    obtain ⟨y, yEq⟩ := Int.eq_ofNat_of_zero_le inside.2.1
    have xIn : x < c.tW.toNat := by omega
    have yIn : y < c.tH.toNat := by omega
    rw [xEq, yEq, target.pset_bit xIn yIn p.color bound, if_neg]
    exact fun ⟨low, high⟩ => elsewhere ⟨x, y, xEq, yEq, xIn, yIn, low, high⟩

end Card

end Pugputer.Vidcard

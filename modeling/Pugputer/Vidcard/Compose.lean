import Mathlib.Data.Nat.Bitwise
import Mathlib.Tactic.IntervalCases
import Pugputer.Vidcard.Pixel
import Pugputer.Vidcard.Picture

namespace Pugputer.Vidcard

theorem and_vramMask (a : Nat) : a &&& vramMask = a % 0x40000 :=
  Nat.and_two_pow_sub_one_eq_mod a 18

theorem and_seven (a : Nat) : a &&& 7 = a % 8 := Nat.and_two_pow_sub_one_eq_mod a 3

/-- `&` with a power of two less one wraps a signed coordinate around. -/
theorem andBelow_pow (i : Int) {k : Nat} (small : k ≤ 31) :
    andBelow i (2 ^ k) = (i % (2 ^ k : Nat)).toNat := by
  have fits : 2 ^ k - 1 < 2 ^ 32 :=
    Nat.lt_of_le_of_lt (Nat.sub_le _ _) (Nat.pow_lt_pow_right (by decide) (by omega))
  have divides : ((2 ^ k : Nat) : Int) ∣ ((2 ^ 32 : Nat) : Int) :=
    Int.natCast_dvd_natCast.mpr (Nat.pow_dvd_pow 2 (by omega))
  rw [andBelow, BitVec.toNat_and, BitVec.toNat_ofNat, Nat.mod_eq_of_lt fits,
    Nat.and_two_pow_sub_one_eq_mod, BitVec.toNat_ofInt]
  have nonneg : 0 ≤ i % ((2 ^ 32 : Nat) : Int) := Int.emod_nonneg i (by decide)
  rw [← Int.emod_emod_of_dvd i divides]
  obtain ⟨n, same⟩ := Int.eq_ofNat_of_zero_le nonneg
  rw [same]
  rfl

theorem and_three (b : Byte) : (b &&& 3#8).toNat ≤ 3 := by
  rw [BitVec.toNat_and]
  exact Nat.and_le_right

theorem lMapW_pow (l : Bytes) : ∃ k ≤ 8, lMapW l = 2 ^ k := by
  refine ⟨5 + (l 0x1 &&& 3#8).toNat, Nat.add_le_add_left (and_three _) 5, ?_⟩
  rw [lMapW, Nat.shiftLeft_eq, Nat.pow_add]

theorem lMapH_pow (l : Bytes) : ∃ k ≤ 8, lMapH l = 2 ^ k := by
  refine ⟨5 + (l 0x1 >>> 2 &&& 3#8).toNat, Nat.add_le_add_left (and_three _) 5, ?_⟩
  rw [lMapH, Nat.shiftLeft_eq, Nat.pow_add]

theorem lBpp_depth (l : Bytes) : lBpp l = 1 ∨ lBpp l = 2 ∨ lBpp l = 4 ∨ lBpp l = 8 := by
  rw [lBpp]
  have bound := and_three (l 0x0 >>> 3)
  generalize (l 0x0 >>> 3 &&& 3#8).toNat = m at bound
  interval_cases m <;> decide

/-- The layer's left and top edges in a map of cells `8` or `16` pixels across. -/
theorem andBelow_map {cells size : Nat} (i : Int) (map : ∃ k ≤ 8, cells = 2 ^ k)
    (cell : size = 8 ∨ size = 16) :
    andBelow i (cells * size) = (i % (cells * size : Nat)).toNat := by
  obtain ⟨k, bound, rfl⟩ := map
  rcases cell with rfl | rfl
  · have whole : 2 ^ k * 8 = 2 ^ (k + 3) := (Nat.pow_add 2 k 3).symm
    rw [whole]
    exact andBelow_pow i (by omega)
  · have whole : 2 ^ k * 16 = 2 ^ (k + 4) := (Nat.pow_add 2 k 4).symm
    rw [whole]
    exact andBelow_pow i (by omega)

theorem and_one_bit (b : Byte) : b &&& 1#8 ≠ 0 ↔ b.getLsbD 0 = true := by
  have one : (1#8 : Byte) = BitVec.twoPow 8 0 := by decide
  rw [one, BitVec.and_twoPow]
  cases b.getLsbD 0 with
  | true => exact iff_of_true (by decide) rfl
  | false => exact iff_of_false (by decide) (by decide)

namespace Card

variable {c : Card}

theorem vram_video (c : Card) (a : Nat) : c.vram (a &&& vramMask) = c.video a := by
  rw [and_vramMask, video]

/-- Shifting and masking gives the packed pixel. -/
theorem unpack (c : Card) {bpp : Nat} (depth : bpp = 1 ∨ bpp = 2 ∨ bpp = 4) (base i : Nat) :
    c.video (base + i * bpp / 8) >>> (8 - bpp - i * bpp % 8) &&& ones bpp =
      c.packed base bpp i := by
  have aligned : i * bpp % 8 + bpp ≤ 8 := by
    rcases depth with rfl | rfl | rfl <;> omega
  rw [packed]
  generalize i * bpp % 8 = first at aligned ⊢
  apply BitVec.eq_of_getLsbD_eq
  intro k small
  rw [BitVec.getLsbD_and, ones_bit bpp (by omega) k small, BitVec.getLsbD_ushiftRight,
    BitVec.getLsbD_ushiftRight, BitVec.getLsbD_shiftLeft]
  by_cases inPixel : k < bpp
  · have bit : 8 - bpp + k - first = 8 - bpp - first + k := by omega
    have inByte : 8 - bpp + k < 8 := by omega
    have after : ¬8 - bpp + k < first := by omega
    simp only [inPixel, inByte, after, bit, decide_true, decide_false, Bool.not_false,
      Bool.true_and, Bool.and_true]
  · have outOfByte : ¬8 - bpp + k < 8 := by omega
    simp only [inPixel, outOfByte, decide_false, Bool.false_and, Bool.and_false]

theorem packed_byte (c : Card) (base i : Nat) : c.packed base 8 i = c.video (base + i) := by
  have bits : i * 8 % 8 = 0 := Nat.mul_mod_left i 8
  have bytes : i * 8 / 8 = i := Nat.mul_div_left i (by decide)
  rw [packed, bits, bytes, BitVec.shiftLeft_zero, Nat.sub_self, BitVec.ushiftRight_zero]

/-- The value the layers and the sprites draw for a packed pixel. -/
theorem drawn_value (c : Card) {bpp : Nat} (depth : bpp = 1 ∨ bpp = 2 ∨ bpp = 4 ∨ bpp = 8)
    (base i pal : Nat) :
    (if bpp = 8 then c.vram ((base + i * bpp / 8) &&& vramMask)
      else
        if c.vram ((base + i * bpp / 8) &&& vramMask) >>> (8 - bpp - (i * bpp &&& 7)) &&& ones bpp ≠
            0 then
          BitVec.ofNat 8 (pal * 16 + (c.vram ((base + i * bpp / 8) &&& vramMask) >>>
            (8 - bpp - (i * bpp &&& 7)) &&& ones bpp).toNat)
        else c.vram ((base + i * bpp / 8) &&& vramMask) >>> (8 - bpp - (i * bpp &&& 7)) &&&
          ones bpp) =
      colored bpp pal (c.packed base bpp i) := by
  rw [vram_video, and_seven]
  by_cases eight : bpp = 8
  · subst eight
    rw [if_pos rfl, colored, if_pos (.inl rfl), packed_byte, Nat.mul_div_left i (by decide)]
  · rw [if_neg eight, unpack c (by omega), colored]
    by_cases zero : c.packed base bpp i = 0
    · rw [if_neg (not_not_intro zero), if_pos (.inr zero)]
    · have plain : ¬(bpp = 8 ∨ c.packed base bpp i = 0) := by
        rintro (eight' | zero')
        · exact eight eight'
        · exact zero zero'
      rw [if_pos zero, if_neg plain, Nat.mul_comm pal 16]

/-- A cell is 8 or 16 pixels high. -/
theorem cell_size (l : Bytes) : (if lBig l then 16 else 8) = 8 ∨ (if lBig l then 16 else 8) = 16 := by
  split
  · exact .inr rfl
  · exact .inl rfl

theorem textValue_eq (c : Card) (l : Bytes) (x y : Nat) : c.textValue l x y = c.textPixel l x y := by
  rw [textValue, textPixel]
  rw [andBelow_map _ (lMapW_pow l) (.inl rfl), andBelow_map _ (lMapH_pow l) (cell_size l)]
  generalize (if lBig l then 16 else 8) = height
  simp only [vram_video, and_seven, and_one_bit, BitVec.getLsbD_ushiftRight, Nat.add_zero]
  split <;> rfl

theorem and_bit_word (e : Word) {k : Nat} (mask : Word) (single : mask = BitVec.twoPow 16 k)
    (nonzero : mask ≠ 0) : e &&& mask ≠ 0 ↔ e.getLsbD k = true := by
  rw [single, BitVec.and_twoPow]
  cases e.getLsbD k with
  | true => simpa [single] using nonzero
  | false => simp

theorem tileValue_eq (c : Card) (l : Bytes) (x y : Nat)
    (whole : tileEntry l x y % 0x40000 ≠ 0x3FFFF) : c.tileValue l x y = c.tilePixel l x y := by
  rw [tileEntry] at whole
  rw [tileValue, tilePixel, tileEntry]
  dsimp only at whole ⊢
  rw [andBelow_map _ (lMapW_pow l) (cell_size l), andBelow_map _ (lMapH_pow l) (cell_size l)]
  generalize (if lBig l then 16 else 8) = size at *
  generalize ((x + lHScroll l) % (lMapW l * size : Nat)).toNat = mx at *
  generalize ((y + lVScroll l) % (lMapH l * size : Nat)).toNat = my at *
  generalize lMapBase l + 2 * (my / size * lMapW l + mx / size) = entry at *
  have read : be16 c.vramAt (entry &&& vramMask) = word (c.video entry) (c.video (entry + 1)) := by
    have first : entry % 0x40000 < vcVramSize := Nat.mod_lt _ (by decide)
    have second : entry % 0x40000 + 1 < vcVramSize := by
      change _ < 0x40000
      change _ < 0x40000 at first
      omega
    rw [be16, and_vramMask, vramAt, if_pos first, vramAt, if_pos second, video, video]
    congr 2
    omega
  rw [read]
  generalize word (c.video entry) (c.video (entry + 1)) = e
  have number : (e &&& 0x3FF#16).toNat = e.toNat % 1024 := by
    rw [BitVec.toNat_and]
    exact Nat.and_two_pow_sub_one_eq_mod _ 10
  have offset : (e >>> 12).toNat = e.toNat / 4096 := by
    rw [BitVec.toNat_ushiftRight, Nat.shiftRight_eq_div_pow]
  rw [drawn_value c (lBpp_depth l), number, offset]
  simp only [and_bit_word e 0x400#16 (k := 10) (by decide) (by decide),
    and_bit_word e 0x800#16 (k := 11) (by decide) (by decide)]

theorem bitmapValue_eq (c : Card) (l : Bytes) (x y : Nat) :
    c.bitmapValue l x y = c.bitmapPixel l x y := by
  rw [bitmapValue, bitmapPixel]
  rw [drawn_value c (lBpp_depth l)]
  by_cases inside : 0 ≤ (x : Int) + lHScroll l ∧ 0 ≤ (y : Int) + lVScroll l ∧
      (x : Int) + lHScroll l < (lStride l * 8 / lBpp l : Nat)
  · rw [if_pos inside, if_neg (by omega)]
  · rw [if_neg inside, if_pos (by omega)]

theorem layerValue_eq (c : Card) (l : Bytes) (x y : Nat)
    (whole : lType l = 1 → ∀ x y, tileEntry l x y % 0x40000 ≠ 0x3FFFF) :
    c.layerValue l (x / scaleOf (lHires l)) (y / scaleOf (lHires l)) = c.layerPixel l x y := by
  rw [layerValue, layerPixel]
  generalize kind : lType l = type
  match type with
  | 0 => exact textValue_eq c l _ _
  | 1 => exact tileValue_eq c l _ _ (whole kind _ _)
  | 2 => exact bitmapValue_eq c l _ _
  | _ + 3 => rfl

end Card

/-! Painting from the back, at one pixel. -/

theorem scale_values (hires : Bool) : scaleOf hires = 1 ∨ scaleOf hires = 2 := by
  cases hires with
  | true => exact .inl rfl
  | false => exact .inr rfl

theorem putPixel_apply {scale : Nat} (values : scale = 1 ∨ scale = 2) (p : Nat) (v : Byte)
    (idx : Line) (x : Nat) :
    putPixel scale p v idx x = if x / scale = p then (shown v).getD (idx x) else idx x := by
  rw [putPixel]
  by_cases clear : v = 0
  · rw [if_neg (not_not_intro clear), shown, if_pos clear, Option.getD_none, ite_self]
  · rw [if_pos clear, shown, if_neg clear, Option.getD_some]
    rcases values with rfl | rfl
    · rw [if_pos rfl, Nat.div_one, Function.update_apply]
    · rw [if_neg (by decide), Function.update_apply, Function.update_apply]
      by_cases odd : x = 2 * p + 1
      · rw [if_pos odd, if_pos (by omega)]
      · by_cases even : x = 2 * p
        · rw [if_neg odd, if_pos even, if_pos (by omega)]
        · rw [if_neg odd, if_neg even, if_neg (by omega)]

namespace Card

variable {c : Card}

theorem layerLoop_apply (c : Card) (l : Bytes) {scale : Nat} (values : scale = 1 ∨ scale = 2)
    (ly lx n : Nat) (idx : Line) (x : Nat) :
    c.layerLoop l scale ly lx n idx x =
      if lx ≤ x / scale ∧ x / scale < lx + n then
        (shown (c.layerValue l (x / scale) ly)).getD (idx x)
      else idx x := by
  induction n generalizing lx idx with
  | zero => rw [layerLoop, if_neg (by omega)]
  | succ n ih =>
      rw [layerLoop, ih, putPixel_apply values]
      by_cases here : x / scale = lx
      · rw [if_neg (by omega), if_pos here, if_pos (by omega), here]
      · rw [if_neg here]
        by_cases later : lx + 1 ≤ x / scale ∧ x / scale < lx + 1 + n
        · rw [if_pos later, if_pos (by omega)]
        · rw [if_neg later, if_neg (by omega)]

theorem renderLayer_apply (c : Card) (l : Bytes) (y : Nat) (idx : Line) {x : Nat} (column : x < 640)
    (whole : lType l = 1 → ∀ x y, tileEntry l x y % 0x40000 ≠ 0x3FFFF) :
    c.renderLayer l y idx x = (shown (c.layerPixel l x y)).getD (idx x) := by
  have values := scale_values (lHires l)
  have inside : 0 ≤ x / scaleOf (lHires l) ∧
      x / scaleOf (lHires l) < 0 + vcWidth / scaleOf (lHires l) := by
    rcases values with one | two
    · rw [one, vcWidth]
      omega
    · rw [two, vcWidth]
      omega
  rw [renderLayer, layerLoop_apply c l values, if_pos inside, layerValue_eq c l x y whole]

theorem spriteLoop_apply (c : Card) (a : Bytes) {scale : Nat} (values : scale = 1 ∨ scale = 2)
    (row i n : Nat) (idx : Line) {x : Nat} (column : x < 640) :
    c.spriteLoop a scale row i n idx x =
      if sprX a + i ≤ (x / scale : Nat) ∧ ((x / scale : Nat) : Int) < sprX a + i + n then
        (shown (c.spritePixel a row ((x / scale : Nat) - sprX a).toNat)).getD (idx x)
      else idx x := by
  have inside : x / scale < vcWidth / scale := by
    rcases values with rfl | rfl
    · rw [vcWidth]
      omega
    · rw [vcWidth]
      omega
  have put (p : Nat) (v : Byte) (idx : Line) := putPixel_apply values p v idx x
  induction n generalizing i idx with
  | zero => rw [spriteLoop, if_neg (by omega)]
  | succ n ih =>
      rw [spriteLoop, ih]
      generalize vcWidth / scale = width at *
      generalize x / scale = sx at *
      by_cases here : (sx : Int) = sprX a + i
      · have col : ((sx : Int) - sprX a).toNat = i := by omega
        have onScreen : ¬(sprX a + i < 0 ∨ (width : Int) ≤ sprX a + i) := by omega
        rw [if_neg (by push_cast; omega), if_neg onScreen, put, if_pos (by omega),
          if_pos (by push_cast; omega), col]
      · have kept : (if sprX a + i < 0 ∨ (width : Int) ≤ sprX a + i then idx
            else putPixel scale (sprX a + i).toNat (c.spritePixel a row i) idx) x = idx x := by
          split
          · rfl
          · rw [put, if_neg (by omega)]
        rw [kept]
        by_cases later : sprX a + (i + 1 : Nat) ≤ sx ∧ (sx : Int) < sprX a + (i + 1 : Nat) + n
        · rw [if_pos later, if_pos (by push_cast; omega)]
        · rw [if_neg later, if_neg (by push_cast; omega)]

end Card

end Pugputer.Vidcard

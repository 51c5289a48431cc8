import Pugputer.Dos.FreeChain

namespace Pugputer.Dos

/-! Where the clusters of a volume are. -/

/-- Clusters of 1 to 128 sectors, a power of two, and a FAT. -/
structure Formatted (boot : Sector) : Prop where
  spc : ∃ k < 8, boot 13 = 1#8 <<< k
  fats : boot 16 ≠ 0

/-- What the file calls take for granted of a volume. -/
structure Volume (g : Geometry) : Prop where
  spc : 0 < g.secPerClus.toNat
  cluster : ∀ n : BitVec 24, (n >>> g.spcShift).toNat = n.toNat / g.secPerClus.toNat
  sic : ∀ n : BitVec 24, (n.setWidth 8 &&& g.spcMask).toNat = n.toNat % g.secPerClus.toNat
  inFat : ∀ c, c < g.maxClus → InFat g c
  few : g.maxClus ≤ 0xFFF6
  lba : ∀ c sic : Word, 2 ≤ c → sic.toNat < g.secPerClus.toNat → (g.clusSicToLba c sic).toNat =
    (c.toNat - 2) * g.secPerClus.toNat + g.dataLba.toNat + sic.toNat
  below : ∀ lba, InCopies g lba → lba.toNat < g.dataLba.toNat

section

variable {boot : Sector}

theorem shiftLoop_shifted : ∀ k < 8, shiftLoop 8 (1#8 <<< k) 0 = k := by decide

theorem dosStart_rootLba (boot : Sector) : (dosStart boot).rootLba.toNat =
    (dosStart boot).fatLba.toNat + (boot 16).toNat * (dosStart boot).secPerFat.toNat := by
  have reserved := (boot.word 14).isLt
  have perFat := (boot.word 22).isLt
  have product : (boot 16).toNat * (boot.word 22).toNat ≤ 255 * 65535 :=
    Nat.mul_le_mul (Nat.le_of_lt_succ (boot 16).isLt) (Nat.le_of_lt_succ perFat)
  have wide : ((boot.word 14).setWidth 32).toNat = (boot.word 14).toNat := by
    rw [BitVec.toNat_setWidth]
    omega
  change (fatLoop (boot.word 22) (boot 16).toNat ((boot.word 14).setWidth 32)).toNat =
    (boot.word 14).toNat + (boot 16).toNat * (boot.word 22).toNat
  rw [fatLoop_toNat _ _ _ (by omega), wide]

/-- The data follows the FATs and the root, in the first 32M sectors. -/
theorem dosStart_dataLba (boot : Sector) :
    (dosStart boot).rootLba.toNat ≤ (dosStart boot).dataLba.toNat ∧
      (dosStart boot).dataLba.toNat < 0x2000000 := by
  have root := dosStart_rootLba boot
  have reserved := (dosStart boot).fatLba.isLt
  have entries := (boot.word 17).isLt
  have product : (boot 16).toNat * (dosStart boot).secPerFat.toNat ≤ 255 * 65535 :=
    Nat.mul_le_mul (Nat.le_of_lt_succ (boot 16).isLt)
      (Nat.le_of_lt_succ (dosStart boot).secPerFat.isLt)
  have rows : ((boot.word 17 >>> 4).setWidth 32 : BitVec 32).toNat =
      (boot.word 17).toNat / 16 := by
    rw [BitVec.toNat_setWidth, BitVec.toNat_ushiftRight, Nat.shiftRight_eq_div_pow]
    omega
  change _ ≤ ((dosStart boot).rootLba + (boot.word 17 >>> 4).setWidth 32).toNat ∧
    ((dosStart boot).rootLba + (boot.word 17 >>> 4).setWidth 32).toNat < _
  rw [BitVec.toNat_add, rows]
  omega

theorem dosStart_maxClus (boot : Sector) : (dosStart boot).maxClus ≤ 0xFFF6 ∧
    ∀ c, c < (dosStart boot).maxClus → InFat (dosStart boot) c := by
  have capped (count : BitVec 32) :
      (if count ≤ 0xFFF4#32 then count.setWidth 16 else 0xFFF4#16 : Word).toNat ≤ 0xFFF4 := by
    split
    · next few =>
        rw [BitVec.le_def] at few
        change _ ≤ 0xFFF4 at few
        rw [BitVec.toNat_setWidth]
        omega
    · exact Nat.le_refl _
  have total : (dosStart boot).totalClus.toNat ≤ 0xFFF4 := capped _
  have whole : ((dosStart boot).totalClus + 2).toNat = (dosStart boot).totalClus.toNat + 2 := by
    rw [BitVec.toNat_add]
    change (_ + 2) % 65536 = _
    omega
  have maxClus : (dosStart boot).maxClus =
      if 256#16 ≤ (dosStart boot).secPerFat ∨
          (dosStart boot).totalClus + 2 ≤ (dosStart boot).secPerFat <<< 8 then
        (dosStart boot).totalClus + 2
      else (dosStart boot).secPerFat <<< 8 := rfl
  rw [maxClus]
  generalize (dosStart boot).totalClus + 2 = most at whole ⊢
  have entries (c : Word) (small : ¬256#16 ≤ (dosStart boot).secPerFat)
      (inside : c < (dosStart boot).secPerFat <<< 8) : InFat (dosStart boot) c := by
    rw [BitVec.not_le, BitVec.lt_def] at small
    change _ < 256 at small
    rw [BitVec.lt_def, BitVec.toNat_shiftLeft, Nat.shiftLeft_eq] at inside
    rw [InFat, BitVec.lt_def, toNat_sector]
    omega
  have bound : ¬most.toNat > 0xFFF6 := by omega
  split
  · next fits =>
      refine ⟨BitVec.le_def.mpr (Nat.not_lt.mp bound), fun c inside => ?_⟩
      by_cases large : 256#16 ≤ (dosStart boot).secPerFat
      · rw [BitVec.le_def] at large
        change 256 ≤ _ at large
        have sector := c.isLt
        rw [InFat, BitVec.lt_def, toNat_sector]
        omega
      · have room := BitVec.le_def.mp (fits.resolve_left large)
        exact entries c large (BitVec.lt_def.mpr (Nat.lt_of_lt_of_le (BitVec.lt_def.mp inside) room))
  · next past =>
      obtain ⟨small, less⟩ := not_or.mp past
      have less := BitVec.lt_def.mp (BitVec.not_le.mp less)
      exact ⟨BitVec.le_def.mpr (Nat.le_of_lt (Nat.lt_of_lt_of_le less (Nat.not_lt.mp bound))),
        fun c inside => entries c small inside⟩

theorem Formatted.volume (formatted : Formatted boot) : Volume (dosStart boot) := by
  obtain ⟨k, small, spc⟩ := formatted.spc
  have toNat_power : ∀ k < 8, (1#8 <<< k).toNat = 2 ^ k := by decide
  have toNat_mask : ∀ k < 8, (1#8 <<< k - 1).toNat = 2 ^ k - 1 := by decide
  have size : (dosStart boot).secPerClus.toNat = 2 ^ k := by
    rw [← toNat_power k small, ← spc]
    rfl
  have shift : (dosStart boot).spcShift = k := by
    rw [← shiftLoop_shifted k small, ← spc]
    rfl
  have mask : (dosStart boot).spcMask.toNat = 2 ^ k - 1 := by
    rw [← toNat_mask k small, ← spc]
    rfl
  have power : 2 ^ k ≤ 2 ^ 7 := Nat.pow_le_pow_right (by decide) (Nat.le_of_lt_succ small)
  obtain ⟨root, low⟩ := dosStart_dataLba boot
  obtain ⟨few, inFat⟩ := dosStart_maxClus boot
  refine ⟨?_, fun n => ?_, fun n => ?_, inFat, few, fun c sic two inside => ?_, fun lba copy => ?_⟩
  · rw [size]
    exact Nat.two_pow_pos k
  · rw [shift, size, BitVec.toNat_ushiftRight, Nat.shiftRight_eq_div_pow]
  · rw [size, BitVec.toNat_and, mask, Nat.and_two_pow_sub_one_eq_mod, BitVec.toNat_setWidth]
    exact Nat.mod_mod_of_dvd _ (Nat.pow_dvd_pow 2 (Nat.le_of_lt small))
  · rw [size] at inside ⊢
    have bound := c.isLt
    have product : (c.toNat - 2) * 2 ^ k ≤ 65535 * 2 ^ 7 := Nat.mul_le_mul (by omega) power
    have offset : (c - 2).toNat = c.toNat - 2 := BitVec.toNat_sub_of_le two
    rw [Geometry.clusSicToLba, shift, BitVec.toNat_add, BitVec.toNat_add, BitVec.toNat_shiftLeft,
      BitVec.toNat_setWidth, BitVec.toNat_setWidth, offset, Nat.shiftLeft_eq,
      Nat.mod_eq_of_lt (show c.toNat - 2 < 2 ^ 32 by omega)]
    generalize (c.toNat - 2) * 2 ^ k = start at product ⊢
    have short : 2 ^ 7 = 128 := rfl
    omega
  · obtain ⟨-, high⟩ := copy
    have rootLba := dosStart_rootLba boot
    have one : 1 ≤ (boot 16).toNat :=
      Nat.pos_of_ne_zero fun zero => formatted.fats (BitVec.eq_of_toNat_eq zero)
    have copies : (if (dosStart boot).numFats < 2 then 1 else 2) ≤ (boot 16).toNat := by
      split
      · exact one
      · next two => exact Nat.not_lt.mp two
    have size := Nat.mul_le_mul_right (dosStart boot).secPerFat.toNat copies
    omega

end

end Pugputer.Dos

import Pugputer.Basic

namespace Pugputer.Dos

/-! What DOS_START works out from the boot sector, in the 6309's own arithmetic. -/

abbrev Sector := Nat → Byte

abbrev Lba := BitVec 32

/-- The little-endian word at an offset. -/
def Sector.word (s : Sector) (offset : Nat) : Word := Pugputer.word (s (offset + 1)) (s offset)

structure Geometry where
  secPerClus : Byte
  spcMask : Byte
  spcShift : Nat
  resSec : Word
  numFats : Byte
  rootEntCnt : Word
  secPerFat : Word
  totalSec : BitVec 32
  fatLba : Word
  rootLba : Lba
  rootDirSec : Word
  dataLba : Lba
  totalClus : Word
  maxClus : Word
  deriving DecidableEq, Repr

/-- SHIFTLOOP: eight halvings empty a byte, so it never runs out of `fuel`. -/
def shiftLoop : (fuel : Nat) → Byte → Nat → Nat
  | 0, _, spcShift => spcShift
  | fuel + 1, a, spcShift =>
      if a ≤ 1#8 then spcShift else shiftLoop fuel (a >>> 1) (spcShift + 1)

/-- FATLOOP adds SECPERFAT once for each FAT. -/
def fatLoop (secPerFat : Word) : (fatCnt : Nat) → BitVec 32 → BitVec 32
  | 0, q => q
  | fatCnt + 1, q => fatLoop secPerFat fatCnt (q + secPerFat.setWidth 32)

theorem fatLoop_toNat (secPerFat : Word) (n : Nat) (q : BitVec 32)
    (fits : q.toNat + n * secPerFat.toNat < 4294967296) :
    (fatLoop secPerFat n q).toNat = q.toNat + n * secPerFat.toNat := by
  induction n generalizing q with
  | zero => rw [fatLoop, Nat.zero_mul, Nat.add_zero]
  | succ n ih =>
      rw [Nat.succ_mul] at fits ⊢
      have step : (q + secPerFat.setWidth 32).toNat = q.toNat + secPerFat.toNat := by
        rw [BitVec.toNat_add, BitVec.toNat_setWidth]
        omega
      rw [fatLoop, ih _ (by rw [step]; omega), step]
      omega

def dosStart (boot : Sector) : Geometry :=
  let secPerClus := boot 13
  let spcShift := shiftLoop 8 secPerClus 0
  let resSec := boot.word 14
  let numFats := boot 16
  let rootEntCnt := boot.word 17
  let secPerFat := boot.word 22
  let totalSec : BitVec 32 :=
    if boot.word 19 ≠ 0 then (boot.word 19).setWidth 32 else boot.word 34 ++ boot.word 32
  let rootLba := fatLoop secPerFat numFats.toNat (resSec.setWidth 32)
  let rootDirSec := rootEntCnt >>> 4
  let dataLba := rootLba + rootDirSec.setWidth 32
  let clusters := (totalSec - dataLba) >>> spcShift
  let totalClus : Word := if clusters ≤ 0xFFF4#32 then clusters.setWidth 16 else 0xFFF4#16
  let maxClus := totalClus + 2
  let fatEntries := secPerFat <<< 8
  { secPerClus
    spcMask := secPerClus - 1
    spcShift
    resSec
    numFats
    rootEntCnt
    secPerFat
    totalSec
    fatLba := resSec
    rootLba
    rootDirSec
    dataLba
    totalClus
    maxClus := if 256#16 ≤ secPerFat ∨ maxClus ≤ fatEntries then maxClus else fatEntries }

namespace Geometry

/-- CLUS_SIC_TO_LBA. -/
def clusSicToLba (g : Geometry) (cluster : Word) (sicw : Word) : Lba :=
  ((cluster - 2).setWidth 32 <<< g.spcShift) + g.dataLba + sicw.setWidth 32

/-- CLUS_TO_LBA. -/
def clusToLba (g : Geometry) (cluster : Word) : Lba := g.clusSicToLba cluster 0

end Geometry

end Pugputer.Dos

import Pugputer.Dos.Geometry
import Pugputer.Image.Builder

namespace Pugputer.Image

open Dos (Geometry Sector dosStart)

/-! Where the builder's layout and DOS's reading of it are the same. -/

/-- A sector of an image. -/
def sector (image : Bytes) (lba : Nat) : Sector := fun i => image (lba * kSectorSize + i)

/-- DOS finds everything where the builder put it. -/
structure Agree (args : Args) (l : Layout) (g : Geometry) : Prop where
  fatLba : g.fatLba.toNat = l.fatLba.toNat
  rootLba : g.rootLba.toNat = l.rootLba.toNat
  dataLba : g.dataLba.toNat = l.dataLba.toNat
  clusters : ∀ cluster : Word, 2 ≤ cluster.toNat → cluster.toNat < l.totalClusters.toNat + 2 →
    (g.clusToLba cluster).toNat = args.clusterLba l cluster.toNat
  allocatable : ∀ cluster : Nat,
    (2 ≤ cluster ∧ cluster < g.maxClus.toNat) ↔
      (2 ≤ cluster ∧ cluster < l.totalClusters.toNat + 2)

namespace Args

variable (args : Args)

/-- The reserved sectors, as the boot sector's 16-bit field holds them. -/
def reserved : Nat := (1 + (args.dosPayload.length + 511) / 512) % 65536

def rootSectors : Nat := (args.rootEntryCount.toNat * 32 + 511) / 512

/-- The sectors left for the FATs and the clusters. -/
def volume : Nat := args.totalSectors.toNat - (args.reserved + args.rootSectors)

/-- The sectors that one FAT sector accounts for: itself, its copies' and its clusters'. -/
def stride : Nat := 256 * args.sectorsPerCluster.toNat + args.numFats.toNat

end Args

/-- The layout, in exact arithmetic. -/
structure Layout.Exact (args : Args) (l : Layout) : Prop where
  spc : 0 < args.sectorsPerCluster.toNat
  reserved : l.reservedSectors.toNat = args.reserved
  rootDirSectors : l.rootDirSectors.toNat = args.rootSectors
  fits : args.reserved + args.rootSectors ≤ args.totalSectors.toNat
  fatLow : args.volume ≤ l.sectorsPerFat.toNat * args.stride
  fatHigh : l.sectorsPerFat.toNat * args.stride < args.volume + args.stride
  fatLba : l.fatLba.toNat = args.reserved
  rootLba : l.rootLba.toNat = args.reserved + args.numFats.toNat * l.sectorsPerFat.toNat
  dataLba : l.dataLba.toNat = l.rootLba.toNat + args.rootSectors
  total : l.dataLba.toNat ≤ args.totalSectors.toNat
  clusters : l.totalClusters.toNat =
    (args.totalSectors.toNat - l.dataLba.toNat) / args.sectorsPerCluster.toNat
  few : l.totalClusters.toNat ≤ 65524
  many : 4085 ≤ l.totalClusters.toNat

/-- None of the 32-bit sums wraps when the cluster count is one that is accepted. -/
private theorem exact_sizes {total reserved root stride fats perFat data spc t n : Nat}
    (totalBound : total < 4294967296) (spcPos : 0 < spc) (spcBound : spc < 256)
    (fatsBound : fats < 256) (strideEq : stride = 256 * spc + fats)
    (small : reserved + root < 70000)
    (tEq : t = (total + (4294967296 - (reserved + root))) % 4294967296)
    (nEq : n = ((t + stride) % 4294967296 + 4294967295) % 4294967296)
    (perFatEq : perFat = n / stride)
    (dataEq : data = (total + (4294967296 -
      ((reserved + fats * perFat % 4294967296) % 4294967296 + root) % 4294967296)) % 4294967296)
    (few : data / spc ≤ 65524) :
    reserved + root ≤ total ∧ total - (reserved + root) ≤ perFat * stride ∧
      perFat * stride < total - (reserved + root) + stride ∧
      reserved + fats * perFat + root + data = total := by
  have dataSmall : data < 16777216 := by
    have whole := Nat.div_add_mod data spc
    have rest := Nat.mod_lt data spcPos
    have product : spc * (data / spc) ≤ 255 * 65524 := Nat.mul_le_mul (by omega) few
    omega
  have floor : perFat * stride ≤ n := by
    rw [perFatEq]
    exact Nat.div_mul_le_self n stride
  have ceiling : n < perFat * stride + stride := by
    rw [perFatEq]
    exact Nat.lt_div_mul_add (by omega)
  have copies : 2 * (fats * perFat) ≤ perFat * stride := by
    rw [← Nat.mul_assoc, Nat.mul_comm perFat]
    exact Nat.mul_le_mul_right _ (by omega)
  generalize fats * perFat = p at *
  generalize perFat * stride = q at *
  omega

private theorem stride_toNat (spc fats : Byte) :
    (256#32 * spc.setWidth 32 + fats.setWidth 32).toNat = 256 * spc.toNat + fats.toNat := by
  bv_omega

/-- The builder's assignments, each in terms of those before it. -/
private theorem layout_fields {args : Args} {l : Layout} (found : args.layout = some l) :
    args.sectorsPerCluster ≠ 0 ∧
    l.reservedSectors = BitVec.ofNat 16 (1 + (args.dosPayload.length + 511) / 512) ∧
    l.rootDirSectors = BitVec.ofNat 32 args.rootSectors ∧
    l.sectorsPerFat =
      (args.totalSectors - (l.reservedSectors.setWidth 32 + l.rootDirSectors) +
        (256#32 * args.sectorsPerCluster.setWidth 32 + args.numFats.setWidth 32) - 1) /
      (256#32 * args.sectorsPerCluster.setWidth 32 + args.numFats.setWidth 32) ∧
    l.fatLba = l.reservedSectors.setWidth 32 ∧
    l.rootLba = l.fatLba + args.numFats.setWidth 32 * l.sectorsPerFat ∧
    l.dataLba = l.rootLba + l.rootDirSectors ∧
    l.totalClusters =
      (args.totalSectors - l.dataLba) / args.sectorsPerCluster.setWidth 32 := by
  simp only [Args.layout] at found
  split at found
  · cases found
  split at found
  · cases found
  rename_i spcNe
  cases found
  exact ⟨spcNe, rfl, rfl, rfl, rfl, rfl, rfl, rfl⟩

theorem Args.layout_exact {args : Args} {l : Layout} (found : args.layout = some l)
    (few : l.totalClusters.toNat ≤ 65524) (many : 4085 ≤ l.totalClusters.toNat) :
    l.Exact args := by
  obtain ⟨spcNe, reservedEq, rootDirEq, perFatEq, fatEq, rootEq, dataEq, clustersEq⟩ :=
    layout_fields found
  have totalBound := args.totalSectors.isLt
  have spcBound := args.sectorsPerCluster.isLt
  have fatsBound := args.numFats.isLt
  have entriesBound := args.rootEntryCount.isLt
  have spcPos : 0 < args.sectorsPerCluster.toNat := by
    rcases Nat.eq_zero_or_pos args.sectorsPerCluster.toNat with zero | positive
    · exact absurd (BitVec.eq_of_toNat_eq zero) spcNe
    · exact positive
  have reserved : l.reservedSectors.toNat = args.reserved := by
    rw [reservedEq]
    exact BitVec.toNat_ofNat ..
  have reservedBound : args.reserved < 65536 := Nat.mod_lt _ (by decide)
  have rootBound : args.rootSectors ≤ 4096 := by
    simp only [Args.rootSectors]
    omega
  have rootDir : l.rootDirSectors.toNat = args.rootSectors := by
    rw [rootDirEq, BitVec.toNat_ofNat]
    exact Nat.mod_eq_of_lt (by omega)
  have fatLba : l.fatLba.toNat = args.reserved := by
    rw [fatEq, BitVec.toNat_setWidth, reserved]
    exact Nat.mod_eq_of_lt (by omega)
  have stride : (256#32 * args.sectorsPerCluster.setWidth 32 +
      args.numFats.setWidth 32).toNat = args.stride := stride_toNat ..
  have clusters : l.totalClusters.toNat =
      (args.totalSectors - l.dataLba).toNat / args.sectorsPerCluster.toNat := by
    rw [clustersEq, BitVec.toNat_udiv, BitVec.toNat_setWidth, Nat.mod_eq_of_lt (by omega)]
  have perFat : l.sectorsPerFat.toNat =
      ((((args.totalSectors.toNat +
        (4294967296 - (args.reserved + args.rootSectors))) % 4294967296 + args.stride)
          % 4294967296 + 4294967295) % 4294967296) / args.stride := by
    have before : (l.reservedSectors.setWidth 32 + l.rootDirSectors).toNat =
        args.reserved + args.rootSectors := by
      rw [BitVec.toNat_add, BitVec.toNat_setWidth, reserved, rootDir]
      omega
    have one : (1 : BitVec 32).toNat = 1 := rfl
    rw [perFatEq, BitVec.toNat_udiv, BitVec.toNat_sub, BitVec.toNat_add, stride,
      BitVec.toNat_sub, before, one]
    refine congrArg (· / args.stride) ?_
    omega
  have rootLba : l.rootLba.toNat =
      (args.reserved + args.numFats.toNat * l.sectorsPerFat.toNat % 4294967296)
        % 4294967296 := by
    rw [rootEq, BitVec.toNat_add, BitVec.toNat_mul, fatLba, BitVec.toNat_setWidth,
      Nat.mod_eq_of_lt (by omega : args.numFats.toNat < 2 ^ 32)]
  have dataLba : l.dataLba.toNat = (l.rootLba.toNat + args.rootSectors) % 4294967296 := by
    rw [dataEq, BitVec.toNat_add, rootDir]
  have left : (args.totalSectors - l.dataLba).toNat =
      (args.totalSectors.toNat + (4294967296 -
        ((args.reserved + args.numFats.toNat * l.sectorsPerFat.toNat % 4294967296)
          % 4294967296 + args.rootSectors) % 4294967296)) % 4294967296 := by
    rw [BitVec.toNat_sub, dataLba, rootLba]
    omega
  have fewLeft : (args.totalSectors - l.dataLba).toNat / args.sectorsPerCluster.toNat ≤ 65524 := by
    rw [← clusters]
    exact few
  obtain ⟨fits, low, high, whole⟩ := exact_sizes totalBound spcPos spcBound fatsBound rfl
    (by omega) rfl rfl perFat left fewLeft
  have leftBound := (args.totalSectors - l.dataLba).isLt
  exact {
    spc := spcPos
    reserved
    rootDirSectors := rootDir
    fits
    fatLow := low
    fatHigh := high
    fatLba
    rootLba := by omega
    dataLba := by omega
    total := by omega
    clusters := by
      rw [clusters]
      congr 1
      omega
    few
    many }

end Pugputer.Image

import Mathlib.Tactic.IntervalCases
import Pugputer.Image.Agree

namespace Pugputer.Image

open Dos (Geometry Sector dosStart shiftLoop fatLoop fatLoop_toNat)

/-! What DOS makes of the boot sector the builder writes. -/

namespace Args

variable (args : Args) (l : Layout)

/-- The arguments DOS reads back the builder's layout from. -/
structure Sound : Prop where
  power : ∃ k, args.sectorsPerCluster.toNat = 2 ^ k
  root : args.rootEntryCount.toNat % 16 = 0
  /-- The last FAT sector has entries to spare for the two clusters that are not there. -/
  spare : 0 < args.volume % args.stride ∧
    args.volume % args.stride + args.sectorsPerCluster.toNat < args.stride

theorem boot_bytes : args.bootSector l 13 = args.sectorsPerCluster ∧
    args.bootSector l 16 = args.numFats := ⟨rfl, rfl⟩

theorem boot_words : Sector.word (args.bootSector l) 14 = l.reservedSectors ∧
    Sector.word (args.bootSector l) 17 = args.rootEntryCount ∧
    Sector.word (args.bootSector l) 22 = l.sectorsPerFat.setWidth 16 :=
  ⟨word_hiByte_loByte _, word_hiByte_loByte _, word_hiByte_loByte _⟩

/-- The total is in the 16-bit field, or that is 0 and it is in the 32-bit one. -/
theorem boot_total (nonzero : args.totalSectors ≠ 0) :
    (if Sector.word (args.bootSector l) 19 ≠ 0 then
        (Sector.word (args.bootSector l) 19).setWidth 32
      else Sector.word (args.bootSector l) 34 ++ Sector.word (args.bootSector l) 32) =
      args.totalSectors := by
  have short : Sector.word (args.bootSector l) 19 =
      if args.totalSectors ≤ 0xFFFF#32 then args.totalSectors.setWidth 16 else 0 :=
    word_hiByte_loByte _
  have low : Sector.word (args.bootSector l) 32 =
      (if 0xFFFF#32 < args.totalSectors then args.totalSectors else 0).extractLsb' 0 16 :=
    word_hiByte_loByte _
  have high : Sector.word (args.bootSector l) 34 =
      (if 0xFFFF#32 < args.totalSectors then args.totalSectors else 0).extractLsb' 16 16 :=
    word_hiByte_loByte _
  rw [short, low, high]
  by_cases small : args.totalSectors ≤ 0xFFFF#32
  · rw [if_pos small]
    have fits : args.totalSectors.toNat < 65536 := Nat.lt_succ_of_le (BitVec.le_def.mp small)
    have kept : args.totalSectors.setWidth 16 ≠ 0 := by
      intro zero
      apply nonzero
      apply BitVec.eq_of_toNat_eq
      have same := congrArg BitVec.toNat zero
      rw [BitVec.toNat_setWidth, Nat.mod_eq_of_lt fits] at same
      exact same
    rw [if_pos kept]
    apply BitVec.eq_of_toNat_eq
    rw [BitVec.toNat_setWidth, BitVec.toNat_setWidth, Nat.mod_eq_of_lt fits]
    exact Nat.mod_eq_of_lt (by omega)
  · have large : 0xFFFF#32 < args.totalSectors := BitVec.not_le.mp small
    rw [if_neg small, if_neg (not_not_intro rfl), if_pos large]
    calc
      args.totalSectors.extractLsb' 16 16 ++ args.totalSectors.extractLsb' 0 16 =
          args.totalSectors.extractLsb' 0 32 :=
        BitVec.extractLsb'_append_extractLsb'_eq_extractLsb' (x := args.totalSectors) rfl
      _ = args.totalSectors := BitVec.extractLsb'_eq_self

end Args

theorem shiftLoop_small : ∀ spc : Byte, shiftLoop 8 spc 0 < 8 := by decide

theorem shiftLoop_power : ∀ k < 8, shiftLoop 8 (BitVec.ofNat 8 (2 ^ k)) 0 = k := by decide

variable {args : Args} {l : Layout}

/-- What one FAT sector stands for, times the FAT's sectors. -/
theorem stride_parts (args : Args) (perFat : Nat) :
    perFat * args.stride =
      args.sectorsPerCluster.toNat * (256 * perFat) + args.numFats.toNat * perFat := by
  rw [Args.stride, Nat.mul_add, Nat.mul_comm _ args.numFats.toNat, Nat.mul_comm _ (256 * _),
    Nat.mul_comm 256, Nat.mul_assoc]

theorem Layout.Exact.perFat (exact : l.Exact args) : l.sectorsPerFat.toNat ≤ 257 := by
  have spc := exact.spc
  have fats := args.numFats.isLt
  have high := exact.fatHigh
  have stride : args.stride = 256 * args.sectorsPerCluster.toNat + args.numFats.toNat := rfl
  have volume : args.volume = args.totalSectors.toNat - (args.reserved + args.rootSectors) := rfl
  have data := exact.dataLba
  have root := exact.rootLba
  have few := exact.few
  rw [exact.clusters, ← Nat.lt_succ_iff, Nat.div_lt_iff_lt_mul spc] at few
  have parts := stride_parts args l.sectorsPerFat.toNat
  have bound : args.sectorsPerCluster.toNat * (256 * l.sectorsPerFat.toNat) <
      args.sectorsPerCluster.toNat * 66036 := by
    omega
  have less := Nat.lt_of_mul_lt_mul_left bound
  omega

/-- The FATs have an entry for every cluster just when the last sector has some to spare. -/
theorem Layout.Exact.spare_iff (exact : l.Exact args) :
    l.totalClusters.toNat + 2 ≤ 256 * l.sectorsPerFat.toNat ↔
      0 < args.volume % args.stride ∧
        args.volume % args.stride + args.sectorsPerCluster.toNat < args.stride := by
  have spc := exact.spc
  have low := exact.fatLow
  have high := exact.fatHigh
  have many := exact.many
  have volume : args.volume = args.totalSectors.toNat - (args.reserved + args.rootSectors) := rfl
  have data := exact.dataLba
  have root := exact.rootLba
  have total := exact.total
  have parts := stride_parts args l.sectorsPerFat.toNat
  obtain ⟨slack, whole⟩ := Nat.exists_eq_add_of_le low
  have slackBound : slack < args.stride := by omega
  have enough : l.totalClusters.toNat + 2 ≤ 256 * l.sectorsPerFat.toNat ↔
      args.sectorsPerCluster.toNat < slack := by
    have fewer : l.totalClusters.toNat + 2 ≤ 256 * l.sectorsPerFat.toNat ↔
        l.totalClusters.toNat < 256 * l.sectorsPerFat.toNat - 1 := by omega
    rw [fewer, exact.clusters, Nat.div_lt_iff_lt_mul spc, Nat.sub_mul, Nat.one_mul,
      Nat.mul_comm (256 * _)]
    omega
  have rest : args.volume % args.stride = if slack = 0 then 0 else args.stride - slack := by
    split
    · rename_i none
      rw [none, Nat.add_zero] at whole
      rw [← whole, Nat.mul_mod_left]
    · obtain ⟨perFat, perFatEq⟩ : ∃ n, l.sectorsPerFat.toNat = n + 1 := by
        refine Nat.exists_eq_succ_of_ne_zero fun zero => ?_
        rw [zero, Nat.zero_mul] at whole
        omega
      rw [perFatEq, Nat.succ_mul] at whole
      have split : args.volume = args.stride - slack + perFat * args.stride := by omega
      rw [split, Nat.add_mul_mod_self_right, Nat.mod_eq_of_lt (by omega)]
  rw [enough, rest]
  split
  · omega
  · omega

/-- What DOS works out, in exact arithmetic. -/
structure Parsed (args : Args) (l : Layout) (g : Geometry) : Prop where
  spcShift : g.spcShift = shiftLoop 8 args.sectorsPerCluster 0
  fatLba : g.fatLba.toNat = args.reserved
  rootLba : g.rootLba.toNat = l.rootLba.toNat
  dataLba : g.dataLba.toNat = l.rootLba.toNat + args.rootEntryCount.toNat / 16
  totalClus : g.totalClus.toNat =
    min ((args.totalSectors.toNat - g.dataLba.toNat) >>> g.spcShift) 0xFFF4
  maxClus : g.maxClus.toNat =
    if 256 ≤ l.sectorsPerFat.toNat ∨ g.totalClus.toNat + 2 ≤ 256 * l.sectorsPerFat.toNat then
      g.totalClus.toNat + 2
    else 256 * l.sectorsPerFat.toNat

theorem Layout.Exact.rootFits (exact : l.Exact args) :
    l.rootLba.toNat + args.rootEntryCount.toNat / 16 ≤ l.dataLba.toNat := by
  have data := exact.dataLba
  have sectors : args.rootSectors = (args.rootEntryCount.toNat * 32 + 511) / 512 := rfl
  omega

theorem cap_toNat (v : BitVec 32) :
    (if v ≤ 0xFFF4#32 then v.setWidth 16 else 0xFFF4#16).toNat = min v.toNat 0xFFF4 := by
  by_cases small : v ≤ 0xFFF4#32
  · have bound : v.toNat ≤ 0xFFF4 := BitVec.le_def.mp small
    rw [if_pos small, BitVec.toNat_setWidth, Nat.min_eq_left bound]
    omega
  · have bound : 0xFFF4 < v.toNat := Nat.lt_of_not_le fun le => small (BitVec.le_def.mpr le)
    rw [if_neg small, Nat.min_eq_right (Nat.le_of_lt bound)]
    rfl

theorem clamp_toNat (t s : Word) (few : t.toNat ≤ 0xFFF4) :
    (if 256#16 ≤ s ∨ t + 2#16 ≤ s <<< 8 then t + 2#16 else s <<< 8).toNat =
      if 256 ≤ s.toNat ∨ t.toNat + 2 ≤ 256 * s.toNat then t.toNat + 2 else 256 * s.toNat := by
  have next : (t + 2#16).toNat = t.toNat + 2 := by
    rw [BitVec.toNat_add]
    exact Nat.mod_eq_of_lt (Nat.lt_of_le_of_lt (Nat.add_le_add_right few 2) (by decide))
  by_cases large : 256 ≤ s.toNat
  · rw [if_pos (.inl (BitVec.le_def.mpr large)), if_pos (.inl large), next]
  · have shifted : (s <<< 8).toNat = 256 * s.toNat := by
      rw [BitVec.toNat_shiftLeft, Nat.shiftLeft_eq]
      omega
    have notLarge : ¬256#16 ≤ s := fun le => large (BitVec.le_def.mp le)
    by_cases room : t.toNat + 2 ≤ 256 * s.toNat
    · have fits : t + 2#16 ≤ s <<< 8 := by
        rw [BitVec.le_def, next, shifted]
        exact room
      rw [if_pos (.inr fits), if_pos (.inr room), next]
    · have tight : ¬t + 2#16 ≤ s <<< 8 := by
        rw [BitVec.le_def, next, shifted]
        exact room
      rw [if_neg (by tauto), if_neg (by tauto), shifted]

theorem Layout.Exact.parsed (exact : l.Exact args) :
    Parsed args l (dosStart (args.bootSector l)) := by
  have totalBound := args.totalSectors.isLt
  have perFat := exact.perFat
  have nonzero : args.totalSectors ≠ 0 := by
    intro zero
    have many := exact.many
    rw [exact.clusters, zero] at many
    simp at many
  obtain ⟨spc, fats⟩ := args.boot_bytes l
  obtain ⟨reserved, entries, fatSize⟩ := args.boot_words l
  have total := args.boot_total l nonzero
  have secPerFat : (l.sectorsPerFat.setWidth 16).toNat = l.sectorsPerFat.toNat := by
    rw [BitVec.toNat_setWidth]
    exact Nat.mod_eq_of_lt (by omega)
  have wide : (l.reservedSectors.setWidth 32).toNat = args.reserved := by
    rw [BitVec.toNat_setWidth, exact.reserved]
    have small : args.reserved < 65536 := Nat.mod_lt _ (by decide)
    exact Nat.mod_eq_of_lt (by omega)
  have dataTotal := exact.total
  have rootFits := exact.rootFits
  have root : (fatLoop (l.sectorsPerFat.setWidth 16) args.numFats.toNat
      (l.reservedSectors.setWidth 32)).toNat = l.rootLba.toNat := by
    have rootEq := exact.rootLba
    rw [fatLoop_toNat _ _ _ (by rw [wide, secPerFat]; omega), wide, secPerFat, rootEq]
  have rootDir : ((args.rootEntryCount >>> 4).setWidth 32).toNat =
      args.rootEntryCount.toNat / 16 := by
    rw [BitVec.toNat_setWidth, BitVec.toNat_ushiftRight, Nat.shiftRight_eq_div_pow]
    have bound := args.rootEntryCount.isLt
    omega
  have data : (fatLoop (l.sectorsPerFat.setWidth 16) args.numFats.toNat
      (l.reservedSectors.setWidth 32) + (args.rootEntryCount >>> 4).setWidth 32).toNat =
        l.rootLba.toNat + args.rootEntryCount.toNat / 16 := by
    rw [BitVec.toNat_add, root, rootDir]
    omega
  have dataLba : (dosStart (args.bootSector l)).dataLba.toNat =
      l.rootLba.toNat + args.rootEntryCount.toNat / 16 := by
    change (fatLoop (Sector.word (args.bootSector l) 22) (args.bootSector l 16).toNat
      ((Sector.word (args.bootSector l) 14).setWidth 32) +
        (Sector.word (args.bootSector l) 17 >>> 4).setWidth 32).toNat = _
    rw [fatSize, fats, reserved, entries]
    exact data
  have totalClus : (dosStart (args.bootSector l)).totalClus.toNat =
      min ((args.totalSectors.toNat - (dosStart (args.bootSector l)).dataLba.toNat) >>>
        (dosStart (args.bootSector l)).spcShift) 0xFFF4 := by
    refine (cap_toNat _).trans ?_
    have left : ((dosStart (args.bootSector l)).totalSec -
        (dosStart (args.bootSector l)).dataLba).toNat =
          args.totalSectors.toNat - (dosStart (args.bootSector l)).dataLba.toNat := by
      have totalSec : (dosStart (args.bootSector l)).totalSec = args.totalSectors := total
      rw [totalSec, BitVec.toNat_sub, dataLba]
      omega
    rw [← left, ← BitVec.toNat_ushiftRight]
    rfl
  exact {
    spcShift := by
      change shiftLoop 8 (args.bootSector l 13) 0 = _
      rw [spc]
    fatLba := by
      change (Sector.word (args.bootSector l) 14).toNat = _
      rw [reserved, exact.reserved]
    rootLba := by
      change (fatLoop (Sector.word (args.bootSector l) 22) (args.bootSector l 16).toNat
        ((Sector.word (args.bootSector l) 14).setWidth 32)).toNat = _
      rw [fatSize, fats, reserved]
      exact root
    dataLba
    totalClus
    maxClus := by
      have few : (dosStart (args.bootSector l)).totalClus.toNat ≤ 0xFFF4 := by
        rw [totalClus]
        exact Nat.min_le_right ..
      refine (clamp_toNat _ (Sector.word (args.bootSector l) 22) few).trans ?_
      rw [fatSize, secPerFat] }

theorem clusToLba_toNat (g : Geometry) (cluster : Word) (real : 2 ≤ cluster.toNat)
    (shift : g.spcShift < 8) :
    (g.clusToLba cluster).toNat =
      ((cluster.toNat - 2) * 2 ^ g.spcShift + g.dataLba.toNat) % 4294967296 := by
  have below : (cluster - 2).toNat = cluster.toNat - 2 := by
    rw [BitVec.toNat_sub]
    have two : (2 : Word).toNat = 2 := rfl
    have bound := cluster.isLt
    omega
  have scale : 2 ^ g.spcShift < 2 ^ 8 := Nat.pow_lt_pow_right (by decide) shift
  have product : (cluster.toNat - 2) * 2 ^ g.spcShift < 65536 * 2 ^ 8 :=
    Nat.mul_lt_mul'' (Nat.lt_of_le_of_lt (Nat.sub_le _ _) cluster.isLt) scale
  have zero : ((0 : Word).setWidth 32).toNat = 0 := rfl
  have small : (cluster.toNat - 2) % 2 ^ 32 = cluster.toNat - 2 := by
    have bound := cluster.isLt
    omega
  rw [Geometry.clusToLba, Geometry.clusSicToLba, BitVec.toNat_add, BitVec.toNat_add, zero,
    BitVec.toNat_shiftLeft, BitVec.toNat_setWidth, below, small, Nat.shiftLeft_eq]
  generalize (cluster.toNat - 2) * 2 ^ g.spcShift = offset
  omega

/-- DOS and the builder agree on the layout just when the arguments are sound. -/
theorem Layout.Exact.agree_iff (exact : l.Exact args) :
    Agree args l (dosStart (args.bootSector l)) ↔ args.Sound := by
  have parsed := exact.parsed
  have spare := exact.spare_iff
  have perFat := exact.perFat
  have spc := exact.spc
  have few := exact.few
  have many := exact.many
  have total := exact.total
  have totalBound := args.totalSectors.isLt
  have shift : (dosStart (args.bootSector l)).spcShift < 8 := by
    rw [parsed.spcShift]
    exact shiftLoop_small _
  have clustersFit : l.totalClusters.toNat * args.sectorsPerCluster.toNat + l.dataLba.toNat ≤
      args.totalSectors.toNat := by
    have product := Nat.div_mul_le_self (args.totalSectors.toNat - l.dataLba.toNat)
      args.sectorsPerCluster.toNat
    rw [← exact.clusters] at product
    omega
  have sectors : args.rootSectors = (args.rootEntryCount.toNat * 32 + 511) / 512 := rfl
  have dataLba := exact.dataLba
  -- once the data area and the shift are right, so is the number of clusters
  have counted (data : (dosStart (args.bootSector l)).dataLba.toNat = l.dataLba.toNat)
      (power : args.sectorsPerCluster.toNat = 2 ^ (dosStart (args.bootSector l)).spcShift) :
      (dosStart (args.bootSector l)).totalClus.toNat = l.totalClusters.toNat := by
    rw [parsed.totalClus, data, Nat.shiftRight_eq_div_pow, ← power, ← exact.clusters]
    exact Nat.min_eq_left few
  generalize dosStart (args.bootSector l) = g at *
  constructor
  · intro agree
    have root : args.rootEntryCount.toNat % 16 = 0 := by
      have same := agree.dataLba
      rw [parsed.dataLba] at same
      omega
    have power : args.sectorsPerCluster.toNat = 2 ^ g.spcShift := by
      have second := agree.clusters 3#16 (by decide) (by change 3 < _; omega)
      rw [clusToLba_toNat g 3#16 (by decide) shift, agree.dataLba, Args.clusterLba] at second
      change ((3 - 2) * 2 ^ g.spcShift + l.dataLba.toNat) % 4294967296 =
        l.dataLba.toNat + (3 - 2) * args.sectorsPerCluster.toNat at second
      have scale : 2 ^ g.spcShift < 2 ^ 8 := Nat.pow_lt_pow_right (by decide) shift
      have product : 4085 * 1 ≤ l.totalClusters.toNat * args.sectorsPerCluster.toNat :=
        Nat.mul_le_mul many spc
      omega
    have same : g.maxClus.toNat = l.totalClusters.toNat + 2 := by
      have last := (agree.allocatable (l.totalClusters.toNat + 1)).mpr (by omega)
      have next := (agree.allocatable (g.maxClus.toNat - 1)).mp (by omega)
      omega
    have fits : l.totalClusters.toNat + 2 ≤ 256 * l.sectorsPerFat.toNat := by
      have maxClus := parsed.maxClus
      rw [counted agree.dataLba power, same] at maxClus
      split at maxClus
      · rename_i either
        omega
      · omega
    exact ⟨⟨g.spcShift, power⟩, root, spare.mp fits⟩
  · intro sound
    obtain ⟨k, power⟩ := sound.power
    have shiftEq : g.spcShift = k := by
      have small : k < 8 := by
        have bound := args.sectorsPerCluster.isLt
        rw [power] at bound
        exact (Nat.pow_lt_pow_iff_right (by decide)).mp bound
      have byte : args.sectorsPerCluster = BitVec.ofNat 8 (2 ^ k) := by
        rw [← power, BitVec.ofNat_toNat, BitVec.setWidth_eq]
      rw [parsed.spcShift, byte]
      exact shiftLoop_power k small
    rw [← shiftEq] at power
    have data : g.dataLba.toNat = l.dataLba.toNat := by
      have root := sound.root
      rw [parsed.dataLba]
      omega
    have fits := spare.mpr sound.spare
    have maxClus : g.maxClus.toNat = l.totalClusters.toNat + 2 := by
      rw [parsed.maxClus, counted data power, if_pos (.inr fits)]
    exact {
      fatLba := by rw [parsed.fatLba, exact.fatLba]
      rootLba := parsed.rootLba
      dataLba := data
      clusters := by
        intro cluster real below
        rw [clusToLba_toNat g cluster real shift, data, ← power, Args.clusterLba]
        have product : (cluster.toNat - 2) * args.sectorsPerCluster.toNat ≤
            l.totalClusters.toNat * args.sectorsPerCluster.toNat :=
          Nat.mul_le_mul_right _ (by omega)
        omega
      allocatable := by
        intro cluster
        rw [maxClus] }

/-! The boot sector stays as it was written: everything else goes after it. -/

theorem put_low {buf : Bytes} {off i : Nat} (bytes : List Byte) (low : i < off) :
    put buf off bytes i = buf i := if_neg fun inside => absurd inside.1 (Nat.not_le.mpr low)

theorem foldl_low {α : Type} {f : Bytes → α → Bytes} {i : Nat}
    (same : ∀ buf x, f buf x i = buf i) (xs : List α) (buf : Bytes) :
    xs.foldl f buf i = buf i := by
  induction xs generalizing buf with
  | nil => rfl
  | cons x xs ih => rw [List.foldl_cons, ih, same]

theorem low_sector {lba i : Nat} (after : 0 < lba) (low : i < 512) : i < lba * kSectorSize := by
  have bound : 1 * 512 ≤ lba * 512 := Nat.mul_le_mul_right 512 after
  change i < lba * 512
  omega

theorem addFiles_low {i : Nat} (low : i < 512) (data : 0 < l.dataLba.toNat) (s : Filling)
    (files : List (Fat16File × Nat × List Byte)) :
    (args.addFiles l s files).image i = s.image i := by
  induction files generalizing s with
  | nil => rfl
  | cons file files ih =>
      obtain ⟨f, d, leaf⟩ := file
      rw [Args.addFiles, ih, Args.addFile]
      apply foldl_low
      intro buf c
      exact put_low _ (low_sector (Nat.add_pos_left data _) low)

theorem write_low (exact : l.Exact args) (reserved : 0 < args.reserved) (dirs : List Dir)
    (placed : List (Nat × List Byte)) {i : Nat} (low : i < 512) :
    args.write l dirs placed i = args.bootSector l i := by
  have fatLba := exact.fatLba
  have rootLba := exact.rootLba
  have dataLba := exact.dataLba
  have afterFat : 0 < l.fatLba.toNat := by omega
  have afterRoot : 0 < l.rootLba.toNat := by omega
  have afterData : 0 < l.dataLba.toNat := by omega
  rw [Args.write]
  generalize args.allocateDirs placed dirs 0 dirs _ = allocated
  obtain ⟨dirs, alloc⟩ := allocated
  dsimp only
  rw [put_low _ (low_sector afterRoot low), foldl_low, foldl_low, addFiles_low low afterData]
  · exact put_low _ low
  · intro buf d
    exact put_low _ (low_sector (Nat.add_pos_left afterData _) low)
  · intro buf copy
    exact put_low _ (low_sector (Nat.add_pos_left afterFat _) low)

/-- The directories and files as the first pass leaves them. -/
def placement (args : Args) : List Dir × List (Nat × List Byte) := placeAll [{}] args.files

/-- What is accepted has a layout in exact arithmetic, fits it, and is written by it. -/
theorem built_spec {image : Bytes} (built : buildFat16Image args = some (.ok image)) :
    ∃ l, args.layout = some l ∧ l.Exact args ∧
      entryCount (placement args).1 (placement args).2 0 ≤ args.rootEntryCount.toNat ∧
      args.clustersNeeded (placement args).1 (placement args).2 ≤ l.totalClusters.toNat ∧
      args.clustersNeeded (placement args).1 (placement args).2 + 2 ≤
        l.sectorsPerFat.toNat * 256 ∧
      image = args.write l (placement args).1 (placement args).2 := by
  cases found : args.layout with
  | none =>
      rw [buildFat16Image, found] at built
      cases built
  | some l =>
      simp only [buildFat16Image, found, bind, Option.bind] at built
      split at built
      · cases built
      rename_i count
      split at built
      · cases built
      split at built
      · cases built
      rename_i rootRoom
      split at built
      · cases built
      rename_i fit
      split at built
      · cases built
      rename_i fatRoom
      cases built
      exact ⟨l, rfl, Args.layout_exact found (by omega) (by omega), Nat.le_of_not_lt rootRoom,
        Nat.le_of_not_lt fit, Nat.le_of_not_lt fatRoom, rfl⟩

/-- A volume whose clusters fill its FATs to the last entry. -/
def tightArgs : Args :=
  { dosPayload := [], files := [], totalSectors := 4419#32, sectorsPerCluster := 1#8,
    rootEntryCount := 512#16, numFats := 2#8 }

theorem tight_built : ∃ image, buildFat16Image tightArgs = some (.ok image) := by
  have accepted : (buildFat16Image tightArgs).any Except.isOk = true := by decide
  obtain ⟨result, built, fine⟩ := (Option.any_eq_true _ _).mp accepted
  cases result with
  | ok image => exact ⟨image, built⟩
  | error e => cases fine

end Pugputer.Image

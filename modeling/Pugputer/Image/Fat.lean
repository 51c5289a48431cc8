import Pugputer.Image.Written

namespace Pugputer.Image

/-! The entries the builder sets in its FAT, and whether they are in it. -/

/-- A call of `set_fat16_entry`: a cluster and its value. -/
abbrev FatStore := Word × Word

/-- The calls for `n` clusters chained from `first` on. -/
def chainStores (first : Word) : Nat → List FatStore
  | 0 => []
  | n + 1 => (first, if n = 0 then 0xFFFF#16 else first + 1) :: chainStores (first + 1) n

/-- The calls of one `allocate` after another, from the cluster `next` on. -/
def storesFrom (next : Word) : List Nat → List FatStore
  | [] => []
  | n :: ns => chainStores next n ++ storesFrom (next + BitVec.ofNat 16 n) ns

/-- How many clusters each `allocate` is called for. -/
def allocations (args : Args) : List Nat :=
  (List.range' 1 ((placement args).1.length - 1)).map (dirRun args) ++
    args.files.map args.fileClusters

def fatStores (args : Args) : List FatStore :=
  (0, 0xFFF8#16) :: (1, 0xFFFF#16) :: storesFrom 2 (allocations args)

def setAll (fat : Bytes) (stores : List FatStore) : Bytes :=
  stores.foldl (fun fat store => setFat16Entry fat store.1 store.2) fat

/-- Every entry is in a FAT of so many sectors. -/
def InFat (perFat : Nat) (stores : List FatStore) : Prop :=
  ∀ store ∈ stores, store.1.toNat * 2 + 1 < perFat * kSectorSize

/-! These are the calls. -/

theorem setAll_append (fat : Bytes) (first second : List FatStore) :
    setAll fat (first ++ second) = setAll (setAll fat first) second := List.foldl_append ..

theorem chainFrom_eq (fat : Bytes) (first : Word) (n : Nat) :
    chainFrom fat first n = setAll fat (chainStores first n) := by
  induction n generalizing fat first with
  | zero => rfl
  | succ n ih => exact ih _ _

theorem allocate_eq (a : Alloc) (n : Nat) :
    (a.allocate n).2 =
      ⟨setAll a.fat (chainStores a.nextCluster n), a.nextCluster + BitVec.ofNat 16 n⟩ := by
  rw [Alloc.allocate, ← chainFrom_eq]
  split
  · next none =>
      subst none
      rw [chainFrom, BitVec.add_zero]
  · rfl

/-- One `allocate` after another. -/
def Alloc.allocateAll (a : Alloc) (ns : List Nat) : Alloc :=
  ns.foldl (fun a n => (a.allocate n).2) a

theorem allocateAll_fat (a : Alloc) (ns : List Nat) :
    (a.allocateAll ns).fat = setAll a.fat (storesFrom a.nextCluster ns) := by
  induction ns generalizing a with
  | nil => rfl
  | cons n ns ih =>
      change ((a.allocate n).2.allocateAll ns).fat = _
      rw [ih, allocate_eq, storesFrom, setAll_append]

theorem allocateDirs_alloc (args : Args) (placed : List (Nat × List Byte)) (counted : List Dir)
    (d : Nat) (dirs : List Dir) (a : Alloc) (below : d ≠ 0) :
    (args.allocateDirs placed counted d dirs a).2 =
      a.allocateAll ((List.range' d dirs.length).map (args.dirClusters placed counted)) := by
  induction dirs generalizing d a with
  | nil => rfl
  | cons dir dirs ih =>
      rw [Args.allocateDirs, if_neg below]
      exact ih (d + 1) _ (Nat.succ_ne_zero d)

theorem placeAll_length (dirs : List Dir) (files : List Fat16File) :
    (placeAll dirs files).2.length = files.length := by
  induction files generalizing dirs with
  | nil => rfl
  | cons f files ih => exact congrArg Nat.succ (ih _)

theorem length_grown (dirs : List Dir) (d : Nat) (part : List Byte) :
    dirs.length ≤ (enter dirs d part).1.length := by
  rw [enter]
  split
  · rw [List.length_append, List.length_modify]
    exact Nat.le_add_right _ _
  · exact Nat.le_refl _

theorem place_length (dirs : List Dir) (d : Nat) (part text : List Byte) :
    dirs.length ≤ (place dirs d part text).1.length := by
  induction text generalizing dirs d part with
  | nil => exact Nat.le_refl _
  | cons c text ih =>
      rw [place]
      split
      · split
        · exact ih _ _ _
        · exact Nat.le_trans (length_grown dirs d _) (ih _ _ _)
      · exact ih _ _ _

theorem placeAll_grows (dirs : List Dir) (files : List Fat16File) :
    dirs.length ≤ (placeAll dirs files).1.length := by
  induction files generalizing dirs with
  | nil => exact Nat.le_refl _
  | cons f files ih => exact Nat.le_trans (place_length dirs 0 [] f.name) (ih _)

theorem clustered_alloc (args : Args) :
    (clustered args).2 = Alloc.allocateAll { fat := blankFat }
      ((List.range' 1 ((placement args).1.length - 1)).map (dirRun args)) := by
  have root : 0 < (placement args).1.length := placeAll_grows [{}] args.files
  obtain ⟨dir, rest, whole⟩ := List.exists_cons_of_length_pos root
  have count : (placement args).1.length - 1 = rest.length := by
    rw [whole]
    rfl
  rw [count, clustered]
  have below := allocateDirs_alloc args (placement args).2 (placement args).1 1 rest
    { fat := blankFat } (by decide)
  have first := congrArg Prod.snd
    (allocateDirs_root args (placement args).2 (placement args).1 dir rest { fat := blankFat })
  rw [← whole] at first
  exact first.trans below

theorem addFiles_alloc (args : Args) (l : Layout) (s : Filling)
    (files : List (Fat16File × Nat × List Byte)) :
    (args.addFiles l s files).alloc =
      s.alloc.allocateAll (files.map fun file => args.fileClusters file.1) := by
  induction files generalizing s with
  | nil => rfl
  | cons file files ih => exact ih (args.addFile l s file.1 file.2.1 file.2.2)

/-- The FAT of the image is what the calls make of an empty one. -/
theorem filled_fat (args : Args) (l : Layout) :
    (filled args l).alloc.fat = setAll (fun _ => 0) (fatStores args) := by
  have names : (args.files.zip (placement args).2).map (fun file => args.fileClusters file.1) =
      args.files.map args.fileClusters := by
    have firsts := List.map_fst_zip
      (Nat.le_of_eq (placeAll_length [{}] args.files).symm)
    calc (args.files.zip (placement args).2).map (fun file => args.fileClusters file.1)
        = ((args.files.zip (placement args).2).map Prod.fst).map args.fileClusters := by
          rw [List.map_map]
          rfl
      _ = args.files.map args.fileClusters := congrArg _ firsts
  have all : (filled args l).alloc = Alloc.allocateAll { fat := blankFat } (allocations args) := by
    rw [filled, addFiles_alloc, names, clustered_alloc, allocations]
    exact (List.foldl_append ..).symm
  rw [all, allocateAll_fat]
  rfl

/-! Which clusters they are for. -/

theorem chainStores_below {first : Word} {n : Nat} (fits : first.toNat + n ≤ 65536)
    {store : FatStore} (member : store ∈ chainStores first n) :
    store.1.toNat < first.toNat + n := by
  induction n generalizing first with
  | zero => cases member
  | succ n ih =>
      rcases List.mem_cons.mp member with rfl | later
      · exact Nat.lt_add_of_pos_right (Nat.succ_pos n)
      · by_cases last : n = 0
        · subst last
          cases later
        · have next : (first + 1).toNat = first.toNat + 1 := by
            rw [BitVec.toNat_add]
            exact Nat.mod_eq_of_lt (show first.toNat + 1 < 65536 by omega)
          have below := ih (by omega) later
          omega

theorem storesFrom_below {next : Word} {ns : List Nat} (fits : next.toNat + total ns ≤ 65535)
    {store : FatStore} (member : store ∈ storesFrom next ns) :
    store.1.toNat < next.toNat + total ns := by
  induction ns generalizing next with
  | nil => cases member
  | cons n ns ih =>
      rw [total] at fits ⊢
      have after : (next + BitVec.ofNat 16 n).toNat = next.toNat + n := by
        rw [BitVec.toNat_add, BitVec.toNat_ofNat]
        omega
      rcases List.mem_append.mp member with here | later
      · have below := chainStores_below (by omega) here
        omega
      · have below := ih (by omega) later
        omega

theorem mem_chainStores (first : Word) {n k : Nat} (fits : first.toNat + n ≤ 65536) (low : k < n) :
    ∃ store ∈ chainStores first n, store.1.toNat = first.toNat + k := by
  induction n generalizing first k with
  | zero => exact absurd low (Nat.not_lt_zero k)
  | succ n ih =>
      cases k with
      | zero => exact ⟨_, List.mem_cons_self, rfl⟩
      | succ k =>
          have next : (first + 1).toNat = first.toNat + 1 := by
            rw [BitVec.toNat_add]
            exact Nat.mod_eq_of_lt (show first.toNat + 1 < 65536 by omega)
          obtain ⟨store, member, here⟩ := ih (first + 1) (k := k) (by omega) (by omega)
          exact ⟨store, List.mem_cons_of_mem _ member, by omega⟩

theorem fileClusters_le (args : Args) (f : Fat16File) :
    args.fileClusters f ≤ args.clustersFor f.data.length := by
  rw [Args.fileClusters]
  split
  · exact Nat.zero_le _
  · exact Nat.le_refl _

theorem total_allocations (args : Args) :
    total (allocations args) ≤ args.clustersNeeded (placement args).1 (placement args).2 := by
  rw [allocations, total_append, needed_total]
  exact Nat.add_le_add_left (total_le _ _ _ fun f _ => fileClusters_le args f) _

/-! What the builder accepts. -/

namespace Args

variable (args : Args)

/-- The cluster count is one of FAT16. -/
def Counted (l : Layout) : Prop := 4085 ≤ l.totalClusters.toNat ∧ l.totalClusters.toNat ≤ 65524

/-- The directories and files have clusters enough. -/
def Holds (l : Layout) : Prop :=
  args.clustersNeeded (placement args).1 (placement args).2 ≤ l.totalClusters.toNat

/-- There is an entry for every cluster, and whatever files the volume is filled with, no store is
outside the FAT. -/
def Covered (l : Layout) : Prop :=
  l.totalClusters.toNat + 2 ≤ l.sectorsPerFat.toNat * 256 ∧
    ∀ files : List Fat16File, { args with files := files }.Holds l →
      InFat l.sectorsPerFat.toNat (fatStores { args with files := files })

/-- The last FAT sector is neither full nor has it a cluster's sectors or less to spare. -/
def Spare : Prop :=
  0 < args.volume % args.stride ∧
    args.volume % args.stride + args.sectorsPerCluster.toNat < args.stride

instance : Decidable args.Spare := inferInstanceAs (Decidable (_ ∧ _))

end Args

theorem inFat {args : Args} {l : Layout} (few : l.totalClusters.toNat ≤ 65524)
    (enough : l.totalClusters.toNat + 2 ≤ l.sectorsPerFat.toNat * 256) (holds : args.Holds l) :
    InFat l.sectorsPerFat.toNat (fatStores args) := by
  intro store member
  have needed := total_allocations args
  have within : args.clustersNeeded (placement args).1 (placement args).2 ≤
    l.totalClusters.toNat := holds
  have two : (2 : Word).toNat = 2 := rfl
  have sector : kSectorSize = 512 := rfl
  have below : store.1.toNat < l.totalClusters.toNat + 2 := by
    rcases List.mem_cons.mp member with rfl | rest
    · exact Nat.succ_pos _
    · rcases List.mem_cons.mp rest with rfl | handed
      · exact Nat.succ_lt_succ (Nat.succ_pos _)
      · have last := storesFrom_below (by omega) handed
        omega
  rw [sector]
  omega

/-- The FAT covers every cluster just when its last sector has some to spare. -/
theorem fat_covers_iff (args : Args) (l : Layout) (found : args.layout = some l)
    (counted : Args.Counted l) : args.Covered l ↔ args.Spare := by
  have exact := Args.layout_exact found counted.2 counted.1
  have spare := exact.spare_iff
  rw [Nat.mul_comm] at spare
  constructor
  · rintro ⟨enough, -⟩
    exact spare.mp enough
  · intro some
    have enough := spare.mpr some
    exact ⟨enough, fun files holds => inFat counted.2 enough holds⟩

/-- 20480 sectors of four to a cluster. -/
def spareArgs : Args :=
  { dosPayload := [], files := [], totalSectors := 20480#32, sectorsPerCluster := 4#8,
    rootEntryCount := 512#16, numFats := 2#8 }

theorem fat_covers_iff_spare : ∃ l, spareArgs.layout = some l ∧ Args.Counted l ∧
    (spareArgs.Covered l ↔ spareArgs.Spare) := by
  refine ⟨_, rfl, ⟨by decide, by decide⟩, fat_covers_iff spareArgs _ rfl ⟨by decide, by decide⟩⟩

/-- One file that takes all 4352 clusters of the volume. -/
def fullArgs : Args :=
  { tightArgs with files := [⟨text "FULL.BIN", List.replicate (4352 * 512) 0⟩] }

theorem full_allocations : allocations fullArgs = [4352] := by
  have size : fullArgs.fileClusters ⟨text "FULL.BIN", List.replicate (4352 * 512) 0⟩ = 4352 := by
    have some : List.replicate (4352 * 512) (0 : Byte) ≠ [] := by
      rw [Ne, List.replicate_eq_nil_iff]
      decide
    rw [Args.fileClusters, if_neg some, List.length_replicate]
    decide
  exact congrArg (fun n => [n]) size

theorem needed_one (args : Args) {f : Fat16File} (one : args.files = [f])
    (root : (placement args).1.length = 1) :
    args.clustersNeeded (placement args).1 (placement args).2 =
      args.clustersFor f.data.length := by
  rw [needed_total, root, one]
  exact Nat.zero_add _

/-- The last two clusters have no entry, and the file's are set there all the same. -/
theorem full_outside : ∃ l, fullArgs.layout = some l ∧ Args.Counted l ∧ fullArgs.Holds l ∧
    l.sectorsPerFat.toNat * 256 < l.totalClusters.toNat + 2 ∧
    ¬InFat l.sectorsPerFat.toNat (fatStores fullArgs) := by
  have needed : fullArgs.clustersNeeded (placement fullArgs).1 (placement fullArgs).2 = 4352 := by
    rw [needed_one fullArgs rfl rfl, List.length_replicate]
    decide
  refine ⟨_, rfl, ⟨by decide, by decide⟩, ?_, by decide, fun inside => ?_⟩
  · rw [Args.Holds, needed]
    decide
  · have fits : (2 : Word).toNat + 4352 ≤ 65536 := by decide
    obtain ⟨store, member, last⟩ := mem_chainStores 2 fits (show 4351 < 4352 by decide)
    have called : store ∈ fatStores fullArgs := by
      rw [fatStores, full_allocations]
      exact List.mem_cons_of_mem _ (List.mem_cons_of_mem _ (List.mem_append_left _ member))
    have two : (2 : Word).toNat = 2 := rfl
    have within : store.1.toNat * 2 + 1 < 17 * 512 := inside store called
    omega

end Pugputer.Image

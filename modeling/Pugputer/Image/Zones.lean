import Pugputer.Image.Written

namespace Pugputer.Image

/-! Where everything is in the image. -/

variable {args : Args} {l : Layout}

/-- The clusters of a directory or a file. -/
def Item.run (args : Args) : Item → Nat × Nat
  | .dir d => ((clusterOf (clustered args).1 d).toNat, dirRun args d)
  | .file info => (info.start.toNat, args.fileClusters info.file)

/-- What is in them. -/
def Item.bytes (args : Args) : Item → List Byte
  | .dir d => (ents args d).flatten
  | .file info => info.file.data

/-- The directories and files that have clusters. -/
def owners (args : Args) : List Item :=
  (List.range' 1 ((placement args).1.length - 1)).map Item.dir ++
    ((infos args).filter (·.file.data ≠ [])).map Item.file

theorem runs_owners (args : Args) : runs args = (owners args).map (Item.run args) := by
  rw [runs, owners, List.map_append, List.map_map, List.map_map]
  rfl

theorem mem_owners_dir {d : Nat} :
    Item.dir d ∈ owners args ↔ 0 < d ∧ d < (placement args).1.length := by
  rw [owners, List.mem_append]
  constructor
  · rintro (dir | file)
    · obtain ⟨e, member, same⟩ := List.mem_map.mp dir
      cases same
      rw [List.mem_range'_1] at member
      omega
    · obtain ⟨info, -, same⟩ := List.mem_map.mp file
      cases same
  · intro bounds
    refine .inl (List.mem_map_of_mem ?_)
    rw [List.mem_range'_1]
    omega

theorem mem_owners_file {info : FileInfo} :
    Item.file info ∈ owners args ↔ info ∈ infos args ∧ info.file.data ≠ [] := by
  rw [owners, List.mem_append]
  constructor
  · rintro (dir | file)
    · obtain ⟨e, -, same⟩ := List.mem_map.mp dir
      cases same
    · obtain ⟨other, member, same⟩ := List.mem_map.mp file
      cases same
      obtain ⟨listed, some⟩ := List.mem_filter.mp member
      exact ⟨listed, of_decide_eq_true some⟩
  · rintro ⟨listed, some⟩
    exact .inr (List.mem_map_of_mem (List.mem_filter.mpr ⟨listed, decide_eq_true some⟩))

/-- All that is known of an image that was built. -/
structure Done (args : Args) (l : Layout) : Prop extends Ready args l where
  rootRoom : entryCount (placement args).1 (placement args).2 0 ≤ args.rootEntryCount.toNat
  fatRoom : args.clustersNeeded (placement args).1 (placement args).2 + 2 ≤
    l.sectorsPerFat.toNat * 256
  /-- The payload is within the reserved sectors. -/
  inside : kSectorSize + args.dosPayload.length ≤ args.reserved * kSectorSize

theorem Done.run (done : Done args l) {item : Item} (member : item ∈ owners args) :
    2 ≤ (item.run args).1 ∧ 0 < (item.run args).2 ∧
      (item.run args).1 + (item.run args).2 ≤ 65526 ∧
      (item.run args).1 + (item.run args).2 ≤ l.sectorsPerFat.toNat * 256 := by
  obtain ⟨-, handed⟩ := done.files_stored
  have fits := done.fits
  have few := done.few
  have room := done.fatRoom
  have listed : item.run args ∈ runs args := by
    rw [runs_owners]
    exact List.mem_map_of_mem member
  obtain ⟨low, some, high⟩ := handed.inside _ listed
  omega

/-- Two that share a cluster are the same. -/
theorem Done.one (done : Done args l) {item item' : Item} (member : item ∈ owners args)
    (member' : item' ∈ owners args)
    (meet : (item.run args).1 < (item'.run args).1 + (item'.run args).2)
    (meet' : (item'.run args).1 < (item.run args).1 + (item.run args).2) : item = item' := by
  obtain ⟨-, handed⟩ := done.files_stored
  have order := handed.order
  rw [runs_owners, List.pairwise_map] at order
  rcases pairwise_cases order member member' with same | before | after
  · exact same
  · exact absurd before (Nat.not_le.mpr meet')
  · exact absurd after (Nat.not_le.mpr meet)

theorem Done.bytes_le (done : Done args l) {item : Item} (member : item ∈ owners args) :
    (item.bytes args).length ≤ (item.run args).2 * args.bytesPerCluster := by
  have spc := done.exact.spc
  cases item with
  | dir d =>
      obtain ⟨-, below⟩ := mem_owners_dir.mp member
      obtain ⟨length, -⟩ := clustered_spec done.plan spc done.few
      have counted := done.entries_le (d := d) (by rw [length]; exact below)
      have room := Args.le_clustersFor spc
        (entryCount (placement args).1 (placement args).2 d * 32)
      rw [Item.bytes, flatten_length 32 ents_length]
      change _ ≤ args.clustersFor (entryCount (placement args).1 (placement args).2 d * 32) *
        args.bytesPerCluster
      omega
  | file info =>
      obtain ⟨-, some⟩ := mem_owners_file.mp member
      have clusters : args.fileClusters info.file = args.clustersFor info.file.data.length :=
        if_neg some
      change info.file.data.length ≤ args.fileClusters info.file * args.bytesPerCluster
      rw [clusters]
      exact Args.le_clustersFor spc _

/-! The image, piece by piece. -/

/-- An item's bytes put in its clusters. -/
def store (args : Args) (l : Layout) (items : List Item) (image : Bytes) : Bytes :=
  items.foldl (fun image item =>
    put image (args.clusterLba l (item.run args).1 * kSectorSize) (item.bytes args)) image

theorem storeAll_filter (image : Bytes) (infos : List FileInfo) :
    storeAll args l image infos =
      store args l ((infos.filter (·.file.data ≠ [])).map Item.file) image := by
  induction infos generalizing image with
  | nil => rfl
  | cons info rest ih =>
      rw [storeAll, List.foldl_cons, List.filter_cons]
      by_cases empty : info.file.data = []
      · have skipped : ¬decide (info.file.data ≠ []) = true := by
          rw [decide_eq_true_eq]
          exact not_not_intro empty
        rw [if_neg skipped, empty, put_nil]
        exact ih image
      · rw [if_pos (decide_eq_true empty)]
        exact ih _

/-- What is written before the FATs. -/
def data (args : Args) (l : Layout) : Bytes :=
  store args l
    (((infos args).filter (·.file.data ≠ [])).map Item.file ++
      (List.range' 1 ((placement args).1.length - 1)).map Item.dir)
    (put (args.bootSector l) kSectorSize args.dosPayload)

def withFats (args : Args) (l : Layout) (image : Bytes) : Bytes :=
  (List.range args.numFats.toNat).foldl
    (fun image copy =>
      put image ((l.fatLba.toNat + copy * l.sectorsPerFat.toNat) * kSectorSize)
        ((List.range (l.sectorsPerFat.toNat * kSectorSize)).map (finalAlloc args).fat))
    image

def rootBytes (args : Args) (l : Layout) : List Byte :=
  (List.range (l.rootDirSectors.toNat * kSectorSize)).map
    (put (fun _ => 0) 0 (ents args 0).flatten)

theorem write_filled (args : Args) (l : Layout) :
    args.write l (placement args).1 (placement args).2 =
      put
        ((List.range args.numFats.toNat).foldl
          (fun image copy =>
            put image ((l.fatLba.toNat + copy * l.sectorsPerFat.toNat) * kSectorSize)
              ((List.range (l.sectorsPerFat.toNat * kSectorSize)).map (filled args l).alloc.fat))
          (((List.range (filled args l).dirs.length).drop 1).foldl
            (fun image d =>
              put image (args.clusterLba l (clusterOf (filled args l).dirs d).toNat * kSectorSize)
                (entriesOf (filled args l).dirs d))
            (filled args l).image))
        (l.rootLba.toNat * kSectorSize)
        ((List.range (l.rootDirSectors.toNat * kSectorSize)).map
          (put (fun _ => 0) 0 (entriesOf (filled args l).dirs 0))) := rfl

theorem foldl_same {α : Type} {f g : Bytes → α → Bytes} (list : List α) (start : Bytes)
    (same : ∀ image, ∀ x ∈ list, f image x = g image x) : list.foldl f start = list.foldl g start := by
  induction list generalizing start with
  | nil => rfl
  | cons x list ih =>
      rw [List.foldl_cons, List.foldl_cons, same start x List.mem_cons_self]
      exact ih _ fun image y member => same image y (List.mem_cons_of_mem _ member)

/-- The image is its data area, then the FATs, then the root directory. -/
theorem Ready.write_eq (ready : Ready args l) :
    args.write l (placement args).1 (placement args).2 =
      put (withFats args l (data args l)) (l.rootLba.toNat * kSectorSize) (rootBytes args l) := by
  obtain ⟨length, -⟩ := clustered_spec ready.plan ready.exact.spc ready.few
  obtain ⟨filledLength, cluster, entries, alloc⟩ := ready.filled_spec
  obtain ⟨image, -⟩ := ready.files_stored
  have root := ready.clusteredShape.root
  have dirs (start : Bytes) :
      ((List.range (filled args l).dirs.length).drop 1).foldl
        (fun image d =>
          put image (args.clusterLba l (clusterOf (filled args l).dirs d).toNat * kSectorSize)
            (entriesOf (filled args l).dirs d)) start =
      store args l ((List.range' 1 ((placement args).1.length - 1)).map Item.dir) start := by
    rw [List.range_eq_range', List.drop_range', Nat.zero_add, filledLength, length, store,
      List.foldl_map]
    apply foldl_same
    intro image d member
    rw [List.mem_range'_1] at member
    rw [cluster, entries d (by omega)]
    rfl
  rw [write_filled, dirs, alloc, entries 0 root, image, storeAll_filter, withFats, data, rootBytes,
    store, store, ← List.foldl_append, ← store]

/-! Reading the pieces. -/

theorem put_high {buf : Bytes} {off i : Nat} {bytes : List Byte} (high : off + bytes.length ≤ i) :
    put buf off bytes i = buf i := if_neg fun inside => absurd inside.2 (Nat.not_lt.mpr high)

theorem boot_high (args : Args) (l : Layout) {i : Nat} (high : 512 ≤ i) :
    args.bootSector l i = 0 := by
  have past {buf : Bytes} {off : Nat} {bytes : List Byte} (inside : off + bytes.length ≤ 512) :
      put buf off bytes i = buf i := put_high (Nat.le_trans inside high)
  simp only [Args.bootSector, putLe16, putLe32]
  repeat rw [past (Nat.le_of_ble_eq_true rfl)]

theorem clusterLba_ge (args : Args) (l : Layout) (k : Nat) :
    l.dataLba.toNat * kSectorSize ≤ args.clusterLba l k * kSectorSize :=
  Nat.mul_le_mul_right _ (Nat.le_add_right _ _)

/-- Before the data area there are the boot sector and the payload. -/
theorem data_low (args : Args) (l : Layout) {i : Nat} (low : i < l.dataLba.toNat * kSectorSize) :
    data args l i = put (args.bootSector l) kSectorSize args.dosPayload i := by
  rw [data, store, puts_miss]
  intro item _ inside
  have above := clusterLba_ge args l (item.run args).1
  omega

/-- Two runs of clusters whose places meet have a cluster in common. -/
theorem clusterLba_lt (args : Args) (l : Layout) {first first' n : Nat} (real : 2 ≤ first) (real' : 2 ≤ first')
    (meet : args.clusterLba l first' * kSectorSize <
      args.clusterLba l first * kSectorSize + n * args.bytesPerCluster) : first' < first + n := by
  rw [← clusterLba_add l real] at meet
  have sectors := Nat.lt_of_mul_lt_mul_right meet
  rw [Args.clusterLba, Args.clusterLba] at sectors
  have clusters := Nat.lt_of_mul_lt_mul_right (Nat.lt_of_add_lt_add_left sectors)
  omega

/-- What a directory or a file has in its clusters: its bytes, then zeros. -/
theorem Done.data_stored (done : Done args l) {item : Item} (member : item ∈ owners args) {j : Nat}
    (inside : j < (item.run args).2 * args.bytesPerCluster) :
    data args l (args.clusterLba l (item.run args).1 * kSectorSize + j) =
      (item.bytes args).getD j 0 := by
  obtain ⟨real, some, -⟩ := done.run member
  have listed : item ∈ ((infos args).filter (·.file.data ≠ [])).map Item.file ++
      (List.range' 1 ((placement args).1.length - 1)).map Item.dir := by
    rw [List.mem_append, or_comm, ← List.mem_append]
    exact member
  have owner {other : Item}
      (found : other ∈ ((infos args).filter (·.file.data ≠ [])).map Item.file ++
        (List.range' 1 ((placement args).1.length - 1)).map Item.dir) : other ∈ owners args := by
    rw [List.mem_append, or_comm, ← List.mem_append] at found
    exact found
  have only : ∀ other ∈ ((infos args).filter (·.file.data ≠ [])).map Item.file ++
      (List.range' 1 ((placement args).1.length - 1)).map Item.dir,
      args.clusterLba l (other.run args).1 * kSectorSize ≤
          args.clusterLba l (item.run args).1 * kSectorSize + j ∧
        args.clusterLba l (item.run args).1 * kSectorSize + j <
          args.clusterLba l (other.run args).1 * kSectorSize + (other.bytes args).length →
      other = item := by
    intro other found within
    obtain ⟨real', some', -⟩ := done.run (owner found)
    have room := done.bytes_le (owner found)
    exact done.one (owner found) member
      (clusterLba_lt args l real real' (by omega)) (clusterLba_lt args l real' real (by omega))
  rw [data, store]
  by_cases hit : j < (item.bytes args).length
  · rw [puts_hit _ _ _ _ listed ⟨Nat.le_add_right _ _, Nat.add_lt_add_left hit _⟩ only,
      Nat.add_sub_cancel_left]
  · rw [puts_miss]
    · have above := clusterLba_ge args l (item.run args).1
      have dataLba := done.exact.dataLba
      have rootLba := done.exact.rootLba
      have start : args.reserved * kSectorSize ≤ l.dataLba.toNat * kSectorSize :=
        Nat.mul_le_mul_right _ (by omega)
      have payload := done.inside
      have sector : kSectorSize = 512 := rfl
      rw [put_high (by omega), boot_high _ _ (by omega),
        List.getD_eq_default _ _ (Nat.le_of_not_lt hit)]
    · intro other found within
      obtain rfl := only other found within
      omega

/-- The FAT copies leave what is before and after them. -/
theorem withFats_miss (args : Args) (l : Layout) (image : Bytes) {i : Nat}
    (out : i < l.fatLba.toNat * kSectorSize ∨
      (l.fatLba.toNat + args.numFats.toNat * l.sectorsPerFat.toNat) * kSectorSize ≤ i) :
    withFats args l image i = image i := by
  rw [withFats, puts_miss]
  intro copy member within
  rw [List.length_map, List.length_range, ← Nat.add_mul, Nat.add_assoc, ← Nat.succ_mul] at within
  have last : copy.succ * l.sectorsPerFat.toNat ≤ args.numFats.toNat * l.sectorsPerFat.toNat :=
    Nat.mul_le_mul_right _ (List.mem_range.mp member)
  have ends := Nat.mul_le_mul_right kSectorSize (Nat.add_le_add_left last l.fatLba.toNat)
  have starts : l.fatLba.toNat * kSectorSize ≤
      (l.fatLba.toNat + copy * l.sectorsPerFat.toNat) * kSectorSize :=
    Nat.mul_le_mul_right _ (Nat.le_add_right _ _)
  omega

theorem withFats_hit (args : Args) (l : Layout) (image : Bytes) {copy j : Nat}
    (below : copy < args.numFats.toNat) (inside : j < l.sectorsPerFat.toNat * kSectorSize) :
    withFats args l image ((l.fatLba.toNat + copy * l.sectorsPerFat.toNat) * kSectorSize + j) =
      (finalAlloc args).fat j := by
  have length : ((List.range (l.sectorsPerFat.toNat * kSectorSize)).map
      (finalAlloc args).fat).length = l.sectorsPerFat.toNat * kSectorSize := by
    rw [List.length_map, List.length_range]
  have only : ∀ copy' ∈ List.range args.numFats.toNat,
      (l.fatLba.toNat + copy' * l.sectorsPerFat.toNat) * kSectorSize ≤
          (l.fatLba.toNat + copy * l.sectorsPerFat.toNat) * kSectorSize + j ∧
        (l.fatLba.toNat + copy * l.sectorsPerFat.toNat) * kSectorSize + j <
          (l.fatLba.toNat + copy' * l.sectorsPerFat.toNat) * kSectorSize +
            ((List.range (l.sectorsPerFat.toNat * kSectorSize)).map (finalAlloc args).fat).length →
      copy' = copy := by
    intro copy' _ within
    rw [length] at within
    have before {a b : Nat} (less : a < b) :
        (l.fatLba.toNat + a * l.sectorsPerFat.toNat) * kSectorSize +
            l.sectorsPerFat.toNat * kSectorSize ≤
          (l.fatLba.toNat + b * l.sectorsPerFat.toNat) * kSectorSize := by
      rw [← Nat.add_mul, Nat.add_assoc, ← Nat.succ_mul]
      exact Nat.mul_le_mul_right _ (Nat.add_le_add_left (Nat.mul_le_mul_right _ less) _)
    rcases Nat.lt_trichotomy copy' copy with less | same | more
    · have apart := before less
      omega
    · exact same
    · have apart := before more
      omega
  rw [withFats, puts_hit _ _ _ _ (List.mem_range.mpr below)
    ⟨Nat.le_add_right _ _, by rw [length]; exact Nat.add_lt_add_left inside _⟩ only,
    Nat.add_sub_cancel_left, List.getD_eq_getElem _ _ (by rw [length]; exact inside),
    List.getElem_map, List.getElem_range]

end Pugputer.Image

import Pugputer.Image.Zones

namespace Pugputer.Image

/-! What the reader finds in an image that was built. -/

variable {args : Args} {l : Layout}

def written (args : Args) (l : Layout) : Bytes := args.write l (placement args).1 (placement args).2

/-! The boot sector. -/

theorem Done.reserved_pos (done : Done args l) : 0 < args.reserved := by
  have inside := done.inside
  rcases Nat.eq_zero_or_pos args.reserved with zero | positive
  · rw [zero, Nat.zero_mul] at inside
    exact absurd inside (by
      rw [Nat.le_zero, kSectorSize]
      omega)
  · exact positive

theorem Done.boot (done : Done args l) {i : Nat} (low : i < 512) :
    written args l i = args.bootSector l i := write_low done.exact done.reserved_pos _ _ low

theorem Done.spc (done : Done args l) :
    Reader.spc (written args l) = args.sectorsPerCluster.toNat := by
  rw [Reader.spc, done.boot (by decide), (args.boot_bytes l).1]

theorem Done.reserved (done : Done args l) : Reader.reserved (written args l) = args.reserved := by
  have field : Reader.reserved (written args l) =
      (Dos.Sector.word (args.bootSector l) 14).toNat := by
    rw [Reader.reserved, Reader.word16, done.boot (by decide), done.boot (by decide)]
    rfl
  rw [field, (args.boot_words l).1, done.exact.reserved]

theorem Done.fats (done : Done args l) : Reader.fats (written args l) = args.numFats.toNat := by
  rw [Reader.fats, done.boot (by decide), (args.boot_bytes l).2]

theorem Done.perFat (done : Done args l) :
    Reader.perFat (written args l) = l.sectorsPerFat.toNat := by
  have field : Reader.perFat (written args l) =
      (Dos.Sector.word (args.bootSector l) 22).toNat := by
    rw [Reader.perFat, Reader.word16, done.boot (by decide), done.boot (by decide)]
    rfl
  have small := done.exact.perFat
  rw [field, (args.boot_words l).2.2, BitVec.toNat_setWidth]
  exact Nat.mod_eq_of_lt (by omega)

theorem Done.rootSectors (done : Done args l) :
    Reader.rootSectors (written args l) = args.rootSectors := by
  have field : Reader.rootEntries (written args l) =
      (Dos.Sector.word (args.bootSector l) 17).toNat := by
    rw [Reader.rootEntries, Reader.word16, done.boot (by decide), done.boot (by decide)]
    rfl
  rw [Reader.rootSectors, field, (args.boot_words l).2.1]
  rfl

theorem Done.rootLba (done : Done args l) : Reader.rootLba (written args l) = l.rootLba.toNat := by
  rw [Reader.rootLba, done.reserved, done.fats, done.perFat, done.exact.rootLba]

theorem Done.dataLba (done : Done args l) : Reader.dataLba (written args l) = l.dataLba.toNat := by
  rw [Reader.dataLba, done.rootLba, done.rootSectors, done.exact.dataLba]

/-! The areas. -/

theorem rootBytes_length (args : Args) (l : Layout) :
    (rootBytes args l).length = l.rootDirSectors.toNat * kSectorSize := by
  rw [rootBytes, List.length_map, List.length_range]

theorem Done.root_end (done : Done args l) :
    l.rootLba.toNat * kSectorSize + (rootBytes args l).length = l.dataLba.toNat * kSectorSize := by
  rw [rootBytes_length, done.exact.dataLba, done.exact.rootDirSectors, Nat.add_mul]

theorem Done.fat_end (done : Done args l) :
    l.fatLba.toNat + args.numFats.toNat * l.sectorsPerFat.toNat = l.rootLba.toNat := by
  rw [done.exact.fatLba, done.exact.rootLba]

theorem Done.payload (done : Done args l) :
    Reader.bytesAt (written args l) 512 args.dosPayload.length = args.dosPayload := by
  have inside := done.inside
  have fat := done.exact.fatLba
  have root : l.fatLba.toNat * kSectorSize ≤ l.rootLba.toNat * kSectorSize :=
    Nat.mul_le_mul_right _ (by
      rw [← done.fat_end]
      exact Nat.le_add_right _ _)
  have data := done.root_end
  have sector : kSectorSize = 512 := rfl
  have stored : ∀ i < args.dosPayload.length,
      written args l (512 + i) = args.dosPayload.getD i 0 := by
    intro i small
    rw [← fat] at inside
    rw [written, done.write_eq, put_low _ (by omega), withFats_miss _ _ _ (.inl (by omega)),
      data_low _ _ (by omega), put, if_pos (by omega), sector, Nat.add_sub_cancel_left]
  rw [bytesAt_stored stored (Nat.le_refl _), Nat.sub_self, List.replicate_zero, List.append_nil]

theorem Done.next (done : Done args l) {copy k : Nat} (below : copy < args.numFats.toNat)
    (inside : k < l.sectorsPerFat.toNat * 256) :
    Reader.next (written args l) copy k = fatEntry (finalAlloc args).fat k := by
  have sector : kSectorSize = 512 := rfl
  have entries : l.sectorsPerFat.toNat * kSectorSize = l.sectorsPerFat.toNat * 256 * 2 := by
    rw [sector, Nat.mul_assoc]
  have ends : (l.fatLba.toNat + copy * l.sectorsPerFat.toNat) * kSectorSize +
      l.sectorsPerFat.toNat * kSectorSize ≤ l.rootLba.toNat * kSectorSize := by
    rw [← done.fat_end, ← Nat.add_mul, Nat.add_assoc, ← Nat.succ_mul]
    exact Nat.mul_le_mul_right _ (Nat.add_le_add_left (Nat.mul_le_mul_right _ below) _)
  have byte (j : Nat) (small : j < l.sectorsPerFat.toNat * kSectorSize) :
      written args l ((l.fatLba.toNat + copy * l.sectorsPerFat.toNat) * kSectorSize + j) =
        (finalAlloc args).fat j := by
    rw [written, done.write_eq, put_low _ (by omega), withFats_hit _ _ _ below small]
  rw [Reader.next, Reader.word16, done.reserved, done.perFat, ← done.exact.fatLba, fatEntry,
    Nat.add_assoc]
  rw [← sector, byte _ (by omega), byte _ (by omega)]

/-- The root directory's sectors: its entries, then zeros. -/
theorem Done.root (done : Done args l) :
    Reader.bytesAt (written args l) (l.rootLba.toNat * 512) (args.rootSectors * 512) =
      (ents args 0).flatten ++
        List.replicate (args.rootSectors * 512 - (ents args 0).flatten.length) 0 := by
  have fewer := done.entries_le done.clusteredShape.root
  have room := done.rootRoom
  have sectors : args.rootSectors = (args.rootEntryCount.toNat * 32 + 511) / 512 := rfl
  have length : (rootBytes args l).length = args.rootSectors * 512 := by
    rw [rootBytes_length, done.exact.rootDirSectors]
    rfl
  apply bytesAt_stored
  · intro i small
    have inRoot : i < (rootBytes args l).length := by
      rw [length]
      exact small
    rw [written, done.write_eq, put, kSectorSize, if_pos (by omega), Nat.add_sub_cancel_left,
      List.getD_eq_getElem _ _ inRoot]
    simp only [rootBytes, List.getElem_map, List.getElem_range]
    rw [put, Nat.zero_add, Nat.sub_zero]
    by_cases within : i < (ents args 0).flatten.length
    · rw [if_pos ⟨Nat.zero_le _, within⟩]
    · rw [if_neg (fun both => within both.2), List.getD_eq_default _ _ (Nat.le_of_not_lt within)]
  · rw [flatten_length 32 ents_length]
    omega

/-! Clusters. -/

/-- Every run of clusters is a chain in each copy of the FAT. -/
theorem Done.clusters (done : Done args l) {copy : Nat} (below : copy < args.numFats.toNat)
    {item : Item} (member : item ∈ owners args) :
    Reader.clusters (written args l) copy (item.run args).1 =
      some (List.range' (item.run args).1 (item.run args).2) := by
  obtain ⟨-, handed⟩ := done.files_stored
  obtain ⟨real, some, top, inFat⟩ := done.run member
  have listed : item.run args ∈ runs args := by
    rw [runs_owners]
    exact List.mem_map_of_mem member
  apply run_chain real some (by omega) (by omega)
  intro k low high
  rw [done.next below (by omega)]
  exact handed.chained _ listed k low high

/-- The clusters of a directory or a file: its bytes, then zeros. -/
theorem Done.item (done : Done args l) {item : Item} (member : item ∈ owners args) :
    (List.range' (item.run args).1 (item.run args).2).flatMap
        (Reader.clusterBytes (written args l)) =
      item.bytes args ++
        List.replicate ((item.run args).2 * args.bytesPerCluster - (item.bytes args).length) 0 := by
  obtain ⟨real, -⟩ := done.run member
  have start : (l.dataLba.toNat + ((item.run args).1 - 2) * args.sectorsPerCluster.toNat) * 512 =
      args.clusterLba l (item.run args).1 * kSectorSize := rfl
  rw [run_bytes _ real, done.dataLba, done.spc, start]
  apply bytesAt_stored
  · intro i small
    have after := clusterLba_ge args l (item.run args).1
    have data := done.root_end
    have root : l.rootLba.toNat * kSectorSize ≤
        args.clusterLba l (item.run args).1 * kSectorSize + i := by omega
    rw [written, done.write_eq, put_high (by omega), withFats_miss _ _ _ (.inr (by
      rw [done.fat_end]
      exact root))]
    exact done.data_stored member small
  · exact done.bytes_le member

theorem Done.contents (done : Done args l) {copy : Nat} (below : copy < args.numFats.toNat)
    {info : FileInfo} (member : info ∈ infos args) :
    Reader.contents (written args l) copy info.start.toNat info.file.data.length =
      some info.file.data := by
  by_cases empty : info.file.data = []
  · rw [empty]
    rfl
  · have owner : Item.file info ∈ owners args := mem_owners_file.mpr ⟨member, empty⟩
    have nonzero : info.file.data.length ≠ 0 := fun zero => empty (List.length_eq_zero_iff.mp zero)
    have clusters := done.clusters below owner
    have bytes := done.item owner
    rw [Reader.contents, if_neg nonzero]
    change Reader.clusters _ copy info.start.toNat = _ at clusters
    rw [clusters, Option.map_some, bytes]
    change some (List.take _ (info.file.data ++ _)) = _
    rw [List.take_left]

theorem Done.directory (done : Done args l) {copy : Nat} (below : copy < args.numFats.toNat)
    {d : Nat} (inside : d < (placement args).1.length)
    (live : ∀ bytes ∈ ents args d, Live bytes) :
    Reader.directory (written args l) copy (clusterOf (clustered args).1 d).toNat =
      some ((ents args d).map Reader.entry) := by
  obtain ⟨-, -, -, root, -⟩ := clustered_spec done.plan done.exact.spc done.few
  have each : ∀ bytes ∈ ents args d, bytes.length = 32 ∧ Live bytes := fun bytes member =>
    ⟨ents_length bytes member, live bytes member⟩
  have whole := flatten_length 32 (@ents_length args d)
  obtain ⟨size, found, room⟩ : ∃ size,
      Reader.directoryBytes (written args l) copy (clusterOf (clustered args).1 d).toNat =
        some ((ents args d).flatten ++ List.replicate (size - (ents args d).flatten.length) 0) ∧
      (ents args d).flatten.length ≤ size := by
    rcases Nat.eq_zero_or_pos d with rfl | positive
    · have fewer := done.entries_le done.clusteredShape.root
      have rootRoom := done.rootRoom
      have sectors : args.rootSectors = (args.rootEntryCount.toNat * 32 + 511) / 512 := rfl
      refine ⟨args.rootSectors * 512, ?_, by omega⟩
      have zero : (clusterOf (clustered args).1 0).toNat = 0 := congrArg BitVec.toNat root
      rw [Reader.directoryBytes, if_pos zero, done.rootLba, done.rootSectors, done.root]
    · have owner : Item.dir d ∈ owners args := mem_owners_dir.mpr ⟨positive, inside⟩
      obtain ⟨real, -⟩ := done.run owner
      have nonzero : (clusterOf (clustered args).1 d).toNat ≠ 0 := Nat.ne_of_gt (by
        change 2 ≤ (clusterOf (clustered args).1 d).toNat at real
        omega)
      have clusters := done.clusters below owner
      change Reader.clusters _ copy (clusterOf (clustered args).1 d).toNat = _ at clusters
      refine ⟨dirRun args d * args.bytesPerCluster, ?_, done.bytes_le owner⟩
      rw [Reader.directoryBytes, if_neg nonzero, clusters, Option.map_some]
      exact congrArg some (done.item owner)
  rw [Reader.directory, found, Option.map_some, read_entries _ _ _ each]
  rw [List.length_append, List.length_replicate]
  omega

end Pugputer.Image

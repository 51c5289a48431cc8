import Pugputer.Image.Chains

namespace Pugputer.Image

/-! The second pass as lists: what is added to the directories, and where the data goes. -/

/-- A file with what the second pass gives it. -/
structure FileInfo where
  index : Nat
  file : Fat16File
  dir : Nat
  leaf : Name
  start : Word

/-- The files as they are given clusters, counted from `i`. -/
def infosFrom (args : Args) (a : Alloc) (i : Nat) :
    List (Fat16File × Nat × List Byte) → List FileInfo
  | [] => []
  | (f, d, leaf) :: rest =>
      ⟨i, f, d, leaf, (a.allocate (args.fileClusters f)).1⟩ ::
        infosFrom args (a.allocate (args.fileClusters f)).2 (i + 1) rest

/-- The FAT once the files have their clusters. -/
def allocAll (args : Args) (a : Alloc) (files : List (Fat16File × Nat × List Byte)) : Alloc :=
  files.foldl (fun a file => (a.allocate (args.fileClusters file.1)).2) a

inductive Item where
  | dir (x : Nat)
  | file (info : FileInfo)

/-- A directory entry and the directory it is added to. -/
def Item.op (dirs : List Dir) : Item → Nat × List Byte
  | .dir x => linkOp dirs x
  | .file info =>
      (info.dir, entry info.leaf 0x20#8 info.start (BitVec.ofNat 32 info.file.data.length))

/-- The entries in the order they are added: a directory just before the first file below it. -/
def itemsFrom (dirs : List Dir) (linked : List Nat) : List FileInfo → List Item
  | [] => []
  | info :: rest =>
      let chain := unlinked dirs linked dirs.length info.dir
      chain.reverse.map Item.dir ++ .file info :: itemsFrom dirs (linked ++ chain) rest

variable {dirs : List Dir} {args : Args}

/-- What the files change of the state. -/
theorem addFiles_spec (shape : Shape dirs) (l : Layout) (s : Filling) (i : Nat)
    (files : List (Fat16File × Nat × List Byte)) (same : Same dirs s.dirs)
    (closed : Closed dirs s.linked) (inside : ∀ file ∈ files, file.2.1 < dirs.length) :
    (args.addFiles l s files).dirs =
        addAll s.dirs ((itemsFrom dirs s.linked (infosFrom args s.alloc i files)).map
          (Item.op dirs)) ∧
      (args.addFiles l s files).alloc = allocAll args s.alloc files := by
  induction files generalizing s i with
  | nil => exact ⟨rfl, rfl⟩
  | cons file files ih =>
      obtain ⟨f, d, leaf⟩ := file
      have dInside : d < dirs.length := inside _ List.mem_cons_self
      obtain ⟨real, -, -, closedAll⟩ := shape.unlinked closed dInside dInside
      have chain : unlinked s.dirs s.linked s.dirs.length d =
          unlinked dirs s.linked dirs.length d := by
        rw [unlinked_same same, same.length]
      have linkedReal : ∀ x ∈ (unlinked dirs s.linked dirs.length d).reverse,
          0 < x ∧ x < dirs.length := by
        intro x member
        obtain ⟨positive, below, -⟩ := real x (List.mem_reverse.mp member)
        exact ⟨positive, Nat.lt_of_le_of_lt below dInside⟩
      have links : (unlinked dirs s.linked dirs.length d).reverse.foldl (link s.dirs) s.dirs =
          addAll s.dirs ((unlinked dirs s.linked dirs.length d).reverse.map (linkOp dirs)) := by
        rw [← shape.link_all linkedReal s.dirs same]
        congr 1
        funext dirs' x
        rw [link, link, parent_same same]
      have added : (args.addFile l s f d leaf).dirs =
          addAll s.dirs ((unlinked dirs s.linked dirs.length d).reverse.map (linkOp dirs) ++
            [(d, entry leaf 0x20#8 (s.alloc.allocate (args.fileClusters f)).1
              (BitVec.ofNat 32 f.data.length))]) := by
        rw [addAll_append, ← links, ← chain]
        rfl
      have linked : (args.addFile l s f d leaf).linked =
          s.linked ++ unlinked dirs s.linked dirs.length d := by
        rw [← chain]
        rfl
      have alloc : (args.addFile l s f d leaf).alloc = (s.alloc.allocate (args.fileClusters f)).2 :=
        rfl
      have rest := ih (args.addFile l s f d leaf) (i + 1)
        (by rw [added]; exact same.trans (addAll_same ..)) (by rw [linked]; exact closedAll)
        fun file member => inside file (List.mem_cons_of_mem _ member)
      rw [added, linked, alloc] at rest
      refine ⟨?_, rest.2⟩
      rw [Args.addFiles, rest.1, ← addAll_append, infosFrom, itemsFrom, List.map_append,
        List.map_map, List.map_cons]
      congr 1
      rw [List.append_assoc, List.singleton_append]
      rfl

/-! Where the data goes. -/

theorem getD_chunk (data : List Byte) (skip size i : Nat) (small : i < size) :
    ((data.drop skip).take size).getD i 0 = data.getD (skip + i) 0 := by
  rw [List.getD_eq_getElem?_getD, List.getElem?_take, if_pos small, List.getElem?_drop,
    List.getD_eq_getElem?_getD]

/-- A file's clusters written one by one are its data written at once. -/
theorem chunks (size : Nat) (data : List Byte) (base n : Nat) (buf : Bytes) (i : Nat) :
    (List.range n).foldl (fun image c =>
      put image (base + c * size) ((data.drop (c * size)).take size)) buf i =
        if base ≤ i ∧ i < base + min (n * size) data.length then data.getD (i - base) 0
        else buf i := by
  induction n with
  | zero => rw [Nat.zero_mul, Nat.zero_min, if_neg (by omega)]; rfl
  | succ n ih =>
      rw [List.range_succ, List.foldl_append, List.foldl_cons, List.foldl_nil, put,
        List.length_take, List.length_drop, ih, Nat.succ_mul]
      generalize n * size = skip
      by_cases here : base + skip ≤ i ∧ i < base + skip + min size (data.length - skip)
      · rw [if_pos here, if_pos (by omega), getD_chunk _ _ _ _ (by omega)]
        congr 1
        omega
      · rw [if_neg here]
        by_cases before : base ≤ i ∧ i < base + min skip data.length
        · rw [if_pos before, if_pos (by omega)]
        · rw [if_neg before, if_neg (by omega)]

/-- The data of the files put in their clusters. -/
def storeAll (args : Args) (l : Layout) (image : Bytes) (infos : List FileInfo) : Bytes :=
  infos.foldl (fun image info =>
    put image (args.clusterLba l info.start.toNat * kSectorSize) info.file.data) image

theorem clusterLba_add (l : Layout) {first : Nat} (real : 2 ≤ first) (c : Nat) :
    args.clusterLba l (first + c) * kSectorSize =
      args.clusterLba l first * kSectorSize + c * args.bytesPerCluster := by
  have offset : first + c - 2 = first - 2 + c := by omega
  rw [Args.clusterLba, Args.clusterLba, Args.bytesPerCluster, offset, Nat.add_mul (first - 2),
    ← Nat.add_assoc, Nat.add_mul, Nat.mul_assoc]

theorem put_nil (buf : Bytes) (off : Nat) : put buf off [] = buf := by
  funext i
  exact if_neg fun inside => absurd inside.2 (Nat.not_lt.mpr inside.1)

/-- What the files' clusters are, and that their data is there. -/
theorem files_spec (spc : 0 < args.sectorsPerCluster.toNat) (l : Layout) (s : Filling) (i : Nat)
    (files : List (Fat16File × Nat × List Byte)) {next : Nat} {runs : List (Nat × Nat)}
    (handed : Handed s.alloc next runs)
    (fits : next + total (files.map fun file => args.fileClusters file.1) ≤ 65535) :
    (args.addFiles l s files).image =
        storeAll args l s.image (infosFrom args s.alloc i files) ∧
      Handed (allocAll args s.alloc files)
        (next + total (files.map fun file => args.fileClusters file.1))
        (runs ++ ((infosFrom args s.alloc i files).filter (·.file.data ≠ [])).map fun info =>
          (info.start.toNat, args.fileClusters info.file)) ∧
      ∀ info ∈ infosFrom args s.alloc i files, info.file.data = [] → info.start = 0 := by
  induction files generalizing s i next runs with
  | nil =>
      refine ⟨rfl, ?_, fun info member => absurd member List.not_mem_nil⟩
      rw [infosFrom, List.filter_nil, List.map_nil, List.map_nil, List.append_nil]
      exact handed
  | cons file files ih =>
      obtain ⟨f, d, leaf⟩ := file
      rw [List.map_cons, total] at fits
      dsimp only at fits
      have alloc : (args.addFile l s f d leaf).alloc = (s.alloc.allocate (args.fileClusters f)).2 :=
        rfl
      have image : (args.addFile l s f d leaf).image =
          (List.range (args.fileClusters f)).foldl (fun image c =>
            put image (args.clusterLba l ((s.alloc.allocate (args.fileClusters f)).1.toNat + c) *
              kSectorSize) ((f.data.drop (c * args.bytesPerCluster)).take args.bytesPerCluster))
            s.image := rfl
      rw [List.map_cons, total]
      dsimp only
      by_cases empty : f.data = []
      · have none : args.fileClusters f = 0 := if_pos empty
        rw [none, Nat.zero_add] at fits ⊢
        have unchanged : s.alloc.allocate 0 = (0, s.alloc) := rfl
        rw [none, unchanged] at alloc image
        have rest := ih (args.addFile l s f d leaf) (i + 1) (by rw [alloc]; exact handed) fits
        rw [alloc, image] at rest
        obtain ⟨stored, handedAll, zero⟩ := rest
        have first : infosFrom args s.alloc i ((f, d, leaf) :: files) =
            ⟨i, f, d, leaf, 0⟩ :: infosFrom args s.alloc (i + 1) files := by
          rw [infosFrom, none, unchanged]
        have skipped : ¬decide (f.data ≠ []) = true := by
          rw [decide_eq_true_eq]
          exact not_not_intro empty
        rw [first, Args.addFiles, stored, storeAll, storeAll, List.foldl_cons, empty, put_nil]
        refine ⟨rfl, ?_, ?_⟩
        · have kept := handedAll
          rw [List.filter_cons, if_neg skipped, allocAll, List.foldl_cons, none, unchanged]
          exact kept
        · intro info member
          rcases List.mem_cons.mp member with rfl | later
          · exact fun _ => rfl
          · exact zero info later
      · have clusters : args.fileClusters f = args.clustersFor f.data.length := if_neg empty
        have some : 0 < args.fileClusters f := by
          rw [clusters]
          exact Args.clustersFor_pos spc (List.length_pos_of_ne_nil empty)
        obtain ⟨start, after⟩ := handed.allocate some (by omega)
        have rest := ih (args.addFile l s f d leaf) (i + 1) (by rw [alloc]; exact after)
          (by omega)
        rw [alloc, image] at rest
        obtain ⟨stored, handedAll, zero⟩ := rest
        have whole : min (args.fileClusters f * args.bytesPerCluster) f.data.length =
            f.data.length := by
          rw [clusters]
          exact Nat.min_eq_right (Args.le_clustersFor spc _)
        have put_all : (List.range (args.fileClusters f)).foldl (fun image c =>
            put image (args.clusterLba l ((s.alloc.allocate (args.fileClusters f)).1.toNat + c) *
              kSectorSize) ((f.data.drop (c * args.bytesPerCluster)).take args.bytesPerCluster))
            s.image =
              put s.image (args.clusterLba l (s.alloc.allocate (args.fileClusters f)).1.toNat *
                kSectorSize) f.data := by
          funext b
          rw [start]
          simp only [clusterLba_add l handed.first]
          rw [chunks, whole]
          rfl
        rw [put_all] at stored
        rw [infosFrom, Args.addFiles, stored, storeAll, storeAll, List.foldl_cons]
        refine ⟨rfl, ?_, ?_⟩
        · rw [List.filter_cons, if_pos (decide_eq_true empty), allocAll, List.foldl_cons,
            List.map_cons, start, ← Nat.add_assoc]
          rw [List.append_assoc, List.singleton_append] at handedAll
          exact handedAll
        · intro info member
          rcases List.mem_cons.mp member with rfl | later
          · exact fun none => absurd none empty
          · exact zero info later

theorem infosFrom_files (a : Alloc) (i : Nat) (files : List (Fat16File × Nat × List Byte)) :
    (infosFrom args a i files).map (fun info => (info.file, info.dir, info.leaf)) = files := by
  induction files generalizing a i with
  | nil => rfl
  | cons file files ih =>
      rw [infosFrom, List.map_cons, ih]

theorem infosFrom_index (a : Alloc) (i : Nat) (files : List (Fat16File × Nat × List Byte)) :
    (infosFrom args a i files).map FileInfo.index = List.range' i files.length := by
  induction files generalizing a i with
  | nil => rfl
  | cons file files ih =>
      rw [infosFrom, List.map_cons, ih, List.length_cons, List.range'_succ]

/-! Which entries are added. -/

theorem mem_itemsFrom_file (linked : List Nat) (infos : List FileInfo) (info : FileInfo) :
    Item.file info ∈ itemsFrom dirs linked infos ↔ info ∈ infos := by
  induction infos generalizing linked with
  | nil => exact iff_of_false List.not_mem_nil List.not_mem_nil
  | cons first rest ih =>
      rw [itemsFrom, List.mem_append, List.mem_cons, ih, List.mem_cons, Item.file.injEq]
      refine or_iff_right ?_
      intro member
      obtain ⟨x, -, same⟩ := List.mem_map.mp member
      cases same

/-- The directories linked at the end. -/
structure Linked (dirs : List Dir) (linked : List Nat) (infos : List FileInfo)
    (after : List Nat) : Prop where
  closed : Closed dirs after
  mem : ∀ x, x ∈ after ↔ x ∈ linked ∨ Item.dir x ∈ itemsFrom dirs linked infos
  real : ∀ x, Item.dir x ∈ itemsFrom dirs linked infos → 0 < x ∧ x < dirs.length ∧ x ∉ linked
  above : ∀ info ∈ infos, info.dir = 0 ∨ info.dir ∈ after

theorem Shape.linked (shape : Shape dirs) {linked : List Nat} (closed : Closed dirs linked)
    (infos : List FileInfo) (inside : ∀ info ∈ infos, info.dir < dirs.length)
    (indexes : (infos.map FileInfo.index).Nodup) :
    (∃ after, Linked dirs linked infos after) ∧ (itemsFrom dirs linked infos).Nodup := by
  induction infos generalizing linked with
  | nil =>
      refine ⟨⟨linked, closed, fun x => ?_, fun x member => absurd member List.not_mem_nil,
        fun info member => absurd member List.not_mem_nil⟩, List.nodup_nil⟩
      exact (or_iff_left List.not_mem_nil).symm
  | cons info rest ih =>
      rw [List.map_cons, List.nodup_cons] at indexes
      have dInside := inside info List.mem_cons_self
      obtain ⟨real, nodup, above, closedAll⟩ := shape.unlinked closed dInside dInside
      obtain ⟨⟨after, later⟩, laterNodup⟩ := ih closedAll
        (fun other member => inside other (List.mem_cons_of_mem _ member)) indexes.2
      generalize chainEq : Image.unlinked dirs linked dirs.length info.dir = chain at *
      have memDir (x : Nat) : Item.dir x ∈ itemsFrom dirs linked (info :: rest) ↔
          x ∈ chain ∨ Item.dir x ∈ itemsFrom dirs (linked ++ chain) rest := by
        rw [itemsFrom, chainEq, List.mem_append, List.mem_cons]
        refine or_congr ?_ (or_iff_right fun same => by cases same)
        rw [List.mem_map]
        constructor
        · rintro ⟨y, member, same⟩
          cases same
          exact List.mem_reverse.mp member
        · exact fun member => ⟨x, List.mem_reverse.mpr member, rfl⟩
      refine ⟨⟨after, later.closed, ?_, ?_, ?_⟩, ?_⟩
      · intro x
        rw [later.mem, memDir, List.mem_append, or_assoc]
      · intro x member
        rcases (memDir x).mp member with inChain | inRest
        · obtain ⟨positive, below, fresh⟩ := real x inChain
          exact ⟨positive, Nat.lt_of_le_of_lt below dInside, fresh⟩
        · obtain ⟨positive, below, fresh⟩ := later.real x inRest
          exact ⟨positive, below, fun old => fresh (List.mem_append_left _ old)⟩
      · intro other member
        rcases List.mem_cons.mp member with rfl | inRest
        · exact above.imp_right fun found => (later.mem _).mpr (.inl found)
        · exact later.above other inRest
      · rw [itemsFrom, chainEq, List.nodup_append]
        refine ⟨?_, ?_, ?_⟩
        · refine (List.nodup_reverse.mpr nodup).map ?_
          intro x y same
          cases same
          rfl
        · rw [List.nodup_cons]
          refine ⟨fun again => ?_, laterNodup⟩
          have member := (mem_itemsFrom_file _ _ _).mp again
          exact indexes.1 (List.mem_map_of_mem member)
        · rintro item inChain item' inRest rfl
          obtain ⟨x, member, rfl⟩ := List.mem_map.mp inChain
          rcases List.mem_cons.mp inRest with same | later'
          · cases same
          · exact (later.real x later').2.2
              (List.mem_append_right _ (List.mem_reverse.mp member))

end Pugputer.Image

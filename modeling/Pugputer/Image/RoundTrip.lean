import Pugputer.Image.Paths

namespace Pugputer.Image

/-! Reading an image gives back what it was built from. -/

variable {args : Args} {l : Layout}

/-- The paths of a directory or a file. -/
def Item.Places (args : Args) : Item → List Name → Prop
  | .dir d, path => ∃ q, At (clustered args).1 d q ∧ q.map shortName = path
  | .file info, path => info ∈ infos args ∧ info.file.path = path

/-! One path, one directory or file. -/

section Paths

variable (ready : Ready args l) (nameable : Nameable args.files)
include ready

theorem Ready.known {d : Nat} {q : List Name} (here : At (clustered args).1 d q) :
    q = [] ∨ ∃ f ∈ args.files, ∃ rest, rest ≠ [] ∧ f.upperPath = q ++ rest := by
  obtain ⟨-, subdirs, -⟩ := clustered_spec ready.plan ready.exact.spc ready.few
  rcases ready.plan.known d q (here.congr fun d => (subdirs d).symm) with root | ⟨f, member, rest, onPath⟩
  · exact .inl root
  · refine .inr ⟨f, member, rest ++ [f.leaf.map toUpper], List.concat_ne_nil _ _, ?_⟩
    rw [f.upperPath_eq, ← onPath, List.append_assoc]

theorem Ready.file_at {info : FileInfo} (member : info ∈ infos args) :
    At (clustered args).1 info.dir info.file.dirPath := (ready.info member).2.1

theorem Ready.isDir_iff {path : List Name} :
    IsDir args.files path ↔ ∃ d, (Item.dir d).Places args path := by
  constructor
  · rintro (rfl | ⟨f, member, rest, nonempty, whole⟩)
    · exact ⟨0, [], .root, rfl⟩
    · obtain ⟨info, listed, rfl⟩ := ready.file_info member
      have there := ready.file_at listed
      rw [info.file.path_eq] at whole
      obtain ⟨rest, name, rfl⟩ := List.eq_nil_or_concat rest |>.resolve_left nonempty
      rw [List.concat_eq_append, ← List.append_assoc] at whole
      obtain ⟨dirs, -⟩ := List.append_inj' whole rfl
      obtain ⟨p, q, split, rfl, -⟩ := List.map_eq_append_iff.mp dirs
      rw [split] at there
      obtain ⟨e, above⟩ := there.above
      exact ⟨e, p, above, rfl⟩
  · rintro ⟨d, q, here, rfl⟩
    rcases ready.known here with rfl | ⟨f, member, rest, nonempty, whole⟩
    · exact .inl rfl
    · refine .inr ⟨f, member, rest.map shortName, ?_, ?_⟩
      · intro none
        exact nonempty (List.map_eq_nil_iff.mp none)
      · rw [f.path_upper, whole, List.map_append]

include nameable

theorem Ready.upper {d : Nat} {q : List Name} (here : At (clustered args).1 d q) :
    ∀ name ∈ q, Upper name := by
  rcases ready.known here with rfl | ⟨f, member, rest, -, whole⟩
  · intro name inPath
    cases inPath
  · intro name inPath
    refine nameable.upperPath member name ?_
    rw [whole]
    exact List.mem_append_left _ inPath

theorem Ready.dir_one {d d' : Nat} {q q' : List Name} (here : At (clustered args).1 d q)
    (also : At (clustered args).1 d' q') (same : q.map shortName = q'.map shortName) :
    d = d' ∧ q = q' := by
  obtain rfl := disk_inj (ready.upper nameable here) (ready.upper nameable also) same
  exact ⟨ready.clusteredShape.at_index here also, rfl⟩

theorem Ready.file_one {info info' : FileInfo} (member : info ∈ infos args)
    (member' : info' ∈ infos args) (same : info.file.path = info'.file.path) : info = info' := by
  have distinct := nameable.distinct
  rw [← ready.infos_files, List.pairwise_map] at distinct
  rw [info.file.path_upper, info'.file.path_upper] at same
  have upper := disk_inj (nameable.upperPath (ready.info member).1)
    (nameable.upperPath (ready.info member').1) same
  rcases pairwise_cases distinct member member' with equal | apart | apart
  · exact equal
  · exact absurd upper apart
  · exact absurd upper.symm apart

theorem Ready.dir_file {d : Nat} {q : List Name} {info : FileInfo}
    (here : At (clustered args).1 d q) (member : info ∈ infos args) :
    info.file.path ≠ q.map shortName := by
  intro same
  have listed := (ready.info member).1
  rw [info.file.path_upper] at same
  have equal := disk_inj (nameable.upperPath listed) (ready.upper nameable here) same
  rcases ready.known here with rfl | ⟨f, found, rest, nonempty, whole⟩
  · rw [info.file.upperPath_eq] at equal
    exact List.concat_ne_nil _ _ equal
  · rw [← equal] at whole
    exact nameable.apart _ listed f found rest nonempty whole

theorem Ready.places_one {item item' : Item} {path : List Name} (places : item.Places args path)
    (places' : item'.Places args path) : item = item' := by
  cases item with
  | dir d =>
      obtain ⟨q, here, rfl⟩ := places
      cases item' with
      | dir d' =>
          obtain ⟨q', here', same⟩ := places'
          rw [(ready.dir_one nameable here here' same.symm).1]
      | file info' => exact absurd places'.2 (ready.dir_file nameable here places'.1)
  | file info =>
      obtain ⟨member, rfl⟩ := places
      cases item' with
      | dir d' =>
          obtain ⟨q', here', same⟩ := places'
          exact absurd same.symm (ready.dir_file nameable here' member)
      | file info' => rw [ready.file_one nameable member places'.1 places'.2.symm]

end Paths

theorem Ready.one_path (ready : Ready args l) {item : Item} {path path' : List Name}
    (places : item.Places args path) (places' : item.Places args path') : path = path' := by
  cases item with
  | dir d =>
      obtain ⟨q, here, rfl⟩ := places
      obtain ⟨q', here', rfl⟩ := places'
      rw [ready.clusteredShape.at_path here here']
  | file info => exact places.2.symm.trans places'.2

/-! The entries of a directory. -/

/-- The entry of a directory or a file. -/
def Item.entry (args : Args) : Item → Entry
  | .dir x =>
      ⟨shortName (upName (clustered args).1 x), 0x10#8, (clusterOf (clustered args).1 x).toNat, 0⟩
  | .file info => ⟨shortName info.leaf, 0x20#8, info.start.toNat, info.file.data.length⟩

/-- What is entered in a directory. -/
def added (args : Args) (d : Nat) : List Item :=
  (items args).filter fun item => (item.op (clustered args).1).1 = d

theorem Ready.mem_added_dir (ready : Ready args l) {d x : Nat} :
    Item.dir x ∈ added args d ↔ ∃ n, (n, x) ∈ subs (clustered args).1 d := by
  have shape := ready.clusteredShape
  obtain ⟨-, -, dirs⟩ := ready.items_spec
  rw [added, List.mem_filter, dirs, decide_eq_true_eq]
  constructor
  · rintro ⟨⟨positive, below⟩, rfl⟩
    obtain ⟨e, n, member⟩ := shape.every x positive below
    have up : (Item.op (clustered args).1 (.dir x)).1 = e := shape.parent member
    exact ⟨n, by rw [up]; exact member⟩
  · rintro ⟨n, member⟩
    have bounds := shape.up _ _ _ member
    exact ⟨by omega, shape.parent member⟩

theorem Ready.mem_added_file (ready : Ready args l) {d : Nat} {info : FileInfo} :
    Item.file info ∈ added args d ↔ info ∈ infos args ∧ info.dir = d := by
  obtain ⟨-, files, -⟩ := ready.items_spec
  rw [added, List.mem_filter, files, decide_eq_true_eq]
  rfl

/-- What is entered in a directory has the path its entry says. -/
theorem Ready.added_places (ready : Ready args l) {d : Nat} {q : List Name}
    (here : At (clustered args).1 d q) {item : Item} (member : item ∈ added args d) :
    item.Places args (q.map shortName ++ [(item.entry args).name]) := by
  cases item with
  | dir x =>
      obtain ⟨n, up⟩ := ready.mem_added_dir.mp member
      refine ⟨q ++ [n], .child here up, ?_⟩
      rw [List.map_append, Item.entry, ready.clusteredShape.upName up]
      rfl
  | file info =>
      obtain ⟨listed, rfl⟩ := ready.mem_added_file.mp member
      obtain ⟨-, there, leaf⟩ := ready.info listed
      refine ⟨listed, ?_⟩
      rw [info.file.path_eq, ready.clusteredShape.at_path there here, Item.entry, leaf]

/-- What has a path in a directory is entered there. -/
theorem Ready.places_added (ready : Ready args l) (nameable : Nameable args.files) {d : Nat}
    {q : List Name} (here : At (clustered args).1 d q) {item : Item} {name : Name}
    (places : item.Places args (q.map shortName ++ [name])) :
    item ∈ added args d ∧ (item.entry args).name = name := by
  cases item with
  | dir x =>
      obtain ⟨q', there, same⟩ := places
      cases there with
      | root => exact absurd same.symm (List.concat_ne_nil _ _)
      | @child e n x p above up =>
          rw [List.map_append] at same
          obtain ⟨dirs, last⟩ := List.append_inj' same rfl
          obtain ⟨rfl, rfl⟩ := ready.dir_one nameable above here dirs
          refine ⟨ready.mem_added_dir.mpr ⟨n, up⟩, ?_⟩
          rw [Item.entry, ready.clusteredShape.upName up]
          exact List.singleton_inj.mp last
  | file info =>
      obtain ⟨listed, same⟩ := places
      obtain ⟨-, there, leaf⟩ := ready.info listed
      rw [info.file.path_eq] at same
      obtain ⟨dirs, last⟩ := List.append_inj' same rfl
      obtain ⟨rfl, -⟩ := ready.dir_one nameable there here dirs
      refine ⟨ready.mem_added_file.mpr ⟨listed, rfl⟩, ?_⟩
      rw [Item.entry, leaf]
      exact List.singleton_inj.mp last

/-! The entries as they are read. -/

def Item.name (args : Args) : Item → Name
  | .dir x => upName (clustered args).1 x
  | .file info => info.leaf

theorem Ready.item_named (ready : Ready args l) (nameable : Nameable args.files) {d : Nat}
    {q : List Name} (here : At (clustered args).1 d q) {item : Item} (member : item ∈ added args d) :
    diskName (item.name args) = (item.entry args).name ∧ Live (item.op (clustered args).1).2 := by
  cases item with
  | dir x =>
      obtain ⟨n, up⟩ := ready.mem_added_dir.mp member
      have upper := ready.upper nameable (here.child up) n
        (List.mem_append_right _ (List.mem_singleton.mpr rfl))
      obtain ⟨c, rest, name, char, kept⟩ := upper.head
      rw [← ready.clusteredShape.upName up] at name
      obtain ⟨disk, alive⟩ := entry_live char kept ⟨rest, .inr name⟩
      exact ⟨disk, alive ..⟩
  | file info =>
      obtain ⟨listed, -⟩ := ready.mem_added_file.mp member
      obtain ⟨inFiles, -, leaf⟩ := ready.info listed
      have valid := nameable.valid _ inFiles _ (List.getLast_mem info.file.parts_ne_nil)
      obtain ⟨c, rest, name, char, kept⟩ := valid.head
      obtain ⟨disk, alive⟩ := entry_live char kept ⟨rest, .inl (leaf.trans name)⟩
      exact ⟨disk, alive ..⟩

theorem dots_live (dirs : List Dir) (d : Nat) : ∀ op ∈ dotOps dirs d, Live op.2 := by
  have dotLive : dot ≠ 0 ∧ dot ≠ 0xE5#8 := by decide
  intro op member
  rcases List.mem_cons.mp member with rfl | second
  · rw [entry_bytes]
    exact dotLive
  · rw [List.mem_singleton.mp second, entry_bytes]
    exact dotLive

theorem Ready.live (ready : Ready args l) (nameable : Nameable args.files) {d : Nat} {q : List Name}
    (here : At (clustered args).1 d q) : ∀ bytes ∈ ents args d, Live bytes := by
  intro bytes member
  rw [ents, List.mem_append] at member
  rcases member with dots | rest
  · by_cases root : d = 0
    · rw [if_pos root] at dots
      cases dots
    · rw [if_neg root] at dots
      obtain ⟨op, inDots, rfl⟩ := List.mem_map.mp dots
      exact dots_live _ _ op inDots
  · obtain ⟨item, inItems, rfl⟩ := List.mem_map.mp rest
    exact (ready.item_named nameable here inItems).2

theorem Done.length_lt (done : Done args l) (small : args.sectorsPerCluster.toNat ≤ 128)
    {info : FileInfo} (member : info ∈ infos args) : info.file.data.length < 4294967296 := by
  by_cases empty : info.file.data = []
  · rw [empty]
    decide
  · have owner := mem_owners_file.mpr ⟨member, empty⟩
    have room := done.bytes_le owner
    obtain ⟨real, -, top, -⟩ := done.run owner
    have count : ((Item.file info).run args).2 ≤ 65524 := by omega
    have bytes : args.bytesPerCluster ≤ 65536 := Nat.mul_le_mul_right 512 small
    have most := Nat.mul_le_mul count bytes
    change info.file.data.length ≤ _ at room
    omega

theorem Done.read_item (done : Done args l) (nameable : Nameable args.files)
    (small : args.sectorsPerCluster.toNat ≤ 128) {d : Nat} {q : List Name}
    (here : At (clustered args).1 d q) {item : Item} (member : item ∈ added args d) :
    Reader.entry (item.op (clustered args).1).2 = item.entry args := by
  have named := (done.item_named nameable here member).1
  cases item with
  | dir x =>
      rw [Item.op, linkOp, read_entry]
      rw [Item.name] at named
      rw [named]
      rfl
  | file info =>
      obtain ⟨listed, -⟩ := done.mem_added_file.mp member
      have length := done.length_lt small listed
      rw [Item.op, read_entry, BitVec.toNat_ofNat, Nat.mod_eq_of_lt length]
      rw [Item.name] at named
      rw [named]
      rfl

/-! The reader's view: a first cluster and a chain for every path. -/

/-- The first cluster of the directory at a path. -/
noncomputable def dirCluster (args : Args) (path : List Name) : Nat :=
  Classical.epsilon fun k =>
    ∃ d, (Item.dir d).Places args path ∧ k = (clusterOf (clustered args).1 d).toNat

/-- The first cluster of the file at a path. -/
noncomputable def fileCluster (args : Args) (path : List Name) : Nat :=
  Classical.epsilon fun k => ∃ info, (Item.file info).Places args path ∧ k = info.start.toNat

/-- The clusters of the directory or the file at a path. -/
noncomputable def chainOf (args : Args) (path : List Name) : List Nat :=
  Classical.epsilon fun ks =>
    ∃ item : Item, item.Places args path ∧ ks = List.range' (item.run args).1 (item.run args).2

theorem Ready.dirCluster_eq (ready : Ready args l) (nameable : Nameable args.files) {d : Nat}
    {path : List Name} (places : (Item.dir d).Places args path) :
    dirCluster args path = (clusterOf (clustered args).1 d).toNat := by
  obtain ⟨d', places', found⟩ := Classical.epsilon_spec (p := fun k =>
    ∃ d, (Item.dir d).Places args path ∧ k = (clusterOf (clustered args).1 d).toNat)
    ⟨_, d, places, rfl⟩
  cases ready.places_one nameable places places'
  exact found

theorem Ready.fileCluster_eq (ready : Ready args l) (nameable : Nameable args.files)
    {info : FileInfo} {path : List Name} (places : (Item.file info).Places args path) :
    fileCluster args path = info.start.toNat := by
  obtain ⟨info', places', found⟩ := Classical.epsilon_spec (p := fun k =>
    ∃ info, (Item.file info).Places args path ∧ k = info.start.toNat) ⟨_, info, places, rfl⟩
  cases ready.places_one nameable places places'
  exact found

theorem Ready.chainOf_eq (ready : Ready args l) (nameable : Nameable args.files) {item : Item}
    {path : List Name} (places : item.Places args path) :
    chainOf args path = List.range' (item.run args).1 (item.run args).2 := by
  obtain ⟨item', places', found⟩ := Classical.epsilon_spec (p := fun ks =>
    ∃ item : Item, item.Places args path ∧ ks = List.range' (item.run args).1 (item.run args).2)
    ⟨_, item, places, rfl⟩
  cases ready.places_one nameable places places'
  exact found

/-- What has clusters, by its path. -/
theorem Ready.owner_iff (ready : Ready args l) {path : List Name} :
    Owner args.files path ↔ ∃ item ∈ owners args, item.Places args path := by
  obtain ⟨length, -⟩ := clustered_spec ready.plan ready.exact.spc ready.few
  have shape := ready.clusteredShape
  constructor
  · rintro (⟨notRoot, isDir⟩ | ⟨f, member, rfl, some⟩)
    · obtain ⟨d, q, here, rfl⟩ := ready.isDir_iff.mp isDir
      refine ⟨.dir d, mem_owners_dir.mpr ⟨?_, ?_⟩, q, here, rfl⟩
      · rcases Nat.eq_zero_or_pos d with rfl | positive
        · rw [shape.at_path here .root] at notRoot
          exact absurd rfl notRoot
        · exact positive
      · rw [← length]
        exact shape.at_length here
    · obtain ⟨info, listed, rfl⟩ := ready.file_info member
      exact ⟨.file info, mem_owners_file.mpr ⟨listed, some⟩, listed, rfl⟩
  · rintro ⟨item, member, places⟩
    cases item with
    | dir d =>
        obtain ⟨positive, -⟩ := mem_owners_dir.mp member
        refine .inl ⟨?_, ready.isDir_iff.mpr ⟨d, places⟩⟩
        rintro rfl
        obtain ⟨q, here, none⟩ := places
        rw [List.map_eq_nil_iff.mp none] at here
        exact absurd (shape.at_index here .root) (Nat.ne_of_gt positive)
    | file info =>
        obtain ⟨listed, some⟩ := mem_owners_file.mp member
        exact .inr ⟨info.file, (ready.info listed).1, places.2, some⟩

/-- "." and ".." say where the directory and the one above it are. -/
theorem Ready.read_dots (ready : Ready args l) (nameable : Nameable args.files) {d : Nat}
    {q : List Name} (here : At (clustered args).1 d q) (notRoot : d ≠ 0) :
    ((dotOps (clustered args).1 d).map Prod.snd).map Reader.entry =
      dotEntries (dirCluster args) (q.map shortName) := by
  have own := ready.dirCluster_eq nameable (d := d) ⟨q, here, rfl⟩
  cases here with
  | root => exact absurd rfl notRoot
  | @child e n d p above up =>
      have named : (p ++ [n]).map shortName = p.map shortName ++ [shortName n] := by
        rw [List.map_append, List.map_singleton]
      have upper := ready.dirCluster_eq nameable (d := e) ⟨p, above, rfl⟩
      have parent := ready.clusteredShape.parent up
      rw [dotEntries, own, named, if_neg (List.concat_ne_nil _ _), List.dropLast_concat, upper,
        dotOps, parent]
      simp only [List.map_cons, List.map_nil, read_entry]
      rfl

theorem Done.read_directory (done : Done args l) (nameable : Nameable args.files)
    (small : args.sectorsPerCluster.toNat ≤ 128) {copy : Nat} (below : copy < args.numFats.toNat)
    {d : Nat} {q : List Name} (here : At (clustered args).1 d q) :
    Reader.directory (written args l) copy (dirCluster args (q.map shortName)) =
      some (dotEntries (dirCluster args) (q.map shortName) ++
        (added args d).map (Item.entry args)) := by
  obtain ⟨length, -⟩ := clustered_spec done.plan done.exact.spc done.few
  have inside := done.clusteredShape.at_length here
  rw [done.dirCluster_eq nameable ⟨q, here, rfl⟩,
    done.directory below (by rw [← length]; exact inside) (done.live nameable here), ents,
    List.map_append]
  congr 2
  · by_cases root : d = 0
    · subst root
      rw [done.clusteredShape.at_path here .root]
      rfl
    · rw [if_neg root]
      exact done.read_dots nameable here root
  · rw [List.map_map]
    exact List.map_congr_left fun item member => done.read_item nameable small here member

/-- The entries of a directory are those of the files and directories just below it. -/
theorem Ready.added_iff (ready : Ready args l) (nameable : Nameable args.files) {d : Nat}
    {q : List Name} (here : At (clustered args).1 d q) (e : Entry) :
    e ∈ (added args d).map (Item.entry args) ↔
      (∃ f ∈ args.files, f.path = q.map shortName ++ [e.name] ∧
        e = ⟨e.name, 0x20#8, fileCluster args f.path, f.data.length⟩) ∨
      (IsDir args.files (q.map shortName ++ [e.name]) ∧
        e = ⟨e.name, 0x10#8, dirCluster args (q.map shortName ++ [e.name]), 0⟩) := by
  constructor
  · intro member
    obtain ⟨item, listed, rfl⟩ := List.mem_map.mp member
    have places := ready.added_places here listed
    cases item with
    | dir x =>
        refine .inr ⟨ready.isDir_iff.mpr ⟨x, places⟩, ?_⟩
        rw [ready.dirCluster_eq nameable places]
        rfl
    | file info =>
        refine .inl ⟨info.file, (ready.info places.1).1, places.2, ?_⟩
        rw [ready.fileCluster_eq nameable ⟨places.1, rfl⟩]
        rfl
  · rintro (⟨f, member, path, whole⟩ | ⟨isDir, whole⟩)
    · obtain ⟨info, listed, rfl⟩ := ready.file_info member
      have places : (Item.file info).Places args (q.map shortName ++ [e.name]) := ⟨listed, path⟩
      obtain ⟨entered, name⟩ := ready.places_added nameable here places
      refine List.mem_map.mpr ⟨_, entered, ?_⟩
      rw [whole, ready.fileCluster_eq nameable ⟨listed, rfl⟩, ← name]
      rfl
    · obtain ⟨x, places⟩ := ready.isDir_iff.mp isDir
      obtain ⟨entered, name⟩ := ready.places_added nameable here places
      refine List.mem_map.mpr ⟨_, entered, ?_⟩
      rw [whole, ready.dirCluster_eq nameable places, ← name]
      rfl

theorem Done.roundTrip (done : Done args l) (nameable : Nameable args.files)
    (small : args.sectorsPerCluster.toNat ≤ 128) {copy : Nat} (below : copy < args.numFats.toNat) :
    RoundTrip args (written args l) copy (dirCluster args) (fileCluster args) (chainOf args) := by
  obtain ⟨-, -, -, root, -⟩ := clustered_spec done.plan done.exact.spc done.few
  have shape := done.clusteredShape
  constructor
  · rw [done.reserved]
    exact done.inside
  · exact done.payload
  · have top : (Item.dir 0).Places args [] := ⟨[], .root, rfl⟩
    rw [done.dirCluster_eq nameable top, root]
    rfl
  · intro path isDir
    obtain ⟨d, q, here, rfl⟩ := done.isDir_iff.mp isDir
    refine ⟨_, done.read_directory nameable small below here, ?_, done.added_iff nameable here⟩
    obtain ⟨nodup, -⟩ := done.items_spec
    rw [List.map_map]
    refine (nodup.filter _).map_on ?_
    intro item member item' member' same
    rw [Function.comp_apply, Function.comp_apply] at same
    have places := done.added_places here member
    rw [same] at places
    exact done.places_one nameable places (done.added_places here member')
  · intro f member
    obtain ⟨info, listed, rfl⟩ := done.file_info member
    rw [done.fileCluster_eq nameable ⟨listed, rfl⟩]
    exact done.contents below listed
  · intro path notRoot isDir
    obtain ⟨item, owner, places⟩ := done.owner_iff.mp (.inl ⟨notRoot, isDir⟩)
    obtain ⟨d, dir⟩ := done.isDir_iff.mp isDir
    cases done.places_one nameable places dir
    rw [done.chainOf_eq nameable places, done.dirCluster_eq nameable dir]
    exact done.clusters below owner
  · intro f member some
    obtain ⟨info, listed, rfl⟩ := done.file_info member
    have places : (Item.file info).Places args info.file.path := ⟨listed, rfl⟩
    rw [done.chainOf_eq nameable places, done.fileCluster_eq nameable places]
    exact done.clusters below (mem_owners_file.mpr ⟨listed, some⟩)
  · intro path path' owner owner' differ k inChain inChain'
    obtain ⟨item, member, places⟩ := done.owner_iff.mp owner
    obtain ⟨item', member', places'⟩ := done.owner_iff.mp owner'
    rw [done.chainOf_eq nameable places, List.mem_range'_1] at inChain
    rw [done.chainOf_eq nameable places', List.mem_range'_1] at inChain'
    have same := done.one member member' (by omega) (by omega)
    rw [same] at places
    exact differ (done.one_path places places')
  · intro k real inFat used
    obtain ⟨-, handed⟩ := done.files_stored
    rw [done.perFat] at inFat
    rw [done.next below (by omega)] at used
    obtain ⟨run, listed, within⟩ := handed.covered k real used
    rw [runs_owners] at listed
    obtain ⟨item, member, rfl⟩ := List.mem_map.mp listed
    obtain ⟨path, places⟩ : ∃ path, item.Places args path := by
      cases item with
      | dir d =>
          obtain ⟨length, -⟩ := clustered_spec done.plan done.exact.spc done.few
          obtain ⟨-, inside⟩ := mem_owners_dir.mp member
          obtain ⟨q, here⟩ := shape.at_every d (by rw [length]; exact inside)
          exact ⟨_, q, here, rfl⟩
      | file info => exact ⟨_, (mem_owners_file.mp member).1, rfl⟩
    refine ⟨path, done.owner_iff.mpr ⟨item, member, places⟩, ?_⟩
    rw [done.chainOf_eq nameable places, List.mem_range'_1]
    exact within

/-! The reserved sectors are counted in 16 bits. -/

theorem reserved_room {image : Bytes} {n : Nat} (room : 512 + n ≤ Reader.reserved image * 512) :
    n ≤ 65534 * 512 := by
  have bound : Reader.reserved image < 65536 := BitVec.isLt _
  omega

/-- An image that was built, its payload within the count. -/
theorem built_done {image : Bytes} (nameable : Nameable args.files)
    (built : buildFat16Image args = some (.ok image)) (small : args.dosPayload.length ≤ 65534 * 512) :
    ∃ l, Done args l ∧ image = written args l := by
  obtain ⟨l, -, exact, rootRoom, fit, fatRoom, whole⟩ := built_spec built
  have plan : Planned args := planned fun f member name inParts none => by
    obtain ⟨c, rest, full, -⟩ := (nameable.valid f member name inParts).head
    rw [none] at full
    cases full
  have few := exact.few
  refine ⟨l, { exact, plan, rootRoom, fatRoom, few := by omega, inside := ?_ }, whole⟩
  have sectors : args.reserved = (1 + (args.dosPayload.length + 511) / 512) % 65536 := rfl
  have sector : kSectorSize = 512 := rfl
  rw [sectors, Nat.mod_eq_of_lt (by omega), sector]
  omega

theorem spc_power (spc : Byte) (power : ∃ k, spc.toNat = 2 ^ k) : spc.toNat ≤ 128 := by
  obtain ⟨k, whole⟩ := power
  have bound := spc.isLt
  rw [whole] at bound ⊢
  have few : k < 8 := (Nat.pow_lt_pow_iff_right (by decide)).mp bound
  exact Nat.pow_le_pow_right (by decide) (Nat.le_of_lt_succ few) |>.trans (by decide)

/-- Reading an image gives its payload, files and directories back, through either copy of the
FAT, just when the payload's sectors and the boot sector are at most 65535. -/
theorem round_trip {image : Bytes} (power : ∃ k, args.sectorsPerCluster.toNat = 2 ^ k)
    (nameable : Nameable args.files) (built : buildFat16Image args = some (.ok image)) :
    (512 + args.dosPayload.length ≤ Reader.reserved image * 512 ∧
      Reader.bytesAt image 512 args.dosPayload.length = args.dosPayload ∧
      ∃ dirCluster fileCluster chainOf, ∀ copy < args.numFats.toNat,
        RoundTrip args image copy dirCluster fileCluster chainOf) ↔
      args.dosPayload.length ≤ 65534 * 512 := by
  constructor
  · rintro ⟨room, -⟩
    exact reserved_room room
  · intro small
    obtain ⟨l, done, rfl⟩ := built_done nameable built small
    refine ⟨?_, done.payload, dirCluster args, fileCluster args, chainOf args,
      fun copy below => done.roundTrip nameable (spc_power _ power) below⟩
    rw [done.reserved]
    exact done.inside

/-! A volume with a subdirectory and an empty file. -/

def sampleArgs : Args :=
  { dosPayload := [0x7E#8, 0x12#8]
    files := [⟨text "CMD/DIR.COM", [1, 2, 3]⟩, ⟨text "readme", []⟩]
    totalSectors := 8192#32, sectorsPerCluster := 1#8, rootEntryCount := 512#16, numFats := 2#8 }

theorem sample_built : ∃ image, buildFat16Image sampleArgs = some (.ok image) := by
  have accepted : (buildFat16Image sampleArgs).any Except.isOk = true := by decide
  obtain ⟨result, built, fine⟩ := (Option.any_eq_true _ _).mp accepted
  cases result with
  | ok image => exact ⟨image, built⟩
  | error e => cases fine

theorem sample_nameable : Nameable sampleArgs.files := by
  have cmd : ValidName (text "CMD") := ⟨text "CMD", [], by decide⟩
  have dir : ValidName (text "DIR.COM") := ⟨text "DIR", text "COM", by decide⟩
  have readme : ValidName (text "readme") := ⟨text "readme", [], by decide⟩
  have inCmd : (⟨text "CMD/DIR.COM", [1, 2, 3]⟩ : Fat16File).parts =
      [text "CMD", text "DIR.COM"] := by decide
  have inRoot : (⟨text "readme", []⟩ : Fat16File).parts = [text "readme"] := by decide
  constructor
  · intro f member name inParts
    rcases List.mem_cons.mp member with rfl | second
    · rw [inCmd] at inParts
      rcases List.mem_cons.mp inParts with rfl | leaf
      · exact cmd
      · rw [List.mem_singleton.mp leaf]
        exact dir
    · rw [List.mem_singleton.mp second, inRoot] at inParts
      rw [List.mem_singleton.mp inParts]
      exact readme
  · refine List.pairwise_pair.mpr ?_
    rw [Fat16File.upperPath, Fat16File.upperPath, inCmd, inRoot]
    decide
  · intro f member g member' rest nonempty same
    have lengths := congrArg List.length same
    have heads := congrArg List.head? same
    have more := List.length_pos_of_ne_nil nonempty
    rw [List.length_append] at lengths
    rcases List.mem_cons.mp member with rfl | second
    · rcases List.mem_cons.mp member' with rfl | second'
      · omega
      · rw [List.mem_singleton.mp second', Fat16File.upperPath, Fat16File.upperPath, inCmd,
          inRoot, List.length_map, List.length_map, List.length_cons, List.length_cons,
          List.length_cons, List.length_nil] at lengths
        omega
    · rw [List.mem_singleton.mp second] at lengths heads
      rcases List.mem_cons.mp member' with rfl | second'
      · rw [Fat16File.upperPath, Fat16File.upperPath, inCmd, inRoot] at heads
        have differ : (text "CMD").map toUpper ≠ (text "readme").map toUpper := by decide
        exact absurd (Option.some.inj heads) differ
      · rw [List.mem_singleton.mp second'] at lengths
        omega

theorem round_trip_sample : ∃ image, buildFat16Image sampleArgs = some (.ok image) ∧
    ((512 + sampleArgs.dosPayload.length ≤ Reader.reserved image * 512 ∧
      Reader.bytesAt image 512 sampleArgs.dosPayload.length = sampleArgs.dosPayload ∧
      ∃ dirCluster fileCluster chainOf, ∀ copy < sampleArgs.numFats.toNat,
        RoundTrip sampleArgs image copy dirCluster fileCluster chainOf) ↔
      sampleArgs.dosPayload.length ≤ 65534 * 512) := by
  obtain ⟨image, built⟩ := sample_built
  exact ⟨image, built, round_trip ⟨0, rfl⟩ sample_nameable built⟩

/-! A payload of 65535 sectors: with the boot sector, the count of reserved sectors is 0. -/

def wrappedArgs (payload : List Byte) : Args :=
  { dosPayload := payload, files := [], totalSectors := 66000#32, sectorsPerCluster := 2#8,
    rootEntryCount := 512#16, numFats := 2#8 }

theorem wrapped_built {payload : List Byte} (size : payload.length = 33553920) :
    ∃ image, buildFat16Image (wrappedArgs payload) = some (.ok image) := by
  have layout : (wrappedArgs payload).layout = some {
      reservedSectors := 0, rootDirSectors := 32#32, sectorsPerFat := 129#32, fatLba := 0
      rootLba := 258#32, dataLba := 290#32, totalClusters := 32855#32 } := by
    simp only [Args.layout, wrappedArgs, size]
    rfl
  rw [buildFat16Image, layout]
  simp only [bind, Option.bind]
  rw [if_neg (by decide), if_neg (by
    change ¬66000 * 512 < 512 + payload.length
    rw [size]
    decide), if_neg (Nat.not_lt.mpr (Nat.le_of_ble_eq_true rfl)),
    if_neg (Nat.not_lt.mpr (Nat.le_of_ble_eq_true rfl)),
    if_neg (Nat.not_lt.mpr (Nat.le_of_ble_eq_true rfl))]
  exact ⟨_, rfl⟩

/-- The payload is then not within the reserved sectors. -/
theorem wrapped_lost : ∃ image,
    buildFat16Image (wrappedArgs (List.replicate 33553920 0)) = some (.ok image) ∧
    (∃ k, (wrappedArgs (List.replicate 33553920 0)).sectorsPerCluster.toNat = 2 ^ k) ∧
    Nameable (wrappedArgs (List.replicate 33553920 0)).files ∧
    ¬512 + (wrappedArgs (List.replicate 33553920 0)).dosPayload.length ≤
      Reader.reserved image * 512 := by
  obtain ⟨image, built⟩ := @wrapped_built (List.replicate 33553920 0)
    List.length_replicate
  refine ⟨image, built, ⟨1, rfl⟩, ⟨?_, List.Pairwise.nil, ?_⟩, fun room => ?_⟩
  · intro f member
    cases member
  · intro f member
    cases member
  · have small := reserved_room room
    rw [wrappedArgs, List.length_replicate] at small
    exact absurd small (by decide)

end Pugputer.Image

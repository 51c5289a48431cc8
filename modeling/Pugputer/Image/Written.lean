import Mathlib.Data.List.Perm.Subperm
import Pugputer.Image.Decode
import Pugputer.Image.Parse

namespace Pugputer.Image

/-! What the builder has written, directory by directory and file by file. -/

variable {args : Args} {l : Layout}

theorem Shape.congr {dirs dirs' : List Dir} (shape : Shape dirs) (length : dirs'.length = dirs.length)
    (subdirs : ∀ d, subs dirs' d = subs dirs d) : Shape dirs' := by
  constructor
  · rw [length]
    exact shape.root
  · intro d n k member
    rw [subdirs] at member
    rw [length]
    exact shape.up d n k member
  · intro d d' n n' k member member'
    rw [subdirs] at member member'
    exact shape.one d d' n n' k member member'
  · intro d
    rw [subdirs]
    exact shape.names d
  · intro k positive below
    rw [length] at below
    obtain ⟨d, n, member⟩ := shape.every k positive below
    exact ⟨d, n, by rw [subdirs]; exact member⟩

theorem At.congr {dirs dirs' : List Dir} (subdirs : ∀ d, subs dirs' d = subs dirs d) {d : Nat}
    {path : List Name} (here : At dirs d path) : At dirs' d path := by
  induction here with
  | root => exact .root
  | @child e n k path above member ih => exact .child ih (by rw [subdirs]; exact member)

/-- What there is after the first pass. -/
structure Planned (args : Args) : Prop where
  shape : Shape (placement args).1
  length : (placement args).2.length = args.files.length
  inside : ∀ f p, (f, p) ∈ args.files.zip (placement args).2 →
    At (placement args).1 p.1 f.dirPath ∧ p.2 = f.leaf
  known : ∀ d path, At (placement args).1 d path → path = [] ∨ ∃ f ∈ args.files, path <+: f.dirPath
  plain : ∀ d, entriesOf (placement args).1 d = []

theorem planned (full : ∀ f ∈ args.files, ∀ name ∈ f.parts, name ≠ []) : Planned args := by
  have placed := rootShape.placeAll args.files full
  have zipped := List.forall₂_iff_zip.mp placed.inside
  exact {
    shape := placed.shape
    length := zipped.1.symm
    inside := fun f p member => zipped.2 member
    known := fun d path here => (placed.new d path here).imp_left root_only
    plain := by
      intro d
      rw [entriesOf]
      by_cases inside : d < (placement args).1.length
      · rw [List.getD_eq_getElem _ _ inside]
        refine placed.plain ?_ _ (List.getElem_mem inside)
        intro dir member
        rw [List.mem_singleton.mp member]
      · rw [List.getD_eq_default _ _ (Nat.le_of_not_lt inside)]
        rfl }

/-- The FAT before anything is handed out. -/
def blankFat : Bytes := setFat16Entry (setFat16Entry (fun _ => 0) 0 0xFFF8#16) 1 0xFFFF#16

/-- The directories once they have their clusters. -/
def clustered (args : Args) : List Dir × Alloc :=
  args.allocateDirs (placement args).2 (placement args).1 0 (placement args).1 { fat := blankFat }

/-- The files once they have theirs. -/
def infos (args : Args) : List FileInfo :=
  infosFrom args (clustered args).2 0 (args.files.zip (placement args).2)

def items (args : Args) : List Item := itemsFrom (clustered args).1 [] (infos args)

def finalAlloc (args : Args) : Alloc :=
  allocAll args (clustered args).2 (args.files.zip (placement args).2)

/-- How many clusters a directory has. -/
def dirRun (args : Args) (d : Nat) : Nat := args.dirClusters (placement args).2 (placement args).1 d

/-- Each run of clusters, those of the directories first. -/
def runs (args : Args) : List (Nat × Nat) :=
  ((List.range' 1 ((placement args).1.length - 1)).map fun d =>
    ((clusterOf (clustered args).1 d).toNat, dirRun args d)) ++
  ((infos args).filter (·.file.data ≠ [])).map fun info =>
    (info.start.toNat, args.fileClusters info.file)

theorem needed_total (args : Args) : args.clustersNeeded (placement args).1 (placement args).2 =
    total ((List.range' 1 ((placement args).1.length - 1)).map (dirRun args)) +
      total (args.files.map fun f => args.clustersFor f.data.length) := by
  rw [Args.clustersNeeded, foldl_total, foldl_total, Nat.zero_add, Nat.zero_add]
  congr 3
  rw [List.range_eq_range', List.drop_range', Nat.zero_add]

theorem total_le {α : Type} (f g : α → Nat) (list : List α) (le : ∀ x ∈ list, f x ≤ g x) :
    total (list.map f) ≤ total (list.map g) := by
  induction list with
  | nil => exact Nat.le_refl _
  | cons x list ih =>
      exact Nat.add_le_add (le x List.mem_cons_self)
        (ih fun y member => le y (List.mem_cons_of_mem _ member))

theorem allocateDirs_root (args : Args) (placed : List (Nat × List Byte)) (counted : List Dir)
    (dir : Dir) (rest : List Dir) (a : Alloc) :
    args.allocateDirs placed counted 0 (dir :: rest) a =
      ({ dir with cluster := 0 } :: (args.allocateDirs placed counted 1 rest a).1,
        (args.allocateDirs placed counted 1 rest a).2) := rfl

/-- What the second pass starts from. -/
theorem clustered_spec (plan : Planned args) (spc : 0 < args.sectorsPerCluster.toNat)
    (few : args.clustersNeeded (placement args).1 (placement args).2 ≤ 65524) :
    (clustered args).1.length = (placement args).1.length ∧
    (∀ d, subs (clustered args).1 d = subs (placement args).1 d) ∧
    (∀ d, entriesOf (clustered args).1 d = []) ∧
    clusterOf (clustered args).1 0 = 0 ∧
    Handed (clustered args).2
      (2 + total ((List.range' 1 ((placement args).1.length - 1)).map (dirRun args)))
      ((List.range' 1 ((placement args).1.length - 1)).map fun d =>
        ((clusterOf (clustered args).1 d).toNat, dirRun args d)) := by
  have plain := plan.plain
  have root := plan.shape.root
  have few' := few
  rw [needed_total] at few'
  have handed : Handed { fat := blankFat } 2 [] := handed_start
  rw [clustered]
  obtain ⟨dir, rest, whole⟩ := List.exists_cons_of_length_pos root
  have count : (placement args).1.length - 1 = rest.length := by
    rw [whole]
    rfl
  rw [count] at few' ⊢
  have below := allocateDirs_spec spc (placement args).2 (placement args).1 1 rest
    (by decide) handed (by
      change 2 + total ((List.range' 1 rest.length).map (dirRun args)) ≤ 65535
      omega)
  have first : args.allocateDirs (placement args).2 (placement args).1 0 (placement args).1
      { fat := blankFat } =
        ({ dir with cluster := 0 } ::
            (args.allocateDirs (placement args).2 (placement args).1 1 rest { fat := blankFat }).1,
          (args.allocateDirs (placement args).2 (placement args).1 1 rest { fat := blankFat }).2) := by
    have split := allocateDirs_root args (placement args).2 (placement args).1 dir rest
      { fat := blankFat }
    rw [← whole] at split
    exact split
  rw [first]
  generalize args.allocateDirs (placement args).2 (placement args).1 1 rest { fat := blankFat } =
    allocated at below ⊢
  obtain ⟨length, subdirs, kept, handedAll⟩ := below
  refine ⟨by rw [whole, List.length_cons, List.length_cons, length], ?_, ?_, rfl, ?_⟩
  · intro d
    rw [whole]
    cases d with
    | zero => rfl
    | succ d => exact subdirs d
  · intro d
    have none := plain d
    rw [whole] at none
    cases d with
    | zero => exact none
    | succ d => exact (kept d).trans none
  · refine (congrArg (Handed _ _) ?_).mp handedAll
    rw [List.nil_append, List.range'_eq_map_range, List.map_map]
    apply List.map_congr_left
    intro i _
    rw [Function.comp_apply, Nat.add_comm 1 i, clusterOf_cons]
    rfl

theorem pairwise_cases {α : Type} {R : α → α → Prop} {list : List α} (pairs : list.Pairwise R)
    {x y : α} (xIn : x ∈ list) (yIn : y ∈ list) : x = y ∨ R x y ∨ R y x := by
  induction pairs with
  | nil => cases xIn
  | @cons z list first rest ih =>
      rcases List.mem_cons.mp xIn with rfl | xLater
      · rcases List.mem_cons.mp yIn with rfl | yLater
        · exact .inl rfl
        · exact .inr (.inl (first y yLater))
      · rcases List.mem_cons.mp yIn with rfl | yLater
        · exact .inr (.inr (first x xLater))
        · exact ih xLater yLater

/-- The state after the second pass. -/
def filled (args : Args) (l : Layout) : Filling :=
  args.addFiles l
    { image := put (args.bootSector l) kSectorSize args.dosPayload
      dirs := addDots (clustered args).1
      alloc := (clustered args).2 }
    (args.files.zip (placement args).2)

/-- The entries of a directory, one by one. -/
def ents (args : Args) (d : Nat) : List (List Byte) :=
  (if d = 0 then [] else (dotOps (clustered args).1 d).map Prod.snd) ++
    ((items args).filter fun item => (item.op (clustered args).1).1 = d).map fun item =>
      (item.op (clustered args).1).2

theorem dots_filter (dirs : List Dir) (first n d : Nat) :
    ((List.range' first n).flatMap (dotOps dirs)).filter (·.1 = d) =
      if first ≤ d ∧ d < first + n then dotOps dirs d else [] := by
  induction n generalizing first with
  | zero => rw [List.range'_zero, List.flatMap_nil, List.filter_nil, if_neg (by omega)]
  | succ n ih =>
      have own : (dotOps dirs first).filter (·.1 = d) =
          if first = d then dotOps dirs first else [] := by
        simp only [dotOps, List.filter_cons, List.filter_nil]
        by_cases here : first = d
        · rw [if_pos (decide_eq_true here), if_pos (decide_eq_true here), if_pos here]
        · have not : ¬decide (first = d) = true := by
            rw [decide_eq_true_eq]
            exact here
          rw [if_neg not, if_neg not, if_neg here]
      rw [List.range'_succ, List.flatMap_cons, List.filter_append, ih, own]
      by_cases here : first = d
      · rw [if_pos here, if_neg (by omega), if_pos (by omega), List.append_nil, here]
      · rw [if_neg here, List.nil_append]
        by_cases later : first + 1 ≤ d ∧ d < first + 1 + n
        · rw [if_pos later, if_pos (by omega)]
        · rw [if_neg later, if_neg (by omega)]

/-- All that is known once an image is built. -/
structure Ready (args : Args) (l : Layout) : Prop where
  exact : l.Exact args
  plan : Planned args
  few : args.clustersNeeded (placement args).1 (placement args).2 ≤ 65524

theorem Ready.clusteredShape (ready : Ready args l) : Shape (clustered args).1 := by
  obtain ⟨length, subdirs, -⟩ := clustered_spec ready.plan ready.exact.spc ready.few
  exact ready.plan.shape.congr length subdirs

theorem infos_zip (args : Args) : (infos args).map (fun info =>
    (info.file, info.dir, info.leaf)) = args.files.zip (placement args).2 := infosFrom_files _ _ _

theorem Ready.info (ready : Ready args l) {info : FileInfo} (member : info ∈ infos args) :
    info.file ∈ args.files ∧ At (clustered args).1 info.dir info.file.dirPath ∧
      info.leaf = info.file.leaf := by
  obtain ⟨-, subdirs, -⟩ := clustered_spec ready.plan ready.exact.spc ready.few
  have zipped : (info.file, info.dir, info.leaf) ∈ args.files.zip (placement args).2 := by
    rw [← infos_zip]
    exact List.mem_map.mpr ⟨info, member, rfl⟩
  obtain ⟨there, leaf⟩ := ready.plan.inside _ _ zipped
  exact ⟨(List.of_mem_zip zipped).1, there.congr subdirs, leaf⟩

theorem Ready.infos_files (ready : Ready args l) :
    (infos args).map FileInfo.file = args.files := by
  have whole := congrArg (List.map Prod.fst) (infos_zip args)
  rw [List.map_map, List.map_fst_zip (Nat.le_of_eq ready.plan.length.symm)] at whole
  exact whole

theorem Ready.file_info (ready : Ready args l) {f : Fat16File} (member : f ∈ args.files) :
    ∃ info ∈ infos args, info.file = f := by
  rw [← ready.infos_files] at member
  exact List.mem_map.mp member

theorem Ready.items_spec (ready : Ready args l) :
    (items args).Nodup ∧ (∀ info, Item.file info ∈ items args ↔ info ∈ infos args) ∧
      ∀ x, Item.dir x ∈ items args ↔ 0 < x ∧ x < (clustered args).1.length := by
  have shape := ready.clusteredShape
  obtain ⟨length, subdirs, -⟩ := clustered_spec ready.plan ready.exact.spc ready.few
  have inside : ∀ info ∈ infos args, info.dir < (clustered args).1.length := fun info member =>
    shape.at_length (ready.info member).2.1
  have indexes : ((infos args).map FileInfo.index).Nodup := by
    rw [infos, infosFrom_index]
    exact List.nodup_range'
  obtain ⟨⟨after, linked⟩, nodup⟩ := shape.linked
    (fun x (member : x ∈ []) => absurd member List.not_mem_nil) (infos args) inside indexes
  refine ⟨nodup, mem_itemsFrom_file _ _, fun x => ⟨fun member => ?_, fun ⟨positive, below⟩ => ?_⟩⟩
  · obtain ⟨positive, below, -⟩ := linked.real x member
    exact ⟨positive, below⟩
  · -- a directory is on the path of some file
    obtain ⟨path, here⟩ := shape.at_every x below
    have known := ready.plan.known x path (here.congr fun d => (subdirs d).symm)
    have inAfter : x ∈ after := by
      rcases known with rfl | ⟨f, member, onPath⟩
      · have zero := shape.at_index here .root
        omega
      · obtain ⟨info, infoIn, rfl⟩ := ready.file_info member
        have found := shape.closed_above linked.closed (ready.info infoIn).2.1
          (linked.above info infoIn) onPath here
        exact found.resolve_left (Nat.ne_of_gt positive)
    exact ((linked.mem x).mp inAfter).resolve_left List.not_mem_nil

theorem Ready.fits (ready : Ready args l) :
    2 + total ((List.range' 1 ((placement args).1.length - 1)).map (dirRun args)) +
        total ((args.files.zip (placement args).2).map fun file => args.fileClusters file.1) ≤
      2 + args.clustersNeeded (placement args).1 (placement args).2 := by
  rw [needed_total]
  have files : (args.files.zip (placement args).2).map (fun file => args.fileClusters file.1) =
      args.files.map args.fileClusters := by
    have firsts := congrArg (List.map args.fileClusters)
      (List.map_fst_zip (Nat.le_of_eq ready.plan.length.symm))
    rw [List.map_map] at firsts
    exact firsts
  have less := total_le args.fileClusters (fun f => args.clustersFor f.data.length) args.files
    fun f _ => by
      rw [Args.fileClusters]
      split
      · exact Nat.zero_le _
      · exact Nat.le_refl _
  rw [files]
  omega

/-- What the second pass stores, and what it hands out. -/
theorem Ready.files_stored (ready : Ready args l) :
    (filled args l).image = storeAll args l
      (put (args.bootSector l) kSectorSize args.dosPayload) (infos args) ∧
    Handed (finalAlloc args)
      (2 + total ((List.range' 1 ((placement args).1.length - 1)).map (dirRun args)) +
        total ((args.files.zip (placement args).2).map fun file => args.fileClusters file.1))
      (runs args) := by
  obtain ⟨-, -, -, -, handed⟩ := clustered_spec ready.plan ready.exact.spc ready.few
  have fits := ready.fits
  have few := ready.few
  have stored := files_spec ready.exact.spc l
    { image := put (args.bootSector l) kSectorSize args.dosPayload
      dirs := addDots (clustered args).1
      alloc := (clustered args).2 } 0 (args.files.zip (placement args).2) handed (by omega)
  exact ⟨stored.1, stored.2.1⟩

theorem Ready.filled_spec (ready : Ready args l) :
    (filled args l).dirs.length = (clustered args).1.length ∧
    (∀ d, clusterOf (filled args l).dirs d = clusterOf (clustered args).1 d) ∧
    (∀ d, d < (clustered args).1.length → entriesOf (filled args l).dirs d = (ents args d).flatten) ∧
    (filled args l).alloc = finalAlloc args := by
  have shape := ready.clusteredShape
  obtain ⟨length, subdirs, empty, -, handed⟩ :=
    clustered_spec ready.plan ready.exact.spc ready.few
  have dotsSame : Same (clustered args).1 (addDots (clustered args).1) := by
    rw [addDots_eq]
    exact addAll_same ..
  have inside : ∀ file ∈ args.files.zip (placement args).2, file.2.1 < (clustered args).1.length := by
    intro file member
    rw [← infos_zip] at member
    obtain ⟨info, infoIn, rfl⟩ := List.mem_map.mp member
    exact shape.at_length (ready.info infoIn).2.1
  obtain ⟨dirs, alloc⟩ := @addFiles_spec _ args shape l
    { image := put (args.bootSector l) kSectorSize args.dosPayload
      dirs := addDots (clustered args).1
      alloc := (clustered args).2 } 0 (args.files.zip (placement args).2) dotsSame
    (fun x member => absurd member List.not_mem_nil) inside
  have same : Same (clustered args).1 (filled args l).dirs := by
    rw [filled, dirs]
    exact dotsSame.trans (addAll_same ..)
  refine ⟨same.length, same.cluster, ?_, alloc⟩
  intro d below
  have dots : entriesOf (addDots (clustered args).1) d =
      ((if d = 0 then [] else (dotOps (clustered args).1 d).map Prod.snd) : List (List Byte)).flatten := by
    rw [addDots_eq, entriesOf_addAll _ _ below, empty, List.nil_append, List.range_eq_range',
      List.drop_range', Nat.zero_add, dots_filter, List.flatMap_def]
    by_cases root : d = 0
    · rw [if_neg (by omega), if_pos root]
      rfl
    · rw [if_pos (by omega), if_neg root]
  rw [filled, dirs, entriesOf_addAll _ _ (by rw [dotsSame.length]; exact below), dots, ents,
    List.flatten_append, List.flatMap_def, List.filter_map, List.map_map]
  rfl

/-! Room for the entries. -/

/-- The directory an entry is in has it counted. -/
theorem Ready.entries_le (ready : Ready args l) {d : Nat} (below : d < (clustered args).1.length) :
    (ents args d).length ≤ entryCount (placement args).1 (placement args).2 d := by
  have shape := ready.clusteredShape
  obtain ⟨length, subdirs, -⟩ := clustered_spec ready.plan ready.exact.spc ready.few
  obtain ⟨nodup, files, dirs⟩ := ready.items_spec
  have counted : ((infos args).filter (·.dir = d)).length =
      (placement args).2.countP (·.1 = d) := by
    have placed : (infos args).map (fun info => (info.dir, info.leaf)) = (placement args).2 := by
      have whole := congrArg (List.map Prod.snd) (infos_zip args)
      rw [List.map_map, List.map_snd_zip (Nat.le_of_eq ready.plan.length)] at whole
      exact whole
    rw [← placed, List.countP_map, ← List.countP_eq_length_filter]
    rfl
  have listed : ((items args).filter fun item => (item.op (clustered args).1).1 = d) ⊆
      (subs (clustered args).1 d).map (fun sd => Item.dir sd.2) ++
        ((infos args).filter (·.dir = d)).map Item.file := by
    intro item member
    obtain ⟨inItems, here⟩ := List.mem_filter.mp member
    have here := of_decide_eq_true here
    cases item with
    | dir x =>
        obtain ⟨positive, inside⟩ := (dirs x).mp inItems
        obtain ⟨e, n, up⟩ := shape.every x positive inside
        have parent := shape.parent up
        obtain rfl : e = d := parent.symm.trans here
        exact List.mem_append_left _ (List.mem_map.mpr ⟨(n, x), up, rfl⟩)
    | file info =>
        refine List.mem_append_right _ (List.mem_map_of_mem (List.mem_filter.mpr ?_))
        exact ⟨(files info).mp inItems, decide_eq_true here⟩
  have fewer := ((nodup.filter _).subperm listed).length_le
  rw [List.length_append, List.length_map, List.length_map, counted, subdirs] at fewer
  have dots : (if d = 0 then [] else (dotOps (clustered args).1 d).map Prod.snd).length =
      if d = 0 then 0 else 2 := by
    split
    · rfl
    · rfl
  rw [ents, List.length_append, List.length_map, dots, entryCount]
  change _ ≤ (subs (placement args).1 d).length + _ + _
  omega

theorem ents_length {args : Args} {d : Nat} : ∀ bytes ∈ ents args d, bytes.length = 32 := by
  intro bytes member
  rw [ents, List.mem_append] at member
  rcases member with dots | added
  · by_cases root : d = 0
    · rw [if_pos root] at dots
      cases dots
    · rw [if_neg root] at dots
      obtain ⟨op, inDots, rfl⟩ := List.mem_map.mp dots
      rcases List.mem_cons.mp inDots with rfl | second
      · exact entry_length ..
      · rw [List.mem_singleton.mp second]
        exact entry_length ..
  · obtain ⟨item, -, rfl⟩ := List.mem_map.mp added
    cases item with
    | dir x => exact entry_length ..
    | file info => exact entry_length ..

theorem flatten_length {list : List (List Byte)} (size : Nat)
    (each : ∀ bytes ∈ list, bytes.length = size) : list.flatten.length = list.length * size := by
  induction list with
  | nil => rw [List.flatten_nil, List.length_nil, List.length_nil, Nat.zero_mul]
  | cons bytes list ih =>
      rw [List.flatten_cons, List.length_append, each bytes List.mem_cons_self,
        ih fun other member => each other (List.mem_cons_of_mem _ member), List.length_cons,
        Nat.succ_mul, Nat.add_comm]

end Pugputer.Image

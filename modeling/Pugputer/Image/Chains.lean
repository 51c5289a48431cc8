import Pugputer.Image.Entries

namespace Pugputer.Image

/-! The clusters the builder hands out. -/

/-- An entry of a FAT. -/
def fatEntry (fat : Bytes) (k : Nat) : Nat := (word (fat (2 * k + 1)) (fat (2 * k))).toNat

theorem fatEntry_set (fat : Bytes) (cluster value : Word) (k : Nat) :
    fatEntry (setFat16Entry fat cluster value) k =
      if k = cluster.toNat then value.toNat else fatEntry fat k := by
  have bytes (i : Nat) : setFat16Entry fat cluster value i =
      if i = cluster.toNat * 2 then loByte value
      else if i = cluster.toNat * 2 + 1 then hiByte value else fat i := by
    rw [setFat16Entry, putLe16, put, le16]
    dsimp only [List.length_cons, List.length_nil]
    by_cases low : i = cluster.toNat * 2
    · rw [if_pos (by omega), if_pos low, low, Nat.sub_self]
      rfl
    · by_cases high : i = cluster.toNat * 2 + 1
      · have second : cluster.toNat * 2 + 1 - cluster.toNat * 2 = 1 := by omega
        rw [if_pos (by omega), if_neg low, if_pos high, high, second]
        rfl
      · rw [if_neg (by omega), if_neg low, if_neg high]
  rw [fatEntry, bytes, bytes]
  by_cases here : k = cluster.toNat
  · rw [if_neg (by omega), if_pos (by omega), if_pos (by omega), if_pos here, word_hiByte_loByte]
  · rw [if_neg (by omega), if_neg (by omega), if_neg (by omega), if_neg (by omega), if_neg here]
    rfl

theorem fatEntry_chainFrom (fat : Bytes) (first : Word) (n k : Nat)
    (fits : first.toNat + n ≤ 65535) :
    fatEntry (chainFrom fat first n) k =
      if first.toNat ≤ k ∧ k < first.toNat + n then
        if k + 1 = first.toNat + n then 0xFFFF else k + 1
      else fatEntry fat k := by
  induction n generalizing fat first with
  | zero => rw [chainFrom, if_neg (by omega)]
  | succ n ih =>
      have next : (first + 1).toNat = first.toNat + 1 := by
        rw [BitVec.toNat_add]
        exact Nat.mod_eq_of_lt (show first.toNat + 1 < 65536 by omega)
      rw [chainFrom, ih _ _ (by rw [next]; omega), next, fatEntry_set]
      by_cases here : k = first.toNat
      · rw [if_neg (by omega), if_pos here]
        by_cases last : n = 0
        · rw [if_pos last, if_pos (by omega), if_pos (by omega)]
          rfl
        · rw [if_neg last, if_pos (by omega), if_neg (by omega), next, here]
      · rw [if_neg here]
        by_cases later : first.toNat + 1 ≤ k ∧ k < first.toNat + 1 + n
        · rw [if_pos later]
          by_cases last : k + 1 = first.toNat + 1 + n
          · rw [if_pos last, if_pos (by omega), if_pos (by omega)]
          · rw [if_neg last, if_pos (by omega), if_neg (by omega)]
        · rw [if_neg later, if_neg (by omega)]

/-- What has been handed out: runs of consecutive clusters one after the other from cluster 2 on,
each chained, and nothing else in the FAT. -/
structure Handed (a : Alloc) (next : Nat) (runs : List (Nat × Nat)) : Prop where
  upTo : a.nextCluster.toNat = next
  first : 2 ≤ next
  order : runs.Pairwise fun r r' => r.1 + r.2 ≤ r'.1
  inside : ∀ r ∈ runs, 2 ≤ r.1 ∧ 0 < r.2 ∧ r.1 + r.2 ≤ next
  chained : ∀ r ∈ runs, ∀ k, r.1 ≤ k → k < r.1 + r.2 →
    fatEntry a.fat k = if k + 1 = r.1 + r.2 then 0xFFFF else k + 1
  covered : ∀ k, 2 ≤ k → fatEntry a.fat k ≠ 0 → ∃ r ∈ runs, r.1 ≤ k ∧ k < r.1 + r.2

theorem Handed.allocate {a : Alloc} {next : Nat} {runs : List (Nat × Nat)}
    (handed : Handed a next runs) {n : Nat} (some : 0 < n) (fits : next + n ≤ 65535) :
    (a.allocate n).1.toNat = next ∧ Handed (a.allocate n).2 (next + n) (runs ++ [(next, n)]) := by
  have first := handed.upTo
  have entries (k : Nat) : fatEntry (chainFrom a.fat a.nextCluster n) k =
      if next ≤ k ∧ k < next + n then if k + 1 = next + n then 0xFFFF else k + 1
      else fatEntry a.fat k := by
    have chained := fatEntry_chainFrom a.fat a.nextCluster n k (by omega)
    rw [first] at chained
    exact chained
  have nonzero : n ≠ 0 := Nat.ne_of_gt some
  rw [Alloc.allocate, if_neg nonzero]
  refine ⟨first, ?_⟩
  constructor
  · dsimp only
    rw [BitVec.toNat_add, BitVec.toNat_ofNat, first]
    omega
  · exact Nat.le_trans handed.first (Nat.le_add_right _ _)
  · rw [List.pairwise_append]
    refine ⟨handed.order, List.pairwise_singleton _ _, ?_⟩
    intro r member r' new
    obtain rfl := List.mem_singleton.mp new
    exact (handed.inside r member).2.2
  · intro r member
    rcases List.mem_append.mp member with old | new
    · obtain ⟨low, positive, high⟩ := handed.inside r old
      exact ⟨low, positive, Nat.le_trans high (Nat.le_add_right _ _)⟩
    · obtain rfl := List.mem_singleton.mp new
      exact ⟨handed.first, some, Nat.le_refl _⟩
  · intro r member k low high
    dsimp only
    rw [entries]
    rcases List.mem_append.mp member with old | new
    · have bounds := handed.inside r old
      rw [if_neg (by omega)]
      exact handed.chained r old k low high
    · obtain rfl := List.mem_singleton.mp new
      rw [if_pos ⟨low, high⟩]
  · intro k low used
    dsimp only at used
    rw [entries] at used
    by_cases new : next ≤ k ∧ k < next + n
    · exact ⟨(next, n), List.mem_append_right _ (List.mem_singleton.mpr rfl), new⟩
    · rw [if_neg new] at used
      obtain ⟨r, member, within⟩ := handed.covered k low used
      exact ⟨r, List.mem_append_left _ member, within⟩

theorem handed_start :
    Handed { fat := setFat16Entry (setFat16Entry (fun _ => 0) 0 0xFFF8#16) 1 0xFFFF#16 } 2 [] := by
  constructor
  · rfl
  · exact Nat.le_refl 2
  · exact List.Pairwise.nil
  · intro r member
    cases member
  · intro r member
    cases member
  · intro k low used
    have zero : fatEntry (fun _ => 0) k = 0 := by
      rw [fatEntry]
      decide
    have one : (1 : Word).toNat = 1 := rfl
    have none : (0 : Word).toNat = 0 := rfl
    dsimp only at used
    rw [fatEntry_set, fatEntry_set, one, none, if_neg (by omega), if_neg (by omega), zero] at used
    exact absurd rfl used

namespace Args

variable (args : Args)

/-- The clusters of a directory. -/
def dirClusters (placed : List (Nat × List Byte)) (counted : List Dir) (d : Nat) : Nat :=
  args.clustersFor (entryCount counted placed d * 32)

/-- The clusters of a file. -/
def fileClusters (f : Fat16File) : Nat := if f.data = [] then 0 else args.clustersFor f.data.length

variable {args}

theorem clustersFor_pos (spc : 0 < args.sectorsPerCluster.toNat) {n : Nat} (some : 0 < n) :
    0 < args.clustersFor n := by
  have bytes : 0 < args.bytesPerCluster := Nat.mul_pos spc (by decide)
  rw [clustersFor]
  exact Nat.div_pos (by omega) bytes

theorem le_clustersFor (spc : 0 < args.sectorsPerCluster.toNat) (n : Nat) :
    n ≤ args.clustersFor n * args.bytesPerCluster := by
  have bytes : 0 < args.bytesPerCluster := Nat.mul_pos spc (by decide)
  have less := Nat.lt_div_mul_add (a := n + args.bytesPerCluster - 1) bytes
  rw [clustersFor]
  omega

end Args

theorem dirEntries_pos (dirs : List Dir) (placed : List (Nat × List Byte)) {d : Nat} (notRoot : d ≠ 0) :
    0 < entryCount dirs placed d := by
  rw [entryCount, if_neg notRoot]
  omega

/-- The sum of a list of cluster counts. -/
def total : List Nat → Nat
  | [] => 0
  | n :: ns => n + total ns

theorem total_append (ns ms : List Nat) : total (ns ++ ms) = total ns + total ms := by
  induction ns with
  | nil => rw [List.nil_append, total, Nat.zero_add]
  | cons n ns ih => rw [List.cons_append, total, total, ih, Nat.add_assoc]

theorem foldl_total (ns : List Nat) (start : Nat) : ns.foldl Nat.add start = start + total ns := by
  induction ns generalizing start with
  | nil => rfl
  | cons n ns ih => rw [List.foldl_cons, ih, total, ← Nat.add_assoc]; rfl

theorem clusterOf_cons (dir : Dir) (dirs : List Dir) (i : Nat) :
    clusterOf (dir :: dirs) (i + 1) = clusterOf dirs i := rfl

/-- The directories below the root, with their clusters. -/
theorem allocateDirs_spec {args : Args} (spc : 0 < args.sectorsPerCluster.toNat)
    (placed : List (Nat × List Byte)) (counted : List Dir) (d : Nat) (dirs : List Dir) {a : Alloc}
    {next : Nat} {runs : List (Nat × Nat)} (below : d ≠ 0) (handed : Handed a next runs)
    (fits : next + total ((List.range' d dirs.length).map (args.dirClusters placed counted)) ≤
      65535) :
    (args.allocateDirs placed counted d dirs a).1.length = dirs.length ∧
    (∀ i, subs (args.allocateDirs placed counted d dirs a).1 i = subs dirs i) ∧
    (∀ i, entriesOf (args.allocateDirs placed counted d dirs a).1 i = entriesOf dirs i) ∧
    Handed (args.allocateDirs placed counted d dirs a).2
      (next + total ((List.range' d dirs.length).map (args.dirClusters placed counted)))
      (runs ++ (List.range dirs.length).map fun i =>
        ((clusterOf (args.allocateDirs placed counted d dirs a).1 i).toNat,
          args.dirClusters placed counted (d + i))) := by
  induction dirs generalizing d a next runs with
  | nil =>
      refine ⟨rfl, fun _ => rfl, fun _ => rfl, ?_⟩
      rw [List.length_nil, List.range_zero, List.map_nil, List.append_nil]
      exact handed
  | cons dir dirs ih =>
      have entries := dirEntries_pos counted placed below
      have some : 0 < args.dirClusters placed counted d :=
        Args.clustersFor_pos spc (Nat.mul_pos entries (by decide))
      rw [List.length_cons, List.range'_succ, List.map_cons, total] at fits
      obtain ⟨first, after⟩ := handed.allocate some (by omega)
      have rest := ih (d + 1) (Nat.succ_ne_zero d) after (by omega)
      rw [List.length_cons, List.range'_succ, List.map_cons, total, List.range_succ_eq_map,
        List.map_cons, List.map_map, Args.allocateDirs, if_neg below]
      change 0 < args.clustersFor (entryCount counted placed d * 32) at some
      change (a.allocate (args.clustersFor (entryCount counted placed d * 32))).1.toNat = next at first
      change _ ∧ _ ∧ _ ∧ Handed _ _ _ at rest
      generalize allocated : a.allocate (args.clustersFor (entryCount counted placed d * 32)) =
        allocation at first
      have same : a.allocate (args.dirClusters placed counted d) = allocation := allocated
      rw [same] at rest
      obtain ⟨cluster, a'⟩ := allocation
      dsimp only at first rest ⊢
      generalize args.allocateDirs placed counted (d + 1) dirs a' = later at rest ⊢
      obtain ⟨dirs', a''⟩ := later
      dsimp only at rest ⊢
      obtain ⟨length, subdirs, kept, handedAll⟩ := rest
      refine ⟨by rw [List.length_cons, length], ?_, ?_, ?_⟩
      · intro i
        cases i with
        | zero => rfl
        | succ i => exact subdirs i
      · intro i
        cases i with
        | zero => rfl
        | succ i => exact kept i
      · rw [Nat.add_assoc, List.append_assoc] at handedAll
        have head : (clusterOf ({ dir with cluster } :: dirs') 0).toNat = next := first
        rw [head]
        refine (congrArg (Handed a'' _) ?_).mp handedAll
        rw [List.singleton_append]
        congr 2
        apply List.map_congr_left
        intro i _
        rw [Function.comp_apply, Nat.succ_eq_add_one, clusterOf_cons, Nat.add_right_comm,
          Nat.add_assoc]

end Pugputer.Image

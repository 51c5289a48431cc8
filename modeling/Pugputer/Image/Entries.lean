import Pugputer.Image.Tree

namespace Pugputer.Image

/-! The entries that the second pass adds to the directories. -/

def entriesOf (dirs : List Dir) (d : Nat) : List Byte := (dirs.getD d default).entries

def clusterOf (dirs : List Dir) (d : Nat) : Word := (dirs.getD d default).cluster

/-- Directories that differ in their entries at most. -/
structure Same (dirs dirs' : List Dir) : Prop where
  length : dirs'.length = dirs.length
  subs : ∀ d, subs dirs' d = subs dirs d
  cluster : ∀ d, clusterOf dirs' d = clusterOf dirs d

theorem Same.refl (dirs : List Dir) : Same dirs dirs := ⟨rfl, fun _ => rfl, fun _ => rfl⟩

theorem Same.trans {a b c : List Dir} (first : Same a b) (second : Same b c) : Same a c :=
  ⟨second.length.trans first.length, fun d => (second.subs d).trans (first.subs d),
    fun d => (second.cluster d).trans (first.cluster d)⟩

/-- Entries, each with the directory it goes to, added one after the other. -/
def addAll (dirs : List Dir) (ops : List (Nat × List Byte)) : List Dir :=
  ops.foldl (fun dirs op => dirs.modify op.1 fun dir => { dir with entries := dir.entries ++ op.2 })
    dirs

theorem addAll_append (dirs : List Dir) (first second : List (Nat × List Byte)) :
    addAll dirs (first ++ second) = addAll (addAll dirs first) second := List.foldl_append

theorem addAll_same (dirs : List Dir) (ops : List (Nat × List Byte)) :
    Same dirs (addAll dirs ops) := by
  induction ops generalizing dirs with
  | nil => exact .refl dirs
  | cons op ops ih =>
      refine Same.trans ⟨List.length_modify .., ?_, ?_⟩ (ih _)
      · intro d
        rw [subs, getD_modify]
        split <;> rfl
      · intro d
        rw [clusterOf, getD_modify]
        split <;> rfl

theorem entriesOf_addAll (dirs : List Dir) (ops : List (Nat × List Byte)) {d : Nat}
    (inside : d < dirs.length) :
    entriesOf (addAll dirs ops) d =
      entriesOf dirs d ++ (ops.filter (·.1 = d)).flatMap Prod.snd := by
  induction ops generalizing dirs with
  | nil => rw [List.filter_nil, List.flatMap_nil, List.append_nil]; rfl
  | cons op ops ih =>
      have still : d < (dirs.modify op.1 fun dir =>
          { dir with entries := dir.entries ++ op.2 }).length := by
        rw [List.length_modify]
        exact inside
      have next := ih _ still
      change entriesOf (addAll (dirs.modify op.1 _) ops) d = _
      rw [next, entriesOf, getD_modify, List.filter_cons]
      by_cases here : d = op.1
      · rw [if_pos ⟨here, here ▸ inside⟩, if_pos (decide_eq_true here.symm), List.flatMap_cons,
          ← List.append_assoc]
        rfl
      · have other : ¬decide (op.1 = d) = true := by
          rw [decide_eq_true_eq]
          exact Ne.symm here
        rw [if_neg (fun both => here both.1), if_neg other]
        rfl

/-! "." and "..". -/

/-- The two entries of a directory for itself and the one above. -/
def dotOps (dirs : List Dir) (d : Nat) : List (Nat × List Byte) :=
  [(d, entry [dot] 0x10#8 (clusterOf dirs d) 0),
    (d, entry [dot, dot] 0x10#8 (clusterOf dirs (parent dirs d)) 0)]

theorem addDots_eq (dirs : List Dir) :
    addDots dirs = addAll dirs (((List.range dirs.length).drop 1).flatMap (dotOps dirs)) := by
  rw [addDots]
  generalize (List.range dirs.length).drop 1 = list
  have run (start : List Dir) : list.foldl (fun dirs' d =>
      addEntry (addEntry dirs' d [dot] 0x10#8 (dirs.getD d default).cluster 0) d [dot, dot] 0x10#8
        (dirs.getD (parent dirs d) default).cluster 0) start =
        addAll start (list.flatMap (dotOps dirs)) := by
    induction list generalizing start with
    | nil => rfl
    | cons d list ih =>
        rw [List.foldl_cons, ih, List.flatMap_cons, addAll_append]
        rfl
  exact run dirs

/-! Parents. -/

theorem parent_same {dirs dirs' : List Dir} (same : Same dirs dirs') (x : Nat) :
    parent dirs' x = parent dirs x := by
  rw [parent, parent, same.length]
  congr 1
  funext found d
  have subdirs : (dirs'.getD d default).subdirs = (dirs.getD d default).subdirs := same.subs d
  rw [subdirs]

theorem unlinked_same {dirs dirs' : List Dir} (same : Same dirs dirs') (linked : List Nat)
    (fuel x : Nat) : unlinked dirs' linked fuel x = unlinked dirs linked fuel x := by
  induction fuel generalizing x with
  | zero => rfl
  | succ fuel ih => rw [unlinked, unlinked, parent_same same, ih]

variable {dirs : List Dir}

theorem Shape.parent (shape : Shape dirs) {d k : Nat} {n : Name} (member : (n, k) ∈ subs dirs d) :
    parent dirs k = d := by
  have inside : d < dirs.length := by
    have bounds := shape.up _ _ _ member
    omega
  have any (e : Nat) : (dirs.getD e default).subdirs.any (·.2 = k) = true ↔ e = d := by
    rw [List.any_eq_true]
    constructor
    · rintro ⟨⟨n', k'⟩, other, same⟩
      obtain rfl := of_decide_eq_true same
      exact (shape.one _ _ _ _ _ other member).1
    · rintro rfl
      exact ⟨(n, k), member, decide_eq_true rfl⟩
  rw [Image.parent]
  have scan (count start : Nat) : (List.range count).foldl
      (fun found e => if (dirs.getD e default).subdirs.any (·.2 = k) then e else found) start =
        if d < count then d else start := by
    induction count with
    | zero => rfl
    | succ count ih =>
        rw [List.range_succ, List.foldl_append, ih, List.foldl_cons, List.foldl_nil]
        by_cases here : count = d
        · rw [if_pos ((any count).mpr here), if_pos (by omega), here]
        · rw [if_neg (fun found => here ((any count).mp found))]
          by_cases before : d < count
          · rw [if_pos before, if_pos (by omega)]
          · rw [if_neg before, if_neg (by omega)]
  rw [scan, if_pos inside]

/-- The name a directory has in the one above. -/
def upName (dirs : List Dir) (x : Nat) : Name :=
  (((subs dirs (parent dirs x)).filter (·.2 = x)).map Prod.fst).headD []

theorem Shape.filter_child (shape : Shape dirs) {d k : Nat} {n : Name}
    (member : (n, k) ∈ subs dirs d) : (subs dirs d).filter (·.2 = k) = [(n, k)] := by
  have names := shape.names d
  have one : ∀ sd ∈ subs dirs d, sd.2 = k → sd = (n, k) := by
    rintro ⟨n', k'⟩ other rfl
    rw [(shape.one _ _ _ _ _ other member).2]
  generalize subs dirs d = list at member names one
  induction list with
  | nil => cases member
  | cons sd rest ih =>
      rw [List.map_cons, List.nodup_cons] at names
      rw [List.filter_cons]
      rcases List.mem_cons.mp member with rfl | later
      · rw [if_pos (decide_eq_true rfl)]
        have none : rest.filter (·.2 = k) = [] := by
          rw [List.filter_eq_nil_iff]
          intro sd inRest same
          have equal := one sd (List.mem_cons_of_mem _ inRest) (of_decide_eq_true same)
          exact names.1 (List.mem_map.mpr ⟨sd, inRest, by rw [equal]⟩)
        rw [none]
      · have other : ¬decide (sd.2 = k) = true := by
          intro same
          have equal := one sd List.mem_cons_self (of_decide_eq_true same)
          exact names.1 (List.mem_map.mpr ⟨(n, k), later, by rw [equal]⟩)
        rw [if_neg other]
        exact ih later names.2 fun sd inRest => one sd (List.mem_cons_of_mem _ inRest)

theorem Shape.upName (shape : Shape dirs) {d k : Nat} {n : Name} (member : (n, k) ∈ subs dirs d) :
    upName dirs k = n := by
  rw [Image.upName, shape.parent member, shape.filter_child member]
  rfl

/-- The entry for a directory in the one above. -/
def linkOp (dirs : List Dir) (x : Nat) : Nat × List Byte :=
  (parent dirs x, entry (upName dirs x) 0x10#8 (clusterOf dirs x) 0)

theorem Shape.link (shape : Shape dirs) {x : Nat} (positive : 0 < x) (inside : x < dirs.length)
    (dirs' : List Dir) (same : Same dirs dirs') :
    link dirs dirs' x = addAll dirs' [linkOp dirs x] := by
  obtain ⟨d, n, member⟩ := shape.every x positive inside
  have subdirs : (dirs'.getD d default).subdirs = subs dirs d := same.subs d
  have only : (dirs'.getD d default).subdirs.filter (·.2 = x) = [(n, x)] := by
    rw [subdirs]
    exact shape.filter_child member
  have cluster : (dirs'.getD x default).cluster = clusterOf dirs x := same.cluster x
  rw [Image.link, linkOp, shape.upName member, shape.parent member, only, List.foldl_cons,
    List.foldl_nil, cluster]
  rfl

theorem Shape.link_all (shape : Shape dirs) {list : List Nat}
    (real : ∀ x ∈ list, 0 < x ∧ x < dirs.length) (dirs' : List Dir) (same : Same dirs dirs') :
    list.foldl (Image.link dirs) dirs' = addAll dirs' (list.map (linkOp dirs)) := by
  induction list generalizing dirs' with
  | nil => rfl
  | cons x list ih =>
      obtain ⟨positive, inside⟩ := real x List.mem_cons_self
      rw [List.foldl_cons, shape.link positive inside dirs' same,
        ih (fun y member => real y (List.mem_cons_of_mem _ member)) _
          (same.trans (addAll_same ..)), ← addAll_append]
      rfl

/-! The chain of directories a file links. -/

/-- Nothing is linked whose parent is not, the root apart. -/
def Closed (dirs : List Dir) (linked : List Nat) : Prop :=
  ∀ x ∈ linked, parent dirs x = 0 ∨ parent dirs x ∈ linked

theorem Shape.parent_lt (shape : Shape dirs) {x : Nat} (positive : 0 < x)
    (inside : x < dirs.length) : Image.parent dirs x < x := by
  obtain ⟨d, n, member⟩ := shape.every x positive inside
  rw [shape.parent member]
  exact (shape.up _ _ _ member).1

theorem Shape.unlinked (shape : Shape dirs) {linked : List Nat} (closed : Closed dirs linked)
    {fuel x : Nat} (enough : x < fuel) (inside : x < dirs.length) :
    (∀ y ∈ unlinked dirs linked fuel x, 0 < y ∧ y ≤ x ∧ y ∉ linked) ∧
      (unlinked dirs linked fuel x).Nodup ∧
      (x = 0 ∨ x ∈ linked ++ unlinked dirs linked fuel x) ∧
      Closed dirs (linked ++ unlinked dirs linked fuel x) := by
  induction fuel generalizing x with
  | zero => exact absurd enough (Nat.not_lt_zero x)
  | succ fuel ih =>
      rw [Image.unlinked]
      by_cases stop : x = 0 ∨ x ∈ linked
      · rw [if_pos stop, List.append_nil]
        exact ⟨fun y member => absurd member List.not_mem_nil, List.nodup_nil, stop, closed⟩
      · obtain ⟨nonzero, fresh⟩ := not_or.mp stop
        have positive := Nat.pos_of_ne_zero nonzero
        have before := shape.parent_lt positive inside
        obtain ⟨real, nodup, above, closedAbove⟩ := ih (x := Image.parent dirs x) (by omega)
          (by omega)
        rw [if_neg stop]
        refine ⟨?_, ?_, ?_, ?_⟩
        · intro y member
          rcases List.mem_cons.mp member with rfl | later
          · exact ⟨positive, Nat.le_refl _, fresh⟩
          · obtain ⟨yPositive, yBelow, yFresh⟩ := real y later
            exact ⟨yPositive, by omega, yFresh⟩
        · rw [List.nodup_cons]
          refine ⟨fun again => ?_, nodup⟩
          have bound := (real x again).2.1
          omega
        · exact .inr (List.mem_append_right _ List.mem_cons_self)
        · intro y member
          have weaken {z : Nat} (found : z ∈ linked ++ Image.unlinked dirs linked fuel
              (Image.parent dirs x)) : z ∈ linked ++ x :: Image.unlinked dirs linked fuel
                (Image.parent dirs x) := by
            rw [List.mem_append] at found ⊢
            exact found.imp_right (List.mem_cons_of_mem _)
          rcases List.mem_append.mp member with old | new
          · exact (closed y old).imp_right (List.mem_append_left _)
          · rcases List.mem_cons.mp new with rfl | later
            · exact above.imp_right weaken
            · exact (closedAbove y (List.mem_append_right _ later)).imp_right weaken

/-- What is above something linked is linked. -/
theorem Shape.closed_above (shape : Shape dirs) {linked : List Nat} (closed : Closed dirs linked)
    {d k : Nat} {path above : List Name} (here : At dirs d path) (linkedHere : d = 0 ∨ d ∈ linked)
    (prefixed : above <+: path) (there : At dirs k above) : k = 0 ∨ k ∈ linked := by
  induction here generalizing k above with
  | root =>
      rw [List.prefix_nil] at prefixed
      subst prefixed
      exact .inl (shape.at_index there .root)
  | @child e n d path up member ih =>
      rw [List.prefix_concat_iff] at prefixed
      rcases prefixed with rfl | shorter
      · rw [shape.at_index there (.child up member)]
        exact linkedHere
      · refine ih ?_ shorter there
        have positive := Nat.lt_of_le_of_lt (Nat.zero_le e) (shape.up _ _ _ member).1
        rcases linkedHere with rfl | inLinked
        · exact absurd positive (Nat.lt_irrefl 0)
        · have parentLinked := closed d inLinked
          rw [shape.parent member] at parentLinked
          exact parentLinked

end Pugputer.Image

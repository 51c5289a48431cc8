import Mathlib.Data.List.GetD
import Mathlib.Data.List.Nodup
import Pugputer.Image.Builder

namespace Pugputer.Image

/-! The shape of the directory tree that the first pass builds. -/

abbrev Name := List Byte

/-- `dirs[d].subdirs`. -/
def subs (dirs : List Dir) (d : Nat) : List (Name × Nat) := (dirs.getD d default).subdirs

theorem getD_modify (dirs : List Dir) (i d : Nat) (f : Dir → Dir) :
    (dirs.modify i f).getD d default =
      if d = i ∧ i < dirs.length then f (dirs.getD d default) else dirs.getD d default := by
  rw [List.getD_eq_getElem?_getD, List.getElem?_modify, List.getD_eq_getElem?_getD]
  by_cases same : d = i
  · subst same
    by_cases inside : d < dirs.length
    · rw [if_pos ⟨rfl, inside⟩, List.getElem?_eq_getElem inside]
      simp
    · rw [if_neg (fun both => inside both.2), List.getElem?_eq_none (Nat.le_of_not_lt inside)]
      rfl
  · rw [if_neg (fun both => same both.1)]
    cases dirs[d]? with
    | none => rfl
    | some dir => simp [Ne.symm same]

/-- A tree: every directory but the root is in one other, under a name of its own there. -/
structure Shape (dirs : List Dir) : Prop where
  root : 0 < dirs.length
  up : ∀ d n k, (n, k) ∈ subs dirs d → d < k ∧ k < dirs.length
  one : ∀ d d' n n' k, (n, k) ∈ subs dirs d → (n', k) ∈ subs dirs d' → d = d' ∧ n = n'
  names : ∀ d, ((subs dirs d).map Prod.fst).Nodup
  every : ∀ k, 0 < k → k < dirs.length → ∃ d n, (n, k) ∈ subs dirs d

/-- The directory at a path. -/
inductive At (dirs : List Dir) : Nat → List Name → Prop where
  | root : At dirs 0 []
  | child {d n k path} : At dirs d path → (n, k) ∈ subs dirs d → At dirs k (path ++ [n])

variable {dirs : List Dir}

theorem Shape.at_path (shape : Shape dirs) {d : Nat} {path path' : List Name}
    (here : At dirs d path) (also : At dirs d path') : path = path' := by
  induction here generalizing path' with
  | root =>
      cases also with
      | root => rfl
      | child above member => exact absurd (shape.up _ _ _ member).1 (Nat.not_lt_zero _)
  | child above member ih =>
      cases also with
      | root => exact absurd (shape.up _ _ _ member).1 (Nat.not_lt_zero _)
      | child above' member' =>
          obtain ⟨rfl, rfl⟩ := shape.one _ _ _ _ _ member member'
          rw [ih above']

theorem Shape.at_index (shape : Shape dirs) {d d' : Nat} {path : List Name}
    (here : At dirs d path) (also : At dirs d' path) : d = d' := by
  induction here generalizing d' with
  | root =>
      generalize empty : ([] : List Name) = path at also
      cases also with
      | root => rfl
      | child above member => exact absurd empty (by simp)
  | @child d n k path above member ih =>
      generalize whole : path ++ [n] = path' at also
      cases also with
      | root => exact absurd whole (by simp)
      | child above' member' =>
          obtain ⟨rfl, last⟩ := List.append_inj' whole rfl
          obtain rfl := ih above'
          obtain rfl : n = _ := List.singleton_inj.mp last
          exact List.inj_on_of_nodup_map (shape.names _) member member' rfl |> Prod.mk.inj |>.2

theorem Shape.at_length (shape : Shape dirs) {d : Nat} {path : List Name} (here : At dirs d path) :
    d < dirs.length := by
  cases here with
  | root => exact shape.root
  | child above member => exact (shape.up _ _ _ member).2

theorem Shape.at_every (shape : Shape dirs) (d : Nat) (inside : d < dirs.length) :
    ∃ path, At dirs d path := by
  induction d using Nat.strongRecOn with
  | ind d ih =>
      rcases Nat.eq_zero_or_pos d with rfl | positive
      · exact ⟨[], .root⟩
      · obtain ⟨above, n, member⟩ := shape.every d positive inside
        have before := (shape.up _ _ _ member).1
        obtain ⟨path, here⟩ := ih above before (Nat.lt_trans before inside)
        exact ⟨path ++ [n], .child here member⟩

/-! Entering a subdirectory. -/

theorem child_eq (shape : Shape dirs) {d k : Nat} {part : Name} (member : (part, k) ∈ subs dirs d) :
    (dirs.getD d default).child part = k := by
  have names := shape.names d
  change List.foldl (fun child (sd : Name × Nat) => if sd.1 = part then sd.2 else child) 0
    (subs dirs d) = k
  generalize subs dirs d = list at member names
  generalize 0 = start
  induction list generalizing start with
  | nil => cases member
  | cons sd rest ih =>
      rw [List.foldl_cons]
      rw [List.map_cons, List.nodup_cons] at names
      rcases List.mem_cons.mp member with rfl | later
      · rw [if_pos rfl]
        have absent : ∀ sd ∈ rest, sd.1 ≠ part := by
          intro sd inRest same
          exact names.1 (List.mem_map.mpr ⟨sd, inRest, same⟩)
        clear ih member names
        induction rest generalizing k with
        | nil => rfl
        | cons sd rest ih =>
            rw [List.foldl_cons, if_neg (absent sd List.mem_cons_self)]
            exact ih fun sd inRest => absent sd (List.mem_cons_of_mem _ inRest)
      · exact ih later names.2 _

theorem child_zero {d : Nat} {part : Name} (absent : ∀ k, (part, k) ∉ subs dirs d) :
    (dirs.getD d default).child part = 0 := by
  change List.foldl (fun child (sd : Name × Nat) => if sd.1 = part then sd.2 else child) 0
    (subs dirs d) = 0
  generalize subs dirs d = list at absent
  induction list with
  | nil => rfl
  | cons sd rest ih =>
      have other : sd.1 ≠ part := by
        rintro rfl
        exact absent sd.2 List.mem_cons_self
      rw [List.foldl_cons, if_neg other]
      exact ih fun k member => absent k (List.mem_cons_of_mem _ member)

/-- The tree with a fresh subdirectory. -/
def grow (dirs : List Dir) (d : Nat) (part : Name) : List Dir :=
  dirs.modify d (fun dir => { dir with subdirs := dir.subdirs ++ [(part, dirs.length)] }) ++
    [({ entries := [] } : Dir)]

theorem subs_grow {d : Nat} (inside : d < dirs.length) (part : Name) (e : Nat) :
    subs (grow dirs d part) e = subs dirs e ++ if e = d then [(part, dirs.length)] else [] := by
  rw [subs, grow]
  by_cases old : e < dirs.length
  · rw [List.getD_append _ _ _ _ (by rw [List.length_modify]; exact old), getD_modify]
    by_cases same : e = d
    · rw [if_pos ⟨same, inside⟩, if_pos same]
      rfl
    · rw [if_neg (fun both => same both.1), if_neg same, List.append_nil]
      rfl
  · have none : subs dirs e = [] := by
      rw [subs, List.getD_eq_default _ _ (Nat.le_of_not_lt old)]
      rfl
    have other : e ≠ d := by
      rintro rfl
      exact old inside
    rw [none, if_neg other, List.getD_append_right _ _ _ _ (by
      rw [List.length_modify]
      exact Nat.le_of_not_lt old), List.length_modify]
    generalize e - dirs.length = rest
    cases rest with
    | zero => rfl
    | succ rest => rfl

theorem grow_length (d : Nat) (part : Name) : (grow dirs d part).length = dirs.length + 1 := by
  rw [grow, List.length_append, List.length_modify]
  rfl

/-- `enter` finds the subdirectory or makes it. -/
theorem enter_cases (shape : Shape dirs) (d : Nat) (part : Name) :
    (∃ k, (part, k) ∈ subs dirs d ∧ enter dirs d part = (dirs, k)) ∨
    ((∀ k, (part, k) ∉ subs dirs d) ∧
      enter dirs d part = (grow dirs d part, dirs.length)) := by
  by_cases found : ∃ k, (part, k) ∈ subs dirs d
  · obtain ⟨k, member⟩ := found
    refine .inl ⟨k, member, ?_⟩
    have positive := Nat.lt_of_le_of_lt (Nat.zero_le d) (shape.up _ _ _ member).1
    obtain ⟨j, rfl⟩ := Nat.exists_eq_succ_of_ne_zero (Nat.ne_of_gt positive)
    rw [enter, child_eq shape member]
    rfl
  · have absent : ∀ k, (part, k) ∉ subs dirs d := fun k member => found ⟨k, member⟩
    refine .inr ⟨absent, ?_⟩
    rw [enter, child_zero absent]
    rfl

theorem mem_subs_grow {d : Nat} (inside : d < dirs.length) {part : Name} {e k : Nat} {n : Name} :
    (n, k) ∈ subs (grow dirs d part) e ↔
      (n, k) ∈ subs dirs e ∨ (e = d ∧ n = part ∧ k = dirs.length) := by
  rw [subs_grow inside, List.mem_append]
  by_cases same : e = d
  · rw [if_pos same, List.mem_singleton, Prod.mk.injEq]
    exact or_congr_right ⟨fun new => ⟨same, new⟩, fun new => new.2⟩
  · rw [if_neg same]
    exact or_congr_right ⟨fun none => absurd none List.not_mem_nil, fun new => absurd new.1 same⟩

theorem Shape.grow (shape : Shape dirs) {d : Nat} (inside : d < dirs.length) {part : Name}
    (absent : ∀ k, (part, k) ∉ subs dirs d) : Shape (grow dirs d part) := by
  constructor
  · rw [grow_length]
    exact Nat.succ_pos _
  · intro e n k member
    rw [grow_length]
    rcases (mem_subs_grow inside).mp member with old | ⟨rfl, rfl, rfl⟩
    · have bounds := shape.up _ _ _ old
      omega
    · omega
  · intro e e' n n' k member member'
    rcases (mem_subs_grow inside).mp member with old | ⟨rfl, rfl, rfl⟩
    · rcases (mem_subs_grow inside).mp member' with old' | ⟨-, -, rfl⟩
      · exact shape.one _ _ _ _ _ old old'
      · exact absurd (shape.up _ _ _ old).2 (Nat.lt_irrefl _)
    · rcases (mem_subs_grow inside).mp member' with old' | ⟨rfl, rfl, -⟩
      · exact absurd (shape.up _ _ _ old').2 (Nat.lt_irrefl _)
      · exact ⟨rfl, rfl⟩
  · intro e
    rw [subs_grow inside]
    by_cases same : e = d
    · rw [if_pos same, List.map_append, List.nodup_append]
      refine ⟨shape.names e, List.nodup_singleton _, ?_⟩
      rintro n old n' new rfl
      obtain ⟨⟨n, k⟩, member, rfl⟩ := List.mem_map.mp old
      obtain rfl := List.mem_singleton.mp new
      exact absent k (same ▸ member)
    · rw [if_neg same, List.append_nil]
      exact shape.names e
  · intro k positive below
    rw [grow_length] at below
    by_cases old : k < dirs.length
    · obtain ⟨e, n, member⟩ := shape.every k positive old
      exact ⟨e, n, (mem_subs_grow inside).mpr (.inl member)⟩
    · exact ⟨d, part, (mem_subs_grow inside).mpr (.inr ⟨rfl, rfl, by omega⟩)⟩

theorem At.grow {d e : Nat} (inside : d < dirs.length) {part : Name} {path : List Name}
    (here : At dirs e path) : At (grow dirs d part) e path := by
  induction here with
  | root => exact .root
  | child above member ih => exact .child ih ((mem_subs_grow inside).mpr (.inl member))

theorem Shape.at_grow (shape : Shape dirs) {d e : Nat} (inside : d < dirs.length) {part : Name}
    {path path' : List Name} (dir : At dirs d path) (here : At (Image.grow dirs d part) e path') :
    At dirs e path' ∨ (e = dirs.length ∧ path' = path ++ [part]) := by
  induction here with
  | root => exact .inl .root
  | @child e n k path' above member ih =>
      rcases (mem_subs_grow inside).mp member with old | ⟨rfl, rfl, rfl⟩
      · rcases ih with here | ⟨rfl, -⟩
        · exact .inl (.child here old)
        · have bounds := shape.up _ _ _ old
          omega
      · rcases ih with here | ⟨rfl, -⟩
        · rw [shape.at_path here dir]
          exact .inr ⟨rfl, rfl⟩
        · exact absurd inside (Nat.lt_irrefl _)

/-- Entering the directories of a path one after the other. -/
def walk (dirs : List Dir) (d : Nat) : List Name → List Dir × Nat
  | [] => (dirs, d)
  | part :: rest =>
      let (dirs, child) := enter dirs d part
      walk dirs child rest

/-- What a walk leaves: a tree with all that was in it, and on its own path nothing else. -/
structure Walked (dirs : List Dir) (path : List Name) (after : List Dir × Nat) : Prop where
  shape : Shape after.1
  there : At after.1 after.2 path
  kept : ∀ e path, At dirs e path → At after.1 e path
  new : ∀ e path', At after.1 e path' → At dirs e path' ∨ path' <+: path
  plain : (∀ dir ∈ dirs, dir.entries = []) → ∀ dir ∈ after.1, dir.entries = []

theorem Shape.walk (shape : Shape dirs) {d : Nat} {path : List Name} (here : At dirs d path)
    (parts : List Name) : Walked dirs (path ++ parts) (walk dirs d parts) := by
  induction parts generalizing dirs d path with
  | nil =>
      rw [List.append_nil]
      exact ⟨shape, here, fun _ _ => id, fun _ _ => .inl, id⟩
  | cons part rest ih =>
      have inside := shape.at_length here
      have whole : path ++ part :: rest = path ++ [part] ++ rest := by simp
      rw [Image.walk, whole]
      rcases enter_cases shape d part with ⟨k, member, entered⟩ | ⟨absent, entered⟩
      · rw [entered]
        exact ih shape (.child here member)
      · rw [entered]
        have grown := shape.grow inside absent
        have fresh : At (Image.grow dirs d part) dirs.length (path ++ [part]) :=
          .child (here.grow inside) ((mem_subs_grow inside).mpr (.inr ⟨rfl, rfl, rfl⟩))
        have walked := ih grown fresh
        refine ⟨walked.shape, walked.there, fun e path' old => walked.kept e path' (old.grow inside),
          ?_, ?_⟩
        · intro e path' after
          rcases walked.new e path' after with before | onPath
          · rcases shape.at_grow inside here before with old | ⟨-, rfl⟩
            · exact .inl old
            · exact .inr (List.prefix_append _ _)
          · exact .inr onPath
        · intro plain
          refine walked.plain ?_
          intro dir member
          rw [Image.grow, List.mem_append, List.mem_singleton] at member
          rcases member with old | rfl
          · obtain ⟨i, bound, rfl⟩ := List.mem_iff_getElem.mp old
            rw [List.getElem_modify]
            rw [List.length_modify] at bound
            split
            · exact plain dirs[i] (List.getElem_mem bound)
            · exact plain dirs[i] (List.getElem_mem bound)
          · rfl

/-! Reading a file's name. -/

/-- The parts of a name between its slashes. -/
def components (part : Name) : List Byte → List Name
  | [] => [part]
  | c :: rest => if c = slash then part :: components [] rest else components (part ++ [c]) rest

theorem components_ne_nil (part : Name) (text : List Byte) : components part text ≠ [] := by
  induction text generalizing part with
  | nil => exact List.cons_ne_nil _ _
  | cons c rest ih =>
      rw [components]
      split
      · exact List.cons_ne_nil _ _
      · exact ih _

/-- With no part empty, the builder's walk over a name is a walk over its parts. -/
theorem place_eq (d : Nat) (part : Name) (text : List Byte)
    (full : ∀ name ∈ components part text, name ≠ []) :
    place dirs d part text =
      ((walk dirs d ((components part text).dropLast.map (·.map toUpper))).1,
        (walk dirs d ((components part text).dropLast.map (·.map toUpper))).2,
        (components part text).getLast (components_ne_nil part text)) := by
  induction text generalizing dirs d part with
  | nil => rfl
  | cons c rest ih =>
      rw [components] at full
      by_cases slashed : c = slash
      · rw [if_pos slashed] at full
        have partFull := full part List.mem_cons_self
        have more := components_ne_nil [] rest
        have parts : components part (c :: rest) = part :: components [] rest := by
          rw [components, if_pos slashed]
        simp only [parts, List.dropLast_cons_of_ne_nil more, List.map_cons, Image.walk,
          List.getLast_cons more]
        rw [place, if_pos slashed, if_neg partFull]
        exact ih _ [] fun name member => full name (List.mem_cons_of_mem _ member)
      · rw [if_neg slashed] at full
        have parts : components part (c :: rest) = components (part ++ [c]) rest := by
          rw [components, if_neg slashed]
        simp only [parts]
        rw [place, if_neg slashed]
        exact ih d _ full

namespace Fat16File

def parts (f : Fat16File) : List Name := components [] f.name

theorem parts_ne_nil (f : Fat16File) : f.parts ≠ [] := components_ne_nil [] f.name

/-- The path of a file's directory, in capitals. -/
def dirPath (f : Fat16File) : List Name := f.parts.dropLast.map (·.map toUpper)

def leaf (f : Fat16File) : Name := f.parts.getLast f.parts_ne_nil

end Fat16File

/-- What the first pass leaves. -/
structure Placed (before : List Dir) (files : List Fat16File)
    (after : List Dir × List (Nat × List Byte)) : Prop where
  shape : Shape after.1
  kept : ∀ e path, At before e path → At after.1 e path
  inside : List.Forall₂ (fun (f : Fat16File) p => At after.1 p.1 f.dirPath ∧ p.2 = f.leaf) files
    after.2
  new : ∀ e path, At after.1 e path → At before e path ∨ ∃ f ∈ files, path <+: f.dirPath
  plain : (∀ dir ∈ before, dir.entries = []) → ∀ dir ∈ after.1, dir.entries = []

theorem Shape.placeAll (shape : Shape dirs) (files : List Fat16File)
    (full : ∀ f ∈ files, ∀ name ∈ f.parts, name ≠ []) :
    Placed dirs files (placeAll dirs files) := by
  induction files generalizing dirs with
  | nil =>
      exact ⟨shape, fun _ _ => id, .nil, fun _ _ => .inl, id⟩
  | cons f files ih =>
      have walked := shape.walk .root f.dirPath
      rw [List.nil_append] at walked
      have placed : place dirs 0 [] f.name =
          ((Image.walk dirs 0 f.dirPath).1, (Image.walk dirs 0 f.dirPath).2, f.leaf) :=
        place_eq 0 [] f.name (full f List.mem_cons_self)
      have rest := ih walked.shape fun g member => full g (List.mem_cons_of_mem _ member)
      rw [Image.placeAll, placed]
      exact {
        shape := rest.shape
        kept := fun e path old => rest.kept e path (walked.kept e path old)
        inside := .cons ⟨rest.kept _ _ walked.there, rfl⟩ rest.inside
        new := by
          intro e path after
          rcases rest.new e path after with before | ⟨g, member, onPath⟩
          · rcases walked.new e path before with old | onPath
            · exact .inl old
            · exact .inr ⟨f, List.mem_cons_self, onPath⟩
          · exact .inr ⟨g, List.mem_cons_of_mem _ member, onPath⟩
        plain := fun plain => rest.plain (walked.plain plain) }

theorem rootShape : Shape [({ entries := [] } : Dir)] := by
  have none (d : Nat) : subs [({ entries := [] } : Dir)] d = [] := by
    cases d with
    | zero => rfl
    | succ d => rfl
  constructor
  · exact Nat.one_pos
  · intro d n k member
    rw [none] at member
    cases member
  · intro d d' n n' k member
    rw [none] at member
    cases member
  · intro d
    rw [none]
    exact List.nodup_nil
  · intro k positive below
    exact absurd below (Nat.not_lt.mpr positive)

theorem root_only {d : Nat} {path : List Name} (here : At [({ entries := [] } : Dir)] d path) :
    path = [] := by
  cases here with
  | root => rfl
  | @child e n k path above member =>
      have none : subs [({ entries := [] } : Dir)] e = [] := by
        cases e with
        | zero => rfl
        | succ e => rfl
      rw [none] at member
      cases member

end Pugputer.Image

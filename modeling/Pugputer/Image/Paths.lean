import Mathlib.Data.List.Induction
import Pugputer.Image.Reread

namespace Pugputer.Image

/-! The paths of directories and files, in memory and on the disk. -/

/-- A valid name in capitals. -/
def Upper (name : Name) : Prop := ∃ valid, ValidName valid ∧ name = valid.map toUpper

theorem ValidName.head {name : Name} (valid : ValidName name) :
    ∃ c rest, name = c :: rest ∧ nameChar c ∧ c ≠ 0xE5#8 := by
  obtain ⟨base, ext, rfl, nonempty, -, -, chars, first⟩ := valid
  cases base with
  | nil => exact absurd rfl nonempty
  | cons c base =>
      refine ⟨c, _, rfl, chars c (List.mem_append_left _ List.mem_cons_self), ?_⟩
      rintro rfl
      exact first rfl

theorem shortName_upper (name : Name) : shortName (name.map toUpper) = shortName name := by
  have dots : (fun c => decide (c ≠ dot)) ∘ toUpper = fun c => decide (c ≠ dot) := by
    funext c
    rw [Function.comp_apply, decide_eq_decide]
    exact not_congr (toUpper_dot c)
  have twice : toUpper ∘ toUpper = toUpper := funext toUpper_twice
  rw [shortName, shortName]
  simp only [List.takeWhile_map, List.dropWhile_map, dots, ← List.map_take, ← List.map_drop,
    List.map_map, twice]

theorem shortName_upper_inj {a b : Name} (aUpper : Upper a) (bUpper : Upper b)
    (same : shortName a = shortName b) : a = b := by
  obtain ⟨a, aValid, rfl⟩ := aUpper
  obtain ⟨b, bValid, rfl⟩ := bUpper
  rw [shortName_upper, shortName_upper] at same
  exact shortName_inj aValid bValid same

/-- Paths of valid names are told apart on the disk. -/
theorem disk_inj {p q : List Name} (pUpper : ∀ name ∈ p, Upper name)
    (qUpper : ∀ name ∈ q, Upper name) (same : p.map shortName = q.map shortName) : p = q := by
  induction p generalizing q with
  | nil => exact (List.map_eq_nil_iff.mp same.symm).symm
  | cons name p ih =>
      cases q with
      | nil => cases same
      | cons name' q =>
          rw [List.map_cons, List.map_cons, List.cons.injEq] at same
          rw [shortName_upper_inj (pUpper _ List.mem_cons_self) (qUpper _ List.mem_cons_self) same.1,
            ih (fun n member => pUpper n (List.mem_cons_of_mem _ member))
              (fun n member => qUpper n (List.mem_cons_of_mem _ member)) same.2]

theorem Upper.head {name : Name} (upper : Upper name) :
    ∃ c rest, name = toUpper c :: rest ∧ nameChar c ∧ c ≠ 0xE5#8 := by
  obtain ⟨valid, isValid, rfl⟩ := upper
  obtain ⟨c, rest, rfl, char, kept⟩ := isValid.head
  exact ⟨c, rest.map toUpper, rfl, char, kept⟩

/-- A name that starts with a character of a name is not "." or "..", and its entry is live. -/
theorem entry_live {c : Byte} (char : nameChar c) (kept : c ≠ 0xE5#8) {name : Name}
    (head : ∃ rest, name = c :: rest ∨ name = toUpper c :: rest) :
    diskName name = shortName name ∧
      ∀ attr cluster size, Live (entry name attr cluster size) := by
  obtain ⟨above, notDot, -⟩ := char
  have upperDot : toUpper c ≠ dot := fun same => notDot ((toUpper_dot c).mp same)
  have first : ∃ rest, shortName name = toUpper c :: rest := by
    obtain ⟨rest, rfl | rfl⟩ := head
    · rw [shortName, List.takeWhile_cons, if_pos (decide_eq_true notDot)]
      exact ⟨_, rfl⟩
    · rw [shortName, List.takeWhile_cons, if_pos (decide_eq_true upperDot), List.take_succ_cons,
        List.map_cons, toUpper_twice]
      exact ⟨_, rfl⟩
  have disk : diskName name = shortName name := by
    have one : name ≠ [dot] := by
      rintro rfl
      obtain ⟨rest, same | same⟩ := head
      · exact notDot (List.cons.inj same).1.symm
      · exact upperDot (List.cons.inj same).1.symm
    have two : name ≠ [dot, dot] := by
      rintro rfl
      obtain ⟨rest, same | same⟩ := head
      · exact notDot (List.cons.inj same).1.symm
      · exact upperDot (List.cons.inj same).1.symm
    rw [diskName, if_neg one, if_neg two]
  refine ⟨disk, fun attr cluster size => ?_⟩
  obtain ⟨rest, short⟩ := first
  rw [entry_bytes, disk, short]
  exact toUpper_first c above kept

namespace Fat16File

theorem upperPath_eq (f : Fat16File) : f.upperPath = f.dirPath ++ [f.leaf.map toUpper] := by
  have parts := List.dropLast_append_getLast f.parts_ne_nil
  rw [upperPath, dirPath, leaf]
  nth_rewrite 1 [← parts]
  rw [List.map_append]
  rfl

theorem path_upper (f : Fat16File) : f.path = f.upperPath.map shortName := by
  rw [path, upperPath, List.map_map]
  exact List.map_congr_left fun name _ => (shortName_upper name).symm

theorem path_eq (f : Fat16File) : f.path = f.dirPath.map shortName ++ [shortName f.leaf] := by
  rw [path_upper, upperPath_eq, List.map_append, List.map_singleton, shortName_upper]

end Fat16File

theorem Nameable.upperPath {files : List Fat16File} (nameable : Nameable files) {f : Fat16File}
    (member : f ∈ files) : ∀ name ∈ f.upperPath, Upper name := by
  intro name inPath
  obtain ⟨part, inParts, rfl⟩ := List.mem_map.mp inPath
  exact ⟨part, nameable.valid f member part inParts, rfl⟩

theorem At.above {dirs : List Dir} {d : Nat} {p q : List Name} (here : At dirs d (p ++ q)) :
    ∃ e, At dirs e p := by
  induction q using List.reverseRecOn generalizing d with
  | nil =>
      rw [List.append_nil] at here
      exact ⟨d, here⟩
  | append_singleton q name ih =>
      rw [← List.append_assoc] at here
      generalize whole : p ++ q ++ [name] = path at here
      cases here with
      | root => exact absurd whole (by simp)
      | child up member =>
          obtain ⟨rfl, -⟩ := List.append_inj' whole rfl
          exact ih up

end Pugputer.Image

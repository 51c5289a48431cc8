import Pugputer.Linker.Output

namespace Pugputer.Linker

/-! Where the sections are to be. -/

variable {n : Nat} (sect : Fin n → Sect)

/-- The sections of a name that are not constant, in the order read. -/
def named (m : Chars) : List (Fin n) :=
  (List.finRange n).filter fun i => !(sect i).const && (sect i).name = m

/-- By name, or by * with the flags. -/
def SLine.Reaches (l : SLine) (m : Chars) : Prop :=
  l.name ≠ [] ∧ l.name = m ∨ l.name = [] ∧ ∃ i, l.wants (sect i) = true ∧ (sect i).name = m

/-- One after another from an address, upwards or downwards. -/
def Adjoin (load : Fin n → BitVec 16) (down : Bool) : (addr : BitVec 16) → List (Fin n) →
    (next : BitVec 16) → Prop
  | addr, [], next => next = addr
  | addr, i :: rest, next =>
      if down then load i = addr - (sect i).size ∧ Adjoin load down (load i) rest next
      else load i = addr ∧ Adjoin load down (addr + (sect i).size) rest next

/-- The sections of each line begin at its own address, or go on from those before. -/
def Follow (load : Fin n → BitVec 16) : List SLine → List (List (Fin n)) →
    (addr : BitVec 16) → (down : Bool) → Prop
  | l :: slines, block :: blocks, addr, down =>
      let down := if l.hasload then l.down else down
      ∃ next, Adjoin sect load down (if l.hasload then l.load else addr) block next ∧
        Follow load slines blocks next down
  | [], [], _, _ => True
  | _, _, _, _ => False

/-- A block for each line, of the names that it is the first to reach. -/
structure Laid (slines : List SLine) (names : List (List Chars)) : Prop where
  each : names.length = slines.length
  nodup : names.flatten.Nodup
  first : ∀ k m, named sect m ≠ [] → (m ∈ names.getD k [] ↔
    (∃ l, slines[k]? = some l ∧ l.Reaches sect m) ∧
      ∀ j < k, ∀ l, slines[j]? = some l → ¬l.Reaches sect m)

/-- Whose export it is: the file's own first, then of all, among those that are taken. -/
def provider (ok : Fin n → Bool) (file : Nat) (name : Chars) : Option (Fin n) :=
  let has (B : Nat) (i : Fin n) : Bool :=
    (B = 0 || B = (sect i).file) && ((sect i).export? name).isSome && ok i
  (if file = 0 then none else (List.finRange n).find? (has file)).or ((List.finRange n).find? (has 0))

/-- A relocation of the section refers to the name. -/
def Imports (i : Fin n) (name : Chars) : Prop :=
  ∃ r ∈ (sect i).relocs, Term.ext name ∈ r.expr

end Pugputer.Linker

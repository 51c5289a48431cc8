import Mathlib.Logic.Function.Basic
import Pugputer.Srec.Parse

namespace Pugputer.Srec

/-! `load_srec_file`: the lines of a file, one after the other. -/

structure SrecLoadResult where
  ok : Bool := false
  error : String := ""
  anyData : Bool := false
  minAddr : BitVec 32 := 0
  maxAddr : BitVec 32 := 0

/-- The loader on its way: what it has put into `mem` so far, the first first. -/
structure Loading where
  result : SrecLoadResult := {}
  writes : List (Nat × Byte) := []

def errAt (path : String) (lineNo : Nat) (msg : String) : String :=
  path ++ ":" ++ toString lineNo ++ ": " ++ msg

/-- `std::getline`, to the end of the file. -/
def getLines : List Byte → List (List Byte)
  | [] => []
  | c :: rest =>
      if c = chr '\n' then [] :: getLines rest
      else
        match getLines rest with
        | [] => [[c]]
        | line :: lines => (c :: line) :: lines

/-- `mem[address + i] = data[i]`, the sum of 32 bits. -/
def Record.writes (r : Record) : List (Nat × Byte) :=
  if r.isData then r.data.mapIdx fun i b => ((r.address + BitVec.ofNat 32 i).toNat, b) else []

namespace Loading

def carry (l : Loading) (r : Record) : Loading :=
  if r.isData ∧ 0 < r.data.length then
    let last := r.address + BitVec.ofNat 32 r.data.length - 1
    { writes := l.writes ++ r.writes
      result :=
        if l.result.anyData then
          { l.result with
            minAddr := if r.address < l.result.minAddr then r.address else l.result.minAddr
            maxAddr := if l.result.maxAddr < last then last else l.result.maxAddr }
        else { l.result with anyData := true, minAddr := r.address, maxAddr := last } }
  else l

def place (l : Loading) (memSize : Nat) (r : Record) : Except String Loading :=
  if r.isData ∧ 0 < r.data.length ∧
      memSize < (r.address + BitVec.ofNat 32 r.data.length).toNat then
    .error ("data record at $" ++ hexUpper 4 r.address.toNat ++
      " extends past the end of the target memory (" ++ toString memSize ++ " bytes)")
  else .ok (l.carry r)

def fail (l : Loading) (error : String) : Loading := { l with result := { l.result with error } }

def done (l : Loading) : Loading := { l with result := { l.result with ok := true } }

end Loading

def loadLines (path : String) (memSize lineNo : Nat) (l : Loading) : List (List Byte) → Loading
  | [] => l.done
  | line :: rest =>
      if rstrip line = [] then loadLines path memSize (lineNo + 1) l rest
      else
        match parseLine (rstrip line) >>= l.place memSize with
        | .error msg => l.fail (errAt path (lineNo + 1) msg)
        | .ok l => loadLines path memSize (lineNo + 1) l rest

/-- The file's content, `none` if it could not be opened. -/
def loadSrecFile (path : String) (content : Option (List Byte)) (memSize : Nat) : Loading :=
  match content with
  | none => Loading.fail {} ("could not open '" ++ path ++ "'")
  | some content => loadLines path memSize 0 {} (getLines content)

def stored (writes : List (Nat × Byte)) (mem : Nat → Byte) : Nat → Byte :=
  writes.foldl (fun mem w => Function.update mem w.1 w.2) mem

/-! What the loader makes of each line. -/

/-- The lines that are not blank, less the blanks they end in. -/
def textLines (lines : List (List Byte)) : List (List Byte) :=
  (lines.map rstrip).filter (· ≠ [])

/-- The bound check lets the record through. -/
def Record.Passes (memSize : Nat) (r : Record) : Prop :=
  r.isData → 0 < r.data.length → (r.address + BitVec.ofNat 32 r.data.length).toNat ≤ memSize

def Accepted (memSize : Nat) (line : List Byte) : Prop := ∃ r, Holds line r ∧ r.Passes memSize

theorem holds_unique {line : List Byte} {r r' : Record} (holds : Holds line r)
    (holds' : Holds line r') : r = r' :=
  Except.ok.inj ((parseLine_ok.mpr holds).symm.trans (parseLine_ok.mpr holds'))

namespace Loading

variable {path : String} {memSize lineNo : Nat} {l : Loading} {line : List Byte}
  {rest : List (List Byte)}

theorem place_ok {r : Record} {l' : Loading} :
    l.place memSize r = .ok l' ↔ r.Passes memSize ∧ l' = l.carry r := by
  rw [place, Record.Passes]
  split
  · next beyond =>
    refine iff_of_false nofun fun passes => ?_
    exact Nat.not_lt.mpr (passes.1 beyond.1 beyond.2.1) beyond.2.2
  · next fits =>
    constructor
    · intro same
      refine ⟨fun data some => Nat.not_lt.mp fun beyond => fits ⟨data, some, beyond⟩, ?_⟩
      exact (Except.ok.inj same).symm
    · rintro ⟨-, rfl⟩
      rfl

theorem loadLines_blank (blank : rstrip line = []) :
    loadLines path memSize lineNo l (line :: rest) = loadLines path memSize (lineNo + 1) l rest :=
  if_pos blank

theorem loadLines_accepted (text : rstrip line ≠ []) {r : Record} (holds : Holds (rstrip line) r)
    (passes : r.Passes memSize) :
    loadLines path memSize lineNo l (line :: rest) =
      loadLines path memSize (lineNo + 1) (l.carry r) rest := by
  have taken : parseLine (rstrip line) >>= l.place memSize = .ok (l.carry r) :=
    bind_ok.mpr ⟨r, parseLine_ok.mpr holds, place_ok.mpr ⟨passes, rfl⟩⟩
  rw [loadLines, if_neg text, taken]

theorem loadLines_refused (text : rstrip line ≠ []) (refused : ¬Accepted memSize (rstrip line)) :
    ∃ error, loadLines path memSize lineNo l (line :: rest) = l.fail error := by
  rw [loadLines, if_neg text]
  cases taken : parseLine (rstrip line) >>= l.place memSize with
  | error msg => exact ⟨_, rfl⟩
  | ok l' =>
      obtain ⟨r, parsed, placed⟩ := bind_ok.mp taken
      exact absurd ⟨r, parseLine_ok.mp parsed, (place_ok.mp placed).1⟩ refused

theorem carry_ok (r : Record) : (l.carry r).result.ok = l.result.ok := by
  rw [carry]
  split
  · dsimp only
    split <;> rfl
  · rfl

theorem carry_writes (r : Record) : (l.carry r).writes = l.writes ++ r.writes := by
  rw [carry]
  split
  · rfl
  · next none =>
    have empty : r.writes = [] := by
      rw [Record.writes]
      split
      · next data =>
        have short : r.data = [] := 
          List.length_eq_zero_iff.mp (Nat.eq_zero_of_not_pos fun some => none ⟨data, some⟩)
        rw [short, List.mapIdx_nil]
      · rfl
    rw [empty, List.append_nil]

theorem textLines_cons (line : List Byte) (rest : List (List Byte)) :
    textLines (line :: rest) =
      if rstrip line = [] then textLines rest else rstrip line :: textLines rest := by
  rw [textLines, List.map_cons, List.filter_cons]
  by_cases blank : rstrip line = [] <;> simp [blank, textLines]

/-- The loader ends well exactly when every line is let through, and what it has done then is
the records' work, one after the other. -/
theorem loadLines_ok (path : String) (memSize lineNo : Nat) (l : Loading)
    (lines : List (List Byte)) (unfinished : l.result.ok = false) :
    ((loadLines path memSize lineNo l lines).result.ok = true ↔
      ∀ line ∈ textLines lines, Accepted memSize line) := by
  induction lines generalizing l lineNo with
  | nil => exact iff_of_true rfl fun _ member => absurd member List.not_mem_nil
  | cons line rest ih =>
      rw [textLines_cons]
      by_cases blank : rstrip line = []
      · rw [loadLines_blank blank, if_pos blank]
        exact ih _ l unfinished
      · rw [if_neg blank, List.forall_mem_cons]
        by_cases accepted : Accepted memSize (rstrip line)
        · rw [iff_true_intro accepted, true_and]
          obtain ⟨r, holds, passes⟩ := accepted
          rw [loadLines_accepted blank holds passes]
          exact ih _ (l.carry r) ((carry_ok r).trans unfinished)
        · obtain ⟨error, failed⟩ := loadLines_refused blank accepted
          rw [failed]
          refine iff_of_false ?_ fun every => accepted every.1
          rw [fail, unfinished]
          decide

theorem loadLines_done (path : String) (memSize lineNo : Nat) (l : Loading)
    (lines : List (List Byte)) (every : ∀ line ∈ textLines lines, Accepted memSize line) :
    ∃ rs, List.Forall₂ Holds (textLines lines) rs ∧ (∀ r ∈ rs, r.Passes memSize) ∧
      loadLines path memSize lineNo l lines = (rs.foldl carry l).done := by
  induction lines generalizing l lineNo with
  | nil => exact ⟨[], .nil, fun _ member => absurd member List.not_mem_nil, rfl⟩
  | cons line rest ih =>
      rw [textLines_cons] at every ⊢
      by_cases blank : rstrip line = []
      · rw [if_pos blank] at every ⊢
        rw [loadLines_blank blank]
        exact ih _ l every
      · rw [if_neg blank, List.forall_mem_cons] at every
        rw [if_neg blank]
        obtain ⟨⟨r, holds, passes⟩, later⟩ := every
        obtain ⟨rs, spelled, pass, same⟩ := ih (lineNo + 1) (l.carry r) later
        refine ⟨r :: rs, .cons holds spelled, List.forall_mem_cons.mpr ⟨passes, pass⟩, ?_⟩
        rw [loadLines_accepted blank holds passes, same, List.foldl_cons]

/-- The record is one of the lines, and every line before it is let through. -/
def Reached (memSize : Nat) (lines : List (List Byte)) (r : Record) : Prop :=
  ∃ before line after, lines = before ++ line :: after ∧
    (∀ line ∈ before, Accepted memSize line) ∧ Holds line r

theorem reached_cons {line : List Byte} {lines : List (List Byte)} {r r' : Record}
    (holds : Holds line r') (passes : r'.Passes memSize) :
    Reached memSize (line :: lines) r ↔ r = r' ∨ Reached memSize lines r := by
  constructor
  · rintro ⟨before, line', after, split, every, holds'⟩
    cases before with
    | nil =>
        obtain ⟨rfl, rfl⟩ := List.cons.inj split
        exact .inl (holds_unique holds' holds)
    | cons first before =>
        obtain ⟨rfl, tail⟩ := List.cons.inj split
        exact .inr ⟨before, line', after, tail, (List.forall_mem_cons.mp every).2, holds'⟩
  · rintro (rfl | ⟨before, line', after, rfl, every, holds'⟩)
    · exact ⟨[], line, lines, rfl, fun _ member => absurd member List.not_mem_nil, holds⟩
    · exact ⟨line :: before, line', after, rfl,
        List.forall_mem_cons.mpr ⟨⟨r', holds, passes⟩, every⟩, holds'⟩

/-- What is put into memory: the records that are reached and let through. -/
theorem loadLines_writes (path : String) (memSize lineNo : Nat) (l : Loading)
    (lines : List (List Byte)) (w : Nat × Byte) :
    w ∈ (loadLines path memSize lineNo l lines).writes ↔ w ∈ l.writes ∨
      ∃ r, Reached memSize (textLines lines) r ∧ r.Passes memSize ∧ w ∈ r.writes := by
  induction lines generalizing l lineNo with
  | nil =>
      refine (or_iff_left ?_).symm
      rintro ⟨r, ⟨before, line, after, split, -⟩, -⟩
      exact absurd split (by simp [textLines])
  | cons line rest ih =>
      rw [textLines_cons]
      by_cases blank : rstrip line = []
      · rw [loadLines_blank blank, if_pos blank]
        exact ih _ l
      · rw [if_neg blank]
        by_cases accepted : Accepted memSize (rstrip line)
        · obtain ⟨r, holds, passes⟩ := accepted
          rw [loadLines_accepted blank holds passes, ih, carry_writes, List.mem_append, or_assoc]
          refine or_congr_right ?_
          constructor
          · rintro (here | ⟨r', reached, passes', member⟩)
            · exact ⟨r, (reached_cons holds passes).mpr (.inl rfl), passes, here⟩
            · exact ⟨r', (reached_cons holds passes).mpr (.inr reached), passes', member⟩
          · rintro ⟨r', reached, passes', member⟩
            rcases (reached_cons holds passes).mp reached with rfl | reached
            · exact .inl member
            · exact .inr ⟨r', reached, passes', member⟩
        · obtain ⟨error, failed⟩ := loadLines_refused blank accepted
          rw [failed]
          refine (or_iff_left ?_).symm
          rintro ⟨r, ⟨before, line', after, split, every, holds⟩, passes, -⟩
          cases before with
          | nil =>
              obtain ⟨rfl, -⟩ := List.cons.inj split
              exact accepted ⟨r, holds, passes⟩
          | cons first before =>
              obtain ⟨rfl, -⟩ := List.cons.inj split
              exact accepted (every _ List.mem_cons_self)

end Loading

end Pugputer.Srec

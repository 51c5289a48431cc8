import Pugputer.Dos.Append
import Pugputer.Dos.Exec
import Pugputer.Lib.Lines

namespace Pugputer.Dos

open Lib

/-! Lines: B_READLINE and B_WRITELINE. -/

def cr : Byte := 0x0D#8
def lf : Byte := 0x0A#8

/-- RL_CR: a CR takes an immediately following LF with it. -/
def rlCr (g : Geometry) (s : Open) : Open :=
  match fileGetbyte g s with
  | (.error _, s) => s
  | (.ok a, s) =>
      if a = lf then s
      else { s with slot := { s.slot with pos := s.slot.pos - 1 } } -- it isn't ours

/-- RL_LOOP, and what it stores; `left` is how far RL_COUNT is from RL_MAX. -/
def rlLoop (g : Geometry) : (left : Nat) → Open → List Byte × Open
  | 0, s => ([], s)
  | left + 1, s =>
      match fileGetbyte g s with
      | (.error _, s) => ([], s)
      | (.ok a, s) =>
          if a = cr then ([], rlCr g s)
          else if a = lf then ([], s)
          else
            let (rest, s) := rlLoop g left s
            (a :: rest, s)

/-- WL_LOOP, and WL_DOCR. -/
def wlLoop (g : Geometry) : List Byte → FileM Unit
  | [] => filePutbyte g cr
  | a :: rest => do
      filePutbyte g a
      wlLoop g rest

namespace Files

def dosReadline (g : Geometry) (b : Byte) (rlMax : Word) (f : Files) :
    Except Byte (List Byte) × Files :=
  match f.slotCheck b with
  | none => (.error errBaddev, f)
  | some i =>
      let (line, s) := rlLoop g rlMax.toNat (f.current i)
      (.ok line, f.put i s)

def dosWriteline (g : Geometry) (b : Byte) (line : List Byte) (f : Files) :
    Except Byte Unit × Files :=
  match f.slotCheck b with
  | none => (.error errBaddev, f)
  | some i =>
      let (result, s) := wlLoop g line (f.current i)
      (result, f.put i s)

/-- So many calls of B_READLINE. -/
def readLines (g : Geometry) (b : Byte) (rlMax : Word) : (n : Nat) → Files →
    List (Except Byte (List Byte)) × Files
  | 0, f => ([], f)
  | n + 1, f =>
      let (line, f) := f.dosReadline g b rlMax
      let (rest, f) := readLines g b rlMax n f
      (line :: rest, f)

/-- B_WRITELINE of each line, until the carry is set. -/
def writeLines (g : Geometry) (b : Byte) : List (List Byte) → Files → Except Byte Unit × Files
  | [], f => (.ok (), f)
  | line :: rest, f =>
      match f.dosWriteline g b line with
      | (.error a, f) => (.error a, f)
      | (.ok _, f) => writeLines g b rest f

end Files

/-! Reading. -/

/-- A file that is open for reading, with `rest` to come. -/
structure Left (g : Geometry) (clusters : List Word) (content : List Byte) (s : Open)
    (rest : List Byte) : Prop where
  holds : Holds g clusters content s
  reads : s.slot.Reads
  inuse : s.slot.inuse = true
  within : s.slot.pos.toNat ≤ content.length
  rest : content.drop s.slot.pos.toNat = rest

section

variable {g : Geometry} {clusters : List Word} {content rest : List Byte} {s : Open} {a : Byte}

theorem Holds.seek (holds : Holds g clusters content s) (pos : BitVec 32) :
    Holds g clusters content { s with slot := { s.slot with pos } } :=
  ⟨holds.kept, holds.quiet, holds.hint, holds.within, holds.own, holds.size, holds.room,
    holds.cache, holds.bufsec, holds.dirty, holds.buffer, holds.disk⟩

theorem Left.pos (left : Left g clusters content s rest) :
    s.slot.pos.toNat = content.length - rest.length := by
  have within := left.within
  rw [← left.rest, List.length_drop]
  omega

theorem Left.done (left : Left g clusters content s []) :
    fileGetbyte g s = (.error errEof, s) :=
  getbyte_end left.holds left.reads (List.drop_eq_nil_iff.mp left.rest)

theorem Left.getbyte (volume : Volume g) (left : Left g clusters content s (a :: rest)) :
    ∃ s', fileGetbyte g s = (.ok a, s') ∧ Left g clusters content s' rest ∧
      s'.slot.pos.toNat = s.slot.pos.toNat + 1 := by
  have here : content[s.slot.pos.toNat]? = some a := by
    rw [← List.head?_drop, left.rest]
    rfl
  obtain ⟨inside, -⟩ := List.getElem?_eq_some_iff.mp here
  obtain ⟨s', got, holds, pos, -, mode, inuse⟩ := getbyte_found volume left.holds left.reads here
  refine ⟨s', got, ⟨holds, ?_, inuse.trans left.inuse, by omega, ?_⟩, pos⟩
  · rw [Slot.Reads, mode]
    exact left.reads
  · rw [pos, ← List.drop_drop, left.rest]
    rfl

/-- The byte after a CR is taken if it is an LF, and stepped back over if it is not. -/
theorem rlCr_left (volume : Volume g) (left : Left g clusters content s rest) :
    Left g clusters content (rlCr g s) (if rest.head? = some lf then rest.tail else rest) := by
  rw [rlCr]
  cases rest with
  | nil =>
      rw [left.done]
      exact left
  | cons a rest =>
      obtain ⟨s', got, left', pos⟩ := left.getbyte volume
      rw [got, List.head?_cons, List.tail_cons]
      dsimp only
      by_cases follows : a = lf
      · rw [if_pos follows, if_pos (congrArg some follows)]
        exact left'
      · rw [if_neg follows, if_neg fun same => follows (Option.some.inj same)]
        have back : (s'.slot.pos - 1).toNat = s.slot.pos.toNat := by
          have some : (1 : BitVec 32) ≤ s'.slot.pos := by
            rw [BitVec.le_def, pos]
            exact Nat.le_add_left 1 _
          rw [BitVec.toNat_sub_of_le some, pos]
          rfl
        refine ⟨left'.holds.seek _, left'.reads, left'.inuse, ?_, ?_⟩
        · dsimp only
          rw [back]
          exact left.within
        · dsimp only
          rw [back]
          exact left.rest

/-- B_READLINE gives the first line and leaves what comes after it. -/
theorem rlLoop_left (volume : Volume g) {n : Nat} (left : Left g clusters content s rest)
    (short : (Lines.first cr lf rest).1.length < n) :
    (rlLoop g n s).1 = (Lines.first cr lf rest).1 ∧
      Left g clusters content (rlLoop g n s).2 (Lines.first cr lf rest).2 := by
  induction n generalizing s rest with
  | zero => exact absurd short (Nat.not_lt_zero _)
  | succ n ih =>
      rw [rlLoop]
      cases rest with
      | nil =>
          rw [left.done]
          exact ⟨rfl, left⟩
      | cons a rest =>
          obtain ⟨s', got, left', -⟩ := left.getbyte volume
          rw [got]
          dsimp only
          rw [Lines.first] at short ⊢
          by_cases isCr : a = cr
          · rw [if_pos isCr, if_pos isCr]
            exact ⟨rfl, rlCr_left volume left'⟩
          · rw [if_neg isCr, if_neg isCr]
            rw [if_neg isCr] at short
            by_cases isLf : a = lf
            · rw [if_pos isLf, if_pos isLf]
              exact ⟨rfl, left'⟩
            · rw [if_neg isLf, if_neg isLf]
              rw [if_neg isLf] at short
              obtain ⟨line, left''⟩ := ih left' (Nat.lt_of_succ_lt_succ short)
              exact ⟨congrArg (a :: ·) line, left''⟩

variable {f : Files} {b : Byte} {i : Fin nslots} {rlMax : Word}

theorem readline_left (volume : Volume g) (check : f.slotCheck b = some i)
    (left : Left g clusters content (f.current i) rest)
    (short : (Lines.first cr lf rest).1.length < rlMax.toNat) :
    ∃ f', f.dosReadline g b rlMax = (.ok (Lines.first cr lf rest).1, f') ∧
      f'.slotCheck b = some i ∧
      Left g clusters content (f'.current i) (Lines.first cr lf rest).2 := by
  obtain ⟨line, left'⟩ := rlLoop_left volume left short
  refine ⟨f.put i (rlLoop g rlMax.toNat (f.current i)).2, ?_, ?_, ?_⟩
  · rw [Files.dosReadline, check]
    exact Prod.ext (congrArg Except.ok line) rfl
  · exact Files.slotCheck_put check (left'.inuse.trans left.inuse.symm)
  · rw [Files.current_put]
    exact left'

/-- By induction on the lines that are read. -/
theorem readLines_left (volume : Volume g) {n : Nat} (check : f.slotCheck b = some i)
    (left : Left g clusters content (f.current i) rest)
    (short : ∀ line ∈ Lines.split cr lf rest, line.length < rlMax.toNat)
    (many : n ≤ (Lines.split cr lf rest).length) :
    (f.readLines g b rlMax n).1 = ((Lines.split cr lf rest).take n).map .ok ∧
      Left g clusters content ((f.readLines g b rlMax n).2.current i) (Lines.after cr lf n rest) := by
  induction n generalizing f rest with
  | zero => exact ⟨rfl, left⟩
  | succ n ih =>
      have some : rest ≠ [] := by
        rintro rfl
        exact Nat.not_succ_le_zero n many
      rw [Lines.split_first (by decide) some] at short many ⊢
      obtain ⟨f', line, check', left'⟩ :=
        readline_left volume check left (short _ List.mem_cons_self)
      obtain ⟨more, last⟩ := ih check' left'
        (fun line member => short line (List.mem_cons_of_mem _ member)) (Nat.le_of_succ_le_succ many)
      rw [Files.readLines, line]
      exact ⟨congrArg (_ :: ·) more, last⟩

/-! Writing. -/

/-- A file that is open for writing, at its end. -/
structure Ends (g : Geometry) (clusters : List Word) (content : List Byte) (s : Open) : Prop where
  holds : Holds g clusters content s
  writes : s.slot.Writes
  inuse : s.slot.inuse = true
  pos : s.slot.pos.toNat = content.length

theorem wlLoop_eq (line : List Byte) : wlLoop g line s =
    match puts g (line ++ [cr]) s with
    | (some a, s) => (.error a, s)
    | (none, s) => (.ok (), s) := by
  induction line generalizing s with
  | nil =>
      rw [wlLoop, List.nil_append, puts]
      rcases filePutbyte g cr s with ⟨a | _, s'⟩
      · rfl
      · rfl
  | cons b rest ih =>
      rw [wlLoop, List.cons_append, puts]
      rcases put : filePutbyte g b s with ⟨a | _, s'⟩
      · exact bind_error put
      · rw [bind_ok put, ih]

theorem writeline_ends (volume : Volume g) {line : List Byte} {f' : Files}
    (check : f.slotCheck b = some i) (ends : Ends g clusters content (f.current i))
    (ran : f.dosWriteline g b line = (.ok (), f')) :
    ∃ clusters', Ends g clusters' (content ++ (line ++ [cr])) (f'.current i) ∧
      Grown g f.vars clusters f'.vars clusters' ∧ f'.slotCheck b = some i := by
  rw [Files.dosWriteline, check] at ran
  dsimp only at ran
  rw [wlLoop_eq] at ran
  rcases put : puts g (line ++ [cr]) (f.current i) with ⟨_ | a, s'⟩
  · rw [put] at ran
    cases ran
    obtain ⟨clusters', holds, grown, pos, mode, inuse⟩ :=
      puts_appends volume ends.holds ends.writes ends.pos put
    refine ⟨clusters', ?_, grown, Files.slotCheck_put check inuse⟩
    rw [Files.current_put]
    refine ⟨holds, ?_, inuse.trans ends.inuse, pos⟩
    rw [Slot.Writes, mode]
    exact ends.writes
  · rw [put] at ran
    cases ran

theorem writeLines_ends (volume : Volume g) {lines : List (List Byte)} {f' : Files}
    (check : f.slotCheck b = some i) (ends : Ends g clusters content (f.current i))
    (ran : f.writeLines g b lines = (.ok (), f')) :
    ∃ clusters', Ends g clusters' (content ++ lines.flatMap (· ++ [cr])) (f'.current i) ∧
      Grown g f.vars clusters f'.vars clusters' := by
  induction lines generalizing f clusters content with
  | nil =>
      cases ran
      rw [List.flatMap_nil, List.append_nil]
      exact ⟨clusters, ends, .none clusters rfl⟩
  | cons line rest ih =>
      rw [Files.writeLines] at ran
      rcases written : f.dosWriteline g b line with ⟨a | _, f₁⟩
      · rw [written] at ran
        cases ran
      · rw [written] at ran
        obtain ⟨clusters₁, ends₁, grown, check₁⟩ := writeline_ends volume check ends written
        obtain ⟨clusters', ends', grown'⟩ := ih check₁ ends₁ ran
        rw [List.append_assoc] at ends'
        exact ⟨clusters', ends', grown.trans grown'⟩

end

end Pugputer.Dos

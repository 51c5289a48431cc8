import Pugputer.Srec.Writing

namespace Pugputer.Asmlink

open Srec

/-! The S-records of ASM and of LINK. -/

/-- A piece of the output, one record's: where it is, and its bytes. -/
abbrev Piece := Word × List Byte

/-- ASM's, while it writes them. -/
structure SrecOut where
  file : List Byte := []
  SRECBUF : List Byte := []
  SRECADDR : Word := 0#16
  SRLASTAD : Word := 0#16
  SRECLAST : Bool := false
  S0DONE : Bool := false
  SRECCNT : Word := 0#16

def line (type : Char) (address : Word) (data : List Byte) : List Byte :=
  srecord (chr type) address data ++ [chr '\r', chr '\n']

def srechdr : List Byte := "[asm 1.0] ".toList.map chr

namespace SrecOut

def srecs0 (SRCNAME : List Byte) (s : SrecOut) : SrecOut :=
  { s with S0DONE := true, file := s.file ++ line '0' 0#16 (srechdr ++ SRCNAME.take 37) }

def srecflush (s : SrecOut) : SrecOut :=
  if s.SRECBUF = [] then s
  else
    { s with
      file := s.file ++ line '1' s.SRECADDR s.SRECBUF
      SRECBUF := []
      SRECCNT := s.SRECCNT + 1#16 }

/-- A byte at PC. -/
def srecbyte (SRCNAME : List Byte) (s : SrecOut) (b : Word × Byte) : SrecOut :=
  let PC := b.1
  let s :=
    if s.SRECLAST ∧ s.SRLASTAD + 1#16 = PC ∧ PC &&& 15#16 ≠ 0#16 then s
    else { (if s.S0DONE then s else s.srecs0 SRCNAME).srecflush with SRECADDR := PC }
  { s with SRECBUF := s.SRECBUF ++ [b.2], SRLASTAD := PC, SRECLAST := true }

def srecend (EXECADDR : Word) (s : SrecOut) : SrecOut :=
  let s := s.srecflush
  if s.SRECCNT = 0#16 then s
  else { s with file := s.file ++ line '5' s.SRECCNT [] ++ line '9' EXECADDR [] }

end SrecOut

/-- The file ASM writes for the bytes of an assembly. -/
def asmFile (SRCNAME : List Byte) (EXECADDR : Word) (bytes : List (Word × Byte)) : List Byte :=
  ((bytes.foldl (SrecOut.srecbyte SRCNAME) {}).srecend EXECADDR).file

/-- LINK's. -/
structure LinkOut where
  file : List Byte := []
  SRBUF : List Byte := []
  SRADDR : Word := 0#16

structure Section where
  bss : Bool
  load : Word
  bytes : List Byte

namespace LinkOut

def srecflush (s : LinkOut) : LinkOut :=
  if s.SRBUF = [] then s
  else
    { file := s.file ++ line '1' s.SRADDR s.SRBUF
      SRBUF := []
      SRADDR := BitVec.ofNat 16 s.SRBUF.length + s.SRADDR }

def srecbyte (s : LinkOut) (A : Byte) : LinkOut :=
  let s := { s with SRBUF := s.SRBUF ++ [A] }
  if s.SRBUF.length < 16 then s else s.srecflush

def srecsect (s : LinkOut) (x : Section) : LinkOut :=
  (x.bytes.foldl srecbyte { s with SRADDR := x.load, SRBUF := [] }).srecflush

def sect (s : LinkOut) (x : Section) : LinkOut :=
  if x.bss ∨ x.bytes = [] then s else s.srecsect x

end LinkOut

def linkFile (EXECADDR : Word) (sections : List Section) : List Byte :=
  (sections.foldl LinkOut.sect {}).file ++ line '9' EXECADDR []

/-! The pieces, by the bytes alone. -/

/-- Runs of bytes, cut at each jump and at each 16 bytes. -/
def runs (a : Word) (data : List Byte) (last : Word) : List (Word × Byte) → List Piece
  | [] => [(a, data)]
  | b :: rest =>
      if last + 1#16 = b.1 ∧ b.1 &&& 15#16 ≠ 0#16 then runs a (data ++ [b.2]) b.1 rest
      else (a, data) :: runs b.1 [b.2] b.1 rest

def asmPieces : List (Word × Byte) → List Piece
  | [] => []
  | b :: rest => runs b.1 [b.2] b.1 rest

/-- Sixteen bytes at a time. -/
def sixteens (a : Word) (data : List Byte) : List Byte → List Piece
  | [] => if data = [] then [] else [(a, data)]
  | b :: rest =>
      if data.length < 15 then sixteens a (data ++ [b]) rest
      else (a, data ++ [b]) :: sixteens (a + 16#16) [] rest

def linkPieces (sections : List Section) : List Piece :=
  sections.flatMap fun x => if x.bss then [] else sixteens x.load [] x.bytes

/-- The bytes a link places, each with its address. -/
def linked (sections : List Section) : List (Nat × Byte) :=
  sections.flatMap fun x =>
    if x.bss then [] else x.bytes.mapIdx fun i b => ((x.load + BitVec.ofNat 16 i).toNat, b)

/-! The writers' files are lines of the pieces. -/

def pieceLine (p : Piece) : List Byte := line '1' p.1 p.2

namespace SrecOut

variable {s : SrecOut} {SRCNAME : List Byte}

theorem run_file (e : List (Word × Byte)) (s0 : s.S0DONE = true) (begun : s.SRECLAST = true)
    (some_ : s.SRECBUF ≠ []) :
    let t := (e.foldl (srecbyte SRCNAME) s).srecflush
    let pieces := runs s.SRECADDR s.SRECBUF s.SRLASTAD e
    t.file = s.file ++ pieces.flatMap pieceLine ∧
      t.SRECCNT = s.SRECCNT + BitVec.ofNat 16 pieces.length := by
  induction e generalizing s with
  | nil =>
      dsimp only
      rw [List.foldl_nil, srecflush, if_neg some_, runs, List.flatMap_singleton]
      exact ⟨rfl, rfl⟩
  | cons b e ih =>
      dsimp only
      rw [List.foldl_cons, runs]
      by_cases joins : s.SRLASTAD + 1#16 = b.1 ∧ b.1 &&& 15#16 ≠ 0#16
      · have stepped : srecbyte SRCNAME s b =
            { s with SRECBUF := s.SRECBUF ++ [b.2], SRLASTAD := b.1, SRECLAST := true } := by
          rw [srecbyte, if_pos ⟨begun, joins⟩]
        rw [if_pos joins, stepped]
        exact ih s0 rfl (List.append_ne_nil_of_right_ne_nil _ (List.cons_ne_nil _ _))
      · have stepped : srecbyte SRCNAME s b =
            { s with
              file := s.file ++ pieceLine (s.SRECADDR, s.SRECBUF)
              SRECBUF := [b.2]
              SRECADDR := b.1
              SRLASTAD := b.1
              SRECLAST := true
              SRECCNT := s.SRECCNT + 1#16 } := by
          rw [srecbyte, if_neg fun all => joins all.2, if_pos s0, srecflush, if_neg some_]
          rfl
        rw [if_neg joins, stepped]
        obtain ⟨file, count⟩ := ih (s := { s with
              file := s.file ++ pieceLine (s.SRECADDR, s.SRECBUF)
              SRECBUF := [b.2]
              SRECADDR := b.1
              SRLASTAD := b.1
              SRECLAST := true
              SRECCNT := s.SRECCNT + 1#16 }) s0 rfl (List.cons_ne_nil _ _)
        refine ⟨?_, ?_⟩
        · rw [file, List.flatMap_cons, List.append_assoc]
        · rw [count, List.length_cons, BitVec.ofNat_add]
          dsimp only
          rw [BitVec.add_assoc, BitVec.add_comm 1#16]

end SrecOut

namespace LinkOut

theorem run_file {s : LinkOut} (bytes : List Byte) (few : s.SRBUF.length < 16) :
    ((bytes.foldl srecbyte s).srecflush).file =
      s.file ++ (sixteens s.SRADDR s.SRBUF bytes).flatMap pieceLine := by
  induction bytes generalizing s with
  | nil =>
      rw [List.foldl_nil, srecflush, sixteens]
      split
      · exact (List.append_nil _).symm
      · rw [List.flatMap_singleton]
        rfl
  | cons b bytes ih =>
      rw [List.foldl_cons, sixteens]
      by_cases more : s.SRBUF.length < 15
      · have length : (s.SRBUF ++ [b]).length < 16 := by
          rw [List.length_append, List.length_singleton]
          omega
        have stepped : srecbyte s b = { s with SRBUF := s.SRBUF ++ [b] } := by
          rw [srecbyte, if_pos length]
        rw [if_pos more, stepped]
        exact ih length
      · have length : (s.SRBUF ++ [b]).length = 16 := by
          rw [List.length_append, List.length_singleton]
          omega
        have stepped : srecbyte s b =
            ⟨s.file ++ pieceLine (s.SRADDR, s.SRBUF ++ [b]), [], s.SRADDR + 16#16⟩ := by
          rw [srecbyte, if_neg (by rw [length]; decide), srecflush,
            if_neg (List.append_ne_nil_of_right_ne_nil _ (List.cons_ne_nil _ _)), length,
            BitVec.add_comm]
          rfl
        have later := @ih ⟨s.file ++ pieceLine (s.SRADDR, s.SRBUF ++ [b]), [], s.SRADDR + 16#16⟩
          (Nat.zero_lt_succ 15)
        rw [if_neg more, stepped, later, List.flatMap_cons, List.append_assoc]

end LinkOut

theorem linkFile_eq (EXECADDR : Word) (sections : List Section) :
    linkFile EXECADDR sections = (linkPieces sections).flatMap pieceLine ++ line '9' EXECADDR [] := by
  have from_ : ∀ s : LinkOut, (sections.foldl LinkOut.sect s).file =
      s.file ++ (linkPieces sections).flatMap pieceLine := by
    induction sections with
    | nil => exact fun s => (List.append_nil _).symm
    | cons x sections ih =>
        intro s
        have split : linkPieces (x :: sections) =
            (if x.bss then [] else sixteens x.load [] x.bytes) ++ linkPieces sections := List.flatMap_cons
        rw [List.foldl_cons, ih, split, List.flatMap_append, ← List.append_assoc, LinkOut.sect]
        congr 1
        by_cases bss : x.bss = true
        · rw [if_pos (.inl bss), if_pos bss]
          exact (List.append_nil _).symm
        · by_cases empty : x.bytes = []
          · rw [if_pos (.inr empty), if_neg bss, empty]
            exact (List.append_nil _).symm
          · have ran := @LinkOut.run_file { s with SRADDR := x.load, SRBUF := [] } x.bytes
              (Nat.zero_lt_succ 15)
            rw [if_neg (by rw [not_or]; exact ⟨bss, empty⟩), if_neg bss, LinkOut.srecsect, ran]
  rw [linkFile, from_]
  rfl

/-! What the pieces are. -/

/-- A piece's bytes, each with its address. -/
def cells (p : Piece) : List (Nat × Byte) := p.2.mapIdx fun i b => (p.1.toNat + i, b)

/-- A record's worth, before the end of the address space. -/
structure Sound (p : Piece) : Prop where
  some : p.2 ≠ []
  few : p.2.length ≤ 16
  ends : p.1.toNat + p.2.length ≤ 0x10000

theorem runs_sound (e : List (Word × Byte)) {a last : Word} {data : List Byte} (some : data ≠ [])
    (next : last.toNat + 1 = a.toNat + data.length) (same : a.toNat / 16 = last.toNat / 16) :
    (∀ p ∈ runs a data last e, Sound p) ∧
      (runs a data last e).flatMap cells = cells (a, data) ++ e.map fun b => (b.1.toNat, b.2) := by
  have lastSmall := last.isLt
  have here : Sound (a, data) := by
    refine ⟨some, ?_, ?_⟩ <;> dsimp only <;> omega
  induction e generalizing a data last with
  | nil =>
      rw [runs, List.flatMap_singleton]
      exact ⟨List.forall_mem_singleton.mpr here, (List.append_nil _).symm⟩
  | cons b e ih =>
      rw [runs]
      by_cases joins : last + 1#16 = b.1 ∧ b.1 &&& 15#16 ≠ 0#16
      · rw [if_pos joins]
        have small := b.1.isLt
        have low : b.1.toNat % 16 ≠ 0 := by
          intro zero
          refine joins.2 (BitVec.eq_of_toNat_eq ?_)
          rw [BitVec.toNat_and]
          exact (Nat.and_two_pow_sub_one_eq_mod b.1.toNat 4).trans zero
        have sum : b.1.toNat = (last.toNat + 1) % 65536 := by
          rw [← joins.1, BitVec.toNat_add]
          rfl
        have length : (data ++ [b.2]).length = data.length + 1 := List.length_append
        have next' : b.1.toNat + 1 = a.toNat + (data ++ [b.2]).length := by omega
        have same' : a.toNat / 16 = b.1.toNat / 16 := by omega
        have some' : data ++ [b.2] ≠ [] := List.append_ne_nil_of_right_ne_nil _ (List.cons_ne_nil _ _)
        obtain ⟨sound, whole⟩ := ih some' next' same' small (by
          refine ⟨some', ?_, ?_⟩ <;> dsimp only <;> omega)
        refine ⟨sound, whole.trans ?_⟩
        rw [cells, cells, List.mapIdx_concat, List.append_assoc, List.map_cons]
        have place : a.toNat + data.length = b.1.toNat := by omega
        rw [place]
        rfl
      · rw [if_neg joins]
        have here' : Sound (b.1, [b.2]) :=
          ⟨List.cons_ne_nil _ _, Nat.le_of_ble_eq_true rfl, b.1.isLt⟩
        obtain ⟨sound, whole⟩ := ih (List.cons_ne_nil b.2 []) rfl rfl b.1.isLt here'
        refine ⟨List.forall_mem_cons.mpr ⟨here, sound⟩, ?_⟩
        rw [List.flatMap_cons, whole, List.map_cons]
        rfl

theorem asmPieces_sound (e : List (Word × Byte)) :
    (∀ p ∈ asmPieces e, Sound p) ∧
      (asmPieces e).flatMap cells = e.map fun b => (b.1.toNat, b.2) := by
  cases e with
  | nil => exact ⟨fun _ member => absurd member List.not_mem_nil, rfl⟩
  | cons b e =>
      obtain ⟨sound, whole⟩ := runs_sound e (List.cons_ne_nil b.2 []) rfl (a := b.1) rfl
      exact ⟨sound, whole⟩

/-- A piece's bytes, where a sum past the end starts again. -/
def wrapped (p : Piece) : List (Nat × Byte) :=
  p.2.mapIdx fun i b => ((p.1 + BitVec.ofNat 16 i).toNat, b)

theorem wrapped_append (a : Word) (front back : List Byte) :
    wrapped (a, front ++ back) = wrapped (a, front) ++
      wrapped (a + BitVec.ofNat 16 front.length, back) := by
  have shift : (fun i (b : Byte) => ((a + BitVec.ofNat 16 (i + front.length)).toNat, b)) =
      fun i b => ((a + BitVec.ofNat 16 front.length + BitVec.ofNat 16 i).toNat, b) := by
    funext i b
    rw [BitVec.ofNat_add, BitVec.add_comm (BitVec.ofNat 16 i), BitVec.add_assoc]
  rw [wrapped, wrapped, wrapped, List.mapIdx_append, shift]

theorem sixteens_sound (bytes : List Byte) {a : Word} {data : List Byte} (few : data.length < 16) :
    (∀ p ∈ sixteens a data bytes, p.2 ≠ [] ∧ p.2.length ≤ 16) ∧
      (sixteens a data bytes).flatMap wrapped = wrapped (a, data ++ bytes) := by
  induction bytes generalizing a data with
  | nil =>
      rw [sixteens, List.append_nil]
      by_cases empty : data = []
      · rw [if_pos empty, empty]
        exact ⟨fun _ member => absurd member List.not_mem_nil, rfl⟩
      · rw [if_neg empty, List.flatMap_singleton]
        exact ⟨List.forall_mem_singleton.mpr ⟨empty, Nat.le_of_lt few⟩, rfl⟩
  | cons b bytes ih =>
      rw [sixteens]
      have length : (data ++ [b]).length = data.length + 1 := List.length_append
      by_cases more : data.length < 15
      · rw [if_pos more]
        obtain ⟨sound, whole⟩ := @ih a (data ++ [b]) (by omega)
        rw [List.append_assoc] at whole
        exact ⟨sound, whole⟩
      · rw [if_neg more]
        obtain ⟨sound, whole⟩ := @ih (a + 16#16) [] (Nat.zero_lt_succ 15)
        refine ⟨List.forall_mem_cons.mpr ⟨⟨List.append_ne_nil_of_right_ne_nil _ (List.cons_ne_nil _ _),
          by dsimp only; omega⟩, sound⟩, ?_⟩
        have split : data ++ b :: bytes = (data ++ [b]) ++ bytes := by
          rw [List.append_assoc]
          rfl
        have sixteen : BitVec.ofNat 16 (data ++ [b]).length = 16#16 := by
          rw [length, show data.length + 1 = 16 by omega]
        have parts := wrapped_append a (data ++ [b]) bytes
        rw [sixteen] at parts
        rw [List.flatMap_cons, whole, split, parts, List.nil_append]

theorem linkPieces_sound (sections : List Section) :
    (∀ p ∈ linkPieces sections, p.2 ≠ [] ∧ p.2.length ≤ 16) ∧
      (linkPieces sections).flatMap wrapped = linked sections := by
  refine ⟨fun p member => ?_, ?_⟩
  · obtain ⟨x, -, inside⟩ := List.mem_flatMap.mp member
    split at inside
    · exact absurd inside List.not_mem_nil
    · exact (@sixteens_sound x.bytes x.load [] (Nat.zero_lt_succ 15)).1 p inside
  · rw [linkPieces, List.flatMap_assoc, linked]
    refine List.flatMap_congr fun x _ => ?_
    split
    · rfl
    · exact (@sixteens_sound x.bytes x.load [] (Nat.zero_lt_succ 15)).2

theorem wrapped_cells {p : Piece} (ends : p.1.toNat + p.2.length ≤ 0x10000) : wrapped p = cells p := by
  rw [wrapped, cells]
  refine List.ext_getElem ?_ fun i low _ => ?_
  · rw [List.length_mapIdx, List.length_mapIdx]
  · rw [List.length_mapIdx] at low
    rw [List.getElem_mapIdx, List.getElem_mapIdx, BitVec.toNat_add, BitVec.toNat_ofNat]
    congr 1
    omega

/-! The files, loaded. -/

/-- A piece's record, whose bytes are 252 at most. -/
def written (p : Piece) : Written where
  type := chr '1'
  address := p.1
  data := p.2.take 252
  two := rfl
  digit := rfl
  short := List.length_take_le 252 p.2

theorem written_data {p : Piece} (few : p.2.length ≤ 16) : (written p).data = p.2 :=
  List.take_of_length_le (by omega)

theorem written_line {p : Piece} (few : p.2.length ≤ 16) :
    (written p).line ++ [chr '\r', chr '\n'] = pieceLine p := by
  rw [Written.line, written_data few]
  rfl

theorem written_carried {p : Piece} (few : p.2.length ≤ 16) : (written p).record.carried = cells p := by
  have data : (written p).record.isData = true := rfl
  rw [Record.carried, if_pos data, (written p).address_toNat, Written.record, written_data few]
  rfl

/-- Where the BIOS lets a program's bytes be. -/
def Allowed (userRam : Word) (p : Piece) : Prop :=
  userRam.toNat ≤ p.1.toNat ∧ p.1.toNat + p.2.length ≤ exeMaxtop

instance (userRam : Word) (p : Piece) : Decidable (Allowed userRam p) :=
  inferInstanceAs (Decidable (_ ∧ _))

theorem written_allowed {userRam : Word} {p : Piece} (some : p.2 ≠ []) (few : p.2.length ≤ 16) :
    (written p).Allowed userRam ↔ Allowed userRam p := by
  have data := written_data few
  constructor
  · rintro ⟨-, -, above, below⟩
    rw [data] at below
    exact ⟨above, below⟩
  · rintro ⟨above, below⟩
    refine ⟨rfl, ?_, above, ?_⟩
    · rw [data]
      exact some
    · rw [data]
      exact below

/-- The bytes of the pieces that the BIOS is to store. -/
def kept (userRam : Word) (pieces : List Piece) : List (Nat × Byte) :=
  pieces.flatMap fun p => if Allowed userRam p then cells p else []

theorem kept_nil {userRam : Word} {pieces : List Piece} (some : ∀ p ∈ pieces, p.2 ≠ []) :
    kept userRam pieces = [] ↔ ∀ p ∈ pieces, ¬Allowed userRam p := by
  rw [kept, List.flatMap_eq_nil_iff]
  refine forall₂_congr fun p member => ?_
  by_cases allowed : Allowed userRam p
  · rw [if_pos allowed]
    refine iff_of_false (fun empty => some p member ?_) (not_not_intro allowed)
    have length := congrArg List.length empty
    rw [cells, List.length_mapIdx] at length
    exact List.length_eq_zero_iff.mp length
  · rw [if_neg allowed]
    exact iff_of_true rfl allowed

/-- A file loads back by both loaders. -/
structure LoadsBack (path : String) (program : Loader → Loader) (s : Loader)
    (placed : List (Nat × Byte)) (pieces : List Piece) (file : List Byte) : Prop where
  accepted : (loadSrecFile path (some file) 0x10000).result.ok = true
  same : ∀ mem, stored (loadSrecFile path (some file) 0x10000).writes mem = stored placed mem
  received : stores (s.loaderStart program file).log = kept s.userRam pieces

def header (SRCNAME : List Byte) : Written where
  type := chr '0'
  address := 0#16
  data := srechdr ++ SRCNAME.take 37
  two := rfl
  digit := rfl
  short := by
    have cut := List.length_take_le 37 SRCNAME
    have name : srechdr.length = 10 := rfl
    rw [List.length_append, name]
    omega

def counting (count : Word) : Written := ⟨chr '5', count, [], rfl, rfl, Nat.zero_le 252⟩

def ending (EXECADDR : Word) : Written := ⟨chr '9', EXECADDR, [], rfl, rfl, Nat.zero_le 252⟩

theorem fileOf_append (front back : List (List Byte)) :
    fileOf (front ++ back) = fileOf front ++ fileOf back := List.flatMap_append

theorem fileOf_pieces {pieces : List Piece} (few : ∀ p ∈ pieces, p.2.length ≤ 16) :
    fileOf ((pieces.map written).map Written.line) = pieces.flatMap pieceLine := by
  rw [fileOf, List.flatMap_map, List.flatMap_map]
  exact List.flatMap_congr fun p member => written_line (few p member)

theorem asmFile_lines (SRCNAME : List Byte) (EXECADDR : Word) (b : Word × Byte)
    (e : List (Word × Byte)) : ∃ last : List Written, (∀ w ∈ last, w.record.isData = false) ∧
      asmFile SRCNAME EXECADDR (b :: e) =
        fileOf ((header SRCNAME :: ((asmPieces (b :: e)).map written ++ last)).map Written.line) := by
  have begun : SrecOut.srecbyte SRCNAME {} b =
      { file := line '0' 0#16 (srechdr ++ SRCNAME.take 37)
        SRECBUF := [b.2]
        SRECADDR := b.1
        SRLASTAD := b.1
        SRECLAST := true
        S0DONE := true } := rfl
  obtain ⟨file, count⟩ := @SrecOut.run_file (SrecOut.srecbyte SRCNAME {} b) SRCNAME e rfl rfl
    (List.cons_ne_nil _ _)
  have few : ∀ p ∈ asmPieces (b :: e), p.2.length ≤ 16 :=
    fun p member => ((asmPieces_sound (b :: e)).1 p member).few
  have first : fileOf ([header SRCNAME].map Written.line) =
      line '0' 0#16 (srechdr ++ SRCNAME.take 37) := List.append_nil _
  have front : ((e.foldl (SrecOut.srecbyte SRCNAME) (SrecOut.srecbyte SRCNAME {} b)).srecflush).file =
      fileOf ((header SRCNAME :: (asmPieces (b :: e)).map written).map Written.line) := by
    rw [file, begun]
    refine Eq.symm ?_
    rw [← List.singleton_append, List.map_append, fileOf_append, first, fileOf_pieces few]
    rfl
  rw [asmFile, List.foldl_cons, SrecOut.srecend]
  generalize (e.foldl (SrecOut.srecbyte SRCNAME) (SrecOut.srecbyte SRCNAME {} b)).srecflush = t at *
  by_cases none : t.SRECCNT = 0#16
  · refine ⟨[], fun _ member => absurd member List.not_mem_nil, ?_⟩
    rw [if_pos none, List.append_nil, front]
  · refine ⟨[counting t.SRECCNT, ending EXECADDR], ?_, ?_⟩
    · exact List.forall_mem_cons.mpr ⟨rfl, List.forall_mem_singleton.mpr rfl⟩
    · rw [if_neg none, front, ← List.cons_append, List.map_append, fileOf_append, List.append_assoc]
      rfl

theorem carried_nil {ws : List Written} (none : ∀ w ∈ ws, w.record.isData = false) :
    ws.flatMap (·.record.carried) = [] :=
  List.flatMap_eq_nil_iff.mpr fun w member => by
    rw [Record.carried, none w member, if_neg Bool.false_ne_true]

theorem carried_pieces {pieces : List Piece} (few : ∀ p ∈ pieces, p.2.length ≤ 16) :
    (pieces.map written).flatMap (·.record.carried) = pieces.flatMap cells := by
  rw [List.flatMap_map]
  exact List.flatMap_congr fun p member => written_carried (few p member)

/-- What the host makes of pieces between records without data. -/
theorem pieces_load (path : String) {front last : List Written} {pieces : List Piece}
    (few : ∀ p ∈ pieces, p.2.length ≤ 16) (none : ∀ w ∈ front ++ last, w.record.isData = false) :
    let run := loadSrecFile path
      (some (fileOf ((front ++ (pieces.map written ++ last)).map Written.line))) 0x10000
    (run.result.ok = true ↔ ∀ p ∈ pieces, p.1.toNat + p.2.length ≤ 0x10000) ∧
      (run.result.ok = true → ∀ mem, stored run.writes mem = stored (pieces.flatMap cells) mem) := by
  obtain ⟨noFront, noLast⟩ := List.forall_mem_append.mp none
  obtain ⟨ok, same⟩ := written_loads path (front ++ (pieces.map written ++ last))
  refine ⟨ok.trans ⟨fun every p member => ?_, fun every w member data => ?_⟩, fun done mem => ?_⟩
  · have ends := every (written p) (List.mem_append_right _
      (List.mem_append_left _ (List.mem_map_of_mem member))) rfl
    rw [written_data (few p member)] at ends
    exact ends
  · rcases List.mem_append.mp member with inFront | later
    · rw [noFront w inFront] at data
      cases data
    · rcases List.mem_append.mp later with inside | inLast
      · obtain ⟨p, piece, rfl⟩ := List.mem_map.mp inside
        rw [written_data (few p piece)]
        exact every p piece
      · rw [noLast w inLast] at data
        cases data
  · rw [same done mem, List.flatMap_append, List.flatMap_append, carried_nil noFront,
      carried_nil noLast, carried_pieces few, List.append_nil, List.nil_append]

theorem received_nil (program : Loader → Loader) (s : Loader) :
    stores (s.loaderStart program []).log = [] := by
  rw [Loader.loaderStart, (quiet_say _ s).stores_bind, (Loader.quiet_endparse _).stores_bind]
  rfl

theorem asm_received (program : Loader → Loader) (s : Loader) (SRCNAME : List Byte)
    (EXECADDR : Word) (e : List (Word × Byte)) :
    stores (s.loaderStart program (asmFile SRCNAME EXECADDR e)).log = [] := by
  cases e with
  | nil => exact received_nil program s
  | cons b e =>
      have s0 : (header SRCNAME).type ≠ chr '1' := by
        change chr '0' ≠ _
        decide
      obtain ⟨last, -, file⟩ := asmFile_lines SRCNAME EXECADDR b e
      rw [file, written_received program s _ _ fun s1 => absurd s1 s0,
        if_neg fun allowed => s0 allowed.s1]

theorem asm_loads (path : String) (SRCNAME : List Byte) (EXECADDR : Word)
    (e : List (Word × Byte)) :
    (loadSrecFile path (some (asmFile SRCNAME EXECADDR e)) 0x10000).result.ok = true ∧ ∀ mem,
      stored (loadSrecFile path (some (asmFile SRCNAME EXECADDR e)) 0x10000).writes mem =
        stored (e.map fun b => (b.1.toNat, b.2)) mem := by
  obtain ⟨sound, whole⟩ := asmPieces_sound e
  cases e with
  | nil =>
      obtain ⟨ok, same⟩ := written_loads path []
      have done := ok.mpr fun _ member => absurd member List.not_mem_nil
      exact ⟨done, same done⟩
  | cons b e =>
      obtain ⟨last, none, file⟩ := asmFile_lines SRCNAME EXECADDR b e
      obtain ⟨ok, same⟩ := @pieces_load path [header SRCNAME] last (asmPieces (b :: e))
        (fun p member => (sound p member).few) (List.forall_mem_append.mpr
          ⟨List.forall_mem_singleton.mpr rfl, none⟩)
      rw [List.singleton_append, ← file, whole] at same
      rw [List.singleton_append, ← file] at ok
      have done := ok.mpr fun p member => (sound p member).ends
      exact ⟨done, same done⟩

theorem link_received (program : Loader → Loader) (s : Loader) (EXECADDR : Word)
    (sections : List Section) :
    stores (s.loaderStart program (linkFile EXECADDR sections)).log =
      kept s.userRam ((linkPieces sections).take 1) := by
  have sound := (linkPieces_sound sections).1
  have few : ∀ p ∈ linkPieces sections, p.2.length ≤ 16 := fun p member => (sound p member).2
  have file : linkFile EXECADDR sections =
      fileOf (((linkPieces sections).map written ++ [ending EXECADDR]).map Written.line) := by
    rw [linkFile_eq, List.map_append, fileOf_append, fileOf_pieces few]
    exact congrArg (_ ++ ·) (List.append_nil _).symm
  rw [file]
  generalize linkPieces sections = pieces at *
  cases pieces with
  | nil =>
      have s9 : (ending EXECADDR).type ≠ chr '1' := by
        change chr '9' ≠ _
        decide
      exact (written_received program s _ [] fun s1 => absurd s1 s9).trans
        (if_neg fun allowed => s9 allowed.s1)
  | cons p pieces =>
      obtain ⟨some_, length⟩ := sound p List.mem_cons_self
      have data := written_data length
      have received := written_received program s (written p)
        (pieces.map written ++ [ending EXECADDR]) fun _ => by
          rw [data]
          omega
      rw [List.map_cons, List.cons_append, received, written_carried length, kept,
        List.take_succ_cons, List.take_zero, List.flatMap_singleton]
      exact if_congr (written_allowed some_ length) rfl rfl

theorem link_loads (path : String) (EXECADDR : Word) (sections : List Section) :
    let run := loadSrecFile path (some (linkFile EXECADDR sections)) 0x10000
    (run.result.ok = true ↔ ∀ p ∈ linkPieces sections, p.1.toNat + p.2.length ≤ 0x10000) ∧
      (run.result.ok = true → ∀ mem, stored run.writes mem = stored (linked sections) mem) := by
  obtain ⟨sound, whole⟩ := linkPieces_sound sections
  have few : ∀ p ∈ linkPieces sections, p.2.length ≤ 16 := fun p member => (sound p member).2
  have file : linkFile EXECADDR sections =
      fileOf (([] ++ ((linkPieces sections).map written ++ [ending EXECADDR])).map Written.line) := by
    rw [linkFile_eq, List.nil_append, List.map_append, fileOf_append, fileOf_pieces few]
    exact congrArg (_ ++ ·) (List.append_nil _).symm
  obtain ⟨ok, same⟩ := @pieces_load path [] [ending EXECADDR] (linkPieces sections) few
    (List.forall_mem_singleton.mpr rfl)
  rw [← file] at ok same
  refine ⟨ok, fun done mem => ?_⟩
  have flat : (linkPieces sections).flatMap cells = linked sections := by
    rw [← whole]
    exact List.flatMap_congr fun p member => (wrapped_cells (ok.mp done p member)).symm
  rw [same done mem, flat]

/-- LINK's records may pass the end of the memory, and the BIOS stores none but a file's first. -/
theorem srecords_load_back (path : String) (program : Loader → Loader) (s : Loader)
    (SRCNAME : List Byte) (EXECADDR : Word) :
    (∀ e : List (Word × Byte),
      LoadsBack path program s (e.map fun b => (b.1.toNat, b.2)) (asmPieces e)
          (asmFile SRCNAME EXECADDR e) ↔
        ∀ p ∈ asmPieces e, ¬Allowed s.userRam p) ∧
    ∀ sections : List Section,
      LoadsBack path program s (linked sections) (linkPieces sections)
          (linkFile EXECADDR sections) ↔
        (∀ p ∈ linkPieces sections, p.1.toNat + p.2.length ≤ 0x10000) ∧
          ∀ p ∈ (linkPieces sections).tail, ¬Allowed s.userRam p := by
  constructor
  · intro e
    have filled : ∀ p ∈ asmPieces e, p.2 ≠ [] :=
      fun p member => ((asmPieces_sound e).1 p member).some
    have received := asm_received program s SRCNAME EXECADDR e
    constructor
    · rintro ⟨-, -, same⟩
      exact (kept_nil filled).mp (same.symm.trans received)
    · intro outside
      obtain ⟨accepted, same⟩ := asm_loads path SRCNAME EXECADDR e
      exact ⟨accepted, same, received.trans ((kept_nil filled).mpr outside).symm⟩
  · intro sections
    obtain ⟨ok, same⟩ := link_loads path EXECADDR sections
    have sound := (linkPieces_sound sections).1
    have received := link_received program s EXECADDR sections
    have first : kept s.userRam (linkPieces sections) =
        kept s.userRam ((linkPieces sections).take 1) ++
          kept s.userRam (linkPieces sections).tail := by
      rw [kept, kept, kept, ← List.flatMap_append, ← List.drop_one, List.take_append_drop]
    have rest := @kept_nil s.userRam (linkPieces sections).tail
      fun p member => (sound p (List.mem_of_mem_tail member)).1
    constructor
    · rintro ⟨accepted, -, stored_⟩
      rw [received, first, List.self_eq_append_right] at stored_
      exact ⟨ok.mp accepted, rest.mp stored_⟩
    · rintro ⟨ends, outside⟩
      have accepted := ok.mpr ends
      refine ⟨accepted, same accepted, ?_⟩
      rw [received, first, rest.mpr outside, List.append_nil]

/-- One byte at $2000 from ASM, and one section of 16 bytes at $FFF8 from LINK. -/
theorem srecords_lost :
    ¬LoadsBack "A.S19" id Loader.bios [(0x2000, 0x12#8)] (asmPieces [(0x2000#16, 0x12#8)])
        (asmFile [] 0x2000#16 [(0x2000#16, 0x12#8)]) ∧
    ¬LoadsBack "L.S19" id Loader.bios (linked [⟨false, 0xFFF8#16, List.replicate 16 0#8⟩])
        (linkPieces [⟨false, 0xFFF8#16, List.replicate 16 0#8⟩])
        (linkFile 0xFFF8#16 [⟨false, 0xFFF8#16, List.replicate 16 0#8⟩]) := by
  constructor
  · rintro ⟨-, -, same⟩
    rw [asm_received] at same
    exact absurd same (by decide)
  · rintro ⟨accepted, -, -⟩
    have ends := (link_loads _ _ _).1.mp accepted (0xFFF8#16, List.replicate 16 0#8)
      List.mem_cons_self
    exact absurd ends (by decide)

end Pugputer.Asmlink

import Pugputer.Linker.Placing

namespace Pugputer.Linker

/-! The relocations. -/

open Asmlink (MUL32 DIV32 NEG32)

def flag (b : Bool) : BitVec 32 := if b then 1#32 else 0#32

/-- APPLY: MA op MB, by lwlink's operators. -/
def apply (B : Byte) (MA MB : BitVec 32) : Option (BitVec 32) :=
  if B = 1#8 then some (MA + MB)
  else if B = 2#8 then some (MA - MB)
  else if B = 3#8 then some (MUL32 MA MB)
  else if B = 4#8 ∨ B = 6#8 then if MB = 0#32 then none else some (DIV32 MA MB).1
  else if B = 5#8 then if MB = 0#32 then none else some (DIV32 MA MB).2
  else if B = 7#8 then some (MA &&& MB)
  else if B = 8#8 then some (MA ||| MB)
  else if B = 9#8 then some (MA ^^^ MB)
  else if B = 10#8 then some (flag (MA ≠ 0#32) &&& flag (MB ≠ 0#32))
  else if B = 11#8 then some (flag (MA ≠ 0#32) ||| flag (MB ≠ 0#32))
  else none

/-- EPUSH4; the stack's top is its head. -/
def epush (ESTACK : List (BitVec 32)) (v : BitVec 32) : Option (List (BitVec 32)) :=
  if ESTACK.length < ESTKMAX then some (v :: ESTACK) else none

/-- ER_OP. -/
def operate (B : Byte) : List (BitVec 32) → Option (List (BitVec 32))
  | [] => none
  | b :: rest =>
      if B = 12#8 then some (NEG32 b :: rest)
      else if B = 13#8 then some (~~~b :: rest)
      else
        match rest with
        | [] => none
        | a :: rest => (apply B a b).map (· :: rest)

variable {n : Nat} (sect : Fin n → Sect)

def evalTerm (i : Fin n) (ESTACK : List (BitVec 32)) (s : Links n) :
    Term → Option (List (BitVec 32)) × Links n
  | .int v => (epush ESTACK (v.signExtend 32), s)
  | .base => (epush ESTACK ((s.load i).setWidth 32), s)
  | .ext name =>
      let found := findext sect false (sect i).file name s
      (found.1.bind fun v => epush ESTACK (v.setWidth 32), found.2)
  | .loc name =>
      let found := if name = [] then some (s.load i) else findlocal sect i name s
      (found.bind fun v => epush ESTACK (v.setWidth 32), s)
  | .op B => (operate B ESTACK, s)

/-- EVALREL: a value if the expression comes to a single number. -/
def evalrel (i : Fin n) : List Term → (ESTACK : List (BitVec 32)) → Links n →
    Option (BitVec 16) × Links n
  | [], [v], s => (some (v.setWidth 16), s)
  | [], _, s => (none, s)
  | t :: ts, ESTACK, s =>
      match evalTerm sect i ESTACK s t with
      | (none, s) => (none, s)
      | (some ESTACK, s) => evalrel i ts ESTACK s

/-- PATCHB: outside the chunks, nothing; but the last chunk is looked on as a full one. -/
def patchb (A : Byte) : (POFF : Nat) → List (List Byte) → Except Fault (List (List Byte))
  | _, [] => .ok []
  | POFF, c :: cs =>
      if POFF < CHUNKSZ then if POFF < c.length then .ok (c.set POFF A :: cs) else .error .stray
      else (patchb A (POFF - CHUNKSZ) cs).map (c :: ·)

def patch (r : Reloc) (v : BitVec 16) (code : List (List Byte)) : Except Fault (List (List Byte)) :=
  let low := v.extractLsb' 0 8
  if r.flags = 1#8 then patchb low r.off.toNat code
  else (patchb (v.extractLsb' 8 8) r.off.toNat code).bind (patchb low (r.off + 1#16).toNat)

/-- RL_REL: the value goes into the bytes; there is an error if there is none. -/
def relocOne (i : Fin n) (s : Links n) (r : Reloc) : Except Fault (Links n) :=
  match evalrel sect i r.expr [] s with
  | (none, s) => .ok { s with SYMERR := true }
  | (some v, s) =>
      (patch r v (s.code i)).map fun code => { s with code := Function.update s.code i code }

/-- The relocations of a section. -/
def relocSect (i : Fin n) : List Reloc → Links n → Except Fault (Links n)
  | [], s => .ok s
  | r :: rs, s => (relocOne sect i s r).bind (relocSect i rs)

/-- RELOCATE, from the section that is `k`-th on; there may be more when it comes to the end. -/
def relocate : (fuel k : Nat) → Links n → Except Fault (Links n)
  | 0, _, _ => .error .spent
  | fuel + 1, k, s =>
      match s.placed[k]? with
      | none => .ok s
      | some i => (relocSect sect i (sect i).relocs s).bind (relocate fuel (k + 1))

end Pugputer.Linker

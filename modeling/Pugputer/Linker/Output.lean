import Pugputer.Asmlink.Srecords
import Pugputer.Linker.Relocating

namespace Pugputer.Linker

/-! The output. -/

def EXE_MAGIC : BitVec 16 := 0x5058#16

/-- SECTBYTES: each of CNT bytes in turn. -/
def sectbytes : (CNT : Nat) → List (List Byte) → List Byte
  | _, [] => []
  | CNT, c :: cs =>
      if CNT = 0 then [] else c.take (min CNT CHUNKSZ) ++ sectbytes (CNT - CHUNKSZ) cs

variable {n : Nat} (sect : Fin n → Sect)

/-- OU_SECT leaves out bss sections and empty ones. -/
def Sect.blank (x : Sect) : Bool := x.bss || x.size = 0#16

def bytesOf (s : Links n) (i : Fin n) : List Byte := sectbytes (sect i).size.toNat (s.code i)

def rawsects (s : Links n) : List Byte :=
  s.placed.flatMap fun i => if (sect i).blank then [] else bytesOf sect s i

def srecsects (s : Links n) : List Asmlink.Section :=
  s.placed.map fun i => { bss := (sect i).blank, load := s.load i, bytes := bytesOf sect s i }

/-- FIRSTOUT: the first output byte's address. -/
def firstout (s : Links n) : BitVec 16 :=
  match s.placed.find? fun i => !(sect i).blank with
  | some i => s.load i
  | none => 0#16

def sputw (D : BitVec 16) : List Byte := [hiByte D, loByte D]

/-- The program header of a .COM file. -/
def header (script : Script) (s : Links n) : List Byte :=
  let PVAL := firstout sect s
  let start := if script.EXECSYM.isSome then s.EXECADDR
    else if s.EXECADDR ≠ 0#16 then s.EXECADDR else PVAL
  sputw EXE_MAGIC ++ sputw PVAL ++ sputw start ++ sputw 0#16

def output (script : Script) (s : Links n) : List Byte :=
  match script.FORMAT with
  | .raw => rawsects sect s
  | .com => header sect script s ++ rawsects sect s
  | .srec => Asmlink.linkFile s.EXECADDR (srecsects sect s)

/-- LINK, once the files are read: the output is not written when there is an error. -/
def link (script : Script) (fuel : Nat) : Except Fault (Links n × Option (List Byte)) :=
  let s := preconst sect (.start sect script.EXECADDR)
  let s := place sect script.slines s
  (gensyms sect script s).bind fun s =>
    (relocate sect fuel 0 (entry sect script s)).map fun s =>
      (s, if s.SYMERR then none else some (output sect script s))

end Pugputer.Linker

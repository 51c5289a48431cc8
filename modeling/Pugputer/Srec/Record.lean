import Mathlib.Data.List.DropRight
import Mathlib.Tactic.Ring
import Pugputer.Basic

namespace Pugputer.Srec

/-! The lines of a Motorola S-record file, as `load_srec_file` takes them apart. -/

def chr (c : Char) : Byte := BitVec.ofNat 8 c.toNat

def hexNibble (c : Byte) : Option Nat :=
  let c := c.toNat
  if '0'.toNat ≤ c ∧ c ≤ '9'.toNat then some (c - '0'.toNat)
  else if 'A'.toNat ≤ c ∧ c ≤ 'F'.toNat then some (c - 'A'.toNat + 10)
  else if 'a'.toNat ≤ c ∧ c ≤ 'f'.toNat then some (c - 'a'.toNat + 10)
  else none

def hexByte (s : List Byte) (pos : Nat) : Option Byte :=
  if s.length ≤ pos + 1 then none
  else do
    let hi ← hexNibble (s.getD pos 0)
    let lo ← hexNibble (s.getD (pos + 1) 0)
    some (BitVec.ofNat 8 (hi <<< 4 ||| lo))

def isBlank (c : Byte) : Bool := c = chr '\r' || c = chr '\n' || c = chr ' ' || c = chr '\t'

def rstrip (s : List Byte) : List Byte := s.rdropWhile isBlank

/-- `%02X` and the like. -/
def hexUpper (width n : Nat) : String :=
  let digits := (Nat.toDigits 16 n).map Char.toUpper
  String.ofList (List.replicate (width - digits.length) '0' ++ digits)

structure Record where
  type : Byte
  address : BitVec 32
  data : List Byte
  deriving DecidableEq

/-- How many bytes of address a record of this type has. -/
def addrBytes (type : Byte) : Option Nat :=
  if type = chr '0' ∨ type = chr '1' ∨ type = chr '5' ∨ type = chr '9' then some 2
  else if type = chr '2' ∨ type = chr '6' ∨ type = chr '8' then some 3
  else if type = chr '3' ∨ type = chr '7' then some 4
  else none

def Record.isData (r : Record) : Bool :=
  r.type = chr '1' || r.type = chr '2' || r.type = chr '3'

/-- The address field, `count` more bytes of it: where it ends, its value and the sum. -/
def addressLoop (line : List Byte) : Nat → Nat → BitVec 32 → Nat → Option (Nat × BitVec 32 × Nat)
  | 0, pos, address, sum => some (pos, address, sum)
  | count + 1, pos, address, sum => do
      let b ← hexByte line pos
      addressLoop line count (pos + 2) (address <<< 8 ||| b.setWidth 32) (sum + b.toNat)

def dataLoop (line : List Byte) : Nat → Nat → Nat → Option (Nat × List Byte × Nat)
  | 0, pos, sum => some (pos, [], sum)
  | count + 1, pos, sum => do
      let b ← hexByte line pos
      let (pos, data, sum) ← dataLoop line count (pos + 2) (sum + b.toNat)
      some (pos, b :: data, sum)

def orFail (x : Option α) (msg : String) : Except String α :=
  match x with
  | some a => .ok a
  | none => .error msg

def failIf (p : Prop) [Decidable p] (msg : String) : Except String Unit :=
  if p then .error msg else .ok ()

/-- A line that is not blank. -/
def parseLine (line : List Byte) : Except String Record := do
  failIf (line.getD 0 0 ≠ chr 'S' ∧ line.getD 0 0 ≠ chr 's') "expected a line starting with 'S'"
  failIf (line.length < 4) "record too short"
  let type := line.getD 1 0
  let byteCount ← orFail (hexByte line 2) "malformed byte count field"
  let width ← orFail (addrBytes type)
    ("unknown record type 'S" ++ String.singleton (Char.ofNat type.toNat) ++ "'")
  failIf (line.length < 4 + byteCount.toNat * 2) "record shorter than its byte count declares"
  failIf (byteCount.toNat < width + 1) "byte count too small for this record type"
  let (pos, address, sum) ← orFail (addressLoop line width 4 0 byteCount.toNat)
    "malformed address field"
  let (pos, data, sum) ← orFail (dataLoop line (byteCount.toNat - width - 1) pos sum)
    "malformed data field"
  let checksum ← orFail (hexByte line pos) "malformed checksum field"
  let expectedChecksum := ~~~BitVec.ofNat 8 sum
  failIf (checksum ≠ expectedChecksum)
    ("checksum mismatch (got $" ++ hexUpper 2 checksum.toNat ++ ", expected $" ++
      hexUpper 2 expectedChecksum.toNat ++ ")")
  return ⟨type, address, data⟩

/-! What a record is. -/

/-- Text that spells bytes, two digits each. -/
inductive Spells : List Byte → List Byte → Prop
  | nil : Spells [] []
  | cons {hi lo : Byte} {h l : Nat} {bytes text : List Byte}
      (high : hexNibble hi = some h) (low : hexNibble lo = some l) (rest : Spells bytes text) :
      Spells (BitVec.ofNat 8 (16 * h + l) :: bytes) (hi :: lo :: text)

def total : List Byte → Nat
  | [] => 0
  | b :: rest => b.toNat + total rest

def appendByte (n : Nat) (b : Byte) : Nat := 256 * n + b.toNat

/-- A big-endian number. -/
def bigEndian (bytes : List Byte) : Nat := bytes.foldl appendByte 0

/-- The line is the record: what follows the checksum is not part of it. -/
structure IsRecord (line : List Byte) (r : Record) (count check : Byte)
    (address text after : List Byte) : Prop where
  starts : ∃ first, (first = chr 'S' ∨ first = chr 's') ∧ line = first :: r.type :: (text ++ after)
  spelled : Spells (count :: (address ++ r.data ++ [check])) text
  width : addrBytes r.type = some address.length
  number : bigEndian address = r.address.toNat
  counted : count.toNat = address.length + r.data.length + 1
  summed : total (count :: (address ++ r.data ++ [check])) % 256 = 255

/-- The line spells the record. -/
def Holds (line : List Byte) (r : Record) : Prop :=
  ∃ count check address text after, IsRecord line r count check address text after

end Pugputer.Srec

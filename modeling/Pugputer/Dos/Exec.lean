import Pugputer.Dos.Calls

namespace Pugputer.Dos

/-! B_EXEC: a program file is loaded where its header says, and started. -/

def errNotfound : Byte := 0x05#8
def errIsopen : Byte := 0x0A#8
def errIsdir : Byte := 0x0D#8
def errBadexe : Byte := 0x12#8
def attrDir : Byte := 0x10#8

def exeMagic : Word := 0x5058#16
def exeHdrsize : Nat := 8
def exeMaxtop : Word := 0xF000#16
def argmax : Nat := 79

/-- Where DOS has its buffers: ARGBUF, then PATHVAR, HDRBUF and the rest up to DOS_END. -/
structure Layout where
  argBuf : Nat
  hdrBuf : Nat
  dosLoad : Nat
  dosEnd : Nat
  args : dosLoad ≤ argBuf
  hdr : argBuf + (argmax + 1) ≤ hdrBuf
  rest : hdrBuf + exeHdrsize ≤ dosEnd
  ram : dosEnd < 0x10000

/-- FOUND_*: a directory entry. -/
structure Found where
  lba : Lba
  ofs : Word
  cluster : Word
  size : BitVec 32
  attr : Byte

/-- What RESOLVE_PATH and FIND_DIRENT find for the path of the call: RP_KIND, and the entry. -/
structure Lookup where
  resolvePath : Vars → Except Byte Byte × Vars
  findDirent : Vars → Except Byte Found × Vars

structure Machine where
  files : Files
  /-- DIRLBA and DIROFS of each slot. -/
  dirent : Fin nslots → Lba × Word
  mem : Word → Byte
  sp : Word
  bootSp : Word

inductive Outcome
  | returns (a : Byte)
  | starts (exEntry : Word)
  | restarts
  deriving DecidableEq

/-- BLKWRITE of a sector that is in neither FATBUF nor a slot's buffer. -/
def Vars.writeSector (v : Vars) (lba : Lba) (sector : Sector) : Bool × Vars :=
  let written := (lba, sector) :: v.written
  match v.io.headD .done with
  | .done => (false, { v with
      disk := Function.update v.disk lba sector, io := v.io.tail, written := written })
  | .failed left => (true, { v with
      disk := Function.update v.disk lba left, io := v.io.tail, written := written })

/-! The caller's memory. -/

/-- EX_ARGLOOP: the memory, and X. -/
def exArgloop : (b : Nat) → (y x : Word) → (Word → Byte) → (Word → Byte) × Word
  | 0, _, x, mem => (mem, x)
  | b + 1, y, x, mem =>
      if mem y = 0 then (mem, x) else exArgloop b (y + 1) (x + 1) (Function.update mem x (mem y))

def exArgs (l : Layout) (y : Word) (mem : Word → Byte) : Word → Byte :=
  let x := BitVec.ofNat 16 l.argBuf
  let (mem, x) := if y = 0 then (mem, x) else exArgloop argmax y x mem
  Function.update mem x 0

/-- TFM of a sector's bytes, one after the other. -/
def store : (a : Word) → List Byte → (Word → Byte) → Word → Byte
  | _, [], mem => mem
  | a, b :: rest, mem => store (a + 1) rest (Function.update mem a b)

/-- What B_ARGS gives: the string at ARGBUF. -/
def dosArgs (l : Layout) (mem : Word → Byte) : List Byte :=
  ((List.range (argmax + 1)).map fun i => mem (BitVec.ofNat 16 (l.argBuf + i))).takeWhile (· ≠ 0)

/-- The command tail the caller passes. -/
def tail (mem : Word → Byte) (y : Word) : List Byte :=
  if y = 0 then []
  else ((List.range argmax).map fun i => mem (y + BitVec.ofNat 16 i)).takeWhile (· ≠ 0)

namespace Machine

/-! Opening and closing. -/

def onVars (vars : Vars) (m : Machine) : Machine := { m with files := { m.files with vars } }

/-- OPEN_FINDSLOT. -/
def openFindslot (m : Machine) : Option (Fin nslots) :=
  (List.finRange nslots).find? fun i => !(m.files.slots i).inuse

def checkNotOpen (m : Machine) (found : Found) : Bool :=
  (List.finRange nslots).all fun i =>
    !((m.files.slots i).inuse && m.dirent i == (found.lba, found.ofs))

/-- OPEN_INIT with FOPEN_READ. -/
def openInit (m : Machine) (i : Fin nslots) (found : Found) : Machine :=
  let slot := { m.files.slots i with
    inuse := true
    mode := fopenRead
    startclus := found.cluster
    size := found.size
    pos := 0
    bufsec := 0xFF#8 ++ (m.files.slots i).bufsec.setWidth 16
    dirty := false
    cacheidx := 0
    cacheclus := 0 }
  { m with
    files := { m.files with slots := Function.update m.files.slots i slot }
    dirent := Function.update m.dirent i (found.lba, found.ofs) }

/-- DOS_OPEN with FOPEN_READ. -/
def dosOpen (l : Lookup) (m : Machine) : Except Byte (Fin nslots) × Machine :=
  match l.resolvePath m.files.vars with
  | (.error a, vars) => (.error a, m.onVars vars)
  | (.ok rpKind, vars) =>
      let m := m.onVars vars
      if rpKind ≠ 1 then (.error errIsdir, m)
      else
        match m.openFindslot with
        | none => (.error errNoslot, m)
        | some i =>
            match l.findDirent m.files.vars with
            | (.error a, vars) => (.error a, m.onVars vars)
            | (.ok found, vars) =>
                let m := m.onVars vars
                if found.attr &&& attrDir ≠ 0 then (.error errIsdir, m)
                else if m.checkNotOpen found then (.ok i, m.openInit i found)
                else (.error errIsopen, m)

/-- A file's entry in its directory's sector, with its first cluster and its size. -/
def direntSector (slot : Slot) (ofs : Nat) (sector : Sector) : Sector := fun i =>
  if i = ofs + 26 then loByte slot.startclus
  else if i = ofs + 27 then hiByte slot.startclus
  else if i = ofs + 28 then slot.size.extractLsb' 0 8
  else if i = ofs + 29 then slot.size.extractLsb' 8 8
  else if i = ofs + 30 then slot.size.extractLsb' 16 8
  else if i = ofs + 31 then slot.size.extractLsb' 24 8
  else sector i

/-- SYNC_SLOT: the first error, if there is one. -/
def syncSlot (g : Geometry) (i : Fin nslots) (m : Machine) : Option Byte × Machine :=
  let (flushed, s) := flushSlot g (m.files.current i)
  let syStatus := match flushed with | .error a => some a | .ok _ => none
  let m := { m with files := m.files.put i s }
  match m.files.vars.fatCommit g with
  | (.error _, vars) => (some errIoerr, m.onVars vars)
  | (.ok _, vars) =>
      let (lba, ofs) := m.dirent i
      match vars.io.headD .done with
      | .failed _ => (some errIoerr, m.onVars { vars with io := vars.io.tail })
      | .done =>
          let sector := direntSector s.slot ofs.toNat (vars.disk lba)
          match Vars.writeSector { vars with io := vars.io.tail } lba sector with
          | (true, vars) => (some errIoerr, m.onVars vars)
          | (false, vars) => (syStatus, m.onVars vars)

/-- DOS_CLOSE of an open slot: DC_STATUS. -/
def dosClose (g : Geometry) (i : Fin nslots) (m : Machine) : Option Byte × Machine :=
  let (dcStatus, m) := if (m.files.slots i).mode = fopenRead then (none, m) else m.syncSlot g i
  let slot := { m.files.slots i with inuse := false }
  (dcStatus, { m with
    files := { m.files with slots := Function.update m.files.slots i slot } })

/-! B_EXEC. -/

def exFail (g : Geometry) (i : Fin nslots) (exErr : Byte) (m : Machine) :
    Option (Outcome × Machine) :=
  some (.returns exErr, (m.dosClose g i).2)

/-- From LDS BOOT_SP on: the body. -/
def exBody (g : Geometry) (fuel : Nat) (i : Fin nslots) (exLoad exEntry exLen : Word)
    (m : Machine) : Option (Outcome × Machine) :=
  let m := { m with sp := m.bootSp }
  match fileRead g fuel exLen (m.files.current i) with
  | none => none
  | some (result, bytes, s) =>
      let m := { m with files := m.files.put i s, mem := store exLoad bytes m.mem }
      match result with
      | .error _ => some (.restarts, (m.dosClose g i).2)
      | .ok ioCnt =>
          if ioCnt ≠ exLen then some (.restarts, (m.dosClose g i).2)
          else some (.starts exEntry, (m.dosClose g i).2)

/-- The checks of a header's fields. -/
def exCheck (g : Geometry) (l : Layout) (fuel : Nat) (i : Fin nslots)
    (magic exLoad exEntry flags : Word) (m : Machine) : Option (Outcome × Machine) :=
  let body := (m.files.slots i).size - BitVec.ofNat 32 exeHdrsize
  let exLen : Word := body.setWidth 16
  if magic ≠ exeMagic then m.exFail g i errBadexe
  else if flags ≠ 0 then m.exFail g i errBadexe
  else if body.extractLsb' 16 16 ≠ (0 : Word) then m.exFail g i errToobig
  else if exLoad < BitVec.ofNat 16 l.dosEnd then m.exFail g i errToobig
  else if 0x10000 ≤ exLoad.toNat + exLen.toNat then m.exFail g i errToobig
  else if exeMaxtop < exLoad + exLen then m.exFail g i errToobig
  else if exEntry < exLoad then m.exFail g i errBadexe
  else if exLen ≤ exEntry - exLoad then m.exFail g i errBadexe
  else m.exBody g fuel i exLoad exEntry exLen

def exHeader (g : Geometry) (l : Layout) (fuel : Nat) (i : Fin nslots) (m : Machine) :
    Option (Outcome × Machine) :=
  let hdrBuf := BitVec.ofNat 16 l.hdrBuf
  let header (offset : Word) : Word := word (m.mem (hdrBuf + offset)) (m.mem (hdrBuf + offset + 1))
  m.exCheck g l fuel i (header 0) (header 2) (header 4) (header 6)

def dosExec (g : Geometry) (l : Layout) (find : Lookup) (fuel : Nat) (y : Word) (m : Machine) :
    Option (Outcome × Machine) :=
  let m := { m with mem := exArgs l y m.mem }
  match m.dosOpen find with
  | (.error a, m) => some (.returns a, m)
  | (.ok i, m) =>
      match fileRead g fuel (BitVec.ofNat 16 exeHdrsize) (m.files.current i) with
      | none => none
      | some (result, bytes, s) =>
          let m := { m with
            files := m.files.put i s, mem := store (BitVec.ofNat 16 l.hdrBuf) bytes m.mem }
          match result with
          | .error a => m.exFail g i a
          | .ok ioCnt =>
              if ioCnt ≠ BitVec.ofNat 16 exeHdrsize then m.exFail g i errBadexe
              else m.exHeader g l fuel i

end Machine

end Pugputer.Dos

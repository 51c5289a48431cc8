import Mathlib.Logic.Relation
import Pugputer.Dos.Calls
import Pugputer.Dos.FreeChain

namespace Pugputer.Dos

/-! Directory scans: the sector one is in, and the handle that keeps it between calls. -/

def ndirh : Byte := 4#8

/-- DS_*: which sector of a directory DOSBUF holds. -/
structure Ds where
  dir : Word
  cur : Word
  sic : Byte
  lba : Lba
  left : Word

structure Dhandle extends Ds where
  inuse : Bool
  idx : Byte

structure Scans where
  vars : Vars
  dosBuf : Sector
  ds : Ds
  dirEntIdx : Byte
  dHandles : Byte → Dhandle

namespace Scans

/-- BLKREAD into DOSBUF. -/
def blkRead (s : Scans) (lba : Lba) : Bool × Scans :=
  match s.vars.io.headD .done with
  | .done => (false, { s with
      dosBuf := s.vars.disk lba, vars := { s.vars with io := s.vars.io.tail } })
  | .failed left => (true, { s with dosBuf := left, vars := { s.vars with io := s.vars.io.tail } })

def dsLoad (s : Scans) : Except Byte Unit × Scans :=
  match s.blkRead s.ds.lba with
  | (true, s) => (.error errIoerr, s)
  | (false, s) => (.ok (), s)

def dsSetLba (g : Geometry) (s : Scans) : Scans :=
  { s with ds := { s.ds with lba := g.clusSicToLba s.ds.cur (s.ds.sic.setWidth 16) } }

def dsStart (g : Geometry) (s : Scans) (d : Word) : Except Byte Unit × Scans :=
  let ds := { s.ds with dir := d, cur := d, sic := 0 }
  if d ≠ 0 then (dsSetLba g { s with ds }).dsLoad
  else dsLoad { s with ds := { ds with lba := g.rootLba, left := g.rootDirSec } }

def dsNext (g : Geometry) (s : Scans) : Except Byte Unit × Scans :=
  if s.ds.dir = 0 then
    let left := s.ds.left - 1
    if left = 0 then (.error errEof, { s with ds := { s.ds with left } })
    else dsLoad { s with ds := { s.ds with left, lba := s.ds.lba + 1 } }
  else if s.ds.sic + 1 < g.secPerClus then
    (dsSetLba g { s with ds := { s.ds with sic := s.ds.sic + 1 } }).dsLoad
  else
    match s.vars.nextCluster g s.ds.cur with
    | (none, vars) => (.error errIoerr, { s with vars })
    | (some d, vars) =>
        if 0xFFF8 ≤ d then (.error errEof, { s with vars })
        else (dsSetLba g { s with vars, ds := { s.ds with cur := d, sic := 0 } }).dsLoad

def dhSave (s : Scans) (b : Byte) : Scans :=
  let saved := { s.dHandles b with toDs := s.ds, idx := s.dirEntIdx }
  { s with dHandles := Function.update s.dHandles b saved }

/-- DH_CHECK. -/
def dhCheck (s : Scans) (b : Byte) : Bool := b < ndirh && (s.dHandles b).inuse

/-- The 16 bytes that go to the caller. -/
def entryBytes (entry : Nat → Byte) : List Byte :=
  (List.range 11).map entry ++ [entry 11, entry 31, entry 30, entry 29, entry 28]

/-- RDR_LOOP, `none` if it is still going after `fuel` turns. -/
def rdrLoop (g : Geometry) (b : Byte) : (fuel : Nat) → Scans →
    Option (Except Byte (List Byte) × Scans)
  | 0, _ => none
  | fuel + 1, s =>
      if s.dirEntIdx < 16 then
        let x := s.dirEntIdx.toNat * 32
        if s.dosBuf x = 0 then some (.error errEof, s) -- never used, and neither is anything after
        else
          let s := { s with dirEntIdx := s.dirEntIdx + 1 }
          if s.dosBuf x = 0xE5 then rdrLoop g b fuel s -- deleted
          else if (s.dosBuf (x + 11)).getLsbD 3 then rdrLoop g b fuel s -- a volume label
          else some (.ok (entryBytes fun i => s.dosBuf (x + i)), s.dhSave b)
      else
        match s.dsNext g with
        | (.error a, s) => some (.error a, s)
        | (.ok _, s) => rdrLoop g b fuel { s with dirEntIdx := 0 }

def dosReaddir (g : Geometry) (fuel : Nat) (b : Byte) (s : Scans) :
    Option (Except Byte (List Byte) × Scans) :=
  if s.dhCheck b then
    match dsLoad { s with ds := (s.dHandles b).toDs, dirEntIdx := (s.dHandles b).idx } with
    | (.error a, s) => some (.error a, s)
    | (.ok _, s) => s.rdrLoop g b fuel
  else some (.error errBaddev, s)

/-- OD_FIND. -/
def odFind (s : Scans) : Option Byte := [0#8, 1#8, 2#8, 3#8].find? fun b => !(s.dHandles b).inuse

/-- DOS_OPENDIR, from where RESOLVE_DIR has found the directory's first cluster. -/
def dosOpendir (g : Geometry) (odClus : Word) (s : Scans) : Except Byte Byte × Scans :=
  match s.odFind with
  | none => (.error errNoslot, s)
  | some b =>
      match s.dsStart g odClus with
      | (.error a, s) => (.error a, s)
      | (.ok _, s) =>
          let opened := { s.ds with inuse := true, idx := 0 }
          (.ok b, { s with dirEntIdx := 0, dHandles := Function.update s.dHandles b opened })

def dosClosedir (b : Byte) (s : Scans) : Except Byte Unit × Scans :=
  if s.dhCheck b then
    let closed := { s.dHandles b with inuse := false }
    (.ok (), { s with dHandles := Function.update s.dHandles b closed })
  else (.error errBaddev, s)

end Scans

/-! A directory's sectors and entries. -/

/-- A chain of clusters. -/
inductive Chain (link : Word → Word) : Word → List Word → Prop
  | last {c : Word} (live : Live c) (ends : 0xFFF8 ≤ link c) : Chain link c [c]
  | more {c : Word} {rest : List Word} (live : Live c) (chain : Chain link (link c) rest) :
      Chain link c (c :: rest)

def Geometry.clusterLbas (g : Geometry) (c : Word) : List Lba :=
  (List.range g.secPerClus.toNat).map fun sic => g.clusSicToLba c (BitVec.ofNat 16 sic)

/-- The root's sectors, or those of a chain of clusters. -/
def Geometry.dirLbas (g : Geometry) (dir : Word) (clusters : List Word) : List Lba :=
  if dir = 0 then (List.range g.rootDirSec.toNat).map fun i => g.rootLba + BitVec.ofNat 32 i
  else clusters.flatMap g.clusterLbas

/-- A directory: it has sectors, none of them the FAT's. -/
structure Directory (g : Geometry) (v : Vars) (dir : Word) (clusters : List Word) : Prop where
  chain : dir ≠ 0 → Chain (v.link g) dir clusters
  nonempty : g.dirLbas dir clusters ≠ []
  apart : ∀ lba ∈ g.dirLbas dir clusters, ¬InCopies g lba

/-- The entries of sectors, in disk order. -/
def entries (disk : Lba → Sector) (lbas : List Lba) : List (Nat → Byte) :=
  lbas.flatMap fun lba => (List.range 16).map fun idx i => disk lba (idx * 32 + i)

/-- The entries up to the first that was never used that are not deleted and no volume labels, as
B_READDIR gives them. -/
def live (found : List (Nat → Byte)) : List (List Byte) :=
  ((found.takeWhile fun entry => entry 0 ≠ 0).filter fun entry =>
    entry 0 ≠ 0xE5 ∧ (entry 11).getLsbD 3 = false).map Scans.entryBytes

end Pugputer.Dos

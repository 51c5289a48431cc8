import Mathlib.Logic.Function.Basic
import Pugputer.Basic

namespace Pugputer.Tilekit

/-! TILEKIT's three layers: what is kept of them in records, and the variables the layer being
edited is worked on through. -/

/-- A layer's room. -/
def slice : Nat := 0xC000

/-- A kind of tiles: how many pixels square, how many bits a pixel. -/
structure Kind where
  tsize : Nat
  bpp : Nat
  sizes : tsize = 8 ∨ tsize = 16
  depths : bpp = 4 ∨ bpp = 8
  deriving DecidableEq

/-- TBSHOF: log2 of a tile's bytes. -/
def Kind.tbshof (k : Kind) : Nat :=
  if k.bpp = 8 then (if k.tsize = 16 then 8 else 6) else (if k.tsize = 16 then 8 else 6) - 1

structure TileSet where
  kind : Kind
  ntiles : Nat
  tile : Nat
  name : List Byte
  deriving DecidableEq

/-- The size codes of a map: 32 << the code cells, 16384 in all at most. -/
structure MapSize where
  wc : Nat
  hc : Nat
  wide : wc ≤ 3
  high : hc ≤ 3
  cells : wc + hc ≤ 4
  deriving DecidableEq

/-- LMAPBYTES. -/
def MapSize.lmapbytes (m : MapSize) : Nat := 2048 <<< (m.wc + m.hc)

/-- A layer's record: its tile set's slot, and its map. -/
structure Layer where
  set : Nat
  map : MapSize
  deriving DecidableEq

/-- What MAPCALC works out. -/
structure MapCalc where
  mapw : Nat
  maph : Nat
  mapwsh : Nat
  mapbytes : Nat
  mbase : Nat
  deriving DecidableEq

/-- A step of undo: a tile as it was, or a layer's map. -/
structure Step where
  layer : Nat
  map : Bool
  tile : Nat
  deriving DecidableEq

structure Editor where
  /-- TSRECS, by slot. -/
  sets : Nat → TileSet
  /-- LRECS. -/
  layers : Nat → Layer
  order : List Nat
  curl : Nat
  curset : Nat
  /-- TSIZE, BPP, NTILES, TILE, FILENAME. -/
  set : TileSet
  /-- MAPWC, MAPHC. -/
  map : MapSize
  tbshift : Nat
  maxt : Nat
  tbase : Nat
  place : MapCalc
  /-- The newest first. -/
  undos : List Step

/-- How many tiles of 1 << `shift` bytes fit beside a map. -/
def MapSize.fits (m : MapSize) (shift : Nat) : Nat := min ((slice - m.lmapbytes) >>> shift) 1024

namespace Editor

variable (e : Editor)

/-- The variables into the records. -/
def storerec : Editor :=
  { e with
    sets := Function.update e.sets e.curset e.set
    layers := Function.update e.layers e.curl { e.layers e.curl with map := e.map } }

/-- The variables from the records of layer CURL and its tile set's. -/
def loadrec : Editor :=
  let l := e.layers e.curl
  { e with curset := l.set, map := l.map, set := e.sets l.set, tbase := l.set * slice }

def capacity : Editor :=
  let e := e.storerec
  { e with maxt := (e.layers e.curset).map.fits e.tbshift }

def setproj : Editor := { e with tbshift := e.set.kind.tbshof }.capacity

/-- Where a layer's map of a size is. -/
def mapCalcOf (curl : Nat) (m : MapSize) : MapCalc where
  mapw := 32 <<< m.wc
  maph := 32 <<< m.hc
  mapwsh := m.wc + 5
  mapbytes := m.lmapbytes
  mbase := (curl + 1) * slice - m.lmapbytes

def mapcalc : Editor := { e with place := mapCalcOf e.curl e.map }

/-- MAPCALC, and MAPSCROLL, which stores the records. -/
def mapsetup : Editor := e.mapcalc.storerec

/-- MAPSETUP is all of it that matters here. -/
def redrawall : Editor := e.mapsetup

def fresh : Editor := { e with set := { e.set with tile := 0 }, undos := [] }

/-- Layer `b` to edit: SELLAYER, and SWITCHQ, which draws nothing. -/
def switchq (b : Nat) : Editor :=
  if b = e.curl then e else { e.storerec with curl := b }.loadrec.setproj.mapcalc

def sellayer (b : Nat) : Editor :=
  if b = e.curl then e else { e.storerec with curl := b }.loadrec.setproj.mapsetup

/-- An empty slot. -/
def emptySlot : TileSet where
  kind := ⟨8, 4, .inl rfl, .inl rfl⟩
  ntiles := 0
  tile := 0
  name := []

def newlayers : Editor :=
  { e with
    curl := 0
    curset := 0
    sets := fun _ => emptySlot
    layers := fun _ => ⟨0, e.map⟩
    order := [0, 1, 2] }.storerec

/-- TBASE is as it was. -/
def newproj : Editor :=
  { e with set := { e.set with ntiles := 1 } }.fresh.setproj.newlayers.redrawall

/-! The layers' order. -/

def layerback (curl : Nat) : List Nat → List Nat
  | a :: b :: rest =>
      if a = curl then a :: b :: rest
      else if b = curl then b :: a :: rest
      else a :: layerback curl (b :: rest)
  | short => short

def layerfwd (curl : Nat) : List Nat → List Nat
  | a :: b :: rest => if a = curl then b :: a :: rest else a :: layerfwd curl (b :: rest)
  | short => short

/-! Tiles, and the steps of undo. -/

def undosKept : Nat := 16

/-- NEWTILE and DUPTILE. -/
def addtile : Editor :=
  if e.maxt ≤ e.set.ntiles then e
  else { e with set := { e.set with ntiles := e.set.ntiles + 1, tile := e.set.ntiles } }

def seltile (d : Nat) : Editor := { e with set := { e.set with tile := d } }

/-- A tile chosen: one after the last is not. -/
def choose (d : Nat) : Editor := if e.set.ntiles ≤ d then e else e.seltile d

def push (s : Step) : Editor := { e with undos := (s :: e.undos).take undosKept }

def pushundo : Editor := e.push ⟨e.curl, false, e.set.tile⟩

def pushmapu : Editor := e.push ⟨e.curl, true, 0⟩

def undo : Editor :=
  match e.undos with
  | [] => e
  | s :: rest =>
      let e := { e with undos := rest }.sellayer s.layer
      if s.map then e else e.seltile s.tile

end Editor

end Pugputer.Tilekit

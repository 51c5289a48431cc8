import Pugputer.Tilekit.Records

namespace Pugputer.Tilekit

/-! The commands that change sizes, slots or sharing: the questions, and the files opened. DOS is
a function from a name to what can be read of the file. -/

abbrev Files := List Byte → Option (List Byte)

/-- The bytes of a 1 << A bytes tile, or of a map, in 32 bytes. -/
def units (count shift : Nat) : Nat := count <<< (shift - 5)

def MapSize.units (m : MapSize) : Nat := 64 <<< (m.wc + m.hc)

def tlsMagic : List Byte := [0x50, 0x54, 0x53, 0x31]
def mapMagic : List Byte := [0x50, 0x54, 0x4D, 0x31]

def kindOf (tsize bpp : Nat) : Option Kind :=
  if sizes : tsize = 8 ∨ tsize = 16 then
    if depths : bpp = 4 ∨ bpp = 8 then some ⟨tsize, bpp, sizes, depths⟩ else none
  else none

/-- The most tiles of a kind in a file. -/
def Kind.most (k : Kind) : Nat :=
  if k.tsize = 8 then 1024 else if k.bpp = 4 then 512 else 256

/-- The kind with 256 colors. -/
def Kind.deep (k : Kind) : Kind := ⟨k.tsize, 8, k.sizes, .inr rfl⟩

/-- A tile set's file: its kind and how many tiles, if it is one. -/
def tlsHeader (file : List Byte) : Option (Kind × Nat) :=
  if file.length < 16 ∨ file.take 4 ≠ tlsMagic then none
  else (kindOf (file.getD 4 0).toNat (file.getD 5 0).toNat).bind fun k =>
    let count := (word (file.getD 8 0) (file.getD 9 0)).toNat
    if count = 0 ∨ k.most < count then none else some (k, count)

/-- SIZECODE. -/
def sizecode (d : Nat) : Option Nat := [32, 64, 128, 256].idxOf? d

def mapSizeOf (w h : Nat) : Option MapSize :=
  (sizecode w).bind fun wc => (sizecode h).bind fun hc =>
    if ok : wc ≤ 3 ∧ hc ≤ 3 ∧ wc + hc ≤ 4 then some ⟨wc, hc, ok.1, ok.2.1, ok.2.2⟩ else none

/-- A map's file: its size, and its tile set's name. -/
def mapHeader (file : List Byte) : Option (MapSize × List Byte) :=
  if file.length < 48 ∨ file.take 4 ≠ mapMagic then none
  else (mapSizeOf (word (file.getD 4 0) (file.getD 5 0)).toNat
      (word (file.getD 6 0) (file.getD 7 0)).toNat).map fun m =>
    (m, ((file.drop 8).take 39).takeWhile (· ≠ 0))

/-- What a project's file says. -/
structure Staged where
  /-- STILES, SMAP: the names, empty if there are none. -/
  tiles : Nat → List Byte
  maps : Nat → List Byte
  /-- SORDER: three bytes. -/
  order : List Byte
  three : order.length = 3
  edit : Byte

/-- The order, if its sum is that of one. -/
def Staged.sorder (p : Staged) : List Nat :=
  if p.order.foldl (· + ·) 0 = 3 then p.order.map BitVec.toNat else [0, 1, 2]

/-- The earlier layer that names the same tile set. -/
def Staged.earlier (p : Staged) (l : Nat) : Option Nat :=
  (List.range l).find? fun b => p.tiles b = p.tiles l

/-- PSRC, NTS and NBPP, NWC and NHC. -/
structure Answers where
  psrc : Nat
  slot : psrc < 3
  kind : Kind
  map : MapSize

namespace Editor

variable (e : Editor)

/-- LR_SET of a layer's record. -/
def setslot (l slot : Nat) : Editor :=
  { e with layers := Function.update e.layers l ⟨slot, (e.layers l).map⟩ }

/-! A new set, a new map. -/

/-- DLGMAKE, the set not kept; `keep` if FILENAME is a name typed for it. -/
def dlgmake (k : Kind) (m : MapSize) (keep : Bool) : Editor :=
  { e with
    map := m
    set := { e.set with kind := k, name := if keep then e.set.name else [] } }.newproj

/-- Is slot CURL some layer's? -/
def inUse : Bool := (List.range 3).any fun l => (e.layers l).set = e.curl

/-- FITSMAP, the records being as the variables are. -/
def fitsmap (m : MapSize) : Bool :=
  let tiles := if e.inUse then
      units (e.sets e.curl).ntiles (e.sets e.curl).kind.tbshof
    else 0
  m.units + tiles ≤ slice / 32

def newmap : Editor := { e.mapsetup.capacity with undos := [] }.redrawall

/-- DLGMAKE, the set kept. -/
def dlgmakemap (m : MapSize) : Editor :=
  let old := e.map
  let e := { e with map := m }.storerec
  if e.fitsmap m then e.newmap else { e with map := old }.redrawall

/-! Files. -/

/-- True if it was all there. -/
def loadfile (name : List Byte) (file : Option (List Byte)) : Editor × Bool :=
  match file.bind tlsHeader with
  | none => (e, false)
  | some (k, count) =>
      let e := e.storerec
      if (e.layers e.curset).map.fits k.tbshof < count then (e, false)
      else
        let e := { e with set := { e.set with kind := k, ntiles := count } }.setproj.fresh
        ({ e with set := { e.set with name := name } }.redrawall,
          16 + 512 + count <<< k.tbshof ≤ (file.getD []).length)

/-- From LOADMAP1 on: the map, if there is room for it. -/
def loadmap1 (m : MapSize) : Editor :=
  let e := e.storerec
  if e.fitsmap m then { { e with map := m }.mapsetup.capacity with undos := [] } else e

def loadmap (name : List Byte) (files : Files) : Editor :=
  match (files name).bind mapHeader with
  | none => e
  | some (m, tls) =>
      if tls = e.set.name then e.loadmap1 m
      else
        let (e, ok) := e.loadfile tls (files tls)
        if ok then e.loadmap1 m else e

/-- LOADPROJ10: a layer's tile set. -/
def loadset (p : Staged) (files : Files) (l : Nat) : Editor :=
  let e := e.switchq l
  if p.tiles l = [] then e
  else match p.earlier l with
    | some b =>
        (e.setslot l (e.layers b).set).loadrec.setproj
    | none =>
        ((e.setslot l l).loadrec.loadfile (p.tiles l) (files (p.tiles l))).1

/-- LOADPROJ14: its map. -/
def loadlayer (p : Staged) (files : Files) (l : Nat) : Editor :=
  let e := e.switchq l
  let e := if p.maps l = [] then e else e.loadmap (p.maps l) files
  e.storerec.loadrec

/-- From LOADPROJ8 on. -/
def loadproj (p : Staged) (files : Files) : Editor :=
  let e := e.newproj
  let e := (List.range 3).foldl (fun e l => e.loadset p files l) e
  let e := (List.range 3).foldl (fun e l => e.loadlayer p files l) e
  ({ e with order := p.sorder }.switchq (if p.edit.toNat < 3 then p.edit.toNat else 0)).redrawall

/-! The layer questions. -/

/-- LCONV: the tile set 0 as it is, 1 made 256 colors, 2 started again. -/
def lconv (q : Answers) : Nat :=
  let s := e.sets e.curl
  if q.psrc ≠ e.curl then 0
  else if s.ntiles = 0 then 2
  else if q.kind.tsize ≠ s.kind.tsize then 2
  else if q.kind.bpp = s.kind.bpp then 0
  else if q.kind.bpp = 8 then 1
  else 2

/-- LROOM. -/
def lroom (q : Answers) : Bool :=
  let s := e.sets e.curl
  let used := q.psrc = e.curl ∨
    (List.range 3).any fun l => l ≠ e.curl ∧ (e.layers l).set = e.curl
  let tiles := if used then
      units (if s.ntiles = 0 then 1 else s.ntiles)
        (if e.lconv q = 0 then s.kind.tbshof else q.kind.tbshof)
    else 0
  q.map.units + tiles ≤ slice / 32

def newslot (k : Kind) : Editor :=
  { e with sets := Function.update e.sets e.curl ⟨k, 1, 0, []⟩ }

/-- TO256. -/
def to256 : Editor :=
  let s := e.sets e.curl
  { e with sets := Function.update e.sets e.curl { s with kind := s.kind.deep } }

/-- RESIZEMAP, if the size is another. -/
def resizemap (m : MapSize) : Editor :=
  { e with layers := Function.update e.layers e.curl ⟨(e.layers e.curl).set, m⟩ }

def ldlgdo (q : Answers) : Editor :=
  let conv := e.lconv q
  let e := e.setslot e.curl q.psrc
  let e := if conv = 1 then e.to256 else if conv = 2 then e.newslot q.kind else e
  let e := if (e.sets e.curl).ntiles = 0 ∧ q.psrc = e.curl then e.newslot q.kind else e
  { e.resizemap q.map with undos := [] }.loadrec.setproj.redrawall

/-- LDLGAPPLY; `yes` is what is answered if tiles would be lost. -/
def ldlgapply (q : Answers) (yes : Bool) : Editor :=
  let e := e.storerec
  if ¬e.lroom q then e
  else if e.lconv q = 2 ∧ (e.sets e.curl).ntiles ≠ 0 ∧ ¬yes then e
  else e.ldlgdo q

end Editor

/-- What can be done in the editor. -/
inductive Command where
  | newSet (k : Kind) (m : MapSize) (keep : Bool)
  | newMap (m : MapSize)
  | openSet (name : List Byte) (files : Files)
  | openMap (name : List Byte) (files : Files)
  | openProject (p : Staged) (files : Files)
  | questions (q : Answers) (yes : Bool)
  | addTile
  | chooseTile (d : Nat)
  | draw
  | drawMap
  | undo
  | chooseLayer (b : Nat)
  | back
  | forward

namespace Editor

def step (e : Editor) : Command → Editor
  | .newSet k m keep => e.dlgmake k m keep
  | .newMap m => e.dlgmakemap m
  | .openSet name files => (e.loadfile name (files name)).1
  | .openMap name files => e.loadmap name files
  | .openProject p files => e.loadproj p files
  | .questions q yes => e.ldlgapply q yes
  | .addTile => e.addtile
  | .chooseTile d => e.choose d
  | .draw => e.pushundo
  | .drawMap => e.pushmapu
  | .undo => e.undo
  | .chooseLayer b => if b < 3 then e.sellayer b else e
  | .back => { e with order := layerback e.curl e.order }
  | .forward => { e with order := layerfwd e.curl e.order }

/-- The variables as the program is loaded. -/
def boot : Editor where
  sets := fun _ => emptySlot
  layers := fun _ => ⟨0, ⟨0, 0, by decide, by decide, by decide⟩⟩
  order := [0, 1, 2]
  curl := 0
  curset := 0
  set := { emptySlot with ntiles := 1 }
  map := ⟨1, 1, by decide, by decide, by decide⟩
  tbshift := 5
  maxt := 1024
  tbase := 0
  place := ⟨0, 0, 0, 0, 0⟩
  undos := []

/-- START, to the first question. -/
def start : Editor := boot.newproj

end Editor

end Pugputer.Tilekit

import Pugputer.Lib.Run
import Pugputer.Tilekit.Project

namespace Pugputer.Tilekit

/-! What is reached by any commands, and what writing a tile or a cell there changes. -/

namespace Records

/-- Where a slot's tiles are in video memory. -/
def Tiles (r : Records) (s a : Nat) : Prop := s * slice ≤ a ∧ a < s * slice + (r.sets s).bytes

/-- Where a layer's map is. -/
def Map (r : Records) (l a : Nat) : Prop :=
  (l + 1) * slice - (r.maps l).lmapbytes ≤ a ∧ a < (l + 1) * slice

def Used (r : Records) (s : Nat) : Prop := ∃ l < 3, r.slot l = s

variable {r : Records} {a : Nat}

theorem rooms_apart {s s' : Nat} (first : s * slice ≤ a ∧ a < (s + 1) * slice)
    (second : s' * slice ≤ a ∧ a < (s' + 1) * slice) : s = s' := by
  change s * 0xC000 ≤ a ∧ a < (s + 1) * 0xC000 at first
  change s' * 0xC000 ≤ a ∧ a < (s' + 1) * 0xC000 at second
  omega

theorem Map.in_room {l : Nat} (inside : r.Map l a) : l * slice ≤ a ∧ a < (l + 1) * slice := by
  have small := (r.maps l).lmapbytes_le
  obtain ⟨low, high⟩ := inside
  refine ⟨?_, high⟩
  change (l + 1) * 0xC000 - _ ≤ a at low
  change l * 0xC000 ≤ a
  omega

variable (fits : r.Fits)

include fits

theorem Fits.tiles_in_room {s : Nat} (used : r.Used s) (inside : r.Tiles s a) :
    s * slice ≤ a ∧ a < (s + 1) * slice := by
  obtain ⟨l, small, rfl⟩ := used
  have room := fits.room l small
  obtain ⟨low, high⟩ := inside
  refine ⟨low, ?_⟩
  rw [Nat.succ_mul]
  omega

theorem Fits.tiles_apart {s s' : Nat} (used : r.Used s) (used' : r.Used s')
    (inside : r.Tiles s a) (inside' : r.Tiles s' a) : s = s' :=
  rooms_apart (fits.tiles_in_room used inside) (fits.tiles_in_room used' inside')

theorem Fits.tiles_not_map {s l : Nat} (used : r.Used s) (inside : r.Tiles s a) :
    ¬r.Map l a := by
  intro map
  obtain rfl := rooms_apart (fits.tiles_in_room used inside) map.in_room
  obtain ⟨l', small, rfl⟩ := used
  have room := fits.room l' small
  obtain ⟨low, high⟩ := inside
  obtain ⟨low', high'⟩ := map
  rw [Nat.succ_mul] at low'
  omega

omit fits in
theorem maps_apart {l l' : Nat} (inside : r.Map l a) (inside' : r.Map l' a) : l = l' :=
  rooms_apart inside.in_room inside'.in_room

end Records

namespace Editor

/-! Writing. -/

/-- Where tile `d` is. -/
def tileaddr (e : Editor) (d : Nat) : Nat := d <<< e.tbshift % 0x10000 + e.tbase

/-- The tile being edited, packed, to the card. -/
def storetile (e : Editor) (bytes : Nat → Byte) (vram : Nat → Byte) : Nat → Byte := fun a =>
  let start := e.tileaddr e.set.tile
  if start ≤ a ∧ a < start + 1 <<< e.tbshift then bytes (a - start) else vram a

/-- Where a cell is. -/
def celladdr (e : Editor) (x y : Nat) : Nat :=
  2 * (y <<< e.place.mapwsh + x) % 0x10000 + e.place.mbase

def putcell (e : Editor) (x y : Nat) (cell : Word) (vram : Nat → Byte) : Nat → Byte :=
  Function.update (Function.update vram (e.celladdr x y) (hiByte cell)) (e.celladdr x y + 1)
    (loByte cell)

variable {e : Editor}

theorem Inv.tile_inside (inv : e.Inv) {a : Nat} (low : e.tileaddr e.set.tile ≤ a)
    (high : a < e.tileaddr e.set.tile + 1 <<< e.tbshift) : e.records.Tiles e.curset a := by
  have room := inv.room
  have tile := inv.tile
  have size : slice = 0xC000 := rfl
  have next : (e.set.tile + 1) <<< e.tbshift ≤ e.set.bytes := by
    rw [TileSet.bytes, inv.current.shift, Nat.shiftLeft_eq, Nat.shiftLeft_eq]
    exact Nat.mul_le_mul_right _ tile
  have split : (e.set.tile + 1) <<< e.tbshift = e.set.tile <<< e.tbshift + 1 <<< e.tbshift := by
    rw [Nat.shiftLeft_eq, Nat.shiftLeft_eq, Nat.shiftLeft_eq, Nat.add_mul]
  rw [split] at next
  rw [tileaddr] at low high
  generalize e.set.tile <<< e.tbshift = offset at next low high
  rw [inv.current.tbase, Nat.mod_eq_of_lt (by omega)] at low high
  refine ⟨by omega, ?_⟩
  rw [records_set]
  omega

theorem Inv.cell_inside (inv : e.Inv) {x y : Nat} (across : x < e.place.mapw)
    (down : y < e.place.maph) {a : Nat} (low : e.celladdr x y ≤ a)
    (high : a ≤ e.celladdr x y + 1) : e.records.Map e.curl a := by
  have small := e.map.lmapbytes_le
  have size : slice = 0xC000 := rfl
  rw [celladdr, inv.current.place] at low high
  rw [inv.current.place] at across down
  change x < 32 <<< e.map.wc at across
  change y < 32 <<< e.map.hc at down
  change 2 * (y <<< (e.map.wc + 5) + x) % 0x10000 + ((e.curl + 1) * slice - e.map.lmapbytes) ≤ a
    at low
  change a ≤ 2 * (y <<< (e.map.wc + 5) + x) % 0x10000 +
    ((e.curl + 1) * slice - e.map.lmapbytes) + 1 at high
  -- the cells before this one, and it, are in the map
  have row : y <<< (e.map.wc + 5) + 32 <<< e.map.wc ≤ (32 <<< e.map.hc) <<< (e.map.wc + 5) := by
    have rows : (y + 1) <<< (e.map.wc + 5) ≤ (32 <<< e.map.hc) <<< (e.map.wc + 5) := by
      rw [Nat.shiftLeft_eq, Nat.shiftLeft_eq _ (e.map.wc + 5)]
      exact Nat.mul_le_mul_right _ down
    have wide : 32 <<< e.map.wc = 1 <<< (e.map.wc + 5) := by
      rw [Nat.add_comm, Nat.shiftLeft_add]
      rfl
    rw [Nat.shiftLeft_eq, Nat.add_mul, ← Nat.shiftLeft_eq, ← Nat.shiftLeft_eq, ← wide] at rows
    exact rows
  have whole : 2 * (32 <<< e.map.hc) <<< (e.map.wc + 5) = e.map.lmapbytes := by
    have sum : 1 + (e.map.hc + (e.map.wc + 5)) = 6 + (e.map.wc + e.map.hc) := by omega
    calc 2 * (32 <<< e.map.hc) <<< (e.map.wc + 5)
        = 2 * (32 <<< (e.map.hc + (e.map.wc + 5))) := by rw [← Nat.shiftLeft_add]
      _ = 32 <<< 1 <<< (e.map.hc + (e.map.wc + 5)) := by
          rw [Nat.shiftLeft_eq, Nat.shiftLeft_eq _ (_ + _), ← Nat.mul_assoc]
          rfl
      _ = 32 <<< 6 <<< (e.map.wc + e.map.hc) := by
          rw [← Nat.shiftLeft_add, sum, Nat.shiftLeft_add]
      _ = e.map.lmapbytes := rfl
  generalize y <<< (e.map.wc + 5) = before at row low high
  generalize 32 <<< e.map.wc = wide at row across
  generalize (32 <<< e.map.hc) <<< (e.map.wc + 5) = cells at row whole
  rw [Nat.mod_eq_of_lt (by omega)] at low high
  rw [Records.Map, records_map]
  rw [size] at low high ⊢
  omega

/-! Runs. -/

/-- The room rules, and what follows from them for what is written. -/
structure RoomsHold (e : Editor) : Prop where
  order : e.order.Perm [0, 1, 2]
  tiles : ∀ l < 3, 1 ≤ (e.records.sets (e.records.slot l)).ntiles ∧
    (e.records.sets (e.records.slot l)).ntiles ≤ 1024
  room : ∀ l < 3, (e.records.sets (e.records.slot l)).bytes +
    (e.records.maps (e.records.slot l)).lmapbytes ≤ slice
  tile : e.set.tile < e.set.ntiles
  maxt : e.maxt = e.capacity.maxt
  tbase : e.tbase = e.curset * slice
  mbase : e.place.mbase = (e.curl + 1) * slice - e.map.lmapbytes
  tileKept : ∀ bytes vram a, (∃ l < 3, e.records.Map l a) ∨
    (∃ s, e.records.Used s ∧ s ≠ e.curset ∧ e.records.Tiles s a) → e.storetile bytes vram a = vram a
  cellKept : ∀ x < e.place.mapw, ∀ y < e.place.maph, ∀ cell vram a,
    (∃ s, e.records.Used s ∧ e.records.Tiles s a) ∨
      (∃ l < 3, l ≠ e.curl ∧ e.records.Map l a) → e.putcell x y cell vram a = vram a

theorem Inv.used (inv : e.Inv) : e.records.Used e.curset :=
  ⟨e.curl, inv.curl, inv.current.linked.symm⟩

theorem Inv.tile_kept (inv : e.Inv) {bytes vram : Nat → Byte} {a : Nat}
    (elsewhere : (∃ l < 3, e.records.Map l a) ∨
      ∃ s, e.records.Used s ∧ s ≠ e.curset ∧ e.records.Tiles s a) :
    e.storetile bytes vram a = vram a := by
  refine if_neg fun inside => ?_
  have here := inv.tile_inside inside.1 inside.2
  rcases elsewhere with ⟨l, -, map⟩ | ⟨s, used, other, there⟩
  · exact inv.fits.tiles_not_map inv.used here map
  · exact other (inv.fits.tiles_apart used inv.used there here)

theorem Inv.cell_kept (inv : e.Inv) {x y : Nat} (across : x < e.place.mapw)
    (down : y < e.place.maph) {cell : Word} {vram : Nat → Byte} {a : Nat}
    (elsewhere : (∃ s, e.records.Used s ∧ e.records.Tiles s a) ∨
      ∃ l < 3, l ≠ e.curl ∧ e.records.Map l a) : e.putcell x y cell vram a = vram a := by
  have apart (low : e.celladdr x y ≤ a) (high : a ≤ e.celladdr x y + 1) : False := by
    have here := inv.cell_inside across down low high
    rcases elsewhere with ⟨s, used, tiles⟩ | ⟨l, -, other, there⟩
    · exact inv.fits.tiles_not_map used tiles here
    · exact other (Records.maps_apart there here)
  rw [putcell, Function.update_of_ne, Function.update_of_ne]
  · rintro rfl
    exact apart (Nat.le_refl _) (Nat.le_succ _)
  · rintro rfl
    exact apart (Nat.le_succ _) (Nat.le_refl _)

theorem Inv.holds (inv : e.Inv) : e.RoomsHold where
  order := inv.order
  tiles l small := ⟨inv.fits.used l small, inv.fits.counts _ (inv.fits.slots l small)⟩
  room := inv.fits.room
  tile := inv.tile
  maxt := by
    rw [inv.current.maxt, ← inv.current.shift]
    rfl
  tbase := inv.current.tbase
  mbase := by
    rw [inv.current.place]
    rfl
  tileKept _ _ _ := inv.tile_kept
  cellKept _ across _ down _ _ _ := inv.cell_kept across down

/-- What a command must meet for the rooms to stay as they should: a new set is made from layer 1
and its own set, or where MAXT is the same; a project's order is one, and the files its second and
third layers name can be opened; the questions are answered with the layer's own set or with one
that has tiles and fits, if there is room at all. -/
def Meets (e : Editor) : Command → Prop
  | .newSet k m _ =>
      e.curset = 0 ∧ (e.curl = 0 ∨ (e.layers 0).map.fits k.tbshof = m.fits k.tbshof)
  | .openProject p files => p.sorder.Perm [0, 1, 2] ∧
      ∀ l < 3, l ≠ 0 → p.tiles l ≠ [] → p.earlier l = none → Loads files e.map (p.tiles l)
  | .questions q _ =>
      q.psrc = e.curl ∨ e.storerec.Usable q.psrc ∨ e.storerec.lroom q = false
  | _ => True

theorem Inv.step (inv : e.Inv) {c : Command} (meets : e.Meets c) : (e.step c).Inv := by
  cases c with
  | newSet k m keep => exact inv.dlgmake keep meets.1 meets.2
  | newMap m => exact inv.dlgmakemap m
  | openSet name files => exact inv.loadfile name (files name)
  | openMap name files => exact inv.loadmap name files
  | openProject p files => exact loadproj_inv e meets.1 meets.2
  | questions q yes => exact inv.ldlgapply yes meets
  | addTile => exact inv.addtile
  | chooseTile d => exact inv.choose d
  | draw => exact inv.pushundo
  | drawMap => exact inv.pushmapu
  | undo => exact inv.undo
  | chooseLayer b =>
      rw [Editor.step]
      split
      · next small => exact inv.sellayer small
      · exact inv
  | back => exact inv.with_order ((layerback_perm _ _).trans inv.order)
  | forward => exact inv.with_order ((layerfwd_perm _ _).trans inv.order)

theorem start_inv : start.Inv := newproj_inv boot rfl (by rw [← records_map boot]; rfl)

def next (e : Editor) (c : Command) : Option Editor := some (e.step c)

/-- In every run whose commands meet the condition, the rooms are as they should be. -/
theorem rooms_hold (cs : List Command) (e : Editor) (ran : Run.run next start cs = some e)
    (meets : Run.Throughout next Meets start cs) : e.RoomsHold := by
  refine Inv.holds (Run.run_invariant_throughout Inv ?_ start_inv meets ran)
  intro s c s' inv meets step
  cases step
  exact inv.step meets

/-- A tile added, drawn on, and layer 2 given a set of its own by the questions. -/
theorem rooms_hold_second : ((start.step .addTile).step (.chooseLayer 1)).step
    (.questions ⟨1, by decide, ⟨16, 8, .inr rfl, .inr rfl⟩, start.map⟩ true) |>.RoomsHold :=
  rooms_hold [.addTile, .chooseLayer 1,
      .questions ⟨1, by decide, ⟨16, 8, .inr rfl, .inr rfl⟩, start.map⟩ true] _ rfl <| by
    refine ⟨trivial, ?_⟩
    rintro _ ⟨⟩
    refine ⟨trivial, ?_⟩
    rintro _ ⟨⟩
    refine ⟨.inl rfl, ?_⟩
    rintro _ ⟨⟩
    trivial

/-! Where they are not. -/

/-- Layer 1 given slot 1, which no layer uses. -/
def unusedSlot : Editor := start.step (.questions ⟨1, by decide, start.set.kind, start.map⟩ true)

/-- A project whose ORDER is 2 2 2. -/
def sameOrder : Editor :=
  start.step (.openProject ⟨fun _ => [], fun _ => [], [1, 1, 1], rfl, 0⟩ fun _ => none)

/-- A new set made from layer 2, which has its own. -/
def newFromSecond : Editor :=
  ((start.step (.chooseLayer 1)).step
    (.questions ⟨1, by decide, start.set.kind, start.map⟩ true)).step
      (.newSet start.set.kind start.map true)

/-- A project whose second layer's tile set is not there. -/
def fileMissing : Editor :=
  start.step (.openProject
    ⟨fun l => if l = 1 then [0x41] else [], fun _ => [], [0, 1, 2], rfl, 0⟩ fun _ => none)

theorem rooms_fail : ¬unusedSlot.RoomsHold ∧ ¬sameOrder.RoomsHold ∧ ¬newFromSecond.RoomsHold ∧
    ¬fileMissing.RoomsHold := by
  refine ⟨fun holds => ?_, fun holds => ?_, fun holds => ?_, fun holds => ?_⟩
  · have none : (unusedSlot.records.sets (unusedSlot.records.slot 0)).ntiles = 0 := rfl
    have some := (holds.tiles 0 (by decide)).1
    omega
  · have same : sameOrder.order = [1, 1, 1] := rfl
    have perm := holds.order
    rw [same] at perm
    exact absurd perm (by decide)
  · have base : newFromSecond.tbase = slice := rfl
    have first : newFromSecond.curset = 0 := rfl
    have tbase := holds.tbase
    rw [base, first] at tbase
    exact absurd tbase (by decide)
  · have none : (fileMissing.records.sets (fileMissing.records.slot 1)).ntiles = 0 := rfl
    have some := (holds.tiles 1 (by decide)).1
    omega

end Editor

end Pugputer.Tilekit

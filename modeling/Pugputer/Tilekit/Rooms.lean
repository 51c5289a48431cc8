import Mathlib.Data.List.Perm.Basic
import Pugputer.Tilekit.Commands

namespace Pugputer.Tilekit

/-! The rooms: what must hold of the records once the variables are stored in them. -/

/-- The bytes of a set's tiles. -/
def TileSet.bytes (s : TileSet) : Nat := s.ntiles <<< s.kind.tbshof

/-- The three layers: tile sets by slot, and each layer's map and slot. -/
@[ext] structure Records where
  sets : Nat → TileSet
  maps : Nat → MapSize
  slot : Nat → Nat

/-- Every slot a layer uses has tiles, and they and the map of its room fit in it. -/
structure Records.Fits (r : Records) : Prop where
  slots : ∀ l < 3, r.slot l < 3
  counts : ∀ s < 3, (r.sets s).ntiles ≤ 1024
  tiles : ∀ s < 3, 0 < (r.sets s).ntiles → (r.sets s).tile < (r.sets s).ntiles
  used : ∀ l < 3, 0 < (r.sets (r.slot l)).ntiles
  room : ∀ l < 3, (r.sets (r.slot l)).bytes + (r.maps (r.slot l)).lmapbytes ≤ slice

/-! The sizes. -/

theorem Kind.tbshof_bounds (k : Kind) : 5 ≤ k.tbshof ∧ k.tbshof ≤ 8 := by
  rw [tbshof]
  split
  · split
    · decide
    · decide
  · split
    · decide
    · decide

theorem units_bytes (s : TileSet) : 32 * units s.ntiles s.kind.tbshof = s.bytes := by
  have shift := s.kind.tbshof_bounds
  obtain ⟨more, split⟩ := Nat.exists_eq_add_of_le shift.1
  rw [units, TileSet.bytes, split, Nat.add_sub_cancel_left, Nat.add_comm 5, Nat.shiftLeft_add,
    Nat.shiftLeft_eq _ 5, Nat.mul_comm]

theorem MapSize.units_bytes (m : MapSize) : 32 * m.units = m.lmapbytes := by
  rw [units, lmapbytes, Nat.shiftLeft_eq, Nat.shiftLeft_eq, ← Nat.mul_assoc]

theorem MapSize.lmapbytes_le (m : MapSize) : m.lmapbytes ≤ 0x8000 := by
  have bound := Nat.pow_le_pow_right (n := 2) (by decide) m.cells
  rw [lmapbytes, Nat.shiftLeft_eq]
  omega

/-- CAPACITY and ROOMFOR. -/
theorem MapSize.le_fits {m : MapSize} {shift count : Nat} :
    count ≤ m.fits shift ↔ count ≤ 1024 ∧ count <<< shift + m.lmapbytes ≤ slice := by
  have small := m.lmapbytes_le
  have size : slice = 0xC000 := rfl
  rw [fits, Nat.le_min, Nat.shiftRight_eq_div_pow, Nat.le_div_iff_mul_le (Nat.two_pow_pos shift),
    Nat.shiftLeft_eq]
  omega

namespace Editor

/-- The records, the variables being stored in them. -/
def records (e : Editor) : Records where
  sets := e.storerec.sets
  maps l := (e.storerec.layers l).map
  slot l := (e.layers l).set

/-- The records as they are. -/
def kept (e : Editor) : Records where
  sets := e.sets
  maps l := (e.layers l).map
  slot l := (e.layers l).set

variable (e : Editor)

theorem storerec_slot (l : Nat) : (e.storerec.layers l).set = (e.layers l).set := by
  rw [storerec]
  dsimp only
  by_cases here : l = e.curl
  · rw [here, Function.update_self]
  · rw [Function.update_of_ne here]

theorem kept_storerec : e.storerec.kept = e.records :=
  Records.ext rfl rfl (funext e.storerec_slot)

theorem storerec_storerec : e.storerec.storerec = e.storerec := by
  rw [storerec, storerec]
  dsimp only
  rw [Function.update_idem, Function.update_idem, Function.update_self]

@[simp] theorem records_storerec : e.storerec.records = e.records := by
  rw [← kept_storerec, storerec_storerec, kept_storerec]

/-- What LOADREC loads is in the records already. -/
theorem storerec_loadrec : e.loadrec.storerec = e.loadrec := by
  rw [storerec, loadrec]
  dsimp only
  rw [Function.update_eq_self]
  congr
  exact Function.update_eq_self _ _

@[simp] theorem records_loadrec : e.loadrec.records = e.kept := by
  rw [← kept_storerec, storerec_loadrec]
  rfl

@[simp] theorem records_capacity : e.capacity.records = e.records := e.records_storerec

@[simp] theorem records_setproj : e.setproj.records = e.records :=
  records_capacity { e with tbshift := e.set.kind.tbshof }

@[simp] theorem records_mapcalc : e.mapcalc.records = e.records := rfl

@[simp] theorem records_mapsetup : e.mapsetup.records = e.records := e.mapcalc.records_storerec

/-- The variables that go with the layer being edited. -/
structure Current : Prop where
  linked : e.curset = e.records.slot e.curl
  shift : e.tbshift = e.set.kind.tbshof
  maxt : e.maxt = (e.records.maps e.curset).fits e.set.kind.tbshof
  tbase : e.tbase = e.curset * slice
  place : e.place = mapCalcOf e.curl e.map

/-- The set and the map being edited, in the records. -/
theorem records_set : e.records.sets e.curset = e.set := Function.update_self _ _ _

theorem records_map : e.records.maps e.curl = e.map := by
  rw [records, storerec]
  dsimp only
  rw [Function.update_self]

theorem records_map_of_ne {l : Nat} (other : l ≠ e.curl) :
    e.records.maps l = (e.layers l).map := by
  rw [records, storerec]
  dsimp only
  rw [Function.update_of_ne other]

theorem setproj_maxt : e.setproj.maxt = (e.records.maps e.curset).fits e.set.kind.tbshof := rfl

variable {e}

theorem Current.storerec (current : e.Current) : e.storerec.Current := by
  refine ⟨?_, current.shift, ?_, current.tbase, current.place⟩
  · rw [records_storerec]
    exact current.linked
  · rw [records_storerec]
    exact current.maxt

variable (e)

/-- A layer's variables loaded. -/
theorem Current.loaded : e.loadrec.setproj.mapcalc.Current := by
  refine ⟨?_, rfl, ?_, rfl, rfl⟩
  · rw [records_mapcalc, records_setproj, records_loadrec]
    rfl
  · rw [records_mapcalc, records_setproj]
    rfl

/-- Another value of the set's variables. -/
theorem records_with_set (v : TileSet) :
    { e with set := v }.records =
      { e.records with sets := Function.update e.records.sets e.curset v } := by
  refine Records.ext ?_ rfl rfl
  exact (Function.update_idem _ _ _).symm

/-- Another size of the map. -/
theorem records_with_map (m : MapSize) :
    { e with map := m }.records =
      { e.records with maps := Function.update e.records.maps e.curl m } := by
  refine Records.ext rfl ?_ rfl
  funext l
  by_cases here : l = e.curl
  · rw [here]
    dsimp only
    rw [Function.update_self]
    exact records_map { e with map := m }
  · dsimp only
    rw [Function.update_of_ne here, records_map_of_ne e here]
    exact records_map_of_ne { e with map := m } here

end Editor

namespace Records.Fits

variable {r : Records} (fits : r.Fits)

include fits

/-- A slot's set changed. -/
theorem update_set {s : Nat} {v : TileSet} (count : v.ntiles ≤ 1024) (tile : v.tile < v.ntiles)
    (room : v.bytes + (r.maps s).lmapbytes ≤ slice) :
    { r with sets := Function.update r.sets s v }.Fits := by
  refine ⟨fits.slots, fun s' small => ?_, fun s' small => ?_, fun l small => ?_,
    fun l small => ?_⟩
  · dsimp only
    by_cases here : s' = s
    · rw [here, Function.update_self]
      exact count
    · rw [Function.update_of_ne here]
      exact fits.counts s' small
  · dsimp only
    by_cases here : s' = s
    · rw [here, Function.update_self]
      exact fun _ => tile
    · rw [Function.update_of_ne here]
      exact fits.tiles s' small
  · dsimp only
    by_cases here : r.slot l = s
    · rw [here, Function.update_self]
      exact Nat.zero_lt_of_lt tile
    · rw [Function.update_of_ne here]
      exact fits.used l small
  · dsimp only
    by_cases here : r.slot l = s
    · rw [here, Function.update_self]
      exact room
    · rw [Function.update_of_ne here]
      exact fits.room l small

/-- A layer's map changed. -/
theorem update_map {l : Nat} {m : MapSize}
    (room : ∀ l' < 3, r.slot l' = l → (r.sets l).bytes + m.lmapbytes ≤ slice) :
    { r with maps := Function.update r.maps l m }.Fits := by
  refine ⟨fits.slots, fits.counts, fits.tiles, fits.used, fun l' small => ?_⟩
  dsimp only
  by_cases here : r.slot l' = l
  · rw [here, Function.update_self]
    exact room l' small here
  · rw [Function.update_of_ne here]
    exact fits.room l' small

/-- A layer with another slot. -/
theorem update_slot {l s : Nat} (small : s < 3) (used : 0 < (r.sets s).ntiles)
    (room : (r.sets s).bytes + (r.maps s).lmapbytes ≤ slice) :
    { r with slot := Function.update r.slot l s }.Fits := by
  refine ⟨fun l' low => ?_, fits.counts, fits.tiles, fun l' low => ?_, fun l' low => ?_⟩
  · dsimp only
    by_cases here : l' = l
    · rw [here, Function.update_self]
      exact small
    · rw [Function.update_of_ne here]
      exact fits.slots l' low
  · dsimp only
    by_cases here : l' = l
    · rw [here, Function.update_self]
      exact used
    · rw [Function.update_of_ne here]
      exact fits.used l' low
  · dsimp only
    by_cases here : l' = l
    · rw [here, Function.update_self]
      exact room
    · rw [Function.update_of_ne here]
      exact fits.room l' low

end Records.Fits

end Pugputer.Tilekit

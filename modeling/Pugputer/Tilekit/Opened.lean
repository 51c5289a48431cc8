import Pugputer.Tilekit.Steps

namespace Pugputer.Tilekit

/-! The commands that make sets and maps, and open their files. -/

namespace Editor

variable {e : Editor}

theorem Current.redrawall (current : e.Current) : e.redrawall.Current :=
  Current.storerec ⟨current.linked, current.shift, current.maxt, current.tbase, rfl⟩

theorem Inv.redrawall (inv : e.Inv) : e.redrawall.Inv := by
  refine ⟨inv.order, inv.curl, ?_, inv.current.redrawall, ?_⟩
  · rw [Editor.redrawall, records_mapsetup]
    exact inv.fits
  · rw [Editor.redrawall, records_mapsetup]
    exact inv.undos

/-- MAPSETUP and CAPACITY, for a map of another size. -/
theorem Current.resized (linked : e.curset = e.records.slot e.curl)
    (shift : e.tbshift = e.set.kind.tbshof) (tbase : e.tbase = e.curset * slice) :
    e.mapsetup.capacity.Current := by
  refine ⟨?_, shift, ?_, tbase, rfl⟩
  · rw [records_capacity, records_mapsetup]
    exact linked
  · rw [records_capacity, records_mapsetup, ← kept_storerec]
    change (e.storerec.storerec.kept.maps e.curset).fits e.tbshift = _
    rw [storerec_storerec, shift]
    rfl

/-! A new set of layers. -/

theorem records_newproj (e : Editor) : e.newproj.records =
    { sets := Function.update (fun _ => emptySlot) 0 { e.set with ntiles := 1, tile := 0 }
      maps := fun _ => e.map
      slot := fun _ => 0 } := by
  rw [newproj, Editor.redrawall, records_mapsetup, newlayers, records_storerec]
  refine Records.ext rfl ?_ rfl
  funext l
  exact congrArg Layer.map (congrFun (Function.update_eq_self 0 fun _ => (⟨0, e.map⟩ : Layer)) l)

theorem tile_bytes_le (k : Kind) : 1 <<< k.tbshof ≤ 256 := by
  have bounds := k.tbshof_bounds
  have power := Nat.pow_le_pow_right (n := 2) (by decide) bounds.2
  rw [Nat.shiftLeft_eq]
  omega

/-- One blank tile, and the layers' maps, fit. -/
theorem newproj_fits (e : Editor) : e.newproj.records.Fits := by
  have map := e.map.lmapbytes_le
  have tile := tile_bytes_le e.set.kind
  rw [records_newproj]
  refine ⟨fun _ _ => Nat.zero_lt_succ 2, fun s _ => ?_, fun s _ => ?_, fun _ _ => ?_, fun _ _ => ?_⟩
  · dsimp only
    by_cases first : s = 0
    · rw [first, Function.update_self]
      exact Nat.le_add_left 1 1023
    · rw [Function.update_of_ne first]
      exact Nat.zero_le 1024
  · dsimp only
    by_cases first : s = 0
    · rw [first, Function.update_self]
      exact id
    · rw [Function.update_of_ne first]
      exact fun some => absurd some (Nat.lt_irrefl 0)
  · dsimp only
    rw [Function.update_self]
    exact Nat.one_pos
  · dsimp only
    rw [Function.update_self]
    change 1 <<< e.set.kind.tbshof + e.map.lmapbytes ≤ 0xC000
    omega

/-- TBASE and MAXT are what they were, and must suit the new layers. -/
theorem newproj_inv (e : Editor) (tbase : e.tbase = 0)
    (room : (e.records.maps e.curset).fits e.set.kind.tbshof = e.map.fits e.set.kind.tbshof) :
    e.newproj.Inv := by
  refine ⟨.refl _, by change 0 < 3; decide, e.newproj_fits, ⟨?_, rfl, ?_, ?_, rfl⟩, nofun⟩
  · rw [records_newproj]
    rfl
  · rw [records_newproj]
    exact room
  · rw [show e.newproj.tbase = 0 from tbase]
    exact (Nat.zero_mul slice).symm

/-- A new set is right if it is made from layer 1 and its own set, or by chance. -/
theorem Inv.dlgmake (inv : e.Inv) {k : Kind} {m : MapSize} (keep : Bool) (first : e.curset = 0)
    (room : e.curl = 0 ∨ (e.layers 0).map.fits k.tbshof = m.fits k.tbshof) :
    (e.dlgmake k m keep).Inv := by
  refine newproj_inv _ ?_ ?_
  · change e.tbase = 0
    rw [inv.current.tbase, first, Nat.zero_mul]
  · change (({ e with map := m } : Editor).records.maps e.curset).fits k.tbshof = m.fits k.tbshof
    rw [records_with_map]
    dsimp only
    rw [first]
    by_cases own : e.curl = 0
    · rw [own, Function.update_self]
    · rw [Function.update_of_ne (Ne.symm own), records_map_of_ne e (Ne.symm own)]
      exact room.resolve_left own

/-! A new map. -/

/-- FITSMAP finds that the map fits beside the tiles in its layer's room. -/
theorem fitsmap_room {m : MapSize} (fits : e.fitsmap m = true) {l : Nat} (small : l < 3)
    (uses : (e.layers l).set = e.curl) : (e.sets e.curl).bytes + m.lmapbytes ≤ slice := by
  have used : e.inUse = true :=
    List.any_eq_true.mpr ⟨l, List.mem_range.mpr small, decide_eq_true uses⟩
  have sum : m.units + units (e.sets e.curl).ntiles (e.sets e.curl).kind.tbshof ≤ slice / 32 := by
    have found := of_decide_eq_true fits
    rw [if_pos used] at found
    exact found
  have tiles := units_bytes (e.sets e.curl)
  have map := m.units_bytes
  change m.units + units _ _ ≤ 1536 at sum
  change _ ≤ 0xC000
  omega

theorem Inv.resize (inv : e.Inv) {m : MapSize}
    (fits : { e with map := m }.storerec.fitsmap m = true) :
    { e with map := m }.storerec.records.Fits := by
  rw [records_storerec, records_with_map]
  refine inv.fits.update_map fun l small uses => ?_
  refine fitsmap_room fits small ?_
  rw [storerec_slot]
  exact uses

/-- The records as they were. -/
theorem refused (e : Editor) (m : MapSize) :
    { { e with map := m }.storerec with map := e.map }.redrawall = e.redrawall := by
  rw [Editor.redrawall, Editor.redrawall, mapsetup, mapsetup, mapcalc, mapcalc, storerec, storerec,
    storerec]
  dsimp only
  rw [Function.update_idem, Function.update_idem, Function.update_self]

theorem Inv.dlgmakemap (inv : e.Inv) (m : MapSize) : (e.dlgmakemap m).Inv := by
  rw [Editor.dlgmakemap]
  split
  · next fits =>
      have fits' := inv.resize fits
      have same : { e with map := m }.storerec.newmap.records =
          { e with map := m }.storerec.records := by
        rw [newmap, Editor.redrawall, records_mapsetup]
        change { e with map := m }.storerec.mapsetup.capacity.records = _
        rw [records_capacity, records_mapsetup]
      refine ⟨inv.order, inv.curl, ?_, ?_, nofun⟩
      · rw [same]
        exact fits'
      · refine Current.redrawall (Current.others (Current.resized ?_ ?_ ?_) _ _)
        · rw [records_storerec]
          exact inv.current.linked
        · exact inv.current.shift
        · exact inv.current.tbase
  · rw [refused]
    exact inv.redrawall

/-! A tile set's file. -/

theorem tlsHeader_count {file : List Byte} {k : Kind} {count : Nat}
    (header : tlsHeader file = some (k, count)) : 0 < count ∧ count ≤ 1024 := by
  rw [tlsHeader] at header
  split at header
  · cases header
  · obtain ⟨k', _, found⟩ := Option.bind_eq_some_iff.mp header
    dsimp only at found
    split at found
    · cases found
    · next ok =>
        cases found
        have most : k.most ≤ 1024 := by
          rw [Kind.most]
          split
          · exact Nat.le_refl _
          · split
            · decide
            · decide
        omega

/-- The set as it is from the file, the layer's variables with it. -/
def opened (e : Editor) (k : Kind) (count : Nat) (name : List Byte) : Editor :=
  let e := { e with set := { e.set with kind := k, ntiles := count } }.setproj.fresh
  { e with set := { e.set with name := name } }.redrawall

theorem loadfile_refused {e : Editor} {name : List Byte} {file : Option (List Byte)}
    (header : file.bind tlsHeader = none) : (e.loadfile name file).1 = e := by
  simp only [loadfile, header]

theorem loadfile_header {e : Editor} {name : List Byte} {file : Option (List Byte)} {k : Kind}
    {count : Nat} (header : file.bind tlsHeader = some (k, count)) :
    (e.loadfile name file).1 =
      if (e.storerec.layers e.curset).map.fits k.tbshof < count then e.storerec
      else e.storerec.opened k count name := by
  simp only [loadfile, header]
  split
  · next full => exact (if_pos full).symm
  · next room => exact (if_neg room).symm

variable {k : Kind} {count : Nat} {name : List Byte}

theorem records_opened : (e.opened k count name).records =
    { e.records with sets := Function.update e.records.sets e.curset ⟨k, count, 0, name⟩ } := by
  have asked := records_with_set e { e.set with kind := k, ntiles := count }
  have stored := records_with_set { e with set := { e.set with kind := k, ntiles := count } }.setproj
    ⟨k, count, 0, name⟩
  rw [records_setproj, asked] at stored
  rw [opened, Editor.redrawall, records_mapsetup]
  refine stored.trans ?_
  dsimp only
  exact congrArg (fun sets => (⟨sets, e.records.maps, e.records.slot⟩ : Records))
    (Function.update_idem _ _ _)

theorem Current.opened (linked : e.curset = e.records.slot e.curl)
    (tbase : e.tbase = e.curset * slice) : (e.opened k count name).Current := by
  refine ⟨?_, rfl, ?_, tbase, rfl⟩
  · rw [records_opened]
    exact linked
  · rw [records_opened]
    rfl

/-- A set from a file, in a slot whose room it and the map fit in. -/
theorem Inv.opened (inv : e.Inv) (some : 0 < count) (most : count ≤ 1024)
    (room : count ≤ (e.records.maps e.curset).fits k.tbshof) : (e.opened k count name).Inv := by
  refine ⟨inv.order, inv.curl, ?_, Current.opened inv.current.linked inv.current.tbase, nofun⟩
  rw [records_opened]
  exact inv.fits.update_set most some (MapSize.le_fits.mp room).2

theorem Inv.loadfile (inv : e.Inv) (name : List Byte) (file : Option (List Byte)) :
    (e.loadfile name file).1.Inv := by
  rcases header : file.bind tlsHeader with _ | ⟨k, count⟩
  · rw [loadfile_refused header]
    exact inv
  · rw [loadfile_header header]
    split
    · exact inv.storerec
    · next room =>
        obtain ⟨bytes, -, found⟩ := Option.bind_eq_some_iff.mp header
        obtain ⟨some, most⟩ := tlsHeader_count found
        refine inv.storerec.opened some most ?_
        rw [records_storerec]
        exact Nat.le_of_not_lt room

/-! A map's file. -/

theorem Inv.loadmap1 (inv : e.Inv) (m : MapSize) : (e.loadmap1 m).Inv := by
  rw [Editor.loadmap1]
  dsimp only
  split
  · next fits =>
      have same : { e.storerec with map := m }.mapsetup.capacity.records =
          { e.records with maps := Function.update e.records.maps e.curl m } := by
        rw [records_capacity, records_mapsetup, records_with_map, records_storerec]
        rfl
      have stored := inv.storerec.current
      refine ⟨inv.order, inv.curl, ?_, ?_, nofun⟩
      · change { e.storerec with map := m }.mapsetup.capacity.records.Fits
        rw [same]
        refine inv.fits.update_map fun l small uses => fitsmap_room fits small ?_
        rw [storerec_slot]
        exact uses
      · refine Current.others (Current.resized ?_ ?_ ?_) _ _
        · exact stored.linked
        · exact stored.shift
        · exact stored.tbase
  · exact inv.storerec

theorem Inv.loadmap (inv : e.Inv) (name : List Byte) (files : Files) :
    (e.loadmap name files).Inv := by
  rw [Editor.loadmap]
  split
  · exact inv
  · split
    · exact inv.loadmap1 _
    · next m tls _ _ =>
        have loaded := inv.loadfile tls (files tls)
        split
        next e' ok result =>
          rw [result] at loaded
          split
          · exact loaded.loadmap1 m
          · exact loaded

end Editor

end Pugputer.Tilekit

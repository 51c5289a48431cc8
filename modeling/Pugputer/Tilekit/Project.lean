import Pugputer.Tilekit.Questions

namespace Pugputer.Tilekit

/-! A project opened. -/

/-- A tile set's file that can be opened beside a map of a size. -/
def Loads (files : Files) (m : MapSize) (name : List Byte) : Prop :=
  ∃ k count, (files name).bind tlsHeader = some (k, count) ∧ count ≤ m.fits k.tbshof

namespace Editor

/-- A new set of layers while its tile sets are loaded; MAXT, TBASE and the rest may be stale. -/
structure Settled (m : MapSize) (e : Editor) : Prop where
  synced : e.storerec = e
  order : e.order = [0, 1, 2]
  curl : e.curl < 3
  linked : e.curset = e.records.slot e.curl
  fits : e.records.Fits
  maps : ∀ l < 3, e.records.maps l = m
  undos : e.undos = []

variable {e : Editor} {m : MapSize}

theorem storerec_setproj (e : Editor) : e.setproj.storerec = e.setproj :=
  congrArg (fun f : Editor => { f with maxt := e.setproj.maxt })
    ({ e with tbshift := e.set.kind.tbshof } : Editor).storerec_storerec

theorem storerec_mapcalc (e : Editor) (synced : e.storerec = e) :
    e.mapcalc.storerec = e.mapcalc :=
  congrArg (fun f : Editor => { f with place := mapCalcOf e.curl e.map }) synced

theorem kept_of_synced (synced : e.storerec = e) : e.kept = e.records := by
  rw [← kept_storerec, synced]

theorem newproj_settled (e : Editor) : Settled e.map e.newproj := by
  refine ⟨storerec_storerec _, rfl, by change 0 < 3; decide, ?_, e.newproj_fits, fun l _ => ?_, rfl⟩
  · rw [records_newproj]
    rfl
  · rw [records_newproj]

theorem Settled.switchq (settled : Settled m e) {l : Nat} (small : l < 3) :
    Settled m (e.switchq l) ∧ (l ≠ e.curl → (e.switchq l).Current) := by
  have records := @records_switchq e l
  have curl := @curl_switchq e l
  by_cases here : l = e.curl
  · have same : e.switchq l = e := if_pos here
    rw [same]
    exact ⟨settled, fun other => absurd here other⟩
  · have there : e.switchq l = { e.storerec with curl := l }.loadrec.setproj.mapcalc :=
      if_neg here
    have current : (e.switchq l).Current := by
      rw [there]
      exact Current.loaded _
    refine ⟨⟨?_, ?_, ?_, current.linked, ?_, ?_, ?_⟩, fun _ => current⟩
    · rw [there]
      exact storerec_mapcalc _ (storerec_setproj _)
    · rw [there]
      exact settled.order
    · rw [curl]
      exact small
    · rw [records]
      exact settled.fits
    · rw [records]
      exact settled.maps
    · rw [undos_switchq]
      exact settled.undos

/-- A layer's slot as it is said to be, and its variables. -/
theorem records_reloaded (e : Editor) (synced : e.storerec = e) (l s : Nat) :
    (e.setslot l s).loadrec.records =
      { e.records with slot := Function.update e.records.slot l s } := by
  rw [records_loadrec, kept_setslot, kept_of_synced synced]

theorem setslot_loadrec_set (e : Editor) (s : Nat) : (e.setslot e.curl s).loadrec.curset = s := by
  rw [loadrec, setslot]
  dsimp only
  rw [Function.update_self]

theorem setslot_loadrec_map (e : Editor) (synced : e.storerec = e) (s : Nat) :
    (e.setslot e.curl s).loadrec.map = e.map := by
  have kept : (e.layers e.curl).map = e.map := by
    rw [← records_map, ← kept_of_synced synced]
    rfl
  rw [loadrec, setslot]
  dsimp only
  rw [Function.update_self, kept]

/-- LOADPROJ115: another layer's set, shared. -/
theorem Settled.share (settled : Settled m e) {s : Nat} (small : s < 3)
    (uses : ∃ l < 3, e.records.slot l = s) :
    Settled m (e.setslot e.curl s).loadrec.setproj ∧
      (e.Current → (e.setslot e.curl s).loadrec.setproj.Current) := by
  have changed := records_reloaded e settled.synced e.curl s
  have curset := setslot_loadrec_set e s
  have map := setslot_loadrec_map e settled.synced s
  have records : (e.setslot e.curl s).loadrec.setproj.records =
      { e.records with slot := Function.update e.records.slot e.curl s } := by
    rw [records_setproj, changed]
  have linked : (e.setslot e.curl s).loadrec.setproj.curset =
      (e.setslot e.curl s).loadrec.setproj.records.slot e.curl := by
    rw [records]
    dsimp only
    rw [Function.update_self]
    exact curset
  refine ⟨⟨storerec_setproj _, settled.order, settled.curl, linked, ?_, ?_, settled.undos⟩,
    fun current => ⟨linked, rfl, ?_, rfl, ?_⟩⟩
  · obtain ⟨l, low, rfl⟩ := uses
    rw [records]
    exact settled.fits.update_slot small (settled.fits.used l low) (settled.fits.room l low)
  · rw [records]
    exact settled.maps
  · rw [setproj_maxt, records_setproj]
    rfl
  · change e.place = mapCalcOf e.curl (e.setslot e.curl s).loadrec.map
    rw [map]
    exact current.place

/-- LOADPROJ12: a set of its own, from its file. -/
theorem Settled.load (settled : Settled m e) {name : List Byte} {files : Files}
    (known : (∃ l < 3, e.records.slot l = e.curl) ∨ Loads files m name) :
    Settled m ((e.setslot e.curl e.curl).loadrec.loadfile name (files name)).1 ∧
      (Loads files m name →
        ((e.setslot e.curl e.curl).loadrec.loadfile name (files name)).1.Current) := by
  have changed := records_reloaded e settled.synced e.curl e.curl
  have curset := setslot_loadrec_set e e.curl
  have synced := storerec_loadrec (e.setslot e.curl e.curl)
  have linked : (e.setslot e.curl e.curl).loadrec.curset =
      (e.setslot e.curl e.curl).loadrec.records.slot e.curl := by
    rw [changed]
    dsimp only
    rw [Function.update_self]
    exact curset
  have undos : (e.setslot e.curl e.curl).loadrec.undos = [] := settled.undos
  have order : (e.setslot e.curl e.curl).loadrec.order = [0, 1, 2] := settled.order
  have curl : (e.setslot e.curl e.curl).loadrec.curl = e.curl := rfl
  have tbase : (e.setslot e.curl e.curl).loadrec.tbase =
      (e.setslot e.curl e.curl).loadrec.curset * slice := rfl
  generalize (e.setslot e.curl e.curl).loadrec = e' at *
  have maps : ∀ l < 3, e'.records.maps l = m := by
    rw [changed]
    exact settled.maps
  -- not opened: then the slot is one in use
  have stays (uses : ∃ l < 3, e.records.slot l = e.curl) : Settled m e' := by
    obtain ⟨l, low, uses⟩ := uses
    have used := settled.fits.used l low
    have room := settled.fits.room l low
    rw [uses] at used room
    refine ⟨synced, order, curl ▸ settled.curl, curl ▸ linked, ?_, maps, undos⟩
    rw [changed]
    exact settled.fits.update_slot settled.curl used room
  rcases header : (files name).bind tlsHeader with _ | ⟨k, count⟩
  · rw [loadfile_refused header]
    have fails : ¬Loads files m name := by
      rintro ⟨k, count, found, -⟩
      rw [header] at found
      cases found
    exact ⟨stays (known.resolve_right fails), fun loads => absurd loads fails⟩
  · have here : (e'.storerec.layers e'.curset).map = m := by
      rw [curset]
      exact maps e.curl settled.curl
    rw [loadfile_header header, here, synced]
    split
    · next full =>
        have fails : ¬Loads files m name := by
          rintro ⟨k', count', found, fits⟩
          rw [header] at found
          cases found
          exact absurd full (Nat.not_lt_of_le fits)
        exact ⟨stays (known.resolve_right fails), fun loads => absurd loads fails⟩
    · next room =>
        obtain ⟨bytes, -, found⟩ := Option.bind_eq_some_iff.mp header
        obtain ⟨some, most⟩ := tlsHeader_count found
        have inside := (MapSize.le_fits.mp (Nat.le_of_not_lt room)).2
        have current : (e'.opened k count name).Current :=
          Current.opened (curl ▸ linked) tbase
        refine ⟨⟨storerec_storerec _, order, curl ▸ settled.curl, current.linked, ?_, ?_, rfl⟩,
          fun _ => current⟩
        · rw [records_opened, changed, curset]
          dsimp only
          have filled := settled.fits.update_set (s := e.curl) (v := ⟨k, count, 0, name⟩) most some
            (by rw [settled.maps e.curl settled.curl]; exact inside)
          refine filled.update_slot settled.curl ?_ ?_
          · dsimp only
            rw [Function.update_self]
            exact some
          · dsimp only
            rw [Function.update_self, settled.maps e.curl settled.curl]
            exact inside
        · rw [records_opened]
          exact maps

theorem curl_loadfile (e : Editor) (name : List Byte) (file : Option (List Byte)) :
    (e.loadfile name file).1.curl = e.curl := by
  rcases header : file.bind tlsHeader with _ | ⟨k, count⟩
  · rw [loadfile_refused header]
  · rw [loadfile_header header]
    split
    · rfl
    · rfl

theorem earlier_lt {p : Staged} {l b : Nat} (earlier : p.earlier l = some b) : b < l :=
  List.mem_range.mp (List.mem_of_find?_eq_some earlier)

/-- A layer's tile set; the variables suit it unless the layer was being edited already. -/
theorem Settled.loadset (settled : Settled m e) (p : Staged) (files : Files) {l : Nat}
    (small : l < 3)
    (known : p.tiles l ≠ [] → p.earlier l = none →
      (l = e.curl ∧ ∃ l' < 3, e.records.slot l' = l) ∨ Loads files m (p.tiles l)) :
    Settled m (e.loadset p files l) ∧ (e.loadset p files l).curl = l ∧
      (l ≠ e.curl → (e.loadset p files l).Current) := by
  obtain ⟨there, current⟩ := settled.switchq small
  have records := @records_switchq e l
  have curl := @curl_switchq e l
  rw [← records] at known
  rw [Editor.loadset]
  generalize e.switchq l = e₁ at *
  subst curl
  split
  · exact ⟨there, rfl, current⟩
  · next named =>
      split
      · next b earlier =>
          have below := Nat.lt_trans (earlier_lt earlier) small
          obtain ⟨shared, suits⟩ := there.share (there.fits.slots b below) ⟨b, below, rfl⟩
          exact ⟨shared, rfl, fun other => suits (current other)⟩
      · next first =>
          obtain ⟨loaded, suits⟩ := there.load ((known named first).imp_left And.right)
          refine ⟨loaded, curl_loadfile _ _ _, fun other => suits ?_⟩
          exact (known named first).resolve_left fun same => other same.1

/-- What is loaded is as it was stored. -/
theorem Inv.reload (inv : e.Inv) : e.storerec.loadrec = e.storerec := by
  have linked : (e.storerec.layers e.curl).set = e.curset := by
    rw [storerec_slot]
    exact inv.current.linked.symm
  have map : (e.storerec.layers e.curl).map = e.map := records_map e
  have set : e.storerec.sets e.curset = e.set := records_set e
  have tbase := inv.current.tbase
  rw [loadrec]
  change { e.storerec with
    curset := (e.storerec.layers e.curl).set
    map := (e.storerec.layers e.curl).map
    set := e.storerec.sets (e.storerec.layers e.curl).set
    tbase := (e.storerec.layers e.curl).set * slice } = e.storerec
  rw [linked, map, set, ← tbase]
  rfl

theorem Inv.loadlayer (inv : e.Inv) (p : Staged) (files : Files) {l : Nat} (small : l < 3) :
    (e.loadlayer p files l).Inv := by
  have there := inv.switchq small
  rw [Editor.loadlayer]
  split
  · rw [there.reload]
    exact there.storerec
  · have loaded := there.loadmap (p.maps l) files
    rw [loaded.reload]
    exact loaded.storerec

theorem Settled.inv (settled : Settled m e) (current : e.Current) : e.Inv := by
  refine ⟨?_, settled.curl, settled.fits, current, ?_⟩
  · rw [settled.order]
  · rw [settled.undos]
    exact nofun

/-- A project whose order is one, and whose second and third layers' files can be opened. -/
theorem loadproj_inv (e : Editor) {p : Staged} {files : Files}
    (order : p.sorder.Perm [0, 1, 2])
    (known : ∀ l < 3, l ≠ 0 → p.tiles l ≠ [] → p.earlier l = none →
      Loads files e.map (p.tiles l)) : (e.loadproj p files).Inv := by
  have start := newproj_settled e
  have own : e.newproj.curl = 0 := rfl
  have uses : e.newproj.records.slot 0 = 0 := by
    rw [records_newproj]
  obtain ⟨first, curl, -⟩ := start.loadset p files (l := 0) (by decide)
    fun _ _ => .inl ⟨own.symm, 0, by decide, uses⟩
  obtain ⟨second, curl', -⟩ := first.loadset p files (l := 1) (by decide)
    fun named alone => .inr (known 1 (by decide) (by decide) named alone)
  obtain ⟨third, -, current⟩ := second.loadset p files (l := 2) (by decide)
    fun named alone => .inr (known 2 (by decide) (by decide) named alone)
  have sets := third.inv (current (by rw [curl']; decide))
  have maps := ((sets.loadlayer p files (l := 0) (by decide)).loadlayer p files (l := 1)
    (by decide)).loadlayer p files (l := 2) (by decide)
  have edited : (if p.edit.toNat < 3 then p.edit.toNat else 0) < 3 := by
    split
    · assumption
    · decide
  exact ((maps.with_order order).switchq edited).redrawall

end Editor

end Pugputer.Tilekit

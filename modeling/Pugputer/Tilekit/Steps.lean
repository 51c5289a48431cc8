import Pugputer.Tilekit.Rooms

namespace Pugputer.Tilekit

/-! What holds after every command but the ones that make or open a set of layers. -/

/-- A step that can be undone: its tile is one of its layer's. -/
def Records.Undoable (r : Records) (s : Step) : Prop :=
  s.layer < 3 ∧ (s.map = false → s.tile < (r.sets (r.slot s.layer)).ntiles)

namespace Editor

structure Inv (e : Editor) : Prop where
  order : e.order.Perm [0, 1, 2]
  curl : e.curl < 3
  fits : e.records.Fits
  current : e.Current
  undos : ∀ s ∈ e.undos, e.records.Undoable s

variable {e : Editor}

/-- The order and the steps of undo are nothing to the layer being edited. -/
theorem Current.others (current : e.Current) (order : List Nat) (undos : List Step) :
    { e with order := order, undos := undos }.Current :=
  ⟨current.linked, current.shift, current.maxt, current.tbase, current.place⟩

namespace Inv

variable (inv : e.Inv)

include inv

theorem curset_lt : e.curset < 3 := by
  rw [inv.current.linked]
  exact inv.fits.slots e.curl inv.curl

theorem count : e.set.ntiles ≤ 1024 := by
  rw [← records_set]
  exact inv.fits.counts e.curset inv.curset_lt

theorem tile : e.set.tile < e.set.ntiles := by
  rw [← records_set]
  refine inv.fits.tiles e.curset inv.curset_lt ?_
  rw [inv.current.linked]
  exact inv.fits.used e.curl inv.curl

theorem room : e.set.bytes + (e.records.maps e.curset).lmapbytes ≤ slice := by
  have fits := inv.fits.room e.curl inv.curl
  rw [← inv.current.linked, records_set] at fits
  exact fits

theorem storerec : e.storerec.Inv := by
  refine ⟨inv.order, inv.curl, ?_, inv.current.storerec, ?_⟩
  · rw [records_storerec]
    exact inv.fits
  · rw [records_storerec]
    exact inv.undos

/-- Another layer's variables loaded. -/
theorem switchq {b : Nat} (small : b < 3) : (e.switchq b).Inv := by
  rw [Editor.switchq]
  split
  · exact inv
  · have same : { e.storerec with curl := b }.loadrec.setproj.mapcalc.records = e.records := by
      rw [records_mapcalc, records_setproj, records_loadrec]
      exact kept_storerec e
    refine ⟨inv.order, small, ?_, Current.loaded _, ?_⟩
    · rw [same]
      exact inv.fits
    · rw [same]
      exact inv.undos

end Inv

theorem records_switchq (b : Nat) : (e.switchq b).records = e.records := by
  rw [Editor.switchq]
  split
  · rfl
  · rw [records_mapcalc, records_setproj, records_loadrec]
    exact kept_storerec e

theorem curl_switchq (b : Nat) : (e.switchq b).curl = b := by
  rw [Editor.switchq]
  split
  · next same => exact same.symm
  · rfl

theorem undos_switchq (b : Nat) : (e.switchq b).undos = e.undos := by
  rw [Editor.switchq]
  split
  · rfl
  · rfl

/-- SELLAYER is SWITCHQ, and draws. -/
theorem sellayer_eq (b : Nat) :
    e.sellayer b = if b = e.curl then e else (e.switchq b).storerec := by
  rw [sellayer, Editor.switchq]
  split
  · rfl
  · rfl

theorem records_sellayer (b : Nat) : (e.sellayer b).records = e.records := by
  rw [sellayer_eq]
  split
  · rfl
  · rw [records_storerec, records_switchq]

theorem curl_sellayer (b : Nat) : (e.sellayer b).curl = b := by
  rw [sellayer_eq]
  split
  · next same => exact same.symm
  · exact curl_switchq b

theorem Inv.sellayer (inv : e.Inv) {b : Nat} (small : b < 3) : (e.sellayer b).Inv := by
  rw [sellayer_eq]
  split
  · exact inv
  · exact (inv.switchq small).storerec

/-- The set's variables changed to more tiles, or another of them. -/
theorem Inv.with_set (inv : e.Inv) {v : TileSet} (kind : v.kind = e.set.kind)
    (more : e.set.ntiles ≤ v.ntiles) (count : v.ntiles ≤ 1024) (tile : v.tile < v.ntiles)
    (room : v.bytes + (e.records.maps e.curset).lmapbytes ≤ slice) :
    { e with set := v }.Inv := by
  have changed := records_with_set e v
  refine ⟨inv.order, inv.curl, ?_, ⟨?_, ?_, ?_, inv.current.tbase, inv.current.place⟩, ?_⟩
  · rw [changed]
    exact inv.fits.update_set count tile room
  · exact inv.current.linked
  · exact inv.current.shift.trans (congrArg Kind.tbshof kind.symm)
  · rw [changed]
    dsimp only
    rw [kind]
    exact inv.current.maxt
  · intro s member
    obtain ⟨layer, below⟩ := inv.undos s member
    rw [changed]
    refine ⟨layer, fun tiles => ?_⟩
    have inside := below tiles
    dsimp only
    by_cases here : e.records.slot s.layer = e.curset
    · rw [here, Function.update_self]
      rw [here, records_set] at inside
      exact Nat.lt_of_lt_of_le inside more
    · rw [Function.update_of_ne here]
      exact inside

theorem Inv.addtile (inv : e.Inv) : e.addtile.Inv := by
  rw [Editor.addtile]
  split
  · exact inv
  · next full =>
      have fits : e.set.ntiles + 1 ≤ (e.records.maps e.curset).fits e.set.kind.tbshof := by
        rw [← inv.current.maxt]
        exact Nat.lt_of_not_le full
      obtain ⟨count, room⟩ := MapSize.le_fits.mp fits
      exact inv.with_set rfl (Nat.le_succ _) count (Nat.lt_succ_self _) room

theorem Inv.seltile (inv : e.Inv) {d : Nat} (below : d < e.set.ntiles) : (e.seltile d).Inv :=
  inv.with_set rfl (Nat.le_refl _) inv.count below inv.room

theorem Inv.choose (inv : e.Inv) (d : Nat) : (e.choose d).Inv := by
  rw [Editor.choose]
  split
  · exact inv
  · next below => exact inv.seltile (Nat.lt_of_not_le below)

theorem Inv.push (inv : e.Inv) {s : Step} (undoable : e.records.Undoable s) : (e.push s).Inv := by
  refine ⟨inv.order, inv.curl, inv.fits, inv.current.others _ _, fun s' member => ?_⟩
  rcases List.mem_cons.mp (List.mem_of_mem_take member) with rfl | old
  · exact undoable
  · exact inv.undos s' old

theorem Inv.pushundo (inv : e.Inv) : e.pushundo.Inv := by
  refine inv.push ⟨inv.curl, fun _ => ?_⟩
  dsimp only
  rw [← inv.current.linked, records_set]
  exact inv.tile

theorem Inv.pushmapu (inv : e.Inv) : e.pushmapu.Inv :=
  inv.push ⟨inv.curl, fun tiles => absurd tiles Bool.noConfusion⟩

theorem Inv.undo (inv : e.Inv) : e.undo.Inv := by
  rw [Editor.undo]
  split
  · exact inv
  · next s rest steps =>
      have undoable := inv.undos s (steps ▸ List.mem_cons_self)
      have fewer : { e with undos := rest }.Inv :=
        ⟨inv.order, inv.curl, inv.fits, inv.current.others _ _, fun s' member =>
          inv.undos s' (steps ▸ List.mem_cons_of_mem s member)⟩
      have there := fewer.sellayer undoable.1
      dsimp only
      split
      · exact there
      · next tiles =>
          refine there.seltile ?_
          have below := undoable.2 (Bool.eq_false_iff.mpr tiles)
          rw [← records_set, there.current.linked, records_sellayer, curl_sellayer]
          exact below

/-! The order. -/

theorem layerback_perm (l : Nat) (order : List Nat) : (layerback l order).Perm order := by
  fun_induction layerback l order with
  | case1 b rest => exact .refl _
  | case2 a rest => exact .swap _ _ _
  | case3 a b rest notHere notNext ih => exact ih.cons a
  | case4 short => exact .refl _

theorem layerfwd_perm (l : Nat) (order : List Nat) : (layerfwd l order).Perm order := by
  fun_induction layerfwd l order with
  | case1 b rest => exact .swap _ _ _
  | case2 a b rest notHere ih => exact ih.cons a
  | case3 short => exact .refl _

theorem Inv.with_order (inv : e.Inv) {order : List Nat} (perm : order.Perm [0, 1, 2]) :
    { e with order := order }.Inv :=
  ⟨perm, inv.curl, inv.fits, inv.current.others _ _, inv.undos⟩

end Editor

end Pugputer.Tilekit

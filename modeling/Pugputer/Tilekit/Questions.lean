import Pugputer.Tilekit.Opened

namespace Pugputer.Tilekit

/-! The layer questions. -/

/-- A layer with a set of its own, and a map, that fit in its room. -/
theorem Records.Fits.remake {r : Records} (fits : r.Fits) {l : Nat} (small : l < 3) {v : TileSet}
    {m : MapSize} (count : v.ntiles ≤ 1024) (tile : v.tile < v.ntiles)
    (room : v.bytes + m.lmapbytes ≤ slice) :
    Records.Fits ⟨Function.update r.sets l v, Function.update r.maps l m,
      Function.update r.slot l l⟩ := by
  have slot (l' : Nat) (low : l' < 3) (other : Function.update r.slot l l l' ≠ l) :
      Function.update r.slot l l l' = r.slot l' := by
    refine Function.update_of_ne (fun same => other ?_) _ _
    rw [same, Function.update_self]
  refine ⟨fun l' low => ?_, fun s low => ?_, fun s low => ?_, fun l' low => ?_, fun l' low => ?_⟩
  · dsimp only
    by_cases here : l' = l
    · rw [here, Function.update_self]
      exact small
    · rw [Function.update_of_ne here]
      exact fits.slots l' low
  · dsimp only
    by_cases here : s = l
    · rw [here, Function.update_self]
      exact count
    · rw [Function.update_of_ne here]
      exact fits.counts s low
  · dsimp only
    by_cases here : s = l
    · rw [here, Function.update_self]
      exact fun _ => tile
    · rw [Function.update_of_ne here]
      exact fits.tiles s low
  · dsimp only
    by_cases here : Function.update r.slot l l l' = l
    · rw [here, Function.update_self]
      exact Nat.zero_lt_of_lt tile
    · rw [Function.update_of_ne here, slot l' low here]
      exact fits.used l' low
  · dsimp only
    by_cases here : Function.update r.slot l l l' = l
    · rw [here, Function.update_self, Function.update_self]
      exact room
    · rw [Function.update_of_ne here, Function.update_of_ne here, slot l' low here]
      exact fits.room l' low

namespace Editor

variable {e : Editor} {q : Answers}

theorem kept_setslot (e : Editor) (l s : Nat) :
    (e.setslot l s).kept = { e.kept with slot := Function.update e.kept.slot l s } := by
  refine Records.ext rfl ?_ ?_
  · refine (Function.comp_update Layer.map e.layers l _).trans ?_
    exact Function.update_eq_self l (Layer.map ∘ e.layers)
  · exact Function.comp_update Layer.set e.layers l _

theorem kept_resizemap (e : Editor) (m : MapSize) :
    (e.resizemap m).kept = { e.kept with maps := Function.update e.kept.maps e.curl m } := by
  refine Records.ext rfl ?_ ?_
  · exact Function.comp_update Layer.map e.layers e.curl _
  · refine (Function.comp_update Layer.set e.layers e.curl _).trans ?_
    exact Function.update_eq_self e.curl (Layer.set ∘ e.layers)

/-- What becomes of slot CURL's set. -/
def remade (e : Editor) (q : Answers) : TileSet :=
  let s := e.sets e.curl
  let s := if e.lconv q = 1 then { s with kind := s.kind.deep }
    else if e.lconv q = 2 then ⟨q.kind, 1, 0, []⟩
    else s
  if s.ntiles = 0 ∧ q.psrc = e.curl then ⟨q.kind, 1, 0, []⟩ else s

/-- Slot CURL's record. -/
def putset (e : Editor) (v : TileSet) : Editor :=
  { e with sets := Function.update e.sets e.curl v }

/-- LDLGDO2: a slot with no tiles gets one. -/
theorem renewed (e : Editor) (v : TileSet) (k : Kind) (psrc : Nat) :
    (if ((e.putset v).sets (e.putset v).curl).ntiles = 0 ∧ psrc = (e.putset v).curl then
      (e.putset v).newslot k else e.putset v) =
      e.putset (if v.ntiles = 0 ∧ psrc = e.curl then ⟨k, 1, 0, []⟩ else v) := by
  have here : (e.putset v).sets (e.putset v).curl = v := Function.update_self _ _ _
  have curl : (e.putset v).curl = e.curl := rfl
  rw [here, curl]
  split
  · rw [newslot, putset, putset]
    dsimp only
    rw [Function.update_idem]
  · rfl

theorem putset_self (e : Editor) : e.putset (e.sets e.curl) = e := by
  rw [putset, Function.update_eq_self]

/-- From RESIZEMAP on. -/
def finish (e : Editor) (m : MapSize) : Editor :=
  ({ e.resizemap m with undos := [] } : Editor).loadrec.setproj.redrawall

theorem ldlgdo_eq (e : Editor) (q : Answers) :
    e.ldlgdo q = ((e.setslot e.curl q.psrc).putset (e.remade q)).finish q.map := by
  have after (v : TileSet) := renewed (e.setslot e.curl q.psrc) v q.kind q.psrc
  rw [ldlgdo, remade]
  by_cases one : e.lconv q = 1
  · rw [if_pos one, if_pos one]
    exact congrArg (finish · q.map) (after _)
  · rw [if_neg one, if_neg one]
    by_cases two : e.lconv q = 2
    · rw [if_pos two, if_pos two]
      exact congrArg (finish · q.map) (after _)
    · rw [if_neg two, if_neg two]
      have same := after ((e.setslot e.curl q.psrc).sets (e.setslot e.curl q.psrc).curl)
      rw [putset_self] at same
      exact congrArg (finish · q.map) same

theorem records_finish (e : Editor) (m : MapSize) : (e.finish m).records =
    { e.kept with maps := Function.update e.kept.maps e.curl m } := by
  rw [finish, Editor.redrawall, records_mapsetup, records_setproj, records_loadrec]
  exact kept_resizemap e m

theorem records_ldlgdo (e : Editor) (q : Answers) : (e.ldlgdo q).records =
    ⟨Function.update e.kept.sets e.curl (e.remade q), Function.update e.kept.maps e.curl q.map,
      Function.update e.kept.slot e.curl q.psrc⟩ := by
  have slots := kept_setslot e e.curl q.psrc
  have maps : (e.setslot e.curl q.psrc).kept.maps = e.kept.maps := by
    rw [slots]
  have slot := congrArg Records.slot slots
  have resized := congrArg (fun f => Function.update f e.curl q.map) maps
  rw [ldlgdo_eq, records_finish]
  exact Records.ext rfl resized slot

theorem Current.finish (e : Editor) (m : MapSize) : (e.finish m).Current :=
  (Current.loaded _).storerec

/-- What LCONV says of the set, its own layer's. -/
theorem lconv_cases (own : q.psrc = e.curl) :
    e.lconv q = 0 ∧ (e.sets e.curl).ntiles ≠ 0 ∨
      e.lconv q = 1 ∧ (e.sets e.curl).ntiles ≠ 0 ∧ q.kind.tsize = (e.sets e.curl).kind.tsize ∧
        q.kind.bpp = 8 ∨
      e.lconv q = 2 := by
  rw [lconv, if_neg (not_not_intro own)]
  split
  · exact .inr (.inr rfl)
  · next some =>
      split
      · exact .inr (.inr rfl)
      · next size =>
          split
          · exact .inl ⟨rfl, some⟩
          · split
            · next deep => exact .inr (.inl ⟨rfl, some, not_not.mp size, deep⟩)
            · exact .inr (.inr rfl)

theorem lconv_other (other : q.psrc ≠ e.curl) : e.lconv q = 0 := if_pos other

/-- A set of another layer is chosen: slot CURL's stays. -/
theorem remade_other (other : q.psrc ≠ e.curl) : e.remade q = e.sets e.curl := by
  have conv : e.lconv q = 0 := lconv_other other
  rw [remade, conv]
  exact if_neg fun none => other none.2

/-- The room that LROOM finds. -/
theorem lroom_room (room : e.lroom q = true)
    (used : q.psrc = e.curl ∨ ∃ l < 3, l ≠ e.curl ∧ (e.layers l).set = e.curl) :
    units (if (e.sets e.curl).ntiles = 0 then 1 else (e.sets e.curl).ntiles)
      (if e.lconv q = 0 then (e.sets e.curl).kind.tbshof else q.kind.tbshof) + q.map.units ≤
        slice / 32 := by
  have inUse : q.psrc = e.curl ∨
      (List.range 3).any (fun l => l ≠ e.curl ∧ (e.layers l).set = e.curl) = true := by
    refine used.imp_right ?_
    rintro ⟨l, small, other, uses⟩
    exact List.any_eq_true.mpr ⟨l, List.mem_range.mpr small, decide_eq_true ⟨other, uses⟩⟩
  have found := of_decide_eq_true room
  rw [if_pos inUse, Nat.add_comm] at found
  exact found

/-- The set of the layer's own room: it and the new map fit. -/
theorem remade_own (own : q.psrc = e.curl) (room : e.lroom q = true)
    (count : (e.sets e.curl).ntiles ≤ 1024)
    (tile : 0 < (e.sets e.curl).ntiles → (e.sets e.curl).tile < (e.sets e.curl).ntiles) :
    (e.remade q).ntiles ≤ 1024 ∧ (e.remade q).tile < (e.remade q).ntiles ∧
      (e.remade q).bytes + q.map.lmapbytes ≤ slice := by
  have fits := lroom_room room (.inl own)
  have map := q.map.units_bytes
  have size : slice / 32 = 1536 := rfl
  have whole : slice = 0xC000 := rfl
  rcases lconv_cases own with ⟨conv, some⟩ | ⟨conv, some, square, deep⟩ | conv
  · have same : e.remade q = e.sets e.curl := by
      rw [remade, conv]
      exact if_neg fun none => some none.1
    have tiles := units_bytes (e.sets e.curl)
    rw [conv, if_neg some, if_pos rfl] at fits
    rw [same]
    exact ⟨count, tile (Nat.pos_of_ne_zero some), by omega⟩
  · have kind : q.kind.tbshof =
        (⟨(e.sets e.curl).kind.tsize, 8, (e.sets e.curl).kind.sizes, .inr rfl⟩ : Kind).tbshof := by
      rw [Kind.tbshof, Kind.tbshof, square, deep]
    have same : e.remade q = { e.sets e.curl with
        kind := ⟨(e.sets e.curl).kind.tsize, 8, (e.sets e.curl).kind.sizes, .inr rfl⟩ } := by
      rw [remade, conv]
      exact if_neg fun none => some none.1
    have tiles := units_bytes (e.remade q)
    rw [conv, if_neg some, if_neg Nat.one_ne_zero, kind] at fits
    rw [same] at tiles ⊢
    dsimp only at tiles ⊢
    exact ⟨count, tile (Nat.pos_of_ne_zero some), by omega⟩
  · have same : e.remade q = ⟨q.kind, 1, 0, []⟩ := by
      rw [remade, conv]
      exact if_neg fun none => Nat.one_ne_zero none.1
    have tiles := units_bytes ⟨q.kind, 1, 0, []⟩
    have more : units 1 q.kind.tbshof ≤
        units (if (e.sets e.curl).ntiles = 0 then 1 else (e.sets e.curl).ntiles) q.kind.tbshof := by
      rw [units, units, Nat.shiftLeft_eq, Nat.shiftLeft_eq]
      refine Nat.mul_le_mul_right _ ?_
      split
      · exact Nat.le_refl 1
      · next some => exact Nat.pos_of_ne_zero some
    rw [conv, if_neg (Nat.succ_ne_zero 1)] at fits
    rw [same]
    dsimp only at tiles ⊢
    exact ⟨by decide, Nat.one_pos, by omega⟩

/-- A slot's set and the map in its room are ones a layer can use. -/
def Usable (e : Editor) (s : Nat) : Prop :=
  0 < (e.sets s).ntiles ∧ (e.sets s).bytes + (e.layers s).map.lmapbytes ≤ slice

/-- The questions answered with the layer's own set, or with one it can use. -/
theorem Inv.ldlgdo (inv : e.Inv) (synced : e.storerec = e) (room : e.lroom q = true)
    (known : q.psrc = e.curl ∨ e.Usable q.psrc) : (e.ldlgdo q).Inv := by
  have records : e.kept = e.records := by
    rw [← kept_storerec, synced]
  have sets : e.records.sets = e.sets := congrArg Records.sets records.symm
  have maps : e.records.maps = fun l => (e.layers l).map := congrArg Records.maps records.symm
  have finished : (e.ldlgdo q).Current := by
    rw [ldlgdo_eq]
    exact Current.finish _ _
  refine ⟨?_, ?_, ?_, finished, ?_⟩
  · rw [ldlgdo_eq]
    exact inv.order
  · rw [ldlgdo_eq]
    exact inv.curl
  · rw [records_ldlgdo, records]
    by_cases own : q.psrc = e.curl
    · have count := inv.fits.counts e.curl inv.curl
      have tile := inv.fits.tiles e.curl inv.curl
      rw [sets] at count tile
      obtain ⟨most, below, inside⟩ := remade_own own room count tile
      rw [own]
      exact inv.fits.remake inv.curl most below inside
    · obtain ⟨used, inside⟩ := known.resolve_left own
      rw [remade_other own, ← sets, Function.update_eq_self]
      rw [← sets] at used
      have inside' : (e.records.sets q.psrc).bytes + (e.records.maps q.psrc).lmapbytes ≤ slice := by
        rw [sets, maps]
        exact inside
      refine (inv.fits.update_slot q.slot used inside').update_map fun l' low uses' => ?_
      dsimp only at uses' ⊢
      have other : l' ≠ e.curl := by
        rintro rfl
        rw [Function.update_self] at uses'
        exact own uses'
      rw [Function.update_of_ne other] at uses'
      have fits := lroom_room room (.inr ⟨l', low, other, uses'⟩)
      have some : (e.sets e.curl).ntiles ≠ 0 := by
        have used' := inv.fits.used l' low
        rw [uses', sets] at used'
        exact Nat.ne_of_gt used'
      have tiles := units_bytes (e.sets e.curl)
      have map := q.map.units_bytes
      have size : slice / 32 = 1536 := rfl
      have whole : slice = 0xC000 := rfl
      rw [lconv_other own, if_neg some, if_pos rfl] at fits
      rw [sets]
      omega
  · rw [ldlgdo_eq]
    exact nofun

theorem Inv.ldlgapply (inv : e.Inv) (yes : Bool)
    (known : q.psrc = e.curl ∨ e.storerec.Usable q.psrc ∨ e.storerec.lroom q = false) :
    (e.ldlgapply q yes).Inv := by
  have stored := inv.storerec
  rw [Editor.ldlgapply]
  split
  · exact stored
  · next room =>
      split
      · exact stored
      · refine stored.ldlgdo e.storerec_storerec (not_not.mp room) ?_
        rcases known with own | usable | refused
        · exact .inl own
        · exact .inr usable
        · rw [refused] at room
          exact absurd Bool.false_ne_true room

end Editor

end Pugputer.Tilekit

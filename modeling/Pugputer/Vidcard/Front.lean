import Pugputer.Vidcard.Compose

namespace Pugputer.Vidcard

theorem front_cons (v : Byte) (vs : List Byte) (back : Byte) :
    ((v :: vs).findSome? shown).getD back = (shown v).getD ((vs.findSome? shown).getD back) := by
  rw [List.findSome?_cons]
  cases shown v with
  | none => rfl
  | some _ => rfl

theorem front_append (us vs : List Byte) (back : Byte) :
    ((us ++ vs).findSome? shown).getD back =
      (us.findSome? shown).getD ((vs.findSome? shown).getD back) := by
  rw [List.findSome?_append, Option.getD_or]

theorem front_nonzero {vs : List Byte} {v : Byte} (front : vs.findSome? shown = some v) :
    v ≠ 0 := by
  obtain ⟨u, -, found⟩ := List.exists_of_findSome?_eq_some front
  rw [shown] at found
  split at found
  · cases found
  · rename_i visible
    obtain rfl := Option.some.inj found
    exact visible

namespace Card

variable {c : Card}

/-- A sprite is its table entry's eight bytes. -/
theorem entry_same {a b : Bytes} (same : ∀ i < 8, a i = b i) :
    sprPrio a = sprPrio b ∧ sprW a = sprW b ∧ sprH a = sprH b ∧ sprX a = sprX b ∧
      sprY a = sprY b ∧ sprBpp a = sprBpp b ∧ sprImage a = sprImage b ∧ a 6 = b 6 ∧
      a 7 = b 7 := by
  have at0 := same 0 (by decide)
  have at1 := same 1 (by decide)
  have at2 := same 2 (by decide)
  have at3 := same 3 (by decide)
  have at4 := same 4 (by decide)
  have at5 := same 5 (by decide)
  have at6 := same 6 (by decide)
  have at7 := same 7 (by decide)
  simp only [sprPrio, sprW, sprH, sprX, sprY, sprBpp, sprImage, s16, be16, at0, at1, at2, at3, at4,
    at5, at6, at7, and_self]

theorem attrByte_spriteAt {attr : Nat} (whole : attr ≤ 0x40000 - 8) {i : Nat} (inEntry : i < 8) :
    c.attrByte attr i = c.spriteAt attr i := by
  rw [attrByte, spriteAt, video, Nat.mod_eq_of_lt (by omega)]

theorem spritePixel_eq (c : Card) (a : Bytes) (row i : Nat) :
    c.spritePixel a row i =
      colored (sprBpp a) ((a 7).toNat % 16)
        (c.packed (sprImage a) (sprBpp a)
          (row * sprW a + if (a 6).getLsbD 4 then sprW a - 1 - i else i)) := by
  have offset : (a 7 &&& 15#8).toNat = (a 7).toNat % 16 := by
    rw [BitVec.toNat_and]
    exact Nat.and_two_pow_sub_one_eq_mod _ 4
  have depth : sprBpp a = 8 ∨ sprBpp a = 4 := by
    rw [sprBpp]
    split
    · exact .inl rfl
    · exact .inr rfl
  rw [spritePixel, offset]
  rcases depth with eight | four
  · rw [eight]
    exact drawn_value c (.inr (.inr (.inr rfl))) _ _ _
  · rw [four]
    exact drawn_value c (.inr (.inr (.inl rfl))) _ _ _

/-- A table entry as one of the line's sprites. -/
def toLineSprite (c : Card) (sy attr : Nat) : LineSprite :=
  let a := c.attrByte attr
  let row := ((sy : Int) - sprY a).toNat
  ⟨attr, if (a 6).getLsbD 5 then sprH a - 1 - row else row⟩

theorem lineSpritesFrom_eq (c : Card) (sy base left i n : Nat) :
    c.lineSpritesFrom sy base i n left =
      ((((((List.range' i left).map fun i => (base + 8 * i) % 0x40000).takeWhile
        (· ≤ 0x40000 - 8)).filter fun attr => onLine (c.spriteAt attr) sy).take (32 - n)).map
          (c.toLineSprite sy)) := by
  induction left generalizing i n with
  | zero => simp [lineSpritesFrom]
  | succ left ih =>
      rw [lineSpritesFrom, List.range'_succ, List.map_cons, and_vramMask]
      generalize (base + 8 * i) % 0x40000 = attr
      by_cases room : n < vcMaxLineSprites
      · rw [if_pos room]
        dsimp only
        by_cases beyond : vcVramSize - 8 < attr
        · have straddles : ¬(decide (attr ≤ 0x40000 - 8) = true) := by
            rw [decide_eq_true_eq]
            exact Nat.not_le.mpr beyond
          rw [if_pos beyond, List.takeWhile_cons, if_neg straddles]
          simp
        · have whole : attr ≤ 0x40000 - 8 := Nat.not_lt.mp beyond
          obtain ⟨prio, -, height, -, top, -, -, -, -⟩ :=
            entry_same fun i inEntry => attrByte_spriteAt (c := c) whole (i := i) inEntry
          have inWhile : decide (attr ≤ 0x40000 - 8) = true := decide_eq_true whole
          rw [if_neg beyond, List.takeWhile_cons, if_pos inWhile]
          by_cases hidden : sprPrio (c.attrByte attr) = 0
          · have off : ¬onLine (c.spriteAt attr) sy = true := by
              rw [onLine, ← prio, hidden]
              simp
            rw [if_pos hidden, List.filter_cons, if_neg off, ih]
          · rw [if_neg hidden]
            by_cases missed : (sy : Int) < sprY (c.attrByte attr) ∨
                sprY (c.attrByte attr) + sprH (c.attrByte attr) ≤ sy
            · have off : ¬onLine (c.spriteAt attr) sy = true := by
                rw [onLine, ← height, ← top]
                simp only [Bool.and_eq_true, decide_eq_true_eq]
                omega
              rw [if_pos missed, List.filter_cons, if_neg off, ih]
            · have on : onLine (c.spriteAt attr) sy = true := by
                rw [onLine, ← prio, ← height, ← top]
                simp only [Bool.and_eq_true, decide_eq_true_eq]
                exact ⟨⟨hidden, by omega⟩, by omega⟩
              have rest : 32 - n = 32 - (n + 1) + 1 := by
                change n < 32 at room
                omega
              rw [if_neg missed, List.filter_cons, if_pos on, rest, List.take_succ_cons,
                List.map_cons, ih]
              rfl
      · have none : 32 - n = 0 := Nat.sub_eq_zero_of_le (Nat.not_lt.mp room)
        rw [if_neg room, none, List.take_zero]
        rfl

theorem lineSprites_eq (c : Card) (y : Nat) :
    c.lineSprites y = (c.spritesAcross c.wholeEntries y).map
      (c.toLineSprite (y / scaleOf c.sprHires)) := by
  have scaled : (if c.sprHires then y else y / 2) = y / scaleOf c.sprHires := by
    rw [scaleOf]
    split
    · rw [Nat.div_one]
    · rfl
  rw [lineSprites, spritesAcross]
  split
  · rw [scaled, lineSpritesFrom_eq, ← List.range_eq_range']
    rfl
  · rfl

theorem spritesAcross_whole {y attr : Nat} (member : attr ∈ c.spritesAcross c.wholeEntries y) :
    attr ≤ 0x40000 - 8 := by
  rw [spritesAcross] at member
  split at member
  · have inTable := (List.mem_filter.mp (List.mem_of_mem_take member)).1
    exact of_decide_eq_true (List.all_eq_true.mp List.all_takeWhile attr inTable)
  · cases member

theorem renderSprites_cons (c : Card) (s : LineSprite) (list : List LineSprite) (prio : Nat)
    (idx : Line) :
    c.renderSprites (s :: list) prio idx =
      if sprPrio (c.attrByte s.attr) ≠ prio then c.renderSprites list prio idx
      else
        c.spriteLoop (c.attrByte s.attr) (scaleOf c.sprHires) s.row 0 (sprW (c.attrByte s.attr))
          (c.renderSprites list prio idx) := rfl

theorem toLineSprite_attr (c : Card) (sy attr : Nat) : (c.toLineSprite sy attr).attr = attr := rfl

theorem toLineSprite_row (c : Card) (sy attr : Nat) :
    (c.toLineSprite sy attr).row =
      if (c.attrByte attr 6).getLsbD 5 then
        sprH (c.attrByte attr) - 1 - ((sy : Int) - sprY (c.attrByte attr)).toNat
      else ((sy : Int) - sprY (c.attrByte attr)).toNat := rfl

/-- Sprites painted from the last: the first with a color there is in front. -/
theorem renderSprites_apply (c : Card) (attrs : List Nat) (whole : ∀ attr ∈ attrs, attr ≤ 0x40000 - 8)
    (sy prio : Nat) (idx : Line) {x : Nat} (column : x < 640) :
    c.renderSprites (attrs.map (c.toLineSprite sy)) prio idx x =
      (((attrs.filter fun attr => sprPrio (c.spriteAt attr) = prio).map fun attr =>
        c.spriteValue (c.spriteAt attr) (x / scaleOf c.sprHires) sy).findSome? shown).getD
          (idx x) := by
  induction attrs with
  | nil => rfl
  | cons attr attrs ih =>
      obtain ⟨prios, widths, heights, lefts, tops, depths, images, at6, at7⟩ :=
        entry_same fun i inEntry =>
          attrByte_spriteAt (c := c) (whole attr List.mem_cons_self) (i := i) inEntry
      have rest := ih fun attr member => whole attr (List.mem_cons_of_mem _ member)
      rw [List.map_cons, renderSprites_cons, toLineSprite_attr, toLineSprite_row]
      generalize c.renderSprites (attrs.map (c.toLineSprite sy)) prio idx = under at rest ⊢
      by_cases other : sprPrio (c.attrByte attr) = prio
      · have kept : decide (sprPrio (c.spriteAt attr) = prio) = true := by
          rw [← prios]
          exact decide_eq_true other
        rw [List.filter_cons, if_pos kept, List.map_cons, front_cons, ← rest]
        have drawn : ¬sprPrio (c.attrByte attr) ≠ prio := not_not_intro other
        rw [if_neg drawn, spriteLoop_apply c _ (scale_values c.sprHires) _ _ _ _
          column, spriteValue, spritePixel_eq]
        rw [widths, heights, lefts, tops, depths, images, at6, at7]
        generalize x / scaleOf c.sprHires = sx
        by_cases inside : 0 ≤ (sx : Int) - sprX (c.spriteAt attr) ∧
            (sx : Int) - sprX (c.spriteAt attr) < sprW (c.spriteAt attr)
        · rw [if_pos inside, if_pos (by push_cast; omega)]
        · rw [if_neg inside, if_neg (by push_cast; omega)]
          rfl
      · have left : ¬decide (sprPrio (c.spriteAt attr) = prio) = true := by
          rw [← prios]
          simpa using other
        rw [List.filter_cons, if_neg left, ← rest]
        have skipped : sprPrio (c.attrByte attr) ≠ prio := other
        rw [if_pos skipped]

/-- One turn of the loop over the layers puts a layer and the sprites in front of it on the
line. -/
theorem layerTurn_apply (c : Card) (whole : c.MapsWhole) {layer : Nat} (isLayer : layer < 3)
    (y : Nat) (idx : Line) {x : Nat} (column : x < 640) :
    (if (c.lineSprites y).length ≠ 0 then
      c.renderSprites (c.lineSprites y) (layer + 1)
        (if (c.cfg 0x00).getLsbD layer then c.renderLayer (c.layerCfg layer) y idx else idx)
      else if (c.cfg 0x00).getLsbD layer then c.renderLayer (c.layerCfg layer) y idx else idx) x =
      ((c.spritesInFront c.wholeEntries (layer + 1) y x ++ c.layerInFront layer y x).findSome?
        shown).getD (idx x) := by
  have layers : (if (c.cfg 0x00).getLsbD layer then c.renderLayer (c.layerCfg layer) y idx
      else idx) x = ((c.layerInFront layer y x).findSome? shown).getD (idx x) := by
    rw [layerInFront]
    by_cases on : (c.cfg 0x00).getLsbD layer = true
    · rw [if_pos on, if_pos on, front_cons, renderLayer_apply c _ y idx column fun tiles =>
        whole layer isLayer on tiles]
      rfl
    · rw [if_neg on, if_neg on]
      rfl
  generalize (if (c.cfg 0x00).getLsbD layer then c.renderLayer (c.layerCfg layer) y idx
    else idx) = under at layers ⊢
  rw [front_append, ← layers, spritesInFront, lineSprites_eq]
  have painted := renderSprites_apply c (c.spritesAcross c.wholeEntries y)
    (fun _ member => spritesAcross_whole member) (y / scaleOf c.sprHires) (layer + 1) under column
  rw [← painted]
  split
  · rfl
  · rename_i none
    have empty := List.length_eq_zero_iff.mp (not_not.mp none)
    rw [empty]
    rfl

/-- The line drawn back to front is the picture seen from the front. -/
theorem renderLine_picture (c : Card) (y : Nat) {x : Nat} (column : x < 640)
    (whole : c.MapsWhole) : c.renderLine y x = c.pictureOf c.wholeEntries y x := by
  have line : c.renderLayers y x = ((c.spritesInFront c.wholeEntries 3 y x ++ c.layerInFront 2 y x ++
      c.spritesInFront c.wholeEntries 2 y x ++ c.layerInFront 1 y x ++
      c.spritesInFront c.wholeEntries 1 y x ++ c.layerInFront 0 y x).findSome? shown).getD 0 := by
    have turns : List.range 3 = [0, 1, 2] := rfl
    rw [renderLayers, turns, List.foldl_cons, List.foldl_cons, List.foldl_cons, List.foldl_nil]
    rw [layerTurn_apply c whole (by decide) y _ column,
      layerTurn_apply c whole (by decide) y _ column,
      layerTurn_apply c whole (by decide) y _ column]
    simp only [front_append]
  rw [renderLine, pictureOf, line]
  generalize seen : List.findSome? shown _ = front
  cases front with
  | none => rfl
  | some v =>
      have visible := front_nonzero seen
      rw [Option.getD_some, Option.getD_some, if_pos visible]

/-- One layer of tiles, its map at the start of video memory. -/
def tileCard : Card :=
  { vram := fun _ => 0x11#8
    cfg := fun a => if a = 0x00 ∨ a = 0x10 then 1 else 0 }

theorem renderLine_picture_tiles :
    tileCard.renderLine 479 639 = tileCard.pictureOf tileCard.wholeEntries 479 639 := by
  refine renderLine_picture tileCard 479 (by decide) ?_
  intro layer _ _ _ x y straddles
  have base : lMapBase (tileCard.layerCfg layer) = 0 := by
    have zero (i : Nat) (offset : 2 ≤ i ∧ i ≤ 4) : tileCard.layerCfg layer i = 0 := by
      change (if 0x10 + 0x10 * layer + i = 0x00 ∨ 0x10 + 0x10 * layer + i = 0x10 then 1 else 0) =
        (0 : Byte)
      rw [if_neg (by omega)]
    rw [lMapBase, be24, zero _ (by decide), zero _ (by decide), zero _ (by decide)]
    rfl
  rw [tileEntry, base] at straddles
  omega

/-- Two sprites in a table whose first entry runs over the end of video memory; the second,
at the start, crosses line 0. -/
def strayCard : Card :=
  { vram := fun a => if a = 5 ∨ a = 32 then 1 else if a = 10 then 0x40 else if a = 11 then 0x80 else 0
    cfg := fun a =>
      if a = 0x00 then 0x08 else if a = 0x03 then 2 else if a = 0x04 then 0x03
      else if a = 0x05 then 0xFF else if a = 0x06 then 0xFC else if a = 0x203 then 0xFF else 0 }

theorem stray_sprite_hidden :
    strayCard.renderLine 0 0 ≠ strayCard.pictureOf strayCard.spriteTable 0 0 := by
  decide

end Card

end Pugputer.Vidcard

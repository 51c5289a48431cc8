import Mathlib.Data.List.Induction
import Pugputer.Lib.Logged
import Pugputer.Vidcard.Front

namespace Pugputer.Vidcard

/-! The picture once more, with every index into video memory and into the line's buffer. -/

inductive Use where
  | vram (i : Nat)
  | idx (i : Nat)

def Use.Inside : Use → Prop
  | .vram i => i < vcVramSize
  | .idx i => i < vcWidth

abbrev Using := Logged Use

def storeIdx (i : Nat) (v : Byte) (idx : Line) : Using Line :=
  Logged.note (.idx i) (Function.update idx i v)

def putPixelUsing (scale p : Nat) (v : Byte) (idx : Line) : Using Line :=
  if v ≠ 0 then
    if scale = 1 then storeIdx p v idx
    else do
      let idx ← storeIdx (2 * p) v idx
      storeIdx (2 * p + 1) v idx
  else pure idx

namespace Card

def read (c : Card) (i : Nat) : Using Byte := Logged.note (.vram i) (c.vramAt i)

def readWord (c : Card) (i : Nat) : Using Word := do
  let hi ← c.read i
  let lo ← c.read (i + 1)
  pure (word hi lo)

def textUsing (c : Card) (l : Bytes) (lx ly : Nat) : Using Byte := do
  let fh := if lBig l then 16 else 8
  let px := andBelow (lx + lHScroll l) (lMapW l * 8)
  let py := andBelow (ly + lVScroll l) (lMapH l * fh)
  let cell := lMapBase l + 4 * (py / fh * lMapW l + px / 8)
  let ch ← c.read (cell &&& vramMask)
  let glyph ← c.read ((lTileBase l + ch.toNat * fh + py % fh) &&& vramMask)
  c.read ((cell + if glyph >>> (7 - (px &&& 7)) &&& 1#8 ≠ 0 then 1 else 2) &&& vramMask)

def tileUsing (c : Card) (l : Bytes) (lx ly : Nat) : Using Byte := do
  let ts := if lBig l then 16 else 8
  let bpp := lBpp l
  let px := andBelow (lx + lHScroll l) (lMapW l * ts)
  let py := andBelow (ly + lVScroll l) (lMapH l * ts)
  let e ← c.readWord ((lMapBase l + 2 * (py / ts * lMapW l + px / ts)) &&& vramMask)
  let tx := px % ts
  let ty := py % ts
  let pal := e >>> 12
  let tx := if e &&& 0x400#16 ≠ 0 then ts - 1 - tx else tx
  let ty := if e &&& 0x800#16 ≠ 0 then ts - 1 - ty else ty
  let bit := (ty * ts + tx) * bpp
  let b ← c.read ((lTileBase l + (e &&& 0x3FF#16).toNat * (ts * ts * bpp / 8) + bit / 8) &&&
    vramMask)
  pure <|
    if bpp = 8 then b
    else
      let v := b >>> (8 - bpp - (bit &&& 7)) &&& ones bpp
      if v ≠ 0 then BitVec.ofNat 8 (pal.toNat * 16 + v.toNat) else v

def bitmapUsing (c : Card) (l : Bytes) (lx ly : Nat) : Using Byte :=
  let bpp := lBpp l
  let stride := lStride l
  let px := lx + lHScroll l
  let py := ly + lVScroll l
  if 0 ≤ px ∧ 0 ≤ py ∧ px < (stride * 8 / bpp : Nat) then do
    let bit := px.toNat * bpp
    let b ← c.read ((lMapBase l + py.toNat * stride + bit / 8) &&& vramMask)
    pure <|
      if bpp = 8 then b
      else
        let v := b >>> (8 - bpp - (bit &&& 7)) &&& ones bpp
        if v ≠ 0 then BitVec.ofNat 8 ((lPalOfs l).toNat * 16 + v.toNat) else v
  else pure 0

def layerUsing (c : Card) (l : Bytes) (lx ly : Nat) : Using Byte :=
  match lType l with
  | 0 => c.textUsing l lx ly
  | 1 => c.tileUsing l lx ly
  | 2 => c.bitmapUsing l lx ly
  | _ => pure 0

def layerLoopUsing (c : Card) (l : Bytes) (scale ly lx : Nat) : Nat → Line → Using Line
  | 0, idx => pure idx
  | count + 1, idx => do
      let v ← c.layerUsing l lx ly
      let idx ← putPixelUsing scale lx v idx
      c.layerLoopUsing l scale ly (lx + 1) count idx

def renderLayerUsing (c : Card) (l : Bytes) (y : Nat) (idx : Line) : Using Line :=
  let scale := scaleOf (lHires l)
  c.layerLoopUsing l scale (y / scale) 0 (vcWidth / scale) idx

/-- A sprite's table entry, the bytes of it that are read. -/
def readAttr (c : Card) (attr i : Nat) : Using Byte := c.read (attr + i)

def spriteUsing (c : Card) (attr row i : Nat) : Using Byte := do
  let a6 ← c.readAttr attr 6
  let w := 8 <<< (a6 &&& 3#8).toNat
  let a7 ← c.readAttr attr 7
  let bpp := if a7.getLsbD 7 then 8 else 4
  let img ← c.readWord attr
  let col := if a6.getLsbD 4 then w - 1 - i else i
  let bit := (row * w + col) * bpp
  let b ← c.read ((img.toNat * 32 + bit / 8) &&& vramMask)
  pure <|
    if bpp = 8 then b
    else
      let v := b >>> (4 - (bit &&& 7)) &&& 15#8
      if v ≠ 0 then BitVec.ofNat 8 ((a7 &&& 15#8).toNat * 16 + v.toNat) else v

def spriteLoopUsing (c : Card) (attr scale row i : Nat) : Nat → Line → Using Line
  | 0, idx => pure idx
  | count + 1, idx => do
      let x ← c.readWord (attr + 2)
      let sx := x.toInt + i
      let idx ←
        (if sx < 0 ∨ (vcWidth / scale : Nat) ≤ sx then pure idx
        else do
          let v ← c.spriteUsing attr row i
          putPixelUsing scale sx.toNat v idx)
      c.spriteLoopUsing attr scale row (i + 1) count idx

def renderSpritesUsing (c : Card) (prio : Nat) : List LineSprite → Line → Using Line
  | [], idx => pure idx
  | s :: rest, idx => do
      let idx ← c.renderSpritesUsing prio rest idx
      let a6 ← c.readAttr s.attr 6
      if (a6 >>> 6).toNat ≠ prio then pure idx
      else c.spriteLoopUsing s.attr (scaleOf c.sprHires) s.row 0 (8 <<< (a6 &&& 3#8).toNat) idx

def lineSpritesFromUsing (c : Card) (sy base i n : Nat) : Nat → Using (List LineSprite)
  | 0 => pure []
  | left + 1 =>
      if n < vcMaxLineSprites then
        let attr := (base + 8 * i) &&& vramMask
        if vcVramSize - 8 < attr then pure []
        else do
          let a6 ← c.readAttr attr 6
          if (a6 >>> 6).toNat = 0 then c.lineSpritesFromUsing sy base (i + 1) n left
          else do
            let top := (← c.readWord (attr + 4)).toInt
            let h := 8 <<< (a6 >>> 2 &&& 3#8).toNat
            if (sy : Int) < top ∨ top + h ≤ sy then
              c.lineSpritesFromUsing sy base (i + 1) n left
            else do
              let row := ((sy : Int) - top).toNat
              let rest ← c.lineSpritesFromUsing sy base (i + 1) (n + 1) left
              pure (⟨attr, if a6.getLsbD 5 then h - 1 - row else row⟩ :: rest)
      else pure []

def lineSpritesUsing (c : Card) (y : Nat) : Using (List LineSprite) :=
  if (c.cfg 0x00).getLsbD 3 then
    c.lineSpritesFromUsing (if c.sprHires then y else y / 2) (be24 c.cfg 0x04).toNat 0 0 c.sprCount
  else pure []

/-- A layer, and the sprites in front of it. -/
def layerTurnUsing (c : Card) (y : Nat) (list : List LineSprite) (idx : Line) (layer : Nat) :
    Using Line := do
  let idx ←
    (if (c.cfg 0x00).getLsbD layer then c.renderLayerUsing (c.layerCfg layer) y idx else pure idx)
  if list.length ≠ 0 then c.renderSpritesUsing (layer + 1) list idx else pure idx

/-- `out[x]`, from `idx[x] ? idx[x] : …`. -/
def colorUsing (c : Card) (idx : Line) (out : Nat → Word) (x : Nat) : Using (Nat → Word) := do
  let v ← Logged.note (.idx x) (idx x)
  let v ← (if v ≠ 0 then Logged.note (.idx x) (idx x) else pure (c.cfg 0x01))
  pure (Function.update out x (c.palette v))

def renderLineUsing (c : Card) (y : Nat) (out : Nat → Word) : Using (Nat → Word) := do
  let list ← c.lineSpritesUsing y
  let idx ← (List.range 3).foldlM (c.layerTurnUsing y list) fun _ => 0
  (List.range vcWidth).foldlM (c.colorUsing idx) out

/-! The picture is the one of `renderLine`. -/

theorem vramAt_masked (c : Card) (a : Nat) : c.vramAt (a &&& vramMask) = c.vram (a &&& vramMask) := by
  rw [and_vramMask]
  exact if_pos (Nat.mod_lt a (by decide))

@[simp] theorem read_value (c : Card) (i : Nat) : (c.read i).value = c.vramAt i := rfl

@[simp] theorem readWord_value (c : Card) (i : Nat) : (c.readWord i).value = be16 c.vramAt i := rfl

theorem textUsing_value (c : Card) (l : Bytes) (lx ly : Nat) :
    (c.textUsing l lx ly).value = c.textValue l lx ly := by
  simp only [textUsing, textValue, Logged.value_bind, read_value, vramAt_masked]

theorem tileUsing_value (c : Card) (l : Bytes) (lx ly : Nat) :
    (c.tileUsing l lx ly).value = c.tileValue l lx ly := by
  simp only [tileUsing, Logged.value_bind, Logged.value_pure, read_value, readWord_value,
    vramAt_masked]
  rfl

theorem bitmapUsing_value (c : Card) (l : Bytes) (lx ly : Nat) :
    (c.bitmapUsing l lx ly).value = c.bitmapValue l lx ly := by
  rw [bitmapUsing, bitmapValue]
  dsimp only
  split
  · simp only [Logged.value_bind, Logged.value_pure, read_value, vramAt_masked]
  · rfl

theorem layerUsing_value (c : Card) (l : Bytes) (lx ly : Nat) :
    (c.layerUsing l lx ly).value = c.layerValue l lx ly := by
  rw [layerUsing, layerValue]
  generalize lType l = type
  rcases type with _ | _ | _ | type
  · exact textUsing_value c l lx ly
  · exact tileUsing_value c l lx ly
  · exact bitmapUsing_value c l lx ly
  · rfl

end Card

theorem putPixelUsing_value (scale p : Nat) (v : Byte) (idx : Line) :
    (putPixelUsing scale p v idx).value = putPixel scale p v idx := by
  rw [putPixelUsing, putPixel]
  split
  · split <;> rfl
  · rfl

namespace Card

theorem layerLoopUsing_value (c : Card) (l : Bytes) (scale ly lx count : Nat) (idx : Line) :
    (c.layerLoopUsing l scale ly lx count idx).value = c.layerLoop l scale ly lx count idx := by
  induction count generalizing lx idx with
  | zero => rfl
  | succ count ih =>
      simp only [layerLoopUsing, layerLoop, Logged.value_bind, layerUsing_value,
        putPixelUsing_value, ih]

theorem renderLayerUsing_value (c : Card) (l : Bytes) (y : Nat) (idx : Line) :
    (c.renderLayerUsing l y idx).value = c.renderLayer l y idx :=
  layerLoopUsing_value c l _ _ _ _ idx

/-- A sprite's table entry ends in video memory. -/
def EntryInside (attr : Nat) : Prop := attr + 8 ≤ vcVramSize

theorem entryInside_of_not_lt {attr : Nat} (fits : ¬vcVramSize - 8 < attr) : EntryInside attr := by
  rw [EntryInside]
  have size : vcVramSize = 0x40000 := rfl
  omega

variable {c : Card} {attr : Nat}

theorem vramAt_entry (inside : EntryInside attr) {i : Nat} (small : i < 8) :
    c.vramAt (attr + i) = c.attrByte attr i :=
  if_pos (Nat.lt_of_lt_of_le (Nat.add_lt_add_left small attr) inside)

theorem readAttr_value (inside : EntryInside attr) {i : Nat} (small : i < 8) :
    (c.readAttr attr i).value = c.attrByte attr i :=
  vramAt_entry inside small

theorem readWord_entry (inside : EntryInside attr) {i : Nat} (small : i + 1 < 8) :
    (c.readWord (attr + i)).value = be16 (c.attrByte attr) i := by
  rw [readWord_value, be16, vramAt_entry inside (Nat.lt_of_succ_lt small), Nat.add_assoc,
    vramAt_entry inside small, be16]

theorem spriteUsing_value (inside : EntryInside attr) (row i : Nat) :
    (c.spriteUsing attr row i).value = c.spritePixel (c.attrByte attr) row i := by
  have image : (c.readWord attr).value = be16 (c.attrByte attr) 0 :=
    readWord_entry inside (i := 0) (by decide)
  simp only [spriteUsing, Logged.value_bind, Logged.value_pure, image,
    readAttr_value inside (i := 6) (by decide), readAttr_value inside (i := 7) (by decide),
    read_value, vramAt_masked]
  rfl

theorem spriteLoopUsing_value (inside : EntryInside attr) (scale row i count : Nat) (idx : Line) :
    (c.spriteLoopUsing attr scale row i count idx).value =
      c.spriteLoop (c.attrByte attr) scale row i count idx := by
  induction count generalizing i idx with
  | zero => rfl
  | succ count ih =>
      rw [spriteLoopUsing, Logged.value_bind, readWord_entry inside (i := 2) (by decide),
        Logged.value_bind, ih, spriteLoop, sprX, s16]
      congr 1
      split
      · rfl
      · rw [Logged.value_bind, spriteUsing_value inside, putPixelUsing_value]

theorem renderSpritesUsing_value (prio : Nat) (list : List LineSprite) (idx : Line)
    (inside : ∀ s ∈ list, EntryInside s.attr) :
    (c.renderSpritesUsing prio list idx).value = c.renderSprites list prio idx := by
  induction list with
  | nil => rfl
  | cons s rest ih =>
      have entry := inside s List.mem_cons_self
      rw [renderSpritesUsing, Logged.value_bind, Logged.value_bind,
        ih fun t member => inside t (List.mem_cons_of_mem s member),
        readAttr_value entry (by decide), renderSprites_cons, sprPrio]
      split
      · rfl
      · exact spriteLoopUsing_value entry _ _ _ _ _

/-- The scan of the table stops before an entry that runs over the end. -/
theorem lineSpritesFromUsing_value (c : Card) (sy base i n left : Nat) :
    (c.lineSpritesFromUsing sy base i n left).value = c.lineSpritesFrom sy base i n left := by
  induction left generalizing i n with
  | zero => rfl
  | succ left ih =>
      rw [lineSpritesFromUsing, lineSpritesFrom]
      split
      · dsimp only
        split
        · rfl
        · next fits =>
          have inside := entryInside_of_not_lt fits
          rw [Logged.value_bind, readAttr_value inside (by decide), sprPrio]
          split
          · exact ih (i + 1) n
          · rw [Logged.value_bind, readWord_entry inside (by decide), sprY, s16, sprH]
            split
            · exact ih (i + 1) n
            · rw [Logged.value_bind, ih (i + 1) (n + 1)]
              rfl
      · rfl

theorem lineSpritesUsing_value (c : Card) (y : Nat) :
    (c.lineSpritesUsing y).value = c.lineSprites y := by
  rw [lineSpritesUsing, lineSprites]
  split
  · exact lineSpritesFromUsing_value c _ _ _ _ _
  · rfl

theorem lineSpritesFrom_inside (c : Card) (sy base i n left : Nat) :
    ∀ s ∈ c.lineSpritesFrom sy base i n left, EntryInside s.attr := by
  induction left generalizing i n with
  | zero =>
      intro s member
      exact absurd member List.not_mem_nil
  | succ left ih =>
      rw [lineSpritesFrom]
      split
      · dsimp only
        split
        · intro s member
          exact absurd member List.not_mem_nil
        · next fits =>
          split
          · exact ih (i + 1) n
          · split
            · exact ih (i + 1) n
            · exact List.forall_mem_cons.mpr ⟨entryInside_of_not_lt fits, ih (i + 1) (n + 1)⟩
      · intro s member
        exact absurd member List.not_mem_nil

theorem lineSprites_inside (c : Card) (y : Nat) : ∀ s ∈ c.lineSprites y, EntryInside s.attr := by
  rw [lineSprites]
  split
  · exact lineSpritesFrom_inside c _ _ _ _ _
  · intro s member
    exact absurd member List.not_mem_nil

theorem layerTurnUsing_value (c : Card) (y : Nat) (idx : Line) (layer : Nat) :
    (c.layerTurnUsing y (c.lineSprites y) idx layer).value =
      let idx := if (c.cfg 0x00).getLsbD layer then c.renderLayer (c.layerCfg layer) y idx else idx
      if (c.lineSprites y).length ≠ 0 then c.renderSprites (c.lineSprites y) (layer + 1) idx
      else idx := by
  rw [layerTurnUsing, Logged.value_bind]
  have drawn : (if (c.cfg 0x00).getLsbD layer then c.renderLayerUsing (c.layerCfg layer) y idx
      else pure idx : Using Line).value =
        if (c.cfg 0x00).getLsbD layer then c.renderLayer (c.layerCfg layer) y idx else idx := by
    split
    · exact renderLayerUsing_value c _ y idx
    · rfl
  rw [drawn]
  dsimp only
  split
  · exact renderSpritesUsing_value _ _ _ (lineSprites_inside c y)
  · rfl

theorem colorUsing_value (c : Card) (idx : Line) (out : Nat → Word) (x : Nat) :
    (c.colorUsing idx out x).value =
      Function.update out x (c.palette (if idx x ≠ 0 then idx x else c.cfg 0x01)) := by
  rw [colorUsing, Logged.value_bind, Logged.value_note, Logged.value_bind]
  split <;> rfl

/-- A loop that sets `out[x]` for every `x` of the list. -/
theorem foldl_update_apply (f : Nat → Word) (l : List Nat) (out : Nat → Word) {x : Nat}
    (member : x ∈ l) : l.foldl (fun out x => Function.update out x (f x)) out x = f x := by
  induction l using List.reverseRecOn with
  | nil => exact absurd member List.not_mem_nil
  | append_singleton l a ih =>
      rw [List.foldl_append, List.foldl_cons, List.foldl_nil]
      by_cases last : x = a
      · rw [last, Function.update_self]
      · rw [Function.update_of_ne last]
        exact ih ((List.mem_append.mp member).resolve_right (by simpa using last))

theorem renderLineUsing_value (c : Card) (y : Nat) (out : Nat → Word) {x : Nat}
    (column : x < vcWidth) : (c.renderLineUsing y out).value x = c.renderLine y x := by
  rw [renderLineUsing, Logged.value_bind, lineSpritesUsing_value, Logged.value_bind,
    Logged.value_foldlM, Logged.value_foldlM]
  simp only [layerTurnUsing_value, colorUsing_value]
  exact foldl_update_apply _ _ out (List.mem_range.mpr column)

/-! Every index, one function at a time. -/

theorem masked_inside (a : Nat) : (Use.vram (a &&& vramMask)).Inside := by
  rw [and_vramMask]
  exact Nat.mod_lt a (by decide)

@[simp] theorem all_read (c : Card) (i : Nat) :
    (c.read i).All Use.Inside ↔ (Use.vram i).Inside :=
  Logged.all_note _ _

@[simp] theorem all_readWord (c : Card) (i : Nat) :
    (c.readWord i).All Use.Inside ↔ i + 1 < vcVramSize := by
  simp only [readWord, Logged.all_bind, all_read, Logged.all_pure, and_true, Use.Inside]
  omega

theorem all_textUsing (c : Card) (l : Bytes) (lx ly : Nat) :
    (c.textUsing l lx ly).All Use.Inside := by
  simp only [textUsing, Logged.all_bind, all_read]
  exact ⟨masked_inside _, masked_inside _, masked_inside _⟩

/-- The two bytes of the map entry are the only ones not masked one at a time. -/
theorem all_tileUsing (c : Card) (l : Bytes) (lx ly : Nat) :
    (c.tileUsing l lx ly).All Use.Inside ↔ tileEntry l lx ly % 0x40000 ≠ 0x3FFFF := by
  simp only [tileUsing, Logged.all_bind, Logged.all_pure, all_read, all_readWord, and_true,
    masked_inside]
  rw [andBelow_map _ (lMapW_pow l) (cell_size l), andBelow_map _ (lMapH_pow l) (cell_size l),
    and_vramMask, tileEntry]
  generalize lMapBase l + 2 * _ = entry
  have size : vcVramSize = 0x40000 := rfl
  omega

theorem all_bitmapUsing (c : Card) (l : Bytes) (lx ly : Nat) :
    (c.bitmapUsing l lx ly).All Use.Inside := by
  rw [bitmapUsing]
  dsimp only
  split
  · simp only [Logged.all_bind, Logged.all_pure, all_read, and_true]
    exact masked_inside _
  · exact (Logged.all_pure _).mpr trivial

theorem all_layerUsing (c : Card) (l : Bytes) (lx ly : Nat) :
    (c.layerUsing l lx ly).All Use.Inside ↔
      (lType l = 1 → tileEntry l lx ly % 0x40000 ≠ 0x3FFFF) := by
  rw [layerUsing]
  generalize lType l = type
  match type with
  | 0 => exact iff_of_true (all_textUsing c l lx ly) fun tiles => absurd tiles (by decide)
  | 1 => exact (all_tileUsing c l lx ly).trans ⟨fun inside _ => inside, fun inside => inside rfl⟩
  | 2 => exact iff_of_true (all_bitmapUsing c l lx ly) fun tiles => absurd tiles (by decide)
  | _ + 3 => exact iff_of_true ((Logged.all_pure _).mpr trivial) fun tiles => by omega

end Card

theorem all_putPixelUsing {scale p : Nat} (values : scale = 1 ∨ scale = 2)
    (column : p < vcWidth / scale) (v : Byte) (idx : Line) :
    (putPixelUsing scale p v idx).All Use.Inside := by
  have width : vcWidth = 640 := rfl
  rw [putPixelUsing]
  split
  · rcases values with rfl | rfl
    · simp only [storeIdx, if_pos, Logged.all_note, Use.Inside]
      omega
    · have two : ¬2 = 1 := by decide
      simp only [storeIdx, if_neg two, Logged.all_bind, Logged.all_note, Use.Inside]
      omega
  · exact (Logged.all_pure _).mpr trivial

namespace Card

/-- The pixels from `lx` on, none of which writes past the line. -/
theorem all_layerLoopUsing (c : Card) (l : Bytes) {scale : Nat} (values : scale = 1 ∨ scale = 2)
    (ly : Nat) {lx count : Nat} (column : lx + count ≤ vcWidth / scale) (idx : Line) :
    (c.layerLoopUsing l scale ly lx count idx).All Use.Inside ↔
      (lType l = 1 → ∀ x, lx ≤ x → x < lx + count → tileEntry l x ly % 0x40000 ≠ 0x3FFFF) := by
  induction count generalizing lx idx with
  | zero =>
      refine iff_of_true ((Logged.all_pure _).mpr trivial) ?_
      intro _ x after before
      omega
  | succ count ih =>
      have first : lx < vcWidth / scale := by omega
      have rest : lx + 1 + count ≤ vcWidth / scale := by omega
      simp only [layerLoopUsing, Logged.all_bind, all_layerUsing, ih rest,
        iff_true_intro (all_putPixelUsing values first _ _), true_and]
      constructor
      · rintro ⟨here, later⟩ tiles x after before
        rcases Nat.eq_or_lt_of_le after with same | further
        · exact same ▸ here tiles
        · exact later tiles x further (by omega)
      · intro every
        refine ⟨fun tiles => every tiles lx (Nat.le_refl lx) (by omega), ?_⟩
        intro tiles x after before
        exact every tiles x (by omega) (by omega)

/-- On this line a layer's tiles take a map entry whose first byte is the last of video memory. -/
def EntryStraddles (l : Bytes) (y : Nat) : Prop :=
  lType l = 1 ∧ ∃ x < vcWidth / scaleOf (lHires l),
    tileEntry l x (y / scaleOf (lHires l)) % 0x40000 = 0x3FFFF

theorem all_renderLayerUsing (c : Card) (l : Bytes) (y : Nat) (idx : Line) :
    (c.renderLayerUsing l y idx).All Use.Inside ↔ ¬EntryStraddles l y := by
  rw [renderLayerUsing, all_layerLoopUsing c l (scale_values _) _ (Nat.le_of_eq (Nat.zero_add _)), EntryStraddles]
  constructor
  · rintro inside ⟨tiles, x, column, last⟩
    exact inside tiles x (Nat.zero_le x) (by omega) last
  · intro whole tiles x _ column last
    exact whole ⟨tiles, x, by omega, last⟩

section Sprites

variable {c : Card} {attr : Nat}

theorem all_readAttr (inside : EntryInside attr) {i : Nat} (small : i < 8) :
    (c.readAttr attr i).All Use.Inside :=
  (all_read c _).mpr (Nat.lt_of_lt_of_le (Nat.add_lt_add_left small attr) inside)

theorem all_readAttrWord (inside : EntryInside attr) {i : Nat} (small : i + 1 < 8) :
    (c.readWord (attr + i)).All Use.Inside :=
  (all_readWord c _).mpr (Nat.lt_of_lt_of_le (Nat.add_lt_add_left small attr) inside)

theorem all_spriteUsing (inside : EntryInside attr) (row i : Nat) :
    (c.spriteUsing attr row i).All Use.Inside := by
  simp only [spriteUsing, Logged.all_bind, Logged.all_pure, all_read, and_true]
  exact ⟨all_readAttr inside (by decide), all_readAttr inside (by decide),
    all_readAttrWord (i := 0) inside (by decide), masked_inside _⟩

theorem all_spriteLoopUsing (inside : EntryInside attr) {scale : Nat}
    (values : scale = 1 ∨ scale = 2) (row i count : Nat) (idx : Line) :
    (c.spriteLoopUsing attr scale row i count idx).All Use.Inside := by
  induction count generalizing i idx with
  | zero => exact (Logged.all_pure _).mpr trivial
  | succ count ih =>
      rw [spriteLoopUsing, Logged.all_bind]
      refine ⟨all_readAttrWord inside (by decide), ?_⟩
      rw [Logged.all_bind]
      refine ⟨?_, ih _ _⟩
      split
      · exact (Logged.all_pure _).mpr trivial
      · rw [Logged.all_bind]
        exact ⟨all_spriteUsing inside row i, all_putPixelUsing values (by omega) _ _⟩

theorem all_renderSpritesUsing (prio : Nat) (list : List LineSprite) (idx : Line)
    (inside : ∀ s ∈ list, EntryInside s.attr) :
    (c.renderSpritesUsing prio list idx).All Use.Inside := by
  induction list with
  | nil => exact (Logged.all_pure _).mpr trivial
  | cons s rest ih =>
      have entry := inside s List.mem_cons_self
      rw [renderSpritesUsing, Logged.all_bind, Logged.all_bind]
      refine ⟨ih fun t member => inside t (List.mem_cons_of_mem s member),
        all_readAttr entry (by decide), ?_⟩
      split
      · exact (Logged.all_pure _).mpr trivial
      · exact all_spriteLoopUsing entry (scale_values _) _ _ _ _

end Sprites

theorem all_lineSpritesFromUsing (c : Card) (sy base i n left : Nat) :
    (c.lineSpritesFromUsing sy base i n left).All Use.Inside := by
  induction left generalizing i n with
  | zero => exact (Logged.all_pure _).mpr trivial
  | succ left ih =>
      rw [lineSpritesFromUsing]
      split
      · dsimp only
        split
        · exact (Logged.all_pure _).mpr trivial
        · next fits =>
          have inside := entryInside_of_not_lt fits
          rw [Logged.all_bind]
          refine ⟨all_readAttr inside (by decide), ?_⟩
          split
          · exact ih (i + 1) n
          · rw [Logged.all_bind]
            refine ⟨all_readAttrWord inside (by decide), ?_⟩
            split
            · exact ih (i + 1) n
            · rw [Logged.all_bind]
              exact ⟨ih (i + 1) (n + 1), (Logged.all_pure _).mpr trivial⟩
      · exact (Logged.all_pure _).mpr trivial

theorem all_lineSpritesUsing (c : Card) (y : Nat) : (c.lineSpritesUsing y).All Use.Inside := by
  rw [lineSpritesUsing]
  split
  · exact all_lineSpritesFromUsing c _ _ _ _ _
  · exact (Logged.all_pure _).mpr trivial

theorem all_layerTurnUsing (c : Card) (y : Nat) (idx : Line) (layer : Nat) :
    (c.layerTurnUsing y (c.lineSprites y) idx layer).All Use.Inside ↔
      ¬((c.cfg 0x00).getLsbD layer ∧ EntryStraddles (c.layerCfg layer) y) := by
  have sprites (idx : Line) : (if (c.lineSprites y).length ≠ 0 then
      c.renderSpritesUsing (layer + 1) (c.lineSprites y) idx else pure idx).All Use.Inside := by
    split
    · exact all_renderSpritesUsing _ _ _ (lineSprites_inside c y)
    · exact (Logged.all_pure _).mpr trivial
  rw [layerTurnUsing, Logged.all_bind, iff_true_intro (sprites _), and_true]
  split
  · next isOn => rw [all_renderLayerUsing, isOn, eq_self, true_and]
  · next isOff =>
    exact iff_of_true ((Logged.all_pure _).mpr trivial) fun straddles => isOff straddles.1

theorem all_colorUsing (c : Card) (idx : Line) (out : Nat → Word) {x : Nat}
    (column : x < vcWidth) : (c.colorUsing idx out x).All Use.Inside := by
  rw [colorUsing, Logged.all_bind, Logged.all_bind, Logged.all_note]
  refine ⟨column, ?_, (Logged.all_pure _).mpr trivial⟩
  split
  · exact (Logged.all_note _ _).mpr column
  · exact (Logged.all_pure _).mpr trivial

theorem all_renderLineUsing (c : Card) (y : Nat) (out : Nat → Word) :
    (c.renderLineUsing y out).All Use.Inside ↔
      ∀ layer < 3, ¬((c.cfg 0x00).getLsbD layer ∧ EntryStraddles (c.layerCfg layer) y) := by
  have colors (idx : Line) : ((List.range vcWidth).foldlM (c.colorUsing idx) out).All Use.Inside :=
    (Logged.all_foldlM (Q := fun _ => True)
      (fun out x member => iff_true_intro (all_colorUsing c idx out (List.mem_range.mp member)))
      out).mpr fun _ _ => trivial
  rw [renderLineUsing, Logged.all_bind, Logged.all_bind, iff_true_intro (all_lineSpritesUsing c y),
    iff_true_intro (colors _), true_and, and_true, lineSpritesUsing_value,
    Logged.all_foldlM fun idx layer _ => all_layerTurnUsing c y idx layer]
  exact forall_congr' fun layer => imp_congr_left List.mem_range

/-- Drawing a line stays inside video memory and the line's buffer exactly when no tile layer
that is on takes a map entry that straddles the end of video memory. -/
theorem rendering_inside (c : Card) (y : Nat) (out : Nat → Word) :
    (∀ use ∈ (c.renderLineUsing y out).log, use.Inside) ↔
      ∀ layer < 3, (c.cfg 0x00).getLsbD layer → ¬EntryStraddles (c.layerCfg layer) y :=
  (all_renderLineUsing c y out).trans (forall₂_congr fun _ _ => not_and)

/-- Layer 0 is on, of tiles, and its map starts at the last byte of video memory. -/
def oddMapCard : Card :=
  { vram := fun _ => 0
    cfg := fun a => if a = 0x00 ∨ a = 0x10 then 1 else if a = 0x12 then 0x03
      else if a = 0x13 ∨ a = 0x14 then 0xFF else 0 }

theorem odd_map_outside :
    ¬∀ use ∈ (oddMapCard.renderLineUsing 0 fun _ => 0).log, use.Inside := by
  intro inside
  have straddles : EntryStraddles (oddMapCard.layerCfg 0) 0 :=
    ⟨by decide, 0, by decide, by decide⟩
  exact (all_renderLineUsing oddMapCard 0 _).mp inside 0 (by decide) ⟨by decide, straddles⟩

end Card

end Pugputer.Vidcard

import Pugputer.Vidcard.Shapes

namespace Pugputer.Vidcard.Card

variable {c : Card}

/-! Pictures and characters are read while the target is drawn on. -/

/-- A bit of some pixel of the target. -/
def InTarget (c : Card) (g : Nat) : Prop :=
  ∃ x y : Nat, x < c.tW.toNat ∧ y < c.tH.toNat ∧ c.pixelBit x y ≤ g ∧
    g < c.pixelBit x y + c.tBpp.toNat

/-- A pixel that shares no bit with the target. -/
def Elsewhere (c : Card) (base stride x y bpp : Nat) : Prop :=
  ∀ k < bpp, ¬c.InTarget (sourceBit base stride x y bpp + k)

theorem Target.drawAll_pget (target : c.Target) (plots : List Plot) {base stride x y bpp : Nat}
    (depth : bpp = 1 ∨ bpp = 2 ∨ bpp = 4 ∨ bpp = 8)
    (elsewhere : c.Elsewhere base stride x y bpp) :
    (c.drawAll plots).pget base stride x y bpp = c.pget base stride x y bpp := by
  apply BitVec.eq_of_getLsbD_eq
  intro k small
  rw [Card.pget_bit depth _ _ _ _ small, Card.pget_bit depth _ _ _ _ small]
  by_cases inPixel : k < bpp
  · have bit : sourceBit base stride x y bpp + bpp - 1 - k =
        sourceBit base stride x y bpp + (bpp - 1 - k) := by omega
    have bound : sourceBit base stride x y bpp + (bpp - 1 - k) < 0x8000000 := by
      have last : x * bpp % 8 + bpp ≤ 8 := by
        rcases depth with depth | depth | depth | depth <;> rw [depth] <;> omega
      rw [sourceBit]
      omega
    rw [bit, target.drawAll_elsewhere plots bound]
    rintro p - ⟨i, j, -, -, xIn, yIn, low, high⟩
    exact elsewhere (bpp - 1 - k) (by omega) ⟨i, j, xIn, yIn, low, high⟩
  · simp only [inPixel, decide_false, Bool.false_and]

theorem peek_pget (a : Nat) : c.pget a 0 0 0 8 = c.peek a := by
  rw [pget]
  simp

theorem drawAll_snoc (c : Card) (plots : List Plot) (x y : Int) (col : Byte) :
    (c.drawAll plots).pset x y col = c.drawAll (plots ++ [⟨x, y, col⟩]) := by
  rw [drawAll_append]
  rfl

@[simp] theorem drawAll_tBpp (c : Card) (plots : List Plot) :
    (c.drawAll plots).tBpp = c.tBpp := by
  obtain ⟨_, _, _, -, drawn⟩ := drawAll_redraws c plots
  rw [drawn]

theorem Target.blitRow_drawAll (target : c.Target) (src stride : Nat) (transparent : Bool)
    (x y : Int) (j n i : Nat) (plots : List Plot)
    (elsewhere : ∀ k, k < i + n → c.Elsewhere src stride k j c.tBpp.toNat) :
    (c.drawAll plots).blitRow src stride transparent x y j i n =
      c.drawAll (plots ++ (List.range' i n).flatMap fun i =>
        if transparent && c.pget src stride i j c.tBpp.toNat == 0 then []
        else [⟨x + i, y + j, c.pget src stride i j c.tBpp.toNat⟩]) := by
  induction n generalizing i plots with
  | zero => rw [blitRow, List.range'_zero, List.flatMap_nil, List.append_nil]
  | succ n ih =>
      have rest : ∀ k, k < i + 1 + n → c.Elsewhere src stride k j c.tBpp.toNat :=
        fun k below => elsewhere k (by omega)
      rw [blitRow, drawAll_tBpp, target.drawAll_pget plots target.depth (elsewhere i (by omega)),
        List.range'_succ, List.flatMap_cons, ← List.append_assoc]
      split
      · rw [List.append_nil, ih (i + 1) plots rest]
      · rw [drawAll_snoc, ih (i + 1) _ rest]

theorem Target.blitRows_drawAll (target : c.Target) (src stride w : Nat) (transparent : Bool)
    (x y : Int) (n j : Nat) (plots : List Plot)
    (elsewhere : ∀ l, l < j + n → ∀ k, k < w → c.Elsewhere src stride k l c.tBpp.toNat) :
    (c.drawAll plots).blitRows src stride w transparent x y j n =
      c.drawAll (plots ++ (List.range' j n).flatMap fun j => (List.range w).flatMap fun i =>
        if transparent && c.pget src stride i j c.tBpp.toNat == 0 then []
        else [⟨x + i, y + j, c.pget src stride i j c.tBpp.toNat⟩]) := by
  induction n generalizing j plots with
  | zero => rw [blitRows, List.range'_zero, List.flatMap_nil, List.append_nil]
  | succ n ih =>
      have row : ∀ k, k < 0 + w → c.Elsewhere src stride k j c.tBpp.toNat :=
        fun k below => elsewhere j (by omega) k (by omega)
      rw [blitRows, target.blitRow_drawAll src stride transparent x y j w 0 plots row,
        ih (j + 1) _ fun l below => elsewhere l (by omega), List.range'_succ, List.flatMap_cons,
        ← List.append_assoc, List.range_eq_range']

theorem char_bit (bits : Byte) {i : Nat} (small : i < 8) :
    bits &&& 0x80#8 >>> i ≠ 0 ↔ bits.getLsbD (7 - i) = true := by
  have single : ∀ i < 8, (0x80#8 >>> i) = BitVec.twoPow 8 (7 - i) := by decide
  rw [single i small, BitVec.and_twoPow]
  cases bits.getLsbD (7 - i) with
  | true =>
      have nonzero : ∀ i < 8, BitVec.twoPow 8 (7 - i) ≠ 0#8 := by decide
      simpa using nonzero i small
  | false => simp

theorem charRow_drawAll (c : Card) (bits : Byte) (x y : Int) (n i : Nat) (plots : List Plot)
    (inRow : i + n ≤ 8) :
    (c.drawAll plots).charRow bits x y i n =
      c.drawAll (plots ++ (List.range' i n).flatMap fun i =>
        if bits.getLsbD (7 - i) then [⟨x + i, y, c.color⟩] else []) := by
  induction n generalizing i plots with
  | zero => rw [charRow, List.range'_zero, List.flatMap_nil, List.append_nil]
  | succ n ih =>
      rw [charRow, List.range'_succ, List.flatMap_cons, ← List.append_assoc, drawAll_color]
      by_cases set : bits.getLsbD (7 - i) = true
      · rw [if_pos ((char_bit bits (by omega)).mpr set), if_pos set, drawAll_snoc,
          ih (i + 1) _ (by omega)]
      · rw [if_neg (fun bit => set ((char_bit bits (by omega)).mp bit)), if_neg set,
          List.append_nil, ih (i + 1) _ (by omega)]

theorem Target.charRows_drawAll (target : c.Target) (ch : Byte) (x y : Int) (n j : Nat)
    (plots : List Plot)
    (elsewhere : ∀ l, l < j + n →
      c.Elsewhere (c.font.toNat + ch.toNat * c.fontH.toNat + l) 0 0 0 8) :
    (c.drawAll plots).charRows ch x y j n =
      c.drawAll (plots ++ (List.range' j n).flatMap fun j => (List.range 8).flatMap fun i =>
        if (c.peek (c.font.toNat + ch.toNat * c.fontH.toNat + j)).getLsbD (7 - i) then
          [⟨x + i, y + j, c.color⟩]
        else []) := by
  induction n generalizing j plots with
  | zero => rw [charRows, List.range'_zero, List.flatMap_nil, List.append_nil]
  | succ n ih =>
      have font : (c.drawAll plots).font = c.font ∧ (c.drawAll plots).fontH = c.fontH := by
        obtain ⟨_, _, _, -, drawn⟩ := drawAll_redraws c plots
        rw [drawn]
        exact ⟨rfl, rfl⟩
      have glyph : (c.drawAll plots).peek (c.font.toNat + ch.toNat * c.fontH.toNat + j) =
          c.peek (c.font.toNat + ch.toNat * c.fontH.toNat + j) := by
        rw [← peek_pget, ← peek_pget]
        exact target.drawAll_pget plots (.inr (.inr (.inr rfl))) (elsewhere j (by omega))
      rw [charRows, font.1, font.2, glyph]
      rw [charRow_drawAll c _ x (y + j) 8 0 plots (by omega),
        ih (j + 1) _ fun l below => elsewhere l (by omega), List.range'_succ (s := j),
        List.flatMap_cons, ← List.append_assoc, List.range_eq_range']

/-! The drawing commands. -/

/-- The points of a drawing command, in the order they are drawn. -/
def commandPlots (c : Card) (opcode : Byte) (p : Bytes) : List Plot :=
  match opcode.toNat with
  | 0x03 => [⟨s16 p 0, s16 p 2, c.color⟩]
  | 0x04 => linePlots (s16 p 0) (s16 p 2) (s16 p 4) (s16 p 6) c.color
  | 0x05 => rectPlots (s16 p 0) (s16 p 2) (s16 p 4) (s16 p 6) c.color
  | 0x06 => fillRectPlots (s16 p 0) (s16 p 2) (s16 p 4) (s16 p 6) c.color
  | 0x07 => circlePlots (s16 p 0) (s16 p 2) (s16 p 4) false c.color
  | 0x08 => circlePlots (s16 p 0) (s16 p 2) (s16 p 4) true c.color
  | 0x09 => clearPlots c.tW.toNat c.tH.toNat c.color
  | 0x0C =>
      blitPlots (fun i j => c.pget (be24 p 0).toNat (be16 p 3).toNat i j c.tBpp.toNat)
        (s16 p 5).toNat (s16 p 7).toNat ((p 13).getLsbD 0) (s16 p 9) (s16 p 11)
  | 0x0D =>
      trianglePlots (s16 p 0) (s16 p 2) (s16 p 4) (s16 p 6) (s16 p 8) (s16 p 10) c.color
  | 0x0F =>
      charPlots (fun j => c.peek (c.font.toNat + (p 4).toNat * c.fontH.toNat + j)) c.fontH.toNat
        (s16 p 0) (s16 p 2) c.color
  | _ => []

/-- PLOT, LINE, RECT, FILLRECT, CIRCLE, DISC, CLEAR, BLIT, TRIANGLE and CHAR. -/
def drawingOpcodes : List Byte :=
  [0x03#8, 0x04#8, 0x05#8, 0x06#8, 0x07#8, 0x08#8, 0x09#8, 0x0C#8, 0x0D#8, 0x0F#8]

/-- What a BLIT or a CHAR reads is outside the target. -/
def SourceOutside (c : Card) (opcode : Byte) (p : Bytes) : Prop :=
  (opcode = 0x0C#8 → ∀ j < (s16 p 7).toNat, ∀ i < (s16 p 5).toNat,
    c.Elsewhere (be24 p 0).toNat (be16 p 3).toNat i j c.tBpp.toNat) ∧
  (opcode = 0x0F#8 → ∀ j < c.fontH.toNat,
    c.Elsewhere (c.font.toNat + (p 4).toNat * c.fontH.toNat + j) 0 0 0 8)

theorem Target.runCommand_drawAll (target : c.Target) {opcode : Byte} {p : Bytes}
    (drawing : opcode ∈ drawingOpcodes) (source : c.SourceOutside opcode p) :
    c.runCommand opcode p = some (c.drawAll (c.commandPlots opcode p)) := by
  simp only [drawingOpcodes, List.mem_cons, List.not_mem_nil, or_false] at drawing
  rcases drawing with rfl | rfl | rfl | rfl | rfl | rfl | rfl | rfl | rfl | rfl
  · rfl
  · exact line_drawAll c _ _ _ _
  · exact congrArg some (rect_drawAll c _ _ _ _)
  · exact congrArg some (fillRect_drawAll c _ _ _ _)
  · exact congrArg some (circle_drawAll c _ _ _ false)
  · exact congrArg some (circle_drawAll c _ _ _ true)
  · exact congrArg some (clear_drawAll c)
  · refine congrArg some ((target.blitRows_drawAll _ _ _ _ _ _ _ 0 [] ?_).trans ?_)
    · exact fun l below k inside => source.1 rfl l (by omega) k inside
    · rw [List.nil_append, ← List.range_eq_range']
      rfl
  · exact congrArg some (triangle_drawAll c _ _ _ _ _ _)
  · refine congrArg some ((target.charRows_drawAll _ _ _ _ 0 [] ?_).trans ?_)
    · exact fun l below => source.2 rfl l (by omega)
    · rw [List.nil_append, ← List.range_eq_range']
      rfl

/-- Drawing on the packed bitmap is drawing on an array of pixels. -/
theorem Target.drawing (target : c.Target) {opcode : Byte} {p : Bytes}
    (drawing : opcode ∈ drawingOpcodes) (source : c.SourceOutside opcode p) :
    ∃ c', c.runCommand opcode p = some c' ∧
      c'.raster = c.raster.draw ((c.commandPlots opcode p).map c.shade) ∧
      (∀ g < 0x8000000, (∀ q ∈ c.commandPlots opcode p, ¬c.Covers q g) →
        c'.bitAt g = c.bitAt g) ∧
      c.Redraws c' :=
  ⟨_, target.runCommand_drawAll drawing source, target.drawAll_raster _,
    fun _ bound elsewhere => target.drawAll_elsewhere _ bound elsewhere, drawAll_redraws c _⟩

/-- One row of eight pixels, a bit each, at the start of video memory. -/
def byteCard : Card :=
  { vram := fun _ => 0x5A#8, cfg := fun _ => 0, tStride := 1#16, tW := 8#16, tH := 1#16,
    tBpp := 1#8 }

theorem Target.drawing_char : ∃ c', byteCard.runCommand 0x0F#8 (fun _ => 0) = some c' ∧
    c'.raster = byteCard.raster.draw
      ((byteCard.commandPlots 0x0F#8 fun _ => 0).map byteCard.shade) ∧
    (∀ g < 0x8000000, (∀ q ∈ byteCard.commandPlots 0x0F#8 fun _ => 0, ¬byteCard.Covers q g) →
      c'.bitAt g = byteCard.bitAt g) ∧
    byteCard.Redraws c' := by
  have target : byteCard.Target := by
    refine ⟨.inl rfl, by decide, .inl ?_⟩
    intro y inside
    change y < 1 at inside
    change (0 + y * 1) * 8 + 8 * 1 ≤ 0x40000 * 8
    omega
  refine target.drawing (by decide) ⟨fun blit => absurd blit (by decide), ?_⟩
  rintro - j row k bit ⟨x, y, xIn, yIn, low, high⟩
  change j < 16 at row
  change x < 8 at xIn
  change y < 1 at yIn
  change _ < (0 + y * 1) * 8 + x * 1 + 1 at high
  change (0x3F000 + 0 * 16 + j + 0 * 0 + 0 * 8 / 8) % 0x1000000 * 8 + 0 * 8 % 8 + k <
    (0 + y * 1) * 8 + x * 1 + 1 at high
  omega

end Pugputer.Vidcard.Card

import Pugputer.Tilekit.Fill
import Pugputer.Vidcard.Copy

namespace Pugputer.Tilekit

open Vidcard

/-! The layer questions: a map of another size, and a set of 16 colors made 256. -/

/-- CMD3SRC, CMD3DST. -/
def cmd3 (a : BitVec 24) : List Byte :=
  [a.extractLsb' 16 8, a.extractLsb' 8 8, a.extractLsb' 0 8]

def params (L : List Byte) : Bytes := fun i => L.getD i 0#8

/-- A length, with 0 before it. -/
def cmdd (D : Word) : List Byte := [0#8, hiByte D, loByte D]

def copycmd (src dst : BitVec 24) (len : Word) (c : Card) : Card :=
  (c.runCommand 0x0A#8 (params (cmd3 src ++ cmd3 dst ++ cmdd len))).getD c

def fillcmd (dst : BitVec 24) (len : Word) (v : Byte) (c : Card) : Card :=
  (c.runCommand 0x0B#8 (params (cmd3 dst ++ cmdd len ++ [v]))).getD c

/-- LMAPBASE, with bits 7-0. -/
def lmapbase (LTHIS : Nat) (m : MapSize) : BitVec 24 :=
  BitVec.ofNat 24 (((LTHIS + 1) * (slice / 256) - m.lmapbytes / 256) * 256)

def pstemp : BitVec 24 := 0x880000#24

/-- RESIZE3. -/
def rowsback (OLDWB NEWWB ROWB : Nat) : (ROWS : Nat) → (SRC DST : BitVec 24) → Card → Card
  | 0, _, _, c => c
  | ROWS + 1, SRC, DST, c =>
      rowsback OLDWB NEWWB ROWB ROWS (SRC + BitVec.ofNat 24 OLDWB) (DST + BitVec.ofNat 24 NEWWB)
        (copycmd SRC DST (BitVec.ofNat 16 ROWB) c)

def resizemap (CURL : Nat) (old new : MapSize) (c : Card) : Card :=
  let OLDWB := 64 <<< old.wc
  let NEWWB := 64 <<< new.wc
  let ROWS := min (32 <<< old.hc) (32 <<< new.hc)
  let c := copycmd (lmapbase CURL old) pstemp (BitVec.ofNat 16 old.lmapbytes) c
  let c := fillcmd (lmapbase CURL new) (BitVec.ofNat 16 new.lmapbytes) 0#8 c
  rowsback OLDWB NEWWB (min OLDWB NEWWB) ROWS pstemp (lmapbase CURL new) c

/-! What the card's commands do to memory. -/

theorem be24_cmd3 (a : BitVec 24) :
    a.extractLsb' 16 8 ++ a.extractLsb' 8 8 ++ a.extractLsb' 0 8 = a := by
  have top : a.extractLsb' 16 8 ++ a.extractLsb' 8 8 = a.extractLsb' 8 16 :=
    BitVec.extractLsb'_append_extractLsb'_eq_extractLsb' rfl
  have whole : a.extractLsb' 8 16 ++ a.extractLsb' 0 8 = a.extractLsb' 0 24 :=
    BitVec.extractLsb'_append_extractLsb'_eq_extractLsb' rfl
  rw [top]
  exact whole.trans BitVec.extractLsb'_eq_self

theorem be24_cmdd (D : Word) : (0#8 ++ hiByte D ++ loByte D).toNat = D.toNat := by
  have whole : hiByte D ++ loByte D = D := word_hiByte_loByte D
  have parts := congrArg BitVec.toNat whole
  rw [BitVec.toNat_append] at parts
  rw [BitVec.toNat_append, BitVec.toNat_append, ← parts]
  rw [show (0#8).toNat = 0 from rfl, Nat.zero_shiftLeft, Nat.zero_or]

/-- The card's memory, with the PSRAM there. -/
def Holds (c : Card) (f : Nat → Byte) : Prop :=
  c.psram.isSome ∧ ∀ a, a < 0x1000000 → c.peek a = f a

theorem Holds.self {c : Card} (present : c.psram.isSome) : Holds c c.peek :=
  ⟨present, fun _ _ => rfl⟩

theorem Holds.congr {c : Card} {f g : Nat → Byte} (holds : Holds c f)
    (same : ∀ a, a < 0x1000000 → f a = g a) : Holds c g :=
  ⟨holds.1, fun a low => (holds.2 a low).trans (same a low)⟩

/-- Video memory, or the PSRAM. -/
def Storage (a len : Nat) : Prop :=
  a + len ≤ vcVramSize ∨ vcPsramBase ≤ a ∧ a + len ≤ 0x1000000

theorem Holds.poke {c : Card} {f : Nat → Byte} (holds : Holds c f) {a : Nat} (storage : Storage a 1)
    (v : Byte) : Holds (c.poke a v) (Function.update f a v) := by
  have low : a < 0x1000000 := by
    rw [Storage, vcVramSize, vcPsramBase] at storage
    omega
  have toNat : ∀ b, b < 0x1000000 → (BitVec.ofNat 24 b).toNat = b := fun b small => by
    rw [BitVec.toNat_ofNat]
    exact Nat.mod_eq_of_lt small
  have writable : c.Writable (BitVec.ofNat 24 a) := by
    refine ⟨?_, fun _ => holds.1⟩
    rw [Mapped, toNat a low]
    rcases storage with low | high
    · exact .inl low
    · exact .inr (.inr high.1)
  refine ⟨?_, fun b small => ?_⟩
  · obtain ⟨_, _, _, present, same⟩ := Card.poke_redraws c a v
    rw [same]
    exact present.trans holds.1
  · by_cases same : b = a
    · subst same
      have seen := Card.peek_poke_self v writable
      rw [toNat b small] at seen
      rw [seen, Function.update_self]
    · have apart : BitVec.ofNat 24 b ≠ BitVec.ofNat 24 a := fun equal => same (by
        rw [← toNat a low, ← toNat b small, equal])
      have seen := @Card.peek_poke_apart c _ _ v apart
      rw [toNat a low, toNat b small] at seen
      rw [seen, Function.update_of_ne same]
      exact holds.2 b small

/-- A block of memory, from its start. -/
def Within (dst len a : Nat) : Prop := dst ≤ a ∧ a < dst + len

instance : Decidable (Within dst len a) := inferInstanceAs (Decidable (_ ∧ _))

theorem Holds.fill {c : Card} {f : Nat → Byte} (holds : Holds c f) {dst k len : Nat} (v : Byte)
    (storage : Storage (dst + k) len) :
    Holds (c.fill dst k v len) fun a => if Within (dst + k) len a then v else f a := by
  induction len generalizing c f k with
  | zero =>
      refine holds.congr fun a _ => ?_
      rw [if_neg (by rw [Within]; omega)]
  | succ len ih =>
      have rest : Storage (dst + (k + 1)) len := by
        rw [Storage] at storage ⊢
        omega
      have here : Storage (dst + k) 1 := by
        rw [Storage] at storage ⊢
        omega
      refine (ih (holds.poke here v) rest).congr fun a _ => ?_
      by_cases same : a = dst + k
      · rw [if_neg (by rw [Within]; omega), if_pos (by rw [Within]; omega), same,
          Function.update_self]
      · rw [Function.update_of_ne same]
        by_cases inside : Within (dst + k) (len + 1) a
        · rw [if_pos inside, if_pos (by rw [Within] at inside ⊢; omega)]
        · rw [if_neg inside, if_neg (by rw [Within] at inside ⊢; omega)]

theorem Holds.copyUp {c : Card} {f : Nat → Byte} (holds : Holds c f) {src dst k len : Nat}
    (storage : Storage (dst + k) len) (whole : src + k + len ≤ 0x1000000)
    (apart : src + k + len ≤ dst + k ∨ dst + k + len ≤ src + k) :
    Holds (c.copyUp src dst k len) fun a =>
      if Within (dst + k) len a then f (src + (a - dst)) else f a := by
  induction len generalizing c f k with
  | zero =>
      refine holds.congr fun a _ => ?_
      rw [if_neg (by rw [Within]; omega)]
  | succ len ih =>
      have rest : Storage (dst + (k + 1)) len := by
        rw [Storage] at storage ⊢
        omega
      have here : Storage (dst + k) 1 := by
        rw [Storage] at storage ⊢
        omega
      rw [Card.copyUp, holds.2 _ (by omega)]
      refine (ih (holds.poke here _) rest (by omega) (by omega)).congr fun a _ => ?_
      by_cases same : a = dst + k
      · rw [if_neg (by rw [Within]; omega), if_pos (by rw [Within]; omega), same,
          Function.update_self, Nat.add_sub_cancel_left]
      · by_cases inside : Within (dst + k) (len + 1) a
        · rw [if_pos inside, if_pos (by rw [Within] at inside ⊢; omega),
            Function.update_of_ne (by rw [Within] at inside; omega)]
        · rw [if_neg inside, if_neg (by rw [Within] at inside ⊢; omega),
            Function.update_of_ne same]

theorem Holds.copycmd {c : Card} {f : Nat → Byte} (holds : Holds c f) {src dst : BitVec 24}
    {len : Word} (storage : Storage dst.toNat len.toNat) (whole : src.toNat + len.toNat ≤ 0x1000000)
    (apart : src.toNat + len.toNat ≤ dst.toNat ∨ dst.toNat + len.toNat ≤ src.toNat) :
    Holds (copycmd src dst len c) fun a =>
      if Within dst.toNat len.toNat a then f (src.toNat + (a - dst.toNat)) else f a := by
  have sent : Pugputer.Tilekit.copycmd src dst len c =
      if src.toNat < dst.toNat ∧ dst.toNat < src.toNat + len.toNat then
        c.copyDown src.toNat dst.toNat len.toNat
      else c.copyUp src.toNat dst.toNat 0 len.toNat := by
    change (some (if (be24 _ 0).toNat < (be24 _ 3).toNat ∧
        (be24 _ 3).toNat < (be24 _ 0).toNat + (be24 _ 6).toNat then
      c.copyDown (be24 _ 0).toNat (be24 _ 3).toNat (be24 _ 6).toNat
      else c.copyUp (be24 _ 0).toNat (be24 _ 3).toNat 0 (be24 _ 6).toNat)).getD c = _
    have first : be24 (params (cmd3 src ++ cmd3 dst ++ cmdd len)) 0 = src := be24_cmd3 src
    have second : be24 (params (cmd3 src ++ cmd3 dst ++ cmdd len)) 3 = dst := be24_cmd3 dst
    have third : (be24 (params (cmd3 src ++ cmd3 dst ++ cmdd len)) 6).toNat = len.toNat :=
      be24_cmdd len
    rw [first, second, third, Option.getD_some]
  rw [sent, if_neg (by omega)]
  exact holds.copyUp storage whole apart

theorem Holds.fillcmd {c : Card} {f : Nat → Byte} (holds : Holds c f) {dst : BitVec 24} {len : Word}
    (v : Byte) (storage : Storage dst.toNat len.toNat) :
    Holds (fillcmd dst len v c) fun a => if Within dst.toNat len.toNat a then v else f a := by
  have sent : Pugputer.Tilekit.fillcmd dst len v c = c.fill dst.toNat 0 v len.toNat := by
    have first : be24 (params (cmd3 dst ++ cmdd len ++ [v])) 0 = dst := be24_cmd3 dst
    have second : (be24 (params (cmd3 dst ++ cmdd len ++ [v])) 3).toNat = len.toNat := be24_cmdd len
    change c.fill (be24 _ 0).toNat 0 v (be24 _ 3).toNat = _
    rw [first, second]
  rw [sent]
  exact holds.fill v storage

/-! The map of another size. -/

theorem Holds.rowsback {c : Card} {f : Nat → Byte} (holds : Holds c f) {OLDWB NEWWB ROWB ROWS : Nat}
    {SRC DST : BitVec 24} (kept : ROWB ≤ OLDWB) (fits : ROWB ≤ NEWWB) (small : ROWB < 0x10000)
    (from_ : vcPsramBase ≤ SRC.toNat) (source : SRC.toNat + ROWS * OLDWB < 0x1000000)
    (target : DST.toNat + ROWS * NEWWB ≤ vcVramSize) :
    ∃ g, Holds (rowsback OLDWB NEWWB ROWB ROWS SRC DST c) g ∧
      (∀ r < ROWS, ∀ b < ROWB,
        g (DST.toNat + r * NEWWB + b) = f (SRC.toNat + r * OLDWB + b)) ∧
      ∀ a, (∀ r < ROWS, ∀ b < ROWB, a ≠ DST.toNat + r * NEWWB + b) → g a = f a := by
  induction ROWS generalizing c f SRC DST with
  | zero =>
      exact ⟨f, holds, fun r low => absurd low (Nat.not_lt_zero r), fun _ _ => rfl⟩
  | succ ROWS ih =>
      rw [Nat.succ_mul] at source target
      have sizes : vcVramSize = 0x40000 ∧ vcPsramBase = 0x800000 := ⟨rfl, rfl⟩
      have len : (BitVec.ofNat 16 ROWB).toNat = ROWB := by
        rw [BitVec.toNat_ofNat]
        exact Nat.mod_eq_of_lt small
      have next : (SRC + BitVec.ofNat 24 OLDWB).toNat = SRC.toNat + OLDWB := by
        rw [BitVec.toNat_add, BitVec.toNat_ofNat]
        omega
      have next' : (DST + BitVec.ofNat 24 NEWWB).toNat = DST.toNat + NEWWB := by
        rw [BitVec.toNat_add, BitVec.toNat_ofNat]
        omega
      have copied := @Holds.copycmd c f holds SRC DST (BitVec.ofNat 16 ROWB)
        (.inl (by omega)) (by omega) (by omega)
      rw [len] at copied
      have from' : vcPsramBase ≤ (SRC + BitVec.ofNat 24 OLDWB).toNat := by omega
      have source' : (SRC + BitVec.ofNat 24 OLDWB).toNat + ROWS * OLDWB < 0x1000000 := by omega
      have target' : (DST + BitVec.ofNat 24 NEWWB).toNat + ROWS * NEWWB ≤ vcVramSize := by omega
      obtain ⟨g, after, rows, others⟩ := ih copied from' source' target'
      rw [next, next'] at rows
      rw [next'] at others
      refine ⟨g, after, fun r low b inside => ?_, fun a apart => ?_⟩
      · cases r with
        | zero =>
            rw [Nat.zero_mul, Nat.zero_mul, Nat.add_zero, Nat.add_zero, others]
            · rw [if_pos (by rw [Within]; omega), Nat.add_sub_cancel_left]
            · intro r _ b' inside'
              omega
        | succ r =>
            have row := rows r (by omega) b inside
            have bound : r * OLDWB ≤ ROWS * OLDWB := Nat.mul_le_mul_right _ (by omega)
            rw [if_neg (by rw [Within]; omega)] at row
            rw [Nat.succ_mul, Nat.succ_mul, Nat.add_comm (r * NEWWB), Nat.add_comm (r * OLDWB),
              ← Nat.add_assoc, ← Nat.add_assoc]
            exact row
      · rw [others, if_neg]
        · intro inside
          rw [Within] at inside
          refine apart 0 (Nat.succ_pos _) (a - DST.toNat) (by omega) ?_
          omega
        · intro r low b inside same
          refine apart (r + 1) (by omega) b inside ?_
          rw [Nat.succ_mul]
          omega

/-- A map's place, its bytes in all and a row's. -/
structure Placed (LTHIS : Nat) (m : MapSize) (base WB : Nat) : Prop where
  base_eq : (lmapbase LTHIS m).toNat = base
  calc_base : (Editor.mapCalcOf LTHIS m).mbase = base
  row : 64 <<< m.wc = WB
  width : WB = 2 * (Editor.mapCalcOf LTHIS m).mapw
  high : 32 <<< m.hc = (Editor.mapCalcOf LTHIS m).maph
  bytes : m.lmapbytes = (Editor.mapCalcOf LTHIS m).maph * WB
  most : m.lmapbytes ≤ 0x8000
  short : WB ≤ 512
  inside : base + m.lmapbytes ≤ vcVramSize

theorem placed (LTHIS : Nat) (few : LTHIS < 3) (m : MapSize) : ∃ base WB, Placed LTHIS m base WB := by
  have wide := m.wide
  have cells := m.cells
  have bytes : m.lmapbytes = 256 * (8 * 2 ^ (m.wc + m.hc)) := by
    rw [MapSize.lmapbytes, Nat.shiftLeft_eq, ← Nat.mul_assoc]
  have most : 2 ^ (m.wc + m.hc) ≤ 2 ^ 4 := Nat.pow_le_pow_right (by omega) cells
  have short : 2 ^ m.wc ≤ 2 ^ 3 := Nat.pow_le_pow_right (by omega) wide
  have product : m.lmapbytes = 32 <<< m.hc * 64 <<< m.wc := by
    rw [MapSize.lmapbytes, Nat.shiftLeft_eq, Nat.shiftLeft_eq, Nat.shiftLeft_eq, Nat.pow_add,
      Nat.mul_mul_mul_comm, Nat.mul_comm (2 ^ m.wc)]
  have size : vcVramSize = 0x40000 := rfl
  refine ⟨_, _, rfl, ?_, rfl, ?_, rfl, product, by omega, ?_, ?_⟩
  · rw [lmapbase, BitVec.toNat_ofNat, Editor.mapCalcOf]
    dsimp only [slice]
    omega
  · rw [Editor.mapCalcOf]
    dsimp only
    rw [Nat.shiftLeft_eq, Nat.shiftLeft_eq, ← Nat.mul_assoc]
  · rw [Nat.shiftLeft_eq]
    omega
  · rw [lmapbase, BitVec.toNat_ofNat]
    dsimp only [slice]
    omega

/-- A byte of a row, of either half of a cell, is in the map. -/
theorem row_byte {x y e W H WB n : Nat} (width : WB = 2 * W) (bytes : n = H * WB) (across : x < W)
    (down : y < H) (half : e < 2) : y * WB + (2 * x + e) < n ∧ 2 * x + e < WB := by
  have rows : (y + 1) * WB ≤ H * WB := Nat.mul_le_mul_right WB down
  rw [Nat.succ_mul] at rows
  omega

theorem same_byte {y r b b' WB : Nat} (low : b < WB) (low' : b' < WB)
    (same : y * WB + b = r * WB + b') : y = r ∧ b = b' := by
  rcases Nat.lt_trichotomy y r with before | rfl | after
  · have rows : (y + 1) * WB ≤ r * WB := Nat.mul_le_mul_right WB before
    rw [Nat.succ_mul] at rows
    omega
  · exact ⟨rfl, by omega⟩
  · have rows : (r + 1) * WB ≤ y * WB := Nat.mul_le_mul_right WB after
    rw [Nat.succ_mul] at rows
    omega

instance (m : MapCalc) (p : Nat × Nat) : Decidable (m.In p) := inferInstanceAs (Decidable (_ ∧ _))

theorem resizemap_bytes {CURL : Nat} {old new : MapSize} {base WB base' WB' : Nat}
    (placed : Placed CURL old base WB) (placed' : Placed CURL new base' WB') {c : Card}
    (present : c.psram.isSome) :
    ∃ g, Holds (resizemap CURL old new c) g ∧
      (∀ x y e, (Editor.mapCalcOf CURL new).In (x, y) → e < 2 →
        g (base' + (y * WB' + (2 * x + e))) =
          if (Editor.mapCalcOf CURL old).In (x, y) then c.peek (base + (y * WB + (2 * x + e)))
          else 0#8) ∧
      ∀ a, a < vcVramSize → ¬Within base' new.lmapbytes a → g a = c.peek a := by
  obtain ⟨base_eq, -, row, width, high, bytes, most, short, inside⟩ := placed
  obtain ⟨base_eq', -, row', width', high', bytes', most', short', inside'⟩ := placed'
  have sizes : vcVramSize = 0x40000 ∧ vcPsramBase = 0x800000 ∧ pstemp.toNat = 0x880000 :=
    ⟨rfl, rfl, rfl⟩
  have len : ∀ {n}, n ≤ 0x8000 → (BitVec.ofNat 16 n).toNat = n := fun small => by
    rw [BitVec.toNat_ofNat]
    omega
  have out := @Holds.copycmd c c.peek (.self present) (lmapbase CURL old) pstemp
    (BitVec.ofNat 16 old.lmapbytes)
  rw [len most, base_eq] at out
  have blank := @Holds.fillcmd _ _ (out (.inr (by omega)) (by omega) (by omega)) (lmapbase CURL new)
    (BitVec.ofNat 16 new.lmapbytes) 0#8
  rw [len most', base_eq'] at blank
  have blank := blank (.inl inside')
  have rows : min (32 <<< old.hc) (32 <<< new.hc) * WB ≤ old.lmapbytes := by
    rw [bytes, ← high]
    exact Nat.mul_le_mul_right _ (Nat.min_le_left _ _)
  have rows' : min (32 <<< old.hc) (32 <<< new.hc) * WB' ≤ new.lmapbytes := by
    rw [bytes', ← high']
    exact Nat.mul_le_mul_right _ (Nat.min_le_right _ _)
  obtain ⟨g, after, kept, others⟩ := @Holds.rowsback _ _ blank WB WB' (min WB WB')
    (min (32 <<< old.hc) (32 <<< new.hc)) pstemp (lmapbase CURL new)
    (Nat.min_le_left _ _) (Nat.min_le_right _ _) (by omega) (by omega) (by omega) (by omega)
  rw [base_eq', sizes.2.2] at kept
  rw [base_eq'] at others
  refine ⟨g, ?_, fun x y e place half => ?_, fun a low apart => ?_⟩
  · rw [resizemap, row, row']
    exact after
  · obtain ⟨across, down⟩ := place
    dsimp only at across down
    have here := row_byte width' bytes' across down half
    by_cases before : (Editor.mapCalcOf CURL old).In (x, y)
    · rw [if_pos before]
      obtain ⟨across', down'⟩ := before
      dsimp only at across' down'
      have there := row_byte width bytes across' down' half
      have moved := kept y (by rw [high, high']; omega) (2 * x + e) (by omega)
      rw [Nat.add_assoc, Nat.add_assoc] at moved
      rw [moved, if_neg (by rw [Within]; omega), if_pos (by rw [Within]; omega),
        Nat.add_sub_cancel_left]
    · rw [if_neg before, others, if_pos (by rw [Within]; omega)]
      intro r low b small same
      rw [Nat.add_assoc] at same
      obtain ⟨rfl, rfl⟩ := same_byte here.2 (by omega) (Nat.add_left_cancel same)
      refine before ⟨by dsimp only; omega, ?_⟩
      rw [high] at low
      exact Nat.lt_of_lt_of_le low (Nat.min_le_left _ _)
  · rw [others, if_neg apart, if_neg (by rw [Within]; omega)]
    intro r low b small same
    refine apart ?_
    have bound : (r + 1) * WB' ≤ min (32 <<< old.hc) (32 <<< new.hc) * WB' :=
      Nat.mul_le_mul_right _ low
    rw [Nat.succ_mul] at bound
    rw [Within]
    omega

theorem getcell_bytes {LTHIS : Nat} {m : MapSize} {base WB : Nat} (few : LTHIS < 3)
    (placed : Placed LTHIS m base WB) {x y : Nat} (inside : (Editor.mapCalcOf LTHIS m).In (x, y))
    (f : Nat → Byte) :
    (Editor.mapCalcOf LTHIS m).getcell f (x, y) =
      word (f (base + (y * WB + (2 * x + 0)))) (f (base + (y * WB + (2 * x + 1)))) := by
  have place := ((mapCalcOf_fits LTHIS few m).celladdr_eq inside).1
  dsimp only at place
  rw [placed.calc_base] at place
  have byte : base + 2 * (y * (Editor.mapCalcOf LTHIS m).mapw + x) = base + (y * WB + (2 * x + 0)) := by
    rw [placed.width, Nat.mul_add, Nat.mul_left_comm, Nat.add_zero]
  rw [MapCalc.getcell, place, byte, Nat.add_assoc, Nat.add_assoc, Nat.add_assoc]

/-- Cells both maps have are kept, the others of the new map are 0, and no other byte of video memory
changes. -/
theorem resizemap_spec {CURL : Nat} (few : CURL < 3) (old new : MapSize) {c : Card}
    (present : c.psram.isSome) :
    (∀ p, (Editor.mapCalcOf CURL new).In p →
      (Editor.mapCalcOf CURL new).getcell (resizemap CURL old new c).peek p =
        if (Editor.mapCalcOf CURL old).In p then (Editor.mapCalcOf CURL old).getcell c.peek p
        else 0#16) ∧
    ∀ a, a < vcVramSize → ¬Within (lmapbase CURL new).toNat new.lmapbytes a →
      (resizemap CURL old new c).peek a = c.peek a := by
  obtain ⟨base, WB, place⟩ := placed CURL few old
  obtain ⟨base', WB', place'⟩ := placed CURL few new
  obtain ⟨g, holds, cells, others⟩ := resizemap_bytes place place' present
  have inside' := place'.inside
  have size : vcVramSize = 0x40000 := rfl
  refine ⟨fun p inside => ?_, fun a low apart => ?_⟩
  · obtain ⟨x, y⟩ := p
    have bounds : ∀ e, e < 2 → base' + (y * WB' + (2 * x + e)) < 0x1000000 := fun e half => by
      have := row_byte place'.width place'.bytes inside.1 inside.2 half
      dsimp only at this
      omega
    rw [getcell_bytes few place' inside, holds.2 _ (bounds 0 (by omega)), holds.2 _ (bounds 1 (by omega)),
      cells x y 0 inside (by omega), cells x y 1 inside (by omega)]
    by_cases before : (Editor.mapCalcOf CURL old).In (x, y)
    · rw [if_pos before, if_pos before, if_pos before, getcell_bytes few place before]
    · rw [if_neg before, if_neg before, if_neg before]
      rfl
  · rw [place'.base_eq] at apart
    rw [holds.2 a (by omega)]
    exact others a low apart

/-! A set of 16 colors made 256. -/

/-- TOADDR. -/
def toaddr (CURL TONUM F : Nat) : Nat :=
  (CURL * (slice / 256) * 256 + TONUM <<< F % 0x10000) % 0x1000000

/-- TO2563: pixels unpacked, two a byte. -/
def unpack (c : Card) (a : Nat) : (W : Nat) → List Byte
  | 0 => []
  | W + 1 => c.peek a >>> 4 :: (c.peek a &&& 0x0F#8) :: unpack c (a + 1) W

/-- A pixel in a row, 0 still 0. -/
def inrow (row v : Byte) : Byte := if v = 0#8 then v else v ||| row <<< 4

/-- TO2565. -/
def pack (row : Byte) (a : Nat) : List Byte → Card → Card
  | [], c => c
  | v :: TILEBUF, c => pack row (a + 1) TILEBUF (c.poke a (inrow row v))

/-- TO2561, for a set of 1 << `OLDSH` bytes a tile, with the rows its tiles were last used in. -/
def to256 (CURL OLDSH : Nat) (TROWS : Nat → Byte) : (TONUM : Nat) → Card → Card
  | 0, c => c
  | TONUM + 1, c =>
      let TILEBUF := unpack c (toaddr CURL TONUM OLDSH) (1 <<< OLDSH)
      to256 CURL OLDSH TROWS TONUM
        (pack (TROWS TONUM) (toaddr CURL TONUM (OLDSH + 1)) TILEBUF c)

/-- Pixel `p` of a tile of 16 colors. -/
def nibble (f : Nat → Byte) (a p : Nat) : Byte :=
  if p % 2 = 0 then f (a + p / 2) >>> 4 else f (a + p / 2) &&& 0x0F#8

theorem nibble_congr {f g : Nat → Byte} {a p : Nat} (same : f (a + p / 2) = g (a + p / 2)) :
    nibble f a p = nibble g a p := by
  rw [nibble, nibble, same]

theorem length_unpack (c : Card) (a W : Nat) : (unpack c a W).length = 2 * W := by
  induction W generalizing a with
  | zero => rfl
  | succ W ih => rw [unpack, List.length_cons, List.length_cons, ih, Nat.mul_succ]

theorem unpack_get {c : Card} {f : Nat → Byte} (holds : Holds c f) {a W : Nat}
    (whole : a + W ≤ 0x1000000) (p : Nat) (low : p < 2 * W) :
    (unpack c a W).getD p 0#8 = nibble f a p := by
  induction W generalizing a p with
  | zero => exact absurd low (Nat.not_lt_zero p)
  | succ W ih =>
      rw [unpack, holds.2 a (by omega)]
      match p with
      | 0 => rfl
      | 1 => rfl
      | p + 2 =>
          have rest := ih (a := a + 1) (by omega) p (by omega)
          have odd : (p + 2) % 2 = p % 2 := by omega
          have place : a + (p + 2) / 2 = a + 1 + p / 2 := by omega
          rw [List.getD_cons_succ, List.getD_cons_succ, rest, nibble, nibble, odd, place]

theorem Holds.pack {c : Card} {f : Nat → Byte} (holds : Holds c f) (row : Byte) {a : Nat}
    {TILEBUF : List Byte} (storage : Storage a TILEBUF.length) :
    Holds (pack row a TILEBUF c) fun b =>
      if Within a TILEBUF.length b then inrow row (TILEBUF.getD (b - a) 0#8) else f b := by
  induction TILEBUF generalizing c f a with
  | nil =>
      refine holds.congr fun b _ => ?_
      rw [List.length_nil, if_neg (by rw [Within]; omega)]
  | cons v TILEBUF ih =>
      rw [List.length_cons] at storage ⊢
      have rest : Storage (a + 1) TILEBUF.length := by
        rw [Storage] at storage ⊢
        omega
      have here : Storage a 1 := by
        rw [Storage] at storage ⊢
        omega
      refine (ih (holds.poke here (inrow row v)) rest).congr fun b _ => ?_
      by_cases same : b = a
      · rw [if_neg (by rw [Within]; omega), if_pos (by rw [Within]; omega), same,
          Function.update_self, Nat.sub_self, List.getD_cons_zero]
      · by_cases inside : Within a (TILEBUF.length + 1) b
        · have place : b - a = b - (a + 1) + 1 := by
            rw [Within] at inside
            omega
          rw [if_pos inside, if_pos (by rw [Within] at inside ⊢; omega), place, List.getD_cons_succ]
        · rw [if_neg inside, if_neg (by rw [Within] at inside ⊢; omega), Function.update_of_ne same]

theorem toaddr_eq {CURL TONUM F n : Nat} (few : CURL < 3) (before : TONUM < n)
    (fits : n <<< F ≤ slice) :
    toaddr CURL TONUM F = CURL * slice + TONUM * 2 ^ F ∧ (TONUM + 1) * 2 ^ F ≤ slice := by
  rw [Nat.shiftLeft_eq] at fits
  have rows : (TONUM + 1) * 2 ^ F ≤ n * 2 ^ F := Nat.mul_le_mul_right _ before
  rw [Nat.succ_mul] at rows ⊢
  have some_ : 0 < 2 ^ F := Nat.two_pow_pos F
  rw [toaddr, Nat.shiftLeft_eq]
  dsimp only [slice] at fits ⊢
  omega

/-- The tiles from the last on are expanded, over ones done already. -/
theorem Holds.to256 {c : Card} {f : Nat → Byte} (holds : Holds c f) {CURL OLDSH n : Nat}
    (TROWS : Nat → Byte) (few : CURL < 3) (fits : n <<< (OLDSH + 1) ≤ slice) :
    ∃ g, Holds (to256 CURL OLDSH TROWS n c) g ∧
      (∀ t < n, ∀ p < 2 ^ (OLDSH + 1), g (CURL * slice + t * 2 ^ (OLDSH + 1) + p) =
        inrow (TROWS t) (nibble f (CURL * slice + t * 2 ^ OLDSH) p)) ∧
      ∀ a, ¬Within (CURL * slice) (n * 2 ^ (OLDSH + 1)) a → g a = f a := by
  induction n generalizing c f with
  | zero => exact ⟨f, holds, fun t low => absurd low (Nat.not_lt_zero t), fun _ _ => rfl⟩
  | succ n ih =>
      have double : 2 ^ (OLDSH + 1) = 2 * 2 ^ OLDSH := by rw [Nat.pow_succ, Nat.mul_comm]
      have size : slice = 0xC000 ∧ vcVramSize = 0x40000 := ⟨rfl, rfl⟩
      have rooms : CURL * slice ≤ 2 * slice := Nat.mul_le_mul_right slice (by omega)
      obtain ⟨new, end_⟩ := toaddr_eq few (Nat.lt_succ_self n) fits
      have half : (n + 1) <<< OLDSH ≤ slice := by
        rw [Nat.shiftLeft_eq] at fits ⊢
        rw [double, Nat.mul_left_comm] at fits
        omega
      obtain ⟨old, -⟩ := toaddr_eq few (Nat.lt_succ_self n) half
      rw [Nat.succ_mul] at end_
      have less : n <<< (OLDSH + 1) ≤ slice := by
        rw [Nat.shiftLeft_eq]
        omega
      have packed := @Holds.pack c f holds (TROWS n) (toaddr CURL n (OLDSH + 1))
        (unpack c (toaddr CURL n OLDSH) (1 <<< OLDSH))
      rw [length_unpack, Nat.shiftLeft_eq, Nat.one_mul, new, ← double] at packed
      have packed := packed (.inl (by omega))
      have doubled : n * 2 ^ (OLDSH + 1) = 2 * (n * 2 ^ OLDSH) := by rw [double, Nat.mul_left_comm]
      obtain ⟨g, after, tiles, others⟩ := ih packed less
      refine ⟨g, ?_, fun t low p inside => ?_, fun a apart => ?_⟩
      · rw [Pugputer.Tilekit.to256, new, Nat.shiftLeft_eq, Nat.one_mul]
        exact after
      · by_cases last : t = n
        · subst last
          have whole : toaddr CURL t OLDSH + 2 ^ OLDSH ≤ 0x1000000 := by omega
          rw [others _ (by rw [Within]; omega), if_pos (by rw [Within]; omega), Nat.add_sub_cancel_left,
            unpack_get holds whole p (by omega), old]
        · have before : (t + 1) * 2 ^ OLDSH ≤ n * 2 ^ OLDSH := Nat.mul_le_mul_right _ (by omega)
          rw [Nat.succ_mul] at before
          rw [tiles t (by omega) p inside]
          exact congrArg (inrow (TROWS t)) (nibble_congr (if_neg (by rw [Within]; omega)))
      · rw [Nat.succ_mul, Within] at apart
        rw [others _ (by rw [Within]; omega), if_neg (by rw [Within]; omega)]

theorem nibble_low (f : Nat → Byte) (a p : Nat) : nibble f a p < 16#8 := by
  rw [nibble]
  split
  · rw [BitVec.lt_def, BitVec.toNat_ushiftRight, Nat.shiftRight_eq_div_pow]
    have low := (f (a + p / 2)).isLt
    exact Nat.div_lt_of_lt_mul low
  · rw [BitVec.lt_def, BitVec.toNat_and]
    exact Nat.lt_of_le_of_lt Nat.and_le_right (by decide)

theorem inrow_nibbles : ∀ (row : Fin 256) (v : Fin 16),
    inrow (BitVec.ofFin row) (BitVec.ofNat 8 v) =
      if BitVec.ofNat 8 v = 0#8 then 0#8 else BitVec.ofNat 8 v + 16#8 * BitVec.ofFin row := by
  decide +kernel

/-- A row is 16 times it more. -/
theorem inrow_add (row : Byte) {v : Byte} (low : v < 16#8) :
    inrow row v = if v = 0#8 then 0#8 else v + 16#8 * row := by
  have same := inrow_nibbles row.toFin ⟨v.toNat, low⟩
  rw [BitVec.ofNat_toNat, BitVec.setWidth_eq, BitVec.ofFin_toFin] at same
  exact same

theorem to256_spec {CURL : Nat} (few : CURL < 3) {c : Card} (present : c.psram.isSome)
    (OLDSH n : Nat) (TROWS : Nat → Byte) (fits : n <<< (OLDSH + 1) ≤ slice) :
    (∀ t < n, ∀ p < 1 <<< (OLDSH + 1),
      (to256 CURL OLDSH TROWS n c).peek (CURL * slice + t <<< (OLDSH + 1) + p) =
        if nibble c.peek (CURL * slice + t <<< OLDSH) p = 0#8 then 0#8
        else nibble c.peek (CURL * slice + t <<< OLDSH) p + 16#8 * TROWS t) ∧
    ∀ a, a < 0x1000000 → ¬Within (CURL * slice) (n <<< (OLDSH + 1)) a →
      (to256 CURL OLDSH TROWS n c).peek a = c.peek a := by
  obtain ⟨g, holds, tiles, others⟩ := (Holds.self present).to256 TROWS few fits
  have rooms : CURL * slice ≤ 2 * slice := Nat.mul_le_mul_right slice (by omega)
  have size : slice = 0xC000 := rfl
  rw [Nat.shiftLeft_eq] at fits
  refine ⟨fun t low p inside => ?_, fun a small apart => ?_⟩
  · have rows : (t + 1) * 2 ^ (OLDSH + 1) ≤ n * 2 ^ (OLDSH + 1) := Nat.mul_le_mul_right _ low
    rw [Nat.succ_mul] at rows
    rw [Nat.shiftLeft_eq, Nat.one_mul] at inside
    rw [Nat.shiftLeft_eq, Nat.shiftLeft_eq, holds.2 _ (by omega), tiles t low p inside,
      inrow_add _ (nibble_low _ _ _)]
  · rw [Nat.shiftLeft_eq] at apart
    rw [holds.2 a small, others a apart]

/-- The layer questions keep what can be kept. -/
theorem layers_kept :
    (∀ (CURL : Fin 3) (old new : MapSize) (c : Card), c.psram.isSome →
      (∀ p, (Editor.mapCalcOf CURL new).In p →
        (Editor.mapCalcOf CURL new).getcell (resizemap CURL old new c).peek p =
          if (Editor.mapCalcOf CURL old).In p then (Editor.mapCalcOf CURL old).getcell c.peek p
          else 0#16) ∧
      ∀ a, a < vcVramSize → ¬Within (lmapbase CURL new).toNat new.lmapbytes a →
        (resizemap CURL old new c).peek a = c.peek a) ∧
    ∀ (CURL : Fin 3) (k : Kind) (n : Nat) (TROWS : Nat → Byte) (c : Card), c.psram.isSome →
      k.bpp = 4 → n <<< (k.tbshof + 1) ≤ slice →
      (∀ t < n, ∀ p < k.tsize * k.tsize,
        (to256 CURL k.tbshof TROWS n c).peek (CURL * slice + t <<< (k.tbshof + 1) + p) =
          if nibble c.peek (CURL * slice + t <<< k.tbshof) p = 0#8 then 0#8
          else nibble c.peek (CURL * slice + t <<< k.tbshof) p + 16#8 * TROWS t) ∧
      ∀ a, a < 0x1000000 → ¬Within (CURL * slice) (n <<< (k.tbshof + 1)) a →
        (to256 CURL k.tbshof TROWS n c).peek a = c.peek a := by
  refine ⟨fun CURL old new c present => resizemap_spec CURL.isLt old new present,
    fun CURL k n TROWS c present sixteen fits => ?_⟩
  have pixels : 1 <<< (k.tbshof + 1) = k.tsize * k.tsize := by
    rw [Kind.tbshof, sixteen, if_neg (by decide)]
    rcases k.sizes with size | size <;> rw [size] <;> rfl
  obtain ⟨tiles, others⟩ := to256_spec CURL.isLt present k.tbshof n TROWS fits
  rw [pixels] at tiles
  exact ⟨tiles, others⟩

def blank : Card := { vram := fun _ => 0#8, cfg := fun _ => 0#8, psram := some fun _ => 0#8 }

/-- A map of 32 x 32 made 64 x 32, and two tiles of 8 x 8. -/
theorem layers_kept_blank :
    ((Editor.mapCalcOf 0 ⟨1, 0, by decide, by decide, by decide⟩).getcell
        (resizemap 0 ⟨0, 0, by decide, by decide, by decide⟩
          ⟨1, 0, by decide, by decide, by decide⟩ blank).peek (40, 3) =
      if (Editor.mapCalcOf 0 ⟨0, 0, by decide, by decide, by decide⟩).In (40, 3) then
        (Editor.mapCalcOf 0 ⟨0, 0, by decide, by decide, by decide⟩).getcell blank.peek (40, 3)
      else 0#16) ∧
    (to256 0 5 (fun _ => 3#8) 2 blank).peek (0 * slice + 1 <<< 6 + 7) =
      if nibble blank.peek (0 * slice + 1 <<< 5) 7 = 0#8 then 0#8
      else nibble blank.peek (0 * slice + 1 <<< 5) 7 + 16#8 * 3#8 :=
  ⟨(layers_kept.1 0 ⟨0, 0, by decide, by decide, by decide⟩ ⟨1, 0, by decide, by decide, by decide⟩
      blank rfl).1 (40, 3) ⟨by decide, by decide⟩,
    (layers_kept.2 0 ⟨8, 4, .inl rfl, .inl rfl⟩ 2 (fun _ => 3#8) blank rfl rfl (by decide)).1
      1 (by decide) 7 (by decide)⟩

end Pugputer.Tilekit

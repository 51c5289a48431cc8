import Pugputer.Banks.Half

namespace Pugputer.Banks

/-! A chunk, there and back through PC_BOUNCE. -/

/-- The ranges of a copy are clear of the BIOS's variables and of the stack in use. -/
structure Clear (l : Layout) (bank : Nat → Nat) (s : Nat) (src dst : Cell) (len : Nat) :
    Prop where
  srcVars : ∀ i < len, (src.1, src.2 + i) ∉ l.cells
  srcStack : ∀ i < len, (src.1, src.2 + i) ∉ cellsOf bank (s - 16) s
  dstVars : ∀ i < len, (dst.1, dst.2 + i) ∉ l.cells
  dstStack : ∀ i < len, (dst.1, dst.2 + i) ∉ cellsOf bank (s - 16) (s + 14)

/-- A copy that is not refused. -/
structure Request (l : Layout) (bank : Nat → Nat) (s : Nat) (src dst : Cell) (len : Nat) : Prop
    extends Clear l bank s src dst len where
  srcFits : src.2 + len ≤ bankSize
  dstFits : dst.2 + len ≤ bankSize
  apart : Apart src dst len

/-- What PC_LOOP finds in the variables. -/
structure Ready (l : Layout) (bank : Nat → Nat) (s : Nat) (spage dpage : Byte) (left : Word)
    (ram : Ram) : Prop where
  len : word (ram (0, l.pcLen)) (ram (0, l.pcLen + 1)) = left
  tb : ram (0, l.pcTb) = BitVec.ofNat 8 (Machine.tempBank s)
  spage : ram (0, l.pcSpage) = spage
  dpage : ram (0, l.pcDpage) = dpage
  shadow : (ram (0, sbank1 - 1 + Machine.tempBank s)).toNat = bank (Machine.tempBank s)

theorem rtc_in_cells (l : Layout) {c : Cell} (rtc : c ∈ rtcCells) : c ∈ l.cells := by
  obtain ⟨page, low, high⟩ := rtc
  have set : rtcSet = 0x15 := rfl
  have shadow : sbank1 = 0x16 := rfl
  exact ⟨page, .inl ⟨low, by omega⟩⟩

theorem cellOf_low {bank : Nat → Nat} (bank0 : bank 0 = 0) {a : Nat} (low : a < bankSize) :
    cellOf bank a = (0, a) := by
  rw [cellOf, Nat.div_eq_of_lt low, bank0, Nat.mod_eq_of_lt low]

/-- An address in the window of a bank. -/
theorem cellOf_window (bank : Nat → Nat) (b : Nat) {o : Nat} (inside : o < bankSize) :
    cellOf bank (b * bankSize + o) = (bank b, o) := by
  have positive : 0 < bankSize := by decide
  rw [cellOf, Nat.mul_comm, Nat.mul_add_div positive, Nat.div_eq_of_lt inside, Nat.mul_add_mod,
    Nat.mod_eq_of_lt inside, Nat.add_zero]

theorem cell_ne {page a b : Nat} (differ : a ≠ b) : ((page, a) : Cell) ≠ (page, b) :=
  fun same => differ (congrArg Prod.snd same)

theorem setWord_outside {ram : Ram} {hi lo c : Cell} (v : Word) (notHi : c ≠ hi)
    (notLo : c ≠ lo) : setWord ram hi lo v c = ram c := by
  rw [setWord, Function.update_of_ne notLo, Function.update_of_ne notHi]

theorem setWord_word {ram : Ram} {hi lo : Cell} (v : Word) (apart : hi ≠ lo) :
    word (setWord ram hi lo v hi) (setWord ram hi lo v lo) = v := by
  rw [setWord, Function.update_self, Function.update_of_ne apart, Function.update_self,
    word_hiByte_loByte]

theorem copyBytes_inside {ram : Ram} {p q : Cell} {count i : Nat} (inside : i < count) :
    copyBytes ram p q count (q.1, q.2 + i) = ram (p.1, p.2 + i) := by
  rw [copyBytes, if_pos ⟨rfl, by dsimp only; omega, by dsimp only; omega⟩]
  dsimp only
  rw [Nat.add_sub_cancel_left]

variable {l : Layout} {bank : Nat → Nat} {s : Nat}

/-- The variables, the tick counters apart, are certain. -/
theorem Setting.var_certain (setting : Setting l bank s) {v : Nat}
    (var : sbank1 ≤ v ∧ v < sbank1 + 3 ∨ l.pagemap ≤ v ∧ v < l.pagemap + 172) :
    (0, v) ∉ noise bank (s - 16) s := by
  have high := setting.high
  have ticks : rtcTicks = 0x04 := rfl
  have set : rtcSet = 0x15 := rfl
  have shadow : sbank1 = 0x16 := rfl
  have after := l.afterPublic
  rintro (⟨a, low, below, same⟩ | ⟨-, low, up⟩)
  · refine setting.clear a low (by omega) ?_
    rw [← same]
    exact ⟨rfl, by dsimp only; omega⟩
  · dsimp only at low up
    omega

theorem Layout.var_low (l : Layout) {v : Nat}
    (var : sbank1 ≤ v ∧ v < sbank1 + 3 ∨ l.pagemap ≤ v ∧ v < l.pagemap + 172) : v < bankSize := by
  have fits := l.inBank0
  have size : bankSize = 0x4000 := rfl
  have shadow : sbank1 = 0x16 := rfl
  omega

/-- A variable is where it is whatever the other banks are. -/
theorem Setting.var_at (setting : Setting l bank s) {v : Nat}
    (var : sbank1 ≤ v ∧ v < sbank1 + 3 ∨ l.pagemap ≤ v ∧ v < l.pagemap + 172)
    (bank' : Nat → Nat) (zero : bank' 0 = 0) :
    cellOf bank' v = (0, v) ∧ cellOf bank' v ∉ noise bank (s - 16) s := by
  have here := cellOf_low zero (l.var_low var)
  exact ⟨here, here ▸ setting.var_certain var⟩

namespace Request

variable {src dst : Cell} {len : Nat} (request : Request l bank s src dst len)

include request

theorem src_certain {i : Nat} (inside : i < len) :
    (src.1, src.2 + i) ∉ noise bank (s - 16) s := by
  rintro (stack | rtc)
  · exact request.srcStack i inside stack
  · exact request.srcVars i inside (rtc_in_cells l rtc)

theorem dst_certain {i : Nat} (inside : i < len) :
    (dst.1, dst.2 + i) ∉ noise bank (s - 16) s := by
  rintro (⟨a, low, high, same⟩ | rtc)
  · exact request.dstStack i inside ⟨a, low, by omega, same⟩
  · exact request.dstVars i inside (rtc_in_cells l rtc)

theorem dst_ne_var {i v : Nat} (inside : i < len)
    (var : sbank1 ≤ v ∧ v < sbank1 + 3 ∨ l.pagemap ≤ v ∧ v < l.pagemap + 172) :
    (0, v) ≠ (dst.1, dst.2 + i) := by
  intro same
  refine request.dstVars i inside ?_
  rw [← same]
  have ticks : rtcTicks = 0x04 := rfl
  have shadow : sbank1 = 0x16 := rfl
  exact ⟨rfl, by dsimp only; omega⟩

end Request

theorem Apart.symm {p q : Cell} {count : Nat} (apart : Apart p q count) : Apart q p count := by
  rcases apart with pages | below | above
  · exact .inl pages.symm
  · exact .inr (.inr below)
  · exact .inr (.inl above)

/-- A range clear of the variables is apart from PC_BOUNCE. -/
theorem apart_bounce {p : Cell} {count : Nat} (clear : ∀ i < count, (p.1, p.2 + i) ∉ l.cells)
    (small : count ≤ 128) : Apart p (0, l.pcBounce) count := by
  have bounceAt : l.pcBounce = l.pagemap + 44 := rfl
  by_cases page : p.1 = 0
  · refine .inr ?_
    dsimp only
    by_contra meets
    rcases Nat.lt_or_ge p.2 l.pcBounce with below | above
    · exact clear (l.pcBounce - p.2) (by omega) ⟨page, .inr (by dsimp only; omega)⟩
    · exact clear 0 (by omega) ⟨page, .inr (by dsimp only; omega)⟩
  · exact .inl page

/-- The chunk's work: PC_CHUNK is set, the bytes go to PC_BOUNCE and on, PC_LEN is less. -/
def chunkRam (l : Layout) (ram : Ram) (src dst : Cell) (d left : Word) : Ram :=
  setWord
    (copyBytes
      (copyBytes (setWord ram (0, l.pcChunk) (0, l.pcChunk + 1) d) src (0, l.pcBounce) d.toNat)
      (0, l.pcBounce) dst d.toNat)
    (0, l.pcLen) (0, l.pcLen + 1) (left - d)

section Chunk

variable {ram : Ram} {m : Machine} {spage dpage : Byte} {left d x y : Word} {o o' : Nat}

theorem Seen.pcSet (setting : Setting l bank s)
    (request : Request l bank s (spage.toNat, o) (dpage.toNat, o') d.toNat)
    (seen : Seen (noise bank (s - 16) s) ram bank m)
    (ready : Ready l bank s spage dpage left ram)
    (chunk : d = if left.toNat ≤ 128 then left else 128)
    (xAt : x.toNat = Machine.tempBank s * bankSize + o)
    (yAt : y.toNat = Machine.tempBank s * bankSize + o') :
    (m.pcSet l s left x y).1 = x + d ∧ (m.pcSet l s left x y).2.1 = y + d ∧
      Seen (noise bank (s - 16) s)
        (chunkRam l ram (spage.toNat, o) (dpage.toNat, o') d left) bank
        (m.pcSet l s left x y).2.2 := by
  have room := setting.room_caller
  have bank0 := setting.bank0
  have temp := tempBank_values s
  have shadow16 : sbank1 = 0x16 := rfl
  have fits := l.inBank0
  have size : bankSize = 0x4000 := rfl
  have top : ramTop = 0xF000 := rfl
  have lenAt : l.pcLen = l.pagemap + 36 := rfl
  have chunkAt : l.pcChunk = l.pagemap + 38 := rfl
  have spageAt : l.pcSpage = l.pagemap + 40 := rfl
  have dpageAt : l.pcDpage = l.pagemap + 41 := rfl
  have tbAt : l.pcTb = l.pagemap + 42 := rfl
  have bounceAt : l.pcBounce = l.pagemap + 44 := rfl
  have small : d.toNat ≤ 128 := by
    rw [chunk]
    split
    · assumption
    · exact Nat.le_refl 128
  have tbValue : (BitVec.ofNat 8 (Machine.tempBank s)).toNat = Machine.tempBank s := by
    rw [BitVec.toNat_ofNat]
    omega
  have mappedZero (page : Nat) : Function.update bank (Machine.tempBank s) page 0 = 0 := by
    rw [Function.update_of_ne (by omega), bank0]
  have lenVar := setting.var_at (v := l.pcLen) (by omega)
  have lenVar' := setting.var_at (v := l.pcLen + 1) (by omega)
  have chunkVar := setting.var_at (v := l.pcChunk) (by omega)
  have chunkVar' := setting.var_at (v := l.pcChunk + 1) (by omega)
  have spageVar := setting.var_at (v := l.pcSpage) (by omega)
  have dpageVar := setting.var_at (v := l.pcDpage) (by omega)
  have tbVar := setting.var_at (v := l.pcTb) (by omega)
  have shadowVar := setting.var_at (v := sbank1 - 1 + Machine.tempBank s) (by omega)
  -- what the variables hold on the way
  have kept1 (v : Nat) (before : v ≠ l.pcChunk) (after : v ≠ l.pcChunk + 1) :
      setWord ram (0, l.pcChunk) (0, l.pcChunk + 1) d (0, v) = ram (0, v) :=
    setWord_outside d (cell_ne before) (cell_ne after)
  have kept2 (ram : Ram) (p : Cell) (v : Nat) (below : v < l.pcBounce) :
      copyBytes ram p (0, l.pcBounce) d.toNat (0, v) = ram (0, v) :=
    copyBytes_outside fun i _ => cell_ne (by dsimp only; omega)
  have kept3 (ram : Ram) (p : Cell) (v : Nat) (isVar : sbank1 ≤ v ∧ v < sbank1 + 3 ∨
      l.pagemap ≤ v ∧ v < l.pagemap + 172) :
      copyBytes ram p (dpage.toNat, o') d.toNat (0, v) = ram (0, v) :=
    copyBytes_outside fun i inside => request.dst_ne_var inside isVar
  have chunkWord : word (setWord ram (0, l.pcChunk) (0, l.pcChunk + 1) d (0, l.pcChunk))
      (setWord ram (0, l.pcChunk) (0, l.pcChunk + 1) d (0, l.pcChunk + 1)) = d :=
    setWord_word d (cell_ne (by omega))
  have dIs : (if left.toNat ≤ pcChunkmax then left else BitVec.ofNat 16 pcChunkmax) = d :=
    chunk.symm
  rw [Machine.pcSet]
  dsimp only
  rw [dIs]
  -- PC_CHUNK, then the bank and the source page
  have s1 := seen.std room (a := l.pcChunk) (by omega) d
  rw [(chunkVar _ bank0).1, (chunkVar' _ bank0).1] at s1
  generalize m.std s l.pcChunk d = m1 at s1 ⊢
  obtain ⟨v2, s2⟩ := s1.ldb room (tbVar _ bank0).2
  rw [(tbVar _ bank0).1, kept1 _ (by omega) (by omega), ready.tb] at v2
  generalize (m1.ldb s l.pcTb).2 = m2 at s2 ⊢
  rw [v2, tbValue]
  obtain ⟨v3, s3⟩ := s2.ldb room (spageVar _ bank0).2
  rw [(spageVar _ bank0).1, kept1 _ (by omega) (by omega), ready.spage] at v3
  generalize (m2.ldb s l.pcSpage).2 = m3 at s3 ⊢
  rw [v3]
  -- there
  obtain ⟨w1, k1, s4⟩ :
      (m3.half l s (Machine.tempBank s) spage y x.toNat l.pcBounce).1 = d ∧
        (m3.half l s (Machine.tempBank s) spage y x.toNat l.pcBounce).2.1 = y ∧ _ := by
    refine Seen.half (p := (spage.toNat, o)) (q := (0, l.pcBounce)) setting s3 room rfl ?_ ?_ ?_ ?_
      ?_ ?_ ?_
    · intro bank' zero
      refine ⟨(chunkVar _ zero).2, (chunkVar' _ zero).2, ?_⟩
      rw [(chunkVar _ zero).1, (chunkVar' _ zero).1]
      exact chunkWord
    · intro i inside
      have within := request.srcFits
      dsimp only at within ⊢
      rw [xAt, Nat.add_assoc, cellOf_window _ _ (by omega), Function.update_self]
    · intro i inside
      exact cellOf_low (mappedZero _) (by omega)
    · intro i inside
      omega
    · exact fun i inside => request.src_certain inside
    · exact fun i inside => setting.var_certain (by omega)
    · exact apart_bounce request.srcVars small
  generalize (m3.half l s (Machine.tempBank s) spage y x.toNat l.pcBounce).2.2 = m4 at s4 ⊢
  rw [w1, k1]
  obtain ⟨v5, s5⟩ := s4.ldb (setting.room_stack _) (dpageVar _ (mappedZero _)).2
  rw [(dpageVar _ (mappedZero _)).1, kept2 _ _ _ (by omega), kept1 _ (by omega) (by omega),
    ready.dpage] at v5
  generalize (m4.ldb s l.pcDpage).2 = m5 at s5 ⊢
  rw [v5]
  -- and on
  obtain ⟨w2, k2, s6⟩ :
      (m5.half l s (Machine.tempBank s) dpage (x + d) l.pcBounce y.toNat).1 = d ∧
        (m5.half l s (Machine.tempBank s) dpage (x + d) l.pcBounce y.toNat).2.1 = x + d ∧ _ := by
    refine Seen.half (p := (0, l.pcBounce)) (q := (dpage.toNat, o')) setting s5
      (setting.room_stack _) (Function.update_idem _ _ _) ?_ ?_ ?_ ?_ ?_ ?_ ?_
    · intro bank' zero
      refine ⟨(chunkVar _ zero).2, (chunkVar' _ zero).2, ?_⟩
      rw [(chunkVar _ zero).1, (chunkVar' _ zero).1, kept2 _ _ _ (by omega),
        kept2 _ _ _ (by omega)]
      exact chunkWord
    · intro i inside
      exact cellOf_low (mappedZero _) (by omega)
    · intro i inside
      have within := request.dstFits
      dsimp only at within ⊢
      rw [yAt, Nat.add_assoc, cellOf_window _ _ (by omega), Function.update_self]
    · intro i inside
      have within := request.dstFits
      dsimp only at within
      rw [yAt]
      rcases temp with one | two
      · rw [one]
        omega
      · rw [two]
        omega
    · exact fun i inside => setting.var_certain (by omega)
    · exact fun i inside => request.dst_certain inside
    · exact (apart_bounce request.dstVars small).symm
  generalize (m5.half l s (Machine.tempBank s) dpage (x + d) l.pcBounce y.toNat).2.2 = m6
    at s6 ⊢
  rw [w2, k2]
  -- the caller's mapping again
  obtain ⟨v7, s7⟩ := s6.ldb (setting.room_stack _) (shadowVar _ (mappedZero _)).2
  rw [(shadowVar _ (mappedZero _)).1, kept3 _ _ _ (by omega), kept2 _ _ _ (by omega),
    kept1 _ (by omega) (by omega)] at v7
  generalize (m6.ldb s (sbank1 - 1 + Machine.tempBank s)).2 = m7 at s7 ⊢
  rw [v7]
  have s8 := s7.stb_bank (setting.room_stack _) (i := Machine.tempBank s) (by omega)
    (ram (0, sbank1 - 1 + Machine.tempBank s))
  rw [Function.update_idem, ready.shadow, Function.update_eq_self] at s8
  generalize m7.stb s (bankBase + Machine.tempBank s)
    (ram (0, sbank1 - 1 + Machine.tempBank s)) = m8 at s8 ⊢
  have s9 : Seen _ _ _ (m8.ldb s l.pcKeepi).2 := s8.tick room
  generalize (m8.ldb s l.pcKeepi).2 = m9 at s9 ⊢
  -- PC_LEN
  obtain ⟨v10, s10⟩ := s9.ldd room (lenVar _ bank0).2 (lenVar' _ bank0).2
  rw [(lenVar _ bank0).1, (lenVar' _ bank0).1, kept3 _ _ _ (by omega), kept2 _ _ _ (by omega),
    kept1 _ (by omega) (by omega), kept3 _ _ _ (by omega), kept2 _ _ _ (by omega),
    kept1 _ (by omega) (by omega), ready.len] at v10
  generalize (m9.ldd s l.pcLen).2 = m10 at s10 ⊢
  rw [v10]
  obtain ⟨v11, s11⟩ := s10.ldd room (chunkVar _ bank0).2 (chunkVar' _ bank0).2
  rw [(chunkVar _ bank0).1, (chunkVar' _ bank0).1, kept3 _ _ _ (by omega),
    kept2 _ _ _ (by omega), kept3 _ _ _ (by omega), kept2 _ _ _ (by omega), chunkWord] at v11
  generalize (m10.ldd s l.pcChunk).2 = m11 at s11 ⊢
  rw [v11]
  have s12 := s11.std room (a := l.pcLen) (by omega) (left - d)
  rw [(lenVar _ bank0).1, (lenVar' _ bank0).1] at s12
  exact ⟨rfl, rfl, s12⟩

end Chunk

end Pugputer.Banks

import Pugputer.Banks.Chunk

namespace Pugputer.Banks

/-! All the chunks. -/

/-- The variables B_PAGE_COPY works with, PC_BOUNCE among them. -/
def Layout.work (l : Layout) : Set Cell := fun c =>
  c.1 = 0 ∧ l.pcLen ≤ c.2 ∧ c.2 < l.pagemap + 172

theorem Layout.work_cells {l : Layout} {c : Cell} (work : c ∈ l.work) : c ∈ l.cells := by
  obtain ⟨page, low, high⟩ := work
  have lenAt : l.pcLen = l.pagemap + 36 := rfl
  exact ⟨page, .inr ⟨by omega, high⟩⟩

/-- The first `k` bytes are copied. -/
structure Progress (l : Layout) (bank : Nat → Nat) (s : Nat) (spage dpage : Byte) (ram₀ : Ram)
    (x y u k : Nat) (ram : Ram) : Prop where
  bound : k ≤ u
  ready : Ready l bank s spage dpage (BitVec.ofNat 16 (u - k)) ram
  copied : ∀ i < k, ram (dpage.toNat, y + i) = ram₀ (spage.toNat, x + i)
  kept : ∀ c, c ∉ noise bank (s - 16) s → c ∉ l.work → (∀ i < k, c ≠ (dpage.toNat, y + i)) →
    ram c = ram₀ c

variable {l : Layout} {bank : Nat → Nat} {s : Nat} {spage dpage : Byte} {x y u k : Nat}

theorem Request.tail (request : Request l bank s (spage.toNat, x) (dpage.toNat, y) u)
    {count : Nat} (fits : k + count ≤ u) :
    Request l bank s (spage.toNat, x + k) (dpage.toNat, y + k) count := by
  have srcFits := request.srcFits
  have dstFits := request.dstFits
  dsimp only at srcFits dstFits
  refine ⟨⟨?_, ?_, ?_, ?_⟩, by dsimp only; omega, by dsimp only; omega, ?_⟩
  · intro i inside
    dsimp only
    rw [Nat.add_assoc]
    exact request.srcVars (k + i) (by omega)
  · intro i inside
    dsimp only
    rw [Nat.add_assoc]
    exact request.srcStack (k + i) (by omega)
  · intro i inside
    dsimp only
    rw [Nat.add_assoc]
    exact request.dstVars (k + i) (by omega)
  · intro i inside
    dsimp only
    rw [Nat.add_assoc]
    exact request.dstStack (k + i) (by omega)
  · rcases request.apart with pages | below | above
    · exact .inl pages
    · dsimp only at below
      exact .inr (.inl (by dsimp only; omega))
    · dsimp only at above
      exact .inr (.inr (by dsimp only; omega))

theorem Request.src_ne_dst {src dst : Cell} {len i j : Nat}
    (request : Request l bank s src dst len) (inside : i < len) (within : j < len) :
    (src.1, src.2 + i) ≠ (dst.1, dst.2 + j) := by
  intro same
  have page := congrArg Prod.fst same
  have offset := congrArg Prod.snd same
  dsimp only at page offset
  rcases request.apart with pages | below | above
  · exact pages page
  · omega
  · omega

theorem chunkRam_inside {ram : Ram} {src dst : Cell} {d left : Word} {i : Nat}
    (srcVars : ∀ i < d.toNat, (src.1, src.2 + i) ∉ l.cells)
    (dstVars : ∀ i < d.toNat, (dst.1, dst.2 + i) ∉ l.cells) (inside : i < d.toNat) :
    chunkRam l ram src dst d left (dst.1, dst.2 + i) = ram (src.1, src.2 + i) := by
  have lenAt : l.pcLen = l.pagemap + 36 := rfl
  have chunkAt : l.pcChunk = l.pagemap + 38 := rfl
  have var {c : Cell} (clear : c ∉ l.cells) {v : Nat} (low : l.pagemap ≤ v)
      (high : v < l.pagemap + 172) : c ≠ (0, v) := by
    rintro rfl
    exact clear ⟨rfl, .inr ⟨low, high⟩⟩
  have d' := dstVars i inside
  have s' := srcVars i inside
  rw [chunkRam, setWord_outside _ (var d' (by omega) (by omega)) (var d' (by omega) (by omega)),
    copyBytes_inside inside, copyBytes_inside inside,
    setWord_outside _ (var s' (by omega) (by omega)) (var s' (by omega) (by omega))]

theorem chunkRam_outside {ram : Ram} {src dst c : Cell} {d left : Word} (small : d.toNat ≤ 128)
    (apart : ∀ i < d.toNat, c ≠ (dst.1, dst.2 + i)) (clear : c ∉ l.work) :
    chunkRam l ram src dst d left c = ram c := by
  have lenAt : l.pcLen = l.pagemap + 36 := rfl
  have chunkAt : l.pcChunk = l.pagemap + 38 := rfl
  have bounceAt : l.pcBounce = l.pagemap + 44 := rfl
  have var {v : Nat} (low : l.pcLen ≤ v) (high : v < l.pagemap + 172) : c ≠ (0, v) := by
    rintro rfl
    exact clear ⟨rfl, low, high⟩
  rw [chunkRam, setWord_outside _ (var (by omega) (by omega)) (var (by omega) (by omega)),
    copyBytes_outside apart, copyBytes_outside fun i inside => var (by omega) (by omega),
    setWord_outside _ (var (by omega) (by omega)) (var (by omega) (by omega))]

/-- A variable the chunk only reads. -/
theorem chunkRam_var {ram : Ram} {src dst : Cell} {d left : Word} {v : Nat}
    (small : d.toNat ≤ 128) (apart : ∀ i < d.toNat, (0, v) ≠ (dst.1, dst.2 + i))
    (var : v < l.pcLen ∨ l.pcChunk + 2 ≤ v ∧ v < l.pcBounce) :
    chunkRam l ram src dst d left (0, v) = ram (0, v) := by
  have lenAt : l.pcLen = l.pagemap + 36 := rfl
  have chunkAt : l.pcChunk = l.pagemap + 38 := rfl
  have bounceAt : l.pcBounce = l.pagemap + 44 := rfl
  rw [chunkRam, setWord_outside _ (cell_ne (by omega)) (cell_ne (by omega)), copyBytes_outside apart,
    copyBytes_outside fun i inside => cell_ne (by dsimp only; omega),
    setWord_outside _ (cell_ne (by omega)) (cell_ne (by omega))]

theorem Progress.next {ram₀ ram : Ram} {d : Word}
    (progress : Progress l bank s spage dpage ram₀ x y u k ram)
    (request : Request l bank s (spage.toNat, x) (dpage.toNat, y) u)
    (short : u < 0x10000) (small : d.toNat ≤ 128) (fits : k + d.toNat ≤ u) :
    Progress l bank s spage dpage ram₀ x y u (k + d.toNat)
      (chunkRam l ram (spage.toNat, x + k) (dpage.toNat, y + k) d
        (BitVec.ofNat 16 (u - k))) := by
  have tail := request.tail fits
  have temp := tempBank_values s
  have shadow16 : sbank1 = 0x16 := rfl
  have after := l.afterPublic
  have lenAt : l.pcLen = l.pagemap + 36 := rfl
  have chunkAt : l.pcChunk = l.pagemap + 38 := rfl
  have spageAt : l.pcSpage = l.pagemap + 40 := rfl
  have dpageAt : l.pcDpage = l.pagemap + 41 := rfl
  have tbAt : l.pcTb = l.pagemap + 42 := rfl
  have bounceAt : l.pcBounce = l.pagemap + 44 := rfl
  have ready := progress.ready
  have var (v : Nat) (isVar : sbank1 ≤ v ∧ v < sbank1 + 3 ∨ l.pagemap ≤ v ∧ v < l.pagemap + 172)
      (read : v < l.pcLen ∨ l.pcChunk + 2 ≤ v ∧ v < l.pcBounce) :
      chunkRam l ram (spage.toNat, x + k) (dpage.toNat, y + k) d (BitVec.ofNat 16 (u - k)) (0, v) =
        ram (0, v) :=
    chunkRam_var small (fun i inside => tail.dst_ne_var inside isVar) read
  refine ⟨fits, ⟨?_, ?_, ?_, ?_, ?_⟩, ?_, ?_⟩
  · have left : BitVec.ofNat 16 (u - k) - d = BitVec.ofNat 16 (u - (k + d.toNat)) := by
      apply BitVec.eq_of_toNat_eq
      rw [BitVec.toNat_sub, BitVec.toNat_ofNat, BitVec.toNat_ofNat]
      omega
    rw [← left]
    exact setWord_word _ (cell_ne (by omega))
  · rw [var _ (by omega) (by omega), ready.tb]
  · rw [var _ (by omega) (by omega), ready.spage]
  · rw [var _ (by omega) (by omega), ready.dpage]
  · rw [var _ (by omega) (by omega), ready.shadow]
  · intro i inside
    by_cases old : i < k
    · rw [chunkRam_outside small, progress.copied i old]
      · intro j within
        exact cell_ne (by dsimp only; omega)
      · exact fun work => request.dstVars i (by omega) (Layout.work_cells work)
    · have here : k + (i - k) = i := Nat.add_sub_of_le (by omega)
      have new : chunkRam l ram (spage.toNat, x + k) (dpage.toNat, y + k) d
          (BitVec.ofNat 16 (u - k)) (dpage.toNat, y + k + (i - k)) =
            ram (spage.toNat, x + k + (i - k)) :=
        chunkRam_inside tail.srcVars tail.dstVars (by omega)
      rw [Nat.add_assoc, Nat.add_assoc, here] at new
      rw [new]
      refine progress.kept _ (request.src_certain (by omega)) ?_ ?_
      · exact fun work => request.srcVars i (by omega) (Layout.work_cells work)
      · exact fun j within => request.src_ne_dst (by omega) (by omega)
  · intro c certain clear apart
    rw [chunkRam_outside small _ clear]
    · exact progress.kept c certain clear fun i inside => apart i (by omega)
    · intro i inside
      dsimp only
      rw [Nat.add_assoc]
      exact apart (k + i) (by omega)

/-- PC_LOOP ends, and the whole range is copied. -/
theorem Progress.pcLoop (setting : Setting l bank s) {ram₀ ram : Ram}
    (request : Request l bank s (spage.toNat, x) (dpage.toNat, y) u) {fuel : Nat}
    (enough : u - k + 128 ≤ 128 * fuel) {m : Machine} {x' y' : Word}
    (seen : Seen (noise bank (s - 16) s) ram bank m)
    (progress : Progress l bank s spage dpage ram₀ x y u k ram)
    (xAt : x'.toNat = Machine.tempBank s * bankSize + (x + k))
    (yAt : y'.toNat = Machine.tempBank s * bankSize + (y + k)) :
    ∃ m' ram', Machine.pcLoop l s fuel m x' y' = some m' ∧
      Seen (noise bank (s - 16) s) ram' bank m' ∧
      Progress l bank s spage dpage ram₀ x y u u ram' := by
  have bank0 := setting.bank0
  have temp := tempBank_values s
  have window : Machine.tempBank s * bankSize ≤ 0x8000 := by
    rcases temp with one | two
    · rw [one]
      decide
    · rw [two]
      decide
  have srcFits : x + u ≤ 0x4000 := request.srcFits
  have dstFits : y + u ≤ 0x4000 := request.dstFits
  have bound := progress.bound
  have lenAt : l.pcLen = l.pagemap + 36 := rfl
  have lenVar := setting.var_at (v := l.pcLen) (by omega) _ bank0
  have lenVar' := setting.var_at (v := l.pcLen + 1) (by omega) _ bank0
  induction fuel generalizing k m ram x' y' with
  | zero => omega
  | succ fuel ih =>
      obtain ⟨len, s1⟩ := seen.ldd setting.room_caller lenVar.2 lenVar'.2
      rw [lenVar.1, lenVar'.1, progress.ready.len] at len
      rw [Machine.pcLoop]
      dsimp only
      rw [len]
      generalize (m.ldd s l.pcLen).2 = m1 at s1 ⊢
      by_cases finished : k = u
      · subst finished
        have nothing : BitVec.ofNat 16 0 = (0 : Word) := rfl
        rw [Nat.sub_self, if_pos nothing]
        exact ⟨m1, ram, rfl, s1, progress⟩
      · have left : (BitVec.ofNat 16 (u - k)).toNat = u - k := by
          rw [BitVec.toNat_ofNat]
          omega
        have more : BitVec.ofNat 16 (u - k) ≠ 0 := by
          intro zero
          rw [zero] at left
          change 0 = u - k at left
          omega
        rw [if_neg more]
        have chunk : ∃ d : Word,
            d = (if (BitVec.ofNat 16 (u - k)).toNat ≤ 128 then BitVec.ofNat 16 (u - k) else 128) ∧
              d.toNat = min (u - k) 128 := by
          refine ⟨_, rfl, ?_⟩
          split
          · omega
          · change 128 = _
            omega
        obtain ⟨d, dIs, dValue⟩ := chunk
        obtain ⟨xNext, yNext, s2⟩ := Seen.pcSet setting (request.tail (by omega)) s1 progress.ready
          dIs xAt yAt
        rw [xNext, yNext]
        generalize (m1.pcSet l s (BitVec.ofNat 16 (u - k)) x' y').2.2 = m2 at s2 ⊢
        refine ih (k := k + d.toNat) (by omega) s2
          (progress.next request (by omega) (by omega) (by omega)) ?_ ?_ (by omega)
        · rw [BitVec.toNat_add, xAt]
          omega
        · rw [BitVec.toNat_add, yAt]
          omega

end Pugputer.Banks

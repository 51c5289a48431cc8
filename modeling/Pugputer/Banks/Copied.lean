import Pugputer.Banks.Loop

namespace Pugputer.Banks

/-! The whole call. -/

/-- When a copy of `u` bytes is refused, `n` pages being installed. -/
def Refused (n : Nat) (src dst : Cell) (u : Nat) : Prop :=
  n ≤ src.1 ∨ n ≤ dst.1 ∨ bankSize < src.2 + u ∨ bankSize < dst.2 + u ∨
    src.1 = dst.1 ∧ src.2 < dst.2 + u ∧ dst.2 < src.2 + u

instance (n : Nat) (src dst : Cell) (u : Nat) : Decidable (Refused n src dst u) :=
  inferInstanceAs (Decidable (_ ∨ _))

namespace Machine

/-- NPAGES. -/
def installed (m : Machine) (l : Layout) : Nat :=
  (word (m.ram (0, l.npages)) (m.ram (0, l.npages + 1))).toNat

end Machine

namespace Regs

variable (r : Regs)

def src : Cell := (r.b.toNat, r.x.toNat)
def dst : Cell := (r.e.toNat, r.y.toNat)
def len : Nat := r.u.toNat

end Regs

/-- The call is over: A and the carry are set, and only `written`, the BIOS's work variables, its
tick counters and the stack's bytes in use may differ. -/
structure Returned (l : Layout) (s : Nat) (m : Machine) (a : Byte) (carry : Byte → Byte)
    (written : Set Cell) (regs : Regs) (m' : Machine) : Prop where
  regs : regs = { m.frameRegs s with a := a, cc := carry (m.frameRegs s).cc }
  bank : m'.bank = m.bank
  kept : ∀ c, c ∉ written → c ∉ l.work → c ∉ rtcCells →
    c ∉ cellsOf m.bank (s - 16) (s + 14) → m'.ram c = m.ram c

/-- A and CC changed in the frame. -/
theorem Machine.frameRegs_changed {m m' : Machine} {s : Nat} {cc a : Byte}
    (ccIs : m'.load s = cc) (aIs : m'.load (s + 1) = a)
    (same : ∀ i < 14, 2 ≤ i → m'.load (s + i) = m.load (s + i)) :
    m'.frameRegs s = { m.frameRegs s with a := a, cc := cc } := by
  rw [frameRegs, ccIs, aIs, same 2 (by omega) (by omega), same 3 (by omega) (by omega),
    same 4 (by omega) (by omega), same 5 (by omega) (by omega), same 6 (by omega) (by omega),
    same 7 (by omega) (by omega), same 8 (by omega) (by omega), same 9 (by omega) (by omega),
    same 10 (by omega) (by omega), same 11 (by omega) (by omega), same 12 (by omega) (by omega),
    same 13 (by omega) (by omega)]
  rfl

variable {l : Layout} {s : Nat} {m : Machine}

theorem Layout.work_of_var {v : Nat} (low : l.pcLen ≤ v) (high : v < l.pagemap + 172) :
    (0, v) ∈ l.work :=
  ⟨rfl, low, high⟩

/-- The frame is not among the work variables. -/
theorem Setting.frame_kept (setting : Setting l m.bank s) {ram : Ram}
    (kept : ∀ c, c ∉ l.work → ram c = m.ram c) {i : Nat} (inside : i < 14) :
    ram (cellOf m.bank (s + i)) = m.load (s + i) :=
  kept _ fun work => setting.clear (s + i) (by omega) (by omega) (Layout.work_cells work)

theorem Seen.epilogue {ram : Ram} {m₁ : Machine} {written : Set Cell}
    (setting : Setting l m.bank s) (seen : Seen (noise m.bank (s - 16) s) ram m.bank m₁)
    (frame : ∀ i < 14, ram (cellOf m.bank (s + i)) = m.load (s + i))
    (kept : ∀ c, c ∉ noise m.bank (s - 16) s → c ∉ l.work → c ∉ written → ram c = m.ram c)
    (a : Byte) (carry : Byte → Byte) :
    Returned l s m a carry written (m₁.epilogue s a carry).1 (m₁.epilogue s a carry).2 ∧
      ∀ c, c ∉ noise m.bank (s - 16) s → c ∉ cellsOf m.bank s (s + 14) →
        (m₁.epilogue s a carry).2.ram c = ram c := by
  have room := setting.room_caller
  have high := setting.high
  have size : bankSize = 0x4000 := rfl
  have certain {b : Nat} (low : s ≤ b) (inside : b < s + 14) :
      cellOf m.bank b ∉ noise m.bank (s - 16) s :=
    setting.above_certain low (by omega) inside
  have ne {b b' : Nat} (low : s ≤ b) (less : b < b') (inside : b' < s + 14) :
      cellOf m.bank b ≠ cellOf m.bank b' := by
    intro same
    have equal := near_inj (by omega) (by omega) same
    omega
  have s1 := seen.stb room (a := s + 1) (by omega) a
  obtain ⟨cc, s2⟩ := s1.ldb room (a := s) (certain (Nat.le_refl s) (by omega))
  have ccIs : ram (cellOf m.bank s) = m.load s := frame 0 (by omega)
  rw [Function.update_of_ne (ne (Nat.le_refl s) (by omega) (by omega)), ccIs] at cc
  have s3 := s2.store (a := s) (by omega) (carry (m.load s))
  have s4 := s3.tick room
  have result : m₁.epilogue s a carry =
      (((((m₁.stb s (s + 1) a).ldb s s).2.store s (carry (m.load s))).tick s).frameRegs s,
        (((m₁.stb s (s + 1) a).ldb s s).2.store s (carry (m.load s))).tick s) := by
    rw [Machine.epilogue]
    dsimp only
    rw [cc]
    rfl
  rw [result]
  generalize (((m₁.stb s (s + 1) a).ldb s s).2.store s (carry (m.load s))).tick s = m₄ at s4 ⊢
  dsimp only
  have outside (c : Cell) (sure : c ∉ noise m.bank (s - 16) s)
      (notFrame : c ∉ cellsOf m.bank s (s + 14)) : m₄.ram c = ram c := by
    rw [s4.ram c sure, Function.update_of_ne, Function.update_of_ne]
    · rintro rfl
      exact notFrame ⟨s + 1, by omega, by omega, rfl⟩
    · rintro rfl
      exact notFrame ⟨s, by omega, by omega, rfl⟩
  refine ⟨⟨?_, s4.bank, ?_⟩, outside⟩
  · refine Machine.frameRegs_changed ?_ ?_ ?_
    · rw [s4.load (certain (Nat.le_refl s) (by omega)), Function.update_self]
      rfl
    · rw [s4.load (certain (by omega) (by omega)),
        Function.update_of_ne (ne (Nat.le_refl s) (by omega) (by omega)).symm, Function.update_self]
    · intro i inside later
      rw [s4.load (certain (by omega) (by omega)),
        Function.update_of_ne (ne (Nat.le_refl s) (by omega) (by omega)).symm,
        Function.update_of_ne (ne (by omega) (by omega) (by omega)).symm, frame i inside]
  · intro c notWritten notWork notRtc notStack
    have sure : c ∉ noise m.bank (s - 16) s := by
      rintro (⟨b, after, before, same⟩ | rtc)
      · exact notStack ⟨b, after, by omega, same⟩
      · exact notRtc rtc
    rw [outside c sure fun ⟨b, after, before, same⟩ => notStack ⟨b, by omega, before, same⟩]
    exact kept c sure notWork notWritten

/-- A range of a page. -/
def rangeOf (first : Cell) (len : Nat) : Set Cell := fun c => ∃ i < len, c = (first.1, first.2 + i)

theorem Seen.bbBad {ram : Ram} {m₁ : Machine} (setting : Setting l m.bank s)
    (seen : Seen (noise m.bank (s - 16) s) ram m.bank m₁)
    (kept : ∀ c, c ∉ l.work → ram c = m.ram c) :
    Returned l s m errBadparam (· ||| 0x01) ∅ (m₁.bbBad s).1 (m₁.bbBad s).2 :=
  (Seen.epilogue setting seen (fun _ inside => setting.frame_kept kept inside)
    (fun c _ notWork _ => kept c notWork) errBadparam (· ||| 0x01)).1

/-- PC_NOOVERLAP copies. -/
theorem Seen.pcNooverlap {ram : Ram} {m₁ : Machine} {fuel : Nat} (setting : Setting l m.bank s)
    (shadow : (m.ram (0, sbank1 - 1 + Machine.tempBank s)).toNat = m.bank (Machine.tempBank s))
    (request : Request l m.bank s (m.frameRegs s).src (m.frameRegs s).dst (m.frameRegs s).len)
    (enough : 129 ≤ fuel) (seen : Seen (noise m.bank (s - 16) s) ram m.bank m₁)
    (kept : ∀ c, c ∉ l.work → ram c = m.ram c)
    (len : word (ram (0, l.pcLen)) (ram (0, l.pcLen + 1)) = (m.frameRegs s).u)
    (spage : ram (0, l.pcSpage) = (m.frameRegs s).b)
    (dpage : ram (0, l.pcDpage) = (m.frameRegs s).e) :
    ∃ regs m', m₁.pcNooverlap l s fuel (m.frameRegs s).x (m.frameRegs s).y = some (regs, m') ∧
      Returned l s m errOk (· &&& 0xFE) (rangeOf (m.frameRegs s).dst (m.frameRegs s).len) regs m' ∧
      ∀ i < (m.frameRegs s).len, m'.ram ((m.frameRegs s).dst.1, (m.frameRegs s).dst.2 + i) =
        m.ram ((m.frameRegs s).src.1, (m.frameRegs s).src.2 + i) := by
  have bank0 := setting.bank0
  have room := setting.room_caller
  have top : ramTop = 0xF000 := rfl
  have size : bankSize = 0x4000 := rfl
  have temp := tempBank_values s
  have after := l.afterPublic
  have shadowIs : sbank1 = 0x16 := rfl
  have fits := l.inBank0
  have lenIs : l.pcLen = l.pagemap + 36 := rfl
  have spageIs : l.pcSpage = l.pagemap + 40 := rfl
  have dpageIs : l.pcDpage = l.pagemap + 41 := rfl
  have tbIs : l.pcTb = l.pagemap + 42 := rfl
  have keepiIs : l.pcKeepi = l.pagemap + 43 := rfl
  have lenVar := setting.var_at (v := l.pcLen) (by omega) _ bank0
  have lenVar' := setting.var_at (v := l.pcLen + 1) (by omega) _ bank0
  have tbVar := setting.var_at (v := l.pcTb) (by omega) _ bank0
  have keepiVar := setting.var_at (v := l.pcKeepi) (by omega) _ bank0
  generalize request_eq : m.frameRegs s = r at request len spage dpage ⊢
  obtain ⟨v1, s1⟩ := seen.ldd room lenVar.2 lenVar'.2
  rw [lenVar.1, lenVar'.1, len] at v1
  rw [Machine.pcNooverlap]
  dsimp only
  rw [v1]
  generalize (m₁.ldd s l.pcLen).2 = m2 at s1 ⊢
  by_cases nothing : r.u = 0
  · have none : r.len = 0 := congrArg BitVec.toNat nothing
    rw [if_pos nothing, none]
    refine ⟨_, _, rfl, ?_, fun i inside => absurd inside (Nat.not_lt_zero i)⟩
    exact (Seen.epilogue setting s1 (fun _ inside => setting.frame_kept kept inside)
      (fun c _ notWork _ => kept c notWork) errOk (· &&& 0xFE)).1
  · rw [if_neg nothing]
    have s2 := s1.stb room (a := l.pcTb) (by omega) (BitVec.ofNat 8 (Machine.tempBank s))
    rw [tbVar.1] at s2
    generalize m2.stb s l.pcTb (BitVec.ofNat 8 (Machine.tempBank s)) = m3 at s2 ⊢
    have s3 : Seen _ _ _ (m3.ldb s s).2 := s2.tick room
    generalize (m3.ldb s s).2 = m4 at s3 ⊢
    have s4 := s3.stb room (a := l.pcKeepi) (by omega) ((m3.ldb s s).1 &&& 0x50)
    rw [keepiVar.1] at s4
    generalize (m3.ldb s s).1 &&& 0x50 = keepi at s4 ⊢
    generalize m4.stb s l.pcKeepi keepi = m5 at s4 ⊢
    have other {c : Cell} (tb : c ≠ (0, l.pcTb)) (notKeepi : c ≠ (0, l.pcKeepi)) :
        Function.update (Function.update ram (0, l.pcTb) (BitVec.ofNat 8 (Machine.tempBank s)))
          (0, l.pcKeepi) keepi c = ram c := by
      rw [Function.update_of_ne notKeepi, Function.update_of_ne tb]
    have srcFits : r.x.toNat + r.u.toNat ≤ 0x4000 := request.srcFits
    have dstFits : r.y.toNat + r.u.toNat ≤ 0x4000 := request.dstFits
    have start : Progress l m.bank s r.b r.e m.ram r.x.toNat r.y.toNat r.u.toNat 0
        (Function.update (Function.update ram (0, l.pcTb)
          (BitVec.ofNat 8 (Machine.tempBank s))) (0, l.pcKeepi) keepi) := by
      refine ⟨Nat.zero_le _, ⟨?_, ?_, ?_, ?_, ?_⟩, fun i inside => absurd inside i.not_lt_zero, ?_⟩
      · rw [other (cell_ne (by omega)) (cell_ne (by omega)), other (cell_ne (by omega)) (cell_ne (by omega)), len,
          Nat.sub_zero, BitVec.ofNat_toNat, BitVec.setWidth_eq]
      · rw [Function.update_of_ne (cell_ne (by omega)), Function.update_self]
      · rw [other (cell_ne (by omega)) (cell_ne (by omega)), spage]
      · rw [other (cell_ne (by omega)) (cell_ne (by omega)), dpage]
      · rw [other (cell_ne (by omega)) (cell_ne (by omega)), kept, shadow]
        exact fun work => absurd work.2.1 (by dsimp only; omega)
      · intro c _ notWork _
        have clear {v : Nat} (low : l.pcLen ≤ v) (below : v < l.pagemap + 172) : c ≠ (0, v) := by
          rintro rfl
          exact notWork (Layout.work_of_var low below)
        rw [other (clear (by omega) (by omega)) (clear (by omega) (by omega)), kept c notWork]
    have window (w : Word) (inPage : w.toNat ≤ 0x4000) :
        (w + BitVec.ofNat 16 (Machine.tempBank s * bankSize)).toNat =
          Machine.tempBank s * bankSize + (w.toNat + 0) := by
      rw [BitVec.toNat_add, BitVec.toNat_ofNat, size]
      omega
    have turns : r.u.toNat - 0 + 128 ≤ 128 * fuel := by omega
    obtain ⟨m6, ram6, loop, s6, done⟩ := start.pcLoop setting request turns s4
      (window r.x (by omega)) (window r.y (by omega))
    rw [loop]
    have frame : ∀ i < 14, ram6 (cellOf m.bank (s + i)) = m.load (s + i) := by
      intro i inside
      refine done.kept _ (setting.above_certain (by omega) (by omega) (by omega)) ?_ ?_
      · exact fun work => setting.clear _ (by omega) (by omega) (Layout.work_cells work)
      · intro j within same
        exact request.dstStack j within ⟨s + i, by omega, by omega, same.symm⟩
    have elsewhere : ∀ c, c ∉ noise m.bank (s - 16) s → c ∉ l.work → c ∉ rangeOf r.dst r.len →
        ram6 c = m.ram c :=
      fun c sure notWork notDst => done.kept c sure notWork fun i inside same =>
        notDst ⟨i, inside, same⟩
    have finish := Seen.epilogue setting s6 frame elsewhere errOk (· &&& 0xFE)
    refine ⟨_, _, rfl, finish.1, ?_⟩
    intro i inside
    refine (finish.2 _ (request.dst_certain inside) ?_).trans (done.copied i inside)
    exact fun ⟨a, low, below, same⟩ =>
      request.dstStack i inside ⟨a, by omega, below, same⟩

theorem leavesPage_iff (u offset : Word) :
    Machine.leavesPage u offset ↔ bankSize < offset.toNat + u.toNat := by
  have size : bankSize = 0x4000 := rfl
  rw [Machine.leavesPage, BitVec.toNat_add]
  omega

/-- PC_ABS: how far apart two offsets are. -/
theorem gap_lt {x y : Word} (first : x.toNat ≤ 0x4000) (second : y.toNat ≤ 0x4000) (u : Nat) :
    (if (x - y).msb then -(x - y) else x - y).toNat < u ↔
      x.toNat < y.toNat + u ∧ y.toNat < x.toNat + u := by
  have gap := BitVec.toNat_sub x y
  rw [BitVec.msb_eq_decide]
  split
  · next negative =>
      have half := of_decide_eq_true negative
      rw [BitVec.toNat_neg]
      omega
  · next positive =>
      have half := of_decide_eq_false (Bool.eq_false_iff.mpr positive)
      omega

section Checks

variable {ram : Ram} {m₁ : Machine} (setting : Setting l m.bank s)
  (seen : Seen (noise m.bank (s - 16) s) ram m.bank m₁) (kept : ∀ c, c ∉ l.work → ram c = m.ram c)

include setting seen kept

theorem Seen.frameByte {i : Nat} (inside : i < 14) :
    (m₁.ldb s (s + i)).1 = m.load (s + i) ∧
      Seen (noise m.bank (s - 16) s) ram m.bank (m₁.ldb s (s + i)).2 := by
  have certain : cellOf m.bank (s + i) ∉ noise m.bank (s - 16) s :=
    setting.above_certain (by omega) (by omega) (by omega)
  obtain ⟨value, next⟩ := seen.ldb setting.room_caller certain
  exact ⟨value.trans (setting.frame_kept kept inside), next⟩

theorem Seen.frameWord {i : Nat} (inside : i < 13) :
    (m₁.ldd s (s + i)).1 = word (m.load (s + i)) (m.load (s + i + 1)) ∧
      Seen (noise m.bank (s - 16) s) ram m.bank (m₁.ldd s (s + i)).2 := by
  have first : cellOf m.bank (s + i) ∉ noise m.bank (s - 16) s :=
    setting.above_certain (by omega) (by omega) (by omega)
  have second : cellOf m.bank (s + i + 1) ∉ noise m.bank (s - 16) s :=
    setting.above_certain (by omega) (by omega) (by omega)
  obtain ⟨value, next⟩ := seen.ldd setting.room_caller first second
  have firstIs : ram (cellOf m.bank (s + i)) = m.load (s + i) :=
    setting.frame_kept kept (by omega)
  have secondIs : ram (cellOf m.bank (s + i + 1)) = m.load (s + i + 1) :=
    setting.frame_kept kept (i := i + 1) (by omega)
  rw [firstIs, secondIs] at value
  exact ⟨value, next⟩

theorem Seen.npages :
    (m₁.ldd s l.npages).1.toNat = m.installed l ∧
      Seen (noise m.bank (s - 16) s) ram m.bank (m₁.ldd s l.npages).2 := by
  have npagesIs : l.npages = l.pagemap + 32 := rfl
  have lenIs : l.pcLen = l.pagemap + 36 := rfl
  have first := setting.var_at (v := l.npages) (by omega) _ setting.bank0
  have second := setting.var_at (v := l.npages + 1) (by omega) _ setting.bank0
  have outside {v : Nat} (below : v < l.pcLen) : (0, v) ∉ l.work :=
    fun work => absurd work.2.1 (Nat.not_le_of_lt below)
  obtain ⟨value, next⟩ := seen.ldd setting.room_caller first.2 second.2
  rw [first.1, second.1, kept _ (outside (by omega)), kept _ (outside (by omega))] at value
  exact ⟨congrArg BitVec.toNat value, next⟩

/-- A work variable is set. -/
theorem Seen.setWork {v : Nat} (low : l.pcLen ≤ v) (high : v < l.pagemap + 172) (value : Byte) :
    Seen (noise m.bank (s - 16) s) (Function.update ram (0, v) value) m.bank (m₁.stb s v value) ∧
      ∀ c, c ∉ l.work → Function.update ram (0, v) value c = m.ram c := by
  have lenIs : l.pcLen = l.pagemap + 36 := rfl
  have top : ramTop = 0xF000 := rfl
  have size : bankSize = 0x4000 := rfl
  have fits := l.inBank0
  have var := setting.var_at (v := v) (by omega) _ setting.bank0
  have stored := seen.stb setting.room_caller (a := v) (by omega) value
  rw [var.1] at stored
  refine ⟨stored, fun c notWork => ?_⟩
  rw [Function.update_of_ne, kept c notWork]
  rintro rfl
  exact notWork (Layout.work_of_var low high)

theorem Seen.setWorkWord {v : Nat} (low : l.pcLen ≤ v) (high : v + 1 < l.pagemap + 172)
    (value : Word) :
    Seen (noise m.bank (s - 16) s) (setWord ram (0, v) (0, v + 1) value) m.bank
        (m₁.std s v value) ∧
      ∀ c, c ∉ l.work → setWord ram (0, v) (0, v + 1) value c = m.ram c := by
  have lenIs : l.pcLen = l.pagemap + 36 := rfl
  have top : ramTop = 0xF000 := rfl
  have size : bankSize = 0x4000 := rfl
  have fits := l.inBank0
  have first := setting.var_at (v := v) (by omega) _ setting.bank0
  have second := setting.var_at (v := v + 1) (by omega) _ setting.bank0
  have stored := seen.std setting.room_caller (a := v) (by omega) value
  rw [first.1, second.1] at stored
  refine ⟨stored, fun c notWork => ?_⟩
  rw [setWord_outside, kept c notWork]
  · rintro rfl
    exact notWork (Layout.work_of_var low (by omega))
  · rintro rfl
    exact notWork (Layout.work_of_var (by omega) high)

end Checks

/-- What a call does: it is refused, or it copies. -/
def Done (l : Layout) (s : Nat) (m : Machine) (regs : Regs) (m' : Machine) : Prop :=
  let r := m.frameRegs s
  (Refused (m.installed l) r.src r.dst r.len →
    Returned l s m errBadparam (· ||| 0x01) ∅ regs m') ∧
  (¬Refused (m.installed l) r.src r.dst r.len →
    Returned l s m errOk (· &&& 0xFE) (rangeOf r.dst r.len) regs m' ∧
      ∀ i < r.len, m'.ram (r.dst.1, r.dst.2 + i) = m.ram (r.src.1, r.src.2 + i))

theorem Seen.refuses {ram : Ram} {m₁ : Machine} (setting : Setting l m.bank s)
    (seen : Seen (noise m.bank (s - 16) s) ram m.bank m₁)
    (kept : ∀ c, c ∉ l.work → ram c = m.ram c)
    (refused : Refused (m.installed l) (m.frameRegs s).src (m.frameRegs s).dst
      (m.frameRegs s).len) :
    ∃ regs m', some (m₁.bbBad s) = some (regs, m') ∧ Done l s m regs m' :=
  ⟨_, _, rfl, fun _ => seen.bbBad setting kept, fun copies => absurd refused copies⟩

theorem biosPageCopy_done {fuel : Nat} (setting : Setting l m.bank s)
    (shadow : (m.ram (0, sbank1 - 1 + Machine.tempBank s)).toNat = m.bank (Machine.tempBank s))
    (clear : ¬Refused (m.installed l) (m.frameRegs s).src (m.frameRegs s).dst
      (m.frameRegs s).len → Clear l m.bank s (m.frameRegs s).src (m.frameRegs s).dst
        (m.frameRegs s).len)
    (enough : 129 ≤ fuel) :
    ∃ regs m', m.biosPageCopy l s fuel = some (regs, m') ∧ Done l s m regs m' := by
  have room := setting.room_caller
  have fits := l.inBank0
  have lenIs : l.pcLen = l.pagemap + 36 := rfl
  have spageIs : l.pcSpage = l.pagemap + 40 := rfl
  have dpageIs : l.pcDpage = l.pagemap + 41 := rfl
  have top : ramTop = 0xF000 := rfl
  have size : bankSize = 0x4000 := rfl
  have lenVar := setting.var_at (v := l.pcLen) (by omega)
  have lenVar' := setting.var_at (v := l.pcLen + 1) (by omega)
  have spageVar := setting.var_at (v := l.pcSpage) (by omega)
  have dpageVar := setting.var_at (v := l.pcDpage) (by omega)
  have s0 : Seen (noise m.bank (s - 16) s) m.ram m.bank m := ⟨rfl, fun _ _ => rfl⟩
  have kept0 : ∀ c, c ∉ l.work → m.ram c = m.ram c := fun _ _ => rfl
  rw [Machine.biosPageCopy]
  dsimp only
  -- the parameters
  obtain ⟨x, s1⟩ := s0.frameWord setting kept0 (i := 6) (by omega)
  change _ = (m.frameRegs s).x at x
  rw [x]
  generalize (m.ldd s (s + 6)).2 = m1 at s1 ⊢
  obtain ⟨y, s2⟩ := s1.frameWord setting kept0 (i := 8) (by omega)
  change _ = (m.frameRegs s).y at y
  rw [y]
  generalize (m1.ldd s (s + 8)).2 = m2 at s2 ⊢
  obtain ⟨u, s3⟩ := s2.frameWord setting kept0 (i := 10) (by omega)
  change _ = (m.frameRegs s).u at u
  rw [u]
  generalize (m2.ldd s (s + 10)).2 = m3 at s3 ⊢
  obtain ⟨b, s4⟩ := s3.frameByte setting kept0 (i := 2) (by omega)
  change _ = (m.frameRegs s).b at b
  rw [b]
  generalize (m3.ldb s (s + 2)).2 = m4 at s4 ⊢
  -- the pages are installed
  obtain ⟨n, s5⟩ := s4.npages setting kept0
  rw [n]
  generalize (m4.ldd s l.npages).2 = m5 at s5 ⊢
  by_cases noSrc : m.installed l ≤ (m.frameRegs s).b.toNat
  · rw [if_pos noSrc]
    exact s5.refuses setting kept0 (.inl noSrc)
  rw [if_neg noSrc]
  obtain ⟨s6, kept6⟩ := s5.setWork setting kept0 (v := l.pcSpage) (by omega) (by omega)
    (m.frameRegs s).b
  generalize m5.stb s l.pcSpage (m.frameRegs s).b = m6 at s6 ⊢
  obtain ⟨e, s7⟩ := s6.frameByte setting kept6 (i := 3) (by omega)
  change _ = (m.frameRegs s).e at e
  rw [e]
  generalize (m6.ldb s (s + 3)).2 = m7 at s7 ⊢
  obtain ⟨n', s8⟩ := s7.npages setting kept6
  rw [n']
  generalize (m7.ldd s l.npages).2 = m8 at s8 ⊢
  by_cases noDst : m.installed l ≤ (m.frameRegs s).e.toNat
  · rw [if_pos noDst]
    exact s8.refuses setting kept6 (.inr (.inl noDst))
  rw [if_neg noDst]
  obtain ⟨s9, kept9⟩ := s8.setWork setting kept6 (v := l.pcDpage) (by omega) (by omega)
    (m.frameRegs s).e
  generalize m8.stb s l.pcDpage (m.frameRegs s).e = m9 at s9 ⊢
  -- the ranges are in them
  obtain ⟨src, s10⟩ := s9.frameWord setting kept9 (i := 6) (by omega)
  change _ = (m.frameRegs s).x at src
  rw [src]
  generalize (m9.ldd s (s + 6)).2 = m10 at s10 ⊢
  by_cases srcLeaves : Machine.leavesPage (m.frameRegs s).u (m.frameRegs s).x
  · rw [if_pos srcLeaves]
    exact s10.refuses setting kept9
      (.inr (.inr (.inl ((leavesPage_iff _ _).mp srcLeaves))))
  rw [if_neg srcLeaves]
  obtain ⟨dst, s11⟩ := s10.frameWord setting kept9 (i := 8) (by omega)
  change _ = (m.frameRegs s).y at dst
  rw [dst]
  generalize (m10.ldd s (s + 8)).2 = m11 at s11 ⊢
  by_cases dstLeaves : Machine.leavesPage (m.frameRegs s).u (m.frameRegs s).y
  · rw [if_pos dstLeaves]
    exact s11.refuses setting kept9
      (.inr (.inr (.inr (.inl ((leavesPage_iff _ _).mp dstLeaves)))))
  rw [if_neg dstLeaves]
  have srcFits := Nat.le_of_not_lt fun less => srcLeaves ((leavesPage_iff _ _).mpr less)
  have dstFits := Nat.le_of_not_lt fun less => dstLeaves ((leavesPage_iff _ _).mpr less)
  obtain ⟨s12, kept12⟩ := s11.setWorkWord setting kept9 (v := l.pcLen) (by omega) (by omega)
    (m.frameRegs s).u
  generalize m11.std s l.pcLen (m.frameRegs s).u = m12 at s12 ⊢
  have len := @setWord_word (Function.update (Function.update m.ram (0, l.pcSpage)
    (m.frameRegs s).b) (0, l.pcDpage) (m.frameRegs s).e) (0, l.pcLen) (0, l.pcLen + 1)
    (m.frameRegs s).u (cell_ne (by omega))
  have spage : setWord (Function.update (Function.update m.ram (0, l.pcSpage)
      (m.frameRegs s).b) (0, l.pcDpage) (m.frameRegs s).e) (0, l.pcLen) (0, l.pcLen + 1)
      (m.frameRegs s).u (0, l.pcSpage) = (m.frameRegs s).b := by
    rw [setWord_outside _ (cell_ne (by omega)) (cell_ne (by omega)), Function.update_of_ne (cell_ne (by omega)),
      Function.update_self]
  have dpage : setWord (Function.update (Function.update m.ram (0, l.pcSpage)
      (m.frameRegs s).b) (0, l.pcDpage) (m.frameRegs s).e) (0, l.pcLen) (0, l.pcLen + 1)
      (m.frameRegs s).u (0, l.pcDpage) = (m.frameRegs s).e := by
    rw [setWord_outside _ (cell_ne (by omega)) (cell_ne (by omega)), Function.update_self]
  generalize setWord (Function.update (Function.update m.ram (0, l.pcSpage) (m.frameRegs s).b)
    (0, l.pcDpage) (m.frameRegs s).e) (0, l.pcLen) (0, l.pcLen + 1) (m.frameRegs s).u = ram
    at s12 kept12 len spage dpage
  -- and apart
  obtain ⟨spage', s13⟩ := s12.ldb room (spageVar _ setting.bank0).2
  rw [(spageVar _ setting.bank0).1, spage] at spage'
  rw [spage']
  generalize (m12.ldb s l.pcSpage).2 = m13 at s13 ⊢
  obtain ⟨dpage', s14⟩ := s13.ldb room (dpageVar _ setting.bank0).2
  rw [(dpageVar _ setting.bank0).1, dpage] at dpage'
  rw [dpage']
  generalize (m13.ldb s l.pcDpage).2 = m14 at s14 ⊢
  have copies {m' : Machine} (seen : Seen (noise m.bank (s - 16) s) ram m.bank m')
      (apart : Apart (m.frameRegs s).src (m.frameRegs s).dst (m.frameRegs s).len) :
      ∃ regs m'', m'.pcNooverlap l s fuel (m.frameRegs s).x (m.frameRegs s).y =
        some (regs, m'') ∧ Done l s m regs m'' := by
    have allowed : ¬Refused (m.installed l) (m.frameRegs s).src (m.frameRegs s).dst
        (m.frameRegs s).len := by
      rintro (src | dst | leaves | leaves | ⟨page, meets, meets'⟩)
      · exact noSrc src
      · exact noDst dst
      · exact absurd leaves (Nat.not_lt_of_le srcFits)
      · exact absurd leaves (Nat.not_lt_of_le dstFits)
      · rcases apart with other | below | above
        · exact other page
        · omega
        · omega
    obtain ⟨regs, m'', run, returned, same⟩ := Seen.pcNooverlap setting shadow
      ⟨clear allowed, srcFits, dstFits, apart⟩ enough seen kept12 len spage dpage
    exact ⟨regs, m'', run, fun refused => absurd refused allowed, fun _ => ⟨returned, same⟩⟩
  by_cases pages : (m.frameRegs s).b = (m.frameRegs s).e
  · rw [if_neg (not_not.mpr pages)]
    obtain ⟨src', s15⟩ := s14.frameWord setting kept12 (i := 6) (by omega)
    change _ = (m.frameRegs s).x at src'
    rw [src']
    generalize (m14.ldd s (s + 6)).2 = m15 at s15 ⊢
    obtain ⟨dst', s16⟩ := s15.frameWord setting kept12 (i := 8) (by omega)
    change _ = (m.frameRegs s).y at dst'
    rw [dst']
    generalize (m15.ldd s (s + 8)).2 = m16 at s16 ⊢
    obtain ⟨len', s17⟩ := s16.ldd room (lenVar _ setting.bank0).2 (lenVar' _ setting.bank0).2
    rw [(lenVar _ setting.bank0).1, (lenVar' _ setting.bank0).1, len] at len'
    rw [len']
    generalize (m16.ldd s l.pcLen).2 = m17 at s17 ⊢
    have gap := gap_lt (x := (m.frameRegs s).x) (y := (m.frameRegs s).y) (by omega) (by omega)
      (m.frameRegs s).u.toNat
    by_cases near : (if ((m.frameRegs s).x - (m.frameRegs s).y).msb then
        -((m.frameRegs s).x - (m.frameRegs s).y)
        else (m.frameRegs s).x - (m.frameRegs s).y).toNat < (m.frameRegs s).u.toNat
    · rw [if_pos near]
      exact s17.refuses setting kept12
        (.inr (.inr (.inr (.inr ⟨congrArg BitVec.toNat pages, gap.mp near⟩))))
    · rw [if_neg near]
      refine copies s17 (.inr ?_)
      have far := mt gap.mpr near
      change (m.frameRegs s).x.toNat + (m.frameRegs s).u.toNat ≤ (m.frameRegs s).y.toNat ∨
        (m.frameRegs s).y.toNat + (m.frameRegs s).u.toNat ≤ (m.frameRegs s).x.toNat
      omega
  · rw [if_pos pages]
    exact copies s14 (.inl fun same => pages (BitVec.eq_of_toNat_eq same))

/-- A shadow is not among what a call may change. -/
theorem Returned.shadow {a : Byte} {carry : Byte → Byte} {written : Set Cell} {regs : Regs}
    {m' : Machine} (setting : Setting l m.bank s)
    (returned : Returned l s m a carry written regs m') {i : Nat} (low : 1 ≤ i) (high : i ≤ 3)
    (clear : (0, sbank1 - 1 + i) ∉ written) :
    m'.ram (0, sbank1 - 1 + i) = m.ram (0, sbank1 - 1 + i) := by
  have ticks : rtcTicks = 0x04 := rfl
  have set : rtcSet = 0x15 := rfl
  have shadowIs : sbank1 = 0x16 := rfl
  have after := l.afterPublic
  have lenIs : l.pcLen = l.pagemap + 36 := rfl
  refine returned.kept _ clear ?_ ?_ ?_
  · exact fun work => absurd work.2.1 (by dsimp only; omega)
  · exact fun rtc => absurd rtc.2.2 (by dsimp only; omega)
  · rintro ⟨b, bottom, below, same⟩
    refine setting.clear b bottom below ?_
    rw [← same]
    exact ⟨rfl, .inl ⟨by dsimp only; omega, by dsimp only; omega⟩⟩

/-- B_PAGE_COPY copies, or refuses to, and leaves the rest and the mapping as they were, whatever
ticks arrive. -/
theorem biosPageCopy_copies (l : Layout) (m : Machine) (s fuel : Nat)
    (setting : Setting l m.bank s)
    (shadows : ∀ i, 1 ≤ i → i ≤ 3 → (m.ram (0, sbank1 - 1 + i)).toNat = m.bank i)
    (clear : ¬Refused (m.installed l) (m.frameRegs s).src (m.frameRegs s).dst
      (m.frameRegs s).len → Clear l m.bank s (m.frameRegs s).src (m.frameRegs s).dst
        (m.frameRegs s).len)
    (enough : 129 ≤ fuel) :
    ∃ regs m', m.biosPageCopy l s fuel = some (regs, m') ∧ Done l s m regs m' ∧
      ∀ i, 1 ≤ i → i ≤ 3 → (m'.ram (0, sbank1 - 1 + i)).toNat = m'.bank i := by
  have temp := tempBank_values s
  obtain ⟨regs, m', run, refused, copied⟩ := biosPageCopy_done setting
    (shadows (Machine.tempBank s) (by omega) (by omega)) clear enough
  refine ⟨regs, m', run, ⟨refused, copied⟩, fun i low high => ?_⟩
  by_cases refuses : Refused (m.installed l) (m.frameRegs s).src (m.frameRegs s).dst
      (m.frameRegs s).len
  · rw [(refused refuses).shadow setting low high fun inside => inside, (refused refuses).bank,
      shadows i low high]
  · have returned := (copied refuses).1
    rw [returned.shadow setting low high, returned.bank, shadows i low high]
    rintro ⟨j, inside, same⟩
    have ticks : rtcTicks = 0x04 := rfl
    have shadowIs : sbank1 = 0x16 := rfl
    refine (clear refuses).dstVars j inside ?_
    rw [← same]
    exact ⟨rfl, .inl ⟨by dsimp only; omega, by dsimp only; omega⟩⟩

/-- The variables as close to the public ones as they can be. -/
def lowLayout : Layout := ⟨0x40, by decide, by decide⟩

/-- A caller with page `i` in bank `i` and eight pages installed that copies `len` bytes. -/
def callAt (s : Nat) (src dst : Cell) (len : Byte) (ticks : List (List Frame)) : Machine where
  ram c :=
    if c = (0, lowLayout.npages + 1) then 8
    else if c.1 = 0 ∧ sbank1 ≤ c.2 ∧ c.2 < sbank1 + 3 then BitVec.ofNat 8 (c.2 - sbank1 + 1)
    else if c = cellOf id (s + 2) then BitVec.ofNat 8 src.1
    else if c = cellOf id (s + 3) then BitVec.ofNat 8 dst.1
    else if c = cellOf id (s + 6) then hiByte (BitVec.ofNat 16 src.2)
    else if c = cellOf id (s + 7) then loByte (BitVec.ofNat 16 src.2)
    else if c = cellOf id (s + 8) then hiByte (BitVec.ofNat 16 dst.2)
    else if c = cellOf id (s + 9) then loByte (BitVec.ofNat 16 dst.2)
    else if c = cellOf id (s + 11) then len
    else if c.1 = 4 then 0x5A
    else 0
  bank := id
  ticks := ticks

theorem biosPageCopy_copies_ticks :
    ∃ regs m', (callAt 0xE000 (4, 0) (5, 0) 200 (.replicate 5000 [fun _ => 0xFF])).biosPageCopy
        lowLayout 0xE000 129 = some (regs, m') ∧ regs.a = errOk ∧ m'.ram (5, 199) = 0x5A := by
  generalize (List.replicate 5000 [fun _ => 0xFF] : List (List Frame)) = ticks
  have setting : Setting lowLayout id 0xE000 := by
    refine ⟨rfl, by decide, by decide, fun a low high cell => ?_, fun a low high window => ?_⟩
    · have page : a / 0x4000 = 0 := cell.1
      omega
    · change a / 0x4000 = 1 at window
      omega
  have frame : (callAt 0xE000 (4, 0) (5, 0) 200 ticks).frameRegs 0xE000 =
      (callAt 0xE000 (4, 0) (5, 0) 200 []).frameRegs 0xE000 := rfl
  have src : ((callAt 0xE000 (4, 0) (5, 0) 200 []).frameRegs 0xE000).src = (4, 0) := rfl
  have dst : ((callAt 0xE000 (4, 0) (5, 0) 200 []).frameRegs 0xE000).dst = (5, 0) := rfl
  have len : ((callAt 0xE000 (4, 0) (5, 0) 200 []).frameRegs 0xE000).len = 200 := rfl
  have installed : (callAt 0xE000 (4, 0) (5, 0) 200 ticks).installed lowLayout =
      (callAt 0xE000 (4, 0) (5, 0) 200 []).installed lowLayout := rfl
  have eight : (callAt 0xE000 (4, 0) (5, 0) 200 []).installed lowLayout = 8 := rfl
  have stack {page o : Nat} (other : page ≠ 3) {first last : Nat} (low : 0xD000 ≤ first)
      (high : last ≤ 0xF000) : (page, o) ∉ cellsOf id first last := by
    rintro ⟨a, after, before, same⟩
    have at3 : page = a / 0x4000 := congrArg Prod.fst same
    omega
  have var {page o : Nat} (other : page ≠ 0) : (page, o) ∉ lowLayout.cells :=
    fun inside => other inside.1
  have shadows : ∀ i, 1 ≤ i → i ≤ 3 →
      ((callAt 0xE000 (4, 0) (5, 0) 200 ticks).ram (0, sbank1 - 1 + i)).toNat = i := by
    intro i low high
    obtain rfl | rfl | rfl : i = 1 ∨ i = 2 ∨ i = 3 := by omega
    · rfl
    · rfl
    · rfl
  have clear : Clear lowLayout id 0xE000 (4, 0) (5, 0) 200 :=
    ⟨fun _ _ => var (by decide), fun _ _ => stack (by decide) (by decide) (by decide),
      fun _ _ => var (by decide), fun _ _ => stack (by decide) (by decide) (by decide)⟩
  obtain ⟨regs, m', run, ⟨-, copied⟩, -⟩ := biosPageCopy_copies lowLayout
    (callAt 0xE000 (4, 0) (5, 0) 200 ticks) 0xE000 129 setting shadows
    (fun _ => by rw [frame, src, dst, len]; exact clear) (by decide)
  rw [frame, src, dst, len, installed, eight] at copied
  obtain ⟨returned, same⟩ := copied (by decide)
  refine ⟨regs, m', run, ?_, (same 199 (by decide)).trans rfl⟩
  rw [returned.regs]

/-- PC_SPAGE is written; what is copied to PC_BOUNCE or to just below the stack pointer need not
stay; and with the stack at the bottom of bank 2 the page in bank 1 for the copy is written. -/
theorem biosPageCopy_touches_more :
    ((callAt 0xE000 (4, 0) (5, 0) 1 []).ram (0, lowLayout.pcSpage) = 0 ∧
      ((callAt 0xE000 (4, 0) (5, 0) 1 []).biosPageCopy lowLayout 0xE000 129).map
        (fun r => (r.1.a, r.2.ram (0, lowLayout.pcSpage))) = some (errOk, 4)) ∧
    ((callAt 0xE000 (3, 0x2002) (0, lowLayout.pcBounce + 1) 2 []).ram (3, 0x2003) = 0 ∧
      ((callAt 0xE000 (3, 0x2002) (0, lowLayout.pcBounce + 1) 2 []).biosPageCopy
        lowLayout 0xE000 129).map
        (fun r => (r.1.a, r.2.ram (0, lowLayout.pcBounce + 2))) = some (errOk, 3)) ∧
    ((callAt 0xE000 (4, 0) (3, 0x1FFF) 1 (.replicate 44 [] ++ [[fun _ => 0xFF]])).ram (4, 0) =
        0x5A ∧
      ((callAt 0xE000 (4, 0) (3, 0x1FFF) 1 (.replicate 44 [] ++ [[fun _ => 0xFF]])).biosPageCopy
        lowLayout 0xE000 129).map
        (fun r => (r.1.a, r.2.ram (3, 0x1FFF))) = some (errOk, 0xFF)) ∧
    (callAt 0x8000 (4, 0) (5, 0) 1 []).ram (4, 0x3FFE) = 0x5A ∧
      ((callAt 0x8000 (4, 0) (5, 0) 1 []).biosPageCopy lowLayout 0x8000 129).map
        (fun r => (r.1.a, r.2.ram (4, 0x3FFE))) = some (errOk, 0x40) := by
  decide +kernel

end Pugputer.Banks

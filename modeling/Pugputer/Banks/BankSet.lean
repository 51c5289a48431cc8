import Pugputer.Banks.Copied

namespace Pugputer.Banks

/-! B_BANK_SET, and the mapping that is put back after a crash. -/

namespace Machine

/-- The checks of B_BANK_SET: the bank and the page that it will map, if it does. -/
def bankSetArgs (m : Machine) (l : Layout) (s : Nat) : Option (Byte × Byte) × Machine :=
  let (b, m) := m.ldb s (s + 2)
  if b = 0 then (none, m)
  else if 3 < b.toNat then (none, m)
  else
    let (b, m) := m.ldb s (s + 2)
    if s / bankSize = b.toNat then (none, m)
    else
      let (e, m) := m.ldb s (s + 3)
      let (npages, m) := m.ldd s l.npages
      if npages.toNat ≤ e.toNat then (none, m)
      else
        let (a, m) := m.ldb s (s + 3)
        let (b, m) := m.ldb s (s + 2)
        (some (b, a), m)

def biosBankSet (m : Machine) (l : Layout) (s : Nat) : Regs × Machine :=
  match m.bankSetArgs l s with
  | (none, m) => m.bbBad s
  | (some (b, a), m) =>
      let m := m.stb s (sbank1 - 1 + b.toNat) a
      let m := m.stb s (bankBase + b.toNat) a
      m.bcOk s

/-- Called by a crash, with S at the return address. -/
def banksIdentity (m : Machine) (s : Nat) : Machine :=
  let m := m.stb s sbank1 1
  let m := m.stb s (bankBase + 1) 1
  let m := m.stb s (sbank1 + 1) 2
  let m := m.stb s (bankBase + 2) 2
  let m := m.stb s (sbank1 + 2) 3
  let m := m.stb s (bankBase + 3) 3
  (m.ldd s s).2

/-- B_BANK_SET succeeds, for bank `b` and page `e`. -/
def Accepts (m : Machine) (l : Layout) (s : Nat) (b e : Byte) : Prop :=
  (m.bankSetArgs l s).1 = some (b, e)

/-- The registers that RTI would take off the stack. -/
def frameAt (ram : Ram) (bank : Nat → Nat) (s : Nat) : Regs :=
  frameRegs { ram, bank, ticks := [] } s

end Machine

/-- A caller's stack, in RAM and clear of the BIOS's variables. -/
structure Stack (l : Layout) (bank : Nat → Nat) (s : Nat) : Prop where
  low : 16 ≤ s
  high : s + 14 ≤ ramTop
  clear : ∀ a, s - 16 ≤ a → a < s + 14 → cellOf bank a ∉ l.cells

/-- The readable copies are right, and bank 0 shows page 0. -/
structure Mapped (m : Machine) : Prop where
  bank0 : m.bank 0 = 0
  shadows : ∀ i, 1 ≤ i → i ≤ 3 → (m.ram (0, sbank1 - 1 + i)).toNat = m.bank i

/-- Every byte of the frame is where SWI2 pushed it. -/
def FrameStays (m m' : Machine) (s : Nat) : Prop :=
  ∀ i < 14, cellOf m'.bank (s + i) = cellOf m.bank (s + i)

/-- The bank has no byte of the frame, or shows the page already. -/
def Spares (m : Machine) (s : Nat) (b e : Byte) : Prop :=
  ∀ i < 14, (s + i) / bankSize = b.toNat → e.toNat = m.bank b.toNat

variable {N : Set Cell} {ram : Ram} {bank : Nat → Nat} {m : Machine} {l : Layout} {s : Nat}

/-- An address is mapped as before unless its bank shows another page. -/
theorem cellOf_update (bank : Nat → Nat) (b page a : Nat) :
    cellOf (Function.update bank b page) a = cellOf bank a ↔ (a / bankSize = b → page = bank b) := by
  rw [cellOf, cellOf, Prod.mk.injEq, and_iff_left rfl]
  by_cases here : a / bankSize = b
  · rw [here, Function.update_self]
    exact (imp_iff_right rfl).symm
  · rw [Function.update_of_ne here]
    exact iff_of_true rfl fun same => absurd same here

theorem Spares.stays {b e : Byte} (spares : Spares m s b e) {i : Nat} (inside : i < 14) :
    cellOf (Function.update m.bank b.toNat e.toNat) (s + i) = cellOf m.bank (s + i) :=
  (cellOf_update _ _ _ _).mpr (spares i inside)

/-! A call that returns through its frame. -/

/-- The end of a call with the carry: CC of the frame is changed, and RTI. -/
def Machine.leave (m : Machine) (s : Nat) (carry : Byte → Byte) : Regs × Machine :=
  let (cc, m) := m.ldb s s
  (m.store s (carry cc)).rti s

theorem near_ne {a b : Nat} (less : a < b) (near : b < a + bankSize) :
    cellOf bank a ≠ cellOf bank b := fun same => by
  have equal := near_inj (by omega) near same
  omega

/-- The frame's bytes are certain. -/
theorem Seen.leaves (seen : Seen N ram bank m) (room : Room N bank s) (high : s + 14 ≤ ramTop)
    (certain : ∀ i < 14, cellOf bank (s + i) ∉ N) (carry : Byte → Byte) :
    (m.leave s carry).1 = { Machine.frameAt ram bank s with
      cc := carry (Machine.frameAt ram bank s).cc } ∧
    (m.leave s carry).2.bank = bank ∧
    ∀ c, c ∉ N → c ∉ cellsOf bank s (s + 14) → (m.leave s carry).2.ram c = ram c := by
  have size : bankSize = 0x4000 := rfl
  obtain ⟨cc, s1⟩ := seen.ldb room (a := s) (certain 0 (by omega))
  have s2 := s1.store (a := s) (by omega) (carry (ram (cellOf bank s)))
  have s3 := s2.tick room
  have result : m.leave s carry =
      ((((m.ldb s s).2.store s (carry (ram (cellOf bank s)))).tick s).frameRegs s,
        ((m.ldb s s).2.store s (carry (ram (cellOf bank s)))).tick s) := by
    rw [Machine.leave]
    dsimp only
    rw [cc]
    rfl
  rw [result]
  generalize ((m.ldb s s).2.store s (carry (ram (cellOf bank s)))).tick s = m₃ at s3 ⊢
  dsimp only
  have later {i : Nat} (positive : 1 ≤ i) (inside : i < 14) :
      m₃.load (s + i) = ram (cellOf bank (s + i)) := by
    rw [s3.load (certain i inside), Function.update_of_ne (near_ne (by omega) (by omega)).symm]
  refine ⟨?_, s3.bank, fun c sure notFrame => ?_⟩
  · refine Machine.frameRegs_changed ?_ (later (Nat.le_refl 1) (by omega)) fun i inside more =>
      later (by omega) inside
    rw [s3.load (a := s) (certain 0 (by omega)), Function.update_self]
    rfl
  · rw [s3.ram c sure, Function.update_of_ne]
    rintro rfl
    exact notFrame ⟨s, by omega, by omega, rfl⟩

theorem frameAt_update_a (ram : Ram) (bank : Nat → Nat) (s : Nat) (a : Byte) :
    Machine.frameAt (Function.update ram (cellOf bank (s + 1)) a) bank s =
      { Machine.frameAt ram bank s with a := a } := by
  have size : bankSize = 0x4000 := rfl
  refine Machine.frameRegs_changed ?_ (Function.update_self _ _ _) fun i inside later => ?_
  · exact Function.update_of_ne (near_ne (by omega) (by omega)) _ _
  · exact Function.update_of_ne (near_ne (by omega) (by omega)).symm _ _

/-- As it ends with a code in A. -/
theorem Seen.returns (seen : Seen N ram bank m) (room : Room N bank s) (high : s + 14 ≤ ramTop)
    (certain : ∀ i < 14, cellOf bank (s + i) ∉ N) (a : Byte) (carry : Byte → Byte) :
    (m.epilogue s a carry).1 = { Machine.frameAt ram bank s with
      a := a, cc := carry (Machine.frameAt ram bank s).cc } ∧
    (m.epilogue s a carry).2.bank = bank ∧
    ∀ c, c ∉ N → c ∉ cellsOf bank s (s + 14) → (m.epilogue s a carry).2.ram c = ram c := by
  obtain ⟨regs, banks, kept⟩ :=
    (seen.stb room (a := s + 1) (by omega) a).leaves room high certain carry
  refine ⟨?_, banks, fun c sure notFrame => (kept c sure notFrame).trans ?_⟩
  · rw [frameAt_update_a] at regs
    exact regs
  · refine Function.update_of_ne ?_ _ _
    rintro rfl
    exact notFrame ⟨s + 1, by omega, by omega, rfl⟩

theorem Seen.epilogue_bank (seen : Seen N ram bank m) (room : Room N bank s)
    (high : s + 14 ≤ ramTop) (a : Byte) (carry : Byte → Byte) :
    (m.epilogue s a carry).2.bank = bank := by
  have s1 := seen.stb room (a := s + 1) (by omega) a
  have s2 := s1.tick room
  have s3 := s2.store (a := s) (by omega) (carry (((m.stb s (s + 1) a).tick s).load s))
  exact (s3.tick room).bank

/-! What is pushed below the frame, before and after a bank is changed. -/

/-- The bytes that ticks' frames land on, by two mappings, and V_NMI's variables. -/
def noises (bank bank' : Nat → Nat) (s : Nat) : Set Cell := fun c =>
  c ∈ cellsOf bank (s - 14) s ∨ c ∈ cellsOf bank' (s - 14) s ∨ c ∈ rtcCells

section Noises

variable {bank' : Nat → Nat} (stack : Stack l bank s)

include stack

theorem Stack.room : Room (noises bank bank' s) bank s := by
  have low := stack.low
  have high := stack.high
  exact ⟨by omega, fun c inside => .inr (.inr inside),
    fun a after before => ⟨by omega, .inl ⟨a, after, before, rfl⟩⟩⟩

theorem Stack.room' : Room (noises bank bank' s) bank' s := by
  have low := stack.low
  have high := stack.high
  exact ⟨by omega, fun c inside => .inr (.inr inside),
    fun a after before => ⟨by omega, .inr (.inl ⟨a, after, before, rfl⟩)⟩⟩

/-- The frame is certain by the mapping it was pushed by. -/
theorem Stack.frame_certain {i : Nat} (inside : i < 14) :
    cellOf bank (s + i) ∉ noises bank bank' s := by
  have low := stack.low
  have offsets {a : Nat} (after : s - 14 ≤ a) (before : a < s)
      (same : (s + i) % 0x4000 = a % 0x4000) : False := by omega
  rintro (⟨a, after, before, same⟩ | ⟨a, after, before, same⟩ | rtc)
  · exact offsets after before (congrArg Prod.snd same)
  · exact offsets after before (congrArg Prod.snd same)
  · obtain ⟨page, first, last⟩ := rtc
    have set : rtcSet = 0x15 := rfl
    have shadow : sbank1 = 0x16 := rfl
    exact stack.clear (s + i) (by omega) (by omega) ⟨page, .inl ⟨first, by omega⟩⟩

theorem Stack.shadow_apart {k i : Nat} (inside : k < 14) (low : 1 ≤ i) (high : i ≤ 3) :
    cellOf bank (s + k) ≠ (0, sbank1 - 1 + i) := by
  have ticks : rtcTicks = 0x04 := rfl
  have shadow : sbank1 = 0x16 := rfl
  intro same
  refine stack.clear (s + k) (by omega) (by omega) (same ▸ ⟨rfl, .inl ⟨?_, ?_⟩⟩)
  · dsimp only
    omega
  · dsimp only
    omega

/-- The shadows are certain, if the new mapping is of a bank that the stack pointer is not in. -/
theorem Stack.shadow_certain {b page i : Nat} (other : s / bankSize ≠ b) (low : 1 ≤ i)
    (high : i ≤ 3) : (0, sbank1 - 1 + i) ∉ noises bank (Function.update bank b page) s := by
  have bottom := stack.low
  have ticks : rtcTicks = 0x04 := rfl
  have set : rtcSet = 0x15 := rfl
  have shadow : sbank1 = 0x16 := rfl
  have size : bankSize = 0x4000 := rfl
  have var : (0, sbank1 - 1 + i) ∈ l.cells :=
    ⟨rfl, .inl ⟨by dsimp only; omega, by dsimp only; omega⟩⟩
  rintro (⟨a, after, before, same⟩ | ⟨a, after, before, same⟩ | rtc)
  · exact stack.clear a (by omega) (by omega) (same ▸ var)
  · by_cases here : a / bankSize = b
    · have offset : sbank1 - 1 + i = a % 0x4000 := congrArg Prod.snd same
      change a / 0x4000 = b at here
      change s / 0x4000 ≠ b at other
      omega
    · have there : cellOf (Function.update bank b page) a = cellOf bank a := by
        rw [cellOf, Function.update_of_ne here, cellOf]
      exact stack.clear a (by omega) (by omega) (there ▸ same ▸ var)
  · exact absurd rtc.2.2 (by dsimp only; omega)

end Noises

/-! The checks. -/

theorem bankSetArgs_seen (seen : Seen N m.ram m.bank m) (room : Room N m.bank s) :
    Seen N m.ram m.bank (m.bankSetArgs l s).2 := by
  have s1 := seen.tick room
  have s2 := s1.tick room
  have s3 := s2.tick room
  have s4 := s3.tick room
  have s5 := s4.tick room
  have s6 := s5.tick room
  rw [Machine.bankSetArgs]
  dsimp only
  split
  · exact s1
  split
  · exact s1
  split
  · exact s2
  split
  · exact s4
  · exact s6

/-- What it maps is what the frame has. -/
theorem bankSetArgs_accepts {b e : Byte} (seen : Seen N m.ram m.bank m) (room : Room N m.bank s)
    (second : m.cell (s + 2) ∉ N) (third : m.cell (s + 3) ∉ N) (accepts : m.Accepts l s b e) :
    b = m.load (s + 2) ∧ e = m.load (s + 3) ∧ 1 ≤ b.toNat ∧ b.toNat ≤ 3 ∧
      s / bankSize ≠ b.toNat := by
  have s1 := seen.tick room
  have s2 := s1.tick room
  have s3 := s2.tick room
  have s4 := s3.tick room
  have s5 := s4.tick room
  have s6 := s5.tick room
  rw [Machine.Accepts, Machine.bankSetArgs] at accepts
  dsimp only [Machine.ldb, Machine.ldd] at accepts
  rw [s1.load second, s2.load second, s5.load third, s6.load second] at accepts
  have value : m.ram (cellOf m.bank (s + 2)) = m.load (s + 2) := rfl
  rw [value] at accepts
  split at accepts
  · cases accepts
  next nonzero =>
  split at accepts
  · cases accepts
  next bank =>
  split at accepts
  · cases accepts
  next other =>
  split at accepts
  · cases accepts
  have same := Option.some.inj accepts
  obtain rfl : m.load (s + 2) = b := congrArg Prod.fst same
  have page : m.load (s + 3) = e := congrArg Prod.snd same
  have positive : (m.load (s + 2)).toNat ≠ 0 := fun zero => nonzero (BitVec.eq_of_toNat_eq zero)
  exact ⟨rfl, page.symm, by omega, by omega, other⟩

/-! The whole call. -/

/-- What a call leaves that succeeds. -/
structure BankMapped (m : Machine) (s : Nat) (b e : Byte) (regs : Regs) (m' : Machine) : Prop where
  bank : m'.bank = Function.update m.bank b.toNat e.toNat
  mapped : Spares m s b e → Mapped m → Mapped m'
  /-- RTI restores the caller's registers but for A and the carry, if the frame is spared. -/
  regs : Spares m s b e →
    regs = { m.frameRegs s with a := errOk, cc := (m.frameRegs s).cc &&& 0xFE }

theorem biosBankSet_maps {b e : Byte} (stack : Stack l m.bank s) (bank0 : m.bank 0 = 0)
    (accepts : m.Accepts l s b e) :
    BankMapped m s b e (m.biosBankSet l s).1 (m.biosBankSet l s).2 := by
  have low := stack.low
  have high := stack.high
  have shadow : sbank1 = 0x16 := rfl
  have begun : Seen (noises m.bank (Function.update m.bank b.toNat e.toNat) s) m.ram m.bank m :=
    ⟨rfl, fun _ _ => rfl⟩
  obtain ⟨bIs, eIs, one, three, other⟩ := bankSetArgs_accepts begun stack.room
    (stack.frame_certain (i := 2) (by omega)) (stack.frame_certain (i := 3) (by omega)) accepts
  have checked := bankSetArgs_seen (l := l) begun stack.room
  have shadowAt : cellOf m.bank (sbank1 - 1 + b.toNat) = (0, sbank1 - 1 + b.toNat) := by
    have inBank0 : (sbank1 - 1 + b.toNat) / 0x4000 = 0 := by omega
    refine Prod.ext ?_ ?_
    · change m.bank ((sbank1 - 1 + b.toNat) / 0x4000) = 0
      rw [inBank0, bank0]
    · change (sbank1 - 1 + b.toNat) % 0x4000 = sbank1 - 1 + b.toNat
      omega
  have stored := checked.stb stack.room (a := sbank1 - 1 + b.toNat)
    (by rw [ramTop]; omega) e
  rw [shadowAt] at stored
  have mapped := stored.stb_bank stack.room (i := b.toNat) (by omega) e
  have called : m.biosBankSet l s = (((m.bankSetArgs l s).2.stb s (sbank1 - 1 + b.toNat) e).stb s
      (bankBase + b.toNat) e).bcOk s := by
    have split : m.bankSetArgs l s = (some (b, e), (m.bankSetArgs l s).2) := Prod.ext accepts rfl
    rw [Machine.biosBankSet, split]
  rw [called]
  have certain (spares : Spares m s b e) (i : Nat) (inside : i < 14) :
      cellOf (Function.update m.bank b.toNat e.toNat) (s + i) ∉
        noises m.bank (Function.update m.bank b.toNat e.toNat) s := by
    rw [spares.stays inside]
    exact stack.frame_certain inside
  refine ⟨mapped.epilogue_bank stack.room' high errOk _, fun spares before => ?_, fun spares => ?_⟩
  · obtain ⟨-, bank, kept⟩ := mapped.returns stack.room' high (certain spares) errOk (· &&& 0xFE)
    refine ⟨?_, fun i least most => ?_⟩
    · rw [Machine.bcOk, bank, Function.update_of_ne (by omega), bank0]
    · rw [Machine.bcOk, bank, kept _ (stack.shadow_certain other least most)]
      · by_cases here : i = b.toNat
        · rw [here, Function.update_self, Function.update_self]
        · rw [Function.update_of_ne here, Function.update_of_ne, before.shadows i least most]
          intro same
          have offset : sbank1 - 1 + i = sbank1 - 1 + b.toNat := congrArg Prod.snd same
          omega
      · rintro ⟨a, after, before, same⟩
        obtain ⟨k, rfl⟩ := Nat.exists_eq_add_of_le after
        rw [spares.stays (by omega)] at same
        exact stack.shadow_apart (by omega) least most same.symm
  · obtain ⟨regs, -⟩ := mapped.returns stack.room' high (certain spares) errOk (· &&& 0xFE)
    have frame : Machine.frameAt (Function.update m.ram (0, sbank1 - 1 + b.toNat) e)
        (Function.update m.bank b.toNat e.toNat) s = m.frameRegs s := by
      have each (i : Nat) (inside : i < 14) : Machine.load ⟨Function.update m.ram
          (0, sbank1 - 1 + b.toNat) e, Function.update m.bank b.toNat e.toNat, []⟩ (s + i) =
            m.load (s + i) := by
        change Function.update m.ram _ e (cellOf _ (s + i)) = m.ram (cellOf m.bank (s + i))
        rw [spares.stays inside, Function.update_of_ne (stack.shadow_apart inside one three)]
      exact Machine.frameRegs_changed (each 0 (by omega)) (each 1 (by omega)) fun i inside _ =>
        each i inside
    rw [Machine.bcOk, regs, frame]

theorem biosBankSet_refuses (stack : Stack l m.bank s) (refused : (m.bankSetArgs l s).1 = none)
    (mapped : Mapped m) : Mapped (m.biosBankSet l s).2 := by
  have begun : Seen (noises m.bank (Function.update m.bank 4 0) s) m.ram m.bank m :=
    ⟨rfl, fun _ _ => rfl⟩
  have other : s / bankSize ≠ 4 := by
    have high := stack.high
    have top : ramTop = 0xF000 := rfl
    change s / 0x4000 ≠ 4
    omega
  have checked := bankSetArgs_seen (l := l) begun stack.room
  have called : m.biosBankSet l s = (m.bankSetArgs l s).2.bbBad s := by
    have split : m.bankSetArgs l s = (none, (m.bankSetArgs l s).2) := Prod.ext refused rfl
    rw [Machine.biosBankSet, split]
  obtain ⟨-, bank, kept⟩ := checked.returns stack.room stack.high
    (fun i inside => stack.frame_certain inside) errBadparam (· ||| 0x01)
  rw [called, Machine.bbBad, Machine.bcErr]
  refine ⟨bank ▸ mapped.bank0, fun i least most => ?_⟩
  rw [bank, kept _ (stack.shadow_certain other least most), mapped.shadows i least most]
  rintro ⟨a, after, before, same⟩
  obtain ⟨k, rfl⟩ := Nat.exists_eq_add_of_le after
  exact stack.shadow_apart (by omega) least most same.symm

/-- The frame stays just where the bank has none of it, or shows the page already. -/
theorem frameStays_iff {b e : Byte} (stack : Stack l m.bank s) (bank0 : m.bank 0 = 0)
    (accepts : m.Accepts l s b e) :
    FrameStays m (m.biosBankSet l s).2 s ↔ Spares m s b e := by
  rw [FrameStays, (biosBankSet_maps stack bank0 accepts).bank]
  exact forall_congr' fun i => imp_congr_right fun _ => cellOf_update _ _ _ _

/-! After a crash. -/

/-- S at the return address, in the system's stack. -/
structure SystemStack (l : Layout) (s : Nat) : Prop where
  low : 14 ≤ s
  high : s ≤ bankSize
  clear : ∀ a, s - 14 ≤ a → a < s → (0, a) ∉ l.cells

/-- Frames pushed in bank 0, and V_NMI's variables. -/
def systemNoise (s : Nat) : Set Cell := fun c =>
  c.1 = 0 ∧ s - 14 ≤ c.2 ∧ c.2 < s ∨ c ∈ rtcCells

theorem cellOf_bank0 (bank0 : bank 0 = 0) {a : Nat} (low : a < bankSize) :
    cellOf bank a = (0, a) := by
  rw [cellOf, Nat.div_eq_of_lt low, bank0, Nat.mod_eq_of_lt low]

theorem SystemStack.room (stack : SystemStack l s) (bank0 : bank 0 = 0) :
    Room (systemNoise s) bank s := by
  have high := stack.high
  have size : bankSize = 0x4000 := rfl
  have top : ramTop = 0xF000 := rfl
  refine ⟨stack.low, fun c inside => .inr inside, fun a after before => ⟨by omega, ?_⟩⟩
  rw [cellOf_bank0 bank0 (by omega)]
  exact .inl ⟨rfl, after, before⟩

/-- A shadow and its register. -/
theorem Seen.stb_pair (seen : Seen (systemNoise s) ram bank m) (stack : SystemStack l s)
    (bank0 : bank 0 = 0) {i : Nat} (low : 1 ≤ i) (high : i ≤ 3) (v : Byte) :
    Seen (systemNoise s) (Function.update ram (0, sbank1 - 1 + i) v)
      (Function.update bank i v.toNat)
      ((m.stb s (sbank1 - 1 + i) v).stb s (bankBase + i) v) := by
  have shadow : sbank1 = 0x16 := rfl
  have size : bankSize = 0x4000 := rfl
  have top : ramTop = 0xF000 := rfl
  have stored := seen.stb (stack.room bank0) (a := sbank1 - 1 + i) (by omega) v
  rw [cellOf_bank0 bank0 (by omega)] at stored
  exact stored.stb_bank (stack.room bank0) (by omega) v

theorem update_zero {i : Nat} (page : Nat) (bank0 : bank 0 = 0) (low : 1 ≤ i) :
    Function.update bank i page 0 = 0 := by
  rw [Function.update_of_ne (by omega), bank0]

theorem banksIdentity_maps (stack : SystemStack l s) (bank0 : m.bank 0 = 0) :
    Mapped (m.banksIdentity s) := by
  have begun : Seen (systemNoise s) m.ram m.bank m := ⟨rfl, fun _ _ => rfl⟩
  have one := begun.stb_pair stack bank0 (i := 1) (by omega) (by omega) 1
  have zero1 := update_zero 1 bank0 (Nat.le_refl 1)
  have two := one.stb_pair stack zero1 (i := 2) (by omega) (by omega) 2
  have zero2 := update_zero 2 zero1 (show 1 ≤ 2 by omega)
  have three := two.stb_pair stack zero2 (i := 3) (by omega) (by omega) 3
  have zero3 := update_zero 3 zero2 (show 1 ≤ 3 by omega)
  have returned : Seen _ _ _ (m.banksIdentity s) := three.tick (stack.room zero3)
  have certain (i : Nat) (low : 1 ≤ i) (high : i ≤ 3) : (0, sbank1 - 1 + i) ∉ systemNoise s := by
    have ticks : rtcTicks = 0x04 := rfl
    have set : rtcSet = 0x15 := rfl
    have shadow : sbank1 = 0x16 := rfl
    rintro (⟨-, after, before⟩ | rtc)
    · exact stack.clear _ after before ⟨rfl, .inl ⟨by dsimp only; omega, by dsimp only; omega⟩⟩
    · exact absurd rtc.2.2 (by dsimp only; omega)
  refine ⟨returned.bank ▸ zero3, fun i low high => ?_⟩
  rw [returned.bank, returned.ram _ (certain i low high)]
  obtain rfl | rfl | rfl : i = 1 ∨ i = 2 ∨ i = 3 := by omega
  · rfl
  · rfl
  · rfl

/-! Runs. -/

/-- A copy, by a stack that interrupts can use while it lasts, to bytes that are neither the
BIOS's variables nor in use on the stack. -/
structure Copies (l : Layout) (m : Machine) (s : Nat) : Prop where
  setting : Setting l m.bank s
  clear : ¬Refused (m.installed l) (m.frameRegs s).src (m.frameRegs s).dst (m.frameRegs s).len →
    Clear l m.bank s (m.frameRegs s).src (m.frameRegs s).dst (m.frameRegs s).len

/-- The states that calls lead to, and programs that leave the bank registers and their shadows
alone; a crash may come from anywhere. -/
inductive Reached (l : Layout) : Machine → Prop
  | crash {m : Machine} {s : Nat} (bank0 : m.bank 0 = 0) (stack : SystemStack l s) :
      Reached l (m.banksIdentity s)
  | program {m m' : Machine} (before : Reached l m) (bank : m'.bank = m.bank)
      (shadows : ∀ i, 1 ≤ i → i ≤ 3 → m'.ram (0, sbank1 - 1 + i) = m.ram (0, sbank1 - 1 + i)) :
      Reached l m'
  | bankSet {m : Machine} {s : Nat} (before : Reached l m) (stack : Stack l m.bank s)
      (spares : ∀ b e, m.Accepts l s b e → Spares m s b e) : Reached l (m.biosBankSet l s).2
  | pageCopy {m m' : Machine} {s fuel : Nat} {regs : Regs} (before : Reached l m)
      (copies : Copies l m s) (enough : 129 ≤ fuel)
      (run : m.biosPageCopy l s fuel = some (regs, m')) : Reached l m'

theorem biosPageCopy_mapped {m' : Machine} {fuel : Nat} {regs : Regs} (mapped : Mapped m)
    (copies : Copies l m s) (enough : 129 ≤ fuel)
    (run : m.biosPageCopy l s fuel = some (regs, m')) : Mapped m' := by
  have temp := tempBank_values s
  obtain ⟨regs', m'', run', refused, copied⟩ := biosPageCopy_done copies.setting
    (mapped.shadows (Machine.tempBank s) (by omega) (by omega)) copies.clear enough
  obtain ⟨rfl, rfl⟩ : regs' = regs ∧ m'' = m' := by
    have same := Option.some.inj (run'.symm.trans run)
    exact ⟨congrArg Prod.fst same, congrArg Prod.snd same⟩
  have each : m''.bank = m.bank ∧ ∀ i, 1 ≤ i → i ≤ 3 →
      m''.ram (0, sbank1 - 1 + i) = m.ram (0, sbank1 - 1 + i) := by
    by_cases refuses : Refused (m.installed l) (m.frameRegs s).src (m.frameRegs s).dst
        (m.frameRegs s).len
    · exact ⟨(refused refuses).bank, fun i low high =>
        (refused refuses).shadow copies.setting low high fun inside => inside⟩
    · refine ⟨(copied refuses).1.bank, fun i low high =>
        (copied refuses).1.shadow copies.setting low high ?_⟩
      rintro ⟨j, inside, same⟩
      have ticks : rtcTicks = 0x04 := rfl
      have shadow : sbank1 = 0x16 := rfl
      refine (copies.clear refuses).dstVars j inside ?_
      rw [← same]
      exact ⟨rfl, .inl ⟨by dsimp only; omega, by dsimp only; omega⟩⟩
  refine ⟨each.1 ▸ mapped.bank0, fun i low high => ?_⟩
  rw [each.1, each.2 i low high, mapped.shadows i low high]

theorem Reached.mapped (reached : Reached l m) : Mapped m := by
  induction reached with
  | crash bank0 stack => exact banksIdentity_maps stack bank0
  | program before bank shadows ih =>
      refine ⟨bank ▸ ih.bank0, fun i low high => ?_⟩
      rw [bank, shadows i low high, ih.shadows i low high]
  | @bankSet m s before stack spares ih =>
      cases args : (m.bankSetArgs l s).1 with
      | none => exact biosBankSet_refuses stack args ih
      | some pair => exact (biosBankSet_maps stack ih.bank0 args).mapped (spares _ _ args) ih
  | pageCopy before copies enough run ih => exact biosPageCopy_mapped ih copies enough run

/-- In every state of such a run the shadows are right, and a call that succeeds returns through
the frame it was made with just where the bank spares it. -/
theorem bankSet_returns (reached : Reached l m) : Mapped m ∧
    ∀ s b e, Stack l m.bank s → m.Accepts l s b e →
      (FrameStays m (m.biosBankSet l s).2 s ↔ Spares m s b e) ∧
      (Spares m s b e → (m.biosBankSet l s).1 =
        { m.frameRegs s with a := errOk, cc := (m.frameRegs s).cc &&& 0xFE }) := by
  have mapped := reached.mapped
  refine ⟨mapped, fun s b e stack accepts => ⟨frameStays_iff stack mapped.bank0 accepts, ?_⟩⟩
  exact (biosBankSet_maps stack mapped.bank0 accepts).regs

/-- A call to map page 4 in bank 2, of eight pages, after a crash. -/
def setAt (s : Nat) : Machine := (callAt s (2, 0) (4, 0) 0 []).banksIdentity 0x200

theorem setAt_reached (s : Nat) : Reached lowLayout (setAt s) := by
  refine .crash rfl ⟨by decide, by decide, fun a low high => ?_⟩
  rintro ⟨-, ⟨-, below⟩ | ⟨-, below⟩⟩
  · change a < 0x19 at below
    omega
  · change a < 0xEC at below
    omega

theorem setAt_stack {s : Nat} (low : 0x4010 ≤ s) (high : s ≤ 0xEFF2)
    (mapped : ∀ i, 1 ≤ i → i ≤ 3 → (setAt s).bank i ≠ 0) : Stack lowLayout (setAt s).bank s := by
  refine ⟨by omega, by change s + 14 ≤ 0xF000; omega, fun a first last cell => ?_⟩
  refine mapped (a / 0x4000) ?_ ?_ cell.1
  · omega
  · omega

theorem bankSet_returns_bank3 : ((setAt 0xE000).biosBankSet lowLayout 0xE000).1 =
    { (setAt 0xE000).frameRegs 0xE000 with
      a := errOk, cc := ((setAt 0xE000).frameRegs 0xE000).cc &&& 0xFE } := by
  have stack : Stack lowLayout (setAt 0xE000).bank 0xE000 := by
    refine setAt_stack (by decide) (by decide) fun i low high => ?_
    obtain rfl | rfl | rfl : i = 1 ∨ i = 2 ∨ i = 3 := by omega
    · decide
    · decide
    · decide
  have accepts : (setAt 0xE000).Accepts lowLayout 0xE000 2 4 :=
    (by decide : ((setAt 0xE000).bankSetArgs lowLayout 0xE000).1 = some (2, 4))
  refine ((bankSet_returns (setAt_reached 0xE000)).2 0xE000 2 4 stack accepts).2 fun i inside here => ?_
  change (0xE000 + i) / 0x4000 = 2 at here
  omega

/-- A frame that begins in bank 1 goes on in bank 2, which is mapped away under it: the program
goes on elsewhere. -/
theorem bankSet_strands : ∃ m s b e, Reached lowLayout m ∧ Stack lowLayout m.bank s ∧
    m.Accepts lowLayout s b e ∧ ¬FrameStays m (m.biosBankSet lowLayout s).2 s ∧
    (m.frameRegs s).pc = 0 ∧ (m.biosBankSet lowLayout s).1.pc = 0x5A5A := by
  refine ⟨setAt 0x7FFB, 0x7FFB, 2, 4, setAt_reached _, ?_, ?_, fun stays => ?_, ?_, ?_⟩
  · refine setAt_stack (by decide) (by decide) fun i low high => ?_
    obtain rfl | rfl | rfl : i = 1 ∨ i = 2 ∨ i = 3 := by omega
    · decide
    · decide
    · decide
  · exact (by decide : ((setAt 0x7FFB).bankSetArgs lowLayout 0x7FFB).1 = some (2, 4))
  · exact absurd (stays 5 (by decide)) (by decide)
  · decide
  · decide

end Pugputer.Banks

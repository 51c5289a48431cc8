import Mathlib.Data.Finset.Card
import Mathlib.Order.Interval.Finset.Nat
import Pugputer.Banks.BankSet
import Pugputer.Banks.PageInit

namespace Pugputer.Banks

open Board

/-! B_PAGE_ALLOC, B_PAGE_FREE and B_PAGE_INFO. -/

def errNospace : Byte := 0x06#8

/-- PA_BIT: the lowest 1 bit, counted up from F. -/
def paBit : (left : Nat) → Byte → Byte → Byte
  | 0, _, f => f
  | left + 1, a, f => if a.getLsbD 0 then f else paBit left (a >>> 1) (f + 1)

namespace Machine

/-- PA_BYTE: B and A at PA_FOUND. -/
def paByte (s : Nat) : (left : Nat) → Machine → Nat → Byte → Option (Byte × Byte) × Machine
  | 0, m, _, _ => (none, m)
  | left + 1, m, x, b =>
      let (a, m) := m.ldb s x
      if a ≠ 0xFF then (some (b, a), m) else paByte s left m (x + 1) (b + 1)

/-- PG_LOC, called by an LBSR that pushes `ret`: X, A, B and the memory. -/
def pgLoc (m : Machine) (l : Layout) (s : Nat) (ret : Word) (b : Byte) :
    Nat × Byte × Byte × Machine :=
  let m := m.std s (s - 2) ret
  let m := m.stb (s - 2) (s - 3) b
  let x := l.pagemap + (b >>> 3).toNat
  let (b, m) := m.ldb (s - 3) (s - 3)
  let m := m.stb (s - 2) (s - 3) b
  let a := pglShift (b &&& 7).toNat 1
  let (b, m) := m.ldb (s - 3) (s - 3)
  (x, a, b, m)

/-- `AIM #$FE` of the frame's CC, and RTI. -/
def clearCarry (m : Machine) (s : Nat) : Regs × Machine :=
  let (cc, m) := m.ldb s s
  let m := m.store s (cc &&& 0xFE)
  m.rti s

def biosPageAlloc (m : Machine) (l : Layout) (s : Nat) (ret : Word) : Regs × Machine :=
  match m.paByte s 32 l.pagemap 0 with
  | (none, m) => m.bcErr s errNospace
  | (some (b, a), m) =>
      let f := paBit 8 (~~~a) 0
      let b := (b <<< 3) + f
      let m := m.stb s (s + 1) b
      let (x, a, _, m) := m.pgLoc l s ret b
      let (v, m) := m.ldb s x
      let m := m.stb s x (a ||| v)
      let (d, m) := m.ldd s l.nfree
      let m := m.std s l.nfree (d - 1)
      m.clearCarry s

def biosPageFree (m : Machine) (l : Layout) (s : Nat) (ret : Word) : Regs × Machine :=
  let (b, m) := m.ldb s (s + 2)
  if b.toNat < 4 then m.bbBad s
  else
    let (npages, m) := m.ldd s l.npages
    if npages.toNat ≤ b.toNat then m.bbBad s
    else
      let (x, a, _, m) := m.pgLoc l s ret b
      let (v, m) := m.ldb s x
      if a &&& v = 0 then m.bbBad s
      else
        let (v, m) := m.ldb s x
        let m := m.stb s x (~~~a &&& v)
        let (d, m) := m.ldd s l.nfree
        let m := m.std s l.nfree (d + 1)
        m.bcOk s

def biosPageInfo (m : Machine) (l : Layout) (s : Nat) : Regs × Machine :=
  let (d, m) := m.ldd s l.npages
  let m := m.std s (s + 6) d
  let (d, m) := m.ldd s l.nfree
  let m := m.std s (s + 8) d
  m.bcOk s

end Machine

/-- A caller's stack, in RAM and, with what is pushed below it, clear of the BIOS's variables. -/
structure Deep (l : Layout) (bank : Nat → Nat) (s : Nat) : Prop where
  bank0 : bank 0 = 0
  low : 17 ≤ s
  high : s + 14 ≤ ramTop
  clear : ∀ a, s - 17 ≤ a → a < s + 14 → cellOf bank a ∉ l.cells

/-- What is pushed below the frame, and V_NMI's variables. -/
def below (bank : Nat → Nat) (s : Nat) : Set Cell := fun c =>
  c ∈ cellsOf bank (s - 17) s ∨ c ∈ rtcCells

variable {ram : Ram} {bank : Nat → Nat} {m : Machine} {l : Layout} {s : Nat}

theorem rtcCells_sub {c : Cell} (inside : c ∈ rtcCells) : c ∈ l.cells := by
  obtain ⟨page, first, last⟩ := inside
  have set : rtcSet = 0x15 := rfl
  have shadow : sbank1 = 0x16 := rfl
  exact ⟨page, .inl ⟨first, by omega⟩⟩

namespace Deep

variable (stack : Deep l bank s)

include stack

theorem room (last : Nat) (bottom : s - 3 ≤ last) (top : last ≤ s) :
    Room (below bank s) bank last := by
  have low := stack.low
  have high := stack.high
  exact ⟨by omega, fun c inside => .inr inside,
    fun a after before => ⟨by omega, .inl ⟨a, by omega, by omega, rfl⟩⟩⟩

theorem frame_certain {i : Nat} (inside : i < 14) : cellOf bank (s + i) ∉ below bank s := by
  have low := stack.low
  rintro (⟨a, after, before, same⟩ | rtc)
  · have equal := near_inj (by omega) (by rw [bankSize]; omega) same.symm
    omega
  · exact stack.clear (s + i) (by omega) (by omega) (rtcCells_sub rtc)

/-- The BIOS's own variables are certain but for V_NMI's. -/
theorem var_certain {v : Nat} (low : l.pagemap ≤ v) (high : v < l.pagemap + 172) :
    (0, v) ∉ below bank s := by
  have after := l.afterPublic
  have set : rtcSet = 0x15 := rfl
  rintro (⟨a, first, last, same⟩ | rtc)
  · exact stack.clear a first (by omega) (same ▸ ⟨rfl, .inr ⟨low, high⟩⟩)
  · exact absurd rtc.2.2 (by dsimp only; omega)

theorem frame_ne_var {i v : Nat} (inside : i < 14) (low : l.pagemap ≤ v)
    (high : v < l.pagemap + 172) : cellOf bank (s + i) ≠ (0, v) := fun same =>
  stack.clear (s + i) (by omega) (by omega) (same ▸ ⟨rfl, .inr ⟨low, high⟩⟩)

theorem cellOf_var {v : Nat} (high : v < l.pagemap + 172) : cellOf bank v = (0, v) :=
  cellOf_bank0 stack.bank0 (by have inBank0 := l.inBank0; omega)

end Deep

/-! The first bit that is clear. -/

theorem paBit_first (left : Nat) (a f : Byte) (some : ∃ j < left, a.getLsbD j = true) :
    ∃ j < left, paBit left a f = f + BitVec.ofNat 8 j ∧ a.getLsbD j = true ∧
      ∀ i < j, a.getLsbD i = false := by
  induction left generalizing a f with
  | zero =>
      obtain ⟨j, less, -⟩ := some
      exact absurd less (Nat.not_lt_zero j)
  | succ left ih =>
      rw [paBit]
      split
      · next bit =>
          exact ⟨0, Nat.succ_pos left, (BitVec.add_zero f).symm, bit, fun i less =>
            absurd less (Nat.not_lt_zero i)⟩
      · next clear =>
          have shift (j : Nat) : (a >>> 1).getLsbD j = a.getLsbD (j + 1) := by
            rw [BitVec.getLsbD_ushiftRight, Nat.add_comm]
          have rest : ∃ j < left, (a >>> 1).getLsbD j = true := by
            obtain ⟨j, less, bit⟩ := some
            cases j with
            | zero => exact absurd bit clear
            | succ j => exact ⟨j, Nat.lt_of_succ_lt_succ less, (shift j).trans bit⟩
          obtain ⟨j, less, found, bit, below⟩ := ih (a >>> 1) (f + 1) rest
          refine ⟨j + 1, Nat.succ_lt_succ less, ?_, (shift j).symm.trans bit, fun i smaller => ?_⟩
          · rw [found, BitVec.ofNat_add, BitVec.add_assoc, BitVec.add_comm 1]
            rfl
          · cases i with
            | zero => exact Bool.eq_false_of_not_eq_true clear
            | succ i => exact (shift i).symm.trans (below i (Nat.lt_of_succ_lt_succ smaller))

/-- A byte that is not $FF has a bit that is clear. -/
theorem clear_bit {a : Byte} (other : a ≠ 0xFF) : ∃ j < 8, (~~~a).getLsbD j = true := by
  by_contra none
  refine other (BitVec.eq_of_getLsbD_eq fun j less => ?_)
  have bit : a.getLsbD j = true := by
    by_contra clear
    refine none ⟨j, less, ?_⟩
    rw [BitVec.getLsbD_not, decide_eq_true less, Bool.eq_false_of_not_eq_true clear]
    rfl
  have ones : (0xFF : Byte) = BitVec.allOnes 8 := rfl
  rw [bit, ones, BitVec.getLsbD_allOnes, decide_eq_true less]

/-- The scan of a map whose bytes are certain. -/
theorem paByte_first (seen : Seen N ram bank m) (room : Room N bank s)
    (map : ∀ i < 32, cellOf bank (l.pagemap + i) = (0, l.pagemap + i) ∧ (0, l.pagemap + i) ∉ N)
    (left j : Nat) (all : j + left = 32) :
    Seen N ram bank (m.paByte s left (l.pagemap + j) (BitVec.ofNat 8 j)).2 ∧
      ((m.paByte s left (l.pagemap + j) (BitVec.ofNat 8 j)).1 = none ∧
          (∀ i, j ≤ i → i < 32 → ram (0, l.pagemap + i) = 0xFF) ∨
        ∃ i, j ≤ i ∧ i < 32 ∧ (m.paByte s left (l.pagemap + j) (BitVec.ofNat 8 j)).1 =
            some (BitVec.ofNat 8 i, ram (0, l.pagemap + i)) ∧ ram (0, l.pagemap + i) ≠ 0xFF ∧
          ∀ k, j ≤ k → k < i → ram (0, l.pagemap + k) = 0xFF) := by
  induction left generalizing j m with
  | zero => exact ⟨seen, .inl ⟨rfl, fun i low high => by omega⟩⟩
  | succ left ih =>
      obtain ⟨here, sure⟩ := map j (by omega)
      obtain ⟨value, ticked⟩ := seen.ldb room (a := l.pagemap + j) (here ▸ sure)
      rw [here] at value
      rw [Machine.paByte]
      dsimp only
      rw [value]
      split
      · next found =>
          exact ⟨ticked, .inr ⟨j, Nat.le_refl j, by omega, rfl, found, fun k low less => by omega⟩⟩
      · next full =>
          have byte := Decidable.not_not.mp full
          have next : BitVec.ofNat 8 j + 1 = BitVec.ofNat 8 (j + 1) := (BitVec.ofNat_add j 1).symm
          rw [next, Nat.add_assoc]
          obtain ⟨rest, none | ⟨i, low, high, run, other, before⟩⟩ := ih ticked (j + 1) (by omega)
          · refine ⟨rest, .inl ⟨none.1, fun i low high => ?_⟩⟩
            by_cases first : i = j
            · rw [first, byte]
            · exact none.2 i (by omega) high
          · refine ⟨rest, .inr ⟨i, by omega, high, run, other, fun k low less => ?_⟩⟩
            by_cases first : k = j
            · rw [first, byte]
            · exact before k (by omega) less

/-! PG_LOC. -/

/-- B is pushed by PG_LOC and comes back, whatever ticks arrive. -/
theorem Deep.kept (stack : Deep l bank s) (seen : Seen (below bank s) ram bank m) (b : Byte) :
    ((m.stb (s - 2) (s - 3) b).ldb (s - 3) (s - 3)).1 = b ∧
      Seen (below bank s) ram bank ((m.stb (s - 2) (s - 3) b).ldb (s - 3) (s - 3)).2 := by
  have low := stack.low
  have high := stack.high
  have noise : cellOf bank (s - 3) ∈ below bank s := .inl ⟨s - 3, by omega, by omega, rfl⟩
  have pushed := (seen.tick (stack.room (s - 2) (by omega) (by omega))).store_known
    (a := s - 3) (by omega) b
  have room : Room (fun c => c ∈ below bank s ∧ c ≠ cellOf bank (s - 3)) bank (s - 3) := by
    have whole := stack.room (s - 3) (Nat.le_refl _) (by omega)
    refine ⟨by omega, fun c inside => ⟨.inr inside, ?_⟩, fun a after before =>
      ⟨by omega, (whole.frame a after before).2, fun same => ?_⟩⟩
    · rintro rfl
      exact stack.clear (s - 3) (by omega) (by omega) (rtcCells_sub inside)
    · have equal := near_inj (by omega) (by rw [bankSize]; omega) same
      omega
  obtain ⟨value, pulled⟩ := pushed.ldb room (a := s - 3) fun inside => inside.2 rfl
  refine ⟨value.trans (Function.update_self _ _ _), ?_⟩
  refine (pulled.weaken fun c inside => inside.1).congr fun c outside => ?_
  refine Function.update_of_ne ?_ _ _
  rintro rfl
  exact outside noise

theorem Deep.pgLoc (stack : Deep l bank s) (seen : Seen (below bank s) ram bank m) (ret : Word)
    {page : Nat} (small : page < 256) :
    ∃ m', m.pgLoc l s ret (tag page) =
        (l.pagemap + page / 8, 1#8 <<< (page % 8), tag page, m') ∧
      Seen (below bank s) ram bank m' := by
  have low := stack.low
  have high := stack.high
  have noise {a : Nat} (after : s - 17 ≤ a) (before : a < s) : cellOf bank a ∈ below bank s :=
    .inl ⟨a, after, before, rfl⟩
  have ticked := seen.tick (stack.room s (by omega) (Nat.le_refl _))
  have called : Seen (below bank s) ram bank (m.std s (s - 2) ret) := (ticked.store_noise
    (a := s - 2) (by omega) (noise (by omega) (by omega)) (hiByte ret)).store_noise
    (a := s - 2 + 1) (by omega) (noise (by omega) (by omega)) (loByte ret)
  obtain ⟨first, once⟩ := stack.kept called (tag page)
  obtain ⟨second, twice⟩ := stack.kept once (tag page)
  refine ⟨_, ?_, twice⟩
  rw [Machine.pgLoc]
  dsimp only
  rw [first, second, pglShift_eq, tag_row small, tag_column small]
  rfl

/-! How a call ends. -/

/-- The allocator's variables. -/
def Layout.map (l : Layout) : Set Cell := fun c => c.1 = 0 ∧ l.pagemap ≤ c.2 ∧ c.2 < l.pagemap + 36

/-- A call has returned with these registers: nothing has changed but the frame and what is
below it, and `M`. -/
structure Ended (m : Machine) (s : Nat) (M : Set Cell) (regs : Regs)
    (call : Regs × Machine) : Prop where
  regs : call.1 = regs
  bank : call.2.bank = m.bank
  kept : ∀ c, c ∉ below m.bank s → c ∉ cellsOf m.bank s (s + 14) → c ∉ M →
    call.2.ram c = m.ram c

/-- The registers of a call that is refused. -/
def refusal (m : Machine) (s : Nat) (code : Byte) : Regs :=
  { m.frameRegs s with a := code, cc := (m.frameRegs s).cc ||| 0x01 }

/-- The call is refused, and changes nothing. -/
def Refuses (m : Machine) (s : Nat) (code : Byte) (call : Regs × Machine) : Prop :=
  Ended m s ∅ (refusal m s code) call

theorem Deep.frame_kept (stack : Deep l bank s) {ram ram' : Ram}
    (kept : ∀ c, c ∉ l.map → ram' c = ram c) :
    Machine.frameAt ram' bank s = Machine.frameAt ram bank s := by
  have each (i : Nat) (inside : i < 14) :
      Machine.load ⟨ram', bank, []⟩ (s + i) = Machine.load ⟨ram, bank, []⟩ (s + i) :=
    kept _ fun cell => stack.clear (s + i) (by omega) (by omega)
      ⟨cell.1, .inr ⟨cell.2.1, Nat.lt_of_lt_of_le cell.2.2 (Nat.add_le_add_left (by decide) _)⟩⟩
  exact Machine.frameRegs_changed (each 0 (by omega)) (each 1 (by omega)) fun i inside _ =>
    each i inside

theorem Deep.refuses {m₁ : Machine} (stack : Deep l m.bank s)
    (seen : Seen (below m.bank s) m.ram m.bank m₁) (code : Byte) :
    Refuses m s code (m₁.bcErr s code) := by
  obtain ⟨regs, bank, kept⟩ := seen.returns (stack.room s (by omega) (Nat.le_refl s)) stack.high
    (fun i inside => stack.frame_certain inside) code (· ||| 0x01)
  exact ⟨regs, bank, fun c sure notFrame _ => kept c sure notFrame⟩

theorem Deep.accepts {m₁ : Machine} (stack : Deep l m.bank s)
    (seen : Seen (below m.bank s) ram m.bank m₁) (kept : ∀ c, c ∉ l.map → ram c = m.ram c) :
    Ended m s l.map
      { m.frameRegs s with a := errOk, cc := (m.frameRegs s).cc &&& 0xFE } (m₁.bcOk s) ∧
      ∀ c, c ∉ below m.bank s → c ∉ cellsOf m.bank s (s + 14) → (m₁.bcOk s).2.ram c = ram c := by
  obtain ⟨regs, bank, same⟩ := seen.returns (stack.room s (by omega) (Nat.le_refl s)) stack.high
    (fun i inside => stack.frame_certain inside) errOk (· &&& 0xFE)
  rw [stack.frame_kept kept] at regs
  exact ⟨⟨regs, bank, fun c sure notFrame notMap => (same c sure notFrame).trans (kept c notMap)⟩,
    same⟩

/-! The map and the count. -/

/-- The words of B_PAGE_INFO. -/
def npagesOf (ram : Ram) (l : Layout) : Word := word (ram (0, l.npages)) (ram (0, l.npages + 1))
def nfreeOf (ram : Ram) (l : Layout) : Word := word (ram (0, l.nfree)) (ram (0, l.nfree + 1))

/-- Of `n` pages those in `held` have been handed out. -/
structure Pages (l : Layout) (n : Nat) (held : Finset Nat) (ram : Ram) : Prop where
  npages : (npagesOf ram l).toNat = n
  nfree : (nfreeOf ram l).toNat + held.card = n - 4
  used : ∀ p < 256, used ram l p = true ↔ p < 4 ∨ n ≤ p ∨ p ∈ held
  held : ∀ p ∈ held, 4 ≤ p ∧ p < n
  low : 4 ≤ n
  high : n ≤ 256

/-- Nothing of the map and the counts has changed. -/
theorem Pages.congr {n : Nat} {held : Finset Nat} {ram ram' : Ram} (pages : Pages l n held ram)
    (same : ∀ c ∈ l.map, ram' c = ram c) : Pages l n held ram' := by
  have npages : l.npages = l.pagemap + 32 := rfl
  have nfree : l.nfree = l.pagemap + 34 := rfl
  have var {k : Nat} (inside : k < 36) : ram' (0, l.pagemap + k) = ram (0, l.pagemap + k) :=
    same _ ⟨rfl, Nat.le_add_right _ _, Nat.add_lt_add_left inside _⟩
  refine ⟨?_, ?_, fun p less => ?_, pages.held, pages.low, pages.high⟩
  · rw [npagesOf, npages, var (by omega), Nat.add_assoc, var (by omega)]
    exact pages.npages
  · rw [nfreeOf, nfree, var (by omega), Nat.add_assoc, var (by omega)]
    exact pages.nfree
  · rw [Board.used, var (by omega)]
    exact pages.used p less

/-- The pages whose bits are clear. -/
def freePages (ram : Ram) (l : Layout) : Finset Nat :=
  (Finset.range 256).filter fun p => used ram l p = false

theorem Pages.freePages_eq {n : Nat} {held : Finset Nat} (pages : Pages l n held ram) :
    freePages ram l = Finset.Ico 4 n \ held := by
  have high := pages.high
  ext p
  rw [freePages, Finset.mem_filter, Finset.mem_range, Finset.mem_sdiff, Finset.mem_Ico,
    ← Bool.not_eq_true]
  constructor
  · rintro ⟨less, clear⟩
    rw [pages.used p less, not_or, not_or] at clear
    exact ⟨by omega, clear.2.2⟩
  · rintro ⟨inside, notHeld⟩
    refine ⟨by omega, ?_⟩
    rw [pages.used p (by omega), not_or, not_or]
    exact ⟨by omega, by omega, notHeld⟩

theorem Pages.count {n : Nat} {held : Finset Nat} (pages : Pages l n held ram) :
    (nfreeOf ram l).toNat = (freePages ram l).card := by
  have inside : held ⊆ Finset.Ico 4 n := fun p member => Finset.mem_Ico.mpr (pages.held p member)
  have total := pages.nfree
  rw [pages.freePages_eq, Finset.card_sdiff_of_subset inside, Nat.card_Ico]
  omega

/-- A byte of the map stored, and the count. -/
def withMap (ram : Ram) (l : Layout) (page : Nat) (v : Byte) (count : Word) : Ram :=
  setWord (Function.update ram (0, l.pagemap + page / 8) v) (0, l.nfree) (0, l.nfree + 1) count

section WithMap

variable {page : Nat} (v : Byte) (count : Word)

theorem withMap_other {c : Cell} (outside : c ∉ l.map) (small : page < 256) :
    withMap ram l page v count c = ram c := by
  have nfree : l.nfree = l.pagemap + 34 := rfl
  rw [withMap, setWord_other, Function.update_of_ne]
  · rintro rfl
    exact outside ⟨rfl, Nat.le_add_right _ _, by dsimp only; omega⟩
  · intro page0
    by_contra inside
    exact outside ⟨page0, by omega, by omega⟩

theorem withMap_npages (small : page < 256) :
    npagesOf (withMap ram l page v count) l = npagesOf ram l := by
  have npages : l.npages = l.pagemap + 32 := rfl
  have nfree : l.nfree = l.pagemap + 34 := rfl
  have apart {k : Nat} (inside : k < 2) :
      withMap ram l page v count (0, l.npages + k) = ram (0, l.npages + k) := by
    rw [withMap, setWord_other fun _ => by dsimp only; omega, Function.update_of_ne]
    intro same
    have offset : l.npages + k = l.pagemap + page / 8 := congrArg Prod.snd same
    omega
  rw [npagesOf, npagesOf, apart (k := 1) (by omega)]
  exact congrArg (word · _) (apart (k := 0) (by omega))

theorem withMap_nfree : nfreeOf (withMap ram l page v count) l = count :=
  setWord_var _ _ _

theorem withMap_used {p : Nat} (less : p < 256) : used (withMap ram l page v count) l p =
    used (Function.update ram (0, l.pagemap + page / 8) v) l p := by
  have nfree : l.nfree = l.pagemap + 34 := rfl
  rw [used, withMap, setWord_other fun _ => .inl (by dsimp only; omega), used]

end WithMap

theorem toNat_pred {d : Word} (positive : d ≠ 0) : (d - 1).toNat + 1 = d.toNat := by
  have some : d.toNat ≠ 0 := fun zero => positive (BitVec.eq_of_toNat_eq zero)
  have one : (1 : Word) ≤ d := BitVec.le_def.mpr (Nat.one_le_iff_ne_zero.mpr some)
  rw [BitVec.toNat_sub_of_le one]
  exact Nat.sub_add_cancel (Nat.one_le_iff_ne_zero.mpr some)

/-- A page is handed out. -/
theorem Pages.insert {n page : Nat} {held : Finset Nat} (pages : Pages l n held ram)
    (free : page ∈ freePages ram l) :
    Pages l n (insert page held) (withMap ram l page
      (1#8 <<< (page % 8) ||| ram (0, l.pagemap + page / 8)) (nfreeOf ram l - 1)) := by
  have high := pages.high
  have count := pages.count
  have positive := Finset.card_pos.mpr ⟨page, free⟩
  rw [pages.freePages_eq, Finset.mem_sdiff, Finset.mem_Ico] at free
  obtain ⟨inside, fresh⟩ := free
  have small : page < 256 := by omega
  refine ⟨?_, ?_, fun p less => ?_, fun p member => ?_, pages.low, high⟩
  · rw [withMap_npages _ _ small]
    exact pages.npages
  · have some : nfreeOf ram l ≠ 0 := fun zero => by
      rw [zero] at count
      exact absurd count (Nat.ne_of_lt positive)
    have total := pages.nfree
    have less := toNat_pred some
    rw [withMap_nfree, Finset.card_insert_of_notMem fresh]
    omega
  · rw [withMap_used _ _ less, used_mark, Bool.or_eq_true, pages.used p less, decide_eq_true_iff,
      Finset.mem_insert, or_assoc, or_assoc, or_comm (a := p ∈ held)]
  · rcases Finset.mem_insert.mp member with rfl | old
    · exact inside
    · exact pages.held p old

theorem used_clear (ram : Ram) (l : Layout) (page p : Nat) :
    used (Function.update ram (0, l.pagemap + page / 8)
      (~~~(1#8 <<< (page % 8)) &&& ram (0, l.pagemap + page / 8))) l p =
      (used ram l p && decide (p ≠ page)) := by
  rw [used_update]
  split
  · next row =>
      have bit : decide (p % 8 = page % 8) = decide (p = page) := by
        rw [decide_eq_decide]
        omega
      have small : p % 8 < 8 := Nat.mod_lt p (by decide)
      rw [BitVec.getLsbD_and, BitVec.getLsbD_not, decide_eq_true small, Bool.true_and, one_bit small,
        bit, used, row, Bool.and_comm, decide_not]
  · next row =>
      have other : p ≠ page := fun equal => row (congrArg (· / 8) equal)
      rw [decide_eq_true other, Bool.and_true]

/-- A page comes back. -/
theorem Pages.erase {n page : Nat} {held : Finset Nat} (pages : Pages l n held ram)
    (member : page ∈ held) :
    Pages l n (held.erase page) (withMap ram l page
      (~~~(1#8 <<< (page % 8)) &&& ram (0, l.pagemap + page / 8)) (nfreeOf ram l + 1)) := by
  have high := pages.high
  have inside := pages.held page member
  have small : page < 256 := by omega
  refine ⟨?_, ?_, fun p less => ?_, fun p left => ?_, pages.low, high⟩
  · rw [withMap_npages _ _ small]
    exact pages.npages
  · have total := pages.nfree
    have fewer := Finset.card_erase_add_one member
    have next : (nfreeOf ram l + 1).toNat = (nfreeOf ram l).toNat + 1 :=
      BitVec.toNat_add_of_lt (show (nfreeOf ram l).toNat + 1 < 0x10000 by omega)
    rw [withMap_nfree, next]
    omega
  · rw [withMap_used _ _ less, used_clear, Bool.and_eq_true, pages.used p less, decide_eq_true_iff,
      Finset.mem_erase]
    constructor
    · rintro ⟨low | big | old, other⟩
      · exact .inl low
      · exact .inr (.inl big)
      · exact .inr (.inr ⟨other, old⟩)
    · rintro (low | big | ⟨other, old⟩)
      · exact ⟨.inl low, by omega⟩
      · exact ⟨.inr (.inl big), by omega⟩
      · exact ⟨.inr (.inr old), other⟩
  · exact pages.held p (Finset.mem_of_mem_erase left)

/-! The calls. -/

theorem full_used {p : Nat} (byte : ram (0, l.pagemap + p / 8) = 0xFF) : used ram l p = true := by
  have ones : (0xFF : Byte) = BitVec.allOnes 8 := rfl
  rw [used, byte, ones, BitVec.getLsbD_allOnes]
  exact decide_eq_true (Nat.mod_lt p (by decide))

theorem not_bit {a : Byte} {j : Nat} (small : j < 8) : (~~~a).getLsbD j = !a.getLsbD j := by
  rw [BitVec.getLsbD_not, decide_eq_true small, Bool.true_and]

/-- The page of a byte of the map and a bit of it. -/
theorem tag_of (i j : Nat) :
    (BitVec.ofNat 8 i <<< 3) + (0 + BitVec.ofNat 8 j) = tag (8 * i + j) := by
  have shifted : BitVec.ofNat 8 i <<< 3 = BitVec.ofNat 8 (8 * i) := by
    refine BitVec.eq_of_toNat_eq ?_
    rw [BitVec.toNat_shiftLeft, BitVec.toNat_ofNat, BitVec.toNat_ofNat, Nat.shiftLeft_eq]
    change i % 256 * 8 % 256 = 8 * i % 256
    omega
  have zero : 0 + BitVec.ofNat 8 j = BitVec.ofNat 8 j := BitVec.zero_add _
  rw [zero, shifted, tag, BitVec.ofNat_add]

/-- The scan ends at the lowest page that is free, or past the map. -/
theorem Deep.scan (stack : Deep l bank s) (seen : Seen (below bank s) ram bank m) :
    Seen (below bank s) ram bank (m.paByte s 32 l.pagemap 0).2 ∧
      ((m.paByte s 32 l.pagemap 0).1 = none ∧ freePages ram l = ∅ ∨
        ∃ page b a, (m.paByte s 32 l.pagemap 0).1 = some (b, a) ∧
          (b <<< 3) + paBit 8 (~~~a) 0 = tag page ∧
          IsLeast (fun p => p ∈ freePages ram l) page) := by
  have free {p : Nat} : p ∈ freePages ram l ↔ p < 256 ∧ used ram l p = false := by
    rw [freePages, Finset.mem_filter, Finset.mem_range]
  obtain ⟨scanned, found⟩ := paByte_first (l := l) seen (stack.room s (by omega) (Nat.le_refl s))
    (fun i less => ⟨stack.cellOf_var (by omega), stack.var_certain (by omega) (by omega)⟩) 32 0 rfl
  refine ⟨scanned, ?_⟩
  rcases found with ⟨none, full⟩ | ⟨i, -, row, run, other, before⟩
  · refine .inl ⟨none, Finset.eq_empty_of_forall_notMem fun p member => ?_⟩
    obtain ⟨less, clear⟩ := free.mp member
    rw [full_used (full (p / 8) (Nat.zero_le _) (by omega))] at clear
    cases clear
  · obtain ⟨j, column, bit, set, lower⟩ := paBit_first 8 (~~~ram (0, l.pagemap + i)) 0
      (clear_bit other)
    have rowIs : (8 * i + j) / 8 = i := by omega
    have columnIs : (8 * i + j) % 8 = j := by omega
    refine .inr ⟨8 * i + j, _, _, run, ?_, free.mpr ⟨by omega, ?_⟩, fun q member => ?_⟩
    · rw [bit, tag_of]
    · rw [used, rowIs, columnIs]
      rwa [not_bit column, Bool.not_eq_true'] at set
    · obtain ⟨less, clear⟩ := free.mp member
      by_contra below
      by_cases same : q / 8 = i
      · have inside := lower (q % 8) (by omega)
        rw [not_bit (Nat.mod_lt q (by decide)), Bool.not_eq_false'] at inside
        rw [used, same, inside] at clear
        cases clear
      · rw [full_used (before (q / 8) (Nat.zero_le _) (by omega))] at clear
        cases clear

theorem Deep.map_sure (stack : Deep l bank s) {c : Cell} (inside : c ∈ l.map) :
    c ∉ below bank s ∧ c ∉ cellsOf bank s (s + 14) := by
  obtain ⟨page, v⟩ := c
  obtain ⟨zero, low, high⟩ : page = 0 ∧ l.pagemap ≤ v ∧ v < l.pagemap + 36 := inside
  subst zero
  refine ⟨stack.var_certain low (by omega), ?_⟩
  rintro ⟨a, after, before, same⟩
  obtain ⟨i, rfl⟩ := Nat.exists_eq_add_of_le after
  exact stack.frame_ne_var (by omega) low (by omega) same.symm

/-- A byte of the map is stored and the count changed. -/
def Machine.storeMap (m : Machine) (l : Layout) (s x : Nat) (v : Byte) (change : Word → Word) :
    Machine :=
  let m := m.stb s x v
  let (d, m) := m.ldd s l.nfree
  m.std s l.nfree (change d)

theorem Deep.stores (stack : Deep l bank s) (seen : Seen (below bank s) ram bank m) {page : Nat}
    (small : page < 256) (v : Byte) (change : Word → Word) :
    Seen (below bank s) (withMap ram l page v (change (nfreeOf ram l))) bank
      (m.storeMap l s (l.pagemap + page / 8) v change) := by
  have nfree : l.nfree = l.pagemap + 34 := rfl
  have inBank0 := l.inBank0
  have size : bankSize = 0x4000 := rfl
  have top : ramTop = 0xF000 := rfl
  have room := stack.room s (by omega) (Nat.le_refl s)
  have first : cellOf bank l.nfree = (0, l.nfree) := stack.cellOf_var (by omega)
  have second : cellOf bank (l.nfree + 1) = (0, l.nfree + 1) := stack.cellOf_var (by omega)
  have stored := seen.stb room (a := l.pagemap + page / 8) (by omega) v
  rw [stack.cellOf_var (by omega)] at stored
  obtain ⟨count, loaded⟩ := stored.ldd room (a := l.nfree)
    (first ▸ stack.var_certain (by omega) (by omega))
    (second ▸ stack.var_certain (by omega) (by omega))
  have kept {k : Nat} : Function.update ram (0, l.pagemap + page / 8) v (0, l.nfree + k) =
      ram (0, l.nfree + k) := by
    refine Function.update_of_ne (fun same => ?_) _ _
    have offset : l.nfree + k = l.pagemap + page / 8 := congrArg Prod.snd same
    omega
  rw [first, second, kept (k := 1)] at count
  have whole : ((m.stb s (l.pagemap + page / 8) v).ldd s l.nfree).1 = nfreeOf ram l :=
    count.trans (congrArg (word · _) (kept (k := 0)))
  have result := loaded.std room (a := l.nfree) (by omega) (change (nfreeOf ram l))
  rw [first, second] at result
  rw [Machine.storeMap]
  dsimp only
  rw [whole]
  exact result

theorem biosPageAlloc_full (stack : Deep l m.bank s) (ret : Word)
    (none : freePages m.ram l = ∅) : Refuses m s errNospace (m.biosPageAlloc l s ret) := by
  have begun : Seen (below m.bank s) m.ram m.bank m := ⟨rfl, fun _ _ => rfl⟩
  obtain ⟨scanned, ⟨full, -⟩ | ⟨page, -, -, -, -, least⟩⟩ := stack.scan begun
  · have split : m.paByte s 32 l.pagemap 0 = (Option.none, (m.paByte s 32 l.pagemap 0).2) :=
      Prod.ext full rfl
    have call : m.biosPageAlloc l s ret = (m.paByte s 32 l.pagemap 0).2.bcErr s errNospace := by
      rw [Machine.biosPageAlloc, split]
    rw [call]
    exact stack.refuses scanned errNospace
  · have member : page ∈ freePages m.ram l := least.1
    rw [none] at member
    cases member

theorem biosPageAlloc_page (stack : Deep l m.bank s) (ret : Word) {n : Nat} {held : Finset Nat}
    (pages : Pages l n held m.ram) (some : freePages m.ram l ≠ ∅) :
    ∃ page, IsLeast (fun p => p ∈ freePages m.ram l) page ∧
      Ended m s l.map { m.frameRegs s with a := tag page, cc := (m.frameRegs s).cc &&& 0xFE }
        (m.biosPageAlloc l s ret) ∧
      Pages l n (insert page held) (m.biosPageAlloc l s ret).2.ram := by
  have begun : Seen (below m.bank s) m.ram m.bank m := ⟨rfl, fun _ _ => rfl⟩
  have high := stack.high
  have room := stack.room s (by omega) (Nat.le_refl s)
  obtain ⟨scanned, ⟨-, none⟩ | ⟨page, b, a, run, number, least⟩⟩ := stack.scan begun
  · exact absurd none some
  have member : page ∈ freePages m.ram l := least.1
  have small : page < 256 := Finset.mem_range.mp (Finset.mem_filter.mp member).1
  have answered := scanned.stb room (a := s + 1) (by omega) (tag page)
  have outside {c : Cell} (inside : c ∈ l.map) : c ≠ cellOf m.bank (s + 1) := by
    rintro rfl
    exact (stack.map_sure inside).2 ⟨s + 1, by omega, by omega, rfl⟩
  obtain ⟨m₂, located, seen⟩ := stack.pgLoc answered ret small
  have byte : (0, l.pagemap + page / 8) ∈ l.map := ⟨rfl, Nat.le_add_right _ _, by dsimp only; omega⟩
  have here : cellOf m.bank (l.pagemap + page / 8) = (0, l.pagemap + page / 8) :=
    stack.cellOf_var (by omega)
  obtain ⟨value, loaded⟩ := seen.ldb room (a := l.pagemap + page / 8)
    (here ▸ (stack.map_sure byte).1)
  rw [here] at value
  have stored := stack.stores loaded small (1#8 <<< (page % 8) |||
    Function.update m.ram (cellOf m.bank (s + 1)) (tag page) (0, l.pagemap + page / 8)) (· - 1)
  have pages₂ : Pages l n held (Function.update m.ram (cellOf m.bank (s + 1)) (tag page)) :=
    pages.congr fun c inside => Function.update_of_ne (outside inside) _ _
  have free₂ : page ∈ freePages (Function.update m.ram (cellOf m.bank (s + 1)) (tag page)) l := by
    rw [pages₂.freePages_eq, ← pages.freePages_eq]
    exact member
  obtain ⟨regs, bank, kept⟩ := stored.leaves room high (fun i inside => stack.frame_certain inside)
    (· &&& 0xFE)
  have split : m.paByte s 32 l.pagemap 0 = (Option.some (b, a), (m.paByte s 32 l.pagemap 0).2) :=
    Prod.ext run rfl
  have call : m.biosPageAlloc l s ret = ((m₂.ldb s (l.pagemap + page / 8)).2.storeMap l s
      (l.pagemap + page / 8) (1#8 <<< (page % 8) ||| Function.update m.ram (cellOf m.bank (s + 1))
        (tag page) (0, l.pagemap + page / 8)) (· - 1)).leave s (· &&& 0xFE) := by
    rw [Machine.biosPageAlloc, split]
    dsimp only
    rw [number, located]
    dsimp only
    rw [value]
    rfl
  rw [← call] at regs bank kept
  rw [stack.frame_kept fun c notMap => withMap_other _ _ notMap small, frameAt_update_a] at regs
  refine ⟨page, least, ⟨regs, bank, fun c sure notFrame notMap => ?_⟩, ?_⟩
  · rw [kept c sure notFrame, withMap_other _ _ notMap small, Function.update_of_ne]
    rintro rfl
    exact notFrame ⟨s + 1, by omega, by omega, rfl⟩
  · exact (pages₂.insert free₂).congr fun c inside =>
      kept c (stack.map_sure inside).1 (stack.map_sure inside).2

/-- BITA of a page's mask. -/
theorem bit_zero {v : Byte} {k : Nat} (small : k < 8) :
    (1#8 <<< k) &&& v = 0 ↔ v.getLsbD k = false := by
  constructor
  · intro zero
    have bit : ((1#8 <<< k) &&& v).getLsbD k = false := zero ▸ BitVec.getLsbD_zero
    rw [BitVec.getLsbD_and, one_bit small, decide_eq_true rfl, Bool.true_and] at bit
    exact bit
  · intro clear
    refine BitVec.eq_of_getLsbD_eq fun j less => ?_
    have zero : (0 : Byte).getLsbD j = false := BitVec.getLsbD_zero
    rw [BitVec.getLsbD_and, one_bit less, zero]
    by_cases same : j = k
    · rw [same, clear, Bool.and_false]
    · rw [decide_eq_false same, Bool.false_and]

theorem tag_toNat (b : Byte) : tag b.toNat = b :=
  (BitVec.ofNat_toNat 8 b).trans (BitVec.setWidth_eq b)

section Free

variable (stack : Deep l m.bank s) (ret : Word) {n : Nat} {held : Finset Nat}
  (pages : Pages l n held m.ram)

include stack pages

/-- What B_PAGE_FREE does, by the page. -/
theorem biosPageFree_cases {page : Nat} (pageIs : (m.frameRegs s).b.toNat = page) :
    ∃ m₁, Seen (below m.bank s) m.ram m.bank m₁ ∧ m.biosPageFree l s ret =
      if page ∈ held then
        (m₁.storeMap l s (l.pagemap + page / 8)
          (~~~(1#8 <<< (page % 8)) &&& m.ram (0, l.pagemap + page / 8)) (· + 1)).bcOk s
      else m₁.bbBad s := by
  have begun : Seen (below m.bank s) m.ram m.bank m := ⟨rfl, fun _ _ => rfl⟩
  have room := stack.room s (by omega) (Nat.le_refl s)
  have npages : l.npages = l.pagemap + 32 := rfl
  have small : page < 256 := pageIs ▸ (m.frameRegs s).b.isLt
  have first : cellOf m.bank l.npages = (0, l.npages) := stack.cellOf_var (by omega)
  have second : cellOf m.bank (l.npages + 1) = (0, l.npages + 1) := stack.cellOf_var (by omega)
  have here : cellOf m.bank (l.pagemap + page / 8) = (0, l.pagemap + page / 8) :=
    stack.cellOf_var (by omega)
  have byte : (0, l.pagemap + page / 8) ∉ below m.bank s :=
    stack.var_certain (Nat.le_add_right _ _) (by omega)
  obtain ⟨b, s1⟩ := begun.ldb room (stack.frame_certain (i := 2) (by omega))
  have bIs : (m.ldb s (s + 2)).1 = tag page := by
    rw [b, ← pageIs, tag_toNat]
    rfl
  obtain ⟨count, s2⟩ := s1.ldd room (a := l.npages)
    (first ▸ stack.var_certain (by omega) (by omega))
    (second ▸ stack.var_certain (by omega) (by omega))
  rw [first, second] at count
  have installed : (((m.ldb s (s + 2)).2.ldd s l.npages).1).toNat = n := by
    rw [count]
    exact pages.npages
  obtain ⟨m₃, located, s3⟩ := stack.pgLoc s2 ret small
  obtain ⟨v, s4⟩ := s3.ldb room (a := l.pagemap + page / 8) (here ▸ byte)
  obtain ⟨v', s5⟩ := s4.ldb room (a := l.pagemap + page / 8) (here ▸ byte)
  rw [here] at v v'
  have bit : ((1#8 <<< (page % 8)) &&& m.ram (0, l.pagemap + page / 8) = 0) ↔
      ¬(page < 4 ∨ n ≤ page ∨ page ∈ held) := by
    rw [bit_zero (Nat.mod_lt page (by decide)), ← pages.used page small, Bool.not_eq_true]
    rfl
  rw [Machine.biosPageFree]
  dsimp only
  rw [bIs, toNat_tag small, installed, located]
  dsimp only
  rw [v, v']
  split
  · next low =>
      refine ⟨_, s1, (if_neg fun member => ?_).symm⟩
      have range := pages.held page member
      omega
  split
  · next high =>
      refine ⟨_, s2, (if_neg fun member => ?_).symm⟩
      have range := pages.held page member
      omega
  split
  · next clear =>
      exact ⟨_, s4, (if_neg fun member => bit.mp clear (.inr (.inr member))).symm⟩
  · next set =>
      refine ⟨_, s5, (if_pos ?_).symm⟩
      rw [bit, not_not] at set
      exact (set.resolve_left (by omega)).resolve_left (by omega)

theorem biosPageFree_refuses (notHeld : (m.frameRegs s).b.toNat ∉ held) :
    Refuses m s errBadparam (m.biosPageFree l s ret) := by
  obtain ⟨m₁, seen, call⟩ := biosPageFree_cases stack ret pages rfl
  rw [call, if_neg notHeld]
  exact stack.refuses seen errBadparam

theorem biosPageFree_frees (member : (m.frameRegs s).b.toNat ∈ held) :
    Ended m s l.map { m.frameRegs s with a := errOk, cc := (m.frameRegs s).cc &&& 0xFE }
        (m.biosPageFree l s ret) ∧
      Pages l n (held.erase (m.frameRegs s).b.toNat) (m.biosPageFree l s ret).2.ram := by
  obtain ⟨m₁, seen, call⟩ := biosPageFree_cases stack ret pages rfl
  have small := (m.frameRegs s).b.isLt
  rw [call, if_pos member]
  obtain ⟨ended, same⟩ := stack.accepts (stack.stores seen small
    (~~~(1#8 <<< ((m.frameRegs s).b.toNat % 8)) &&&
      m.ram (0, l.pagemap + (m.frameRegs s).b.toNat / 8)) (· + 1))
    fun c notMap => withMap_other _ _ notMap small
  exact ⟨ended, (pages.erase member).congr fun c inside =>
    same c (stack.map_sure inside).1 (stack.map_sure inside).2⟩

end Free

/-- X and Y changed in the frame. -/
theorem Machine.frameRegs_words {m' : Machine} {x y : Word}
    (xIs : word (m'.load (s + 6)) (m'.load (s + 7)) = x)
    (yIs : word (m'.load (s + 8)) (m'.load (s + 9)) = y)
    (same : ∀ i < 14, i < 6 ∨ 10 ≤ i → m'.load (s + i) = m.load (s + i)) :
    m'.frameRegs s = { m.frameRegs s with x := x, y := y } := by
  have first : m'.load s = m.load s := same 0 (by omega) (by omega)
  rw [frameRegs, xIs, yIs, first, same 1 (by omega) (by omega), same 2 (by omega) (by omega),
    same 3 (by omega) (by omega), same 4 (by omega) (by omega), same 5 (by omega) (by omega),
    same 10 (by omega) (by omega), same 11 (by omega) (by omega), same 12 (by omega) (by omega),
    same 13 (by omega) (by omega)]
  rfl

theorem frameAt_words (ram : Ram) (bank : Nat → Nat) (s : Nat) (x y : Word) :
    Machine.frameAt (setWord (setWord ram (cellOf bank (s + 6)) (cellOf bank (s + 7)) x)
      (cellOf bank (s + 8)) (cellOf bank (s + 9)) y) bank s =
      { Machine.frameAt ram bank s with x := x, y := y } := by
  have ne {i j : Nat} (less : i < j) (inside : j < 14) :
      cellOf bank (s + i) ≠ cellOf bank (s + j) :=
    near_ne (Nat.add_lt_add_left less s) (by rw [bankSize]; omega)
  refine Machine.frameRegs_words ?_ (setWord_word y (ne (i := 8) (by omega) (by omega)))
    fun i inside apart => ?_
  · change word (setWord _ _ _ y (cellOf bank (s + 6))) (setWord _ _ _ y (cellOf bank (s + 7))) = x
    rw [setWord, Function.update_of_ne (ne (by omega) (by omega)),
      Function.update_of_ne (ne (by omega) (by omega)),
      Function.update_of_ne (ne (by omega) (by omega)),
      Function.update_of_ne (ne (by omega) (by omega)),
      setWord_word x (ne (by omega) (by omega))]
  · have each {j : Nat} (low : 6 ≤ j) (high : j < 10) :
        cellOf bank (s + i) ≠ cellOf bank (s + j) := by
      rcases apart with before | after
      · exact ne (by omega) (by omega)
      · exact (ne (by omega) inside).symm
    change setWord (setWord ram _ _ x) _ _ y (cellOf bank (s + i)) = ram (cellOf bank (s + i))
    rw [setWord, Function.update_of_ne (each (by omega) (by omega)),
      Function.update_of_ne (each (by omega) (by omega)), setWord,
      Function.update_of_ne (each (by omega) (by omega)),
      Function.update_of_ne (each (by omega) (by omega))]

/-- B_PAGE_INFO puts the two words in the frame. -/
theorem biosPageInfo_tells (stack : Deep l m.bank s) :
    Ended m s ∅ { m.frameRegs s with
      a := errOk, cc := (m.frameRegs s).cc &&& 0xFE, x := npagesOf m.ram l, y := nfreeOf m.ram l }
      (m.biosPageInfo l s) := by
  have begun : Seen (below m.bank s) m.ram m.bank m := ⟨rfl, fun _ _ => rfl⟩
  have room := stack.room s (by omega) (Nat.le_refl s)
  have high := stack.high
  have npages : l.npages = l.pagemap + 32 := rfl
  have nfree : l.nfree = l.pagemap + 34 := rfl
  have inFrame {c : Cell} {i : Nat} (notFrame : c ∉ cellsOf m.bank s (s + 14)) (inside : i < 14) :
      c ≠ cellOf m.bank (s + i) := by
    rintro rfl
    exact notFrame ⟨s + i, by omega, by omega, rfl⟩
  have var {k : Nat} (inside : k < 36) : cellOf m.bank (l.pagemap + k) = (0, l.pagemap + k) ∧
      cellOf m.bank (l.pagemap + k) ∉ below m.bank s :=
    have here := stack.cellOf_var (v := l.pagemap + k) (by omega)
    ⟨here, here ▸ stack.var_certain (Nat.le_add_right _ _) (by omega)⟩
  have apart {k i : Nat} (less : k < 36) (inside : i < 14) :
      (0, l.pagemap + k) ≠ cellOf m.bank (s + i) :=
    (stack.frame_ne_var inside (Nat.le_add_right _ _) (by omega)).symm
  obtain ⟨first, s1⟩ := begun.ldd room (a := l.npages) (var (k := 32) (by omega)).2
    (var (k := 33) (by omega)).2
  have npagesIs : (m.ldd s l.npages).1 = npagesOf m.ram l := by
    rw [first, npages, (var (k := 32) (by omega)).1, Nat.add_assoc, (var (k := 33) (by omega)).1]
    rfl
  have s2 := s1.std room (a := s + 6) (by omega) (npagesOf m.ram l)
  obtain ⟨second, s3⟩ := s2.ldd room (a := l.nfree) (var (k := 34) (by omega)).2
    (var (k := 35) (by omega)).2
  have kept {k : Nat} (less : k < 36) : setWord m.ram (cellOf m.bank (s + 6))
      (cellOf m.bank (s + 6 + 1)) (npagesOf m.ram l) (0, l.pagemap + k) =
      m.ram (0, l.pagemap + k) := by
    rw [setWord, Function.update_of_ne (apart less (i := 7) (by omega)),
      Function.update_of_ne (apart less (i := 6) (by omega))]
  have nfreeIs : (((m.ldd s l.npages).2.std s (s + 6) (npagesOf m.ram l)).ldd s l.nfree).1 =
      nfreeOf m.ram l := by
    rw [second, nfree, (var (k := 34) (by omega)).1, Nat.add_assoc l.pagemap,
      (var (k := 35) (by omega)).1, kept (by omega), kept (by omega)]
    rfl
  have s4 := s3.std room (a := s + 8) (by omega) (nfreeOf m.ram l)
  obtain ⟨regs, bank, same⟩ := s4.returns room high (fun i inside => stack.frame_certain inside)
    errOk (· &&& 0xFE)
  have call : m.biosPageInfo l s = ((((m.ldd s l.npages).2.std s (s + 6) (npagesOf m.ram l)).ldd s
      l.nfree).2.std s (s + 8) (nfreeOf m.ram l)).bcOk s := by
    rw [Machine.biosPageInfo]
    dsimp only
    rw [npagesIs, nfreeIs]
  rw [call]
  refine ⟨?_, bank, fun c sure notFrame _ => (same c sure notFrame).trans ?_⟩
  · rw [frameAt_words] at regs
    exact regs
  · rw [setWord, Function.update_of_ne (inFrame notFrame (i := 9) (by omega)),
      Function.update_of_ne (inFrame notFrame (i := 8) (by omega)), setWord,
      Function.update_of_ne (inFrame notFrame (i := 7) (by omega)),
      Function.update_of_ne (inFrame notFrame (i := 6) (by omega))]

end Pugputer.Banks

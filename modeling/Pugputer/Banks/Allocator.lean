import Pugputer.Banks.PageAlloc

namespace Pugputer.Banks

open Board

/-! The pages that a run of calls has handed out. -/

/-- The carry that a call comes back with. -/
def Regs.carry (regs : Regs) : Bool := regs.cc.getLsbD 0

/-- A caller's stack is in pages that are installed. -/
structure Caller (board : Board) (l : Layout) (bank : Nat → Nat) (s : Nat) : Prop
    extends Deep l bank s where
  installed : ∀ a, s - 17 ≤ a → a < s + 14 → bank (a / bankSize) < board.pages

/-- The pages that B_PAGE_ALLOC's caller has, by the registers it comes back with. -/
def handOut (held : Finset Nat) (regs : Regs) : Finset Nat :=
  if regs.carry then held else insert regs.a.toNat held

/-- The pages that are left when B_PAGE_FREE of one comes back. -/
def giveBack (held : Finset Nat) (page : Byte) (regs : Regs) : Finset Nat :=
  if regs.carry then held else held.erase page.toNat

/-- The states after PAGE_INIT, with the pages handed out and not given back. A program leaves
the map, the counts and bank 0 alone. -/
inductive Allocated (board : Board) (l : Layout) : Machine → Finset Nat → Prop
  | pageInit {m : Machine} {s : Nat} (ret : Word) (bank0 : m.bank 0 = 0)
      (shadow : (m.ram (0, sbank1)).toNat = m.bank 1) (stack : Scratch l s) :
      Allocated board l (board.pageInit m l s ret) ∅
  | program {m m' : Machine} {held : Finset Nat} (before : Allocated board l m held)
      (bank0 : m'.bank 0 = 0) (vars : ∀ c ∈ l.map, m'.ram c = m.ram c) : Allocated board l m' held
  | alloc {m : Machine} {held : Finset Nat} {s : Nat} (before : Allocated board l m held)
      (caller : Caller board l m.bank s) (ret : Word) :
      Allocated board l (m.biosPageAlloc l s ret).2 (handOut held (m.biosPageAlloc l s ret).1)
  | free {m : Machine} {held : Finset Nat} {s : Nat} (before : Allocated board l m held)
      (caller : Caller board l m.bank s) (ret : Word) :
      Allocated board l (m.biosPageFree l s ret).2
        (giveBack held (m.frameRegs s).b (m.biosPageFree l s ret).1)
  | info {m : Machine} {held : Finset Nat} {s : Nat} (before : Allocated board l m held)
      (caller : Caller board l m.bank s) : Allocated board l (m.biosPageInfo l s).2 held

/-- What is claimed of a state: for the pages handed out, the count, and each call. -/
structure Accounts (board : Board) (l : Layout) (m : Machine) (held : Finset Nat) : Prop where
  installed : ∀ p ∈ held, 4 ≤ p ∧ p < board.pages
  count : (nfreeOf m.ram l).toNat = (freePages m.ram l).card
  alloc : ∀ s ret, Caller board l m.bank s →
    ((m.biosPageAlloc l s ret).1.carry = true ↔ nfreeOf m.ram l = 0) ∧
    (nfreeOf m.ram l = 0 → Refuses m s errNospace (m.biosPageAlloc l s ret)) ∧
    (nfreeOf m.ram l ≠ 0 → ∃ page, IsLeast (fun p => p ∈ freePages m.ram l) page ∧ page ∉ held ∧
      Ended m s l.map { m.frameRegs s with a := tag page, cc := (m.frameRegs s).cc &&& 0xFE }
        (m.biosPageAlloc l s ret))
  free : ∀ s ret, Caller board l m.bank s →
    ((m.biosPageFree l s ret).1.carry = false ↔ (m.frameRegs s).b.toNat ∈ held) ∧
    ((m.frameRegs s).b.toNat ∉ held → Refuses m s errBadparam (m.biosPageFree l s ret)) ∧
    ((m.frameRegs s).b.toNat ∈ held →
      Ended m s l.map { m.frameRegs s with a := errOk, cc := (m.frameRegs s).cc &&& 0xFE }
        (m.biosPageFree l s ret))
  info : ∀ s, Caller board l m.bank s →
    Ended m s ∅ { m.frameRegs s with
      a := errOk, cc := (m.frameRegs s).cc &&& 0xFE, x := npagesOf m.ram l, y := nfreeOf m.ram l }
      (m.biosPageInfo l s)

variable {board : Board} {l : Layout} {m : Machine} {s n : Nat} {held : Finset Nat}
  {call : Regs × Machine}

theorem carry_set (cc : Byte) : (cc ||| 0x01).getLsbD 0 = true := by
  rw [BitVec.getLsbD_or]
  exact Bool.or_true _

theorem carry_clear (cc : Byte) : (cc &&& 0xFE).getLsbD 0 = false := by
  rw [BitVec.getLsbD_and]
  exact Bool.and_false _

theorem Refuses.carry {code : Byte} (refuses : Refuses m s code call) : call.1.carry = true := by
  rw [Regs.carry, refuses.regs]
  exact carry_set _

/-- The map is as it was, if the call has not changed it. -/
theorem Ended.pages {regs : Regs} (ended : Ended m s ∅ regs call) (stack : Deep l m.bank s)
    (pages : Pages l n held m.ram) : Pages l n held call.2.ram :=
  pages.congr fun c inside => ended.kept c (stack.map_sure inside).1 (stack.map_sure inside).2
    fun none => none

theorem Pages.empty_iff (pages : Pages l n held m.ram) :
    freePages m.ram l = ∅ ↔ nfreeOf m.ram l = 0 := by
  rw [← Finset.card_eq_zero, ← pages.count]
  exact ⟨fun zero => BitVec.eq_of_toNat_eq zero, fun zero => congrArg BitVec.toNat zero⟩

/-- The invariant's step for B_PAGE_ALLOC. -/
theorem Pages.alloc (pages : Pages l n held m.ram) (stack : Deep l m.bank s) (ret : Word) :
    Pages l n (handOut held (m.biosPageAlloc l s ret).1) (m.biosPageAlloc l s ret).2.ram ∧
      (m.biosPageAlloc l s ret).2.bank = m.bank := by
  by_cases none : freePages m.ram l = ∅
  · have refuses := biosPageAlloc_full stack ret none
    rw [handOut, if_pos refuses.carry]
    exact ⟨refuses.pages stack pages, refuses.bank⟩
  · obtain ⟨page, least, ended, after⟩ := biosPageAlloc_page stack ret pages none
    have small : page < 256 := Finset.mem_range.mp (Finset.mem_filter.mp least.1).1
    have clear : ¬(m.biosPageAlloc l s ret).1.carry = true := by
      rw [Regs.carry, ended.regs, carry_clear]
      exact Bool.false_ne_true
    rw [handOut, if_neg clear, ended.regs, toNat_tag small]
    exact ⟨after, ended.bank⟩

theorem Pages.free (pages : Pages l n held m.ram) (stack : Deep l m.bank s) (ret : Word) :
    Pages l n (giveBack held (m.frameRegs s).b (m.biosPageFree l s ret).1)
      (m.biosPageFree l s ret).2.ram ∧ (m.biosPageFree l s ret).2.bank = m.bank := by
  by_cases member : (m.frameRegs s).b.toNat ∈ held
  · obtain ⟨ended, after⟩ := biosPageFree_frees stack ret pages member
    have clear : ¬(m.biosPageFree l s ret).1.carry = true := by
      rw [Regs.carry, ended.regs, carry_clear]
      exact Bool.false_ne_true
    rw [giveBack, if_neg clear]
    exact ⟨after, ended.bank⟩
  · have refuses := biosPageFree_refuses stack ret pages member
    rw [giveBack, if_pos refuses.carry]
    exact ⟨refuses.pages stack pages, refuses.bank⟩

/-- The pages that PAGE_INIT has counted. -/
theorem Board.Counted.pages {m' : Machine} (counted : Board.Counted l s n m m') (low : 4 ≤ n)
    (high : n ≤ 256) : Pages l n ∅ m'.ram := by
  refine ⟨counted.npages, counted.nfree, fun p less => ?_, fun p member => ?_, low, high⟩
  · rw [counted.used p less]
    exact or_congr_right (or_iff_left (Finset.notMem_empty p)).symm
  · cases member

/-- The invariant, where the count is right. -/
theorem Allocated.pages (sized : board.Sized) (plain : board.Plain)
    (allocated : Allocated board l m held) : m.bank 0 = 0 ∧ Pages l board.pages held m.ram := by
  induction allocated with
  | pageInit ret bank0 shadow stack =>
      obtain ⟨k, probed, -, -, right, -, counted⟩ := pageInit_finds ret sized bank0 shadow stack
      rw [right.mpr plain] at counted
      exact ⟨counted.bank ▸ bank0, counted.pages sized.1 sized.2.1⟩
  | program before bank0 vars ih => exact ⟨bank0, ih.2.congr vars⟩
  | alloc before caller ret ih =>
      obtain ⟨after, bank⟩ := ih.2.alloc caller.toDeep ret
      exact ⟨bank ▸ ih.1, after⟩
  | free before caller ret ih =>
      obtain ⟨after, bank⟩ := ih.2.free caller.toDeep ret
      exact ⟨bank ▸ ih.1, after⟩
  | info before caller ih =>
      have ended := biosPageInfo_tells caller.toDeep
      exact ⟨ended.bank ▸ ih.1, ended.pages caller.toDeep ih.2⟩

/-- The invariant gives each of the claims. -/
theorem Pages.accounts (pages : Pages l board.pages held m.ram) : Accounts board l m held := by
  refine ⟨pages.held, pages.count, fun s ret caller => ⟨?_, fun zero => ?_, fun some => ?_⟩,
    fun s ret caller => ⟨?_, fun notHeld => ?_, fun member => ?_⟩, fun s caller => ?_⟩
  · constructor
    · intro set
      by_contra some
      obtain ⟨page, -, ended, -⟩ := biosPageAlloc_page caller.toDeep ret pages
        (mt pages.empty_iff.mp some)
      rw [Regs.carry, ended.regs, carry_clear] at set
      cases set
    · exact fun zero => (biosPageAlloc_full caller.toDeep ret (pages.empty_iff.mpr zero)).carry
  · exact biosPageAlloc_full caller.toDeep ret (pages.empty_iff.mpr zero)
  · obtain ⟨page, least, ended, -⟩ := biosPageAlloc_page caller.toDeep ret pages
      (mt pages.empty_iff.mp some)
    refine ⟨page, least, fun member => ?_, ended⟩
    have free : page ∈ freePages m.ram l := least.1
    rw [pages.freePages_eq, Finset.mem_sdiff] at free
    exact free.2 member
  · constructor
    · intro clear
      by_contra notHeld
      rw [(biosPageFree_refuses caller.toDeep ret pages notHeld).carry] at clear
      cases clear
    · intro member
      rw [Regs.carry, (biosPageFree_frees caller.toDeep ret pages member).1.regs, carry_clear]
  · exact biosPageFree_refuses caller.toDeep ret pages notHeld
  · exact (biosPageFree_frees caller.toDeep ret pages member).1
  · exact biosPageInfo_tells caller.toDeep

/-! Aliases, which are counted, are handed out. -/

/-- A stack in bank 3, with each bank at its own page. -/
theorem caller_bank3 (four : 4 ≤ board.pages) : Caller board l id 0xE000 := by
  refine ⟨⟨rfl, by decide, by decide, fun a low high cell => ?_⟩, fun a low high => ?_⟩
  · have page : a / 0x4000 = 0 := cell.1
    omega
  · change a / 0x4000 < board.pages
    omega

/-- A run of B_PAGE_ALLOC hands the pages out in order. -/
theorem Pages.hands_out (four : 4 ≤ board.pages) {k : Nat} (allocated : Allocated board l m ∅)
    (bank : m.bank = id) (pages : Pages l k ∅ m.ram) (j : Nat) (some : 4 + j ≤ k) :
    ∃ m', Allocated board l m' (Finset.Ico 4 (4 + j)) ∧ m'.bank = id ∧
      Pages l k (Finset.Ico 4 (4 + j)) m'.ram := by
  induction j with
  | zero => exact ⟨m, allocated, bank, pages⟩
  | succ j ih =>
      obtain ⟨m', before, bank', pages'⟩ := ih (by omega)
      have caller : Caller board l m'.bank 0xE000 := bank' ▸ caller_bank3 four
      have next : 4 + j ∈ freePages m'.ram l := by
        rw [pages'.freePages_eq, Finset.mem_sdiff, Finset.mem_Ico, Finset.mem_Ico]
        omega
      obtain ⟨page, least, ended, -⟩ := biosPageAlloc_page caller.toDeep 0 pages'
        (Finset.ne_empty_of_mem next)
      have pageIs : page = 4 + j := by
        have free : page ∈ freePages m'.ram l := least.1
        have below : page ≤ 4 + j := least.2 next
        rw [pages'.freePages_eq, Finset.mem_sdiff, Finset.mem_Ico, Finset.mem_Ico] at free
        omega
      have clear : ¬(m'.biosPageAlloc l 0xE000 0).1.carry = true := by
        rw [Regs.carry, ended.regs, carry_clear]
        exact Bool.false_ne_true
      have high := pages'.high
      have held : handOut (Finset.Ico 4 (4 + j)) (m'.biosPageAlloc l 0xE000 0).1 =
          Finset.Ico 4 (4 + (j + 1)) := by
        rw [handOut, if_neg clear, ended.regs, toNat_tag (by omega), pageIs]
        ext p
        rw [Finset.mem_insert, Finset.mem_Ico, Finset.mem_Ico]
        omega
      obtain ⟨after, kept⟩ := pages'.alloc caller.toDeep 0
      rw [held] at after
      exact ⟨_, held ▸ before.alloc caller 0, kept.trans bank', after⟩

/-- S at $40, below any variables that the linker places. -/
theorem scratch_public (l : Layout) : Scratch l 0x40 := by
  have after := l.afterPublic
  refine ⟨by decide, by decide, fun c inside cell => ?_⟩
  obtain ⟨-, low, high⟩ := inside
  rcases cell.2 with ⟨-, below⟩ | ⟨above, -⟩
  · change c.2 < 0x19 at below
    change 0x3D ≤ c.2 at low
    omega
  · omega

/-- Up to a page that is not installed. -/
theorem hands_alias {s : Nat} (ret : Word) (sized : board.Sized) (aliased : ¬board.Plain)
    (bank0 : m.bank 0 = 0) (shadow : (m.ram (0, sbank1)).toNat = m.bank 1) (stack : Scratch l s) :
    ∃ m', Allocated board l m' (Finset.Ico 4 (board.pages + 1)) := by
  obtain ⟨k, probed, least, high, right, -, counted⟩ := pageInit_finds ret sized bank0 shadow stack
  have four := sized.1
  have other : k ≠ board.pages := mt right.mp aliased
  have begun : Allocated board l { board.pageInit m l s ret with bank := id } ∅ :=
    .program (.pageInit ret bank0 shadow stack) rfl fun _ _ => rfl
  obtain ⟨m', after, -, -⟩ := Pages.hands_out four begun rfl (counted.pages (by omega) high)
    (board.pages - 3) (by omega)
  have last : 4 + (board.pages - 3) = board.pages + 1 := by omega
  exact ⟨m', last ▸ after⟩

theorem pageAlloc_iff (board : Board) (l : Layout) (sized : board.Sized) :
    (∀ m held, Allocated board l m held → Accounts board l m held) ↔ board.Plain := by
  constructor
  · intro accounts
    by_contra aliased
    obtain ⟨m, allocated⟩ := hands_alias (l := l) (m := reset) (s := 0x40) 0 sized aliased rfl
      reset_shadow (scratch_public l)
    exact Nat.lt_irrefl _ ((accounts m _ allocated).installed board.pages
      (Finset.mem_Ico.mpr ⟨sized.1, Nat.lt_succ_self _⟩)).2
  · exact fun plain m held allocated => (allocated.pages sized plain).2.accounts

theorem pageAlloc_iff_floats : (eight (.floats fun _ _ => 0xFF)).Sized ∧
    ((∀ m held, Allocated (eight (.floats fun _ _ => 0xFF)) lowLayout m held →
      Accounts (eight (.floats fun _ _ => 0xFF)) lowLayout m held) ↔
      (eight (.floats fun _ _ => 0xFF)).Plain) :=
  ⟨eight_floats_sized, pageAlloc_iff (eight (.floats fun _ _ => 0xFF)) lowLayout eight_floats_sized⟩

/-- Of eight pages that are aliased the ninth is handed out. -/
theorem hands_ninth : (eight .aliases).Sized ∧
    ∃ m held, Allocated (eight .aliases) lowLayout m held ∧ 8 ∈ held ∧
      ¬Accounts (eight .aliases) lowLayout m held := by
  obtain ⟨m, allocated⟩ := hands_alias 0 eight_aliases_sized not_plain_aliases (m := reset) rfl
    reset_shadow scratch_stack
  have member : 8 ∈ Finset.Ico 4 ((eight .aliases).pages + 1) := by decide
  exact ⟨eight_aliases_sized, m, _, allocated, member, fun accounts =>
    absurd (accounts.installed 8 member).2 (by decide)⟩

end Pugputer.Banks

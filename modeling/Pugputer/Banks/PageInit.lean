import Pugputer.Banks.Copied

namespace Pugputer.Banks

/-! PAGE_INIT: how many pages of RAM are installed, and which of them are free. -/

/-- How a page answers that is not installed: by something else than what was written there, or
as a lower page does. -/
inductive Absent
  | floats (answer : Cell → Byte → Byte)
  | aliases

/-- The RAM of a computer. -/
structure Board where
  pages : Nat
  absent : Absent

/-- The first byte of a page's tag; the second is its complement. -/
def tag (page : Nat) : Byte := BitVec.ofNat 8 page

namespace Board

variable (board : Board)

/-- The page that is written in a page's stead. -/
def place (page : Nat) : Nat :=
  if page < board.pages then page
  else match board.absent with
    | .floats _ => page
    | .aliases => page % board.pages

def read (ram : Ram) (c : Cell) : Byte :=
  if c.1 < board.pages then ram c
  else match board.absent with
    | .floats answer => answer c (ram c)
    | .aliases => ram (c.1 % board.pages, c.2)

def load (m : Machine) (a : Nat) : Byte := board.read m.ram (m.cell a)

def store (m : Machine) (a : Nat) (v : Byte) : Machine :=
  if a < ramTop then
    { m with ram := Function.update m.ram (board.place (m.cell a).1, (m.cell a).2) v }
  else if bankBase ≤ a ∧ a < bankBase + 4 then
    { m with bank := Function.update m.bank (a - bankBase) v.toNat }
  else m

/-- From 4 to 256 pages; no tag is read back from an absent page that floats, and one that
aliases a lower page does so modulo a power of two. -/
def Sized : Prop :=
  4 ≤ board.pages ∧ board.pages ≤ 256 ∧
    match board.absent with
    | .floats answer => ∀ p, board.pages ≤ p → p < 256 →
        ¬(answer (p, 0) (tag p) = tag p ∧ answer (p, 1) (~~~tag p) = ~~~tag p)
    | .aliases => board.pages ∈ [4, 8, 16, 32, 64, 128, 256]

def storeWord (m : Machine) (a : Nat) (v : Word) : Machine :=
  board.store (board.store m a (hiByte v)) (a + 1) (loByte v)

def loadWord (m : Machine) (a : Nat) : Word := word (board.load m a) (board.load m (a + 1))

/-! The code, with S at the return address. -/

/-- PI_WRITE, for page `b` and then those below it. -/
def piWrite : (b : Nat) → Machine → Machine
  | 0, m => m
  | b + 1, m =>
      let m := board.store m (bankBase + 1) (tag (b + 1))
      let m := board.store m 0x4000 (tag (b + 1))
      let m := board.store m 0x4001 (~~~tag (b + 1))
      if 3 < b then piWrite b m else m

/-- PI_VERIFY, which ends when B is zero if not before. -/
def piVerify : (left : Nat) → Machine → Byte → Byte × Machine
  | 0, m, b => (b, m)
  | left + 1, m, b =>
      let m := board.store m (bankBase + 1) b
      if b ≠ board.load m 0x4000 then (b, m)
      else if ~~~b ≠ board.load m 0x4001 then (b, m)
      else if b + 1 = 0 then (b + 1, m)
      else piVerify left m (b + 1)

/-- PI_CLR: `count` bytes from X on. -/
def piClr : (count : Nat) → Nat → Machine → Machine
  | 0, _, m => m
  | count + 1, x, m => piClr count (x + 1) (board.store m x 0)

end Board

/-- PGL_SHIFT. -/
def pglShift : (b : Nat) → Byte → Byte
  | 0, a => a
  | b + 1, a => pglShift b (a <<< 1)

namespace Board

variable (board : Board)

/-- PG_LOC, called by a BSR that pushes `ret`: X, A and the memory. -/
def pgLoc (m : Machine) (l : Layout) (s : Nat) (ret : Word) (b : Byte) : Nat × Byte × Machine :=
  let m := board.storeWord m (s - 2) ret
  let m := board.store m (s - 3) b
  let x := l.pagemap + (b >>> 3).toNat
  let b := board.load m (s - 3)
  let m := board.store m (s - 3) b
  (x, pglShift (b &&& 7).toNat 1, m)

/-- PI_USED. -/
def piUsed (m : Machine) (l : Layout) (s : Nat) (ret : Word) (b : Byte) : Machine :=
  let (x, a, m) := board.pgLoc m l s ret b
  board.store m x (a ||| board.load m x)

/-- PI_MARK, which ends when B is zero again. -/
def piMark (l : Layout) (s : Nat) (ret : Word) : (left : Nat) → Machine → Byte → Machine
  | 0, m, _ => m
  | left + 1, m, b =>
      let m :=
        if b.toNat < 4 then board.piUsed m l s ret b
        else if b.toNat < (board.loadWord m l.npages).toNat then m
        else board.piUsed m l s ret b
      if b + 1 = 0 then m else piMark l s ret left m (b + 1)

def pageInit (m : Machine) (l : Layout) (s : Nat) (ret : Word) : Machine :=
  let m := board.piWrite 255 m
  let (b, m) := board.piVerify 252 m 4
  let m := board.storeWord m l.npages (if b = 0 then 256 else word 0 b)
  let m := board.store m (bankBase + 1) (board.load m sbank1)
  let m := board.piClr 32 l.pagemap m
  let m := board.piMark l s ret 256 m 0
  board.storeWord m l.nfree (board.loadWord m l.npages - 4)

end Board

namespace Board

variable {board : Board} {m : Machine} {ram : Ram}

/-! Bank 0 and the bank that the probe goes through. -/

theorem place_installed {page : Nat} (low : page < board.pages) : board.place page = page :=
  if_pos low

theorem cell_low (bank0 : m.bank 0 = 0) {v : Nat} (low : v < bankSize) : m.cell v = (0, v) := by
  rw [Machine.cell, Nat.div_eq_of_lt low, bank0, Nat.mod_eq_of_lt low]

section Low

variable {bank : Nat → Nat} {ticks : List (List Frame)} (bank0 : bank 0 = 0)
  (some : 0 < board.pages) {v : Nat} (low : v < bankSize)

include bank0 some low

theorem store_low (x : Byte) : board.store ⟨ram, bank, ticks⟩ v x =
    ⟨Function.update ram (0, v) x, bank, ticks⟩ := by
  have inRam : v < ramTop := Nat.lt_trans low (by decide)
  rw [store, if_pos inRam, cell_low bank0 low, place_installed some]

theorem load_low : board.load ⟨ram, bank, ticks⟩ v = ram (0, v) := by
  rw [load, cell_low bank0 low, read, if_pos some]

end Low

theorem store_bank1 (b : Byte) : board.store m (bankBase + 1) b =
    { m with bank := Function.update m.bank 1 b.toNat } := by
  rw [store, if_neg (by decide), if_pos (by decide), Nat.add_sub_cancel_left]

theorem toNat_tag {page : Nat} (small : page < 256) : (tag page).toNat = page := by
  rw [tag, BitVec.toNat_ofNat, Nat.mod_eq_of_lt small]

theorem tag_row {page : Nat} (small : page < 256) : (tag page >>> 3).toNat = page / 8 := by
  rw [BitVec.toNat_ushiftRight, toNat_tag small, Nat.shiftRight_eq_div_pow]

theorem tag_column {page : Nat} (small : page < 256) : (tag page &&& 7).toNat = page % 8 := by
  rw [BitVec.toNat_and, toNat_tag small]
  exact Nat.and_two_pow_sub_one_eq_mod page 3

/-- A page with its tag. -/
def tagged (ram : Ram) (place page : Nat) : Ram :=
  Function.update (Function.update ram (place, 0) (tag page)) (place, 1) (~~~tag page)

theorem store_tag {page : Nat} (small : page < 256) :
    board.store (board.store (board.store m (bankBase + 1) (tag page)) 0x4000 (tag page)) 0x4001
      (~~~tag page) =
      { m with
        ram := tagged m.ram (board.place page) page
        bank := Function.update m.bank 1 page } := by
  rw [store_bank1, toNat_tag small, store, store]
  rfl

theorem tagged_other {place page : Nat} {c : Cell} (first : c ≠ (place, 0))
    (second : c ≠ (place, 1)) : tagged ram place page c = ram c := by
  rw [tagged, Function.update_of_ne second, Function.update_of_ne first]

theorem tagged_first (place page : Nat) : tagged ram place page (place, 0) = tag page := by
  have apart : (place, 0) ≠ (place, 1) := fun same => absurd (congrArg Prod.snd same) Nat.zero_ne_one
  rw [tagged, Function.update_of_ne apart, Function.update_self]

theorem tagged_second (place page : Nat) : tagged ram place page (place, 1) = ~~~tag page :=
  Function.update_self _ _ _

/-! The probe. -/

/-- No page below is written in the page's stead. -/
def First (board : Board) (page : Nat) : Prop :=
  ∀ p, 4 ≤ p → p < page → board.place p ≠ board.place page

/-- What PI_WRITE leaves when it has begun at page `b`. -/
structure Written (board : Board) (m : Machine) (b : Nat) (m' : Machine) : Prop where
  bank : m'.bank = Function.update m.bank 1 4
  ticks : m'.ticks = m.ticks
  first : ∀ p, 4 ≤ p → p ≤ b → board.First p → m'.ram (board.place p, 0) = tag p ∧
    m'.ram (board.place p, 1) = ~~~tag p
  other : ∀ c, (∀ p, 4 ≤ p → p ≤ b → c ≠ (board.place p, 0) ∧ c ≠ (board.place p, 1)) →
    m'.ram c = m.ram c

/-- By induction on the page; what is written last is what the lowest page writes. -/
theorem piWrite_written (board : Board) (m : Machine) (b : Nat) (low : 4 ≤ b) (high : b < 256) :
    Written board m b (board.piWrite b m) := by
  induction b generalizing m with
  | zero => omega
  | succ b ih =>
      rw [piWrite, store_tag high]
      split
      · next more =>
          have rest := ih (m := { m with
            ram := tagged m.ram (board.place (b + 1)) (b + 1)
            bank := Function.update m.bank 1 (b + 1) }) more (by omega)
          refine ⟨rest.bank.trans (Function.update_idem _ _ _), rest.ticks, ?_, ?_⟩
          · intro p four least first
            by_cases last : p = b + 1
            · subst last
              have zero := rest.other (board.place (b + 1), 0) fun p' low' high' =>
                ⟨fun same => first p' low' (by omega) (congrArg Prod.fst same).symm,
                  fun same => absurd (congrArg Prod.snd same) Nat.zero_ne_one⟩
              have one := rest.other (board.place (b + 1), 1) fun p' low' high' =>
                ⟨fun same => absurd (congrArg Prod.snd same) Nat.one_ne_zero,
                  fun same => first p' low' (by omega) (congrArg Prod.fst same).symm⟩
              rw [zero, one]
              exact ⟨tagged_first _ _, tagged_second _ _⟩
            · exact rest.first p four (by omega) first
          · intro c apart
            rw [rest.other c fun p low' high' => apart p low' (by omega)]
            obtain ⟨zero, one⟩ := apart (b + 1) low (Nat.le_refl _)
            exact tagged_other zero one
      · next last =>
          obtain rfl : b = 3 := by omega
          refine ⟨rfl, rfl, ?_, ?_⟩
          · intro p four least first
            obtain rfl : p = 4 := by omega
            exact ⟨tagged_first _ _, tagged_second _ _⟩
          · intro c apart
            obtain ⟨zero, one⟩ := apart 4 low (Nat.le_refl _)
            exact tagged_other zero one

/-- The page's tag is read back from it. -/
def Answers (board : Board) (ram : Ram) (page : Nat) : Prop :=
  board.read ram (page, 0) = tag page ∧ board.read ram (page, 1) = ~~~tag page

theorem load_window (board : Board) (m : Machine) (page off : Nat) (small : off < 2) :
    board.load { m with bank := Function.update m.bank 1 page } (0x4000 + off) =
      board.read m.ram (page, off) := by
  have offset : (0x4000 + off) % 0x4000 = off := by omega
  have number : (0x4000 + off) / 0x4000 = 1 := by omega
  have here : Machine.cell { m with bank := Function.update m.bank 1 page } (0x4000 + off) =
      (page, off) := by
    refine Prod.ext ?_ offset
    change Function.update m.bank 1 page ((0x4000 + off) / 0x4000) = page
    rw [number, Function.update_self]
  rw [load, here]

/-- PI_VERIFY ends at the first page that does not answer, or past them all. -/
theorem piVerify_first (board : Board) (left b : Nat) (all : left + b = 256) (m : Machine) :
    ∃ k page, b ≤ k ∧ k ≤ 256 ∧ board.piVerify left m (tag b) =
        (tag k, { m with bank := Function.update m.bank 1 page }) ∧
      (∀ p, b ≤ p → p < k → board.Answers m.ram p) ∧ (k < 256 → ¬board.Answers m.ram k) := by
  induction left generalizing b m with
  | zero =>
      refine ⟨b, m.bank 1, Nat.le_refl b, by omega, ?_, by omega, by omega⟩
      rw [Function.update_eq_self]
      rfl
  | succ left ih =>
      have small : b < 256 := by omega
      have low := load_window board m b 0 (by omega)
      have high := load_window board m b 1 (by omega)
      rw [piVerify, store_bank1, toNat_tag small, low, high]
      split
      · next wrong =>
          exact ⟨b, b, Nat.le_refl b, by omega, rfl, by omega, fun _ right => wrong right.1.symm⟩
      · next first =>
          split
          · next wrong =>
              exact ⟨b, b, Nat.le_refl b, by omega, rfl, by omega, fun _ right => wrong right.2.symm⟩
          · next second =>
              have here : board.Answers m.ram b :=
                ⟨(Decidable.not_not.mp first).symm, (Decidable.not_not.mp second).symm⟩
              have next : tag b + 1 = tag (b + 1) := (BitVec.ofNat_add b 1).symm
              rw [next]
              split
              · next wrapped =>
                  have last : b = 255 := by
                    have value := congrArg BitVec.toNat wrapped
                    by_contra other
                    rw [toNat_tag (by omega)] at value
                    exact Nat.succ_ne_zero b value
                  subst last
                  refine ⟨256, 255, by omega, by omega, rfl, fun p low high => ?_, by omega⟩
                  obtain rfl : p = 255 := by omega
                  exact here
              · obtain ⟨k, page, low, high, run, answers, fails⟩ := ih (b + 1) (by omega)
                  { m with bank := Function.update m.bank 1 b }
                refine ⟨k, page, by omega, high, ?_, fun p first last => ?_, fails⟩
                · rw [run, Function.update_idem]
                · by_cases equal : p = b
                  · rw [equal]
                    exact here
                  · exact answers p (by omega) last

/-! The map. -/

/-- The bytes that BSR and PSHS write below S. -/
def scratch (s : Nat) : Set Cell := fun c => c.1 = 0 ∧ s - 3 ≤ c.2 ∧ c.2 < s

/-- A page's bit in PAGEMAP. -/
def used (ram : Ram) (l : Layout) (page : Nat) : Bool :=
  (ram (0, l.pagemap + page / 8)).getLsbD (page % 8)

theorem pglShift_eq (n : Nat) (a : Byte) : pglShift n a = a <<< n := by
  induction n generalizing a with
  | zero => exact (BitVec.shiftLeft_zero a).symm
  | succ n ih => rw [pglShift, ih, ← BitVec.shiftLeft_add, Nat.add_comm]

theorem one_bit {j k : Nat} (small : j < 8) : (1#8 <<< k).getLsbD j = decide (j = k) := by
  rw [BitVec.getLsbD_shiftLeft, BitVec.getLsbD_one, Bool.eq_iff_iff]
  simp only [Bool.and_eq_true, Bool.not_eq_true', decide_eq_true_iff, decide_eq_false_iff_not]
  omega

theorem mask_bit (v : Byte) {j : Nat} (k : Nat) (small : j < 8) :
    ((1#8 <<< k) ||| v).getLsbD j = (v.getLsbD j || decide (j = k)) := by
  rw [BitVec.getLsbD_or, one_bit small, Bool.or_comm]

/-- A byte of the map holds eight pages' bits. -/
theorem used_update (ram : Ram) (l : Layout) (page p : Nat) (v : Byte) :
    used (Function.update ram (0, l.pagemap + page / 8) v) l p =
      if p / 8 = page / 8 then v.getLsbD (p % 8) else used ram l p := by
  rw [used]
  split
  · next row => rw [row, Function.update_self]
  · next row =>
      have other : (0, l.pagemap + p / 8) ≠ (0, l.pagemap + page / 8) := by
        intro equal
        have offset : l.pagemap + p / 8 = l.pagemap + page / 8 := congrArg Prod.snd equal
        omega
      rw [Function.update_of_ne other, used]

theorem used_mark (ram : Ram) (l : Layout) (page p : Nat) :
    used (Function.update ram (0, l.pagemap + page / 8)
      (1#8 <<< (page % 8) ||| ram (0, l.pagemap + page / 8))) l p =
      (used ram l p || decide (p = page)) := by
  rw [used_update]
  split
  · next row =>
      have bit : decide (p % 8 = page % 8) = decide (p = page) := by
        rw [decide_eq_decide]
        omega
      rw [mask_bit _ _ (Nat.mod_lt p (by decide)), bit, used, row]
  · next row =>
      rw [decide_eq_false fun equal => row (congrArg (· / 8) equal), Bool.or_false]

/-- S at the return address, below which there is room in bank 0 apart from the variables. -/
structure Scratch (l : Layout) (s : Nat) : Prop where
  low : 3 ≤ s
  high : s ≤ bankSize
  clear : ∀ c, c ∈ scratch s → c ∉ l.cells

/-- What PI_USED leaves. -/
structure Marked (l : Layout) (s : Nat) (ram ram' : Ram) (page : Nat) : Prop where
  used : ∀ p < 256, used ram' l p = (used ram l p || decide (p = page))
  kept : ∀ c, c ∉ scratch s → (c.1 = 0 → c.2 < l.pagemap ∨ l.pagemap + 32 ≤ c.2) → ram' c = ram c

theorem pagemap_cells (l : Layout) {k : Nat} (inside : k < 36) : (0, l.pagemap + k) ∈ l.cells :=
  ⟨rfl, .inr ⟨Nat.le_add_right _ _, by dsimp only; omega⟩⟩

theorem piUsed_marks {l : Layout} {s : Nat} {bank : Nat → Nat} (ticks : List (List Frame))
    (bank0 : bank 0 = 0) (some : 0 < board.pages) (stack : Scratch l s) (ret : Word) {page : Nat}
    (small : page < 256) :
    ∃ ram', board.piUsed ⟨ram, bank, ticks⟩ l s ret (tag page) = ⟨ram', bank, ticks⟩ ∧
      Marked l s ram ram' page := by
  have low := stack.low
  have high := stack.high
  have inBank0 := l.inBank0
  have next : s - 2 + 1 = s - 1 := by omega
  have first : s - 2 < bankSize := by omega
  have second : s - 1 < bankSize := by omega
  have third : s - 3 < bankSize := by omega
  have cell : l.pagemap + page / 8 < bankSize := by omega
  have located : ∃ ram', board.pgLoc ⟨ram, bank, ticks⟩ l s ret (tag page) =
      (l.pagemap + page / 8, 1#8 <<< (page % 8), ⟨ram', bank, ticks⟩) ∧
        ∀ c, c ∉ scratch s → ram' c = ram c := by
    rw [pgLoc, storeWord, next]
    simp only [store_low bank0 some first, store_low bank0 some second, store_low bank0 some third,
      load_low bank0 some third, Function.update_self, tag_row small, tag_column small, pglShift_eq]
    refine ⟨_, rfl, fun c outside => ?_⟩
    have other (a : Nat) (after : s - 3 ≤ a) (before : a < s) : c ≠ (0, a) := by
      rintro rfl
      exact outside ⟨rfl, after, before⟩
    rw [Function.update_of_ne (other (s - 3) (by omega) (by omega)),
      Function.update_of_ne (other (s - 3) (by omega) (by omega)),
      Function.update_of_ne (other (s - 1) (by omega) (by omega)),
      Function.update_of_ne (other (s - 2) (by omega) (by omega))]
  obtain ⟨ram', run, same⟩ := located
  have outside : (0, l.pagemap + page / 8) ∉ scratch s := fun inside =>
    stack.clear _ inside (pagemap_cells l (by omega))
  rw [piUsed, run]
  dsimp only
  rw [load_low bank0 some cell, store_low bank0 some cell]
  refine ⟨_, rfl, fun p less => ?_, fun c notScratch notMap => ?_⟩
  · have sure : (0, l.pagemap + p / 8) ∉ scratch s := fun inside =>
      stack.clear _ inside (pagemap_cells l (by omega))
    rw [used_mark, used, same _ sure, used]
  · rw [Function.update_of_ne, same c notScratch]
    rintro rfl
    have bounds := notMap rfl
    dsimp only at bounds
    omega

/-- PI_MARK marks the pages below 4 and from `n` on. -/
theorem piMark_marks (board : Board) (ram : Ram) {l : Layout} {s : Nat} {bank : Nat → Nat}
    (ticks : List (List Frame)) (bank0 : bank 0 = 0) (some : 0 < board.pages) (stack : Scratch l s) (ret : Word)
    (left b n : Nat) (all : left + b = 256)
    (count : (word (ram (0, l.npages)) (ram (0, l.npages + 1))).toNat = n) :
    ∃ ram', board.piMark l s ret left ⟨ram, bank, ticks⟩ (tag b) = ⟨ram', bank, ticks⟩ ∧
      (∀ p < 256, used ram' l p = (used ram l p || decide (b ≤ p ∧ (p < 4 ∨ n ≤ p)))) ∧
      ∀ c, c ∉ scratch s → (c.1 = 0 → c.2 < l.pagemap ∨ l.pagemap + 32 ≤ c.2) →
        ram' c = ram c := by
  induction left generalizing b ram with
  | zero =>
      refine ⟨ram, rfl, fun p less => ?_, fun c _ _ => rfl⟩
      rw [decide_eq_false (by omega), Bool.or_false]
  | succ left ih =>
      have small : b < 256 := by omega
      have inBank0 := l.inBank0
      have npages : l.npages = l.pagemap + 32 := rfl
      have kept {k : Nat} (inside : k < 2) : (0, l.npages + k) ∉ scratch s := fun cell =>
        stack.clear _ cell (by rw [npages, Nat.add_assoc]; exact pagemap_cells l (by omega))
      have loaded : (board.loadWord ⟨ram, bank, ticks⟩ l.npages).toNat = n := by
        rw [loadWord, load_low bank0 some (by omega), load_low bank0 some (by omega), count]
      obtain ⟨ram₁, run, marks, same⟩ : ∃ ram₁, (if (tag b).toNat < 4 then
            board.piUsed ⟨ram, bank, ticks⟩ l s ret (tag b)
          else if (tag b).toNat < (board.loadWord ⟨ram, bank, ticks⟩ l.npages).toNat then
            ⟨ram, bank, ticks⟩
          else board.piUsed ⟨ram, bank, ticks⟩ l s ret (tag b)) = ⟨ram₁, bank, ticks⟩ ∧
          (∀ p < 256, used ram₁ l p = (used ram l p || decide (p = b ∧ (p < 4 ∨ n ≤ p)))) ∧
          ∀ c, c ∉ scratch s → (c.1 = 0 → c.2 < l.pagemap ∨ l.pagemap + 32 ≤ c.2) →
            ram₁ c = ram c := by
        obtain ⟨ram₁, run, marked⟩ := piUsed_marks ticks bank0 some stack ret small
        rw [toNat_tag small, loaded]
        split
        · next low =>
            refine ⟨ram₁, run, fun p less => ?_, marked.kept⟩
            rw [marked.used p less, decide_eq_decide.mpr]
            omega
        split
        · next below =>
            refine ⟨ram, rfl, fun p less => ?_, fun _ _ _ => rfl⟩
            rw [decide_eq_false (by omega), Bool.or_false]
        · refine ⟨ram₁, run, fun p less => ?_, marked.kept⟩
          rw [marked.used p less, decide_eq_decide.mpr]
          omega
      have next : tag b + 1 = tag (b + 1) := (BitVec.ofNat_add b 1).symm
      rw [piMark, run, next]
      split
      · next wrapped =>
          have last : b = 255 := by
            have value := congrArg BitVec.toNat wrapped
            by_contra other
            rw [toNat_tag (by omega)] at value
            exact Nat.succ_ne_zero b value
          refine ⟨ram₁, rfl, fun p less => ?_, same⟩
          rw [marks p less, decide_eq_decide.mpr]
          omega
      · have first := same (0, l.npages) (kept (k := 0) (by omega)) fun _ => .inr (Nat.le_refl _)
        have second := same (0, l.npages + 1) (kept (by omega)) fun _ => .inr (Nat.le_succ _)
        obtain ⟨ram', rest, later, kept'⟩ := ih ram₁ (b + 1) (by omega)
          (by rw [first, second, count])
        refine ⟨ram', rest, fun p less => ?_, fun c notScratch notMap => ?_⟩
        · rw [later p less, marks p less, Bool.or_assoc, ← Bool.decide_or, decide_eq_decide.mpr]
          omega
        · rw [kept' c notScratch notMap, same c notScratch notMap]

theorem piClr_clears (board : Board) (ram : Ram) {bank : Nat → Nat}
    (ticks : List (List Frame)) (bank0 : bank 0 = 0) (some : 0 < board.pages) (count x : Nat) (low : x + count ≤ bankSize) :
    ∃ ram', board.piClr count x ⟨ram, bank, ticks⟩ = ⟨ram', bank, ticks⟩ ∧
      (∀ k < count, ram' (0, x + k) = 0) ∧
      ∀ c, (c.1 = 0 → c.2 < x ∨ x + count ≤ c.2) → ram' c = ram c := by
  induction count generalizing x ram with
  | zero => exact ⟨ram, rfl, fun k less => absurd less (Nat.not_lt_zero k), fun _ _ => rfl⟩
  | succ count ih =>
      rw [piClr, store_low bank0 some (by omega)]
      obtain ⟨ram', run, zeros, kept⟩ := ih (Function.update ram (0, x) 0) (x + 1) (by omega)
      refine ⟨ram', run, fun k less => ?_, fun c outside => ?_⟩
      · cases k with
        | zero =>
            rw [kept _ fun _ => .inl (Nat.lt_succ_self x)]
            exact Function.update_self _ _ _
        | succ k =>
            have found := zeros k (by omega)
            rwa [Nat.add_right_comm] at found
      · rw [kept c fun page => by have bounds := outside page; omega, Function.update_of_ne]
        rintro rfl
        have bounds := outside rfl
        dsimp only at bounds
        omega

/-! The whole. -/

/-- What is claimed, for `n` pages. -/
structure Counted (l : Layout) (s n : Nat) (m m' : Machine) : Prop where
  npages : (word (m'.ram (0, l.npages)) (m'.ram (0, l.npages + 1))).toNat = n
  nfree : (word (m'.ram (0, l.nfree)) (m'.ram (0, l.nfree + 1))).toNat = n - 4
  used : ∀ p < 256, used m'.ram l p = true ↔ p < 4 ∨ n ≤ p
  kept : ∀ c : Cell, c.1 < 4 → c ∉ scratch s → (c.1 = 0 → c.2 < l.pagemap ∨ l.pagemap + 36 ≤ c.2) →
    m'.ram c = m.ram c
  bank : m'.bank = m.bank

theorem storeWord_low {bank : Nat → Nat} {ticks : List (List Frame)} (bank0 : bank 0 = 0)
    (some : 0 < board.pages) {v : Nat} (low : v + 1 < bankSize) (x : Word) :
    board.storeWord ⟨ram, bank, ticks⟩ v x =
      ⟨setWord ram (0, v) (0, v + 1) x, bank, ticks⟩ := by
  rw [storeWord, store_low bank0 some (by omega), store_low bank0 some low]
  rfl

theorem setWord_var (ram : Ram) (v : Nat) (x : Word) :
    word (setWord ram (0, v) (0, v + 1) x (0, v)) (setWord ram (0, v) (0, v + 1) x (0, v + 1)) =
      x :=
  setWord_word x fun same => absurd (congrArg Prod.snd same) (Nat.ne_of_lt (Nat.lt_succ_self v))

theorem setWord_other {v : Nat} {x : Word} {c : Cell} (outside : c.1 = 0 → c.2 < v ∨ v + 2 ≤ c.2) :
    setWord ram (0, v) (0, v + 1) x c = ram c := by
  rw [setWord, Function.update_of_ne, Function.update_of_ne]
  · rintro rfl
    have bounds := outside rfl
    dsimp only at bounds
    omega
  · rintro rfl
    have bounds := outside rfl
    dsimp only at bounds
    omega

/-- NPAGES, from where PI_VERIFY has ended. -/
theorem toNat_npages {k : Nat} (low : 0 < k) (high : k ≤ 256) :
    (if tag k = 0 then (256 : Word) else word 0 (tag k)).toNat = k := by
  split
  · next zero =>
      have value := congrArg BitVec.toNat zero
      rw [tag, BitVec.toNat_ofNat] at value
      change k % 256 = 0 at value
      change 256 = k
      omega
  · next other =>
      have small : k < 256 := by
        by_contra large
        obtain rfl : k = 256 := by omega
        exact other rfl
      rw [word, BitVec.toNat_append, toNat_tag small]
      exact Nat.zero_or k

/-- The count that the probe has come to is stored, and the map made by it. -/
theorem pageInit_counted {l : Layout} {s : Nat} (ret : Word) (bank0 : m.bank 0 = 0)
    (shadow : (m.ram (0, sbank1)).toNat = m.bank 1) (some : 0 < board.pages)
    (stack : Scratch l s) {probed : Machine} (written : Written board m 255 probed)
    {k page : Nat} (low : 4 ≤ k) (high : k ≤ 256)
    (ran : board.piWrite 255 m = probed) (verified : board.piVerify 252 probed (tag 4) =
      (tag k, { probed with bank := Function.update probed.bank 1 page })) :
    Counted l s k { probed with bank := m.bank } (board.pageInit m l s ret) := by
  have after := l.afterPublic
  have inBank0 := l.inBank0
  have npages : l.npages = l.pagemap + 32 := rfl
  have nfree : l.nfree = l.pagemap + 34 := rfl
  have shadowIs : sbank1 = 0x16 := rfl
  obtain ⟨ram₁, bank₁, ticks₁⟩ := probed
  have bank : bank₁ = Function.update m.bank 1 4 := written.bank
  have zero : Function.update bank₁ 1 page 0 = 0 := by
    rw [Function.update_of_ne (by decide), bank, Function.update_of_ne (by decide), bank0]
  have four : tag 4 = 4 := rfl
  have value := toNat_npages (by omega) high
  generalize stored : (if tag k = 0 then (256 : Word) else word 0 (tag k)) = v at value
  have shadowKept : setWord ram₁ (0, l.npages) (0, l.npages + 1) v (0, sbank1) =
      m.ram (0, sbank1) := by
    rw [setWord_other fun _ => by dsimp only; omega]
    refine written.other _ fun p _ _ => ⟨fun same => ?_, fun same => ?_⟩
    · exact absurd (congrArg Prod.snd same) (by rw [shadowIs]; dsimp only; decide)
    · exact absurd (congrArg Prod.snd same) (by rw [shadowIs]; dsimp only; decide)
  have restored : Function.update (Function.update bank₁ 1 page) 1
      (setWord ram₁ (0, l.npages) (0, l.npages + 1) v (0, sbank1)).toNat = m.bank := by
    rw [shadowKept, shadow, bank, Function.update_idem, Function.update_idem,
      Function.update_eq_self]
  obtain ⟨ram₂, cleared, zeros, kept₂⟩ := piClr_clears board
    (setWord ram₁ (0, l.npages) (0, l.npages + 1) v) ticks₁ bank0 some 32 l.pagemap (by omega)
  have sure {j : Nat} (inside : j < 36) : (0, l.pagemap + j) ∉ scratch s := fun cell =>
    stack.clear _ cell (pagemap_cells l inside)
  have npages₂ : (word (ram₂ (0, l.npages)) (ram₂ (0, l.npages + 1))) = v := by
    rw [kept₂ _ fun _ => by dsimp only; omega, kept₂ _ fun _ => by dsimp only; omega, setWord_var]
  obtain ⟨ram₃, marked, marks, kept₃⟩ := piMark_marks board ram₂ ticks₁ bank0 some
    stack ret 256 0 k rfl (by rw [npages₂, value])
  have npages₃ : word (ram₃ (0, l.npages)) (ram₃ (0, l.npages + 1)) = v := by
    rw [kept₃ (0, l.npages) (sure (j := 32) (by omega)) fun _ => by dsimp only; omega,
      kept₃ (0, l.npages + 1) (sure (j := 33) (by omega)) fun _ => by dsimp only; omega, npages₂]
  have final : board.pageInit m l s ret =
      ⟨setWord ram₃ (0, l.nfree) (0, l.nfree + 1) (v - 4), m.bank, ticks₁⟩ := by
    rw [pageInit, ran, ← four, verified]
    dsimp only
    rw [stored, storeWord_low zero some (by omega), store_bank1,
      load_low zero some (by rw [shadowIs]; decide)]
    dsimp only
    have zero₂ : (0 : Byte) = tag 0 := rfl
    rw [restored, cleared, zero₂, marked, loadWord, load_low bank0 some (by omega),
      load_low bank0 some (by omega), npages₃, storeWord_low bank0 some (by omega)]
  rw [final]
  refine ⟨?_, ?_, fun p less => ?_, fun c inside notScratch outside => ?_, rfl⟩
  · dsimp only
    rw [setWord_other fun _ => by dsimp only; omega, setWord_other fun _ => by dsimp only; omega,
      npages₃, value]
  · dsimp only
    rw [setWord_var, BitVec.toNat_sub_of_le, value]
    · rfl
    · rw [BitVec.le_def, value]
      exact low
  · have clear : used ram₂ l p = false := by
      rw [used, zeros (p / 8) (by omega)]
      exact BitVec.getLsbD_zero
    have map : used (setWord ram₃ (0, l.nfree) (0, l.nfree + 1) (v - 4)) l p = used ram₃ l p := by
      rw [used, setWord_other fun _ => by dsimp only; omega, used]
    dsimp only
    rw [map, marks p less, clear, Bool.false_or, decide_eq_true_iff]
    omega
  · dsimp only
    rw [setWord_other fun page => by have bounds := outside page; omega,
      kept₃ c notScratch fun page => by have bounds := outside page; omega,
      kept₂ c fun page => by have bounds := outside page; omega,
      setWord_other fun page => by have bounds := outside page; omega]

/-- Every page is itself: those that are not installed float, or there are none. -/
def Plain (board : Board) : Prop := board.pages = 256 ∨ ∃ answer, board.absent = .floats answer

theorem Plain.place {p : Nat} (plain : board.Plain) (less : p < 256) : board.place p = p := by
  rw [Board.place]
  split
  · rfl
  · next absent =>
      rcases plain with all | ⟨answer, floats⟩
      · omega
      · rw [floats]

section Probe

variable {probed : Machine} (written : Written board m 255 probed)

include written

theorem Written.answers {p : Nat} (low : 4 ≤ p) (installed : p < board.pages) (high : p < 256) :
    board.Answers probed.ram p := by
  have here := place_installed installed
  have tags := written.first p low (by omega) fun p' _ less => by
    rw [place_installed (by omega), here]
    omega
  rw [here] at tags
  rw [Answers, read, read, if_pos installed, if_pos installed]
  exact tags

/-- The first page that is not installed does not answer if it floats ... -/
theorem Written.floats (sized : board.Sized) {answer : Cell → Byte → Byte}
    (floats : board.absent = .floats answer) (some : board.pages < 256) :
    ¬board.Answers probed.ram board.pages := by
  have plain : board.Plain := .inr ⟨answer, floats⟩
  obtain ⟨four, -, wrong⟩ := sized
  rw [floats] at wrong
  have tags := written.first board.pages four (by omega) fun p' _ less => by
    rw [plain.place (by omega), plain.place some]
    omega
  rw [plain.place some] at tags
  rw [Answers, read, read, if_neg (Nat.lt_irrefl _), if_neg (Nat.lt_irrefl _), floats]
  dsimp only
  rw [tags.1, tags.2]
  exact wrong _ (Nat.le_refl _) some

/-- ... and does if it aliases page 0, which no page below it does. -/
theorem Written.aliases (four : 4 ≤ board.pages) (aliases : board.absent = .aliases)
    (some : board.pages < 256) : board.Answers probed.ram board.pages := by
  have here : board.place board.pages = 0 := by
    rw [place, if_neg (Nat.lt_irrefl _), aliases]
    exact Nat.mod_self _
  have tags := written.first board.pages four (by omega) fun p' low less => by
    rw [place_installed less, here]
    omega
  rw [here] at tags
  rw [Answers, read, read, if_neg (Nat.lt_irrefl _), if_neg (Nat.lt_irrefl _), aliases]
  dsimp only
  rw [Nat.mod_self]
  exact tags

end Probe

/-- The count is right just where the pages that are not installed, if there are any, do not
alias the RAM. -/
theorem pageInit_finds {l : Layout} {s : Nat} (ret : Word) (sized : board.Sized)
    (bank0 : m.bank 0 = 0) (shadow : (m.ram (0, sbank1)).toNat = m.bank 1) (stack : Scratch l s) :
    ∃ k probed, board.pages ≤ k ∧ k ≤ 256 ∧ (k = board.pages ↔ board.Plain) ∧
      Written board m 255 probed ∧
      Counted l s k { probed with bank := m.bank } (board.pageInit m l s ret) := by
  have four := sized.1
  have most := sized.2.1
  have written := piWrite_written board m 255 (by decide) (by decide)
  generalize ran : board.piWrite 255 m = probed at written
  obtain ⟨k, page, low, high, verified, answers, fails⟩ := piVerify_first board 252 4 rfl
    probed
  have least : board.pages ≤ k := by
    by_contra fewer
    exact fails (by omega) (written.answers low (by omega) (by omega))
  refine ⟨k, probed, least, high, ⟨fun same => ?_, fun plain => ?_⟩, written,
    pageInit_counted ret bank0 shadow (by omega) stack written low high ran verified⟩
  · by_contra other
    rw [Plain, not_or] at other
    have some : board.pages < 256 := Nat.lt_of_le_of_ne most other.1
    cases kind : board.absent with
    | floats answer => exact other.2 ⟨answer, kind⟩
    | aliases =>
        rw [same] at fails
        exact fails some (written.aliases four kind some)
  · refine Nat.le_antisymm ?_ least
    by_contra more
    rcases plain with all | ⟨answer, floats⟩
    · omega
    · exact written.floats sized floats (by omega) (answers board.pages four (by omega))

theorem Counted.count {l : Layout} {s n k : Nat} {m m₁ m' : Machine} (first : Counted l s n m m')
    (second : Counted l s k m₁ m') : n = k := first.npages.symm.trans second.npages

/-- The probe leaves the first four pages alone if no page aliases them. -/
theorem Counted.unprobed {l : Layout} {s n : Nat} {probed m' : Machine} (plain : board.Plain)
    (written : Written board m 255 probed) (counted : Counted l s n { probed with bank := m.bank } m') :
    Counted l s n m m' := by
  refine ⟨counted.npages, counted.nfree, counted.used, fun c inside notScratch outside => ?_,
    counted.bank⟩
  rw [counted.kept c inside notScratch outside]
  refine written.other c fun p low high => ?_
  rw [plain.place (by omega)]
  exact ⟨fun equal => by rw [equal] at inside; exact absurd inside (Nat.not_lt.mpr low),
    fun equal => by rw [equal] at inside; exact absurd inside (Nat.not_lt.mpr low)⟩

theorem pageInit_iff (board : Board) (l : Layout) (m : Machine) (s : Nat) (ret : Word)
    (sized : board.Sized) (bank0 : m.bank 0 = 0)
    (shadow : (m.ram (0, sbank1)).toNat = m.bank 1) (stack : Scratch l s) :
    Counted l s board.pages m (board.pageInit m l s ret) ↔ board.Plain := by
  obtain ⟨k, probed, -, -, right, written, counted⟩ := pageInit_finds ret sized bank0 shadow stack
  constructor
  · exact fun claimed => right.mp (counted.count claimed)
  · intro plain
    rw [← right.mpr plain]
    exact counted.unprobed plain written

/-- Eight pages, the rest of them floating or aliases. -/
def eight (absent : Absent) : Board := ⟨8, absent⟩

/-- As V_RESET leaves it. -/
def reset : Machine := ⟨fun c => if c = (0, sbank1) then 1 else 0, id, []⟩

theorem scratch_stack : Scratch lowLayout 0x200 := by
  refine ⟨by decide, by decide, fun c inside cell => ?_⟩
  obtain ⟨-, low, -⟩ := inside
  rcases cell.2 with ⟨-, below⟩ | ⟨-, below⟩
  · change c.2 < 0x19 at below
    change 0x1FD ≤ c.2 at low
    omega
  · change c.2 < 0xEC at below
    change 0x1FD ≤ c.2 at low
    omega

theorem reset_shadow : (reset.ram (0, sbank1)).toNat = reset.bank 1 := rfl

/-- No page's tag is two bytes of $FF. -/
theorem eight_floats_sized : (eight (.floats fun _ _ => 0xFF)).Sized := by
  refine ⟨by decide, by decide, ?_⟩
  rintro p - - ⟨first, second⟩
  have tagIs : (0xFF : Byte) = tag p := first
  have complement : (0xFF : Byte) = ~~~tag p := second
  rw [← tagIs] at complement
  exact absurd complement (by decide)

theorem eight_aliases_sized : (eight .aliases).Sized :=
  ⟨by decide, by decide, List.mem_cons_of_mem _ List.mem_cons_self⟩

theorem pageInit_iff_floats :
    (eight (.floats fun _ _ => 0xFF)).Sized ∧
      (Counted lowLayout 0x200 8 reset
        ((eight (.floats fun _ _ => 0xFF)).pageInit reset lowLayout 0x200 0) ↔
        (eight (.floats fun _ _ => 0xFF)).Plain) :=
  ⟨eight_floats_sized, pageInit_iff (eight (.floats fun _ _ => 0xFF)) _ reset 0x200 0
    eight_floats_sized rfl reset_shadow scratch_stack⟩

theorem not_plain_aliases : ¬(eight .aliases).Plain := by
  rintro (all | ⟨answer, floats⟩)
  · exact absurd all (by decide)
  · cases floats

/-- Eight pages that are aliased are miscounted. -/
theorem pageInit_aliases : (eight .aliases).Sized ∧
    ¬Counted lowLayout 0x200 8 reset ((eight .aliases).pageInit reset lowLayout 0x200 0) := by
  refine ⟨eight_aliases_sized, fun claimed => not_plain_aliases ?_⟩
  obtain ⟨k, probed, -, -, right, -, counted⟩ := pageInit_finds 0 eight_aliases_sized rfl reset_shadow scratch_stack
  exact right.mp (counted.count claimed)

end Board

end Pugputer.Banks

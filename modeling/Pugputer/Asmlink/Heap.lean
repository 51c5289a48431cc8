import Mathlib.Data.Finset.Basic
import Mathlib.Data.List.Nodup
import Mathlib.Data.List.Pairwise
import Pugputer.Banks.PageAlloc

namespace Pugputer.Asmlink

/-! The heap of ASM and LINK: blocks in RAM pages that are mapped in bank 3 one at a time. -/

def WINDOW : ℕ := 0xC000

def WINEND : ℕ := 0xF000

def MAXPAGES : ℕ := 48

/-- A far pointer, A and X, with the size that was asked for. -/
structure Block where
  page : ℕ
  addr : ℕ
  size : ℕ
deriving DecidableEq

/-- The heap's variables, the page in bank 3, and the pages that the BIOS has handed out.  NPAGES
is the length of PAGES. -/
structure Heap where
  PAGES : List ℕ
  HEAPPG : ℕ
  HEAPPTR : ℕ
  MAPPED : ℕ
  bank3 : ℕ
  held : Finset ℕ
  ram : ℕ → ℕ → Byte

/-- B_PAGE_ALLOC, of `installed` pages: the lowest that is free. -/
def pageAlloc (installed : ℕ) (held : Finset ℕ) : Option ℕ :=
  (List.range installed).find? fun page => 4 ≤ page && page ∉ held

namespace Heap

variable (h : Heap)

def heapinit : Heap := { h with PAGES := [], HEAPPG := 0, MAPPED := 0 }

/-- The page with an index; 0 is for the program's own. -/
def pageOf (A : ℕ) : ℕ := if A = 0 then 3 else h.PAGES.getD (A - 1) 0

def mappg (A : ℕ) : Heap :=
  if A = h.MAPPED then h else { h with MAPPED := A, bank3 := h.pageOf A }

/-- HA_NEW; `none` for HA_FULL. -/
def haNew (installed : ℕ) : Option Heap :=
  if MAXPAGES ≤ h.PAGES.length then none
  else (pageAlloc installed h.held).map fun page =>
    { h with
      PAGES := h.PAGES ++ [page]
      HEAPPG := h.PAGES.length + 1
      HEAPPTR := WINDOW
      held := insert page h.held }

/-- HA_FITS. -/
def haFits (size : ℕ) : Block × Heap :=
  ({ page := h.HEAPPG, addr := h.HEAPPTR, size },
    { h with HEAPPTR := (h.HEAPPTR + size) % 65536 }.mappg h.HEAPPG)

def halloc (installed size : ℕ) : Option (Block × Heap) :=
  if h.HEAPPG ≠ 0 ∧ h.HEAPPTR + size ≤ WINEND then some (h.haFits size)
  else (h.haNew installed).map (·.haFits size)

/-- `none` for a null pointer. -/
def farmap (page addr : ℕ) : Option ℕ × Heap :=
  if page = 0 then (none, h) else (some addr, h.mappg page)

/-- HD_LOOP, from the last page on. -/
def hdLoop (held : Finset ℕ) : List ℕ → Finset ℕ
  | [] => held
  | page :: pages => hdLoop (held.erase page) pages

def heapdone : Heap :=
  { h.mappg 0 with PAGES := [], held := hdLoop h.held h.PAGES.reverse }

/-- In the window. -/
def load (X : ℕ) : Byte := h.ram h.bank3 X

def store (X : ℕ) (A : Byte) : Heap :=
  { h with ram := fun page addr => if page = h.bank3 ∧ addr = X then A else h.ram page addr }

end Heap

/-- The byte that was stored last at an offset in a block. -/
def stored? (log : List (Block × ℕ × Byte)) (b : Block) (i : ℕ) : Option Byte :=
  (log.find? fun e => e.1 = b ∧ e.2.1 = i).map (·.2.2)

/-- What a program does with the heap, once it has begun with bank 3 as its own: the blocks that it
has got, and what it has stored in them, the newest first. -/
inductive Reached (installed : ℕ) (start : Heap) :
    Heap → List Block → List (Block × ℕ × Byte) → Prop
  | heapinit : Reached installed start start.heapinit [] []
  | halloc {h h' : Heap} {blocks log size b} (before : Reached installed start h blocks log)
      (fits : size ≤ WINEND - WINDOW) (got : h.halloc installed size = some (b, h')) :
      Reached installed start h' (b :: blocks) log
  | farmap {h : Heap} {blocks log b} (before : Reached installed start h blocks log)
      (there : b ∈ blocks) : Reached installed start (h.farmap b.page b.addr).2 blocks log
  | mappg {h : Heap} {blocks log} (before : Reached installed start h blocks log) :
      Reached installed start (h.mappg 0) blocks log
  | store {h : Heap} {blocks log b i} (before : Reached installed start h blocks log)
      (there : b ∈ blocks) (inside : i < b.size) (mapped : h.MAPPED = b.page) (A : Byte) :
      Reached installed start (h.store (b.addr + i) A) blocks ((b, i, A) :: log)

/-- Two blocks have no byte in common. -/
def Apart (b c : Block) : Prop :=
  b.page = c.page → b.addr + b.size ≤ c.addr ∨ c.addr + c.size ≤ b.addr

instance : Std.Symm Apart := ⟨fun _ _ apart same => (apart same.symm).symm⟩

/-- A block is in the window, in one of the pages, and below what is free there. -/
structure Block.Within (h : Heap) (b : Block) : Prop where
  first : 0 < b.page
  last : b.page ≤ h.PAGES.length
  above : WINDOW ≤ b.addr
  below : b.addr + b.size ≤ WINEND
  used : b.page = h.HEAPPG → b.addr + b.size ≤ h.HEAPPTR

/-- The pages, whatever is in them. -/
structure Heap.Taken (installed : ℕ) (start : Finset ℕ) (h : Heap) : Prop where
  nodup : h.PAGES.Nodup
  page : ∀ p ∈ h.PAGES, 4 ≤ p ∧ p < installed ∧ p ∉ start
  held : ∀ p, p ∈ h.held ↔ p ∈ start ∨ p ∈ h.PAGES
  current : h.HEAPPG = h.PAGES.length
  low : h.HEAPPG ≠ 0 → WINDOW ≤ h.HEAPPTR
  high : h.HEAPPG ≠ 0 → h.HEAPPTR ≤ WINEND
  mapped : h.MAPPED ≤ h.PAGES.length
  bank3 : h.bank3 = h.pageOf h.MAPPED

structure Heap.Inv (installed : ℕ) (start : Finset ℕ) (h : Heap) (blocks : List Block)
    (log : List (Block × ℕ × Byte)) : Prop extends Heap.Taken installed start h where
  within : ∀ b ∈ blocks, b.Within h
  apart : blocks.Pairwise Apart
  logged : ∀ e ∈ log, e.1 ∈ blocks ∧ e.2.1 < e.1.size
  said : ∀ b i A, stored? log b i = some A → h.ram (h.pageOf b.page) (b.addr + i) = A

variable {installed : ℕ} {start : Finset ℕ} {h h' : Heap} {blocks : List Block}
  {log : List (Block × ℕ × Byte)} {b c : Block} {i A size page : ℕ}

theorem pageAlloc_some (found : pageAlloc installed start = some page) :
    4 ≤ page ∧ page < installed ∧ page ∉ start := by
  have free := List.find?_some found
  rw [Bool.and_eq_true, decide_eq_true_eq, decide_eq_true_eq] at free
  exact ⟨free.1, List.mem_range.mp (List.mem_of_find?_eq_some found), free.2⟩

theorem pageAlloc_none (none : pageAlloc installed start = none) :
    ∀ p, 4 ≤ p → p < installed → p ∈ start := by
  intro p four small
  have taken := List.find?_eq_none.mp none p (List.mem_range.mpr small)
  rw [Bool.and_eq_true, decide_eq_true_eq, decide_eq_true_eq, not_and, not_not] at taken
  exact taken four

/-- B_PAGE_ALLOC's own map of the pages has the same page as the lowest. -/
theorem pageAlloc_least {l : Banks.Layout} {ram : Banks.Ram} (pages : Banks.Pages l installed start ram)
    (page : ℕ) : pageAlloc installed start = some page ↔
      IsLeast (fun p => p ∈ Banks.freePages ram l) page := by
  have free (p : ℕ) : (decide (4 ≤ p) && decide (p ∉ start)) = true ∧ p ∈ List.range installed ↔
      p ∈ Banks.freePages ram l := by
    rw [pages.freePages_eq, Finset.mem_sdiff, Finset.mem_Ico, Bool.and_eq_true, decide_eq_true_eq,
      decide_eq_true_eq, List.mem_range]
    tauto
  rw [pageAlloc, List.find?_range_eq_some]
  constructor
  · rintro ⟨fits, inside, lower⟩
    refine ⟨(free page).mp ⟨fits, inside⟩, fun p other => ?_⟩
    by_contra less
    have taken := lower p (Nat.not_le.mp less)
    rw [((free p).mpr other).1] at taken
    cases taken
  · rintro ⟨inside, least⟩
    obtain ⟨fits, small⟩ := (free page).mpr inside
    refine ⟨fits, small, fun p less => ?_⟩
    rw [Bool.not_eq_true', Bool.eq_false_iff]
    intro fits'
    have below : p ∈ List.range installed :=
      List.mem_range.mpr (Nat.lt_trans less (List.mem_range.mp small))
    exact Nat.not_le.mpr less (least ((free p).mp ⟨fits', below⟩))

namespace Heap

theorem mappg_fields (h : Heap) (A : ℕ) :
    (h.mappg A).PAGES = h.PAGES ∧ (h.mappg A).HEAPPG = h.HEAPPG ∧
      (h.mappg A).HEAPPTR = h.HEAPPTR ∧ (h.mappg A).held = h.held ∧ (h.mappg A).ram = h.ram := by
  rw [mappg]
  split <;> exact ⟨rfl, rfl, rfl, rfl, rfl⟩

theorem mappg_pageOf (h : Heap) (A B : ℕ) : (h.mappg A).pageOf B = h.pageOf B := by
  rw [pageOf, pageOf, (mappg_fields h A).1]

theorem mappg_mapped (h : Heap) (A : ℕ) : (h.mappg A).MAPPED = A := by
  rw [mappg]
  split
  · next same => exact same.symm
  · rfl

theorem Taken.mappg (taken : h.Taken installed start) (index : A ≤ h.PAGES.length) :
    (h.mappg A).Taken installed start := by
  obtain ⟨pages, current, ptr, held, -⟩ := mappg_fields h A
  refine ⟨pages ▸ taken.nodup, pages ▸ taken.page, ?_, by rw [current, pages, taken.current],
    by rw [current, ptr]; exact taken.low, by rw [current, ptr]; exact taken.high,
    by rw [mappg_mapped, pages]; exact index, ?_⟩
  · rw [pages, held]
    exact taken.held
  · rw [mappg_pageOf, mappg_mapped, Heap.mappg]
    split
    · next same => rw [same, taken.bank3]
    · rfl

/-- A page more, or enough room in the one there is. -/
structure Ready (installed : ℕ) (start : Finset ℕ) (h : Heap) (size : ℕ) (h' : Heap) : Prop
    extends h'.Taken installed start where
  some : h'.HEAPPG ≠ 0
  room : h'.HEAPPTR + size ≤ WINEND
  pages : h.PAGES <+: h'.PAGES
  apart : ∀ b : Block, b.Within h → b.page = h'.HEAPPG → b.addr + b.size ≤ h'.HEAPPTR
  ram : h'.ram = h.ram

theorem pageOf_longer {h h' : Heap} (pages : h.PAGES <+: h'.PAGES) {A : ℕ} (index : A ≤ h.PAGES.length) :
    h'.pageOf A = h.pageOf A := by
  obtain ⟨more, more_eq⟩ := pages
  rw [pageOf, pageOf]
  split
  · rfl
  · next nonzero =>
      rw [← more_eq, List.getD_eq_getElem?_getD, List.getElem?_append_left (by omega),
        List.getD_eq_getElem?_getD]

theorem Taken.haNew (taken : h.Taken installed start) (fits : size ≤ WINEND - WINDOW)
    (new : h.haNew installed = some h') : Ready installed start h size h' := by
  rw [Heap.haNew] at new
  split at new
  · cases new
  obtain ⟨page, found, rfl⟩ := Option.map_eq_some_iff.mp new
  obtain ⟨four, small, free⟩ := pageAlloc_some found
  have fresh : page ∉ start ∧ page ∉ h.PAGES := not_or.mp (mt (taken.held page).mpr free)
  have pages : h.PAGES <+: h.PAGES ++ [page] := List.prefix_append _ _
  have window : WINDOW ≤ WINEND := by decide
  refine ⟨⟨?_, ?_, ?_, ?_, fun _ => Nat.le_refl _, fun _ => window, ?_, ?_⟩, Nat.succ_ne_zero _, ?_,
    pages, fun b within same => ?_, rfl⟩
  · exact List.nodup_append.mpr ⟨taken.nodup, List.nodup_singleton page, fun p inside q last => by
      rintro rfl
      exact fresh.2 (List.mem_singleton.mp last ▸ inside)⟩
  · intro p inside
    rcases List.mem_append.mp inside with inside | last
    · exact taken.page p inside
    · rw [List.mem_singleton.mp last]
      exact ⟨four, small, fresh.1⟩
  · intro p
    rw [Finset.mem_insert, taken.held, List.mem_append, List.mem_singleton]
    tauto
  · dsimp only
    rw [List.length_append, List.length_singleton]
  · exact Nat.le_trans taken.mapped pages.length_le
  · rw [pageOf_longer pages taken.mapped]
    exact taken.bank3
  · dsimp only
    omega
  · have last := within.last
    dsimp only at same
    omega

theorem Taken.enough (taken : h.Taken installed start) (some : h.HEAPPG ≠ 0)
    (room : h.HEAPPTR + size ≤ WINEND) : Ready installed start h size h :=
  ⟨taken, some, room, List.prefix_refl _, fun _ within => within.used, rfl⟩

/-- HALLOC gets ready and takes the block, or there is no page. -/
theorem halloc_ready (taken : h.Taken installed start) (fits : size ≤ WINEND - WINDOW)
    {b : Block} {h' : Heap} (got : h.halloc installed size = some (b, h')) :
    ∃ h₁, Ready installed start h size h₁ ∧ h₁.haFits size = (b, h') := by
  rw [halloc] at got
  split at got
  · next enough => exact ⟨h, taken.enough enough.1 enough.2, Option.some.inj got⟩
  · obtain ⟨h₁, new, took⟩ := Option.map_eq_some_iff.mp got
    exact ⟨h₁, taken.haNew fits new, took⟩

theorem halloc_none (full : h.halloc installed size = none) :
    MAXPAGES ≤ h.PAGES.length ∨ ∀ p, 4 ≤ p → p < installed → p ∈ h.held := by
  rw [halloc] at full
  split at full
  · cases full
  have full := Option.map_eq_none_iff.mp full
  rw [haNew] at full
  split at full
  · next most => exact .inl most
  · exact .inr (pageAlloc_none (Option.map_eq_none_iff.mp full))

theorem Inv.halloc (inv : h.Inv installed start blocks log) (fits : size ≤ WINEND - WINDOW)
    (got : h.halloc installed size = some (b, h')) : h'.Inv installed start (b :: blocks) log := by
  obtain ⟨h₁, ready, took⟩ := halloc_ready inv.toTaken fits got
  obtain ⟨rfl, rfl⟩ := Prod.mk.inj took
  have low := ready.low ready.some
  have room := ready.room
  have current := ready.current
  have window : WINEND < 65536 := by decide
  have wrapped : (h₁.HEAPPTR + size) % 65536 = h₁.HEAPPTR + size := Nat.mod_eq_of_lt (by omega)
  have longer := ready.pages.length_le
  obtain ⟨pages, group, ptr, -, ram⟩ :=
    mappg_fields { h₁ with HEAPPTR := (h₁.HEAPPTR + size) % 65536 } h₁.HEAPPG
  have taken : Taken installed start { h₁ with HEAPPTR := (h₁.HEAPPTR + size) % 65536 } :=
    ⟨ready.nodup, ready.page, ready.held, ready.current,
      fun _ => by dsimp only; omega, fun _ => by dsimp only; omega, ready.mapped, ready.bank3⟩
  refine ⟨taken.mappg (Nat.le_of_eq ready.current), fun c inside => ?_, ?_, fun e inside => ?_,
    fun c i A last => ?_⟩
  · rcases List.mem_cons.mp inside with rfl | inside
    · refine ⟨Nat.pos_of_ne_zero ready.some, by rw [pages]; exact Nat.le_of_eq ready.current, low, room,
        fun _ => ?_⟩
      rw [ptr]
      exact Nat.le_of_eq wrapped.symm
    · have within := inv.within c inside
      refine ⟨within.first, by rw [pages]; exact Nat.le_trans within.last longer, within.above,
        within.below, fun same => ?_⟩
      rw [group] at same
      rw [ptr]
      have used := ready.apart c within same
      dsimp only
      omega
  · refine List.pairwise_cons.mpr ⟨fun c inside same => .inr ?_, inv.apart⟩
    exact ready.apart c (inv.within c inside) same.symm
  · exact ⟨List.mem_cons_of_mem _ (inv.logged e inside).1, (inv.logged e inside).2⟩
  · have said := inv.said c i A last
    obtain ⟨e, found, rfl⟩ := Option.map_eq_some_iff.mp last
    have there := inv.logged e (List.mem_of_find?_eq_some found)
    have key := List.find?_some found
    rw [decide_eq_true_eq] at key
    have index := (inv.within _ there.1).last
    rw [key.1] at index
    rw [ram, mappg_pageOf]
    change h₁.ram (h₁.pageOf c.page) (c.addr + i) = _
    rw [ready.ram, pageOf_longer ready.pages index]
    exact said

theorem Inv.mappg (inv : h.Inv installed start blocks log) (index : A ≤ h.PAGES.length) :
    (h.mappg A).Inv installed start blocks log := by
  obtain ⟨pages, group, ptr, -, ram⟩ := mappg_fields h A
  refine ⟨inv.toTaken.mappg index, fun b inside => ?_, inv.apart, inv.logged, fun b i A last => ?_⟩
  · obtain ⟨first, last, above, below, used⟩ := inv.within b inside
    exact ⟨first, by rw [pages]; exact last, above, below, by rw [group, ptr]; exact used⟩
  · rw [ram, mappg_pageOf]
    exact inv.said b i A last

theorem pageOf_inj (taken : h.Taken installed start) {A B : ℕ} (firstA : 0 < A) (firstB : 0 < B)
    (lastA : A ≤ h.PAGES.length) (lastB : B ≤ h.PAGES.length) (same : h.pageOf A = h.pageOf B) :
    A = B := by
  rw [pageOf, pageOf, if_neg (by omega), if_neg (by omega), List.getD_eq_getElem?_getD,
    List.getD_eq_getElem?_getD, List.getElem?_eq_getElem (by omega : A - 1 < h.PAGES.length),
    List.getElem?_eq_getElem (by omega : B - 1 < h.PAGES.length)] at same
  change h.PAGES[A - 1] = h.PAGES[B - 1] at same
  have index := (List.Nodup.getElem_inj_iff taken.nodup).mp same
  omega

theorem pageOf_mem {A : ℕ} (first : 0 < A) (last : A ≤ h.PAGES.length) : h.pageOf A ∈ h.PAGES := by
  rw [pageOf, if_neg (by omega), List.getD_eq_getElem?_getD,
    List.getElem?_eq_getElem (by omega : A - 1 < h.PAGES.length)]
  exact List.getElem_mem _

/-- A byte stored in a block is in no other place of a block. -/
theorem Inv.store (inv : h.Inv installed start blocks log) (there : b ∈ blocks) (inside : i < b.size)
    (mapped : h.MAPPED = b.page) (A : Byte) :
    (h.store (b.addr + i) A).Inv installed start blocks ((b, i, A) :: log) := by
  have page : h.bank3 = h.pageOf b.page := by rw [inv.bank3, mapped]
  refine ⟨⟨inv.nodup, inv.page, inv.held, inv.current, inv.low, inv.high, inv.mapped, inv.bank3⟩,
    fun c inside => ?_, inv.apart, fun e newest => ?_, fun c j B last => ?_⟩
  · obtain ⟨first, last, above, below, used⟩ := inv.within c inside
    exact ⟨first, last, above, below, used⟩
  · rcases List.mem_cons.mp newest with rfl | older
    · exact ⟨there, inside⟩
    · exact inv.logged e older
  · change (if h.pageOf c.page = h.bank3 ∧ c.addr + j = b.addr + i then A
      else h.ram (h.pageOf c.page) (c.addr + j)) = B
    rw [stored?, List.find?_cons] at last
    by_cases same : b = c ∧ i = j
    · obtain ⟨rfl, rfl⟩ := same
      rw [decide_eq_true ⟨rfl, rfl⟩] at last
      rw [if_pos ⟨page.symm, rfl⟩]
      exact Option.some.inj last
    · rw [decide_eq_false same] at last
      obtain ⟨e, found, rfl⟩ := Option.map_eq_some_iff.mp last
      have older := inv.logged e (List.mem_of_find?_eq_some found)
      have key := List.find?_some found
      rw [decide_eq_true_eq] at key
      rw [key.1, key.2] at older
      rw [if_neg, inv.said c j e.2.2 last]
      rintro ⟨pages, addrs⟩
      have withinB := inv.within b there
      have withinC := inv.within c older.1
      have one : b.page = c.page := pageOf_inj inv.toTaken withinB.first withinC.first
        withinB.last withinC.last (page.symm.trans pages.symm)
      refine same ?_
      have equal : b = c := by
        by_contra different
        have disjoint := inv.apart.forall there older.1 different one
        omega
      subst equal
      exact ⟨rfl, by omega⟩

theorem hdLoop_spec (pages : List ℕ) (held : Finset ℕ) (p : ℕ) :
    p ∈ hdLoop held pages ↔ p ∈ held ∧ p ∉ pages := by
  induction pages generalizing held with
  | nil => exact ⟨fun inside => ⟨inside, List.not_mem_nil⟩, And.left⟩
  | cons page pages ih =>
      rw [hdLoop, ih, Finset.mem_erase, List.mem_cons, not_or]
      tauto

/-- Bank 3 has its own page again, and the BIOS the pages that were taken. -/
theorem Taken.heapdone (taken : h.Taken installed start) :
    h.heapdone.bank3 = 3 ∧ h.heapdone.held = start := by
  constructor
  · have own := (taken.mappg (Nat.zero_le _)).bank3
    rw [mappg_mapped] at own
    exact own
  · ext p
    rw [Heap.heapdone, hdLoop_spec, taken.held, List.mem_reverse]
    constructor
    · rintro ⟨early | late, none⟩
      · exact early
      · exact absurd late none
    · exact fun early => ⟨.inl early, fun late => (taken.page p late).2.2 early⟩

end Heap

theorem Reached.inv {begin : Heap} (own : begin.bank3 = 3)
    (reached : Reached installed begin h blocks log) : h.Inv installed begin.held blocks log := by
  induction reached with
  | heapinit =>
      exact { nodup := List.nodup_nil
              page := by rintro p ⟨⟩
              held := fun p => ⟨.inl, fun taken => taken.elim id nofun⟩
              current := rfl
              low := fun some => absurd rfl some
              high := fun some => absurd rfl some
              mapped := Nat.le_refl 0
              bank3 := own
              within := by rintro b ⟨⟩
              apart := .nil
              logged := by rintro e ⟨⟩
              said := by rintro b i A ⟨⟩ }
  | halloc before fits got ih => exact ih.halloc fits got
  | @farmap h blocks log b before there ih =>
      have within := ih.within b there
      rw [Heap.farmap, if_neg (Nat.ne_of_gt within.first)]
      exact ih.mappg within.last
  | mappg before ih => exact ih.mappg (Nat.zero_le _)
  | store before there inside mapped A ih => exact ih.store there inside mapped A

/-- The heap's promise, whatever has been done with it. -/
structure Heap.Sound (installed : ℕ) (h begin : Heap) (blocks : List Block)
    (log : List (Block × ℕ × Byte)) : Prop where
  apart : blocks.Pairwise Apart
  window : ∀ b ∈ blocks, WINDOW ≤ b.addr ∧ b.addr + b.size ≤ WINEND
  ours : ∀ b ∈ blocks, 4 ≤ (h.farmap b.page b.addr).2.bank3 ∧
    (h.farmap b.page b.addr).2.bank3 ∉ begin.held
  read : ∀ b ∈ blocks, (h.farmap b.page b.addr).1 = some b.addr ∧
    ∀ i A, stored? log b i = some A → (h.farmap b.page b.addr).2.load (b.addr + i) = A
  full : ∀ size, h.halloc installed size = none →
    MAXPAGES ≤ h.PAGES.length ∨ ∀ p, 4 ≤ p → p < installed → p ∈ h.held
  done : h.heapdone.bank3 = 3 ∧ h.heapdone.held = begin.held

/-- Blocks never meet and keep what is stored in them, whichever page is mapped meanwhile, no page
of the program or of another is one of theirs, and when the heap is given up bank 3 and the BIOS's
pages are as they were. -/
theorem heap_sound (installed : ℕ) {begin : Heap} (own : begin.bank3 = 3)
    (reached : Reached installed begin h blocks log) : h.Sound installed begin blocks log := by
  have inv := reached.inv own
  have maps : ∀ b ∈ blocks, h.farmap b.page b.addr = (some b.addr, h.mappg b.page) := fun b there =>
    if_neg (Nat.ne_of_gt (inv.within b there).first)
  have mapped : ∀ b ∈ blocks, (h.mappg b.page).bank3 = h.pageOf b.page := fun b there => by
    rw [(inv.mappg (inv.within b there).last).bank3, Heap.mappg_mapped, Heap.mappg_pageOf]
  refine ⟨inv.apart, fun b there => ⟨(inv.within b there).above, (inv.within b there).below⟩,
    fun b there => ?_, fun b there => ?_, fun size => Heap.halloc_none, inv.toTaken.heapdone⟩
  · rw [maps b there]
    dsimp only
    rw [mapped b there]
    have listed := Heap.pageOf_mem (inv.within b there).first (inv.within b there).last
    exact ⟨(inv.page _ listed).1, (inv.page _ listed).2.2⟩
  · rw [maps b there]
    refine ⟨rfl, fun i A last => ?_⟩
    dsimp only
    rw [Heap.load, mapped b there, (Heap.mappg_fields h b.page).2.2.2.2]
    exact inv.said b i A last

/-- Eight pages; a page of others' is 5. -/
def sampleHeap : Heap where
  PAGES := []
  HEAPPG := 0
  HEAPPTR := 0
  MAPPED := 0
  bank3 := 3
  held := {5}
  ram := fun _ _ => 0#8

theorem heap_sound_sample :
    ∃ h : Heap, h.Sound 8 sampleHeap [⟨2, 0xC000, 0x3000⟩, ⟨1, 0xC000, 2⟩]
      [(⟨1, 0xC000, 2⟩, 1, 7#8)] ∧ h.PAGES = [4, 6] := by
  have one : Reached 8 sampleHeap _ [⟨1, 0xC000, 2⟩] [] :=
    (@Reached.heapinit 8 sampleHeap).halloc (by decide : 2 ≤ WINEND - WINDOW) rfl
  have two := one.store (List.mem_singleton_self _) (by decide : 1 < 2) rfl 7#8
  have three : Reached 8 sampleHeap _ [⟨2, 0xC000, 0x3000⟩, ⟨1, 0xC000, 2⟩] _ :=
    two.halloc (by decide : 0x3000 ≤ WINEND - WINDOW) rfl
  exact ⟨_, heap_sound 8 rfl three, rfl⟩

end Pugputer.Asmlink

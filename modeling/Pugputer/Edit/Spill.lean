import Pugputer.Edit.Moves

namespace Pugputer.Edit

/-! SPILLF, FILLF, SPILLB and FILLB: each takes text from one end of a region to the next region. -/

variable {setup : Setup} {s : Editor}

theorem span_cut {α : Type} (f : Nat → α) {off m n : Nat} (inside : m ≤ n) :
    span f off n = span f off m ++ span f (off + m) (n - m) := by
  rw [span_append, Nat.add_sub_of_le inside]

/-- Once the window's first characters are in the store, the rest moves down. -/
theorem spillf_moved (good : Good setup s) {n lfover cpsave : Nat}
    (inside : n ≤ s.GAPS - setup.ARENA_LO) (room : s.BLEN + n + s.ALEN ≤ setup.VTOP)
    (mark : s.MARKON = true → n ≤ s.MARKPOS)
    (stored : ∀ i < n, s.Held (s.BLEN + i) ∧
      s.store (s.BLEN + i) = setup.view s.pages (setup.ARENA_LO + i)) :
    Kept setup s { s with
      BLEN := s.BLEN + n
      LFOVER := lfover
      BLINES := (s.BLINES + setup.countlf s.pages setup.ARENA_LO n) % 65536
      pages := setup.tfmUp s.pages (setup.ARENA_LO + n) setup.ARENA_LO
        (s.GAPS - setup.ARENA_LO - n)
      GAPS := s.GAPS - n
      MARKPOS := (s.MARKPOS + 65536 - n) % 65536
      CPSAVE := cpsave } := by
  have gaps := good.gaps
  have gape := good.gape
  have cutlo := good.cutlo
  have top := good.top
  have low := setup.low
  have stop : ARENA_HI = 0xF000 := rfl
  generalize pagesEq : setup.tfmUp s.pages (setup.ARENA_LO + n) setup.ARENA_LO
    (s.GAPS - setup.ARENA_LO - n) = pages
  have view {c : Nat} (cLow : setup.ARENA_LO ≤ c) (cHigh : c < ARENA_HI) :
      setup.view pages c =
        if setup.ARENA_LO ≤ c ∧ c < setup.ARENA_LO + (s.GAPS - setup.ARENA_LO - n) then
          setup.view s.pages (setup.ARENA_LO + n + (c - setup.ARENA_LO))
        else setup.view s.pages c := by
    rw [← pagesEq]
    exact Setup.view_tfmUp (Nat.le_add_right _ _) low (by omega) (setup.banked cLow cHigh)
  have other : ∀ p o, (∀ k, 1 ≤ k → k < 4 → p ≠ setup.ARPAGE k) → pages p o = s.pages p o := by
    intro p o others
    rw [← pagesEq]
    exact Setup.tfmUp_other low (by omega) others
  generalize next : ({ s with
      BLEN := s.BLEN + n
      LFOVER := lfover
      BLINES := (s.BLINES + setup.countlf s.pages setup.ARENA_LO n) % 65536
      pages
      GAPS := s.GAPS - n
      MARKPOS := (s.MARKPOS + 65536 - n) % 65536
      CPSAVE := cpsave } : Editor) = s'
  have store {v : Nat} (held : s.Held v) : s'.store v = s.store v := by
    subst next
    apply good.mapped.store_arena
    · rfl
    · exact other
    · exact held
  have front : s'.front = s.front ++ span (setup.view s.pages) setup.ARENA_LO n := by
    have length : s'.BLEN = s.BLEN + n := by rw [← next]
    rw [Editor.front, length, span_cut _ (Nat.le_add_right s.BLEN n), Nat.add_sub_cancel_left,
      Nat.zero_add]
    congr 1
    · refine span_congr fun i small => ?_
      rw [Nat.zero_add]
      exact store (good.heldFront i small)
    · refine span_congr fun i small => ?_
      rw [store (stored i small).1, (stored i small).2]
  have beforeSplit : s.before setup = span (setup.view s.pages) setup.ARENA_LO n ++
      span (setup.view s.pages) (setup.ARENA_LO + n) (s.GAPS - setup.ARENA_LO - n) :=
    span_cut _ inside
  have before : s'.before setup =
      span (setup.view s.pages) (setup.ARENA_LO + n) (s.GAPS - setup.ARENA_LO - n) := by
    have size : s.GAPS - n - setup.ARENA_LO = s.GAPS - setup.ARENA_LO - n := by omega
    subst next
    rw [Editor.before]
    dsimp only
    rw [size]
    refine span_congr fun i small => ?_
    rw [view (Nat.le_add_right _ _) (by omega), if_pos (by omega), Nat.add_sub_cancel_left]
  have after : s'.after setup = s.after setup := by
    subst next
    refine span_congr fun i small => ?_
    dsimp only at small ⊢
    rw [view (by omega) (by omega), if_neg (by omega)]
  have back : s'.back setup = s.back setup := by
    have length : s'.ALEN = s.ALEN := by rw [← next]
    rw [Editor.back, Editor.back, length]
    exact span_congr fun i small => store (good.heldBack _ (Nat.le_add_right _ _) (by omega))
  have text : s'.front ++ s'.before setup = s.front ++ s.before setup := by
    rw [front, before, beforeSplit, List.append_assoc]
  constructor
  · have blines := good.blines
    have curline := good.curline
    rw [← text] at curline
    have alines := good.alines
    rw [← back] at alines
    have marked := good.mark
    subst next
    exact {
      mapped := good.mapped.congr rfl rfl
      gaps := by dsimp only; omega
      gape := by dsimp only; omega
      cutlo
      top
      room
      heldFront := by
        intro v below
        dsimp only at below
        by_cases old : v < s.BLEN
        · exact good.heldFront v old
        · have held := (stored (v - s.BLEN) (by omega)).1
          rw [Nat.add_sub_of_le (Nat.le_of_not_lt old)] at held
          exact held
      heldBack := good.heldBack
      curline
      blines := by
        rw [front, List.count_append, ← Setup.countlf_span]
        dsimp only
        omega
      alines
      mark := by
        intro on
        have place := marked on
        have room' := mark on
        rw [Editor.textlen] at place ⊢
        dsimp only
        omega }
  · rw [Editor.whole, Editor.whole, text, after, back]
  · subst next
    refine span_congr fun i small => ?_
    dsimp only at small ⊢
    rw [view (by omega) (by omega), if_neg (by omega)]
  · rw [← next]
  · intro on
    have marked := good.mark
    subst next
    have place := marked on
    have room' := mark on
    rw [Editor.textlen] at place
    refine ⟨on, ?_⟩
    dsimp only
    omega

/-- Once the window's last characters are in the store, the rest moves up. -/
theorem spillb_moved (good : Good setup s) {n : Nat} (inside : n ≤ s.CUTLO - s.GAPE)
    (room : s.BLEN + s.ALEN + n ≤ setup.VTOP)
    (mark : s.MARKON = true → n ≤ s.textlen setup - s.MARKPOS)
    (stored : ∀ i < n, s.Held (setup.VTOP - s.ALEN - n + i) ∧
      s.store (setup.VTOP - s.ALEN - n + i) = setup.view s.pages (s.CUTLO - n + i)) :
    Kept setup s { s with
      ALEN := s.ALEN + n
      ALINES := (s.ALINES + setup.countlf s.pages (s.CUTLO - n) n) % 65536
      pages := setup.tfmDown s.pages (s.CUTLO - n - 1) (s.CUTLO - 1) (s.CUTLO - n - s.GAPE)
      GAPE := s.GAPE + n } := by
  have gaps := good.gaps
  have gape := good.gape
  have cutlo := good.cutlo
  have top := good.top
  have low := setup.low
  have stop : ARENA_HI = 0xF000 := rfl
  generalize pagesEq : setup.tfmDown s.pages (s.CUTLO - n - 1) (s.CUTLO - 1)
    (s.CUTLO - n - s.GAPE) = pages
  have view {c : Nat} (cLow : setup.ARENA_LO ≤ c) (cHigh : c < ARENA_HI) :
      setup.view pages c =
        if s.CUTLO - 1 < c + (s.CUTLO - n - s.GAPE) ∧ c ≤ s.CUTLO - 1 then
          setup.view s.pages (s.CUTLO - n - 1 - (s.CUTLO - 1 - c))
        else setup.view s.pages c := by
    rw [← pagesEq]
    exact Setup.view_tfmDown (by omega) (by omega) (by omega) (setup.banked cLow cHigh)
  have other : ∀ p o, (∀ k, 1 ≤ k → k < 4 → p ≠ setup.ARPAGE k) → pages p o = s.pages p o := by
    intro p o others
    rw [← pagesEq]
    exact Setup.tfmDown_other (by omega) (by omega) others
  generalize next : ({ s with
      ALEN := s.ALEN + n
      ALINES := (s.ALINES + setup.countlf s.pages (s.CUTLO - n) n) % 65536
      pages
      GAPE := s.GAPE + n } : Editor) = s'
  have store {v : Nat} (held : s.Held v) : s'.store v = s.store v := by
    subst next
    apply good.mapped.store_arena
    · rfl
    · exact other
    · exact held
  have front : s'.front = s.front := by
    have length : s'.BLEN = s.BLEN := by rw [← next]
    rw [Editor.front, Editor.front, length]
    refine span_congr fun i small => ?_
    rw [Nat.zero_add]
    exact store (good.heldFront i small)
  have before : s'.before setup = s.before setup := by
    subst next
    refine span_congr fun i small => ?_
    dsimp only at small ⊢
    rw [view (by omega) (by omega), if_neg (by omega)]
  have afterSplit : s.after setup = span (setup.view s.pages) s.GAPE (s.CUTLO - n - s.GAPE) ++
      span (setup.view s.pages) (s.CUTLO - n) n := by
    have less : s.CUTLO - n - s.GAPE ≤ s.CUTLO - s.GAPE := by omega
    have place : s.GAPE + (s.CUTLO - n - s.GAPE) = s.CUTLO - n := by omega
    have size : s.CUTLO - s.GAPE - (s.CUTLO - n - s.GAPE) = n := by omega
    rw [Editor.after, span_cut _ less, place, size]
  have after : s'.after setup =
      span (setup.view s.pages) s.GAPE (s.CUTLO - n - s.GAPE) := by
    have size : s.CUTLO - (s.GAPE + n) = s.CUTLO - n - s.GAPE := by omega
    subst next
    rw [Editor.after]
    dsimp only
    rw [size]
    refine span_congr fun i small => ?_
    rw [view (by omega) (by omega), if_pos (by omega)]
    congr 1
    omega
  have back : s'.back setup = span (setup.view s.pages) (s.CUTLO - n) n ++ s.back setup := by
    have length : s'.ALEN = s.ALEN + n := by rw [← next]
    have start : setup.VTOP - (s.ALEN + n) = setup.VTOP - s.ALEN - n := by omega
    have place : setup.VTOP - s.ALEN - n + n = setup.VTOP - s.ALEN := by omega
    rw [Editor.back, length, start, span_cut _ (Nat.le_add_left n s.ALEN), place,
      Nat.add_sub_cancel]
    congr 1
    · refine span_congr fun i small => ?_
      rw [store (stored i small).1, (stored i small).2]
    · exact span_congr fun i small => store (good.heldBack _ (Nat.le_add_right _ _) (by omega))
  have text : s'.after setup ++ s'.back setup = s.after setup ++ s.back setup := by
    rw [after, back, afterSplit, List.append_assoc]
  constructor
  · have blines := good.blines
    have curline := good.curline
    have alines := good.alines
    have marked := good.mark
    rw [← front, ← before] at curline
    rw [← front] at blines
    subst next
    exact {
      mapped := good.mapped.congr rfl rfl
      gaps
      gape := by dsimp only; omega
      cutlo := by dsimp only; omega
      top
      room := by dsimp only; omega
      heldFront := good.heldFront
      heldBack := by
        intro v above below
        dsimp only at above
        by_cases old : setup.VTOP - s.ALEN ≤ v
        · exact good.heldBack v old below
        · have held := (stored (v - (setup.VTOP - s.ALEN - n)) (by omega)).1
          rw [Nat.add_sub_of_le (by omega)] at held
          exact held
      curline
      blines
      alines := by
        rw [back, List.count_append, ← Setup.countlf_span]
        dsimp only
        omega
      mark := by
        intro on
        have place := marked on
        have room' := mark on
        rw [Editor.textlen] at place room' ⊢
        dsimp only
        omega }
  · rw [Editor.whole, Editor.whole, front, before, text]
  · subst next
    refine span_congr fun i small => ?_
    dsimp only at small ⊢
    rw [view (by omega) (by omega), if_neg (by omega)]
  · rw [← next]
  · intro on
    subst next
    exact ⟨on, rfl⟩

end Pugputer.Edit

import Pugputer.Edit.Spill

namespace Pugputer.Edit

/-! Text that comes back from the store. -/

variable {setup : Setup} {s : Editor}

/-- What FILLF has done when it returns. -/
structure FilledF (setup : Setup) (s : Editor) (n : Nat) (s' : Editor) : Prop where
  mapped : Mapped setup s'
  held : s'.STPAGES = s.STPAGES
  store : ∀ v, s.Held v → s'.store v = s.store v
  filled : ∀ i < n, setup.view s'.pages (setup.ARENA_LO + i) = s.store (s.BLEN - n + i)
  up : ∀ i < s.GAPS - setup.ARENA_LO,
    setup.view s'.pages (setup.ARENA_LO + n + i) = setup.view s.pages (setup.ARENA_LO + i)
  above : ∀ c, s.GAPE ≤ c → c < ARENA_HI → setup.view s'.pages c = setup.view s.pages c
  GAPS : s'.GAPS = s.GAPS + n
  GAPE : s'.GAPE = s.GAPE
  CUTLO : s'.CUTLO = s.CUTLO
  BLEN : s'.BLEN = s.BLEN - n
  ALEN : s'.ALEN = s.ALEN
  CURLINE : s'.CURLINE = s.CURLINE
  BLINES : s'.BLINES = (s.BLINES + 65536 - setup.countlf s'.pages setup.ARENA_LO n) % 65536
  ALINES : s'.ALINES = s.ALINES
  MARKON : s'.MARKON = s.MARKON
  MARKPOS : s'.MARKPOS = (s.MARKPOS + n) % 65536

theorem fillf_done (good : Good setup s) {n : Nat} (some : n ≠ 0) (inside : n ≤ s.BLEN)
    (fits : n ≤ s.GAPE - s.GAPS) : FilledF setup s n (s.fillf setup n) := by
  have gaps := good.gaps
  have gape := good.gape
  have cutlo := good.cutlo
  have top := good.top
  have low := setup.low
  have room := good.room
  have size := setup.size
  have stop : ARENA_HI = 0xF000 := rfl
  rw [Editor.fillf, if_neg some]
  dsimp only
  generalize pagesEq : setup.tfmDown s.pages (s.GAPS - 1) (s.GAPS - 1 + n)
    (s.GAPS - setup.ARENA_LO) = pages
  have view {c : Nat} (cLow : setup.ARENA_LO ≤ c) (cHigh : c < ARENA_HI) :
      setup.view pages c =
        if s.GAPS - 1 + n < c + (s.GAPS - setup.ARENA_LO) ∧ c ≤ s.GAPS - 1 + n then
          setup.view s.pages (s.GAPS - 1 - (s.GAPS - 1 + n - c))
        else setup.view s.pages c := by
    rw [← pagesEq]
    exact Setup.view_tfmDown (by omega) (by omega) (by omega) (setup.banked cLow cHigh)
  have other : ∀ p o, (∀ k, 1 ≤ k → k < 4 → p ≠ setup.ARPAGE k) → pages p o = s.pages p o := by
    intro p o others
    rw [← pagesEq]
    exact Setup.tfmDown_other (by omega) (by omega) others
  generalize next : ({ s with pages, GAPS := s.GAPS + n, BLEN := s.BLEN - n } : Editor) = s₁
  have table : s₁.STPAGES = s.STPAGES := by rw [← next]
  have mapped : Mapped setup s₁ := good.mapped.congr table (by rw [← next])
  have store {v : Nat} (held : s.Held v) : s₁.store v = s.store v := by
    subst next
    apply good.mapped.store_arena
    · rfl
    · exact other
    · exact held
  have held₁ {v : Nat} (held : s.Held v) : s₁.Held v := by
    rw [Editor.Held, table]
    exact held
  have pages₁ : s₁.pages = pages := by rw [← next]
  have into : Into setup s₁ setup.ARENA_LO (s.BLEN - n) n
      (Editor.xfer setup true n s₁ setup.ARENA_LO (s.BLEN - n) n) :=
    xfer_in mapped (Nat.le_refl n) low (by omega) (by omega)
      fun i small => held₁ (good.heldFront _ (by omega))
  generalize Editor.xfer setup true n s₁ setup.ARENA_LO (s.BLEN - n) n = out at into ⊢
  have text := into.text
  exact {
    mapped := into.mapped.congr rfl rfl
    held := into.held.trans table
    store := fun v held => (into.store v (held₁ held)).trans (store held)
    filled := fun i small => (into.filled i small).trans (store (good.heldFront _ (by omega)))
    up := by
      intro i small
      dsimp only
      rw [into.around _ (setup.banked (by omega) (by omega)) (by omega), pages₁,
        view (by omega) (by omega), if_pos (by omega)]
      congr 1
      omega
    above := by
      intro c cLow cHigh
      dsimp only
      rw [into.around _ (setup.banked (by omega) (by omega)) (by omega), pages₁,
        view (by omega) (by omega), if_neg (by omega)]
    GAPS := by rw [← next] at text; exact text.GAPS
    GAPE := by rw [← next] at text; exact text.GAPE
    CUTLO := by rw [← next] at text; exact text.CUTLO
    BLEN := by rw [← next] at text; exact text.BLEN
    ALEN := by rw [← next] at text; exact text.ALEN
    CURLINE := by rw [← next] at text; exact text.CURLINE
    BLINES := by
      have lines : out.2.BLINES = s.BLINES := by rw [← next] at text; exact text.BLINES
      dsimp only
      rw [lines]
    ALINES := by rw [← next] at text; exact text.ALINES
    MARKON := by rw [← next] at text; exact text.MARKON
    MARKPOS := by
      have mark : out.2.MARKPOS = s.MARKPOS := by rw [← next] at text; exact text.MARKPOS
      dsimp only
      rw [mark] }

theorem FilledF.kept {s' : Editor} (good : Good setup s) {n : Nat} (inside : n ≤ s.BLEN)
    (fits : n ≤ s.GAPE - s.GAPS) (filled : FilledF setup s n s') : Kept setup s s' := by
  have gaps := good.gaps
  have gape := good.gape
  have cutlo := good.cutlo
  have top := good.top
  have low := setup.low
  have room := good.room
  have stop : ARENA_HI = 0xF000 := rfl
  have front : s.front = s'.front ++ span s.store (s.BLEN - n) n := by
    have place : 0 + (s.BLEN - n) = s.BLEN - n := Nat.zero_add _
    have left : s.BLEN - (s.BLEN - n) = n := by omega
    rw [Editor.front, Editor.front, filled.BLEN, span_cut _ (Nat.sub_le s.BLEN n), place, left]
    congr 1
    refine span_congr fun i small => (filled.store _ (good.heldFront _ (by omega))).symm
  have before : s'.before setup = span s.store (s.BLEN - n) n ++ s.before setup := by
    have more : n ≤ s.GAPS + n - setup.ARENA_LO := by omega
    have left : s.GAPS + n - setup.ARENA_LO - n = s.GAPS - setup.ARENA_LO := by omega
    rw [Editor.before, Editor.before, filled.GAPS, span_cut _ more, left]
    congr 1
    · exact span_congr fun i small => filled.filled i small
    · exact span_congr fun i small => filled.up i small
  have after : s'.after setup = s.after setup := by
    rw [Editor.after, Editor.after, filled.GAPE, filled.CUTLO]
    exact span_congr fun i small => filled.above _ (Nat.le_add_right _ _) (by omega)
  have back : s'.back setup = s.back setup := by
    rw [Editor.back, Editor.back, filled.ALEN]
    exact span_congr fun i small =>
      filled.store _ (good.heldBack _ (Nat.le_add_right _ _) (by omega))
  have text : s'.front ++ s'.before setup = s.front ++ s.before setup := by
    rw [before, front, List.append_assoc]
  have heldSame {v : Nat} (held : s.Held v) : s'.Held v := by
    rw [Editor.Held, filled.held]
    exact held
  have counted : setup.countlf s'.pages setup.ARENA_LO n =
      (span s.store (s.BLEN - n) n).count LF := by
    rw [Setup.countlf_span]
    congr 1
    exact span_congr fun i small => filled.filled i small
  constructor
  · exact {
      mapped := filled.mapped
      gaps := by rw [filled.GAPS]; omega
      gape := by rw [filled.GAPS, filled.GAPE]; omega
      cutlo := by rw [filled.GAPE, filled.CUTLO]; exact cutlo
      top := by rw [filled.CUTLO]; exact top
      room := by rw [filled.BLEN, filled.ALEN]; omega
      heldFront := by
        intro v below
        rw [filled.BLEN] at below
        exact heldSame (good.heldFront v (by omega))
      heldBack := by
        intro v above below
        rw [filled.ALEN] at above
        exact heldSame (good.heldBack v above below)
      curline := by rw [filled.CURLINE, text]; exact good.curline
      blines := by
        have blines := good.blines
        rw [front, List.count_append] at blines
        have few := List.count_le_length (a := LF) (l := span s.store (s.BLEN - n) n)
        rw [span_length] at few
        rw [filled.BLINES, counted, blines]
        omega
      alines := by rw [filled.ALINES, back]; exact good.alines
      mark := by
        intro on
        rw [filled.MARKON] at on
        have place := good.mark on
        rw [Editor.textlen] at place
        rw [filled.MARKPOS, Editor.textlen, filled.CUTLO, filled.GAPE, filled.GAPS]
        omega }
  · rw [Editor.whole, Editor.whole, text, after, back]
  · rw [Editor.cut, Editor.cut, filled.CUTLO]
    exact span_congr fun i small => filled.above _ (by omega) (by omega)
  · exact filled.CUTLO
  · intro on
    rw [filled.MARKON] at on
    have place := good.mark on
    rw [Editor.textlen] at place
    rw [filled.BLEN, filled.MARKPOS]
    exact ⟨on, by omega⟩

/-- What FILLB has done when it returns. -/
structure FilledB (setup : Setup) (s : Editor) (n : Nat) (s' : Editor) : Prop where
  mapped : Mapped setup s'
  held : s'.STPAGES = s.STPAGES
  store : ∀ v, s.Held v → s'.store v = s.store v
  filled : ∀ i < n, setup.view s'.pages (s.CUTLO - n + i) = s.store (setup.VTOP - s.ALEN + i)
  down : ∀ i < s.CUTLO - s.GAPE,
    setup.view s'.pages (s.GAPE - n + i) = setup.view s.pages (s.GAPE + i)
  below : ∀ c, setup.ARENA_LO ≤ c → c < s.GAPS → setup.view s'.pages c = setup.view s.pages c
  above : ∀ c, s.CUTLO ≤ c → c < ARENA_HI → setup.view s'.pages c = setup.view s.pages c
  GAPS : s'.GAPS = s.GAPS
  GAPE : s'.GAPE = s.GAPE - n
  CUTLO : s'.CUTLO = s.CUTLO
  BLEN : s'.BLEN = s.BLEN
  ALEN : s'.ALEN = s.ALEN - n
  CURLINE : s'.CURLINE = s.CURLINE
  BLINES : s'.BLINES = s.BLINES
  ALINES : s'.ALINES = (s.ALINES + 65536 - setup.countlf s'.pages (s.CUTLO - n) n) % 65536
  MARKON : s'.MARKON = s.MARKON
  MARKPOS : s'.MARKPOS = s.MARKPOS

theorem fillb_done (good : Good setup s) {n : Nat} (some : n ≠ 0) (inside : n ≤ s.ALEN)
    (fits : n ≤ s.GAPE - s.GAPS) : FilledB setup s n (s.fillb setup n) := by
  have gaps := good.gaps
  have gape := good.gape
  have cutlo := good.cutlo
  have top := good.top
  have low := setup.low
  have room := good.room
  have size := setup.size
  have stop : ARENA_HI = 0xF000 := rfl
  rw [Editor.fillb, if_neg some]
  dsimp only
  generalize pagesEq : setup.tfmUp s.pages s.GAPE (s.GAPE - n) (s.CUTLO - s.GAPE) = pages
  have view {c : Nat} (cLow : setup.ARENA_LO ≤ c) (cHigh : c < ARENA_HI) :
      setup.view pages c =
        if s.GAPE - n ≤ c ∧ c < s.GAPE - n + (s.CUTLO - s.GAPE) then
          setup.view s.pages (s.GAPE + (c - (s.GAPE - n)))
        else setup.view s.pages c := by
    rw [← pagesEq]
    exact Setup.view_tfmUp (Nat.sub_le _ _) (by omega) (by omega) (setup.banked cLow cHigh)
  have other : ∀ p o, (∀ k, 1 ≤ k → k < 4 → p ≠ setup.ARPAGE k) → pages p o = s.pages p o := by
    intro p o others
    rw [← pagesEq]
    exact Setup.tfmUp_other (by omega) (by omega) others
  generalize next : ({ s with pages, GAPE := s.GAPE - n } : Editor) = s₁
  have table : s₁.STPAGES = s.STPAGES := by rw [← next]
  have mapped : Mapped setup s₁ := good.mapped.congr table (by rw [← next])
  have store {v : Nat} (held : s.Held v) : s₁.store v = s.store v := by
    subst next
    apply good.mapped.store_arena
    · rfl
    · exact other
    · exact held
  have held₁ {v : Nat} (held : s.Held v) : s₁.Held v := by
    rw [Editor.Held, table]
    exact held
  have backHeld : ∀ i < n, s.Held (setup.VTOP - s.ALEN + i) := fun i small =>
    good.heldBack _ (Nat.le_add_right _ _) (by omega)
  have pages₁ : s₁.pages = pages := by rw [← next]
  have into : Into setup s₁ (s.CUTLO - n) (setup.VTOP - s.ALEN) n
      (Editor.xfer setup true n s₁ (s.CUTLO - n) (setup.VTOP - s.ALEN) n) :=
    xfer_in mapped (Nat.le_refl n) (by omega) (by omega) (by omega)
      fun i small => held₁ (backHeld i small)
  generalize Editor.xfer setup true n s₁ (s.CUTLO - n) (setup.VTOP - s.ALEN) n = out at into ⊢
  have text := into.text
  have sameCut : out.2.CUTLO = s.CUTLO := by rw [← next] at text; exact text.CUTLO
  exact {
    mapped := into.mapped.congr rfl rfl
    held := into.held.trans table
    store := fun v held => (into.store v (held₁ held)).trans (store held)
    filled := fun i small => (into.filled i small).trans (store (backHeld i small))
    down := by
      intro i small
      dsimp only
      rw [into.around _ (setup.banked (by omega) (by omega)) (by omega), pages₁,
        view (by omega) (by omega), if_pos (by omega), Nat.add_sub_cancel_left]
    below := by
      intro c cLow cHigh
      dsimp only
      rw [into.around _ (setup.banked cLow (by omega)) (by omega), pages₁,
        view cLow (by omega), if_neg (by omega)]
    above := by
      intro c cLow cHigh
      dsimp only
      rw [into.around _ (setup.banked (by omega) cHigh) (by omega), pages₁,
        view (by omega) cHigh, if_neg (by omega)]
    GAPS := by rw [← next] at text; exact text.GAPS
    GAPE := by rw [← next] at text; exact text.GAPE
    CUTLO := sameCut
    BLEN := by rw [← next] at text; exact text.BLEN
    ALEN := by
      have length : out.2.ALEN = s.ALEN := by rw [← next] at text; exact text.ALEN
      dsimp only
      rw [length]
    CURLINE := by rw [← next] at text; exact text.CURLINE
    BLINES := by rw [← next] at text; exact text.BLINES
    ALINES := by
      have lines : out.2.ALINES = s.ALINES := by rw [← next] at text; exact text.ALINES
      dsimp only
      rw [lines, sameCut]
    MARKON := by rw [← next] at text; exact text.MARKON
    MARKPOS := by rw [← next] at text; exact text.MARKPOS }

theorem FilledB.kept {s' : Editor} (good : Good setup s) {n : Nat} (inside : n ≤ s.ALEN)
    (fits : n ≤ s.GAPE - s.GAPS) (filled : FilledB setup s n s') : Kept setup s s' := by
  have gaps := good.gaps
  have gape := good.gape
  have cutlo := good.cutlo
  have top := good.top
  have room := good.room
  have stop : ARENA_HI = 0xF000 := rfl
  have front : s'.front = s.front := by
    rw [Editor.front, Editor.front, filled.BLEN]
    exact span_congr fun i small => filled.store _ (good.heldFront _ (by omega))
  have before : s'.before setup = s.before setup := by
    rw [Editor.before, Editor.before, filled.GAPS]
    exact span_congr fun i small => filled.below _ (Nat.le_add_right _ _) (by omega)
  have after : s'.after setup =
      s.after setup ++ span s.store (setup.VTOP - s.ALEN) n := by
    have less : s.CUTLO - s.GAPE ≤ s.CUTLO - (s.GAPE - n) := by omega
    have place : s.GAPE - n + (s.CUTLO - s.GAPE) = s.CUTLO - n := by omega
    have left : s.CUTLO - (s.GAPE - n) - (s.CUTLO - s.GAPE) = n := by omega
    rw [Editor.after, Editor.after, filled.GAPE, filled.CUTLO, span_cut _ less, place, left]
    congr 1
    · exact span_congr fun i small => filled.down i small
    · exact span_congr fun i small => filled.filled i small
  have back : s.back setup = span s.store (setup.VTOP - s.ALEN) n ++ s'.back setup := by
    have start : setup.VTOP - (s.ALEN - n) = setup.VTOP - s.ALEN + n := by omega
    rw [Editor.back, Editor.back, filled.ALEN, start, span_cut _ inside]
    congr 1
    exact span_congr fun i small => (filled.store _ (good.heldBack _ (by omega) (by omega))).symm
  have text : s'.after setup ++ s'.back setup = s.after setup ++ s.back setup := by
    rw [after, back, List.append_assoc]
  have heldSame {v : Nat} (held : s.Held v) : s'.Held v := by
    rw [Editor.Held, filled.held]
    exact held
  have counted : setup.countlf s'.pages (s.CUTLO - n) n =
      (span s.store (setup.VTOP - s.ALEN) n).count LF := by
    rw [Setup.countlf_span]
    congr 1
    exact span_congr fun i small => filled.filled i small
  constructor
  · exact {
      mapped := filled.mapped
      gaps := by rw [filled.GAPS]; exact gaps
      gape := by rw [filled.GAPS, filled.GAPE]; omega
      cutlo := by rw [filled.GAPE, filled.CUTLO]; omega
      top := by rw [filled.CUTLO]; exact top
      room := by rw [filled.BLEN, filled.ALEN]; omega
      heldFront := by
        intro v below
        rw [filled.BLEN] at below
        exact heldSame (good.heldFront v below)
      heldBack := by
        intro v above below
        rw [filled.ALEN] at above
        exact heldSame (good.heldBack v (by omega) below)
      curline := by rw [filled.CURLINE, front, before]; exact good.curline
      blines := by rw [filled.BLINES, front]; exact good.blines
      alines := by
        have alines := good.alines
        rw [back, List.count_append] at alines
        have few := List.count_le_length (a := LF) (l := span s.store (setup.VTOP - s.ALEN) n)
        rw [span_length] at few
        rw [filled.ALINES, counted, alines]
        omega
      mark := by
        intro on
        rw [filled.MARKON] at on
        have place := good.mark on
        rw [Editor.textlen] at place
        rw [filled.MARKPOS, Editor.textlen, filled.CUTLO, filled.GAPE, filled.GAPS]
        omega }
  · rw [Editor.whole, Editor.whole, front, before, text]
  · rw [Editor.cut, Editor.cut, filled.CUTLO]
    exact span_congr fun i small => filled.above _ (Nat.le_add_right _ _) (by omega)
  · exact filled.CUTLO
  · intro on
    rw [filled.MARKON] at on
    rw [filled.BLEN, filled.MARKPOS]
    exact ⟨on, rfl⟩

end Pugputer.Edit

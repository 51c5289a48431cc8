import Pugputer.Edit.Pages

namespace Pugputer.Edit

/-! What moves between the window and the store, and what stays as it is. -/

variable {setup : Setup} {s : Editor}

namespace Editor

/-- The store's front part. -/
def front (s : Editor) : List Byte := span s.store 0 s.BLEN

/-- The window before the cursor. -/
def before (setup : Setup) (s : Editor) : List Byte :=
  span (setup.view s.pages) setup.ARENA_LO (s.GAPS - setup.ARENA_LO)

def after (setup : Setup) (s : Editor) : List Byte :=
  span (setup.view s.pages) s.GAPE (s.CUTLO - s.GAPE)

/-- The store's back part. -/
def back (setup : Setup) (s : Editor) : List Byte := span s.store (setup.VTOP - s.ALEN) s.ALEN

/-- The cut buffer. -/
def cut (setup : Setup) (s : Editor) : List Byte :=
  span (setup.view s.pages) s.CUTLO (ARENA_HI - s.CUTLO)

def whole (setup : Setup) (s : Editor) : List Byte :=
  s.front ++ s.before setup ++ (s.after setup ++ s.back setup)

/-- The cursor's position in the whole text. -/
def curabs (setup : Setup) (s : Editor) : Nat := s.BLEN + s.curpos setup

end Editor

/-- The regions are where they should be, the line counts are right and the mark is in the
window. -/
structure Good (setup : Setup) (s : Editor) : Prop where
  mapped : Mapped setup s
  gaps : setup.ARENA_LO ≤ s.GAPS
  gape : s.GAPS ≤ s.GAPE
  cutlo : s.GAPE ≤ s.CUTLO
  top : s.CUTLO ≤ ARENA_HI
  room : s.BLEN + s.ALEN ≤ setup.VTOP
  heldFront : ∀ v, v < s.BLEN → s.Held v
  heldBack : ∀ v, setup.VTOP - s.ALEN ≤ v → v < setup.VTOP → s.Held v
  curline : s.CURLINE = (1 + (s.front ++ s.before setup).count LF) % 65536
  blines : s.BLINES = s.front.count LF % 65536
  alines : s.ALINES = (s.back setup).count LF % 65536
  mark : s.MARKON = true → s.MARKPOS ≤ s.textlen setup

/-- The text and the cut buffer are as they were, and a mark still set is at the same place. -/
structure Kept (setup : Setup) (s s' : Editor) : Prop where
  good : Good setup s'
  whole : s'.whole setup = s.whole setup
  cut : s'.cut setup = s.cut setup
  cutlo : s'.CUTLO = s.CUTLO
  mark : s'.MARKON = true → s.MARKON = true ∧ s'.BLEN + s'.MARKPOS = s.BLEN + s.MARKPOS

theorem Kept.refl (good : Good setup s) : Kept setup s s :=
  ⟨good, rfl, rfl, rfl, fun on => ⟨on, rfl⟩⟩

theorem Kept.trans {a b c : Editor} (first : Kept setup a b) (second : Kept setup b c) :
    Kept setup a c := by
  refine ⟨second.good, second.whole.trans first.whole, second.cut.trans first.cut,
    second.cutlo.trans first.cutlo, fun on => ?_⟩
  obtain ⟨on', same'⟩ := second.mark on
  obtain ⟨on'', same''⟩ := first.mark on'
  exact ⟨on'', same'.trans same''⟩

theorem Setup.banked (setup : Setup) {c : Nat} (low : setup.ARENA_LO ≤ c) (high : c < ARENA_HI) : Banked c := by
  have start := setup.low
  have stop : ARENA_HI = 0xF000 := rfl
  exact ⟨by omega, by omega⟩

/-- The store does not see what is done in the arena. -/
theorem Mapped.store_arena (mapped : Mapped setup s) {s' : Editor} (table : s'.STPAGES = s.STPAGES)
    (other : ∀ p o, (∀ k, 1 ≤ k → k < 4 → p ≠ setup.ARPAGE k) → s'.pages p o = s.pages p o)
    {v : Nat} (held : s.Held v) : s'.store v = s.store v := by
  rw [Editor.store, Editor.store, table]
  exact other _ _ (mapped.apart _ held)

theorem Mapped.congr (mapped : Mapped setup s) {s' : Editor} (table : s'.STPAGES = s.STPAGES)
    (free : s'.free = s.free) : Mapped setup s' := by
  constructor
  · rw [table]
    exact mapped.apart
  · rw [table]
    exact mapped.one
  · rw [table, free]
    exact mapped.fresh
  · rw [free]
    exact mapped.nodup

/-- A change in the arena that leaves its text in order and the cut buffer alone. -/
theorem Kept.arena (good : Good setup s) {curline gaps gape : Nat} {pages : Pages}
    (other : ∀ p o, (∀ k, 1 ≤ k → k < 4 → p ≠ setup.ARPAGE k) → pages p o = s.pages p o)
    (low : setup.ARENA_LO ≤ gaps) (mid : gaps ≤ gape) (high : gape ≤ s.CUTLO)
    (size : gape - gaps = s.GAPE - s.GAPS)
    (text : span (setup.view pages) setup.ARENA_LO (gaps - setup.ARENA_LO) ++
        span (setup.view pages) gape (s.CUTLO - gape) = s.before setup ++ s.after setup)
    (cut : ∀ c, s.CUTLO ≤ c → c < ARENA_HI → setup.view pages c = setup.view s.pages c)
    (count : curline = (1 + (s.front ++
      span (setup.view pages) setup.ARENA_LO (gaps - setup.ARENA_LO)).count LF) % 65536) :
    Kept setup s { s with CURLINE := curline, pages, GAPS := gaps, GAPE := gape } := by
  have gapsLow := good.gaps
  have gapeMid := good.gape
  have cutHigh := good.cutlo
  have mapped : Mapped setup { s with CURLINE := curline, pages, GAPS := gaps, GAPE := gape } :=
    good.mapped.congr rfl rfl
  have store {v : Nat} (held : s.Held v) :
      Editor.store { s with CURLINE := curline, pages, GAPS := gaps, GAPE := gape } v = s.store v := by
    apply good.mapped.store_arena
    · rfl
    · exact other
    · exact held
  have front : Editor.front { s with CURLINE := curline, pages, GAPS := gaps, GAPE := gape } =
      s.front := span_congr fun i small => by
    rw [Nat.zero_add]
    exact store (good.heldFront i small)
  have back : Editor.back setup { s with CURLINE := curline, pages, GAPS := gaps, GAPE := gape } =
      s.back setup := span_congr fun i small => by
    have room := good.room
    dsimp only at small ⊢
    exact store (good.heldBack _ (Nat.le_add_right _ _) (by omega))
  have length : s.textlen setup = s.CUTLO - s.GAPE + s.GAPS - setup.ARENA_LO := rfl
  constructor
  · exact {
      mapped
      gaps := low
      gape := mid
      cutlo := high
      top := good.top
      room := good.room
      heldFront := good.heldFront
      heldBack := good.heldBack
      curline := by
        rw [front]
        exact count
      blines := by
        rw [front]
        exact good.blines
      alines := by
        rw [back]
        exact good.alines
      mark := by
        intro on
        have inside := good.mark on
        rw [Editor.textlen]
        dsimp only
        omega }
  · rw [Editor.whole, Editor.whole, front, back, List.append_assoc, List.append_assoc]
    congr 1
    rw [← List.append_assoc, ← List.append_assoc]
    exact congrArg (· ++ s.back setup) text
  · refine span_congr fun i small => ?_
    have stop := good.top
    dsimp only at small ⊢
    exact cut _ (Nat.le_add_right _ _) (by omega)
  · rfl
  · exact fun on => ⟨on, rfl⟩

/-! The gap. -/

theorem movegap_back (good : Good setup s) {w : Nat} (inside : w ≤ s.GAPS - setup.ARENA_LO)
    (some : 0 < w) :
    Kept setup s { s with
      CURLINE := (s.CURLINE + 65536 - setup.countlf s.pages (s.GAPS - w) w) % 65536
      pages := setup.tfmDown s.pages (s.GAPS - 1) (s.GAPE - 1) w
      GAPS := s.GAPS - w
      GAPE := s.GAPE - w } := by
  have gaps := good.gaps
  have gape := good.gape
  have cutlo := good.cutlo
  have top := good.top
  have low := setup.low
  have stop : ARENA_HI = 0xF000 := rfl
  have view {c : Nat} (cLow : setup.ARENA_LO ≤ c) (cHigh : c < ARENA_HI) :
      setup.view (setup.tfmDown s.pages (s.GAPS - 1) (s.GAPE - 1) w) c =
        if s.GAPE - 1 < c + w ∧ c ≤ s.GAPE - 1 then
          setup.view s.pages (s.GAPS - 1 - (s.GAPE - 1 - c)) else setup.view s.pages c :=
    Setup.view_tfmDown (by omega) (by omega) (by omega) (setup.banked cLow cHigh)
  have kept : span (setup.view (setup.tfmDown s.pages (s.GAPS - 1) (s.GAPE - 1) w)) setup.ARENA_LO
      (s.GAPS - w - setup.ARENA_LO) =
        span (setup.view s.pages) setup.ARENA_LO (s.GAPS - w - setup.ARENA_LO) :=
    span_congr fun i small => by rw [view (by omega) (by omega), if_neg (by omega)]
  have moved : span (setup.view (setup.tfmDown s.pages (s.GAPS - 1) (s.GAPE - 1) w)) (s.GAPE - w) w =
      span (setup.view s.pages) (s.GAPS - w) w :=
    span_congr fun i small => by
      rw [view (by omega) (by omega), if_pos (by omega)]
      congr 1
      omega
  have rest : span (setup.view (setup.tfmDown s.pages (s.GAPS - 1) (s.GAPE - 1) w)) s.GAPE
      (s.CUTLO - s.GAPE) = s.after setup :=
    span_congr fun i small => by rw [view (by omega) (by omega), if_neg (by omega)]
  have beforeSplit : s.before setup =
      span (setup.view s.pages) setup.ARENA_LO (s.GAPS - w - setup.ARENA_LO) ++
        span (setup.view s.pages) (s.GAPS - w) w := by
    have split := span_append (setup.view s.pages) setup.ARENA_LO (s.GAPS - w - setup.ARENA_LO) w
    have place : setup.ARENA_LO + (s.GAPS - w - setup.ARENA_LO) = s.GAPS - w := by omega
    have size : s.GAPS - w - setup.ARENA_LO + w = s.GAPS - setup.ARENA_LO := by omega
    rw [place, size] at split
    exact split.symm
  have afterSplit (f : Nat → Byte) : span f (s.GAPE - w) (s.CUTLO - (s.GAPE - w)) =
      span f (s.GAPE - w) w ++ span f s.GAPE (s.CUTLO - s.GAPE) := by
    have split := span_append f (s.GAPE - w) w (s.CUTLO - s.GAPE)
    have place : s.GAPE - w + w = s.GAPE := by omega
    have size : w + (s.CUTLO - s.GAPE) = s.CUTLO - (s.GAPE - w) := by omega
    rw [place, size] at split
    exact split.symm
  apply Kept.arena good
  · intro p o others
    exact Setup.tfmDown_other (by omega) (by omega) others
  · omega
  · omega
  · omega
  · omega
  · rw [afterSplit, kept, moved, rest, beforeSplit, List.append_assoc]
  · intro c cLow cHigh
    rw [view (by omega) cHigh, if_neg (by omega)]
  · have lines := good.curline
    rw [beforeSplit, List.count_append, List.count_append] at lines
    rw [kept, List.count_append, Setup.countlf_span, lines]
    have few := List.count_le_length (a := LF) (l := span (setup.view s.pages) (s.GAPS - w) w)
    rw [span_length] at few
    omega

theorem movegap_forward (good : Good setup s) {w : Nat} (inside : w ≤ s.CUTLO - s.GAPE) :
    Kept setup s { s with
      CURLINE := (setup.countlf s.pages s.GAPE w + s.CURLINE) % 65536
      pages := setup.tfmUp s.pages s.GAPE s.GAPS w
      GAPS := s.GAPS + w
      GAPE := s.GAPE + w } := by
  have gaps := good.gaps
  have gape := good.gape
  have cutlo := good.cutlo
  have top := good.top
  have low := setup.low
  have stop : ARENA_HI = 0xF000 := rfl
  have view {c : Nat} (cLow : setup.ARENA_LO ≤ c) (cHigh : c < ARENA_HI) :
      setup.view (setup.tfmUp s.pages s.GAPE s.GAPS w) c =
        if s.GAPS ≤ c ∧ c < s.GAPS + w then setup.view s.pages (s.GAPE + (c - s.GAPS))
        else setup.view s.pages c :=
    Setup.view_tfmUp gape (by omega) (by omega) (setup.banked cLow cHigh)
  have kept : span (setup.view (setup.tfmUp s.pages s.GAPE s.GAPS w)) setup.ARENA_LO
      (s.GAPS - setup.ARENA_LO) = s.before setup :=
    span_congr fun i small => by rw [view (by omega) (by omega), if_neg (by omega)]
  have moved : span (setup.view (setup.tfmUp s.pages s.GAPE s.GAPS w)) s.GAPS w =
      span (setup.view s.pages) s.GAPE w :=
    span_congr fun i small => by
      rw [view (by omega) (by omega), if_pos (by omega), Nat.add_sub_cancel_left]
  have rest : span (setup.view (setup.tfmUp s.pages s.GAPE s.GAPS w)) (s.GAPE + w)
      (s.CUTLO - (s.GAPE + w)) =
        span (setup.view s.pages) (s.GAPE + w) (s.CUTLO - (s.GAPE + w)) :=
    span_congr fun i small => by rw [view (by omega) (by omega), if_neg (by omega)]
  have afterSplit : s.after setup = span (setup.view s.pages) s.GAPE w ++
      span (setup.view s.pages) (s.GAPE + w) (s.CUTLO - (s.GAPE + w)) := by
    have split := span_append (setup.view s.pages) s.GAPE w (s.CUTLO - (s.GAPE + w))
    have size : w + (s.CUTLO - (s.GAPE + w)) = s.CUTLO - s.GAPE := by omega
    rw [size] at split
    exact split.symm
  have beforeSplit (f : Nat → Byte) : span f setup.ARENA_LO (s.GAPS + w - setup.ARENA_LO) =
      span f setup.ARENA_LO (s.GAPS - setup.ARENA_LO) ++ span f s.GAPS w := by
    have split := span_append f setup.ARENA_LO (s.GAPS - setup.ARENA_LO) w
    have place : setup.ARENA_LO + (s.GAPS - setup.ARENA_LO) = s.GAPS := by omega
    have size : s.GAPS - setup.ARENA_LO + w = s.GAPS + w - setup.ARENA_LO := by omega
    rw [place, size] at split
    exact split.symm
  apply Kept.arena good
  · intro p o others
    exact Setup.tfmUp_other (by omega) (by omega) others
  · omega
  · omega
  · omega
  · omega
  · rw [beforeSplit, kept, moved, rest, afterSplit, List.append_assoc]
  · intro c cLow cHigh
    rw [view (by omega) cHigh, if_neg (by omega)]
  · have lines := good.curline
    rw [List.count_append] at lines
    rw [beforeSplit, kept, moved, List.count_append, List.count_append, Setup.countlf_span, lines]
    omega

/-- What MOVEGAP leaves. -/
structure Moved (setup : Setup) (s : Editor) (d : Nat) (s' : Editor) : Prop where
  kept : Kept setup s s'
  curpos : s'.curpos setup = d
  BLEN : s'.BLEN = s.BLEN
  ALEN : s'.ALEN = s.ALEN
  textlen : s'.textlen setup = s.textlen setup
  gap : s'.GAPE - s'.GAPS = s.GAPE - s.GAPS
  MARKON : s'.MARKON = s.MARKON

/-- MOVEGAP takes the cursor to a position in the window. -/
theorem movegap_spec (good : Good setup s) {d : Nat} (inside : d ≤ s.textlen setup) :
    Moved setup s d (s.movegap setup d) := by
  have gaps := good.gaps
  have gape := good.gape
  have cutlo := good.cutlo
  rw [Editor.textlen] at inside
  rw [Editor.movegap]
  dsimp only
  by_cases here : d + setup.ARENA_LO = s.GAPS
  · rw [if_pos here]
    refine ⟨.refl good, ?_, rfl, rfl, rfl, rfl, rfl⟩
    rw [Editor.curpos]
    omega
  · rw [if_neg here]
    by_cases ahead : d + setup.ARENA_LO < s.GAPS
    · rw [if_pos ahead]
      have kept := movegap_back good (w := s.GAPS - (d + setup.ARENA_LO)) (by omega) (by omega)
      have place : s.GAPS - (s.GAPS - (d + setup.ARENA_LO)) = d + setup.ARENA_LO := by omega
      rw [place] at kept ⊢
      refine ⟨kept, ?_, rfl, rfl, ?_, ?_, rfl⟩
      · exact Nat.add_sub_cancel ..
      · rw [Editor.textlen, Editor.textlen]
        dsimp only
        omega
      · dsimp only
        omega
    · rw [if_neg ahead]
      have kept := movegap_forward good (w := d + setup.ARENA_LO - s.GAPS) (by omega)
      refine ⟨kept, ?_, rfl, rfl, ?_, ?_, rfl⟩
      · rw [Editor.curpos]
        dsimp only
        omega
      · rw [Editor.textlen, Editor.textlen]
        dsimp only
        omega
      · dsimp only
        omega

/-! The window's start and the store's front part. -/

/-- A copy into the store's free space, whatever came of it. -/
theorem Kept.out (good : Good setup s) {XRAM XVA n : Nat} {out : Bool × Editor}
    (low : s.BLEN ≤ XVA) (high : XVA + n ≤ setup.VTOP - s.ALEN)
    (copied : Out setup s XRAM XVA n out) : Kept setup s out.2 := by
  obtain ⟨ok, s'⟩ := out
  have text := copied.text
  have gaps := good.gaps
  have gape := good.gape
  have cutlo := good.cutlo
  have top := good.top
  dsimp only at text ⊢
  have front : s'.front = s.front := by
    rw [Editor.front, Editor.front, text.BLEN]
    refine span_congr fun i small => ?_
    exact (copied.kept _ (good.heldFront _ (by omega))).2 (by omega)
  have back : s'.back setup = s.back setup := by
    have room := good.room
    rw [Editor.back, Editor.back, text.ALEN]
    refine span_congr fun i small => ?_
    exact (copied.kept _ (good.heldBack _ (Nat.le_add_right _ _) (by omega))).2 (by omega)
  have before : s'.before setup = s.before setup := by
    rw [Editor.before, Editor.before, text.GAPS]
    exact span_congr fun i small => copied.view _ (setup.banked (Nat.le_add_right _ _) (by omega))
  have after : s'.after setup = s.after setup := by
    rw [Editor.after, Editor.after, text.GAPE, text.CUTLO]
    exact span_congr fun i small => copied.view _ (setup.banked (by omega) (by omega))
  constructor
  · exact {
      mapped := copied.mapped
      gaps := by rw [text.GAPS]; exact gaps
      gape := by rw [text.GAPS, text.GAPE]; exact gape
      cutlo := by rw [text.GAPE, text.CUTLO]; exact cutlo
      top := by rw [text.CUTLO]; exact top
      room := by rw [text.BLEN, text.ALEN]; exact good.room
      heldFront := by
        intro v below
        rw [text.BLEN] at below
        exact (copied.kept v (good.heldFront v below)).1
      heldBack := by
        intro v above below
        rw [text.ALEN] at above
        exact (copied.kept v (good.heldBack v above below)).1
      curline := by rw [text.CURLINE, front, before]; exact good.curline
      blines := by rw [text.BLINES, front]; exact good.blines
      alines := by rw [text.ALINES, back]; exact good.alines
      mark := by
        intro on
        rw [text.MARKON] at on
        rw [text.MARKPOS, Editor.textlen, text.GAPS, text.GAPE, text.CUTLO]
        exact good.mark on }
  · rw [Editor.whole, Editor.whole, front, before, after, back]
  · rw [Editor.cut, Editor.cut, text.CUTLO]
    exact span_congr fun i small => copied.view _ (setup.banked (by omega) (by omega))
  · exact text.CUTLO
  · intro on
    rw [text.MARKON] at on
    rw [text.BLEN, text.MARKPOS]
    exact ⟨on, rfl⟩

end Pugputer.Edit

import Pugputer.Edit.Document

namespace Pugputer.Edit

/-! GOTOABS, and what all the window's moves have in common. -/

variable {setup : Setup} {s : Editor}

theorem whole_length (good : Good setup s) :
    (s.whole setup).length = s.BLEN + s.textlen setup + s.ALEN := by
  have gaps := good.gaps
  have gape := good.gape
  have cutlo := good.cutlo
  rw [Editor.whole, Editor.front, Editor.before, Editor.after, Editor.back, Editor.textlen]
  simp only [List.length_append, span_length]
  omega

theorem nomark_kept (good : Good setup s) : Kept setup s s.nomark :=
  ⟨⟨good.mapped.congr rfl rfl, good.gaps, good.gape, good.cutlo, good.top, good.room,
    good.heldFront, good.heldBack, good.curline, good.blines, good.alines,
    fun on => absurd on Bool.false_ne_true⟩, rfl, rfl, rfl, fun on => absurd on Bool.false_ne_true⟩

/-- Nothing can move: no gap to fill, and nothing that could be spilled. -/
def Stuck (setup : Setup) (s : Editor) : Prop :=
  s.GAPE = s.GAPS ∧ (s.textlen setup = 0 ∨ s.storefree setup = 0 ∨ s.free = [])

/-- What a count that three limits clamp can be. -/
theorem least {a b c n : Nat} (size : min (min a b) c = n) :
    n ≤ a ∧ n ≤ b ∧ n ≤ c ∧ (n = 0 → a = 0 ∨ b = 0 ∨ c = 0) := by
  omega

theorem clamped {a n : Nat} (size : min a 0xFFFF = n) : n ≤ a ∧ (n = 0 → a = 0) := by
  omega

/-- A step back. -/
theorem gaBack_spec (good : Good setup s) {GOTP : Nat} (behind : GOTP < s.BLEN) :
    Kept setup s (s.gaBack setup GOTP).2 ∧
      if (s.gaBack setup GOTP).1 then
        GOTP ≤ (s.gaBack setup GOTP).2.BLEN ∧ (s.gaBack setup GOTP).2.BLEN < s.BLEN
      else Stuck setup (s.gaBack setup GOTP).2 ∧ GOTP < (s.gaBack setup GOTP).2.BLEN := by
  have dropped := nomark_kept good
  have moved := movegap_spec dropped.good (Nat.zero_le (s.nomark.textlen setup))
  rw [Editor.gaBack]
  generalize s.nomark.movegap setup 0 = s₁ at moved ⊢
  have kept₁ := dropped.trans moved.kept
  have good₁ := kept₁.good
  have length₁ : s₁.BLEN = s.BLEN := moved.BLEN
  have room := good₁.room
  have gaps := good₁.gaps
  have gape := good₁.gape
  have cutlo := good₁.cutlo
  have start : s₁.GAPS - setup.ARENA_LO = 0 := moved.curpos
  have unmarked : s₁.MARKON = false := moved.MARKON
  rw [length₁]
  generalize distance : min (s.BLEN - GOTP) 0xFFFF = GDIST
  generalize roomEq : s₁.shiftroom setup = free
  generalize size : min (min GDIST free) (s₁.CUTLO - s₁.GAPE) = n
  obtain ⟨far, near⟩ := clamped distance
  obtain ⟨freeLe, full⟩ : free ≤ setup.VTOP - s₁.BLEN - s₁.ALEN ∧
      (free = 0 → setup.VTOP - s₁.BLEN - s₁.ALEN = 0) := clamped roomEq
  obtain ⟨-, nFree, nText, nothing⟩ := least size
  clear distance roomEq size
  have spilled := spillb_spec (n := n) good₁ (by omega) (by omega)
    (fun on => by rw [unmarked] at on; cases on)
  generalize s₁.spillb setup n = out at spilled ⊢
  obtain ⟨ok, s₂⟩ := out
  have taken := spilled.taken
  have kept₂ : Kept setup s s₂ := kept₁.trans spilled.shifted.toKept
  have length₂ : s₂.BLEN = s.BLEN := spilled.BLEN.trans length₁
  have gaps₂ : s₂.GAPS = s₁.GAPS := spilled.GAPS
  have cutlo₂ : s₂.CUTLO = s₁.CUTLO := spilled.shifted.cutlo
  dsimp only at taken ⊢
  generalize comes : min s₂.BLEN 0xFFFF = most
  generalize fillEq : min (min GDIST most) (s₂.GAPE - s₂.GAPS) = WANT
  obtain ⟨mostLe, noMore⟩ := clamped comes
  obtain ⟨wantFar, wantMost, wantGap, noWant⟩ := least fillEq
  clear comes fillEq
  by_cases stop : WANT = 0
  · rw [if_pos stop]
    have gape₂ := kept₂.good.gape
    dsimp only
    rw [if_neg Bool.false_ne_true]
    refine ⟨kept₂, ⟨by omega, ?_⟩, by rw [length₂]; exact behind⟩
    have textlen : s₂.textlen setup = s₂.CUTLO - s₂.GAPE + s₂.GAPS - setup.ARENA_LO := rfl
    have left : s₂.storefree setup = setup.VTOP - s₂.BLEN - s₂.ALEN := rfl
    cases ok with
    | true =>
        rw [if_pos rfl] at taken
        obtain ⟨alen, gapeEq⟩ := taken
        omega
    | false => exact .inr (.inr taken.2.2)
  · rw [if_neg stop]
    obtain ⟨filled, length⟩ := fillf_spec (n := WANT) kept₂.good (by omega) wantGap
    refine ⟨kept₂.trans filled.toKept, ?_⟩
    rw [if_pos rfl, length]
    omega

/-- A step forward. -/
theorem gaFwd_spec (good : Good setup s) {GOTP : Nat} (ahead : s.BLEN + s.textlen setup < GOTP)
    (inside : GOTP ≤ (s.whole setup).length) :
    Kept setup s (s.gaFwd setup GOTP).2 ∧
      if (s.gaFwd setup GOTP).1 then
        (s.gaFwd setup GOTP).2.BLEN ≤ GOTP ∧ s.BLEN + s.textlen setup <
          (s.gaFwd setup GOTP).2.BLEN + (s.gaFwd setup GOTP).2.textlen setup
      else Stuck setup (s.gaFwd setup GOTP).2 ∧
        (s.gaFwd setup GOTP).2.BLEN + (s.gaFwd setup GOTP).2.textlen setup < GOTP := by
  have dropped := nomark_kept good
  have moved : Moved setup s.nomark (s.textlen setup)
      (s.nomark.movegap setup (s.textlen setup)) :=
    movegap_spec dropped.good (Nat.le_refl (s.nomark.textlen setup))
  rw [whole_length good] at inside
  rw [Editor.gaFwd]
  generalize s.nomark.movegap setup (s.textlen setup) = s₁ at moved ⊢
  have kept₁ := dropped.trans moved.kept
  have good₁ := kept₁.good
  have length₁ : s₁.BLEN = s.BLEN := moved.BLEN
  have text₁ : s₁.textlen setup = s.textlen setup := moved.textlen
  have alen₁ : s₁.ALEN = s.ALEN := moved.ALEN
  have room := good₁.room
  have gaps := good₁.gaps
  have gape := good₁.gape
  have cutlo := good₁.cutlo
  have position : s₁.GAPS - setup.ARENA_LO = s.textlen setup := moved.curpos
  have unmarked : s₁.MARKON = false := moved.MARKON
  rw [length₁, text₁]
  generalize distance : min (GOTP - s.BLEN - s.textlen setup) 0xFFFF = GDIST
  generalize roomEq : s₁.shiftroom setup = free
  generalize size : min (min GDIST free) (s₁.GAPS - setup.ARENA_LO) = n
  obtain ⟨far, near⟩ := clamped distance
  obtain ⟨freeLe, full⟩ : free ≤ setup.VTOP - s₁.BLEN - s₁.ALEN ∧
      (free = 0 → setup.VTOP - s₁.BLEN - s₁.ALEN = 0) := clamped roomEq
  obtain ⟨-, nFree, nText, nothing⟩ := least size
  clear distance roomEq size
  have spilled := spillf_spec (n := n) good₁ (by omega) (by omega)
    (fun on => by rw [unmarked] at on; cases on)
  generalize s₁.spillf setup n = out at spilled ⊢
  obtain ⟨ok, s₂⟩ := out
  have taken := spilled.taken
  have kept₂ : Kept setup s s₂ := kept₁.trans spilled.shifted.toKept
  have gape₂ : s₂.GAPE = s₁.GAPE := spilled.GAPE
  have alen₂ : s₂.ALEN = s.ALEN := spilled.ALEN.trans alen₁
  have cutlo₂ : s₂.CUTLO = s₁.CUTLO := spilled.shifted.cutlo
  have textlen₁ : s₁.textlen setup = s₁.CUTLO - s₁.GAPE + s₁.GAPS - setup.ARENA_LO := rfl
  have textlen₂ : s₂.textlen setup = s₂.CUTLO - s₂.GAPE + s₂.GAPS - setup.ARENA_LO := rfl
  have left : s₂.storefree setup = setup.VTOP - s₂.BLEN - s₂.ALEN := rfl
  have gaps₂ := kept₂.good.gaps
  have order₂ := kept₂.good.gape
  dsimp only at taken ⊢
  have sum : s₂.BLEN + s₂.textlen setup = s.BLEN + s.textlen setup ∧ s₂.BLEN ≤ GOTP := by
    cases ok with
    | true =>
        rw [if_pos rfl] at taken
        omega
    | false =>
        rw [if_neg Bool.false_ne_true] at taken
        omega
  generalize comes : min s₂.ALEN 0xFFFF = most
  generalize fillEq : min (min GDIST most) (s₂.GAPE - s₂.GAPS) = WANT
  obtain ⟨mostLe, noMore⟩ := clamped comes
  obtain ⟨wantFar, wantMost, wantGap, noWant⟩ := least fillEq
  clear comes fillEq
  by_cases stop : WANT = 0
  · rw [if_pos stop]
    dsimp only
    rw [if_neg Bool.false_ne_true]
    refine ⟨kept₂, ⟨by omega, ?_⟩, by omega⟩
    cases ok with
    | true =>
        rw [if_pos rfl] at taken
        omega
    | false => exact .inr (.inr taken.2.2)
  · rw [if_neg stop]
    obtain ⟨filled, length, text⟩ := fillb_spec (n := WANT) kept₂.good (by omega) wantGap
    refine ⟨kept₂.trans filled.toKept, ?_⟩
    rw [if_pos rfl, length, text]
    omega

/-- GOTOABS ends, at its target or where nothing can move. -/
theorem gotoabs_spec (good : Good setup s) {GOTP fuel : Nat}
    (inside : GOTP ≤ (s.whole setup).length)
    (enough : s.BLEN - GOTP + (GOTP - (s.BLEN + s.textlen setup)) < fuel) :
    ∃ s', Editor.gotoabs setup GOTP fuel s = some s' ∧ Kept setup s s' ∧
      (s'.curabs setup = GOTP ∨
        (Stuck setup s' ∧ (GOTP < s'.BLEN ∨ s'.BLEN + s'.textlen setup < GOTP))) := by
  induction fuel generalizing s with
  | zero => exact absurd enough (Nat.not_lt_zero _)
  | succ fuel ih =>
      rw [Editor.gotoabs]
      by_cases behind : GOTP < s.BLEN
      · rw [if_pos behind]
        obtain ⟨kept, result⟩ := gaBack_spec good behind
        generalize s.gaBack setup GOTP = out at kept result
        obtain ⟨moved, s₁⟩ := out
        dsimp only at kept result ⊢
        cases moved with
        | false =>
            rw [if_neg Bool.false_ne_true] at result
            exact ⟨s₁, rfl, kept, .inr ⟨result.1, .inl result.2⟩⟩
        | true =>
            rw [if_pos rfl] at result
            obtain ⟨s', found, keptOn, ends⟩ := ih kept.good (by rw [kept.whole]; exact inside)
              (by omega)
            exact ⟨s', found, kept.trans keptOn, ends⟩
      · rw [if_neg behind]
        by_cases here : GOTP - s.BLEN ≤ s.textlen setup
        · rw [if_pos here]
          have moved := movegap_spec good here
          refine ⟨_, rfl, moved.kept, .inl ?_⟩
          rw [Editor.curabs, moved.curpos, moved.BLEN]
          omega
        · rw [if_neg here]
          obtain ⟨kept, result⟩ := gaFwd_spec good (by omega) inside
          generalize s.gaFwd setup GOTP = out at kept result
          obtain ⟨moved, s₁⟩ := out
          dsimp only at kept result ⊢
          cases moved with
          | false =>
              rw [if_neg Bool.false_ne_true] at result
              exact ⟨s₁, rfl, kept, .inr ⟨result.1, .inr result.2⟩⟩
          | true =>
              rw [if_pos rfl] at result
              obtain ⟨s', found, keptOn, ends⟩ := ih kept.good (by rw [kept.whole]; exact inside)
                (by omega)
              exact ⟨s', found, kept.trans keptOn, ends⟩

/-- What the window's moves leave as it was. -/
structure WindowMoves (setup : Setup) (s : Editor) : Prop where
  movegap : ∀ d ≤ s.textlen setup, Kept setup s (s.movegap setup d) ∧
    (s.movegap setup d).curabs setup = s.BLEN + d
  spillf : ∀ n ≤ s.GAPS - setup.ARENA_LO, s.BLEN + n + s.ALEN ≤ setup.VTOP →
    (s.MARKON = true → n ≤ s.MARKPOS) → Shifted setup s (s.spillf setup n).2
  fillf : ∀ n ≤ s.BLEN, n ≤ s.GAPE - s.GAPS → Shifted setup s (s.fillf setup n)
  spillb : ∀ n ≤ s.CUTLO - s.GAPE, s.BLEN + s.ALEN + n ≤ setup.VTOP →
    (s.MARKON = true → n ≤ s.textlen setup - s.MARKPOS) → Shifted setup s (s.spillb setup n).2
  fillb : ∀ n ≤ s.ALEN, n ≤ s.GAPE - s.GAPS → Shifted setup s (s.fillb setup n)
  ensurewin : Shifted setup s (s.ensurewin setup)
  makeroom : ∀ n, Shifted setup s (s.makeroom setup n).2
  gotoabs : ∀ GOTP ≤ (s.whole setup).length, ∃ fuel s',
    Editor.gotoabs setup GOTP fuel s = some s' ∧ Kept setup s s' ∧
      (s'.curabs setup = GOTP ∨
        (Stuck setup s' ∧ (GOTP < s'.BLEN ∨ s'.BLEN + s'.textlen setup < GOTP)))

/-- The window moves over the document without changing it. -/
theorem window_moves (good : Good setup s) : WindowMoves setup s where
  movegap d inside := by
    have moved := movegap_spec good inside
    refine ⟨moved.kept, ?_⟩
    rw [Editor.curabs, moved.curpos, moved.BLEN]
  spillf n inside room mark := (spillf_spec good inside room mark).shifted
  fillf n inside fits := (fillf_spec good inside fits).1
  spillb n inside room mark := (spillb_spec good inside room mark).shifted
  fillb n inside fits := (fillb_spec good inside fits).1
  ensurewin := ensurewin_spec good
  makeroom n := (makeroom_spec good n).1
  gotoabs GOTP inside := ⟨_, gotoabs_spec good inside (Nat.lt_succ_self _)⟩

/-! A window with "AAA" before the cursor, and "AA" in the store. -/

def sampleSetup : Setup where
  ARENA_LO := 0x8000
  ARPAGE := id
  VTOP := 0x8000
  low := by decide
  high := by decide
  banks := fun _ _ _ _ _ _ same => same
  size := by decide

def sampleEditor (GAPS GAPE CUTLO BLEN : Nat) : Editor where
  pages := fun _ _ => 0x41#8
  STPAGES := fun i => if i = 0 then 4 else 0
  free := [5]
  GAPS
  GAPE
  CUTLO
  BLEN
  ALEN := 0
  CURLINE := 1
  BLINES := 0
  ALINES := 0
  LFOVER := 0
  MARKON := false
  MARKPOS := 0
  CPSAVE := 0

theorem span_plain (f : Nat → Byte) (off n : Nat) (plain : ∀ i, f i = 0x41#8) :
    (span f off n).count LF = 0 := by
  rw [List.count_eq_zero]
  intro member
  obtain ⟨i, -, same⟩ := List.mem_map.mp member
  rw [plain] at same
  exact absurd same (by decide)

theorem sample_good {GAPS GAPE CUTLO BLEN : Nat} (gaps : 0x8000 ≤ GAPS) (gape : GAPS ≤ GAPE)
    (cutlo : GAPE ≤ CUTLO) (top : CUTLO ≤ ARENA_HI) (few : BLEN ≤ 0x4000) :
    Good sampleSetup (sampleEditor GAPS GAPE CUTLO BLEN) := by
  generalize sampleEq : sampleEditor GAPS GAPE CUTLO BLEN = sample
  have table (i : Nat) : sample.STPAGES i = if i = 0 then 4 else 0 := by rw [← sampleEq]; rfl
  have first : sample.STPAGES 0 = 4 := table 0
  have used (i : Nat) (nonzero : sample.STPAGES i ≠ 0) : i = 0 := by
    by_contra other
    rw [table, if_neg other] at nonzero
    exact nonzero rfl
  have front : sample.front.count LF = 0 :=
    span_plain _ _ _ fun i => by rw [← sampleEq]; rfl
  have before : (sample.before sampleSetup).count LF = 0 :=
    span_plain _ _ _ fun i => by rw [← sampleEq]; rfl
  constructor
  · constructor
    · intro i nonzero k low high same
      obtain rfl := used i nonzero
      rw [first] at same
      have four : 4 = k := same
      omega
    · intro i j nonzero same
      obtain rfl := used i nonzero
      rw [first] at same
      exact (used j (by rw [← same]; decide)).symm
    · intro p member
      rw [← sampleEq] at member
      obtain rfl := List.mem_singleton.mp member
      refine ⟨by decide, fun k low high same => ?_, fun i same => ?_⟩
      · have five : 5 = k := same
        omega
      · obtain rfl := used i (by rw [same]; decide)
        rw [first] at same
        exact absurd same (by decide)
    · rw [← sampleEq]
      exact List.pairwise_singleton _ _
  · rw [← sampleEq]
    exact gaps
  · rw [← sampleEq]
    exact gape
  · rw [← sampleEq]
    exact cutlo
  · rw [← sampleEq]
    exact top
  · rw [← sampleEq]
    exact Nat.le_trans few (by decide)
  · intro v below
    rw [← sampleEq] at below
    rw [Editor.Held, Nat.div_eq_of_lt (Nat.lt_of_lt_of_le below few), first]
    decide
  · intro v above below
    rw [← sampleEq] at above
    exact absurd below (Nat.not_lt.mpr above)
  · rw [List.count_append, front, before, ← sampleEq]
    rfl
  · rw [front, ← sampleEq]
    rfl
  · rw [← sampleEq]
    rfl
  · intro on
    rw [← sampleEq] at on
    cases on

theorem window_moves_sample : WindowMoves sampleSetup (sampleEditor 0x8003 0xE000 0xEFFE 2) :=
  window_moves (sample_good (by decide) (by decide) (by decide) (by decide) (by decide))

/-- A cut buffer that fills the arena leaves GOTOABS where it is. -/
theorem goto_stuck : Good sampleSetup (sampleEditor 0x8000 0x8000 0x8000 1) ∧
    ∃ s', Editor.gotoabs sampleSetup 0 1 (sampleEditor 0x8000 0x8000 0x8000 1) = some s' ∧
      s'.curabs sampleSetup ≠ 0 :=
  ⟨sample_good (by decide) (by decide) (by decide) (by decide) (by decide),
    _, rfl, by decide⟩

end Pugputer.Edit

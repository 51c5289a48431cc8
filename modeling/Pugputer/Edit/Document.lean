import Pugputer.Edit.Fill

namespace Pugputer.Edit

/-! Moving the window through the document. -/

variable {setup : Setup} {s : Editor}

/-- The document and the cursor in it are as they were. -/
structure Shifted (setup : Setup) (s s' : Editor) : Prop extends Kept setup s s' where
  curabs : s'.curabs setup = s.curabs setup
  MARKON : s'.MARKON = s.MARKON

theorem Shifted.refl (good : Good setup s) : Shifted setup s s := ⟨.refl good, rfl, rfl⟩

theorem Shifted.trans {a b c : Editor} (first : Shifted setup a b) (second : Shifted setup b c) :
    Shifted setup a c :=
  ⟨first.toKept.trans second.toKept, second.curabs.trans first.curabs,
    second.MARKON.trans first.MARKON⟩

theorem countlf_view {pages pages' : Pages} {x n : Nat} (low : setup.ARENA_LO ≤ x)
    (high : x + n ≤ ARENA_HI) (same : ∀ c, Banked c → setup.view pages' c = setup.view pages c) :
    setup.countlf pages x n = setup.countlf pages' x n := by
  rw [Setup.countlf_span, Setup.countlf_span]
  congr 1
  exact span_congr fun i small => (same _ (setup.banked (by omega) (by omega))).symm

/-- SPILLF takes all `n` characters or none. -/
structure SpilledF (setup : Setup) (s : Editor) (n : Nat) (out : Bool × Editor) : Prop where
  shifted : Shifted setup s out.2
  taken : if out.1 then out.2.BLEN = s.BLEN + n ∧ out.2.GAPS = s.GAPS - n
    else out.2.BLEN = s.BLEN ∧ out.2.GAPS = s.GAPS ∧ out.2.free = []
  GAPE : out.2.GAPE = s.GAPE
  ALEN : out.2.ALEN = s.ALEN

theorem spillf_spec (good : Good setup s) {n : Nat} (inside : n ≤ s.GAPS - setup.ARENA_LO)
    (room : s.BLEN + n + s.ALEN ≤ setup.VTOP) (mark : s.MARKON = true → n ≤ s.MARKPOS) :
    SpilledF setup s n (s.spillf setup n) := by
  have gaps := good.gaps
  have gape := good.gape
  have cutlo := good.cutlo
  have top := good.top
  have low := setup.low
  have size := setup.size
  have stop : ARENA_HI = 0xF000 := rfl
  rw [Editor.spillf]
  by_cases none : n = 0
  · rw [if_pos none, none]
    exact ⟨.refl good, ⟨rfl, rfl⟩, rfl, rfl⟩
  rw [if_neg none]
  dsimp only
  have copied : Out setup s setup.ARENA_LO s.BLEN n
      (Editor.xfer setup false n s setup.ARENA_LO s.BLEN n) :=
    xfer_out good.mapped (Nat.le_refl n) low (by omega) (by omega)
  have kept := Kept.out good (Nat.le_refl _) (by omega) copied
  generalize Editor.xfer setup false n s setup.ARENA_LO s.BLEN n = out at copied kept ⊢
  obtain ⟨ok, s₁⟩ := out
  have text := copied.text
  dsimp only at text kept
  have same : s₁.curabs setup = s.curabs setup := by
    rw [Editor.curabs, Editor.curabs, Editor.curpos, Editor.curpos, text.BLEN, text.GAPS]
  cases ok with
  | false => exact ⟨⟨kept, same, text.MARKON⟩, ⟨text.BLEN, text.GAPS, copied.full rfl⟩, text.GAPE,
      text.ALEN⟩
  | true =>
      have lines : setup.countlf s.pages setup.ARENA_LO n =
          setup.countlf s₁.pages setup.ARENA_LO n :=
        countlf_view (Nat.le_refl _) (by omega) copied.view
      have stored : ∀ i < n, s₁.Held (s₁.BLEN + i) ∧
          s₁.store (s₁.BLEN + i) = setup.view s₁.pages (setup.ARENA_LO + i) := by
        intro i small
        obtain ⟨held, there⟩ := copied.done rfl i small
        rw [text.BLEN, copied.view _ (setup.banked (Nat.le_add_right _ _) (by omega))]
        exact ⟨held, there⟩
      have moved := fun lfover cpsave => @spillf_moved setup s₁ kept.good n lfover cpsave
        (by rw [text.GAPS]; exact inside) (by rw [text.BLEN, text.ALEN]; exact room)
        (by rw [text.MARKON, text.MARKPOS]; exact mark) stored
      rw [← lines] at moved
      refine ⟨⟨kept.trans (moved _ _), ?_, text.MARKON⟩, ⟨?_, ?_⟩, text.GAPE, text.ALEN⟩
      · rw [← same, Editor.curabs, Editor.curabs, Editor.curpos, Editor.curpos]
        dsimp only
        rw [text.GAPS]
        omega
      · dsimp only
        rw [text.BLEN]
      · dsimp only
        rw [text.GAPS]

/-- SPILLB takes all `n` characters or none. -/
structure SpilledB (setup : Setup) (s : Editor) (n : Nat) (out : Bool × Editor) : Prop where
  shifted : Shifted setup s out.2
  taken : if out.1 then out.2.ALEN = s.ALEN + n ∧ out.2.GAPE = s.GAPE + n
    else out.2.ALEN = s.ALEN ∧ out.2.GAPE = s.GAPE ∧ out.2.free = []
  GAPS : out.2.GAPS = s.GAPS
  BLEN : out.2.BLEN = s.BLEN

theorem spillb_spec (good : Good setup s) {n : Nat} (inside : n ≤ s.CUTLO - s.GAPE)
    (room : s.BLEN + s.ALEN + n ≤ setup.VTOP)
    (mark : s.MARKON = true → n ≤ s.textlen setup - s.MARKPOS) :
    SpilledB setup s n (s.spillb setup n) := by
  have gaps := good.gaps
  have gape := good.gape
  have cutlo := good.cutlo
  have top := good.top
  have low := setup.low
  have size := setup.size
  have stop : ARENA_HI = 0xF000 := rfl
  rw [Editor.spillb]
  by_cases none : n = 0
  · rw [if_pos none, none]
    exact ⟨.refl good, ⟨rfl, rfl⟩, rfl, rfl⟩
  rw [if_neg none]
  dsimp only
  have copied : Out setup s (s.CUTLO - n) (setup.VTOP - s.ALEN - n) n
      (Editor.xfer setup false n s (s.CUTLO - n) (setup.VTOP - s.ALEN - n) n) :=
    xfer_out good.mapped (Nat.le_refl n) (by omega) (by omega) (by omega)
  have kept := Kept.out good (by omega) (by omega) copied
  generalize Editor.xfer setup false n s (s.CUTLO - n) (setup.VTOP - s.ALEN - n) n = out
    at copied kept ⊢
  obtain ⟨ok, s₁⟩ := out
  have text := copied.text
  dsimp only at text kept
  have same : s₁.curabs setup = s.curabs setup := by
    rw [Editor.curabs, Editor.curabs, Editor.curpos, Editor.curpos, text.BLEN, text.GAPS]
  cases ok with
  | false => exact ⟨⟨kept, same, text.MARKON⟩, ⟨text.ALEN, text.GAPE, copied.full rfl⟩, text.GAPS,
      text.BLEN⟩
  | true =>
      have lines : setup.countlf s.pages (s.CUTLO - n) n =
          setup.countlf s₁.pages (s₁.CUTLO - n) n := by
        rw [text.CUTLO]
        exact countlf_view (by omega) (by omega) copied.view
      have stored : ∀ i < n, s₁.Held (setup.VTOP - s₁.ALEN - n + i) ∧
          s₁.store (setup.VTOP - s₁.ALEN - n + i) = setup.view s₁.pages (s₁.CUTLO - n + i) := by
        intro i small
        obtain ⟨held, there⟩ := copied.done rfl i small
        rw [text.ALEN, text.CUTLO, copied.view _ (setup.banked (by omega) (by omega))]
        exact ⟨held, there⟩
      have moved := spillb_moved kept.good (by rw [text.CUTLO, text.GAPE]; exact inside)
        (by rw [text.BLEN, text.ALEN]; exact room)
        (by
          rw [text.MARKON, text.MARKPOS, Editor.textlen, text.CUTLO, text.GAPE, text.GAPS]
          exact mark)
        stored
      rw [← lines] at moved
      refine ⟨⟨kept.trans moved, same, text.MARKON⟩, ⟨?_, ?_⟩, text.GAPS, text.BLEN⟩
      · dsimp only
        rw [text.ALEN]
      · dsimp only
        rw [text.GAPE]

theorem fillf_spec (good : Good setup s) {n : Nat} (inside : n ≤ s.BLEN)
    (fits : n ≤ s.GAPE - s.GAPS) :
    Shifted setup s (s.fillf setup n) ∧ (s.fillf setup n).BLEN = s.BLEN - n := by
  by_cases none : n = 0
  · rw [Editor.fillf, if_pos none, none]
    exact ⟨.refl good, rfl⟩
  · have gaps := good.gaps
    have filled := fillf_done good none inside fits
    refine ⟨⟨filled.kept good inside fits, ?_, filled.MARKON⟩, filled.BLEN⟩
    rw [Editor.curabs, Editor.curabs, Editor.curpos, Editor.curpos, filled.BLEN, filled.GAPS]
    omega

theorem fillb_spec (good : Good setup s) {n : Nat} (inside : n ≤ s.ALEN)
    (fits : n ≤ s.GAPE - s.GAPS) :
    Shifted setup s (s.fillb setup n) ∧ (s.fillb setup n).BLEN = s.BLEN ∧
      (s.fillb setup n).textlen setup = s.textlen setup + n := by
  by_cases none : n = 0
  · rw [Editor.fillb, if_pos none, none]
    exact ⟨.refl good, rfl, rfl⟩
  · have gaps := good.gaps
    have gape := good.gape
    have cutlo := good.cutlo
    have filled := fillb_done good none inside fits
    refine ⟨⟨filled.kept good inside fits, ?_, filled.MARKON⟩, filled.BLEN, ?_⟩
    · rw [Editor.curabs, Editor.curabs, Editor.curpos, Editor.curpos, filled.BLEN, filled.GAPS]
    · rw [Editor.textlen, Editor.textlen, filled.CUTLO, filled.GAPE, filled.GAPS]
      omega

/-! ENSUREWIN and MAKEROOM. -/

theorem markwant_le (s : Editor) (want bound : Nat) : s.markwant want bound ≤ want ∧
    (s.MARKON = true → s.markwant want bound ≤ bound) := by
  rw [Editor.markwant]
  split
  · exact ⟨Nat.min_le_left .., fun _ => Nat.min_le_right ..⟩
  · rename_i off
    exact ⟨Nat.le_refl _, fun on => absurd on off⟩

theorem spillroom_le (setup : Setup) (s : Editor) :
    s.spillroom setup ≤ setup.VTOP - s.BLEN - s.ALEN :=
  Nat.le_trans (Nat.min_le_left ..) (Nat.sub_le ..)

theorem ewFront_spec (good : Good setup s) (HALF : Nat) :
    Shifted setup s (s.ewFront setup HALF) := by
  have room := good.room
  rw [Editor.ewFront]
  split
  · exact .refl good
  · obtain ⟨le, mark⟩ := markwant_le s
      (min (s.GAPS - setup.ARENA_LO - HALF) (s.spillroom setup)) s.MARKPOS
    have free := spillroom_le setup s
    exact (spillf_spec good (by omega) (by omega) mark).shifted

theorem ewBack_spec (good : Good setup s) (HALF : Nat) :
    Shifted setup s (s.ewBack setup HALF) := by
  have room := good.room
  rw [Editor.ewBack]
  split
  · exact .refl good
  · obtain ⟨le, mark⟩ := markwant_le s
      (min (s.CUTLO - s.GAPE - HALF) (s.spillroom setup)) (s.textlen setup - s.MARKPOS)
    have free := spillroom_le setup s
    exact (spillb_spec good (by omega) (by omega) mark).shifted

theorem ewFill_spec (good : Good setup s) (HALF : Nat) :
    Shifted setup s (s.ewFill setup HALF) := by
  rw [Editor.ewFill]
  split
  · exact .refl good
  · refine (fillf_spec good (by omega) ?_).1
    rw [Editor.gaproom]
    omega

theorem ewFillB_spec (good : Good setup s) (HALF : Nat) :
    Shifted setup s (s.ewFillB setup HALF) := by
  rw [Editor.ewFillB]
  split
  · exact .refl good
  · refine (fillb_spec good (by omega) ?_).1
    rw [Editor.gaproom]
    omega

theorem ensurewin_spec (good : Good setup s) : Shifted setup s (s.ensurewin setup) := by
  rw [Editor.ensurewin]
  split
  · have front := ewFront_spec good ((s.CUTLO - (setup.ARENA_LO + GAPMIN)) / 2)
    have back := ewBack_spec front.good ((s.CUTLO - (setup.ARENA_LO + GAPMIN)) / 2)
    have fill := ewFill_spec back.good ((s.CUTLO - (setup.ARENA_LO + GAPMIN)) / 2)
    have fillB := ewFillB_spec fill.good ((s.CUTLO - (setup.ARENA_LO + GAPMIN)) / 2)
    exact ((front.trans back).trans fill).trans fillB
  · exact .refl good

theorem makeroom_spec (good : Good setup s) (MKN : Nat) :
    Shifted setup s (s.makeroom setup MKN).2 ∧
      ((s.makeroom setup MKN).1 = true ↔
        MKN ≤ (s.makeroom setup MKN).2.GAPE - (s.makeroom setup MKN).2.GAPS) := by
  have room := good.room
  have enough (s : Editor) : s.needgap MKN = 0 ↔ MKN ≤ s.GAPE - s.GAPS := by
    rw [Editor.needgap]
    omega
  rw [Editor.makeroom]
  dsimp only
  split
  · rename_i done
    exact ⟨.refl good, iff_of_true rfl ((enough s).mp done)⟩
  · obtain ⟨le, mark⟩ := markwant_le s (s.GAPS - setup.ARENA_LO) s.MARKPOS
    have free := spillroom_le setup s
    have front := (spillf_spec (n := min (min (s.markwant (s.GAPS - setup.ARENA_LO) s.MARKPOS)
      (s.spillroom setup)) (s.needgap MKN)) good (by omega) (by omega)
      (fun on => by have bound := mark on; omega)).shifted
    generalize (s.spillf setup (min (min (s.markwant (s.GAPS - setup.ARENA_LO) s.MARKPOS)
      (s.spillroom setup)) (s.needgap MKN))).2 = s₁ at front ⊢
    split
    · rename_i done
      exact ⟨front, iff_of_true rfl ((enough s₁).mp done)⟩
    · obtain ⟨le₁, mark₁⟩ := markwant_le s₁ (s₁.CUTLO - s₁.GAPE)
        (s₁.textlen setup - s₁.MARKPOS)
      have free₁ := spillroom_le setup s₁
      have room₁ := front.good.room
      have back := (spillb_spec (n := min (min (s₁.markwant (s₁.CUTLO - s₁.GAPE)
        (s₁.textlen setup - s₁.MARKPOS)) (s₁.spillroom setup)) (s₁.needgap MKN)) front.good
        (by omega) (by omega) (fun on => by have bound := mark₁ on; omega)).shifted
      refine ⟨front.trans back, ?_⟩
      rw [decide_eq_true_eq]
      exact enough _

end Pugputer.Edit

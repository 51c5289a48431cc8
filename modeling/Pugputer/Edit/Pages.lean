import Pugputer.Edit.Window

namespace Pugputer.Edit

/-! Block moves in the arena, and between the arena and the store. -/

/-- An address in banks 1 to 3. -/
def Banked (a : Nat) : Prop := 0x4000 ≤ a ∧ a < 0x10000

variable {setup : Setup} {pages : Pages}

theorem Banked.bank {a : Nat} (banked : Banked a) : 1 ≤ a / 0x4000 ∧ a / 0x4000 < 4 := by
  obtain ⟨low, high⟩ := banked
  omega

namespace Setup

theorem view_poke {a c : Nat} (aIn : Banked a) (cIn : Banked c) (b : Byte) :
    setup.view (setup.poke pages a b) c = if c = a then b else setup.view pages c := by
  rw [view, poke]
  by_cases same : c = a
  · rw [if_pos same, if_pos ⟨by rw [same], by rw [same]⟩]
  · rw [if_neg same, if_neg]
    · rfl
    · rintro ⟨page, offset⟩
      have bank := setup.banks _ _ cIn.bank.1 cIn.bank.2 aIn.bank.1 aIn.bank.2 page
      omega

theorem poke_other {a p o : Nat} (aIn : Banked a)
    (other : ∀ k, 1 ≤ k → k < 4 → p ≠ setup.ARPAGE k) (b : Byte) :
    setup.poke pages a b p o = pages p o :=
  if_neg fun same => other _ aIn.bank.1 aIn.bank.2 same.1

theorem view_tfmUp {x y w c : Nat} (down : y ≤ x) (low : 0x4000 ≤ y) (high : x + w ≤ 0x10000)
    (cIn : Banked c) :
    setup.view (setup.tfmUp pages x y w) c =
      if y ≤ c ∧ c < y + w then setup.view pages (x + (c - y)) else setup.view pages c := by
  induction w generalizing pages x y with
  | zero => rw [tfmUp, if_neg (by omega)]
  | succ w ih =>
      have yIn : Banked y := ⟨low, by omega⟩
      rw [tfmUp, ih (Nat.succ_le_succ down) (by omega) (by omega)]
      by_cases later : y + 1 ≤ c ∧ c < y + 1 + w
      · have place : x + 1 + (c - (y + 1)) = x + (c - y) := by omega
        rw [if_pos later, if_pos (by omega), place, view_poke yIn ⟨by omega, by omega⟩,
          if_neg (by omega)]
      · rw [if_neg later, view_poke yIn cIn]
        by_cases here : c = y
        · rw [if_pos here, if_pos (by omega), here, Nat.sub_self, Nat.add_zero]
        · rw [if_neg here, if_neg (by omega)]

theorem view_tfmDown {x y w c : Nat} (up : x ≤ y) (low : 0x4000 + w ≤ x + 1) (high : y < 0x10000)
    (cIn : Banked c) :
    setup.view (setup.tfmDown pages x y w) c =
      if y < c + w ∧ c ≤ y then setup.view pages (x - (y - c)) else setup.view pages c := by
  induction w generalizing pages x y with
  | zero => rw [tfmDown, if_neg (by omega)]
  | succ w ih =>
      have yIn : Banked y := ⟨by omega, high⟩
      rw [tfmDown, ih (by omega) (by omega) (by omega)]
      by_cases later : y - 1 < c + w ∧ c ≤ y - 1
      · have place : x - 1 - (y - 1 - c) = x - (y - c) := by omega
        rw [if_pos later, if_pos (by omega), place, view_poke yIn ⟨by omega, by omega⟩,
          if_neg (by omega)]
      · rw [if_neg later, view_poke yIn cIn]
        by_cases here : c = y
        · rw [if_pos here, if_pos (by omega), here, Nat.sub_self, Nat.sub_zero]
        · rw [if_neg here, if_neg (by omega)]

theorem tfmUp_other {x y w p o : Nat} (low : 0x4000 ≤ y) (high : y + w ≤ 0x10000)
    (other : ∀ k, 1 ≤ k → k < 4 → p ≠ setup.ARPAGE k) :
    setup.tfmUp pages x y w p o = pages p o := by
  induction w generalizing pages x y with
  | zero => rfl
  | succ w ih => rw [tfmUp, ih (by omega) (by omega), poke_other ⟨low, by omega⟩ other]

theorem tfmDown_other {x y w p o : Nat} (low : 0x4000 + w ≤ y + 1) (high : y < 0x10000)
    (other : ∀ k, 1 ≤ k → k < 4 → p ≠ setup.ARPAGE k) :
    setup.tfmDown pages x y w p o = pages p o := by
  induction w generalizing pages x y with
  | zero => rfl
  | succ w ih => rw [tfmDown, ih (by omega) (by omega), poke_other ⟨by omega, high⟩ other]

theorem countlf_span (x d : Nat) :
    setup.countlf pages x d = (span (setup.view pages) x d).count LF := by
  induction d generalizing x with
  | zero => rfl
  | succ d ih =>
      have first : span (setup.view pages) x 1 = [setup.view pages x] := rfl
      rw [countlf, ih, Nat.add_comm d 1, ← span_append, List.count_append, first,
        List.count_singleton, Nat.add_comm]
      congr 1
      simp only [beq_iff_eq]

end Setup

/-- Every store page has RAM of its own, apart from the program's and from what is still free. -/
structure Mapped (setup : Setup) (s : Editor) : Prop where
  apart : ∀ i, s.STPAGES i ≠ 0 → ∀ k, 1 ≤ k → k < 4 → s.STPAGES i ≠ setup.ARPAGE k
  one : ∀ i j, s.STPAGES i ≠ 0 → s.STPAGES i = s.STPAGES j → i = j
  fresh : ∀ p ∈ s.free, p ≠ 0 ∧ (∀ k, 1 ≤ k → k < 4 → p ≠ setup.ARPAGE k) ∧ ∀ i, s.STPAGES i ≠ p
  nodup : s.free.Nodup

namespace Editor

variable (s : Editor)

/-- The store's bytes. -/
def store (v : Nat) : Byte := s.pages (s.STPAGES (v / 0x4000)) (v % 0x4000)

/-- A place in the store with RAM behind it. -/
def Held (v : Nat) : Prop := s.STPAGES (v / 0x4000) ≠ 0

end Editor

variable {s : Editor}

/-- Two states alike but for their pages. -/
structure SameText (s s' : Editor) : Prop where
  GAPS : s'.GAPS = s.GAPS
  GAPE : s'.GAPE = s.GAPE
  CUTLO : s'.CUTLO = s.CUTLO
  BLEN : s'.BLEN = s.BLEN
  ALEN : s'.ALEN = s.ALEN
  CURLINE : s'.CURLINE = s.CURLINE
  BLINES : s'.BLINES = s.BLINES
  ALINES : s'.ALINES = s.ALINES
  LFOVER : s'.LFOVER = s.LFOVER
  MARKON : s'.MARKON = s.MARKON
  MARKPOS : s'.MARKPOS = s.MARKPOS
  CPSAVE : s'.CPSAVE = s.CPSAVE

theorem SameText.refl (s : Editor) : SameText s s :=
  ⟨rfl, rfl, rfl, rfl, rfl, rfl, rfl, rfl, rfl, rfl, rfl, rfl⟩

theorem SameText.trans {a b c : Editor} (first : SameText a b) (second : SameText b c) :
    SameText a c :=
  ⟨second.GAPS.trans first.GAPS, second.GAPE.trans first.GAPE, second.CUTLO.trans first.CUTLO,
    second.BLEN.trans first.BLEN, second.ALEN.trans first.ALEN,
    second.CURLINE.trans first.CURLINE, second.BLINES.trans first.BLINES,
    second.ALINES.trans first.ALINES, second.LFOVER.trans first.LFOVER,
    second.MARKON.trans first.MARKON, second.MARKPOS.trans first.MARKPOS,
    second.CPSAVE.trans first.CPSAVE⟩

/-- A store page once it is taken. -/
structure Taken (setup : Setup) (s : Editor) (a p : Nat) (s' : Editor) : Prop where
  mapped : Mapped setup s'
  text : SameText s s'
  pages : s'.pages = s.pages
  page : s'.STPAGES a = p
  real : p ≠ 0
  kept : ∀ i, s.STPAGES i ≠ 0 → s'.STPAGES i = s.STPAGES i

theorem Mapped.stpage (mapped : Mapped setup s) {a p : Nat} {s' : Editor}
    (found : s.stpage a = some (p, s')) : Taken setup s a p s' := by
  rw [Editor.stpage] at found
  by_cases old : s.STPAGES a ≠ 0
  · rw [if_pos old] at found
    cases found
    exact ⟨mapped, .refl s, rfl, rfl, old, fun _ _ => rfl⟩
  · rw [if_neg old] at found
    have none : s.STPAGES a = 0 := not_not.mp old
    cases freeEq : s.free with
    | nil =>
        rw [freeEq] at found
        cases found
    | cons q free =>
        rw [freeEq] at found
        cases found
        have fresh := mapped.fresh
        have nodup := mapped.nodup
        rw [freeEq] at fresh nodup
        obtain ⟨real, apart, unused⟩ := fresh p List.mem_cons_self
        obtain ⟨absent, rest⟩ := List.nodup_cons.mp nodup
        refine ⟨⟨?_, ?_, ?_, rest⟩, ⟨rfl, rfl, rfl, rfl, rfl, rfl, rfl, rfl, rfl, rfl, rfl, rfl⟩,
          rfl, if_pos rfl, real, ?_⟩
        · intro i used
          dsimp only at used ⊢
          split
          · exact apart
          · rename_i other
            rw [if_neg other] at used
            exact mapped.apart i used
        · intro i j used same
          dsimp only at used same
          split at same
          · rename_i here
            split at same
            · rename_i there
              rw [here, there]
            · exact absurd same.symm (unused j)
          · rename_i other
            rw [if_neg other] at used
            split at same
            · exact absurd same (unused i)
            · exact mapped.one i j used same
        · intro r member
          obtain ⟨rReal, rApart, rUnused⟩ := fresh r (List.mem_cons_of_mem _ member)
          refine ⟨rReal, rApart, fun i => ?_⟩
          dsimp only
          split
          · rintro rfl
            exact absent member
          · exact rUnused i
        · intro i used
          refine if_neg ?_
          rintro rfl
          exact used none

/-! From RAM to the store. -/

/-- What a copy to the store leaves, carried out or cut short. -/
structure Out (setup : Setup) (s : Editor) (XRAM XVA n : Nat) (out : Bool × Editor) : Prop where
  mapped : Mapped setup out.2
  text : SameText s out.2
  view : ∀ c, Banked c → setup.view out.2.pages c = setup.view s.pages c
  kept : ∀ v, s.Held v → out.2.Held v ∧ (¬(XVA ≤ v ∧ v < XVA + n) → out.2.store v = s.store v)
  done : out.1 = true → ∀ i < n, out.2.Held (XVA + i) ∧
    out.2.store (XVA + i) = setup.view s.pages (XRAM + i)
  full : out.1 = false → out.2.free = []

theorem Out.nothing (mapped : Mapped setup s) (XRAM XVA : Nat) :
    Out setup s XRAM XVA 0 (true, s) :=
  ⟨mapped, .refl s, fun _ _ => rfl, fun _ held => ⟨held, fun _ => rfl⟩,
    fun _ i small => absurd small (Nat.not_lt_zero i), fun no => by cases no⟩

theorem Out.refused (mapped : Mapped setup s) (full : s.free = []) (XRAM XVA n : Nat) :
    Out setup s XRAM XVA n (false, s) :=
  ⟨mapped, .refl s, fun _ _ => rfl, fun _ held => ⟨held, fun _ => rfl⟩, fun ok => absurd ok Bool.false_ne_true,
    fun _ => full⟩

theorem Out.append {s₁ : Editor} {out : Bool × Editor} {XRAM XVA m n : Nat}
    (low : 0x4000 ≤ XRAM) (high : XRAM + m + n ≤ 0x10000)
    (first : Out setup s XRAM XVA m (true, s₁))
    (rest : Out setup s₁ (XRAM + m) (XVA + m) n out) : Out setup s XRAM XVA (m + n) out := by
  constructor
  · exact rest.mapped
  · exact first.text.trans rest.text
  · intro c banked
    rw [rest.view c banked, first.view c banked]
  · intro v held
    obtain ⟨held₁, same₁⟩ := first.kept v held
    obtain ⟨held₂, same₂⟩ := rest.kept v held₁
    exact ⟨held₂, fun outside => by rw [same₂ (by omega), same₁ (by omega)]⟩
  · intro ok i small
    by_cases before : i < m
    · obtain ⟨held, same⟩ := first.done rfl i before
      obtain ⟨held₂, same₂⟩ := rest.kept _ held
      exact ⟨held₂, by rw [same₂ (by omega), same]⟩
    · have place (base : Nat) : base + m + (i - m) = base + i := by omega
      have later := rest.done ok (i - m) (by omega)
      rw [place, place, first.view _ ⟨by omega, by omega⟩] at later
      exact later
  · exact rest.full

theorem Editor.stpage_none {a : Nat} (none : s.stpage a = none) : s.free = [] := by
  rw [Editor.stpage] at none
  split at none
  · cases none
  · split at none
    · assumption
    · cases none

theorem xfer_out (mapped : Mapped setup s) {fuel XRAM XVA n : Nat} (enough : n ≤ fuel)
    (low : 0x4000 ≤ XRAM) (high : XRAM + n ≤ 0x10000) (top : XVA + n ≤ 252 * 0x4000) :
    Out setup s XRAM XVA n (Editor.xfer setup false fuel s XRAM XVA n) := by
  induction fuel generalizing s XRAM XVA n with
  | zero =>
      obtain rfl := Nat.le_zero.mp enough
      exact .nothing mapped XRAM XVA
  | succ fuel ih =>
      rw [Editor.xfer]
      by_cases none : n = 0
      · rw [if_pos none, none]
        exact .nothing mapped XRAM XVA
      rw [if_neg none, Nat.mod_eq_of_lt (by omega : XVA / 0x4000 < 256)]
      cases found : s.stpage (XVA / 0x4000) with
      | none => exact .refused mapped (Editor.stpage_none found) XRAM XVA n
      | some page =>
          obtain ⟨p, s₁⟩ := page
          have taken := mapped.stpage found
          dsimp only
          generalize size : min (min (0x4000 - XRAM % 0x4000) (0x4000 - XVA % 0x4000)) n = XC
          have bank : 1 ≤ XRAM / 0x4000 ∧ XRAM / 0x4000 < 4 := by omega
          have apart : setup.ARPAGE (XRAM / 0x4000) ≠ p := by
            have others := taken.mapped.apart (XVA / 0x4000)
            rw [taken.page] at others
            exact (others taken.real _ bank.1 bank.2).symm
          have copied : pageCopy s₁.pages (setup.ARPAGE (XRAM / 0x4000)) p (XRAM % 0x4000)
              (XVA % 0x4000) XC = some fun q o =>
                if q = p ∧ XVA % 0x4000 ≤ o ∧ o < XVA % 0x4000 + XC then
                  s₁.pages (setup.ARPAGE (XRAM / 0x4000)) (XRAM % 0x4000 + (o - XVA % 0x4000))
                else s₁.pages q o :=
            if_pos ⟨by omega, by omega, fun same => absurd same apart⟩
          rw [if_neg Bool.false_ne_true, copied]
          dsimp only
          have view (c : Nat) (banked : Banked c) (pages' : Pages)
              (same : ∀ q o, q ≠ p → pages' q o = s₁.pages q o) :
              setup.view pages' c = setup.view s.pages c := by
            have other := taken.mapped.apart (XVA / 0x4000)
            rw [taken.page] at other
            have notHere := (other taken.real _ banked.bank.1 banked.bank.2).symm
            rw [Setup.view, same _ _ notHere, taken.pages]
            rfl
          have piece : Out setup s XRAM XVA XC (true, { s₁ with
              pages := fun q o =>
                if q = p ∧ XVA % 0x4000 ≤ o ∧ o < XVA % 0x4000 + XC then
                  s₁.pages (setup.ARPAGE (XRAM / 0x4000)) (XRAM % 0x4000 + (o - XVA % 0x4000))
                else s₁.pages q o }) := by
            constructor
            · exact ⟨taken.mapped.apart, taken.mapped.one, taken.mapped.fresh, taken.mapped.nodup⟩
            · exact ⟨taken.text.GAPS, taken.text.GAPE, taken.text.CUTLO, taken.text.BLEN,
                taken.text.ALEN, taken.text.CURLINE, taken.text.BLINES, taken.text.ALINES,
                taken.text.LFOVER, taken.text.MARKON, taken.text.MARKPOS, taken.text.CPSAVE⟩
            · intro c banked
              exact view c banked _ fun q o notHere => if_neg fun here => notHere here.1
            · intro v held
              have kept := taken.kept _ held
              refine ⟨?_, fun outside => ?_⟩
              · rw [Editor.Held]
                dsimp only
                rw [kept]
                exact held
              · rw [Editor.store, Editor.store]
                dsimp only
                rw [kept, if_neg, taken.pages]
                rintro ⟨here, within⟩
                rw [← kept, ← taken.page] at here
                have same := taken.mapped.one _ _ (by rw [kept]; exact held) here
                omega
            · intro _ i small
              have index : (XVA + i) / 0x4000 = XVA / 0x4000 := by omega
              have offset : (XVA + i) % 0x4000 = XVA % 0x4000 + i := by omega
              have ramBank : (XRAM + i) / 0x4000 = XRAM / 0x4000 := by omega
              have ramOffset : (XRAM + i) % 0x4000 = XRAM % 0x4000 + i := by omega
              rw [Editor.Held, Editor.store, Setup.view, index, offset, ramBank, ramOffset]
              dsimp only
              rw [taken.page, if_pos ⟨rfl, by omega, by omega⟩, Nat.add_sub_cancel_left, taken.pages]
              exact ⟨taken.real, rfl⟩
            · exact fun no => by cases no
          have whole : n = XC + (n - XC) := by omega
          have rest : Out setup _ (XRAM + XC) (XVA + XC) (n - XC) _ :=
            ih piece.mapped (by omega) (by omega) (by omega) (by omega)
          have both := Out.append low (by omega) piece rest
          rw [← whole] at both
          exact both

/-! From the store to RAM. -/

/-- What a copy from the store leaves: its pages are all there, so it is carried out. -/
structure Into (setup : Setup) (s : Editor) (XRAM XVA n : Nat) (out : Bool × Editor) : Prop where
  mapped : Mapped setup out.2
  text : SameText s out.2
  held : out.2.STPAGES = s.STPAGES
  store : ∀ v, s.Held v → out.2.store v = s.store v
  filled : ∀ i < n, setup.view out.2.pages (XRAM + i) = s.store (XVA + i)
  around : ∀ c, Banked c → ¬(XRAM ≤ c ∧ c < XRAM + n) →
    setup.view out.2.pages c = setup.view s.pages c

theorem Into.append {s₁ : Editor} {out : Bool × Editor} {XRAM XVA m n : Nat}
    (low : 0x4000 ≤ XRAM) (high : XRAM + m + n ≤ 0x10000) (held : ∀ i < m + n, s.Held (XVA + i))
    (first : Into setup s XRAM XVA m (true, s₁))
    (rest : Into setup s₁ (XRAM + m) (XVA + m) n out) : Into setup s XRAM XVA (m + n) out := by
  have held₁ {v : Nat} (here : s.Held v) : s₁.Held v := by
    have same : s₁.STPAGES = s.STPAGES := first.held
    rw [Editor.Held, same]
    exact here
  constructor
  · exact rest.mapped
  · exact first.text.trans rest.text
  · exact rest.held.trans first.held
  · intro v here
    rw [rest.store v (held₁ here), first.store v here]
  · intro i small
    by_cases before : i < m
    · rw [rest.around _ ⟨by omega, by omega⟩ (by omega), first.filled i before]
    · have place (base : Nat) : base + m + (i - m) = base + i := by omega
      have later := rest.filled (i - m) (by omega)
      rw [place, place, first.store _ (held i small)] at later
      exact later
  · intro c banked outside
    rw [rest.around c banked (by omega), first.around c banked (by omega)]

theorem xfer_in (mapped : Mapped setup s) {fuel XRAM XVA n : Nat} (enough : n ≤ fuel)
    (low : 0x4000 ≤ XRAM) (high : XRAM + n ≤ 0x10000) (top : XVA + n ≤ 252 * 0x4000)
    (held : ∀ i < n, s.Held (XVA + i)) :
    Into setup s XRAM XVA n (Editor.xfer setup true fuel s XRAM XVA n) := by
  have nothing (XRAM XVA : Nat) (s : Editor) (mapped : Mapped setup s) :
      Into setup s XRAM XVA 0 (true, s) :=
    ⟨mapped, .refl s, rfl, fun _ _ => rfl, fun i small => absurd small (Nat.not_lt_zero i),
      fun _ _ _ => rfl⟩
  induction fuel generalizing s XRAM XVA n with
  | zero =>
      obtain rfl := Nat.le_zero.mp enough
      exact nothing XRAM XVA s mapped
  | succ fuel ih =>
      rw [Editor.xfer]
      by_cases none : n = 0
      · rw [if_pos none, none]
        exact nothing XRAM XVA s mapped
      have here : s.STPAGES (XVA / 0x4000) ≠ 0 := held 0 (Nat.pos_of_ne_zero none)
      have found : s.stpage (XVA / 0x4000) = some (s.STPAGES (XVA / 0x4000), s) := if_pos here
      rw [if_neg none, Nat.mod_eq_of_lt (by omega : XVA / 0x4000 < 256), found]
      dsimp only
      generalize size : min (min (0x4000 - XRAM % 0x4000) (0x4000 - XVA % 0x4000)) n = XC
      have bank : 1 ≤ XRAM / 0x4000 ∧ XRAM / 0x4000 < 4 := by omega
      have apart := mapped.apart _ here _ bank.1 bank.2
      have copied : pageCopy s.pages (s.STPAGES (XVA / 0x4000)) (setup.ARPAGE (XRAM / 0x4000))
          (XVA % 0x4000) (XRAM % 0x4000) XC = some fun q o =>
            if q = setup.ARPAGE (XRAM / 0x4000) ∧ XRAM % 0x4000 ≤ o ∧ o < XRAM % 0x4000 + XC then
              s.pages (s.STPAGES (XVA / 0x4000)) (XVA % 0x4000 + (o - XRAM % 0x4000))
            else s.pages q o :=
        if_pos ⟨by omega, by omega, fun same => absurd same apart⟩
      rw [if_pos rfl, copied]
      dsimp only
      have piece : Into setup s XRAM XVA XC (true, { s with
          pages := fun q o =>
            if q = setup.ARPAGE (XRAM / 0x4000) ∧ XRAM % 0x4000 ≤ o ∧ o < XRAM % 0x4000 + XC then
              s.pages (s.STPAGES (XVA / 0x4000)) (XVA % 0x4000 + (o - XRAM % 0x4000))
            else s.pages q o }) := by
        constructor
        · exact ⟨mapped.apart, mapped.one, mapped.fresh, mapped.nodup⟩
        · exact ⟨rfl, rfl, rfl, rfl, rfl, rfl, rfl, rfl, rfl, rfl, rfl, rfl⟩
        · rfl
        · intro v vHeld
          rw [Editor.store, Editor.store]
          exact if_neg fun within => mapped.apart _ vHeld _ bank.1 bank.2 within.1
        · intro i small
          have index : (XVA + i) / 0x4000 = XVA / 0x4000 := by omega
          have offset : (XVA + i) % 0x4000 = XVA % 0x4000 + i := by omega
          have ramBank : (XRAM + i) / 0x4000 = XRAM / 0x4000 := by omega
          have ramOffset : (XRAM + i) % 0x4000 = XRAM % 0x4000 + i := by omega
          rw [Setup.view, Editor.store, index, offset, ramBank, ramOffset]
          dsimp only
          rw [if_pos ⟨rfl, by omega, by omega⟩, Nat.add_sub_cancel_left]
        · intro c banked outside
          rw [Setup.view, Setup.view]
          dsimp only
          refine if_neg ?_
          rintro ⟨page, within⟩
          have same := setup.banks _ _ banked.bank.1 banked.bank.2 bank.1 bank.2 page
          omega
      have whole : n = XC + (n - XC) := by omega
      have rest : Into setup _ (XRAM + XC) (XVA + XC) (n - XC) _ :=
        ih piece.mapped (by omega) (by omega) (by omega) (by omega) (by
          intro i small
          have place : XVA + XC + i = XVA + (XC + i) := Nat.add_assoc ..
          rw [place]
          exact held (XC + i) (by omega))
      have both := Into.append low (by omega) (by rw [← whole]; exact held) piece rest
      rw [← whole] at both
      exact both

end Pugputer.Edit

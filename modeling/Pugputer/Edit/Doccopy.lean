import Pugputer.Edit.Goto

namespace Pugputer.Edit

/-! DOCCOPY: the whole text, copied out of its four regions. -/

def STACKSIZE : Nat := 384
def NAMEMAX : Nat := 64
def SCHUNK : Nat := 256
def RDMAX : Nat := 255

/-- The buffers just below the arena are in banks 1 to 3 as well. -/
structure Layout extends Setup where
  buffers : 0x4000 + 512 + 256 + RDMAX + (SCHUNK + NAMEMAX) + STACKSIZE ≤ ARENA_LO

namespace Layout

variable (layout : Layout)

def SBUF : Nat := layout.ARENA_LO - STACKSIZE - (SCHUNK + NAMEMAX)
def RDBUF : Nat := layout.SBUF - RDMAX

theorem sbuf : 0x4000 ≤ layout.SBUF ∧ layout.SBUF + (SCHUNK + NAMEMAX) ≤ layout.ARENA_LO := by
  have room := layout.buffers
  rw [SBUF]
  omega

theorem rdbuf : 0x4000 ≤ layout.RDBUF ∧ layout.RDBUF + RDMAX ≤ layout.ARENA_LO := by
  have room := layout.buffers
  rw [RDBUF, SBUF]
  omega

end Layout

namespace Editor

variable (setup : Setup) (s : Editor)

/-- One piece of a DOCCOPY: how much it was, and what it left. -/
def docpiece (DCP DCN DCD : Nat) : Nat × Editor :=
  let DYREL := DCP - s.BLEN
  let windowed := s.GAPS - setup.ARENA_LO
  let store (XVA DYLEN : Nat) := (DYLEN, (xfer setup true DYLEN s DCD XVA DYLEN).2)
  let ram (x DYLEN : Nat) := (DYLEN, { s with pages := setup.tfmUp s.pages x DCD DYLEN })
  if DCP < s.BLEN then store DCP (min (min (s.BLEN - DCP) 0xFFFF) DCN)
  else if DYREL < 0x10000 ∧ DYREL < windowed then
    ram (setup.ARENA_LO + DYREL) (min (windowed - DYREL) DCN)
  else if DYREL < 0x10000 ∧ DYREL - windowed < s.CUTLO - s.GAPE then
    ram (s.GAPE + (DYREL - windowed)) (min (s.CUTLO - s.GAPE - (DYREL - windowed)) DCN)
  else store (DYREL - s.textlen setup + setup.VTOP - s.ALEN) DCN

/-- Copies `DCN` characters of the whole text, from position `DCP`, to `DCD`.  The fuel is
`DCN`: each piece has a character at least. -/
def doccopy : (fuel : Nat) → Editor → (DCP DCN DCD : Nat) → Editor
  | 0, s, _, _, _ => s
  | fuel + 1, s, DCP, DCN, DCD =>
      if DCN = 0 then s
      else
        let (DYLEN, s) := s.docpiece setup DCP DCN DCD
        doccopy fuel s (DCP + DYLEN) (DCN - DYLEN) (DCD + DYLEN)

end Editor

variable {setup : Setup} {s : Editor}

/-- A character of the whole text, by the region it is in. -/
def Editor.char (setup : Setup) (s : Editor) (p : Nat) : Byte :=
  if p < s.BLEN then s.store p
  else if p - s.BLEN < s.GAPS - setup.ARENA_LO then
    setup.view s.pages (setup.ARENA_LO + (p - s.BLEN))
  else if p - s.BLEN - (s.GAPS - setup.ARENA_LO) < s.CUTLO - s.GAPE then
    setup.view s.pages (s.GAPE + (p - s.BLEN - (s.GAPS - setup.ARENA_LO)))
  else s.store (setup.VTOP - s.ALEN + (p - s.BLEN - s.textlen setup))

theorem span_getElem? {α : Type} (f : Nat → α) {off n i : Nat} (inside : i < n) :
    (span f off n)[i]? = some (f (off + i)) := by
  rw [span, List.getElem?_map, List.getElem?_range inside]
  rfl

theorem whole_char (good : Good setup s) {p : Nat} (inside : p < (s.whole setup).length) :
    (s.whole setup)[p]? = some (s.char setup p) := by
  have gaps := good.gaps
  have gape := good.gape
  have cutlo := good.cutlo
  have text : s.textlen setup = s.CUTLO - s.GAPE + s.GAPS - setup.ARENA_LO := rfl
  rw [whole_length good] at inside
  rw [Editor.whole, List.append_assoc, Editor.char]
  split
  · next front =>
      rw [Editor.front, List.getElem?_append_left (by rwa [span_length]), span_getElem? _ front,
        Nat.zero_add]
  · next past =>
      rw [Editor.front, List.getElem?_append_right (by rw [span_length]; omega), span_length]
      split
      · next before =>
          rw [Editor.before, List.getElem?_append_left (by rwa [span_length]),
            span_getElem? _ before]
      · next pastGap =>
          rw [Editor.before, List.getElem?_append_right (by rw [span_length]; omega), span_length]
          split
          · next after =>
              rw [Editor.after, List.getElem?_append_left (by rwa [span_length]),
                span_getElem? _ after]
          · next back =>
              rw [Editor.after, List.getElem?_append_right (by rw [span_length]; omega),
                span_length, Editor.back, span_getElem? _ (by omega)]
              congr 2
              omega

/-- The text and everything about it is as it was: only RAM below the arena has changed. -/
structure Aside (setup : Setup) (s s' : Editor) : Prop where
  mapped : Mapped setup s'
  text : SameText s s'
  held : s'.STPAGES = s.STPAGES
  store : ∀ v, s.Held v → s'.store v = s.store v
  arena : ∀ c, setup.ARENA_LO ≤ c → c < 0x10000 → setup.view s'.pages c = setup.view s.pages c

theorem Aside.refl (mapped : Mapped setup s) : Aside setup s s :=
  ⟨mapped, .refl s, rfl, fun _ _ => rfl, fun _ _ _ => rfl⟩

theorem Aside.trans {a b c : Editor} (first : Aside setup a b) (second : Aside setup b c) :
    Aside setup a c := by
  refine ⟨second.mapped, first.text.trans second.text, second.held.trans first.held,
    fun v held => ?_, fun c low high => ?_⟩
  · have held' : b.Held v := by
      rw [Editor.Held, first.held]
      exact held
    rw [second.store v held', first.store v held]
  · rw [second.arena c low high, first.arena c low high]

theorem Aside.parts {s' : Editor} (good : Good setup s) (aside : Aside setup s s') :
    s'.front = s.front ∧ s'.before setup = s.before setup ∧ s'.after setup = s.after setup ∧
      s'.back setup = s.back setup ∧ s'.cut setup = s.cut setup := by
  have low := setup.low
  have stop : ARENA_HI = 0xF000 := rfl
  have gaps := good.gaps
  have gape := good.gape
  have cutlo := good.cutlo
  have top := good.top
  have room := good.room
  have text := aside.text
  refine ⟨?_, ?_, ?_, ?_, ?_⟩
  · rw [Editor.front, Editor.front, text.BLEN]
    exact span_congr fun i small => aside.store _ (good.heldFront _ (by omega))
  · rw [Editor.before, Editor.before, text.GAPS]
    exact span_congr fun i small => aside.arena _ (by omega) (by omega)
  · rw [Editor.after, Editor.after, text.GAPE, text.CUTLO]
    exact span_congr fun i small => aside.arena _ (by omega) (by omega)
  · rw [Editor.back, Editor.back, text.ALEN]
    exact span_congr fun i small => aside.store _ (good.heldBack _ (by omega) (by omega))
  · rw [Editor.cut, Editor.cut, text.CUTLO]
    exact span_congr fun i small => aside.arena _ (by omega) (by omega)

theorem Aside.shifted {s' : Editor} (good : Good setup s) (aside : Aside setup s s') :
    Shifted setup s s' := by
  obtain ⟨front, before, after, back, cut⟩ := aside.parts good
  have text := aside.text
  have length : s'.textlen setup = s.textlen setup := by
    rw [Editor.textlen, Editor.textlen, text.CUTLO, text.GAPE, text.GAPS]
  have held {v : Nat} (here : s.Held v) : s'.Held v := by
    rw [Editor.Held, aside.held]
    exact here
  refine ⟨⟨⟨aside.mapped, ?_, ?_, ?_, ?_, ?_, ?_, ?_, ?_, ?_, ?_, ?_⟩, ?_, cut, text.CUTLO, ?_⟩, ?_,
    text.MARKON⟩
  · exact text.GAPS ▸ good.gaps
  · rw [text.GAPS, text.GAPE]
    exact good.gape
  · rw [text.GAPE, text.CUTLO]
    exact good.cutlo
  · exact text.CUTLO ▸ good.top
  · rw [text.BLEN, text.ALEN]
    exact good.room
  · rw [text.BLEN]
    exact fun v below => held (good.heldFront v below)
  · rw [text.ALEN]
    exact fun v above below => held (good.heldBack v above below)
  · rw [text.CURLINE, front, before]
    exact good.curline
  · rw [text.BLINES, front]
    exact good.blines
  · rw [text.ALINES, back]
    exact good.alines
  · rw [text.MARKON, text.MARKPOS, length]
    exact good.mark
  · rw [Editor.whole, Editor.whole, front, before, after, back]
  · rw [text.MARKON, text.BLEN, text.MARKPOS]
    exact fun on => ⟨on, rfl⟩
  · rw [Editor.curabs, Editor.curabs, Editor.curpos, Editor.curpos, text.BLEN, text.GAPS]

/-- `n` characters of the whole text are at `DCD`, and RAM elsewhere is as it was. -/
structure Copied (setup : Setup) (s : Editor) (DCP n DCD : Nat) (s' : Editor) : Prop
    extends Aside setup s s' where
  there : ∀ i < n, setup.view s'.pages (DCD + i) = s.char setup (DCP + i)
  around : ∀ c, Banked c → ¬(DCD ≤ c ∧ c < DCD + n) →
    setup.view s'.pages c = setup.view s.pages c

theorem Into.copied {DCP DCD XVA n : Nat} {out : Bool × Editor}
    (into : Into setup s DCD XVA n out) (low : 0x4000 ≤ DCD) (high : DCD + n ≤ setup.ARENA_LO)
    (same : ∀ i < n, s.store (XVA + i) = s.char setup (DCP + i)) :
    Copied setup s DCP n DCD out.2 := by
  refine ⟨⟨into.mapped, into.text, into.held, into.store, fun c above below => ?_⟩, fun i small => ?_,
    into.around⟩
  · exact into.around c ⟨by omega, below⟩ (by omega)
  · rw [into.filled i small, same i small]

theorem tfmUp_copied (good : Good setup s) {x DCP DCD n : Nat} (low : 0x4000 ≤ DCD)
    (high : DCD + n ≤ setup.ARENA_LO) (above : setup.ARENA_LO ≤ x) (top : x + n ≤ 0x10000)
    (same : ∀ i < n, setup.view s.pages (x + i) = s.char setup (DCP + i)) :
    Copied setup s DCP n DCD { s with pages := setup.tfmUp s.pages x DCD n } := by
  have moved {c : Nat} (banked : Banked c) : setup.view (setup.tfmUp s.pages x DCD n) c =
      if DCD ≤ c ∧ c < DCD + n then setup.view s.pages (x + (c - DCD))
      else setup.view s.pages c :=
    Setup.view_tfmUp (by omega) low top banked
  have apart (p o : Nat) (other : ∀ k, 1 ≤ k → k < 4 → p ≠ setup.ARPAGE k) :
      setup.tfmUp s.pages x DCD n p o = s.pages p o :=
    Setup.tfmUp_other low (by omega) other
  refine ⟨⟨good.mapped.congr rfl rfl, ⟨rfl, rfl, rfl, rfl, rfl, rfl, rfl, rfl, rfl, rfl, rfl, rfl⟩,
    rfl, fun v held => ?_, fun c arena below => ?_⟩, fun i small => ?_, fun c banked outside => ?_⟩
  · apply good.mapped.store_arena
    · rfl
    · exact apart
    · exact held
  · rw [moved ⟨by omega, below⟩, if_neg (by omega)]
  · rw [moved ⟨by omega, by omega⟩, if_pos (by omega), ← same i small, Nat.add_sub_cancel_left]
  · rw [moved banked, if_neg outside]

theorem docpiece_spec (good : Good setup s) {DCP DCN DCD : Nat} (some : DCN ≠ 0)
    (inside : DCP + DCN ≤ (s.whole setup).length) (low : 0x4000 ≤ DCD)
    (high : DCD + DCN ≤ setup.ARENA_LO) :
    (s.docpiece setup DCP DCN DCD).1 ≠ 0 ∧ (s.docpiece setup DCP DCN DCD).1 ≤ DCN ∧
      Copied setup s DCP (s.docpiece setup DCP DCN DCD).1 DCD (s.docpiece setup DCP DCN DCD).2 := by
  have arena := setup.low
  have stop : ARENA_HI = 0xF000 := rfl
  have gaps := good.gaps
  have gape := good.gape
  have cutlo := good.cutlo
  have top := good.top
  have room := good.room
  have size := setup.size
  have text : s.textlen setup = s.CUTLO - s.GAPE + s.GAPS - setup.ARENA_LO := rfl
  rw [whole_length good] at inside
  rw [Editor.docpiece]
  dsimp only
  split
  · next front =>
      dsimp only
      refine ⟨by omega, by omega, ?_⟩
      generalize piece : min (min (s.BLEN - DCP) 0xFFFF) DCN = n
      refine (xfer_in good.mapped (Nat.le_refl n) low (by omega) (by omega) fun i small =>
        good.heldFront _ (by omega)).copied low (by omega) fun i small => ?_
      rw [Editor.char, if_pos (by omega)]
  · next past =>
      split
      · next before =>
          dsimp only
          refine ⟨by omega, by omega, ?_⟩
          generalize piece : min (s.GAPS - setup.ARENA_LO - (DCP - s.BLEN)) DCN = n
          refine tfmUp_copied good low (by omega) (by omega) (by omega) fun i small => ?_
          rw [Editor.char, if_neg (by omega), if_pos (by omega)]
          congr 1
          omega
      · next pastGap =>
          split
          · next after =>
              dsimp only
              refine ⟨by omega, by omega, ?_⟩
              generalize piece : min (s.CUTLO - s.GAPE -
                (DCP - s.BLEN - (s.GAPS - setup.ARENA_LO))) DCN = n
              refine tfmUp_copied good low (by omega) (by omega) (by omega) fun i small => ?_
              rw [Editor.char, if_neg (by omega), if_neg (by omega), if_pos (by omega)]
              congr 1
              omega
          · next back =>
              refine ⟨some, Nat.le_refl _, ?_⟩
              refine (xfer_in good.mapped (Nat.le_refl DCN) low (by omega) (by omega) fun i small =>
                good.heldBack _ (by omega) (by omega)).copied low (by omega) fun i small => ?_
              rw [Editor.char, if_neg (by omega), if_neg (by omega), if_neg (by omega)]
              congr 1
              omega

theorem Aside.char {s' : Editor} (good : Good setup s) (aside : Aside setup s s') {p : Nat}
    (inside : p < (s.whole setup).length) : s'.char setup p = s.char setup p := by
  have shifted := aside.shifted good
  have there := whole_char shifted.good (by rw [shifted.whole]; exact inside)
  rw [shifted.whole, whole_char good inside] at there
  exact (Option.some.inj there).symm

theorem doccopy_spec (good : Good setup s) {fuel DCP DCN DCD : Nat} (enough : DCN ≤ fuel)
    (inside : DCP + DCN ≤ (s.whole setup).length) (low : 0x4000 ≤ DCD)
    (high : DCD + DCN ≤ setup.ARENA_LO) :
    Copied setup s DCP DCN DCD (Editor.doccopy setup fuel s DCP DCN DCD) := by
  have nothing (s : Editor) (good : Good setup s) (DCP DCD : Nat) : Copied setup s DCP 0 DCD s :=
    ⟨.refl good.mapped, fun i small => absurd small (Nat.not_lt_zero i), fun _ _ _ => rfl⟩
  have arena := setup.high
  have stop : ARENA_HI = 0xF000 := rfl
  induction fuel generalizing s DCP DCN DCD with
  | zero =>
      obtain rfl := Nat.le_zero.mp enough
      exact nothing s good DCP DCD
  | succ fuel ih =>
      rw [Editor.doccopy]
      by_cases none : DCN = 0
      · rw [if_pos none, none]
        exact nothing s good DCP DCD
      rw [if_neg none]
      obtain ⟨positive, fits, first⟩ := docpiece_spec good none inside low high
      generalize s.docpiece setup DCP DCN DCD = piece at positive fits first ⊢
      obtain ⟨n, s₁⟩ := piece
      dsimp only at positive fits first ⊢
      have shifted := first.toAside.shifted good
      have rest : Copied setup s₁ (DCP + n) (DCN - n) (DCD + n) _ :=
        ih shifted.good (by omega) (by rw [shifted.whole]; omega) (by omega) (by omega)
      refine ⟨first.toAside.trans rest.toAside, fun i small => ?_, fun c banked outside => ?_⟩
      · by_cases early : i < n
        · rw [rest.around _ ⟨by omega, by omega⟩ (by omega), first.there i early]
        · have later := rest.there (i - n) (by omega)
          have place (base : Nat) : base + n + (i - n) = base + i := by omega
          rw [place, place, first.toAside.char good (by omega)] at later
          exact later
      · rw [rest.around c banked (by omega), first.around c banked (by omega)]

end Pugputer.Edit

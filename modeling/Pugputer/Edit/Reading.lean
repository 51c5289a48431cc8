import Pugputer.Edit.Files

namespace Pugputer.Edit

open Lib.LineEnds

/-! LOADFILE: the window fills, and spills into the store. -/

variable {setup : Setup} {s : Editor}

namespace Editor

/-! Nothing on the way to the store looks at CURLINE. -/

theorem stpage_curline (s : Editor) (c a : Nat) : ({ s with CURLINE := c } : Editor).stpage a =
    (s.stpage a).map fun out => (out.1, { out.2 with CURLINE := c }) := by
  rw [stpage, stpage]
  dsimp only
  split
  · rfl
  · cases s.free <;> rfl

theorem xfer_curline (setup : Setup) (inward : Bool) (c fuel : Nat) (s : Editor)
    (XRAM XVA XLEN : Nat) :
    xfer setup inward fuel { s with CURLINE := c } XRAM XVA XLEN =
      ((xfer setup inward fuel s XRAM XVA XLEN).1,
        { (xfer setup inward fuel s XRAM XVA XLEN).2 with CURLINE := c }) := by
  induction fuel generalizing s XRAM XVA XLEN with
  | zero => rfl
  | succ fuel ih =>
      rw [xfer, xfer]
      split
      · rfl
      · dsimp only
        rw [stpage_curline]
        cases s.stpage (XVA / 0x4000 % 256) with
        | none => rfl
        | some found =>
            obtain ⟨XSP, s'⟩ := found
            dsimp only [Option.map_some]
            generalize (if inward = true then _ else _ : Option Pages) = copied
            cases copied with
            | none => rfl
            | some pages => exact ih { s' with pages } _ _ _

theorem spillf_curline (setup : Setup) (s : Editor) (c n : Nat) :
    ({ s with CURLINE := c } : Editor).spillf setup n =
      ((s.spillf setup n).1, { (s.spillf setup n).2 with CURLINE := c }) := by
  rw [spillf, spillf]
  split
  · rfl
  · dsimp only
    rw [xfer_curline]
    generalize xfer setup false n s setup.ARENA_LO s.BLEN n = out
    obtain ⟨ok, s'⟩ := out
    cases ok <;> rfl

end Editor

theorem front_take (s : Editor) (setup : Setup) : s.front = (s.whole setup).take s.BLEN := by
  have length : s.front.length = s.BLEN := span_length _ _ _
  rw [Editor.whole, List.append_assoc, List.take_append_of_le_length (Nat.le_of_eq length.symm),
    ← length, List.take_length]

/-- Spilled lines are counted, the ones over 65535 by LFOVER. -/
theorem spillf_lines (good : Good setup s) {n : Nat} (inside : n ≤ s.GAPS - setup.ARENA_LO)
    (room : s.BLEN + n + s.ALEN ≤ setup.VTOP) (mark : s.MARKON = true → n ≤ s.MARKPOS)
    (lines : s.front.count LF = s.BLINES + 65536 * s.LFOVER)
    (ok : (s.spillf setup n).1 = true) :
    (s.spillf setup n).2.front.count LF =
      (s.spillf setup n).2.BLINES + 65536 * (s.spillf setup n).2.LFOVER := by
  by_cases none : n = 0
  · have same : s.spillf setup n = (true, s) := if_pos none
    rw [same]
    exact lines
  have low := setup.low
  have size := setup.size
  have stop : ARENA_HI = 0xF000 := rfl
  have gape := good.gape
  have cutlo := good.cutlo
  have top := good.top
  have spilled := spillf_spec good inside room mark
  have whole := spilled.shifted.whole
  have taken := spilled.taken
  rw [if_pos ok] at taken
  have counters : (s.spillf setup n).2.BLINES =
      (s.BLINES + setup.countlf s.pages setup.ARENA_LO n) % 65536 ∧
      (s.spillf setup n).2.LFOVER =
        if s.BLINES + setup.countlf s.pages setup.ARENA_LO n < 65536 then s.LFOVER
        else (s.LFOVER + 1) % 256 := by
    have copied : Out setup s setup.ARENA_LO s.BLEN n
        (Editor.xfer setup false n s setup.ARENA_LO s.BLEN n) :=
      xfer_out good.mapped (Nat.le_refl n) low (by omega) (by omega)
    rw [Editor.spillf, if_neg none] at ok ⊢
    dsimp only at ok ⊢
    generalize Editor.xfer setup false n s setup.ARENA_LO s.BLEN n = out at copied ok ⊢
    obtain ⟨done, s₁⟩ := out
    have text := copied.text
    cases done with
    | false => cases ok
    | true =>
        dsimp only at text ⊢
        rw [text.BLINES, text.LFOVER]
        exact ⟨rfl, rfl⟩
  have more : (s.spillf setup n).2.front.count LF =
      s.front.count LF + setup.countlf s.pages setup.ARENA_LO n := by
    have length : s.front.length = s.BLEN := span_length _ _ _
    have first : (s.before setup).take n = span (setup.view s.pages) setup.ARENA_LO n := by
      have split : n + (s.GAPS - setup.ARENA_LO - n) = s.GAPS - setup.ARENA_LO := by omega
      rw [Editor.before, ← split, ← span_append, List.take_left' (span_length _ _ _)]
    have cut : n ≤ (s.before setup).length := by rwa [Editor.before, span_length]
    rw [front_take _ setup, whole, taken.1, Editor.whole, List.append_assoc, ← length,
      List.take_length_add_append, List.count_append, List.take_append_of_le_length cut, first,
      Setup.countlf_span]
  have few : setup.countlf s.pages setup.ARENA_LO n ≤ n := by
    rw [Setup.countlf_span]
    exact Nat.le_trans List.count_le_length (Nat.le_of_eq (span_length _ _ _))
  have all : (s.spillf setup n).2.front.count LF ≤ s.BLEN + n := by
    rw [← taken.1]
    exact Nat.le_trans List.count_le_length (Nat.le_of_eq (span_length _ _ _))
  have bound : s.BLINES < 65536 := by
    rw [good.blines]
    exact Nat.mod_lt _ (by decide)
  rw [more] at all ⊢
  rw [counters.1, counters.2, lines]
  rw [lines] at all
  split
  · omega
  · omega

/-- A text that is being read in: the window's part is all before the gap, at `y`. -/
structure Filling (setup : Setup) (s : Editor) (y : Nat) (text : List Byte) : Prop where
  good : Good setup { s with GAPS := y, CURLINE := (1 + text.count LF) % 65536 }
  whole : Editor.whole setup { s with GAPS := y } = text
  gape : s.GAPE = s.CUTLO
  alen : s.ALEN = 0
  unmarked : s.MARKON = false
  lines : s.front.count LF = s.BLINES + 65536 * s.LFOVER

theorem newbuf_filling (good : Good setup s) :
    Filling setup (s.newbuf setup) setup.ARENA_LO [] := by
  have low := Nat.le_trans good.gaps (Nat.le_trans good.gape good.cutlo)
  have text : Editor.whole setup { s.newbuf setup with GAPS := setup.ARENA_LO } = [] := by
    rw [Editor.whole, Editor.front, Editor.before, Editor.after, Editor.back, Editor.newbuf]
    dsimp only
    rw [Nat.sub_self, Nat.sub_self]
    rfl
  refine ⟨⟨good.mapped.congr rfl rfl, Nat.le_refl _, low, Nat.le_refl _, good.top, Nat.zero_le _,
    fun v below => absurd below (Nat.not_lt_zero v), fun v above below => ?_, ?_, rfl, rfl,
    fun on => ?_⟩, text, rfl, rfl, rfl, rfl⟩
  · exact absurd below (Nat.not_lt.mpr above)
  · rw [Editor.front, Editor.before, Editor.newbuf]
    dsimp only
    rw [Nat.sub_self]
    rfl
  · cases on

theorem whole_before (gape : s.GAPE = s.CUTLO) (alen : s.ALEN = 0) :
    s.whole setup = s.front ++ s.before setup := by
  rw [Editor.whole, Editor.after, Editor.back, gape, alen, Nat.sub_self]
  exact List.append_nil _

/-- There is nothing after the gap. -/
theorem Filling.before {y : Nat} {text : List Byte} (filling : Filling setup s y text) :
    s.front ++ Editor.before setup { s with GAPS := y } = text :=
  (whole_before (s := { s with GAPS := y }) filling.gape filling.alen).symm.trans filling.whole

theorem Filling.push {y : Nat} {text : List Byte} (filling : Filling setup s y text)
    (room : y < s.GAPE) (a : Byte) :
    Filling setup { s with pages := setup.poke s.pages y a } (y + 1) (text ++ [a]) := by
  have good := filling.good
  have low : setup.ARENA_LO ≤ y := good.gaps
  have cutlo : s.GAPE ≤ s.CUTLO := good.cutlo
  have top : s.CUTLO ≤ ARENA_HI := good.top
  have here : Banked y := setup.banked low (by omega)
  generalize next : ({ s with pages := setup.poke s.pages y a } : Editor) = s'
  have store {v : Nat} (held : s.Held v) : s'.store v = s.store v := by
    subst next
    apply good.mapped.store_arena
    · rfl
    · exact fun p o other => Setup.poke_other here other a
    · exact held
  have front : s'.front = s.front := by
    have heldFront : ∀ v < s.BLEN, s.Held v := good.heldFront
    have same : s'.BLEN = s.BLEN := by rw [← next]
    rw [Editor.front, Editor.front, same]
    exact span_congr fun i small => store (heldFront _ (by omega))
  have before : Editor.before setup { s' with GAPS := y + 1 } =
      Editor.before setup { s with GAPS := y } ++ [a] := by
    subst next
    have grown : y + 1 - setup.ARENA_LO = y - setup.ARENA_LO + 1 := by omega
    have place : setup.ARENA_LO + (y - setup.ARENA_LO) = y := by omega
    rw [Editor.before, Editor.before]
    dsimp only
    rw [grown, ← span_append]
    congr 1
    · refine span_congr fun i small => ?_
      rw [Setup.view_poke here (setup.banked (by omega) (by omega)), if_neg (by omega)]
    · rw [place, span, List.range_one, List.map_singleton, Nat.add_zero,
        Setup.view_poke here here, if_pos rfl]
  have text' : s'.front ++ Editor.before setup { s' with GAPS := y + 1 } = text ++ [a] := by
    rw [front, before, ← List.append_assoc, filling.before]
  subst next
  have none (s : Editor) (alen : s.ALEN = 0) : (s.back setup).count LF = 0 := by
    rw [Editor.back, alen]
    rfl
  refine ⟨⟨good.mapped.congr rfl rfl, Nat.le_succ_of_le low, room, cutlo, top, good.room,
    good.heldFront, good.heldBack, ?_, good.blines.trans ?_, good.alines.trans ?_, fun on => ?_⟩,
    Eq.trans ?_ text', filling.gape, filling.alen,
    filling.unmarked, Eq.trans ?_ filling.lines⟩
  · rw [← text']
    rfl
  · exact congrArg (fun f => f.count LF % 65536) front.symm
  · refine (congrArg (· % 65536) (none _ ?_)).trans (congrArg (· % 65536) (none _ ?_)).symm
    · exact filling.alen
    · exact filling.alen
  · rw [filling.unmarked] at on
    cases on
  · apply whole_before
    · exact filling.gape
    · exact filling.alen
  · exact congrArg (List.count LF) front

theorem Filling.spillf {y n : Nat} {text : List Byte} (filling : Filling setup s y text)
    (inside : n ≤ y - setup.ARENA_LO) (room : s.BLEN + n + s.ALEN ≤ setup.VTOP)
    (ok : (Editor.spillf setup { s with GAPS := y } n).1 = true) :
    Filling setup (Editor.spillf setup { s with GAPS := y } n).2
      (Editor.spillf setup { s with GAPS := y } n).2.GAPS text ∧
    (Editor.spillf setup { s with GAPS := y } n).2.GAPS = y - n ∧
    (Editor.spillf setup { s with GAPS := y } n).2.GAPE = s.GAPE := by
  have unmarked (on : s.MARKON = true) (bound : Nat) : n ≤ bound := by
    rw [filling.unmarked] at on
    cases on
  have spilled := spillf_spec filling.good inside room (fun on => unmarked on _)
  have lines := spillf_lines filling.good inside room (fun on => unmarked on _) filling.lines
  have same := Editor.spillf_curline setup { s with GAPS := y } ((1 + text.count LF) % 65536) n
  dsimp only at same
  rw [same] at spilled lines
  generalize Editor.spillf setup { s with GAPS := y } n = out at spilled lines ok ⊢
  obtain ⟨taken, s'⟩ := out
  dsimp only at ok
  subst ok
  have taken := spilled.taken
  dsimp only at taken ⊢
  rw [if_pos rfl] at taken
  have cutlo : s'.CUTLO = s.CUTLO := spilled.shifted.cutlo
  have gape : s'.GAPE = s.GAPE := spilled.GAPE
  refine ⟨⟨spilled.shifted.good, spilled.shifted.whole.trans filling.whole, ?_,
    spilled.ALEN.trans filling.alen, spilled.shifted.MARKON.trans filling.unmarked, lines rfl⟩,
    taken.2, gape⟩
  rw [gape, cutlo, filling.gape]

/-- What LD_PUT leaves, unless the store is full. -/
theorem Loading.ldPut_filling {l l' : Loading} {text : List Byte} {a : Byte}
    (filling : Filling setup l.s l.y text) (put : l.ldPut setup a = some l') :
    Filling setup l'.s l'.y (text ++ [a]) ∧
      l' = { l with s := l'.s, y := l'.y, LASTLD := a } := by
  rw [Loading.ldPut] at put
  dsimp only at put
  split at put
  · next room =>
      obtain rfl := Option.some.inj put
      exact ⟨filling.push room a, rfl⟩
  · next full =>
      rw [Editor.ldSpill] at put
      dsimp only at put
      have low : setup.ARENA_LO ≤ l.y := filling.good.gaps
      have gape : l.y ≤ l.s.GAPE := filling.good.gape
      have all : l.s.BLEN + l.s.ALEN ≤ setup.VTOP := filling.good.room
      generalize size : min (l.y - setup.ARENA_LO)
        (Editor.spillroom setup { l.s with GAPS := l.y }) = n at put
      have inside : n ≤ l.y - setup.ARENA_LO := by
        rw [← size]
        exact Nat.min_le_left ..
      have free : n ≤ setup.VTOP - l.s.BLEN - l.s.ALEN := by
        rw [← size]
        exact Nat.le_trans (Nat.min_le_right ..) (spillroom_le setup _)
      by_cases none : n = 0
      · rw [if_pos none] at put
        cases put
      · rw [if_neg none] at put
        have spilled := filling.spillf inside (by omega)
        generalize Editor.spillf setup { l.s with GAPS := l.y } n = out at put spilled
        obtain ⟨ok, s'⟩ := out
        cases ok with
        | false => cases put
        | true =>
            obtain ⟨filling', gaps, gape'⟩ := spilled rfl
            obtain rfl := Option.some.inj put
            dsimp only at filling' gaps gape'
            exact ⟨filling'.push (by omega) a, rfl⟩

/-- What LOADFILE's variables say of the bytes read so far. -/
structure Read (setup : Setup) (l : Loading) (done : List Byte) : Prop where
  filling : Filling setup l.s l.y (unify CR LF done)
  lastcr : l.LASTCR = true ↔ done.getLast? = some CR
  sawlf : l.SAWLF = true ↔ HasBareLf CR LF done
  sawcrlf : l.SAWCRLF = true ↔ HasCrlf CR LF done
  lastld : l.LASTLD = (unify CR LF done).getLast?.getD LF

theorem cr_ne_lf : CR ≠ LF := by decide

/-- A character that goes into the text. -/
theorem Read.put {l l' : Loading} {done : List Byte} {a b : Byte} {lastcr sawlf : Bool}
    (read : Read setup l done) (kept : ¬(a = LF ∧ done.getLast? = some CR))
    (becomes : b = if a = CR then LF else a) (cr : lastcr = true ↔ a = CR)
    (lf : sawlf = true ↔ HasBareLf CR LF (done ++ [a]))
    (put : Loading.ldPut setup { l with LASTCR := lastcr, SAWLF := sawlf } b = some l') :
    Read setup l' (done ++ [a]) := by
  have text : unify CR LF (done ++ [a]) = unify CR LF done ++ [b] := by
    rw [unify_snoc cr_ne_lf, if_neg kept, ← becomes]
  obtain ⟨filling, same⟩ := Loading.ldPut_filling
    (l := { l with LASTCR := lastcr, SAWLF := sawlf }) read.filling put
  rw [same]
  refine ⟨by rwa [text], ?_, lf, ?_, ?_⟩
  · rw [List.getLast?_concat, Option.some.injEq]
    exact cr
  · rw [HasCrlf, lfAfter_snoc, or_iff_left kept]
    exact read.sawcrlf
  · rw [text, List.getLast?_concat]
    rfl

theorem Read.byte {l l' : Loading} {done : List Byte} {a : Byte} (read : Read setup l done)
    (byte : l.ldByte setup a = some l') : Read setup l' (done ++ [a]) := by
  rw [Loading.ldByte] at byte
  have bare : HasBareLf CR LF (done ++ [a]) ↔
      HasBareLf CR LF done ∨ (a = LF ∧ done.getLast? ≠ some CR) := lfAfter_snoc
  by_cases isCr : a = CR
  · have notLf : a ≠ LF := fun same => cr_ne_lf (isCr.symm.trans same)
    rw [if_pos isCr] at byte
    refine read.put (fun both => notLf both.1) (if_pos isCr).symm (iff_of_true rfl isCr) ?_ byte
    rw [bare, or_iff_left fun both => notLf both.1]
    exact read.sawlf
  rw [if_neg isCr] at byte
  by_cases isLf : a = LF
  · rw [if_pos isLf] at byte
    cases after : l.LASTCR with
    | true =>
        rw [if_pos after] at byte
        obtain rfl := Option.some.inj byte
        have last := read.lastcr.mp after
        have text : unify CR LF (done ++ [a]) = unify CR LF done := by
          rw [unify_snoc cr_ne_lf, if_pos ⟨isLf, last⟩]
        refine ⟨by rw [text]; exact read.filling, ?_, ?_, ?_, by rw [text]; exact read.lastld⟩
        · rw [List.getLast?_concat, Option.some.injEq]
          exact iff_of_false Bool.false_ne_true isCr
        · rw [bare, or_iff_left fun both => both.2 last]
          exact read.sawlf
        · rw [HasCrlf, lfAfter_snoc]
          exact iff_of_true rfl (.inr ⟨isLf, last⟩)
    | false =>
        have last : done.getLast? ≠ some CR := fun same => by
          rw [read.lastcr.mpr same] at after
          cases after
        rw [if_neg (by rw [after]; exact Bool.false_ne_true)] at byte
        refine read.put (fun both => last both.2) ?_ (iff_of_false ?_ isCr) ?_ byte
        · rw [if_neg isCr, isLf]
        · rw [after]
          exact Bool.false_ne_true
        · rw [bare]
          exact iff_of_true rfl (.inr ⟨isLf, last⟩)
  · rw [if_neg isLf] at byte
    refine read.put (fun both => isLf both.1) (if_neg isCr).symm
      (iff_of_false Bool.false_ne_true isCr) ?_ byte
    rw [bare, or_iff_left fun both => isLf both.1]
    exact read.sawlf

theorem Read.bytes {l l' : Loading} {done block : List Byte} (read : Read setup l done)
    (ran : block.foldlM (Loading.ldByte setup) l = some l') : Read setup l' (done ++ block) := by
  induction block generalizing l done with
  | nil =>
      obtain rfl := Option.some.inj ran
      rwa [List.append_nil]
  | cons a rest ih =>
      rw [List.foldlM_cons] at ran
      obtain ⟨l₁, byte, tail⟩ := Option.bind_eq_some_iff.mp ran
      have more := ih (read.byte byte) tail
      rwa [List.append_assoc, List.singleton_append] at more

theorem Read.block {l l' : Loading} {done block : List Byte} (read : Read setup l done)
    (here : l.y = l.s.GAPS) (ran : l.ldBlock setup block = some l') :
    Read setup l' (done ++ block) ∧ l'.y = l'.s.GAPS := by
  obtain ⟨l₁, bytes, rfl⟩ := Option.map_eq_some_iff.mp ran
  rw [← here] at bytes
  have more := read.bytes bytes
  obtain ⟨good, whole, gape, alen, unmarked, lines⟩ := more.filling
  exact ⟨⟨⟨good, whole, gape, alen, unmarked, lines⟩, more.lastcr, more.sawlf, more.sawcrlf,
    more.lastld⟩, rfl⟩

/-- LD_READ reads all of the file, wherever its blocks end. -/
theorem Read.file {fuel : Nat} {l l' : Loading} {done file : List Byte} (read : Read setup l done)
    (here : l.y = l.s.GAPS) (enough : file.length ≤ fuel)
    (ran : Loading.ldRead setup fuel l file = some l') :
    Read setup l' (done ++ file) ∧ l'.y = l'.s.GAPS := by
  induction fuel generalizing l done file with
  | zero =>
      obtain rfl := List.length_eq_zero_iff.mp (Nat.le_zero.mp enough)
      obtain rfl := Option.some.inj ran
      rw [List.append_nil]
      exact ⟨read, here⟩
  | succ fuel ih =>
      rw [Loading.ldRead] at ran
      split at ran
      · next none =>
          obtain rfl := Option.some.inj ran
          rw [none, List.append_nil]
          exact ⟨read, here⟩
      · next some =>
          have positive := List.length_pos_of_ne_nil some
          obtain ⟨l₁, block, tail⟩ := Option.bind_eq_some_iff.mp ran
          obtain ⟨read₁, here₁⟩ := read.block here block
          have more := ih read₁ here₁ (by rw [List.length_drop]; omega) tail
          rwa [List.append_assoc, List.take_append_drop] at more

end Pugputer.Edit

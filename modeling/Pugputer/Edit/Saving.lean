import Pugputer.Edit.Reading
import Pugputer.Edit.Search

namespace Pugputer.Edit

open Lib.LineEnds

/-! What LOADFILE makes of a file, and SAVEFILE of a text. -/

variable {setup : Setup} {s : Editor}

theorem Read.start (good : Good setup s) :
    Read setup { s := s.newbuf setup, y := (s.newbuf setup).GAPS } [] := by
  refine ⟨newbuf_filling good, iff_of_false Bool.false_ne_true (by rintro ⟨⟩),
    iff_of_false Bool.false_ne_true not_lfAfter_nil, iff_of_false Bool.false_ne_true not_lfAfter_nil,
    rfl⟩

/-- The text in the editor, and what the message says. -/
structure Loads (setup : Setup) (file : List Byte) (out : Loaded) : Prop where
  good : Good setup out.s
  whole : out.s.whole setup = unify CR LF file
  lines : out.NLW = lineCount LF (unify CR LF file)
  counted : out.NLW < 65536
  lfOnly : out.DOSFMT = false ↔ HasBareLf CR LF file ∧ ¬HasCrlf CR LF file

theorem Read.eof {l : Loading} {file : List Byte} {out : Loaded} (read : Read setup l file)
    (here : l.y = l.s.GAPS) (ends : ldEof setup l = some out) : Loads setup file out := by
  have filling := read.filling
  rw [here] at filling
  generalize textEq : unify CR LF file = text at filling
  have lastld : l.LASTLD = text.getLast?.getD LF := by rw [read.lastld, textEq]
  rw [ldEof] at ends
  dsimp only at ends
  split at ends
  · cases ends
  next few =>
  rw [not_or, not_or] at few
  obtain ⟨-, fits, none⟩ := few
  have total : setup.countlf l.s.pages setup.ARENA_LO (l.s.curpos setup) + l.s.BLINES =
      text.count LF := by
    have joined : l.s.front ++ l.s.before setup = text := filling.before
    have front := filling.lines
    rw [Decidable.not_not.mp none, Nat.mul_zero, Nat.add_zero] at front
    rw [Setup.countlf_span, ← joined, List.count_append, front, Nat.add_comm]
    rfl
  rw [total] at ends fits
  have good : Good setup { l.s with CURLINE := text.count LF + 1 } := by
    have counted := filling.good
    rw [Nat.mod_eq_of_lt (by omega), Nat.add_comm] at counted
    exact counted
  have enough : l.s.BLEN - 0 + (0 - (l.s.BLEN +
      Editor.textlen setup { l.s with CURLINE := text.count LF + 1 })) < l.s.BLEN + 1 := by
    rw [Nat.zero_sub]
    exact Nat.lt_succ_self _
  obtain ⟨s', found, kept, -⟩ := gotoabs_spec good (Nat.zero_le _) enough
  rw [found] at ends
  obtain rfl := Option.some.inj ends
  have number : (if l.LASTLD = LF then text.count LF else text.count LF + 1) =
      lineCount LF text := by
    rw [lineCount]
    by_cases ended : Ended LF text
    · rw [if_pos ended, if_pos (lastld.trans ended)]
      rfl
    · rw [if_neg ended, if_neg fun last => ended (lastld.symm.trans last)]
  have format : (!(l.SAWLF && !l.SAWCRLF)) = false ↔ l.SAWLF = true ∧ ¬l.SAWCRLF = true := by
    cases l.SAWLF <;> cases l.SAWCRLF <;> decide
  refine ⟨kept.good, ?_, ?_, ?_, ?_⟩
  · rw [textEq, kept.whole]
    exact filling.whole
  · rw [textEq]
    exact number
  · dsimp only
    split <;> omega
  · rw [← read.sawlf, ← read.sawcrlf]
    exact format

theorem loadfile_loads (good : Good setup s) {file : List Byte} {out : Loaded}
    (loaded : loadfile setup s file = some out) : Loads setup file out := by
  rw [loadfile] at loaded
  obtain ⟨l, blocks, ends⟩ := Option.bind_eq_some_iff.mp loaded
  obtain ⟨read, here⟩ := (Read.start good).file rfl (Nat.le_refl _) blocks
  exact read.eof here ends

variable {layout : Layout}

/-- RDBYTE has given out the first `p` characters of the text. -/
structure Given (layout : Layout) (s : Editor) (r : Reader) (p : Nat) : Prop where
  aside : Aside layout.toSetup s r.s
  used : r.RDI ≤ r.RDN
  next : p + r.RDN = r.RDPOS + r.RDI
  inside : r.RDPOS ≤ (s.whole layout.toSetup).length
  there : ∀ i, r.RDI + i < r.RDN →
    layout.view r.s.pages (layout.RDBUF + (r.RDI + i)) = s.char layout.toSetup (p + i)

theorem Given.start (good : Good layout.toSetup s) : Given layout s { s } 0 :=
  ⟨.refl good.mapped, Nat.le_refl _, rfl, Nat.zero_le _, fun _ below => absurd below (Nat.not_lt_zero _)⟩

theorem Given.rdbyte (good : Good layout.toSetup s) {r : Reader} {p : Nat}
    (given : Given layout s r p) :
    match rdbyte layout r with
    | some (a, r') => (s.whole layout.toSetup)[p]? = some a ∧ Given layout s r' (p + 1)
    | none => p = (s.whole layout.toSetup).length := by
  have used := given.used
  have next := given.next
  have inside := given.inside
  rw [Edit.rdbyte]
  by_cases here : r.RDI < r.RDN
  · rw [if_pos here]
    dsimp only
    refine ⟨?_, given.aside, here, by dsimp only; omega, inside, fun i below => ?_⟩
    · have there : layout.view r.s.pages (layout.RDBUF + r.RDI) = s.char layout.toSetup p :=
        given.there 0 here
      rw [whole_char good (by omega), there]
    · have there := given.there (i + 1) (by dsimp only at below; omega)
      dsimp only
      rw [Nat.add_assoc, Nat.add_comm 1 i, there, Nat.add_assoc p, Nat.add_comm 1 i]
  · rw [if_neg here]
    have shifted := given.aside.shifted good
    have buffer := layout.rdbuf
    have most : RDMAX = 255 := rfl
    have length : r.s.doclen layout.toSetup = (s.whole layout.toSetup).length := by
      rw [← shifted.whole, whole_length shifted.good, Editor.doclen]
      omega
    rw [length]
    dsimp only
    generalize size : min (min ((s.whole layout.toSetup).length - r.RDPOS) 0xFFFF) RDMAX = n
    by_cases none : n = 0
    · rw [if_pos none]
      dsimp only
      omega
    · rw [if_neg none]
      dsimp only
      have place : r.RDPOS = p := by omega
      have fits : p + n ≤ (s.whole layout.toSetup).length := by omega
      have small : n ≤ RDMAX := by omega
      rw [place]
      clear size
      have copied : Copied layout.toSetup r.s p n layout.RDBUF _ :=
        doccopy_spec shifted.good (Nat.le_refl n) (by rwa [shifted.whole]) buffer.1
          (by omega)
      have there (i : Nat) (below : i < n) : layout.view
          (r.s.doccopy layout.toSetup n p n layout.RDBUF).pages (layout.RDBUF + i) =
          s.char layout.toSetup (p + i) := by
        rw [copied.there i below, given.aside.char good (by omega)]
      refine ⟨?_, given.aside.trans copied.toAside, Nat.pos_of_ne_zero none, by dsimp only; omega,
        fits, fun i below => ?_⟩
      · have first := there 0 (Nat.pos_of_ne_zero none)
        rw [Nat.add_zero, Nat.add_zero] at first
        rw [whole_char good (by omega), first]
      · dsimp only at below ⊢
        rw [there (1 + i) below, Nat.add_assoc]

/-- Where SAVEFILE is when the first `p` characters are written. -/
structure Wrote (layout : Layout) (DOSFMT : Bool) (s : Editor) (f : Saving) (p : Nat) : Prop where
  given : Given layout s f.r p
  bytes : f.file ++ f.iobuf = written LF (if DOSFMT then [CR, LF] else [LF])
    ((s.whole layout.toSetup).take p)
  lines : f.NLW = ((s.whole layout.toSetup).take p).count LF % 65536
  last : f.LASTCH = ((s.whole layout.toSetup).take p).getLast?.getD LF

theorem sfFlush_spec (room : Nat) (f : Saving) :
    match f.sfFlush room with
    | some f' => f' = { f with file := f.file ++ f.iobuf, iobuf := [] }
    | none => room < (f.file ++ f.iobuf).length := by
  rw [Saving.sfFlush]
  by_cases none : f.iobuf = []
  · rw [if_pos none]
    dsimp only
    rw [none, List.append_nil, ← none]
  · rw [if_neg none, fwrite, List.length_append]
    by_cases fits : f.file.length + f.iobuf.length ≤ room
    · rw [if_pos fits]
      rfl
    · rw [if_neg fits]
      exact Nat.lt_of_not_le fits

theorem Wrote.sfChar {DOSFMT : Bool} {f : Saving} {r : Reader} {p : Nat} {a : Byte}
    (wrote : Wrote layout DOSFMT s f p) (here : (s.whole layout.toSetup)[p]? = some a)
    (given : Given layout s r (p + 1)) (room : Nat) :
    match Saving.sfChar room DOSFMT { f with r } a with
    | some f' => Wrote layout DOSFMT s f' (p + 1)
    | none => room < (saved LF (if DOSFMT then [CR, LF] else [LF])
        (s.whole layout.toSetup)).length := by
  have step : (s.whole layout.toSetup).take (p + 1) = (s.whole layout.toSetup).take p ++ [a] := by
    rw [List.take_add_one, here]
    rfl
  rw [Saving.sfChar]
  generalize putEq : (if a = LF then Saving.sfNl DOSFMT { { f with r } with LASTCH := a } else _) = g
  have put : Wrote layout DOSFMT s g (p + 1) := by
    subst putEq
    by_cases isLf : a = LF
    · rw [if_pos isLf]
      refine ⟨given, ?_, ?_, ?_⟩
      · rw [step, written_snoc, if_pos isLf, ← wrote.bytes, List.append_assoc]
        rfl
      · rw [step, List.count_append, isLf, List.count_singleton_self, ← Nat.mod_add_mod,
          ← wrote.lines]
        rfl
      · rw [step, List.getLast?_concat]
        rfl
    · rw [if_neg isLf]
      refine ⟨given, ?_, ?_, ?_⟩
      · rw [step, written_snoc, if_neg isLf, ← wrote.bytes, List.append_assoc]
      · rw [step, List.count_append, List.count_singleton, if_neg (by rwa [beq_iff_eq]), Nat.add_zero]
        exact wrote.lines
      · rw [step, List.getLast?_concat]
        rfl
  clear putEq
  by_cases fits : g.iobuf.length < 510
  · rw [if_pos fits]
    exact put
  · rw [if_neg fits]
    have flushed := sfFlush_spec room g
    have part := @written_take_le _ _ LF (if DOSFMT then [CR, LF] else [LF])
      (s.whole layout.toSetup) (p + 1)
    rw [← put.bytes] at part
    generalize g.sfFlush room = out at flushed ⊢
    cases out with
    | none => exact Nat.lt_of_lt_of_le flushed part
    | some f' =>
        subst flushed
        exact ⟨put.given, by rw [List.append_nil]; exact put.bytes, put.lines, put.last⟩

/-- The file that is there in the end, and the lines that were written. -/
structure Saves (layout : Layout) (DOSFMT : Bool) (s : Editor) (f : Saving) : Prop where
  aside : Aside layout.toSetup s f.r.s
  file : f.file = saved LF (if DOSFMT then [CR, LF] else [LF]) (s.whole layout.toSetup)
  lines : f.NLW = lineCount LF (s.whole layout.toSetup) % 65536

theorem Wrote.ending {DOSFMT : Bool} {f : Saving} {p : Nat} (wrote : Wrote layout DOSFMT s f p)
    (all : p = (s.whole layout.toSetup).length) (room : Nat) :
    match (if f.LASTCH = LF then f else f.sfNl DOSFMT).sfFlush room with
    | some f' => Saves layout DOSFMT s f'
    | none => room < (saved LF (if DOSFMT then [CR, LF] else [LF])
        (s.whole layout.toSetup)).length := by
  have bytes := wrote.bytes
  have lines := wrote.lines
  have last := wrote.last
  rw [all, List.take_length] at bytes lines last
  generalize endEq : (if f.LASTCH = LF then f else f.sfNl DOSFMT) = g
  have ended : Aside layout.toSetup s g.r.s ∧ g.file ++ g.iobuf =
      saved LF (if DOSFMT then [CR, LF] else [LF]) (s.whole layout.toSetup) ∧
      g.NLW = lineCount LF (s.whole layout.toSetup) % 65536 := by
    subst endEq
    rw [saved, lineCount]
    by_cases isLf : Ended LF (s.whole layout.toSetup)
    · rw [if_pos (last.trans isLf), if_pos isLf, if_pos isLf, List.append_nil]
      exact ⟨wrote.given.aside, bytes, lines⟩
    · rw [if_neg fun same => isLf (last.symm.trans same), if_neg isLf, if_neg isLf, ← bytes,
        List.append_assoc, ← Nat.mod_add_mod, ← lines]
      exact ⟨wrote.given.aside, rfl, rfl⟩
  clear endEq
  obtain ⟨aside, file, number⟩ := ended
  have flushed := sfFlush_spec room g
  generalize g.sfFlush room = out at flushed ⊢
  cases out with
  | none => rwa [← file]
  | some f' =>
      subst flushed
      exact ⟨aside, file, number⟩

theorem Wrote.loop (good : Good layout.toSetup s) {DOSFMT : Bool} {f : Saving} {p fuel : Nat}
    (wrote : Wrote layout DOSFMT s f p) (enough : (s.whole layout.toSetup).length < p + fuel)
    (room : Nat) :
    match Saving.sfLoop layout room DOSFMT fuel f with
    | some f' => Saves layout DOSFMT s f'
    | none => room < (saved LF (if DOSFMT then [CR, LF] else [LF])
        (s.whole layout.toSetup)).length := by
  induction fuel generalizing f p with
  | zero =>
      have next := wrote.given.next
      have used := wrote.given.used
      have inside := wrote.given.inside
      omega
  | succ fuel ih =>
      rw [Saving.sfLoop]
      have given := wrote.given.rdbyte good
      generalize rdbyte layout f.r = out at given ⊢
      cases out with
      | none => exact wrote.ending given room
      | some out =>
          obtain ⟨a, r⟩ := out
          obtain ⟨here, given⟩ := given
          have put := wrote.sfChar here given room
          dsimp only
          generalize Saving.sfChar room DOSFMT { f with r } a = f' at put ⊢
          cases f' with
          | none => exact put
          | some f' => exact ih put (by omega)

theorem savefile_saves (good : Good layout.toSetup s) (DOSFMT : Bool) (room : Nat) :
    match savefile layout room DOSFMT s with
    | some (file, NLW, s') => Good layout.toSetup s' ∧
        s'.whole layout.toSetup = s.whole layout.toSetup ∧
        file = saved LF (if DOSFMT then [CR, LF] else [LF]) (s.whole layout.toSetup) ∧
        NLW = lineCount LF (s.whole layout.toSetup) % 65536
    | none => room < (saved LF (if DOSFMT then [CR, LF] else [LF])
        (s.whole layout.toSetup)).length := by
  have length : s.doclen layout.toSetup = (s.whole layout.toSetup).length := by
    rw [whole_length good, Editor.doclen]
    omega
  have start : Wrote layout DOSFMT s { r := { s } } 0 := ⟨.start good, rfl, rfl, rfl⟩
  have enough : (s.whole layout.toSetup).length < 0 + (s.doclen layout.toSetup + 1) := by omega
  have loop := start.loop good enough room
  rw [savefile]
  generalize Saving.sfLoop layout room DOSFMT _ { r := { s } } = out at loop ⊢
  cases out with
  | none => exact loop
  | some f =>
      have shifted := loop.aside.shifted good
      exact ⟨shifted.good, shifted.whole, loop.file, loop.lines⟩

/-- Loading `file` and saving the text again. -/
structure RoundTrip (layout : Layout) (file : List Byte) (out : Loaded) : Prop
    extends Loads layout.toSetup file out where
  saves : ∀ room file' NLW s', savefile layout room out.DOSFMT out.s = some (file', NLW, s') →
    file' = saved LF (if out.DOSFMT then [CR, LF] else [LF]) (unify CR LF file) ∧
      NLW = out.NLW ∧ s'.whole layout.toSetup = unify CR LF file
  room : ∀ room,
    (saved LF (if out.DOSFMT then [CR, LF] else [LF]) (unify CR LF file)).length ≤ room →
      ∃ saved, savefile layout room out.DOSFMT out.s = some saved
  alike : ∀ lines : List (List Byte), (∀ line ∈ lines, Plain CR LF line) →
    file = lines.flatMap (· ++ [CR, LF]) ∨ file = lines.flatMap (· ++ [LF]) →
      saved LF (if out.DOSFMT then [CR, LF] else [LF]) (unify CR LF file) = file

theorem Loads.alike {file : List Byte} {out : Loaded} (loads : Loads setup file out)
    {lines : List (List Byte)} (plain : ∀ line ∈ lines, Plain CR LF line)
    (same : file = lines.flatMap (· ++ [CR, LF]) ∨ file = lines.flatMap (· ++ [LF])) :
    saved LF (if out.DOSFMT then [CR, LF] else [LF]) (unify CR LF file) = file := by
  have lfOnly := loads.lfOnly
  rcases same with rfl | rfl
  · have dos : out.DOSFMT = true := by
      rw [← Bool.not_eq_false, lfOnly]
      exact fun both => crlf_not_bare cr_ne_lf plain both.1
    rw [unify_crlf plain, saved_lines plain, dos]
    rfl
  · rw [unify_lf cr_ne_lf plain, saved_lines plain]
    by_cases none : lines = []
    · subst none
      rfl
    · rw [lfOnly.mpr ⟨lf_bare none plain, lf_not_crlf cr_ne_lf plain⟩]
      rfl

/-- What LOADFILE reads, SAVEFILE writes. -/
theorem load_save (good : Good layout.toSetup s) {file : List Byte} {out : Loaded}
    (loaded : loadfile layout.toSetup s file = some out) : RoundTrip layout file out := by
  have loads := loadfile_loads good loaded
  refine ⟨loads, fun room file' NLW s' ran => ?_, fun room enough => ?_, fun lines => loads.alike⟩
  · have saves := savefile_saves loads.good out.DOSFMT room
    rw [ran, loads.whole] at saves
    obtain ⟨-, whole, file, number⟩ := saves
    refine ⟨file, ?_, whole⟩
    rw [number, ← loads.lines, Nat.mod_eq_of_lt loads.counted]
  · have saves := savefile_saves loads.good out.DOSFMT room
    rw [loads.whole] at saves
    cases ran : savefile layout room out.DOSFMT out.s with
    | none =>
        rw [ran] at saves
        exact absurd saves (Nat.not_lt.mpr enough)
    | some saved => exact ⟨saved, rfl⟩

theorem load_save_sample : ∃ out,
    loadfile sampleLayout.toSetup (sampleEditor 0x8000 0xE000 0xE000 2) [0x41#8, CR, LF] =
      some out ∧ RoundTrip sampleLayout [0x41#8, CR, LF] out := by
  have good : Good sampleLayout.toSetup (sampleEditor 0x8000 0xE000 0xE000 2) :=
    sample_good (by decide) (by decide) (by decide) (by decide) (by decide)
  have reads : (loadfile sampleLayout.toSetup (sampleEditor 0x8000 0xE000 0xE000 2)
      [0x41#8, CR, LF]).isSome := by rfl
  obtain ⟨out, loaded⟩ := Option.isSome_iff_exists.mp reads
  exact ⟨out, loaded, load_save good loaded⟩

end Pugputer.Edit

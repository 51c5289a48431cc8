import Pugputer.Linker.Synthetic

namespace Pugputer.Linker

/-! The whole link. -/

variable {n : Nat} {sect : Fin n → Sect} {script : Script} {s s' : Links n}

/-- A constant section that is placed already can be referred to, and one that is not. -/
def Links.included (sect : Fin n → Sect) (s : Links n) (i : Fin n) : Bool :=
  s.proc i || (sect i).const

/-- An import's section, the first time that the imports are looked up; then the entry point's, and
those of the imports of what is placed. -/
def Referred (sect : Fin n → Sect) (script : Script) (s : Links n) (j : Fin n) : Prop :=
  (∃ i name, Imports sect i name ∧ provider sect (fun _ => true) (sect i).file name = some j) ∨
    (∃ name, script.EXECSYM = some name ∧ Unsynth s.synth name ∧
      provider sect (s.included sect) 0 name = some j) ∨
    ∃ i ∈ s.placed, ∃ name, Imports sect i name ∧ Unsynth s.synth name ∧
      provider sect (s.included sect) (sect i).file name = some j

def content (s : Links n) (i : Fin n) : List Byte := (s.code i).flatten

/-- The output, by the bytes of the sections. -/
def Carries (sect : Fin n → Sect) (script : Script) (s : Links n) (out : List Byte) : Prop :=
  let bytes := (s.placed.filter fun i => !(sect i).bss).flatMap (content s)
  match script.FORMAT with
  | .raw => out = bytes
  | .com => out = header sect script s ++ bytes
  | .srec => out = Asmlink.linkFile s.EXECADDR (s.placed.map fun i =>
      { bss := (sect i).bss, load := s.load i, bytes := content s i })

structure Linked (sect : Fin n → Sect) (script : Script) (s : Links n)
    (out : Option (List Byte)) : Prop where
  once : s.placed.Nodup
  reached : ∀ i, (sect i).const = false →
    (i ∈ s.placed ↔ ∃ l ∈ script.slines, l.Reaches sect (sect i).name)
  laid : ∃ names early late, Laid sect script.slines names ∧
    s.placed = early ++ names.flatten.flatMap (named sect) ++ late ∧
    (∀ i ∈ early ++ late, (sect i).const = true) ∧
    Follow sect s.load script.slines (names.map (·.flatMap (named sect))) 0#16 false ∧
    ∀ m ∈ names.flatten, named sect m ≠ [] → (∀ c ∈ early, (sect c).name ≠ m) →
      Symbols sect script m s.load (named sect m) s.synth
  zero : ∀ i ∈ s.placed, (sect i).const = true → s.load i = 0#16
  referred : ∀ i ∈ s.placed, (sect i).const = true → Referred sect script s i
  all : s.SYMERR = false → ∀ i, (sect i).const = true → Referred sect script s i → i ∈ s.placed
  lengths : ∀ i, (content s i).length = if (sect i).bss then 0 else (sect i).size.toNat
  failed : s.SYMERR = true → out = none
  output : s.SYMERR = false → ∃ bytes, out = some bytes ∧ Carries sect script s bytes

/-! The output. -/

theorem sectbytes_chunked {m : Nat} {code : List (List Byte)} (chunked : Chunked m code) :
    sectbytes m code = code.flatten ∧ code.flatten.length = m := by
  induction code generalizing m with
  | nil => exact ⟨rfl, chunked.symm⟩
  | cons c cs ih =>
      obtain ⟨some, length, rest⟩ := chunked
      obtain ⟨bytes, all⟩ := ih rest
      constructor
      · rw [sectbytes, if_neg (Nat.ne_of_gt some), bytes, ← length, List.take_length,
          List.flatten_cons]
      · rw [List.flatten_cons, List.length_append, length, all]
        omega

theorem Whole.bytes (whole : s.Whole sect) {i : Fin n} (bss : (sect i).bss = false) :
    bytesOf sect s i = content s i ∧ (content s i).length = (sect i).size.toNat := by
  have chunked := whole i
  have flag : (sect i).flags &&& SEF_BSS = 0#8 := by
    rwa [Sect.bss, decide_eq_false_iff_not, not_not] at bss
  rw [if_pos flag] at chunked
  exact sectbytes_chunked chunked

theorem Whole.empty (whole : s.Whole sect) {i : Fin n} (bss : (sect i).bss = true) :
    content s i = [] := by
  have chunked := whole i
  have flag : (sect i).flags &&& SEF_BSS ≠ 0#8 := by
    rwa [Sect.bss, decide_eq_true_iff] at bss
  rw [if_neg flag] at chunked
  exact List.length_eq_zero_iff.mp (sectbytes_chunked chunked).2

theorem rawsects_eq (whole : s.Whole sect) :
    rawsects sect s = (s.placed.filter fun i => !(sect i).bss).flatMap (content s) := by
  rw [rawsects]
  induction s.placed with
  | nil => rfl
  | cons i placed ih =>
      rw [List.flatMap_cons, ih]
      cases bss : (sect i).bss with
      | true =>
          rw [List.filter_cons_of_neg (by rw [bss]; exact Bool.false_ne_true), Sect.blank, bss]
          rfl
      | false =>
          obtain ⟨same, length⟩ := Whole.bytes whole bss
          rw [List.filter_cons_of_pos (by rw [bss]; rfl), List.flatMap_cons, Sect.blank, bss,
            Bool.false_or, same]
          split
          · next empty =>
              rw [of_decide_eq_true empty] at length
              rw [List.length_eq_zero_iff.mp length]
          · rfl

/-- A section's records are those of its bytes. -/
theorem srecsect_eq (whole : s.Whole sect) (file : Asmlink.LinkOut) (i : Fin n) :
    file.sect { bss := (sect i).blank, load := s.load i, bytes := bytesOf sect s i } =
      file.sect { bss := (sect i).bss, load := s.load i, bytes := content s i } := by
  cases bss : (sect i).bss with
  | true =>
      have blank : (sect i).blank = true := by
        rw [Sect.blank, bss, Bool.true_or]
      rw [Asmlink.LinkOut.sect, Asmlink.LinkOut.sect, if_pos (.inl blank), if_pos (.inl rfl)]
  | false =>
      obtain ⟨same, length⟩ := Whole.bytes whole bss
      have blank : (sect i).blank = decide ((sect i).size = 0#16) := by
        rw [Sect.blank, bss, Bool.false_or]
      rw [same, blank]
      by_cases empty : (sect i).size = 0#16
      · rw [empty] at length
        rw [List.length_eq_zero_iff.mp length, Asmlink.LinkOut.sect, Asmlink.LinkOut.sect,
          if_pos (.inr rfl), if_pos (.inr rfl)]
      · rw [decide_eq_false empty]

theorem output_carries (whole : s.Whole sect) : Carries sect script s (output sect script s) := by
  rw [Carries, output]
  cases script.FORMAT with
  | raw => exact rawsects_eq whole
  | com => exact congrArg (header sect script s ++ ·) (rawsects_eq whole)
  | srec =>
      have each := fun file i => srecsect_eq whole file i
      dsimp only
      rw [Asmlink.linkFile, Asmlink.linkFile, srecsects, List.foldl_map, List.foldl_map]
      simp only [each]

/-! The stages. -/

theorem entry_brought {included : Fin n → Bool} (stable : Stable sect included s) (script : Script) :
    ∃ late, Brought sect (fun j => ∃ name, script.EXECSYM = some name ∧ Unsynth s.synth name ∧
      provider sect included 0 name = some j) s (entry sect script s) late := by
  rw [entry]
  cases script.EXECSYM with
  | none =>
      refine ⟨[], .idle s ?_⟩
      rintro j ⟨_, ⟨⟩, -⟩
  | some name =>
      obtain ⟨late, grown, clean, -, asked, all⟩ := findext_stable stable 0 name
      have all' : ∀ j, (∃ name', some name = some name' ∧ Unsynth s.synth name' ∧
          provider sect included 0 name' = some j) → (sect j).const = true →
          (findext sect false 0 name s).2.proc j = true := by
        rintro j ⟨_, ⟨⟩, unsynth, found⟩
        exact all unsynth j found
      dsimp only
      generalize findext sect false 0 name s = out at grown clean asked all' ⊢
      obtain ⟨v, s₁⟩ := out
      cases v with
      | none =>
          exact ⟨late, grown.beside rfl rfl rfl rfl id, fun _ => rfl,
            fun j inside => ⟨name, rfl, asked j inside⟩,
            fun clean => absurd clean.symm Bool.false_ne_true⟩
      | some v =>
          exact ⟨late, grown.beside rfl rfl rfl rfl id, fun error => clean.trans error,
            fun j inside => ⟨name, rfl, asked j inside⟩, fun _ => all'⟩

theorem start_whole (EXECADDR : BitVec 16) : (Links.start sect EXECADDR).Whole sect :=
  fun i => (sect i).whole

theorem start_kept (EXECADDR : BitVec 16) : Kept (Links.start sect EXECADDR) :=
  ⟨List.nodup_nil, fun _ => iff_of_false Bool.false_ne_true List.not_mem_nil⟩

/-- A name that is reached, and has sections, is one of the names laid. -/
theorem Laid.reached {slines : List SLine} {names : List (List Chars)} (laid : Laid sect slines names)
    {m : Chars} (some : named sect m ≠ []) :
    m ∈ names.flatten ↔ ∃ l ∈ slines, l.Reaches sect m := by
  constructor
  · intro inside
    obtain ⟨block, member, inside⟩ := List.mem_flatten.mp inside
    obtain ⟨k, below, rfl⟩ := List.mem_iff_getElem.mp member
    have here : m ∈ names.getD k [] := by
      rwa [List.getD_eq_getElem _ _ below]
    obtain ⟨⟨l, at_, reaches⟩, -⟩ := (laid.first k m some).mp here
    exact ⟨l, List.mem_of_getElem? at_, reaches⟩
  · rintro ⟨l, member, reaches⟩
    classical
    have any : ∃ k : Nat, ∃ l : SLine, slines[k]? = Option.some l ∧ l.Reaches sect m := by
      obtain ⟨k, at_⟩ := List.getElem?_of_mem member
      exact ⟨k, l, at_, reaches⟩
    have here := (laid.first (Nat.find any) m some).mpr
      ⟨Nat.find_spec any, fun j before l at_ reaches => Nat.find_min any before ⟨l, at_, reaches⟩⟩
    rw [List.getD_eq_getElem?_getD] at here
    cases block : names[Nat.find any]? with
    | none =>
        rw [block] at here
        exact absurd here List.not_mem_nil
    | some ms =>
        rw [block] at here
        exact List.mem_flatten.mpr ⟨ms, List.mem_of_getElem? block, here⟩

/-- After PLACE. -/
structure Placed (sect : Fin n → Sect) (script : Script) (s : Links n) (early : List (Fin n))
    (names : List (List Chars)) : Prop where
  laid : Laid sect script.slines names
  placed : s.placed = early ++ names.flatten.flatMap (named sect)
  const : ∀ i ∈ early, (sect i).const = true ∧ s.load i = 0#16
  kept : Kept s
  whole : s.Whole sect
  follow : Follow sect s.load script.slines (names.map (·.flatMap (named sect))) 0#16 false
  asked : ∀ j ∈ early, ∃ i name, Imports sect i name ∧
    provider sect (fun _ => true) (sect i).file name = some j
  all : s.SYMERR = false → ∀ i name j, Imports sect i name →
    provider sect (fun _ => true) (sect i).file name = some j → (sect j).const = true →
    j ∈ s.placed

theorem not_const {names : List Chars} {i : Fin n} (inside : i ∈ names.flatMap (named sect)) :
    (sect i).const = false := by
  obtain ⟨m, -, here⟩ := List.mem_flatMap.mp inside
  exact (mem_named.mp here).1

theorem const_apart {names : List Chars} {i : Fin n} (isConst : (sect i).const = true) :
    i ∉ names.flatMap (named sect) := fun inside => by
  rw [not_const inside] at isConst
  cases isConst

theorem place_spec (script : Script) : ∃ early names, Placed sect script
    (place sect script.slines (preconst sect (.start sect script.EXECADDR))) early names := by
  obtain ⟨early, brought⟩ := @preconst_brought n sect (.start sect script.EXECADDR) rfl
  have kept := brought.grown.kept (start_kept _)
  have whole := brought.grown.whole (start_whole _)
  have placed : (preconst sect (.start sect script.EXECADDR)).placed = early :=
    brought.grown.placed.trans (List.nil_append _)
  have late := brought.grown.fresh
  have asked := brought.asked
  have all := brought.all
  rw [place]
  generalize preconst sect (.start sect script.EXECADDR) = s at kept whole placed late all ⊢
  have done : Done sect { s with LADDR := 0#16, GROWDN := false } [] := by
    intro i free
    refine iff_of_false (fun proc => ?_) List.not_mem_nil
    have inside := (kept.proc i).mp proc
    rw [placed] at inside
    rw [(late i inside).1] at free
    cases free
  obtain ⟨names, spread⟩ := lines_spread script.slines done
  have order := spread.placed
  have proc := spread.proc
  have load := spread.load
  have beside := spread.beside
  have follow := spread.follow
  generalize script.slines.foldl (placeline sect) { s with LADDR := 0#16, GROWDN := false } = s'
    at order proc load beside follow ⊢
  dsimp only at order proc load
  rw [placed] at order
  refine ⟨early, names, ⟨spread.each, spread.nodup, fun k m some => ?_⟩, order,
    fun i inside => ⟨(late i inside).1, ?_⟩, ⟨?_, fun j => ?_⟩, ?_, follow, asked, ?_⟩
  · rw [spread.first k m some]
    exact and_iff_left List.not_mem_nil
  · rw [load i (const_apart (late i inside).1)]
    exact (late i inside).2.2
  · rw [order, List.nodup_append]
    refine ⟨placed ▸ kept.nodup, blocks_nodup spread.nodup, fun j early j' after same => ?_⟩
    exact const_apart (late j early).1 (same ▸ after)
  · rw [proc, kept.proc, placed, order, List.mem_append]
  · intro i
    rw [beside.code]
    exact whole i
  · rintro clean i name j imports found isConst
    rw [beside.SYMERR] at clean
    rw [order, ← placed, List.mem_append]
    exact .inl ((kept.proc j).mp (all clean j ⟨i, name, imports, found⟩ isConst))

/-- The sections of a name are a run, if no constant one before them has it. -/
theorem Placed.run {early : List (Fin n)} {names : List (List Chars)}
    (placed : Placed sect script s early names) {m : Chars} (inside : m ∈ names.flatten)
    (apart : ∀ c ∈ early, (sect c).name ≠ m) :
    ∃ before after, s.placed = before ++ (named sect m ++ after) ∧
      ∀ j ∈ before ++ after, (sect j).name ≠ m := by
  obtain ⟨front, back, split⟩ := List.append_of_mem inside
  have nodup := placed.laid.nodup
  rw [split, List.nodup_append] at nodup
  obtain ⟨-, nodup', differs⟩ := nodup
  refine ⟨early ++ front.flatMap (named sect), back.flatMap (named sect), ?_, fun j member => ?_⟩
  · rw [placed.placed, split, List.flatMap_append, List.flatMap_cons, List.append_assoc]
  · rw [List.append_assoc, List.mem_append, List.mem_append, List.mem_flatMap, List.mem_flatMap] at member
    rcases member with first | ⟨m', early', here⟩ | ⟨m', later, here⟩
    · exact apart j first
    · rw [(mem_named.mp here).2]
      exact differs m' early' m List.mem_cons_self
    · rw [(mem_named.mp here).2]
      rintro rfl
      exact (List.nodup_cons.mp nodup').1 later

theorem Symbols.congr {m : Chars} {load load' : Fin n → BitVec 16} {block : List (Fin n)}
    {synth : List Sym} (symbols : Symbols sect script m load block synth)
    (same : ∀ i ∈ block, load' i = load i) : Symbols sect script m load' block synth := by
  refine ⟨fun some => ?_, symbols.length⟩
  obtain ⟨low, member, ⟨i, inside, at_⟩, below⟩ := symbols.base some
  refine ⟨low, member, ⟨i, inside, (same i inside).trans at_⟩, fun j inside => ?_⟩
  rw [same j inside]
  exact below j inside

/-- The stages after PLACE: `s` with the synthetic symbols, `s'` with the entry point, and `s''` at the
end. -/
structure Stages (sect : Fin n → Sect) (script : Script) (s s' s'' : Links n)
    (early late late' : List (Fin n)) (names : List (List Chars)) : Prop where
  placed : Placed sect script s early names
  symbols : ∀ m ∈ names.flatten, named sect m ≠ [] → (∀ c ∈ early, (sect c).name ≠ m) →
    Symbols sect script m s.load (named sect m) s.synth
  entered : Brought sect (fun j => ∃ name, script.EXECSYM = some name ∧ Unsynth s.synth name ∧
    provider sect (s.included sect) 0 name = some j) s s' late
  relocated : Brought sect (fun j => ∃ i ∈ s''.placed, ∃ r ∈ (sect i).relocs,
    Refers sect (s.included sect) s'.synth (sect i).file r.expr j) s' s'' late'

namespace Stages

variable {s'' : Links n} {early late late' : List (Fin n)} {names : List (List Chars)}

theorem grown (stages : Stages sect script s s' s'' early late late' names) :
    Grown sect s s'' (late ++ late') :=
  stages.entered.grown.trans stages.relocated.grown

theorem order (stages : Stages sect script s s' s'' early late late' names) :
    s''.placed = early ++ names.flatten.flatMap (named sect) ++ (late ++ late') := by
  rw [stages.grown.placed, stages.placed.placed]

theorem const_of_late (stages : Stages sect script s s' s'' early late late' names) {i : Fin n}
    (inside : i ∈ late ++ late') : (sect i).const = true :=
  (stages.grown.fresh i inside).1

theorem kept (stages : Stages sect script s s' s'' early late late' names) : Kept s'' :=
  stages.grown.kept stages.placed.kept

theorem whole (stages : Stages sect script s s' s'' early late late' names) : s''.Whole sect :=
  stages.grown.whole stages.placed.whole

/-- What is not constant stays where PLACE put it. -/
theorem steady (stages : Stages sect script s s' s'' early late late' names) {i : Fin n}
    (free : (sect i).const = false) : s''.load i = s.load i := by
  refine stages.grown.load i fun inside => ?_
  rw [stages.const_of_late inside] at free
  cases free

theorem reached (stages : Stages sect script s s' s'' early late late' names) {i : Fin n}
    (free : (sect i).const = false) :
    i ∈ s''.placed ↔ ∃ l ∈ script.slines, l.Reaches sect (sect i).name := by
  have some : named sect (sect i).name ≠ [] := List.ne_nil_of_mem (mem_named.mpr ⟨free, rfl⟩)
  rw [← stages.placed.laid.reached some, stages.order, List.mem_append, List.mem_append]
  constructor
  · rintro ((first | block) | last)
    · rw [(stages.placed.const i first).1] at free
      cases free
    · obtain ⟨m, member, here⟩ := List.mem_flatMap.mp block
      rw [(mem_named.mp here).2]
      exact member
    · rw [stages.const_of_late last] at free
      cases free
  · intro member
    exact .inl (.inr (List.mem_flatMap.mpr ⟨_, member, mem_named.mpr ⟨free, rfl⟩⟩))

/-- A constant section is placed before the others or after them. -/
theorem const_cases (stages : Stages sect script s s' s'' early late late' names) {i : Fin n}
    (inside : i ∈ s''.placed) (isConst : (sect i).const = true) : i ∈ early ∨ i ∈ late ++ late' := by
  rw [stages.order, List.mem_append, List.mem_append] at inside
  rcases inside with (first | block) | last
  · exact .inl first
  · exact absurd block (const_apart isConst)
  · exact .inr last

theorem zero (stages : Stages sect script s s' s'' early late late' names) {i : Fin n}
    (inside : i ∈ s''.placed) (isConst : (sect i).const = true) : s''.load i = 0#16 := by
  rcases stages.const_cases inside isConst with first | last
  · have old : i ∉ late ++ late' := fun again => by
      have unplaced := (stages.grown.fresh i again).2.1
      have before : i ∈ s.placed := by
        rw [stages.placed.placed]
        exact List.mem_append_left _ first
      rw [(stages.placed.kept.proc i).mpr before] at unplaced
      cases unplaced
    rw [stages.grown.load i old]
    exact (stages.placed.const i first).2
  · exact (stages.grown.fresh i last).2.2

/-- The look-ups are the same at the end. -/
theorem stable (stages : Stages sect script s s' s'' early late late' names) :
    s''.included sect = s.included sect :=
  funext (stages.grown.stable fun _ => rfl)

theorem referred (stages : Stages sect script s s' s'' early late late' names) {i : Fin n}
    (inside : i ∈ s''.placed) (isConst : (sect i).const = true) : Referred sect script s'' i := by
  rw [Referred, stages.stable, stages.grown.synth]
  rcases stages.const_cases inside isConst with first | last
  · exact .inl (stages.placed.asked i first)
  rcases List.mem_append.mp last with entry | after
  · exact .inr (.inl (stages.entered.asked i entry))
  · obtain ⟨j, member, r, inside, name, ext, found⟩ := stages.relocated.asked i after
    rw [stages.entered.grown.synth] at found
    exact .inr (.inr ⟨j, member, name, ⟨r, inside, ext⟩, found⟩)

theorem all (stages : Stages sect script s s' s'' early late late' names) (clean : s''.SYMERR = false)
    {i : Fin n} (isConst : (sect i).const = true) (asked : Referred sect script s'' i) :
    i ∈ s''.placed := by
  have clean' : s'.SYMERR = false :=
    Bool.eq_false_iff.mpr fun error => Bool.eq_false_iff.mp clean (stages.relocated.errs error)
  have first : s.SYMERR = false :=
    Bool.eq_false_iff.mpr fun error => Bool.eq_false_iff.mp clean' (stages.entered.errs error)
  rw [Referred, stages.stable, stages.grown.synth] at asked
  rcases asked with ⟨j, name, imports, found⟩ | entry | ⟨j, member, name, ⟨r, inside, ext⟩, found⟩
  · rw [stages.grown.placed]
    exact List.mem_append_left _ (stages.placed.all first j name i imports found isConst)
  · have entered := stages.entered.all clean' i entry isConst
    exact (stages.kept.proc i).mp ((stages.relocated.grown.proc i).mpr (.inl entered))
  · rw [← stages.entered.grown.synth] at found
    exact (stages.kept.proc i).mp
      (stages.relocated.all clean i ⟨j, member, r, inside, name, ext, found⟩ isConst)

theorem lengths (stages : Stages sect script s s' s'' early late late' names) (i : Fin n) :
    (content s'' i).length = if (sect i).bss then 0 else (sect i).size.toNat := by
  cases bss : (sect i).bss with
  | true =>
      rw [Whole.empty stages.whole bss]
      rfl
  | false => exact (Whole.bytes stages.whole bss).2

theorem linked (stages : Stages sect script s s' s'' early late late' names) :
    Linked sect script s'' (if s''.SYMERR then none else some (output sect script s'')) where
  once := stages.kept.nodup
  reached := fun _ free => stages.reached free
  laid := by
    refine ⟨names, early, late ++ late', stages.placed.laid, stages.order, fun i inside => ?_, ?_,
      fun m member some apart => ?_⟩
    · rcases List.mem_append.mp inside with first | last
      · exact (stages.placed.const i first).1
      · exact stages.const_of_late last
    · refine stages.placed.follow.congr fun block member i inside => stages.steady ?_
      obtain ⟨ms, -, rfl⟩ := List.mem_map.mp member
      exact not_const inside
    · rw [stages.grown.synth]
      exact (stages.symbols m member some apart).congr fun i inside => stages.steady (mem_named.mp inside).1
  zero := fun _ inside isConst => stages.zero inside isConst
  referred := fun _ inside isConst => stages.referred inside isConst
  all := fun clean _ isConst asked => stages.all clean isConst asked
  lengths := stages.lengths
  failed := fun error => if_pos error
  output := fun clean => by
    rw [if_neg (by rw [clean]; exact Bool.false_ne_true)]
    exact ⟨_, rfl, output_carries stages.whole⟩

end Stages

/-- The synthetic symbols change nothing else. -/
theorem Placed.synth {early : List (Fin n)} {names : List (List Chars)}
    (placed : Placed sect script s early names) (synth : List Sym) :
    Placed sect script { s with synth } early names where
  laid := placed.laid
  placed := placed.placed
  const := placed.const
  kept := ⟨placed.kept.nodup, placed.kept.proc⟩
  whole := placed.whole
  follow := placed.follow
  asked := placed.asked
  all := placed.all

/-- Where each relocation's bytes are its section's and there is room for the synthetic symbols, LINK
comes to its end, the sections placed as the script says. -/
theorem sections_placed (inside : ∀ i, ∀ r ∈ (sect i).relocs, r.Inside (sect i))
    (roomy : ∀ i, script.Room (sect i).name) {fuel : Nat} (enough : n < fuel) :
    ∃ s out, link sect script fuel = .ok (s, out) ∧ Linked sect script s out := by
  obtain ⟨early, names, placed⟩ := @place_spec n sect script
  rw [link]
  generalize place sect script.slines (preconst sect (.start sect script.EXECADDR)) = s at placed ⊢
  obtain ⟨s', ran, same, symbols⟩ := gensyms_spec roomy s
  have placed' : Placed sect script s' early names := by
    rw [same]
    exact placed.synth _
  have load : s'.load = s.load := by rw [same]
  have stable : Stable sect (s'.included sect) s' := fun _ => rfl
  obtain ⟨late, entered⟩ := entry_brought stable script
  obtain ⟨s'', late', ran', relocated⟩ := relocate_brought (entered.grown.stable stable)
    (entered.grown.whole placed'.whole) (entered.grown.kept placed'.kept) inside (Nat.zero_le _)
    (show n < 0 + fuel by omega)
  have stages : Stages sect script s' (entry sect script s') s'' early late late' names := by
    refine ⟨placed', fun m member some apart => ?_, entered, relocated⟩
    obtain ⟨before, after, split, differs⟩ := placed.run member apart
    rw [load]
    exact symbols before (named sect m) after m split some (fun j inside => (mem_named.mp inside).2) differs
  rw [ran]
  exact ⟨s'', _, congrArg (Except.map _) ran', stages.linked⟩

/-- A constant section of a byte, with one export. -/
def constant (name symbol : Byte) : Sect where
  file := 1
  flags := SEF_CONST
  size := 1#16
  locals := []
  exports := [{ name := [symbol], val := 5#16 }]
  relocs := []
  code := [[0#8]]
  name := [name]
  named := List.cons_ne_nil _ _
  whole := by
    rw [if_pos (by decide)]
    exact ⟨by decide, rfl, rfl⟩

/-- A bss section, with an import for each symbol. -/
def reserved (name : Byte) (size : BitVec 16) (symbols : List Byte) : Sect where
  file := 2
  flags := SEF_BSS
  size := size
  locals := []
  exports := []
  relocs := symbols.map fun symbol => { off := 0#16, flags := 0#8, expr := [.ext [symbol]] }
  code := []
  name := [name]
  named := List.cons_ne_nil _ _
  whole := by
    rw [if_neg (by decide)]
    rfl

theorem reserved_imports {name : Byte} {size : BitVec 16} {symbols : List Byte} {r : Reloc} {m : Chars}
    (member : r ∈ (reserved name size symbols).relocs) (inside : Term.ext m ∈ r.expr) :
    ∃ symbol ∈ symbols, m = [symbol] := by
  obtain ⟨symbol, known, rfl⟩ := List.mem_map.mp member
  exact ⟨symbol, known, Term.ext.inj (List.mem_singleton.mp inside)⟩

/-- A constant section, and one that imports its symbol. -/
def twoSect (i : Fin 2) : Sect :=
  if i.val = 0 then constant 0x78#8 0x61#8 else reserved 0x79#8 0x10#16 [0x61#8]

/-- All sections, from $1000 on. -/
def everything (EXECSYM : Option Chars) : Script where
  slines := [{ name := [], yes := 0#8, no := 0#8, load := 0x1000#16, hasload := true, down := false }]
  BPAT := [0x73#8, 0x5F#8, 0x25#8, 0x73#8]
  LPAT := [0x6C#8, 0x5F#8, 0x25#8, 0x73#8]
  EXECSYM := EXECSYM
  EXECADDR := 0#16
  FORMAT := .raw

theorem sections_placed_two : ∃ s out, link twoSect (everything none) 3 = .ok (s, out) ∧
    (1 : Fin 2) ∈ s.placed ∧ Linked twoSect (everything none) s out := by
  have inside : ∀ i, ∀ r ∈ (twoSect i).relocs, r.Inside (twoSect i) := by
    intro i r member bss
    rw [twoSect] at member bss
    split at member
    · cases member
    · next other =>
        rw [if_neg other] at bss
        exact absurd bss (by decide)
  have roomy : ∀ i, (everything none).Room (twoSect i).name := by
    intro i
    change _ < NAMEROOM ∧ _ < NAMEROOM
    revert i
    decide
  obtain ⟨s, out, ran, linked⟩ := sections_placed inside roomy (show 2 < 3 by decide)
  refine ⟨s, out, ran, (linked.reached 1 (by decide)).mpr ⟨_, List.mem_singleton_self _, ?_⟩, linked⟩
  exact .inr ⟨rfl, 1, by decide, rfl⟩

/-- Constant sections x, w and x that are imported, 72K of x and y, and one with the entry point. -/
def manySect (i : Fin 6) : Sect :=
  if i.val = 0 then constant 0x78#8 0x61#8
  else if i.val = 1 then constant 0x77#8 0x62#8
  else if i.val = 2 then constant 0x78#8 0x63#8
  else if i.val = 3 then reserved 0x78#8 0x9000#16 [0x61#8, 0x62#8, 0x63#8]
  else if i.val = 4 then reserved 0x79#8 0x9000#16 []
  else constant 0x6B#8 0x65#8

/-- y begins at $A000 and its byte $7000 is where x begins; k is placed, and no section imports its
symbol; and x's length symbol is neither the length of all of x's sections nor that of the one which is
not constant. -/
theorem sections_not_apart : ∃ s out,
    link manySect (everything (some [0x65#8])) 7 = .ok (s, some out) ∧
    s.placed = [0, 1, 2, 3, 4, 5] ∧
    (s.load 4 + 0x7000#16 = s.load 3 ∧ 0x7000 < (manySect 4).size.toNat ∧
      0 < (manySect 3).size.toNat) ∧
    (s.load 5 = 0#16 ∧ (manySect 5).const = true ∧ ∀ i, ¬Imports manySect i [0x65#8]) ∧
    (s.synth.find? (·.name = [0x6C#8, 0x5F#8, 0x78#8])).map (·.val) = some 0x9001#16 ∧
      ([0, 2, 3].map fun i => (manySect i).size.toNat).sum = 0x9002 := by
  have ran : (link manySect (everything (some [0x65#8])) 7).toOption.map (fun done =>
      (done.2.isSome, done.1.placed, [done.1.load 3, done.1.load 4, done.1.load 5],
        (done.1.synth.find? (·.name = [0x6C#8, 0x5F#8, 0x78#8])).map (·.val))) =
      some (true, [0, 1, 2, 3, 4, 5], [0x1000#16, 0xA000#16, 0#16], some 0x9001#16) := by
    decide
  obtain ⟨⟨s, out⟩, found, views⟩ := Option.map_eq_some_iff.mp ran
  obtain ⟨written, views⟩ := Prod.mk.inj views
  obtain ⟨placed, views⟩ := Prod.mk.inj views
  obtain ⟨loads, length⟩ := Prod.mk.inj views
  obtain ⟨load₃, loads⟩ := List.cons.inj loads
  obtain ⟨load₄, loads⟩ := List.cons.inj loads
  obtain ⟨load₅, -⟩ := List.cons.inj loads
  obtain ⟨out, rfl⟩ := Option.isSome_iff_exists.mp written
  refine ⟨s, out, ?_, placed, ⟨?_, by decide, by decide⟩, ⟨load₅, by decide, ?_⟩, length, by decide⟩
  · cases linked : link manySect (everything (some [0x65#8])) 7 with
    | error fault =>
        rw [linked] at found
        cases found
    | ok done =>
        rw [linked] at found
        exact congrArg Except.ok (Option.some.inj found)
  · rw [load₃, load₄]
    decide
  · rintro i ⟨r, member, inside⟩
    have none : ∀ symbols : List Byte, 0x65#8 ∉ symbols →
        ¬∃ symbol ∈ symbols, [0x65#8] = [symbol] := by
      rintro symbols absent ⟨symbol, known, same⟩
      exact absent ((List.cons.inj same).1 ▸ known)
    rw [manySect] at member
    split at member
    · cases member
    split at member
    · cases member
    split at member
    · cases member
    split at member
    · exact none _ (by decide) (reserved_imports member inside)
    split at member
    · cases member
    · cases member

end Pugputer.Linker

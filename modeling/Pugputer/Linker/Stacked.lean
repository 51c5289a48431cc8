import Pugputer.Linker.Layout

namespace Pugputer.Linker

/-! PLACE puts the sections one after another. -/

variable {n : Nat} {sect : Fin n → Sect} {s : Links n}

section

variable {load load' : Fin n → BitVec 16} {down : Bool}

theorem Adjoin.congr {addr next : BitVec 16} {block : List (Fin n)}
    (adjoin : Adjoin sect load down addr block next) (same : ∀ i ∈ block, load' i = load i) :
    Adjoin sect load' down addr block next := by
  induction block generalizing addr with
  | nil => exact adjoin
  | cons i block ih =>
      have here := same i List.mem_cons_self
      have rest := fun j member => same j (List.mem_cons_of_mem i member)
      cases down with
      | true =>
          obtain ⟨first, adjoin⟩ := adjoin
          refine ⟨here.trans first, ?_⟩
          rw [here]
          exact ih adjoin rest
      | false =>
          obtain ⟨first, adjoin⟩ := adjoin
          exact ⟨here.trans first, ih adjoin rest⟩

theorem Follow.congr {slines : List SLine} {blocks : List (List (Fin n))} {addr : BitVec 16}
    (follow : Follow sect load slines blocks addr down)
    (same : ∀ block ∈ blocks, ∀ i ∈ block, load' i = load i) :
    Follow sect load' slines blocks addr down := by
  induction slines generalizing blocks addr down with
  | nil =>
      cases blocks with
      | nil => trivial
      | cons block blocks => exact follow.elim
  | cons l slines ih =>
      cases blocks with
      | nil => exact follow.elim
      | cons block blocks =>
          obtain ⟨next, adjoin, follow⟩ := follow
          exact ⟨next, adjoin.congr (same block List.mem_cons_self),
            ih follow fun block member => same block (List.mem_cons_of_mem _ member)⟩

end

/-! Sections placed in a row. -/

def stack (sect : Fin n → Sect) (block : List (Fin n)) (s : Links n) : Links n :=
  block.foldl (placeone sect) s

theorem stack_append (b b' : List (Fin n)) (s : Links n) :
    stack sect (b ++ b') s = stack sect b' (stack sect b s) :=
  List.foldl_append

/-- Where a section goes, and what comes next. -/
def Links.at (s : Links n) (x : Sect) : BitVec 16 := if s.GROWDN then s.LADDR - x.size else s.LADDR

def Links.onward (s : Links n) (x : Sect) : BitVec 16 :=
  if s.GROWDN then s.LADDR - x.size else s.LADDR + x.size

theorem placeone_eq (s : Links n) (i : Fin n) :
    placeone sect s i =
      { s with
        proc := Function.update s.proc i true
        load := Function.update s.load i (s.at (sect i))
        placed := s.placed ++ [i]
        LADDR := s.onward (sect i) } := by
  rw [placeone, Links.at, Links.onward]
  cases down : s.GROWDN with
  | true => rfl
  | false => rfl

/-- What placing sections does not change. -/
structure Beside (s s' : Links n) : Prop where
  code : s'.code = s.code
  synth : s'.synth = s.synth
  SYMERR : s'.SYMERR = s.SYMERR
  EXECADDR : s'.EXECADDR = s.EXECADDR

theorem Beside.trans {s s' s'' : Links n} (first : Beside s s') (second : Beside s' s'') :
    Beside s s'' :=
  ⟨second.code.trans first.code, second.synth.trans first.synth, second.SYMERR.trans first.SYMERR,
    second.EXECADDR.trans first.EXECADDR⟩

theorem stack_beside (block : List (Fin n)) (s : Links n) :
    Beside s (stack sect block s) ∧ (stack sect block s).GROWDN = s.GROWDN := by
  induction block generalizing s with
  | nil => exact ⟨⟨rfl, rfl, rfl, rfl⟩, rfl⟩
  | cons i block ih =>
      obtain ⟨beside, down⟩ := ih (placeone sect s i)
      rw [placeone_eq] at beside down
      rw [stack, List.foldl_cons, ← stack, placeone_eq]
      exact ⟨⟨beside.code, beside.synth, beside.SYMERR, beside.EXECADDR⟩, down⟩

theorem stack_placed (block : List (Fin n)) (s : Links n) :
    (stack sect block s).placed = s.placed ++ block := by
  induction block generalizing s with
  | nil => exact (List.append_nil _).symm
  | cons i block ih =>
      rw [stack, List.foldl_cons, ← stack, ih, placeone_eq, List.append_assoc, List.singleton_append]

theorem stack_proc (block : List (Fin n)) (s : Links n) (j : Fin n) :
    (stack sect block s).proc j = true ↔ s.proc j = true ∨ j ∈ block := by
  induction block generalizing s with
  | nil => simp only [stack, List.foldl_nil, List.not_mem_nil, or_false]
  | cons i block ih =>
      rw [stack, List.foldl_cons, ← stack, ih, placeone_eq, List.mem_cons]
      dsimp only
      by_cases same : j = i
      · subst same
        simp only [Function.update_self, true_or, or_true]
      · rw [Function.update_of_ne same]
        simp only [same, false_or]

theorem stack_load {block : List (Fin n)} {j : Fin n} (other : j ∉ block) (s : Links n) :
    (stack sect block s).load j = s.load j := by
  induction block generalizing s with
  | nil => rfl
  | cons i block ih =>
      obtain ⟨differs, rest⟩ := not_or.mp (mt List.mem_cons.mpr other)
      rw [stack, List.foldl_cons, ← stack, ih rest, placeone_eq]
      exact Function.update_of_ne differs _ _

theorem stack_adjoin {block : List (Fin n)} (nodup : block.Nodup) (s : Links n) :
    Adjoin sect (stack sect block s).load s.GROWDN s.LADDR block (stack sect block s).LADDR := by
  induction block generalizing s with
  | nil => rfl
  | cons i block ih =>
      obtain ⟨apart, nodup⟩ := List.nodup_cons.mp nodup
      have rest := ih nodup (placeone sect s i)
      have here : (stack sect block (placeone sect s i)).load i = s.at (sect i) := by
        rw [stack_load apart, placeone_eq]
        exact Function.update_self i _ _
      rw [stack, List.foldl_cons, ← stack]
      generalize stack sect block (placeone sect s i) = t at rest here ⊢
      rw [placeone_eq] at rest
      dsimp only at rest
      rw [Links.at] at here
      rw [Links.onward] at rest
      rw [Adjoin]
      cases down : s.GROWDN with
      | true =>
          rw [down, if_pos rfl] at rest here
          rw [if_pos rfl, here]
          exact ⟨rfl, rest⟩
      | false =>
          rw [down, if_neg Bool.false_ne_true] at rest here
          rw [if_neg Bool.false_ne_true]
          exact ⟨here, rest⟩

/-! A name's sections. -/

/-- The names placed so far: of each one all the sections are. -/
def Done (sect : Fin n → Sect) (s : Links n) (D : List Chars) : Prop :=
  ∀ i, (sect i).const = false → (s.proc i = true ↔ (sect i).name ∈ D)

theorem mem_named {m : Chars} {i : Fin n} :
    i ∈ named sect m ↔ (sect i).const = false ∧ (sect i).name = m := by
  rw [named, List.mem_filter, Bool.and_eq_true, decide_eq_true_iff, Bool.not_eq_true']
  exact and_iff_right (List.mem_finRange i)

theorem named_nodup (m : Chars) : (named sect m).Nodup := (List.nodup_finRange n).filter _

theorem Done.more {D : List Chars} (done : Done sect s D) (ns : List Chars) :
    Done sect (stack sect (ns.flatMap (named sect)) s) (ns ++ D) := by
  intro i free
  rw [stack_proc, List.mem_append, done i free, List.mem_flatMap, or_comm]
  refine or_congr_left ⟨?_, fun member => ⟨_, member, mem_named.mpr ⟨free, rfl⟩⟩⟩
  rintro ⟨m, member, inside⟩
  rw [(mem_named.mp inside).2]
  exact member

/-- In a walk, what is put only once can be put all at once. -/
theorem foldl_fresh {m : Chars} (L : List (Fin n)) (nodup : L.Nodup) (s : Links n) :
    L.foldl (fun s i =>
      if (sect i).const || s.proc i || (sect i).name ≠ m then s else placeone sect s i) s =
    stack sect (L.filter fun i => !((sect i).const || s.proc i || (sect i).name ≠ m)) s := by
  induction L generalizing s with
  | nil => rfl
  | cons i L ih =>
      obtain ⟨apart, nodup⟩ := List.nodup_cons.mp nodup
      rw [List.foldl_cons, ih nodup]
      cases skip : (sect i).const || s.proc i || decide ((sect i).name ≠ m) with
      | true => rw [if_pos rfl, List.filter_cons_of_neg (by rw [skip]; exact Bool.false_ne_true)]
      | false =>
          rw [if_neg Bool.false_ne_true, List.filter_cons_of_pos (by rw [skip]; rfl)]
          refine congrArg (fun l => stack sect l (placeone sect s i))
            (List.filter_congr fun j member => ?_)
          have differs : j ≠ i := fun same => apart (same ▸ member)
          rw [placeone_eq]
          dsimp only
          rw [Function.update_of_ne differs]

theorem placename_spec {D : List Chars} (done : Done sect s D) (m : Chars) :
    placename sect m s = stack sect (if m ∈ D then [] else named sect m) s := by
  rw [placename, foldl_fresh _ (List.nodup_finRange n)]
  refine congrArg (fun l => stack sect l s) ?_
  split
  · next already =>
      rw [List.filter_eq_nil_iff]
      intro i _
      cases free : (sect i).const with
      | true => simp only [Bool.true_or, Bool.not_true, Bool.false_eq_true, not_false_eq_true]
      | false =>
          by_cases same : (sect i).name = m
          · have placed := (done i free).mpr (same ▸ already)
            simp only [placed, Bool.true_or, Bool.or_true, Bool.not_true, Bool.false_eq_true,
              not_false_eq_true]
          · simp only [same, ne_eq, not_false_eq_true, decide_true, Bool.or_true, Bool.not_true,
              Bool.false_eq_true]
  · next fresh =>
      rw [named]
      refine List.filter_congr fun i _ => ?_
      cases free : (sect i).const with
      | true => simp only [Bool.true_or, Bool.not_true, Bool.false_and]
      | false =>
          by_cases same : (sect i).name = m
          · have unplaced : s.proc i = false := by
              rw [Bool.eq_false_iff]
              intro placed
              exact fresh (same ▸ (done i free).mp placed)
            simp only [unplaced, same, ne_eq, not_true_eq_false, decide_false, Bool.or_false,
              Bool.not_false, decide_true, Bool.and_true]
          · simp only [same, ne_eq, not_false_eq_true, decide_true, Bool.or_true, Bool.not_true,
              decide_false, Bool.and_false]

/-! A line's sections. -/

theorem wants_free {l : SLine} {x : Sect} (wanted : l.wants x = true) : x.const = false := by
  cases isConst : x.const with
  | true =>
      rw [SLine.wants, isConst] at wanted
      cases wanted
  | false => rfl

/-- A wanted section's name, and those of the sections after it. -/
theorem wild_cons {D : List Chars} {l : SLine} {i : Fin n} {L : List (Fin n)}
    (wanted : l.wants (sect i) = true) (fresh : (sect i).name ∉ D) (m : Chars) :
    (m = (sect i).name ∨ m ∉ [(sect i).name] ++ D ∧
        ∃ j ∈ L, l.wants (sect j) = true ∧ (sect j).name = m) ↔
      m ∉ D ∧ ∃ j ∈ i :: L, l.wants (sect j) = true ∧ (sect j).name = m := by
  rw [List.mem_append, List.mem_singleton, not_or]
  constructor
  · rintro (rfl | ⟨⟨other, notD⟩, j, inside, wants, name⟩)
    · exact ⟨fresh, i, List.mem_cons_self, wanted, rfl⟩
    · exact ⟨notD, j, List.mem_cons_of_mem _ inside, wants, name⟩
  · rintro ⟨notD, j, inside, wants, rfl⟩
    by_cases equal : (sect j).name = (sect i).name
    · exact .inl equal
    · refine .inr ⟨⟨equal, notD⟩, j, ?_, wants, rfl⟩
      rcases List.mem_cons.mp inside with rfl | later
      · exact absurd rfl equal
      · exact later

/-- * places the names of the sections in `L` that are wanted, if they are not placed. -/
theorem wild_spec {D : List Chars} (l : SLine) (L : List (Fin n)) (done : Done sect s D) :
    ∃ ns : List Chars, ns.Nodup ∧ (∀ m, m ∈ ns ↔ m ∉ D ∧ ∃ i ∈ L, l.wants (sect i) = true ∧
        (sect i).name = m) ∧
      L.foldl (fun s i => if !l.wants (sect i) || s.proc i then s
        else placename sect (sect i).name s) s = stack sect (ns.flatMap (named sect)) s := by
  induction L generalizing s D with
  | nil =>
      refine ⟨[], List.nodup_nil, fun m => ?_, rfl⟩
      simp only [List.not_mem_nil, false_and, exists_false, and_false]
  | cons i L ih =>
      rw [List.foldl_cons]
      by_cases skip : (!l.wants (sect i) || s.proc i) = true
      · obtain ⟨ns, nodup, member, same⟩ := ih done
        refine ⟨ns, nodup, fun m => ?_, by rw [if_pos skip, same]⟩
        rw [member]
        refine and_congr_right fun fresh => ?_
        simp only [List.mem_cons, or_and_right, exists_or, exists_eq_left]
        refine (or_iff_right ?_).symm
        rintro ⟨wanted, rfl⟩
        rw [wanted, Bool.not_true, Bool.false_or] at skip
        exact fresh ((done i (wants_free wanted)).mp skip)
      · rw [if_neg skip]
        rw [Bool.not_eq_true, Bool.or_eq_false_iff, Bool.not_eq_false'] at skip
        obtain ⟨wanted, unplaced⟩ := skip
        have fresh : (sect i).name ∉ D := fun inside => by
          rw [(done i (wants_free wanted)).mpr inside] at unplaced
          cases unplaced
        have first : placename sect (sect i).name s = stack sect (named sect (sect i).name) s := by
          rw [placename_spec done, if_neg fresh]
        have more := done.more [(sect i).name]
        rw [List.flatMap_singleton] at more
        rw [first]
        obtain ⟨ns, nodup, member, same⟩ := ih more
        refine ⟨(sect i).name :: ns, List.nodup_cons.mpr ⟨fun inside => ?_, nodup⟩, fun m => ?_, ?_⟩
        · exact ((member _).mp inside).1 (List.mem_append_left _ (List.mem_singleton_self _))
        · rw [List.mem_cons, member]
          exact wild_cons wanted fresh m
        · rw [same, List.flatMap_cons, stack_append]

/-- A line of the script, where `D` are the names that are done. -/
theorem placeline_spec {D : List Chars} (done : Done sect s D) (l : SLine) :
    ∃ ns : List Chars, ns.Nodup ∧ (∀ m ∈ ns, m ∉ D) ∧
      (∀ m, named sect m ≠ [] → (m ∈ ns ↔ l.Reaches sect m ∧ m ∉ D)) ∧
      placeline sect s l = stack sect (ns.flatMap (named sect))
        (if l.hasload then { s with LADDR := l.load, GROWDN := l.down } else s) := by
  have moved : Done sect (if l.hasload then { s with LADDR := l.load, GROWDN := l.down } else s) D := by
    split
    · exact done
    · exact done
  rw [placeline]
  generalize (if l.hasload then { s with LADDR := l.load, GROWDN := l.down } else s) = t at moved
  by_cases wild : l.name = []
  · rw [if_neg (not_not_intro wild)]
    obtain ⟨ns, nodup, member, same⟩ := wild_spec l (List.finRange n) moved
    refine ⟨ns, nodup, fun m inside => ((member m).mp inside).1, fun m _ => ?_, same⟩
    rw [member, SLine.Reaches, and_comm]
    refine and_congr_left fun _ => ?_
    simp only [wild, ne_eq, not_true_eq_false, false_and, false_or, true_and, List.mem_finRange]
  · rw [if_pos wild, placename_spec moved]
    by_cases already : l.name ∈ D
    · refine ⟨[], List.nodup_nil, by rintro m ⟨⟩, fun m _ => ?_, ?_⟩
      · simp only [List.not_mem_nil, SLine.Reaches, wild, ne_eq, not_false_eq_true, true_and,
          false_and, or_false, false_iff, not_and, not_not]
        rintro rfl
        exact already
      · rw [if_pos already]
        rfl
    · refine ⟨[l.name], List.nodup_singleton _, ?_, fun m _ => ?_, ?_⟩
      · intro m inside
        rw [List.mem_singleton.mp inside]
        exact already
      · simp only [List.mem_singleton, SLine.Reaches, wild, ne_eq, not_false_eq_true, true_and,
          false_and, or_false]
        constructor
        · rintro rfl
          exact ⟨rfl, already⟩
        · rintro ⟨rfl, -⟩
          rfl
      · rw [if_neg already, List.flatMap_singleton]

theorem blocks_nodup {names : List Chars} (nodup : names.Nodup) :
    (names.flatMap (named sect)).Nodup := by
  rw [List.nodup_flatMap]
  refine ⟨fun m _ => named_nodup m, nodup.imp fun {m m'} differs i inside inside' => ?_⟩
  exact differs ((mem_named.mp inside).2.symm.trans (mem_named.mp inside').2)

/-- What lines of the script do, where `D` are the names that are done. -/
structure Spread (sect : Fin n → Sect) (slines : List SLine) (D : List Chars) (s s' : Links n)
    (names : List (List Chars)) : Prop where
  each : names.length = slines.length
  nodup : names.flatten.Nodup
  fresh : ∀ m ∈ names.flatten, m ∉ D
  first : ∀ k m, named sect m ≠ [] → (m ∈ names.getD k [] ↔
    ((∃ l, slines[k]? = some l ∧ l.Reaches sect m) ∧
      ∀ j < k, ∀ l, slines[j]? = some l → ¬l.Reaches sect m) ∧ m ∉ D)
  beside : Beside s s'
  placed : s'.placed = s.placed ++ names.flatten.flatMap (named sect)
  proc : ∀ j, s'.proc j = true ↔ s.proc j = true ∨ j ∈ names.flatten.flatMap (named sect)
  load : ∀ j, j ∉ names.flatten.flatMap (named sect) → s'.load j = s.load j
  follow : Follow sect s'.load slines (names.map (·.flatMap (named sect))) s.LADDR s.GROWDN

/-- The names of the first line, and of those after it. -/
theorem firsts_cons {slines : List SLine} {D ns : List Chars} {names : List (List Chars)} {l : SLine}
    {m : Chars} (here : m ∈ ns ↔ l.Reaches sect m ∧ m ∉ D)
    (later : ∀ k, m ∈ names.getD k [] ↔
      ((∃ l, slines[k]? = some l ∧ l.Reaches sect m) ∧
        ∀ j < k, ∀ l, slines[j]? = some l → ¬l.Reaches sect m) ∧ m ∉ ns ++ D) (k : Nat) :
    m ∈ (ns :: names).getD k [] ↔
      ((∃ l', (l :: slines)[k]? = some l' ∧ l'.Reaches sect m) ∧
        ∀ j < k, ∀ l', (l :: slines)[j]? = some l' → ¬l'.Reaches sect m) ∧ m ∉ D := by
  cases k with
  | zero =>
      rw [List.getD_cons_zero, here]
      refine and_congr_left fun _ => ⟨fun reaches => ?_, ?_⟩
      · exact ⟨⟨l, rfl, reaches⟩, fun j below => absurd below (Nat.not_lt_zero j)⟩
      · rintro ⟨⟨l', at_, reaches⟩, -⟩
        obtain rfl := Option.some.inj at_
        exact reaches
  | succ k =>
      rw [List.getD_cons_succ, later k, List.getElem?_cons_succ, List.mem_append, not_or, here]
      constructor
      · rintro ⟨⟨reaches, before⟩, notNs, notD⟩
        refine ⟨⟨reaches, fun j below l' at_ => ?_⟩, notD⟩
        cases j with
        | zero =>
            obtain rfl := Option.some.inj at_
            exact fun reach => notNs ⟨reach, notD⟩
        | succ j => exact before j (Nat.lt_of_succ_lt_succ below) l' at_
      · rintro ⟨⟨reaches, before⟩, notD⟩
        refine ⟨⟨reaches, fun j below l' at_ => ?_⟩, fun inside => ?_, notD⟩
        · exact before (j + 1) (Nat.succ_lt_succ below) l' at_
        · exact before 0 (Nat.succ_pos k) l rfl inside.1

theorem Spread.nil (D : List Chars) (s : Links n) : Spread sect [] D s s [] where
  each := rfl
  nodup := List.nodup_nil
  fresh := fun m none => absurd none List.not_mem_nil
  first := fun k m _ => by
    refine iff_of_false List.not_mem_nil ?_
    rintro ⟨⟨⟨l, none, -⟩, -⟩, -⟩
    cases none
  beside := ⟨rfl, rfl, rfl, rfl⟩
  placed := (List.append_nil _).symm
  proc := fun j => (or_iff_left List.not_mem_nil).symm
  load := fun _ _ => rfl
  follow := trivial

/-- A line before them. -/
theorem Spread.cons {slines : List SLine} {D ns : List Chars} {names : List (List Chars)} {l : SLine}
    {s t s' : Links n} (nodup : ns.Nodup) (fresh : ∀ m ∈ ns, m ∉ D)
    (member : ∀ m, named sect m ≠ [] → (m ∈ ns ↔ l.Reaches sect m ∧ m ∉ D))
    (moved : t = if l.hasload then { s with LADDR := l.load, GROWDN := l.down } else s)
    (rest : Spread sect slines (ns ++ D) (stack sect (ns.flatMap (named sect)) t) s' names) :
    Spread sect (l :: slines) D s s' (ns :: names) := by
  have begins : t.LADDR = (if l.hasload then l.load else s.LADDR) ∧
      t.GROWDN = (if l.hasload then l.down else s.GROWDN) ∧ t.placed = s.placed ∧ t.proc = s.proc ∧
      t.load = s.load ∧ Beside s t := by
    rw [moved]
    split
    · exact ⟨rfl, rfl, rfl, rfl, rfl, rfl, rfl, rfl, rfl⟩
    · exact ⟨rfl, rfl, rfl, rfl, rfl, rfl, rfl, rfl, rfl⟩
  obtain ⟨LADDR, GROWDN, order, proc, load, beside⟩ := begins
  obtain ⟨beside', down⟩ := @stack_beside n sect (ns.flatMap (named sect)) t
  have blocks : (ns.flatMap (named sect)).Nodup := blocks_nodup nodup
  have adjoin := @stack_adjoin n sect _ blocks t
  refine ⟨congrArg (· + 1) rest.each, ?_, fun m inside => ?_, fun k m some_ => ?_,
    beside.trans (beside'.trans rest.beside), ?_, fun j => ?_, fun j other => ?_, ?_⟩
  · rw [List.flatten_cons, List.nodup_append]
    refine ⟨nodup, rest.nodup, fun m inside m' inside' same => ?_⟩
    exact rest.fresh m' inside' (List.mem_append_left _ (same ▸ inside))
  · rw [List.flatten_cons, List.mem_append] at inside
    rcases inside with inside | inside
    · exact fresh m inside
    · exact fun old => rest.fresh m inside (List.mem_append_right _ old)
  · exact firsts_cons (member m some_) (fun k => rest.first k m some_) k
  · rw [rest.placed, stack_placed, order, List.flatten_cons, List.flatMap_append, List.append_assoc]
  · rw [rest.proc, stack_proc, proc, List.flatten_cons, List.flatMap_append, List.mem_append, or_assoc]
  · rw [List.flatten_cons, List.flatMap_append, List.mem_append, not_or] at other
    rw [rest.load j other.2, stack_load other.1, load]
  · rw [List.map_cons, Follow, ← LADDR, ← GROWDN]
    refine ⟨_, adjoin.congr fun i inside => rest.load i fun later => ?_, ?_⟩
    · obtain ⟨m, early, here⟩ := List.mem_flatMap.mp inside
      obtain ⟨m', late, there⟩ := List.mem_flatMap.mp later
      have same := (mem_named.mp here).2.symm.trans (mem_named.mp there).2
      exact rest.fresh m' late (List.mem_append_left _ (same ▸ early))
    · rw [← down]
      exact rest.follow

theorem lines_spread {D : List Chars} (slines : List SLine) (done : Done sect s D) :
    ∃ names, Spread sect slines D s (slines.foldl (placeline sect) s) names := by
  induction slines generalizing s D with
  | nil => exact ⟨[], Spread.nil D s⟩
  | cons l slines ih =>
      obtain ⟨ns, nodup, fresh, member, placed⟩ := placeline_spec done l
      have moved : Done sect
          (if l.hasload then { s with LADDR := l.load, GROWDN := l.down } else s) D := by
        split
        · exact done
        · exact done
      obtain ⟨names, rest⟩ := ih (moved.more ns)
      rw [List.foldl_cons, placed]
      exact ⟨ns :: names, Spread.cons nodup fresh member rfl rest⟩

end Pugputer.Linker

import Pugputer.Linker.Stacked

namespace Pugputer.Linker

/-! Constant sections come in as they are referred to. -/

variable {n : Nat} {sect : Fin n → Sect} {s s' s'' : Links n}

/-- Every section has as many bytes as it had. -/
def Links.Whole (sect : Fin n → Sect) (s : Links n) : Prop :=
  ∀ i, Chunked (if (sect i).flags &&& SEF_BSS = 0#8 then (sect i).size.toNat else 0) (s.code i)

/-- Only constant sections have come in. -/
structure Grown (sect : Fin n → Sect) (s s' : Links n) (late : List (Fin n)) : Prop where
  placed : s'.placed = s.placed ++ late
  proc : ∀ j, s'.proc j = true ↔ s.proc j = true ∨ j ∈ late
  fresh : ∀ j ∈ late, (sect j).const = true ∧ s.proc j = false ∧ s'.load j = 0#16
  load : ∀ j, j ∉ late → s'.load j = s.load j
  nodup : late.Nodup
  synth : s'.synth = s.synth
  whole : s.Whole sect → s'.Whole sect

theorem Grown.refl (s : Links n) : Grown sect s s [] where
  placed := (List.append_nil _).symm
  proc := fun j => by simp only [List.not_mem_nil, or_false]
  fresh := by rintro j ⟨⟩
  load := fun _ _ => rfl
  nodup := List.nodup_nil
  synth := rfl
  whole := id

theorem Grown.trans {late late' : List (Fin n)} (first : Grown sect s s' late)
    (second : Grown sect s' s'' late') : Grown sect s s'' (late ++ late') := by
  have apart : ∀ j ∈ late, j ∉ late' := fun j early again => by
    have unplaced := (second.fresh j again).2.1
    rw [(first.proc j).mpr (.inr early)] at unplaced
    cases unplaced
  refine ⟨?_, fun j => ?_, fun j inside => ?_, fun j other => ?_, ?_,
    second.synth.trans first.synth, fun whole => second.whole (first.whole whole)⟩
  · rw [second.placed, first.placed, List.append_assoc]
  · rw [second.proc, first.proc, List.mem_append, or_assoc]
  · rcases List.mem_append.mp inside with early | again
    · obtain ⟨isConst, unplaced, zero⟩ := first.fresh j early
      exact ⟨isConst, unplaced, (second.load j (apart j early)).trans zero⟩
    · obtain ⟨isConst, unplaced, zero⟩ := second.fresh j again
      refine ⟨isConst, ?_, zero⟩
      rw [Bool.eq_false_iff] at unplaced ⊢
      exact fun placed => unplaced ((first.proc j).mpr (.inl placed))
  · rw [List.mem_append, not_or] at other
    rw [second.load j other.2, first.load j other.1]
  · rw [List.nodup_append]
    exact ⟨first.nodup, second.nodup, fun j early j' again same => apart j early (same ▸ again)⟩

/-- What a link has besides its sections makes no difference. -/
theorem Grown.beside {late : List (Fin n)} (grown : Grown sect s s' late) (placed : s''.placed = s'.placed)
    (proc : s''.proc = s'.proc) (load : s''.load = s'.load) (synth : s''.synth = s'.synth)
    (whole : s'.Whole sect → s''.Whole sect) : Grown sect s s'' late where
  placed := placed.trans grown.placed
  proc := by
    rw [proc]
    exact grown.proc
  fresh := by
    rw [load]
    exact grown.fresh
  load := by
    rw [load]
    exact grown.load
  nodup := grown.nodup
  synth := synth.trans grown.synth
  whole := fun first => whole (grown.whole first)

theorem constin_spec (i : Fin n) (s : Links n) : ∃ late, Grown sect s (s.constin sect i) late ∧
    (∀ j ∈ late, j = i) ∧ ((sect i).const = true → (s.constin sect i).proc i = true) := by
  by_cases skip : (s.proc i || !(sect i).const) = true
  · have same : s.constin sect i = s := if_pos skip
    rw [same]
    refine ⟨[], .refl s, by rintro j ⟨⟩, fun isConst => ?_⟩
    rw [isConst, Bool.not_true, Bool.or_false] at skip
    exact skip
  · have brought : s.constin sect i = Links.link i
        { s with proc := Function.update s.proc i true, load := Function.update s.load i 0#16 } :=
      if_neg skip
    rw [Bool.not_eq_true, Bool.or_eq_false_iff, Bool.not_eq_false'] at skip
    rw [brought]
    refine ⟨[i], ⟨rfl, fun j => ?_, fun j inside => ?_, fun j other => ?_, List.nodup_singleton i, rfl,
      id⟩, fun j inside => List.mem_singleton.mp inside, fun _ => Function.update_self i _ _⟩
    · rw [List.mem_singleton]
      by_cases same : j = i
      · subst same
        simp only [Links.link, Function.update_self, or_true]
      · simp only [Links.link, Function.update_of_ne same, same, or_false]
    · rw [List.mem_singleton.mp inside]
      exact ⟨skip.2, skip.1, Function.update_self i _ _⟩
    · exact Function.update_of_ne (fun same => other (List.mem_singleton.mpr same)) _ _

theorem findexpf_find (RESONLY : Bool) (B : Nat) (name : Chars) (s : Links n) (L : List (Fin n)) :
    (findexpf sect RESONLY B name s L).map Prod.fst = L.find? fun i =>
      (B = 0 || B = (sect i).file) && ((sect i).export? name).isSome &&
        (s.proc i || (sect i).const || RESONLY) := by
  induction L with
  | nil => rfl
  | cons i L ih =>
      rw [findexpf]
      by_cases other : B ≠ 0 ∧ B ≠ (sect i).file
      · rw [if_pos other, ih, List.find?_cons_of_neg]
        simp only [other.1, other.2, decide_false, Bool.or_self, Bool.false_and, Bool.false_eq_true,
          not_false_eq_true]
      · have own : (decide (B = 0) || decide (B = (sect i).file)) = true := by
          rw [not_and_or, not_not, not_not] at other
          rcases other with same | same
          · rw [same]
            rfl
          · rw [← same, decide_eq_true rfl, Bool.or_true]
        rw [if_neg other]
        cases found : (sect i).export? name with
        | none =>
            rw [List.find?_cons_of_neg]
            · exact ih
            · simp only [found, Option.isSome_none, Bool.and_false, Bool.false_and, Bool.false_eq_true,
                not_false_eq_true]
        | some v =>
            dsimp only
            split
            · next usable =>
                rw [List.find?_cons_of_pos]
                · rfl
                · rw [own, found, usable]
                  rfl
            · next usable =>
                rw [List.find?_cons_of_neg]
                · exact ih
                · rw [own, found, Option.isSome_some, Bool.true_and]
                  exact usable

/-- The name is not a synthetic symbol. -/
def Unsynth (synth : List Sym) (name : Chars) : Prop := synth.find? (·.name = name) = none

theorem findext_spec (RESONLY : Bool) (CURFILE : Nat) (name : Chars) (s : Links n) :
    let s' := (findext sect RESONLY CURFILE name s).2
    let found := provider sect (fun i => s.proc i || (sect i).const || RESONLY) CURFILE name
    ∃ late, Grown sect s s' late ∧ s'.SYMERR = s.SYMERR ∧ s'.code = s.code ∧
      (∀ j ∈ late, Unsynth s.synth name ∧ found = some j) ∧
      (Unsynth s.synth name → ∀ i, found = some i → (sect i).const = true → s'.proc i = true) := by
  have all := @findexpf_find n sect RESONLY 0 name s (List.finRange n)
  have own := @findexpf_find n sect RESONLY CURFILE name s (List.finRange n)
  dsimp only
  rw [findext]
  cases synthetic : s.synth.find? (·.name = name) with
  | some y =>
      refine ⟨[], .refl s, rfl, rfl, by rintro j ⟨⟩, fun none => ?_⟩
      rw [Unsynth, synthetic] at none
      cases none
  | none =>
      have same : ((if CURFILE = 0 then none
            else findexpf sect RESONLY CURFILE name s (List.finRange n)).or
            (findexpf sect RESONLY 0 name s (List.finRange n))).map Prod.fst =
          provider sect (fun i => s.proc i || (sect i).const || RESONLY) CURFILE name := by
        rw [Option.map_or, all, provider]
        split
        · rfl
        · rw [own]
      rw [← same]
      dsimp only
      generalize (if CURFILE = 0 then none
            else findexpf sect RESONLY CURFILE name s (List.finRange n)).or
            (findexpf sect RESONLY 0 name s (List.finRange n)) = found
      cases found with
      | none =>
          exact ⟨[], .refl s, rfl, rfl, by rintro j ⟨⟩, by rintro _ i ⟨⟩⟩
      | some found =>
          obtain ⟨i, v⟩ := found
          obtain ⟨late, grown, only, placed⟩ := @constin_spec n sect i s
          have kept : (s.constin sect i).SYMERR = s.SYMERR ∧ (s.constin sect i).code = s.code := by
            rw [Links.constin]
            split
            · exact ⟨rfl, rfl⟩
            · exact ⟨rfl, rfl⟩
          refine ⟨late, grown, kept.1, kept.2, fun j inside => ⟨synthetic, ?_⟩, ?_⟩
          · rw [only j inside]
            rfl
          · rintro _ _ ⟨⟩
            exact placed

/-! What brings them in. -/

/-- Sections come in that `Ask` has, and without an error all such constant ones. -/
structure Brought (sect : Fin n → Sect) (Ask : Fin n → Prop) (s s' : Links n)
    (late : List (Fin n)) : Prop where
  grown : Grown sect s s' late
  errs : s.SYMERR = true → s'.SYMERR = true
  asked : ∀ j ∈ late, Ask j
  all : s'.SYMERR = false → ∀ j, Ask j → (sect j).const = true → s'.proc j = true

namespace Brought

variable {Ask Ask' : Fin n → Prop} {late late' : List (Fin n)}

theorem congr (brought : Brought sect Ask s s' late) (same : ∀ j, Ask j ↔ Ask' j) :
    Brought sect Ask' s s' late :=
  ⟨brought.grown, brought.errs, fun j inside => (same j).mp (brought.asked j inside),
    fun clean j ask => brought.all clean j ((same j).mpr ask)⟩

theorem idle (s : Links n) (none : ∀ j, ¬Ask j) : Brought sect Ask s s [] :=
  ⟨.refl s, id, fun _ inside => absurd inside List.not_mem_nil, fun _ j ask => absurd ask (none j)⟩

theorem trans (first : Brought sect Ask s s' late) (second : Brought sect Ask' s' s'' late') :
    Brought sect (fun j => Ask j ∨ Ask' j) s s'' (late ++ late') := by
  refine ⟨first.grown.trans second.grown, second.errs ∘ first.errs, fun j inside => ?_,
    fun clean j ask isConst => ?_⟩
  · rcases List.mem_append.mp inside with early | after
    · exact .inl (first.asked j early)
    · exact .inr (second.asked j after)
  · rcases ask with early | after
    · have before : s'.SYMERR = false := by
        rw [Bool.eq_false_iff] at clean ⊢
        exact fun error => clean (second.errs error)
      exact (second.grown.proc j).mpr (.inl (first.all before j early isConst))
    · exact second.all clean j after isConst

end Brought

/-- Many times, while there are no synthetic symbols. -/
theorem foldl_brought {α : Type} {f : Links n → α → Links n} {Ask : α → Fin n → Prop}
    (step : ∀ s a, s.synth = [] → ∃ late, Brought sect (Ask a) s (f s a) late) (l : List α)
    (s : Links n) (none : s.synth = []) :
    ∃ late, Brought sect (fun j => ∃ a ∈ l, Ask a j) s (l.foldl f s) late := by
  induction l generalizing s with
  | nil =>
      refine ⟨[], .idle s ?_⟩
      rintro j ⟨a, none, -⟩
      exact List.not_mem_nil none
  | cons a l ih =>
      obtain ⟨late, first⟩ := step s a none
      obtain ⟨late', rest⟩ := ih (f s a) (first.grown.synth.trans none)
      refine ⟨late ++ late', (first.trans rest).congr fun j => ?_⟩
      simp only [List.mem_cons, or_and_right, exists_or, exists_eq_left]

theorem preTerm_brought (x : Sect) (s : Links n) (t : Term) (none : s.synth = []) :
    ∃ late, Brought sect
      (fun j => ∃ name, t = .ext name ∧ provider sect (fun _ => true) x.file name = some j) s
      (preTerm sect x s t) late := by
  cases t with
  | ext name =>
      obtain ⟨late, grown, clean, -, asked, all⟩ := @findext_spec n sect true x.file name s
      have unsynth : Unsynth s.synth name := by
        rw [Unsynth, none]
        rfl
      have any : (fun i => s.proc i || (sect i).const || true) = fun _ => true :=
        funext fun i => Bool.or_true _
      rw [any] at asked all
      refine ⟨late, grown, fun error => clean.trans error,
        fun j inside => ⟨name, rfl, (asked j inside).2⟩, ?_⟩
      rintro - j ⟨_, ⟨⟩, found⟩
      exact all unsynth j found
  | _ =>
      refine ⟨[], .idle s ?_⟩
      rintro j ⟨_, ⟨⟩, -⟩

theorem preReloc_brought (x : Sect) (s : Links n) (r : Reloc) (none : s.synth = []) :
    ∃ late, Brought sect
      (fun j => ∃ t ∈ r.expr, ∃ name, t = .ext name ∧
        provider sect (fun _ => true) x.file name = some j) s (preReloc sect x s r) late :=
  foldl_brought (preTerm_brought x) r.expr s none

theorem preSect_brought (s : Links n) (i : Fin n) (none : s.synth = []) :
    ∃ late, Brought sect
      (fun j => ∃ r ∈ (sect i).relocs, ∃ t ∈ r.expr, ∃ name, t = .ext name ∧
        provider sect (fun _ => true) (sect i).file name = some j) s (preSect sect s i) late :=
  foldl_brought (preReloc_brought (sect i)) (sect i).relocs s none

/-- What any import refers to, placed or not. -/
theorem preconst_brought (s : Links n) (none : s.synth = []) :
    ∃ early, Brought sect
      (fun j => ∃ i name, Imports sect i name ∧
        provider sect (fun _ => true) (sect i).file name = some j) s (preconst sect s) early := by
  obtain ⟨early, brought⟩ := foldl_brought preSect_brought (List.finRange n) s none
  refine ⟨early, brought.congr fun j => ?_⟩
  constructor
  · rintro ⟨i, -, r, inside, _, inside', name, rfl, found⟩
    exact ⟨i, name, ⟨r, inside, inside'⟩, found⟩
  · rintro ⟨i, name, ⟨r, inside, inside'⟩, found⟩
    exact ⟨i, List.mem_finRange i, r, inside, _, inside', name, rfl, found⟩

/-! The relocations bring in more. -/

/-- An external name of the expression is a constant section's, or a placed one's. -/
def Refers (sect : Fin n → Sect) (included : Fin n → Bool) (synth : List Sym) (file : Nat)
    (expr : List Term) (j : Fin n) : Prop :=
  ∃ name, Term.ext name ∈ expr ∧ Unsynth synth name ∧ provider sect included file name = some j

/-- Every section that is not constant is placed already, or is not to be. -/
def Stable (sect : Fin n → Sect) (included : Fin n → Bool) (s : Links n) : Prop :=
  ∀ i, (s.proc i || (sect i).const) = included i

theorem Grown.stable {included : Fin n → Bool} {late : List (Fin n)} (grown : Grown sect s s' late)
    (stable : Stable sect included s) : Stable sect included s' := by
  intro i
  rw [← stable i]
  cases isConst : (sect i).const with
  | true => rw [Bool.or_true, Bool.or_true]
  | false =>
      rw [Bool.or_false, Bool.or_false, Bool.eq_iff_iff, grown.proc]
      refine or_iff_left fun inside => ?_
      rw [(grown.fresh i inside).1] at isConst
      cases isConst

/-- A look-up, as a step of a larger run. -/
theorem findext_stable {included : Fin n → Bool} (stable : Stable sect included s) (CURFILE : Nat)
    (name : Chars) :
    let s' := (findext sect false CURFILE name s).2
    ∃ late, Grown sect s s' late ∧ s'.SYMERR = s.SYMERR ∧ s'.code = s.code ∧
      (∀ j ∈ late, Unsynth s.synth name ∧ provider sect included CURFILE name = some j) ∧
      (Unsynth s.synth name → ∀ i, provider sect included CURFILE name = some i →
        (sect i).const = true → s'.proc i = true) := by
  have same : (fun i => s.proc i || (sect i).const || false) = included :=
    funext fun i => (Bool.or_false _).trans (stable i)
  have found := @findext_spec n sect false CURFILE name s
  rw [same] at found
  exact found

theorem evalTerm_spec {included : Fin n → Bool} (stable : Stable sect included s) (i : Fin n)
    (ESTACK : List (BitVec 32)) (t : Term) :
    let s' := (evalTerm sect i ESTACK s t).2
    ∃ late, Grown sect s s' late ∧ s'.SYMERR = s.SYMERR ∧ s'.code = s.code ∧
      (∀ j ∈ late, Refers sect included s.synth (sect i).file [t] j) ∧
      (∀ j, Refers sect included s.synth (sect i).file [t] j → (sect j).const = true →
        s'.proc j = true) := by
  cases t with
  | ext name =>
      obtain ⟨late, grown, clean, code, asked, all⟩ := findext_stable stable (sect i).file name
      refine ⟨late, grown, clean, code, fun j inside => ⟨name, List.mem_singleton_self _, asked j inside⟩,
        ?_⟩
      rintro j ⟨_, inside, unsynth, found⟩
      obtain rfl := Term.ext.inj (List.mem_singleton.mp inside)
      exact all unsynth j found
  | _ =>
      refine ⟨[], .refl s, rfl, rfl, fun _ none => absurd none List.not_mem_nil, ?_⟩
      rintro j ⟨_, inside, -⟩
      cases List.mem_singleton.mp inside

theorem evalrel_spec {included : Fin n → Bool} (stable : Stable sect included s) (i : Fin n)
    (ESTACK : List (BitVec 32)) (ts : List Term) :
    let s' := (evalrel sect i ts ESTACK s).2
    ∃ late, Grown sect s s' late ∧ s'.SYMERR = s.SYMERR ∧ s'.code = s.code ∧
      (∀ j ∈ late, Refers sect included s.synth (sect i).file ts j) ∧
      ((evalrel sect i ts ESTACK s).1 ≠ none → ∀ j, Refers sect included s.synth (sect i).file ts j →
        (sect j).const = true → s'.proc j = true) := by
  induction ts generalizing s ESTACK with
  | nil =>
      have same : (evalrel sect i [] ESTACK s).2 = s := by
        rcases ESTACK with _ | ⟨v, _ | ⟨w, rest⟩⟩ <;> rfl
      rw [same]
      refine ⟨[], .refl s, rfl, rfl, fun _ none => absurd none List.not_mem_nil, ?_⟩
      rintro - j ⟨_, none, -⟩
      exact absurd none List.not_mem_nil
  | cons t ts ih =>
      obtain ⟨late, grown, clean, code, asked, all⟩ := evalTerm_spec stable i ESTACK t
      rw [evalrel]
      generalize evalTerm sect i ESTACK s t = out at grown clean code asked all ⊢
      obtain ⟨result, s₁⟩ := out
      have first : ∀ j ∈ late, Refers sect included s.synth (sect i).file (t :: ts) j := by
        intro j inside
        obtain ⟨name, here, rest⟩ := asked j inside
        exact ⟨name, List.mem_cons.mpr (.inl (List.mem_singleton.mp here)), rest⟩
      cases result with
      | none => exact ⟨late, grown, clean, code, first, fun none => absurd rfl none⟩
      | some ESTACK' =>
          obtain ⟨late', grown', clean', code', asked', all'⟩ := ih (grown.stable stable) ESTACK'
          rw [grown.synth] at asked' all'
          refine ⟨late ++ late', grown.trans grown', clean'.trans clean, code'.trans code, ?_, ?_⟩
          · intro j inside
            rcases List.mem_append.mp inside with early | after
            · exact first j early
            · obtain ⟨name, there, rest⟩ := asked' j after
              exact ⟨name, List.mem_cons_of_mem _ there, rest⟩
          · rintro whole j ⟨name, inside, rest⟩ isConst
            rcases List.mem_cons.mp inside with here | there
            · have placed := all j ⟨name, List.mem_singleton.mpr here, rest⟩ isConst
              exact (grown'.proc j).mpr (.inl placed)
            · exact all' whole j ⟨name, there, rest⟩ isConst

/-! A relocation's bytes. -/

/-- The bytes that a relocation changes are its section's. -/
def Reloc.Inside (x : Sect) (r : Reloc) : Prop :=
  x.flags &&& SEF_BSS = 0#8 → r.off.toNat + (if r.flags = 1#8 then 1 else 2) ≤ x.size.toNat

theorem patchb_inside (A : Byte) {m POFF : Nat} {code : List (List Byte)} (chunked : Chunked m code)
    (inside : POFF < m) : ∃ code', patchb A POFF code = .ok code' ∧ Chunked m code' := by
  induction code generalizing m POFF with
  | nil =>
      rw [Chunked] at chunked
      omega
  | cons c cs ih =>
      obtain ⟨some, length, rest⟩ := chunked
      rw [patchb]
      by_cases here : POFF < CHUNKSZ
      · have fits : POFF < c.length := by
          rw [length]
          exact Nat.lt_min.mpr ⟨inside, here⟩
        rw [if_pos here, if_pos fits]
        exact ⟨_, rfl, some, (List.length_set).trans length, rest⟩
      · obtain ⟨cs', patched, rest'⟩ := ih rest (show POFF - CHUNKSZ < m - CHUNKSZ by omega)
        rw [if_neg here, patched]
        exact ⟨_, rfl, some, length, rest'⟩

theorem patch_inside {x : Sect} {r : Reloc} (inside : r.Inside x) (v : BitVec 16)
    {code : List (List Byte)}
    (chunked : Chunked (if x.flags &&& SEF_BSS = 0#8 then x.size.toNat else 0) code) :
    ∃ code', patch r v code = .ok code' ∧
      Chunked (if x.flags &&& SEF_BSS = 0#8 then x.size.toNat else 0) code' := by
  by_cases bss : x.flags &&& SEF_BSS = 0#8
  · have fits := inside bss
    have small := x.size.isLt
    rw [if_pos bss] at chunked ⊢
    rw [patch]
    split at fits
    · next byte =>
        rw [if_pos byte]
        exact patchb_inside _ chunked (by omega)
    · next word =>
        have next : (r.off + 1#16).toNat = r.off.toNat + 1 := by
          rw [BitVec.toNat_add]
          change (_ + 1) % 65536 = _
          omega
        obtain ⟨first, patched, chunked'⟩ := patchb_inside (v.extractLsb' 8 8) chunked
          (show r.off.toNat < x.size.toNat by omega)
        rw [if_neg word, patched]
        exact patchb_inside _ chunked' (by omega)
  · rw [if_neg bss] at chunked ⊢
    cases code with
    | cons c cs => exact absurd chunked.1 (Nat.lt_irrefl 0)
    | nil =>
        rw [patch]
        split
        · exact ⟨[], rfl, rfl⟩
        · exact ⟨[], rfl, rfl⟩

/-- A relocation, where the bytes are the section's. -/
theorem relocOne_brought {included : Fin n → Bool} (stable : Stable sect included s)
    (whole : s.Whole sect) {i : Fin n} {r : Reloc} (inside : r.Inside (sect i)) :
    ∃ s' late, relocOne sect i s r = .ok s' ∧
      Brought sect (Refers sect included s.synth (sect i).file r.expr) s s' late := by
  obtain ⟨late, grown, clean, code, asked, all⟩ := evalrel_spec stable i [] r.expr
  have whole' := grown.whole whole
  rw [relocOne]
  generalize evalrel sect i r.expr [] s = out at grown clean code asked all whole' ⊢
  obtain ⟨result, s₁⟩ := out
  cases result with
  | none =>
      exact ⟨_, late, rfl, grown.beside rfl rfl rfl rfl id, fun _ => rfl, asked,
        fun clean => absurd clean.symm Bool.false_ne_true⟩
  | some v =>
      obtain ⟨code', patched, chunked⟩ := patch_inside inside v (whole' i)
      dsimp only at patched ⊢
      rw [patched]
      refine ⟨_, late, rfl, grown.beside rfl rfl rfl rfl fun _ j => ?_, fun error => clean.trans error,
        asked, fun _ => all (Option.some_ne_none v)⟩
      change Chunked _ (Function.update s₁.code i code' j)
      by_cases same : j = i
      · subst same
        rw [Function.update_self]
        exact chunked
      · rw [Function.update_of_ne same]
        exact whole' j

theorem relocSect_brought {included : Fin n → Bool} (stable : Stable sect included s)
    (whole : s.Whole sect) {i : Fin n} (rs : List Reloc) (inside : ∀ r ∈ rs, r.Inside (sect i)) :
    ∃ s' late, relocSect sect i rs s = .ok s' ∧
      Brought sect (fun j => ∃ r ∈ rs, Refers sect included s.synth (sect i).file r.expr j) s s'
        late := by
  induction rs generalizing s with
  | nil =>
      refine ⟨s, [], rfl, .idle s ?_⟩
      rintro j ⟨r, none, -⟩
      exact List.not_mem_nil none
  | cons r rs ih =>
      obtain ⟨s₁, late, ran, first⟩ := relocOne_brought stable whole (inside r List.mem_cons_self)
      obtain ⟨s', late', ran', rest⟩ := ih (first.grown.stable stable) (first.grown.whole whole)
        fun r' later => inside r' (List.mem_cons_of_mem _ later)
      rw [relocSect, ran]
      refine ⟨s', late ++ late', ran', (first.trans rest).congr fun j => ?_⟩
      rw [first.grown.synth]
      simp only [List.mem_cons, or_and_right, exists_or, exists_eq_left]

/-- Sections are placed once, and are marked as placed. -/
structure Kept (s : Links n) : Prop where
  nodup : s.placed.Nodup
  proc : ∀ j, s.proc j = true ↔ j ∈ s.placed

theorem Grown.kept {late : List (Fin n)} (grown : Grown sect s s' late) (kept : Kept s) : Kept s' := by
  refine ⟨?_, fun j => ?_⟩
  · rw [grown.placed, List.nodup_append]
    refine ⟨kept.nodup, grown.nodup, fun j early j' after same => ?_⟩
    have unplaced := (grown.fresh j' after).2.1
    rw [← same, (kept.proc j).mpr early] at unplaced
    cases unplaced
  · rw [grown.proc, kept.proc, grown.placed, List.mem_append]

theorem Kept.length (kept : Kept s) : s.placed.length ≤ n := by
  have few := kept.nodup.length_le_card
  rwa [Fintype.card_fin] at few

/-- From the `k`-th section on, the last ones those that come in meanwhile. -/
theorem relocate_brought {included : Fin n → Bool} (stable : Stable sect included s)
    (whole : s.Whole sect) (kept : Kept s) (inside : ∀ i, ∀ r ∈ (sect i).relocs, r.Inside (sect i))
    {fuel k : Nat} (within : k ≤ s.placed.length) (enough : n < k + fuel) :
    ∃ s' late, relocate sect fuel k s = .ok s' ∧
      Brought sect (fun j => ∃ i ∈ s'.placed.drop k, ∃ r ∈ (sect i).relocs,
        Refers sect included s.synth (sect i).file r.expr j) s s' late := by
  induction fuel generalizing s k with
  | zero =>
      have few := kept.length
      omega
  | succ fuel ih =>
      rw [relocate]
      cases at_ : s.placed[k]? with
      | none =>
          have done : s.placed.drop k = [] :=
            List.drop_eq_nil_of_le (List.getElem?_eq_none_iff.mp at_)
          refine ⟨s, [], rfl, .idle s ?_⟩
          rintro j ⟨i, none, -⟩
          rw [done] at none
          exact List.not_mem_nil none
      | some i =>
          obtain ⟨s₁, late, ran, first⟩ := relocSect_brought stable whole (sect i).relocs (inside i)
          obtain ⟨below, here⟩ := List.getElem?_eq_some_iff.mp at_
          have more : k + 1 ≤ s₁.placed.length := by
            rw [first.grown.placed, List.length_append]
            omega
          obtain ⟨s', late', ran', rest⟩ := ih (first.grown.stable stable)
            (first.grown.whole whole) (first.grown.kept kept) more (by omega)
          have next : s'.placed.drop k = i :: s'.placed.drop (k + 1) := by
            have at' : s'.placed[k]? = some i := by
              rw [rest.grown.placed, first.grown.placed, List.append_assoc,
                List.getElem?_append_left below, at_]
            obtain ⟨below', here'⟩ := List.getElem?_eq_some_iff.mp at'
            rw [List.drop_eq_getElem_cons below', here']
          dsimp only
          rw [ran]
          refine ⟨s', late ++ late', ran', (first.trans rest).congr fun j => ?_⟩
          rw [next, first.grown.synth]
          simp only [List.mem_cons, or_and_right, exists_or, exists_eq_left]

end Pugputer.Linker

import Pugputer.Linker.Imported

namespace Pugputer.Linker

/-! Synthetic symbols, for a run of sections of a name. -/

variable {n : Nat} {sect : Fin n → Sect} {s : Links n} {script : Script}

/-- The symbols of a name have room. -/
def Script.Room (script : Script) (m : Chars) : Prop :=
  (expand m script.BPAT).length < NAMEROOM ∧ (expand m script.LPAT).length < NAMEROOM

def pair (script : Script) (m : Chars) (len low : BitVec 16) : List Sym :=
  (if script.BPAT = [] then [] else [{ name := expand m script.BPAT, val := low }]) ++
    if script.LPAT = [] then [] else [{ name := expand m script.LPAT, val := len }]

theorem gspair_room {m : Chars} (room : script.Room m) (len low : BitVec 16) (synth : List Sym) :
    gspair script.BPAT script.LPAT m len low synth = .ok (pair script m len low ++ synth) := by
  obtain ⟨base, length⟩ := room
  rw [gspair, pair, synsym, if_pos length]
  by_cases noLength : script.LPAT = []
  · rw [if_pos noLength, if_pos noLength, List.append_nil]
    change (if script.BPAT = [] then _ else synsym script.BPAT m low synth) = _
    rw [synsym, if_pos base]
    split <;> rfl
  · rw [if_neg noLength, if_neg noLength]
    change (if script.BPAT = [] then _ else synsym script.BPAT m low _) = _
    rw [synsym, if_pos base]
    split <;> rfl

variable (roomy : ∀ i, script.Room (sect i).name)

section

variable (load : Fin n → BitVec 16)

include roomy

theorem gsNew_room {LAST : Chars} (known : LAST = [] ∨ ∃ i, LAST = (sect i).name)
    (len low : BitVec 16) (synth : List Sym) :
    gsNew script.BPAT script.LPAT LAST len low synth =
      .ok ((if LAST = [] then [] else pair script LAST len low) ++ synth) := by
  rw [gsNew]
  by_cases empty : LAST = []
  · rw [if_pos empty, if_pos empty]
    rfl
  · obtain ⟨i, rfl⟩ := known.resolve_left empty
    rw [if_neg empty, if_neg empty, gspair_room (roomy i)]

/-- Sections before others. -/
theorem gsLoop_before (before rest : List (Fin n)) {LAST : Chars}
    (known : LAST = [] ∨ ∃ i, LAST = (sect i).name) (len low : BitVec 16) (synth : List Sym) :
    ∃ len' low' syms, gsLoop sect script.BPAT script.LPAT load (before ++ rest) LAST len low synth =
      gsLoop sect script.BPAT script.LPAT load rest
        ((before.getLast?.map fun i => (sect i).name).getD LAST) len' low' (syms ++ synth) := by
  induction before generalizing LAST len low synth with
  | nil => exact ⟨len, low, [], rfl⟩
  | cons i before ih =>
      have last : ((i :: before).getLast?.map fun i => (sect i).name).getD LAST =
          (before.getLast?.map fun i => (sect i).name).getD (sect i).name := by
        cases before with
        | nil => rfl
        | cons j before => rfl
      rw [last, List.cons_append, gsLoop]
      split
      · next same =>
          obtain ⟨len', low', syms, ran⟩ := ih known _ _ synth
          rw [same.2]
          exact ⟨len', low', syms, ran⟩
      · rw [gsNew_room roomy known]
        obtain ⟨len', low', syms, ran⟩ := ih (.inr ⟨i, rfl⟩) (sect i).size (load i)
          ((if LAST = [] then [] else pair script LAST len low) ++ synth)
        refine ⟨len', low', syms ++ (if LAST = [] then [] else pair script LAST len low), ?_⟩
        rw [List.append_assoc]
        exact ran

/-- It ends, and keeps the symbols. -/
theorem gsLoop_ends (L : List (Fin n)) {LAST : Chars}
    (known : LAST = [] ∨ ∃ i, LAST = (sect i).name) (len low : BitVec 16) (synth : List Sym) :
    ∃ syms, gsLoop sect script.BPAT script.LPAT load L LAST len low synth = .ok (syms ++ synth) := by
  obtain ⟨len', low', syms, ran⟩ := gsLoop_before roomy load L [] known len low synth
  have known' : (L.getLast?.map fun i => (sect i).name).getD LAST = [] ∨
      ∃ i, (L.getLast?.map fun i => (sect i).name).getD LAST = (sect i).name := by
    cases L.getLast? with
    | none => exact known
    | some i => exact .inr ⟨i, rfl⟩
  rw [List.append_nil] at ran
  rw [ran, gsLoop, gsNew_room roomy known']
  exact ⟨_, congrArg Except.ok (List.append_assoc _ _ _).symm⟩

end

def total (sect : Fin n → Sect) (block : List (Fin n)) (len : BitVec 16) : BitVec 16 :=
  block.foldl (fun len i => len + (sect i).size) len

def lowest (load : Fin n → BitVec 16) (block : List (Fin n)) (low : BitVec 16) : BitVec 16 :=
  block.foldl (fun low i => if load i < low then load i else low) low

/-- More sections of the name. -/
theorem gsLoop_same (load : Fin n → BitVec 16) {m : Chars} (some : m ≠ []) {block : List (Fin n)}
    (same : ∀ i ∈ block, (sect i).name = m) (after : List (Fin n)) (len low : BitVec 16)
    (synth : List Sym) :
    gsLoop sect script.BPAT script.LPAT load (block ++ after) m len low synth =
      gsLoop sect script.BPAT script.LPAT load after m (total sect block len) (lowest load block low)
        synth := by
  induction block generalizing len low with
  | nil => rfl
  | cons i block ih =>
      rw [List.cons_append, gsLoop, if_pos ⟨some, same i List.mem_cons_self⟩]
      exact ih (fun j later => same j (List.mem_cons_of_mem _ later)) _ _

/-- The symbols of a run are made. -/
theorem gsLoop_run (roomy : ∀ i, script.Room (sect i).name) (load : Fin n → BitVec 16)
    {before block after : List (Fin n)} {i : Fin n} {m : Chars}
    (same : ∀ j ∈ i :: block, (sect j).name = m)
    (differs : ∀ j ∈ before ++ after, (sect j).name ≠ m) (synth : List Sym) :
    ∃ front back, gsLoop sect script.BPAT script.LPAT load (before ++ (i :: block ++ after)) [] 0#16
      0#16 synth = .ok (front ++ (pair script m (total sect block (sect i).size)
        (lowest load block (load i)) ++ back)) := by
  have named : (sect i).name = m := same i List.mem_cons_self
  have some_ : m ≠ [] := named ▸ (sect i).named
  obtain ⟨len, low, syms, ran⟩ := gsLoop_before roomy load before (i :: block ++ after) (.inl rfl)
    0#16 0#16 synth
  have known : (before.getLast?.map fun i => (sect i).name).getD [] = [] ∨
      ∃ i, (before.getLast?.map fun i => (sect i).name).getD [] = (sect i).name := by
    cases before.getLast? with
    | none => exact .inl rfl
    | some i => exact .inr ⟨i, rfl⟩
  have new : ¬((before.getLast?.map fun i => (sect i).name).getD [] ≠ [] ∧
      (sect i).name = (before.getLast?.map fun i => (sect i).name).getD []) := by
    cases last : before.getLast? with
    | none => exact fun both => both.1 rfl
    | some j =>
        rintro ⟨-, equal⟩
        have inside : j ∈ before := List.mem_of_getLast? last
        exact differs j (List.mem_append_left _ inside) (equal.symm.trans named)
  rw [ran, List.cons_append, gsLoop, if_neg new, gsNew_room roomy known]
  change ∃ front back, gsLoop _ _ _ _ (block ++ after) _ _ _ _ = _
  rw [named, gsLoop_same load some_ fun j later => same j (List.mem_cons_of_mem _ later)]
  generalize (_ ++ (syms ++ synth) : List Sym) = back
  cases after with
  | nil =>
      rw [gsLoop, gsNew_room roomy (.inr ⟨i, named.symm⟩), if_neg some_]
      exact ⟨[], back, rfl⟩
  | cons j after =>
      have other : ¬(m ≠ [] ∧ (sect j).name = m) := fun both =>
        differs j (List.mem_append_right _ List.mem_cons_self) both.2
      rw [gsLoop, if_neg other, gsNew_room roomy (.inr ⟨i, named.symm⟩), if_neg some_]
      obtain ⟨front, ends⟩ := gsLoop_ends roomy load after (.inr ⟨j, rfl⟩) (sect j).size (load j)
        (pair script m (total sect block (sect i).size) (lowest load block (load i)) ++ back)
      exact ⟨front, back, ends⟩

theorem total_eq (block : List (Fin n)) (len : BitVec 16) :
    total sect block len = len + BitVec.ofNat 16 (block.map fun i => (sect i).size.toNat).sum := by
  induction block generalizing len with
  | nil => exact (BitVec.add_zero len).symm
  | cons i block ih =>
      have more := ih (len + (sect i).size)
      rw [List.map_cons, List.sum_cons, BitVec.ofNat_add, BitVec.ofNat_toNat, BitVec.setWidth_eq,
        ← BitVec.add_assoc]
      exact more

theorem lowest_spec (load : Fin n → BitVec 16) (block : List (Fin n)) (low : BitVec 16) :
    (lowest load block low = low ∨ ∃ i ∈ block, load i = lowest load block low) ∧
      lowest load block low ≤ low ∧ ∀ i ∈ block, lowest load block low ≤ load i := by
  induction block generalizing low with
  | nil => exact ⟨.inl rfl, BitVec.le_refl low, fun i none => absurd none List.not_mem_nil⟩
  | cons i block ih =>
      obtain ⟨one, below, all⟩ := ih (if load i < low then load i else low)
      change (lowest load block (if load i < low then load i else low) = low ∨ _) ∧ _
      have first : (if load i < low then load i else low) ≤ low ∧
          (if load i < low then load i else low) ≤ load i := by
        split
        · next less => exact ⟨BitVec.le_of_lt less, BitVec.le_refl _⟩
        · next more => exact ⟨BitVec.le_refl _, BitVec.not_lt.mp more⟩
      refine ⟨?_, BitVec.le_trans below first.1, fun j inside => ?_⟩
      · rcases one with same | ⟨j, inside, same⟩
        · split at same
          · next less =>
              refine .inr ⟨i, List.mem_cons_self, ?_⟩
              change load i = lowest load block (if load i < low then load i else low)
              rw [if_pos less]
              exact same.symm
          · next more =>
              rw [if_neg more]
              exact .inl same
        · exact .inr ⟨j, List.mem_cons_of_mem i inside, same⟩
      · rcases List.mem_cons.mp inside with rfl | later
        · exact BitVec.le_trans below first.2
        · exact all j later

/-- The lowest address and the length of the sections, modulo 65536. -/
structure Symbols (sect : Fin n → Sect) (script : Script) (m : Chars) (load : Fin n → BitVec 16)
    (block : List (Fin n)) (synth : List Sym) : Prop where
  base : script.BPAT ≠ [] → ∃ low, { name := expand m script.BPAT, val := low : Sym } ∈ synth ∧
    (∃ i ∈ block, load i = low) ∧ ∀ i ∈ block, low ≤ load i
  length : script.LPAT ≠ [] →
    { name := expand m script.LPAT
      val := BitVec.ofNat 16 (block.map fun i => (sect i).size.toNat).sum : Sym } ∈ synth

theorem gensyms_spec (roomy : ∀ i, script.Room (sect i).name) (s : Links n) :
    ∃ s', gensyms sect script s = .ok s' ∧ s' = { s with synth := s'.synth } ∧
      ∀ before block after m, s.placed = before ++ (block ++ after) → block ≠ [] →
        (∀ j ∈ block, (sect j).name = m) → (∀ j ∈ before ++ after, (sect j).name ≠ m) →
        Symbols sect script m s.load block s'.synth := by
  rw [gensyms]
  by_cases none : script.BPAT = [] ∧ script.LPAT = []
  · rw [if_pos none]
    exact ⟨s, rfl, rfl, fun _ _ _ _ _ _ _ _ =>
      ⟨fun some => absurd none.1 some, fun some => absurd none.2 some⟩⟩
  · obtain ⟨syms, ran⟩ := gsLoop_ends roomy s.load s.placed (.inl rfl) 0#16 0#16 s.synth
    rw [if_neg none, ran]
    refine ⟨_, rfl, rfl, fun before block after m placed some same differs => ?_⟩
    obtain ⟨i, block, rfl⟩ := List.exists_cons_of_ne_nil some
    obtain ⟨front, back, ran'⟩ := gsLoop_run roomy s.load same differs s.synth
    rw [← placed, ran] at ran'
    dsimp only
    rw [Except.ok.inj ran']
    obtain ⟨one, below, all⟩ := lowest_spec s.load block (s.load i)
    have inside : ∀ y ∈ pair script m (total sect block (sect i).size) (lowest s.load block (s.load i)),
        y ∈ front ++ (pair script m (total sect block (sect i).size)
          (lowest s.load block (s.load i)) ++ back) :=
      fun y here => List.mem_append_right _ (List.mem_append_left _ here)
    refine ⟨fun some => ⟨lowest s.load block (s.load i), inside _ ?_, ?_, ?_⟩, fun some => ?_⟩
    · rw [pair, if_neg some]
      exact List.mem_append_left _ (List.mem_singleton_self _)
    · rcases one with first | ⟨j, later, low⟩
      · exact ⟨i, List.mem_cons_self, first.symm⟩
      · exact ⟨j, List.mem_cons_of_mem i later, low⟩
    · intro j here
      rcases List.mem_cons.mp here with rfl | later
      · exact below
      · exact all j later
    · have length := @total_eq n sect block (sect i).size
      have sum : (sect i).size + BitVec.ofNat 16 (block.map fun i => (sect i).size.toNat).sum =
          BitVec.ofNat 16 ((i :: block).map fun i => (sect i).size.toNat).sum := by
        rw [List.map_cons, List.sum_cons, BitVec.ofNat_add, BitVec.ofNat_toNat, BitVec.setWidth_eq]
      rw [← sum, ← length]
      refine inside _ ?_
      rw [pair, if_neg some]
      exact List.mem_append_right _ (List.mem_singleton_self _)

end Pugputer.Linker

import Mathlib.Data.Fintype.Card
import Pugputer.Lib.Region
import Pugputer.Tilekit.Records

namespace Pugputer.Tilekit

/-! FLOOD: the pixels that are joined to one. -/

/-- TSHIFT. -/
def Kind.tshift (k : Kind) : Nat := if k.tsize = 16 then 4 else 3

/-- PIXIDX. -/
def Kind.pixidx (k : Kind) (p : Nat × Nat) : Byte := BitVec.ofNat 8 ((p.2 <<< k.tshift) + p.1)

/-- What FLOOD changes; the stack's top is first. -/
structure Flooding where
  TILEBUF : Byte → Byte
  FSTACK : List Byte

/-- FTRY; `none` when the stack is full. -/
def ftry (FOLD PENC : Byte) (s : Flooding) (B : Byte) : Option Flooding :=
  if s.TILEBUF B ≠ FOLD then some s
  else if s.FSTACK.length < 256 then
    some { TILEBUF := Function.update s.TILEBUF B PENC, FSTACK := B :: s.FSTACK }
  else none

/-- From FLOOD1 on: the pixels to try, left, right, above and below. -/
def around (TSIZE : Nat) (FIDX : Byte) : List Byte :=
  let TSMASK := BitVec.ofNat 8 (TSIZE - 1)
  let size := BitVec.ofNat 8 TSIZE
  (if FIDX &&& TSMASK = 0#8 then [] else [FIDX - 1#8]) ++
  (if FIDX &&& TSMASK = TSMASK then [] else [FIDX + 1#8]) ++
  (if FIDX.toNat < TSIZE then [] else [FIDX - size]) ++
  -- the bottom of a 16x16 tile is where a byte ends
  (if 256 ≤ FIDX.toNat + TSIZE ∨ (TSIZE = 8 ∧ 64 ≤ (FIDX + size).toNat) then [] else [FIDX + size])

def floodLoop (TSIZE : Nat) (FOLD PENC : Byte) : (fuel : Nat) → Flooding → Option Flooding
  | 0, _ => none
  | fuel + 1, s =>
      match s.FSTACK with
      | [] => some s
      | FIDX :: rest =>
          ((around TSIZE FIDX).foldlM (ftry FOLD PENC) { s with FSTACK := rest }).bind
            (floodLoop TSIZE FOLD PENC fuel)

def flood (k : Kind) (fuel : Nat) (p : Nat × Nat) (PENC : Byte) (TILEBUF : Byte → Byte) :
    Option (Byte → Byte) :=
  let X := k.pixidx p
  let FOLD := TILEBUF X
  if FOLD = PENC then some TILEBUF
  else
    (floodLoop k.tsize FOLD PENC fuel
      { TILEBUF := Function.update TILEBUF X PENC, FSTACK := [X] }).map (·.TILEBUF)

/-! What there is to fill, and what has been. -/

def left (FOLD : Byte) (TILEBUF : Byte → Byte) : Nat :=
  (Finset.univ.filter fun i : Fin (2 ^ 8) => TILEBUF (BitVec.ofFin i) = FOLD).card

theorem left_update {FOLD PENC i : Byte} {T : Byte → Byte} (same : T i = FOLD) (other : PENC ≠ FOLD) :
    left FOLD (Function.update T i PENC) + 1 = left FOLD T := by
  have erased : (Finset.univ.filter fun j : Fin (2 ^ 8) =>
        Function.update T i PENC (BitVec.ofFin j) = FOLD) =
      (Finset.univ.filter fun j : Fin (2 ^ 8) => T (BitVec.ofFin j) = FOLD).erase i.toFin := by
    ext j
    rw [Finset.mem_erase, Finset.mem_filter, Finset.mem_filter]
    by_cases here : j = i.toFin
    · subst here
      simp only [BitVec.ofFin_toFin, Function.update_self, other, and_false, ne_eq, not_true_eq_false,
        false_and]
    · have apart : BitVec.ofFin j ≠ i := fun equal => here (by rw [← equal])
      simp only [Function.update_of_ne apart, ne_eq, here, not_false_eq_true, true_and]
  rw [left, left, erased]
  refine Finset.card_erase_add_one (Finset.mem_filter.mpr ⟨Finset.mem_univ _, ?_⟩)
  rw [BitVec.ofFin_toFin]
  exact same

/-- What trying pixels leaves. -/
structure Tried (FOLD PENC : Byte) (L : List Byte) (s s' : Flooding) : Prop where
  tile : ∀ i, s'.TILEBUF i = if i ∈ L ∧ s.TILEBUF i = FOLD then PENC else s.TILEBUF i
  stack : ∀ i, i ∈ s'.FSTACK ↔ i ∈ s.FSTACK ∨ i ∈ L ∧ s.TILEBUF i = FOLD
  room : s'.FSTACK.length + left FOLD s'.TILEBUF = s.FSTACK.length + left FOLD s.TILEBUF
  less : left FOLD s'.TILEBUF ≤ left FOLD s.TILEBUF

theorem tried {FOLD PENC : Byte} (other : PENC ≠ FOLD) (L : List Byte) (s : Flooding)
    (room : s.FSTACK.length + left FOLD s.TILEBUF ≤ 256) :
    ∃ s', L.foldlM (ftry FOLD PENC) s = some s' ∧ Tried FOLD PENC L s s' := by
  induction L generalizing s with
  | nil =>
      refine ⟨s, rfl, fun i => ?_, fun i => ?_, rfl, Nat.le_refl _⟩
      · simp only [List.not_mem_nil, false_and, if_false]
      · simp only [List.not_mem_nil, false_and, or_false]
  | cons B L ih =>
      rw [List.foldlM_cons]
      by_cases same : s.TILEBUF B = FOLD
      · have fewer := left_update same other
        have pushed : ftry FOLD PENC s B =
            some { TILEBUF := Function.update s.TILEBUF B PENC, FSTACK := B :: s.FSTACK } := by
          rw [ftry, if_neg (not_not_intro same), if_pos (by omega)]
        obtain ⟨s', done, rest⟩ := ih
          { TILEBUF := Function.update s.TILEBUF B PENC, FSTACK := B :: s.FSTACK }
          (by rw [List.length_cons]; dsimp only; omega)
        have total := rest.room
        have less := rest.less
        rw [List.length_cons] at total
        dsimp only at total
        refine ⟨s', by rw [pushed]; exact done, fun i => ?_, fun i => ?_, by omega,
          by dsimp only at less; omega⟩
        · rw [rest.tile]
          by_cases here : i = B
          · subst here
            simp only [Function.update_self, other, and_false, if_false, List.mem_cons, true_or,
              same, and_self, if_true]
          · simp only [Function.update_of_ne here, List.mem_cons, here, false_or]
        · rw [rest.stack]
          by_cases here : i = B
          · subst here
            simp only [List.mem_cons, true_or, same, and_self, or_true]
          · simp only [Function.update_of_ne here, List.mem_cons, here, false_or]
      · have skipped : ftry FOLD PENC s B = some s := if_pos same
        obtain ⟨s', done, rest⟩ := ih s room
        refine ⟨s', by rw [skipped]; exact done, fun i => ?_, fun i => ?_, rest.room, rest.less⟩
        · rw [rest.tile]
          by_cases here : i = B
          · subst here
            simp only [same, and_false]
          · simp only [List.mem_cons, here, false_or]
        · rw [rest.stack]
          by_cases here : i = B
          · subst here
            simp only [same, and_false]
          · simp only [List.mem_cons, here, false_or]

/-- The pixels filled are joined to the start, and lead on only from the stack. -/
structure Floods (TSIZE : Nat) (FOLD PENC : Byte) (T : Byte → Byte) (X : Byte) (s : Flooding) :
    Prop where
  shape : ∀ i, s.TILEBUF i = T i ∨ T i = FOLD ∧ s.TILEBUF i = PENC
  start : s.TILEBUF X = PENC
  joined : ∀ i, T i = FOLD → s.TILEBUF i = PENC →
    Joined (fun i j => j ∈ around TSIZE i) (fun i => T i = FOLD) X i
  stacked : ∀ i ∈ s.FSTACK, T i = FOLD ∧ s.TILEBUF i = PENC
  closed : ∀ i, T i = FOLD → s.TILEBUF i = PENC → i ∉ s.FSTACK →
    ∀ j ∈ around TSIZE i, s.TILEBUF j ≠ FOLD
  room : s.FSTACK.length + left FOLD s.TILEBUF ≤ 256

variable {TSIZE : Nat} {FOLD PENC X : Byte} {T : Byte → Byte} {s : Flooding}

theorem Floods.step (other : PENC ≠ FOLD) {FIDX : Byte} {rest : List Byte}
    (floods : Floods TSIZE FOLD PENC T X s) (top : s.FSTACK = FIDX :: rest) :
    ∃ s', (around TSIZE FIDX).foldlM (ftry FOLD PENC) { s with FSTACK := rest } = some s' ∧
      Floods TSIZE FOLD PENC T X s' ∧
      s'.FSTACK.length + 2 * left FOLD s'.TILEBUF < s.FSTACK.length + 2 * left FOLD s.TILEBUF := by
  have room := floods.room
  rw [top, List.length_cons] at room
  have here := floods.stacked FIDX (by rw [top]; exact List.mem_cons_self)
  have joined := floods.joined FIDX here.1 here.2
  obtain ⟨s', done, tried⟩ := tried other (around TSIZE FIDX) { s with FSTACK := rest }
    (by dsimp only; omega)
  have tile := tried.tile
  have stack := tried.stack
  have total := tried.room
  have less := tried.less
  dsimp only at tile stack total less
  have kept : ∀ i, s.TILEBUF i = PENC → s'.TILEBUF i = PENC := by
    intro i filled
    rw [tile, if_neg (by rw [filled]; exact fun both => other both.2), filled]
  refine ⟨s', done, ⟨fun i => ?_, kept X floods.start, fun i old filled => ?_, fun i member => ?_,
    fun i old filled free j near => ?_, by omega⟩, by rw [top, List.length_cons]; omega⟩
  · rw [tile]
    split
    · next new =>
        have was := floods.shape i
        rw [new.2] at was
        refine .inr ⟨?_, rfl⟩
        rcases was with same | same
        · exact same.symm
        · exact absurd same.2.symm other
    · exact floods.shape i
  · rw [tile] at filled
    split at filled
    · next new => exact joined.step new.1 old
    · exact floods.joined i old filled
  · rcases (stack i).mp member with older | new
    · obtain ⟨old, filled⟩ := floods.stacked i (by rw [top]; exact List.mem_cons_of_mem _ older)
      exact ⟨old, kept i filled⟩
    · have was := floods.shape i
      rw [new.2] at was
      refine ⟨?_, by rw [tile, if_pos new]⟩
      rcases was with same | same
      · exact same.symm
      · exact absurd same.2.symm other
  · rw [stack, not_or] at free
    have already : s.TILEBUF i = PENC := by
      rw [tile] at filled
      split at filled
      · next new => exact absurd new free.2
      · exact filled
    rw [tile]
    split
    · exact other
    · next notNew =>
        intro unfilled
        by_cases same : i = FIDX
        · subst same
          exact notNew ⟨near, unfilled⟩
        · refine floods.closed i old already ?_ j near unfilled
          rw [top, List.mem_cons, not_or]
          exact ⟨same, free.1⟩

theorem Floods.loop (other : PENC ≠ FOLD) {fuel : Nat} (floods : Floods TSIZE FOLD PENC T X s)
    (enough : s.FSTACK.length + 2 * left FOLD s.TILEBUF < fuel) :
    ∃ s', floodLoop TSIZE FOLD PENC fuel s = some s' ∧ Floods TSIZE FOLD PENC T X s' ∧
      s'.FSTACK = [] := by
  induction fuel generalizing s with
  | zero => exact absurd enough (Nat.not_lt_zero _)
  | succ fuel ih =>
      rw [floodLoop]
      cases top : s.FSTACK with
      | nil => exact ⟨s, rfl, floods, top⟩
      | cons FIDX rest =>
          obtain ⟨s', done, floods', less⟩ := floods.step other top
          dsimp only
          rw [done, Option.bind_some]
          exact ih floods' (by omega)

/-! The pixels of a tile, by their places. -/

/-- `around`, in terms of places. -/
def near (n x y : Nat) : List Byte :=
  (if x = 0 then [] else [BitVec.ofNat 8 (y * n + (x - 1))]) ++
  (if x + 1 = n then [] else [BitVec.ofNat 8 (y * n + (x + 1))]) ++
  (if y = 0 then [] else [BitVec.ofNat 8 ((y - 1) * n + x)]) ++
  (if y + 1 = n then [] else [BitVec.ofNat 8 ((y + 1) * n + x)])

theorem around_eight : ∀ x y : Fin 8, around 8 (BitVec.ofNat 8 (y * 8 + x)) = near 8 x y := by
  decide

theorem around_sixteen : ∀ x y : Fin 16, around 16 (BitVec.ofNat 8 (y * 16 + x)) = near 16 x y := by
  decide

theorem mem_unless {α : Type} {c : Prop} [Decidable c] {a b : α} :
    a ∈ (if c then [] else [b]) ↔ ¬c ∧ a = b := by
  split
  · next holds => simp only [List.not_mem_nil, holds, not_true_eq_false, false_and]
  · next fails => simp only [List.mem_singleton, fails, not_false_eq_true, true_and]

theorem mem_near {n x y : Nat} (across : x < n) (down : y < n) (j : Byte) :
    j ∈ near n x y ↔ ∃ q : Nat × Nat, q.1 < n ∧ q.2 < n ∧ Beside (x, y) q ∧
      j = BitVec.ofNat 8 (q.2 * n + q.1) := by
  rw [near, List.mem_append, List.mem_append, List.mem_append, mem_unless, mem_unless, mem_unless,
    mem_unless]
  constructor
  · rintro (((⟨edge, rfl⟩ | ⟨edge, rfl⟩) | ⟨edge, rfl⟩) | ⟨edge, rfl⟩)
    · exact ⟨(x - 1, y), by dsimp only; omega, down, .inl ⟨rfl, .inr (by dsimp only; omega)⟩, rfl⟩
    · exact ⟨(x + 1, y), by dsimp only; omega, down, .inl ⟨rfl, .inl rfl⟩, rfl⟩
    · exact ⟨(x, y - 1), across, by dsimp only; omega, .inr ⟨rfl, .inr (by dsimp only; omega)⟩, rfl⟩
    · exact ⟨(x, y + 1), across, by dsimp only; omega, .inr ⟨rfl, .inl rfl⟩, rfl⟩
  · rintro ⟨⟨x', y'⟩, across', down', beside, rfl⟩
    dsimp only at across' down'
    rcases beside with ⟨same, step | step⟩ | ⟨same, step | step⟩
    · dsimp only at same step
      subst same step
      exact .inl (.inl (.inr ⟨by omega, rfl⟩))
    · dsimp only at same step
      subst same step
      exact .inl (.inl (.inl ⟨by omega, rfl⟩))
    · dsimp only at same step
      subst same step
      exact .inr ⟨by omega, rfl⟩
    · dsimp only at same step
      subst same step
      exact .inl (.inr ⟨by omega, rfl⟩)

theorem pixidx_eq (k : Kind) (p : Nat × Nat) :
    k.pixidx p = BitVec.ofNat 8 (p.2 * k.tsize + p.1) := by
  have size : 2 ^ k.tshift = k.tsize := by
    rw [Kind.tshift]
    rcases k.sizes with same | same <;> rw [same] <;> rfl
  rw [Kind.pixidx, Nat.shiftLeft_eq, size]

theorem mem_around (k : Kind) {p : Nat × Nat} (across : p.1 < k.tsize) (down : p.2 < k.tsize)
    (j : Byte) : j ∈ around k.tsize (k.pixidx p) ↔
      ∃ q : Nat × Nat, q.1 < k.tsize ∧ q.2 < k.tsize ∧ Beside p q ∧ j = k.pixidx q := by
  have same : around k.tsize (k.pixidx p) = near k.tsize p.1 p.2 := by
    rw [pixidx_eq]
    rcases k.sizes with size | size
    · rw [size] at across down ⊢
      exact around_eight ⟨p.1, across⟩ ⟨p.2, down⟩
    · rw [size] at across down ⊢
      exact around_sixteen ⟨p.1, across⟩ ⟨p.2, down⟩
  rw [same, mem_near across down]
  simp only [pixidx_eq]

/-- The pixels of a tile that have a value. -/
def Kind.Alike (k : Kind) (T : Byte → Byte) (FOLD : Byte) (q : Nat × Nat) : Prop :=
  q.1 < k.tsize ∧ q.2 < k.tsize ∧ T (k.pixidx q) = FOLD

theorem joined_pixels (k : Kind) {T : Byte → Byte} {FOLD : Byte} {p : Nat × Nat}
    (start : k.Alike T FOLD p) (i : Byte) :
    Joined (fun i j => j ∈ around k.tsize i) (fun i => T i = FOLD) (k.pixidx p) i ↔
      ∃ q, Joined Beside (k.Alike T FOLD) p q ∧ i = k.pixidx q := by
  constructor
  · intro joined
    refine joined.closed (F := fun i => ∃ q, Joined Beside (k.Alike T FOLD) p q ∧ i = k.pixidx q)
      ⟨p, .start, rfl⟩ ?_
    rintro i j ⟨q, before, rfl⟩ step old
    obtain ⟨across, down, -⟩ := before.within start
    obtain ⟨q', across', down', beside, rfl⟩ := (mem_around k across down j).mp step
    exact ⟨q', before.step beside ⟨across', down', old⟩, rfl⟩
  · rintro ⟨q, joined, rfl⟩
    refine joined.map k.pixidx start fun b c inside beside within => ⟨?_, within.2.2⟩
    exact (mem_around k inside.1 inside.2.1 _).mpr ⟨c, within.1, within.2.1, beside, rfl⟩

/-- Every pixel joined to `p` through pixels of its value has the pen's, and no other byte is
changed. -/
def Kind.Flooded (k : Kind) (p : Nat × Nat) (PENC : Byte) (T T' : Byte → Byte) : Prop :=
  (∀ q, Joined Beside (k.Alike T (T (k.pixidx p))) p q → T' (k.pixidx q) = PENC) ∧
  ∀ i, (∀ q, Joined Beside (k.Alike T (T (k.pixidx p))) p q → i ≠ k.pixidx q) → T' i = T i

/-- The stack is never too small. -/
theorem flood_spec (k : Kind) {x y : Nat} (across : x < k.tsize) (down : y < k.tsize) (PENC : Byte)
    (T : Byte → Byte) {fuel : Nat} (enough : 512 ≤ fuel) :
    ∃ T', flood k fuel (x, y) PENC T = some T' ∧ k.Flooded (x, y) PENC T T' := by
  simp only [Kind.Flooded]
  have start : k.Alike T (T (k.pixidx (x, y))) (x, y) := ⟨across, down, rfl⟩
  have pixels := joined_pixels k start
  rw [flood]
  generalize k.pixidx (x, y) = X at start pixels ⊢
  generalize FOLDeq : T X = FOLD at start pixels ⊢
  by_cases same : FOLD = PENC
  · rw [if_pos same]
    exact ⟨T, rfl, fun q joined => (joined.within start).2.2.trans same, fun _ _ => rfl⟩
  · rw [if_neg same]
    have other : PENC ≠ FOLD := fun equal => same equal.symm
    have fewer := left_update FOLDeq other
    have most : left FOLD T ≤ 256 := by
      rw [left]
      exact (Finset.card_le_univ _).trans_eq (Fintype.card_fin _)
    have floods : Floods k.tsize FOLD PENC T X
        { TILEBUF := Function.update T X PENC, FSTACK := [X] } := by
      refine ⟨fun i => ?_, Function.update_self X PENC T, fun i old filled => ?_, fun i member => ?_,
        fun i old filled free => ?_, ?_⟩
      · by_cases here : i = X
        · subst here
          exact .inr ⟨FOLDeq, Function.update_self i PENC T⟩
        · exact .inl (Function.update_of_ne here _ _)
      · by_cases here : i = X
        · subst here
          exact .start
        · dsimp only at filled
          rw [Function.update_of_ne here, old] at filled
          exact absurd filled same
      · rw [List.mem_singleton.mp member]
        exact ⟨FOLDeq, Function.update_self X PENC T⟩
      · by_cases here : i = X
        · exact absurd (List.mem_singleton.mpr here) free
        · dsimp only at filled
          rw [Function.update_of_ne here, old] at filled
          exact absurd filled same
      · rw [List.length_singleton]
        dsimp only
        omega
    obtain ⟨s', done, ends, empty⟩ := floods.loop other (Nat.lt_of_lt_of_le (by
      rw [List.length_singleton]
      dsimp only
      omega) enough)
    rw [done]
    refine ⟨s'.TILEBUF, rfl, fun q joined => ?_, fun i apart => ?_⟩
    · have inside := (pixels (k.pixidx q)).mpr ⟨q, joined, rfl⟩
      have filled : T (k.pixidx q) = FOLD ∧ s'.TILEBUF (k.pixidx q) = PENC := by
        refine inside.closed (F := fun i => T i = FOLD ∧ s'.TILEBUF i = PENC) ⟨FOLDeq, ends.start⟩ ?_
        rintro i j ⟨old, filled⟩ step within
        have notOld := ends.closed i old filled (by rw [empty]; exact List.not_mem_nil) j step
        refine ⟨within, ?_⟩
        rcases ends.shape j with kept | new
        · exact absurd (kept.trans within) notOld
        · exact new.2
      exact filled.2
    · rcases ends.shape i with kept | ⟨old, filled⟩
      · exact kept
      · obtain ⟨q, joined, rfl⟩ := (pixels i).mp (ends.joined i old filled)
        exact absurd rfl (apart q joined)

end Pugputer.Tilekit

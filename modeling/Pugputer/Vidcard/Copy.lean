import Mathlib.Tactic.Ring
import Pugputer.Lib.Move
import Pugputer.Vidcard.Pixel

namespace Pugputer.Vidcard

/-- An address where the video memory, the settings or the PSRAM are. -/
def Mapped (a : BitVec 24) : Prop :=
  a.toNat < vcVramSize ∨ (vcCfgBase ≤ a.toNat ∧ a.toNat < vcCfgBase + vcCfgSize) ∨
    vcPsramBase ≤ a.toNat

namespace Card

variable {c : Card}

/-- A mapped address, that of a PSRAM only if the card has one. -/
def Writable (c : Card) (a : BitVec 24) : Prop :=
  Mapped a ∧ (vcPsramBase ≤ a.toNat → c.psram.isSome)

theorem Redraws.writable {d : Card} (redraws : c.Redraws d) {a : BitVec 24} :
    d.Writable a ↔ c.Writable a := by
  obtain ⟨_, _, psram, present, rfl⟩ := redraws
  unfold Writable
  dsimp only
  rw [present]

theorem writable_mapped (present : c.psram.isSome) {a : BitVec 24} : c.Writable a ↔ Mapped a :=
  and_iff_left fun _ => present

theorem peek_poke_self {a : BitVec 24} (v : Byte) (writable : c.Writable a) :
    (c.poke a.toNat v).peek a.toNat = v := by
  have small : a.toNat % 0x1000000 = a.toNat := Nat.mod_eq_of_lt a.isLt
  obtain ⟨mapped, present⟩ := writable
  rw [poke, small]
  by_cases low : a.toNat < vcVramSize
  · rw [if_pos low, peek, small, if_pos low]
    dsimp only
    rw [Function.update_self]
  · by_cases settings : vcCfgBase ≤ a.toNat ∧ a.toNat < vcCfgBase + vcCfgSize
    · rw [if_neg low, if_pos settings, peek, small, if_neg low, if_pos settings]
      dsimp only
      rw [Function.update_self]
    · have high : vcPsramBase ≤ a.toNat :=
        (mapped.resolve_left low).resolve_left settings
      obtain ⟨psram, found⟩ := Option.isSome_iff_exists.mp (present high)
      rw [if_neg low, if_neg settings, found]
      dsimp only
      rw [if_pos high, peek, small, if_neg low, if_neg settings]
      dsimp only
      rw [if_pos high, Function.update_self]

theorem poke_unwritable {a : BitVec 24} (v : Byte) (unwritable : ¬c.Writable a) :
    c.poke a.toNat v = c := by
  have small : a.toNat % 0x1000000 = a.toNat := Nat.mod_eq_of_lt a.isLt
  have unmapped (present : vcPsramBase ≤ a.toNat → c.psram.isSome) : ¬Mapped a :=
    fun mapped => unwritable ⟨mapped, present⟩
  rw [poke, small]
  by_cases high : vcPsramBase ≤ a.toNat
  · have low : ¬a.toNat < vcVramSize := Nat.not_lt.mpr (Nat.le_trans (by decide) high)
    have settings : ¬(vcCfgBase ≤ a.toNat ∧ a.toNat < vcCfgBase + vcCfgSize) := by
      rintro ⟨-, below⟩
      exact absurd (Nat.lt_of_le_of_lt high below) (by decide)
    cases found : c.psram with
    | none => rw [if_neg low, if_neg settings]
    | some psram =>
        exact absurd ⟨.inr (.inr high), fun _ => by rw [found]; rfl⟩ unwritable
  · have outside := unmapped fun above => absurd above high
    have low : ¬a.toNat < vcVramSize := fun below => outside (.inl below)
    have settings : ¬(vcCfgBase ≤ a.toNat ∧ a.toNat < vcCfgBase + vcCfgSize) :=
      fun inside => outside (.inr (.inl inside))
    rw [if_neg low, if_neg settings]
    cases c.psram with
    | none => rfl
    | some psram => exact if_neg high

theorem peek_poke_apart {a b : BitVec 24} (v : Byte) (apart : b ≠ a) :
    (c.poke a.toNat v).peek b.toNat = c.peek b.toNat := by
  have aSmall : a.toNat % 0x1000000 = a.toNat := Nat.mod_eq_of_lt a.isLt
  have bSmall : b.toNat % 0x1000000 = b.toNat := Nat.mod_eq_of_lt b.isLt
  have differ : b.toNat ≠ a.toNat := fun same => apart (BitVec.eq_of_toNat_eq same)
  rw [poke, aSmall]
  split
  · rw [peek, peek, bSmall]
    dsimp only
    rw [Function.update_of_ne differ]
  · split
    · rw [peek, peek, bSmall]
      dsimp only
      by_cases settings : vcCfgBase ≤ b.toNat ∧ b.toNat < vcCfgBase + vcCfgSize
      · rw [if_pos settings, if_pos settings, Function.update_of_ne (by omega)]
      · rw [if_neg settings, if_neg settings]
    · split
      · rename_i psram found
        split
        · rw [peek, peek, bSmall, found]
          dsimp only
          by_cases high : vcPsramBase ≤ b.toNat
          · rw [if_pos high, if_pos high, Function.update_of_ne (by omega)]
          · rw [if_neg high, if_neg high]
        · rfl
      · rfl

theorem peek_poke_other {a b : BitVec 24} (v : Byte) (other : b ≠ a ∨ ¬c.Writable a) :
    (c.poke a.toNat v).peek b.toNat = c.peek b.toNat := by
  rcases other with apart | unwritable
  · exact peek_poke_apart v apart
  · rw [poke_unwritable v unwritable]

/-- The card's address space. -/
def memory : Move.Memory Card (BitVec 24) Byte where
  peek c a := c.peek a.toNat
  poke c a v := c.poke a.toNat v
  Writable := Writable
  peek_self := peek_poke_self _
  peek_other := peek_poke_other _
  writable_poke := (poke_redraws _ _ _).writable

/-! The two loops of COPY as moves. -/

/-- The address `k` bytes after `a`, modulo 2^24. -/
def from24 (a : BitVec 24) (k : Nat) : BitVec 24 := a + BitVec.ofNat 24 k

theorem from24_toNat (a : BitVec 24) (k : Nat) :
    (from24 a k).toNat = (a.toNat + k) % 0x1000000 := by
  rw [from24, BitVec.toNat_add, BitVec.toNat_ofNat]
  omega

theorem poke_mod (a : Nat) (v : Byte) : c.poke (a % 0x1000000) v = c.poke a v := by
  rw [poke, poke, Nat.mod_mod]

theorem copyUp_move (src dst : BitVec 24) (k count : Nat) :
    c.copyUp src.toNat dst.toNat k count =
      memory.move (from24 src) (from24 dst) c (List.range' k count) := by
  induction count generalizing c k with
  | zero => rfl
  | succ count ih =>
      rw [copyUp, List.range'_succ, Move.Memory.move_cons, ← ih, ← peek_mod, ← poke_mod,
        ← from24_toNat, ← from24_toNat]
      rfl

theorem copyDown_move (src dst : BitVec 24) (count : Nat) :
    c.copyDown src.toNat dst.toNat count =
      memory.move (from24 src) (from24 dst) c (List.range count).reverse := by
  induction count generalizing c with
  | zero => rfl
  | succ count ih =>
      rw [copyDown, List.range_succ, List.reverse_append, List.reverse_singleton,
        List.singleton_append, Move.Memory.move_cons, ← ih, ← peek_mod, ← poke_mod,
        ← from24_toNat, ← from24_toNat]
      rfl

theorem move_redraws (src dst : Nat → BitVec 24) (order : List Nat) :
    c.Redraws (memory.move src dst c order) := by
  induction order generalizing c with
  | nil => exact .refl c
  | cons k order ih => exact (poke_redraws c _ _).trans ih

/-- COPY goes down from the last byte if the destination is above the source. -/
def CopiesDown (src dst : BitVec 24) (len : Nat) : Prop :=
  src.toNat < dst.toNat ∧ dst.toNat < src.toNat + len

instance : Decidable (CopiesDown src dst len) := inferInstanceAs (Decidable (_ ∧ _))

def copyOrder (src dst : BitVec 24) (len : Nat) : List Nat :=
  if CopiesDown src dst len then (List.range len).reverse else List.range' 0 len

theorem runCommand_copy (c : Card) (p : Bytes) :
    c.runCommand 0x0A#8 p = some (memory.move (from24 (be24 p 0)) (from24 (be24 p 3)) c
      (copyOrder (be24 p 0) (be24 p 3) (be24 p 6).toNat)) := by
  change some (if CopiesDown (be24 p 0) (be24 p 3) (be24 p 6).toNat then
    c.copyDown (be24 p 0).toNat (be24 p 3).toNat (be24 p 6).toNat
    else c.copyUp (be24 p 0).toNat (be24 p 3).toNat 0 (be24 p 6).toNat) = _
  rw [copyOrder]
  split
  · rw [copyDown_move]
  · rw [copyUp_move]

theorem mem_copyOrder {src dst : BitVec 24} {len k : Nat} :
    k ∈ copyOrder src dst len ↔ k < len := by
  rw [copyOrder]
  split
  · rw [List.mem_reverse, List.mem_range]
  · rw [List.mem_range'_1]
    omega

/-- Byte `j` is copied before byte `k`. -/
def CopiedBefore (src dst : BitVec 24) (len j k : Nat) : Prop :=
  CopiesDown src dst len ∧ k < j ∧ j < len ∨ ¬CopiesDown src dst len ∧ j < k

theorem copyOrder_split (src dst : BitVec 24) {len k : Nat} (inside : k < len) :
    ∃ before after, copyOrder src dst len = before ++ k :: after ∧
      (∀ j, j ∈ before ↔ CopiedBefore src dst len j k) ∧
      ∀ j ∈ after, j < len ∧ j ≠ k := by
  have up : List.range' 0 len = List.range' 0 k ++ k :: List.range' (k + 1) (len - k - 1) := by
    have whole : len = k + (len - k - 1 + 1) := by omega
    rw [whole, ← List.range'_append_1, Nat.zero_add, List.range'_succ]
    congr 3
    omega
  rw [copyOrder]
  by_cases down : CopiesDown src dst len
  · rw [if_pos down]
    refine ⟨(List.range' (k + 1) (len - k - 1)).reverse, (List.range' 0 k).reverse, ?_, ?_, ?_⟩
    · rw [List.range_eq_range', up, List.reverse_append, List.reverse_cons, List.append_assoc]
      rfl
    · intro j
      simp only [CopiedBefore, down, List.mem_reverse, List.mem_range'_1, not_true, false_and,
        true_and, or_false]
      omega
    · intro j member
      rw [List.mem_reverse, List.mem_range'_1] at member
      omega
  · rw [if_neg down]
    refine ⟨_, _, up, ?_, ?_⟩
    · intro j
      simp only [CopiedBefore, down, List.mem_range'_1, not_false_iff, false_and, true_and,
        false_or]
      omega
    · intro j member
      rw [List.mem_range'_1] at member
      omega

theorem from24_inj {a b : BitVec 24} {j k : Nat} :
    from24 a j = from24 b k ↔ (a.toNat + j) % 0x1000000 = (b.toNat + k) % 0x1000000 := by
  rw [← BitVec.toNat_inj, from24_toNat, from24_toNat]

theorem from24_apart (a : BitVec 24) {j k : Nat} (jSmall : j < 0x1000000) (kSmall : k < 0x1000000)
    (differ : j ≠ k) : from24 a j ≠ from24 a k := by
  intro same
  have := from24_inj.mp same
  omega

/-- A correct move of `len` bytes, whether or not they overlap. -/
structure Moved (c c' : Card) (src dst : BitVec 24) (len : Nat) : Prop where
  redraws : c.Redraws c'
  arrived : ∀ k < len, c.Writable (from24 dst k) →
    c'.peek (from24 dst k).toNat = c.peek (from24 src k).toNat
  elsewhere : ∀ a : BitVec 24, (∀ k < len, a ≠ from24 dst k) → c'.peek a.toNat = c.peek a.toNat

/-- The end of the address space lies between byte `k` of the source and the byte of the
destination that is in its place: going up, the source has run past the end; going down, the
destination has. -/
def MeetsAround (src dst : BitVec 24) (len k : Nat) : Prop :=
  dst.toNat < src.toNat ∧ dst.toNat + 0x1000000 ≤ src.toNat + k ∨
    CopiesDown src dst len ∧ src.toNat + k + 0x1000000 < dst.toNat + len

/-- Byte `k` of the source is written before its turn if and only if the two meet there. -/
theorem meetsAround_iff {src dst : BitVec 24} {len k : Nat} (small : len < 0x1000000)
    (inside : k < len) : MeetsAround src dst len k ↔
      ∃ j, CopiedBefore src dst len j k ∧ from24 dst j = from24 src k := by
  have srcSmall := src.isLt
  have dstSmall := dst.isLt
  simp only [MeetsAround, CopiedBefore, CopiesDown, from24_inj]
  constructor
  · rintro (⟨below, beyond⟩ | ⟨down, beyond⟩)
    · exact ⟨src.toNat + k - dst.toNat - 0x1000000, by omega, by omega⟩
    · exact ⟨src.toNat + k + 0x1000000 - dst.toNat, by omega, by omega⟩
  · rintro ⟨j, earlier, same⟩
    omega

/-- A byte of 1 at one address, 0 everywhere else. -/
def spotCard (x : BitVec 24) : Card where
  vram := fun a => if a = x.toNat then 1 else 0
  cfg := fun a => if vcCfgBase + a = x.toNat then 1 else 0
  psram := some fun a => if vcPsramBase + a = x.toNat then 1 else 0

theorem spotCard_peek {x : BitVec 24} (mapped : Mapped x) (b : BitVec 24) :
    (spotCard x).peek b.toNat = if b = x then 1 else 0 := by
  have small : b.toNat % 0x1000000 = b.toNat := Nat.mod_eq_of_lt b.isLt
  have cells : (spotCard x).peek b.toNat =
      if b.toNat < vcVramSize then if b.toNat = x.toNat then 1 else 0
      else if vcCfgBase ≤ b.toNat ∧ b.toNat < vcCfgBase + vcCfgSize then
        if vcCfgBase + (b.toNat - vcCfgBase) = x.toNat then 1 else 0
      else if vcPsramBase ≤ b.toNat then
        if vcPsramBase + (b.toNat - vcPsramBase) = x.toNat then 1 else 0
      else 0 := by
    rw [peek, small, spotCard]
  have same : (b = x) = (b.toNat = x.toNat) := propext BitVec.toNat_inj.symm
  simp only [cells, same]
  by_cases low : b.toNat < vcVramSize
  · rw [if_pos low]
  · by_cases settings : vcCfgBase ≤ b.toNat ∧ b.toNat < vcCfgBase + vcCfgSize
    · rw [if_neg low, if_pos settings, Nat.add_sub_cancel' settings.1]
    · by_cases high : vcPsramBase ≤ b.toNat
      · rw [if_neg low, if_neg settings, if_pos high, Nat.add_sub_cancel' high]
      · have hole : b.toNat ≠ x.toNat := by
          intro same
          rw [Mapped, ← same] at mapped
          exact high ((mapped.resolve_left low).resolve_left settings)
        rw [if_neg low, if_neg settings, if_neg high, if_neg hole]

/-- COPY is a correct move of whatever the memory holds if and only if no byte that is moved
within memory is one where the two ranges meet around the end of the address space. -/
theorem copy_moves_iff (p : Bytes) :
    (∀ c : Card, c.psram.isSome → ∃ c', c.runCommand 0x0A#8 p = some c' ∧
      c.Moved c' (be24 p 0) (be24 p 3) (be24 p 6).toNat) ↔
      ∀ k < (be24 p 6).toNat, Mapped (from24 (be24 p 0) k) → Mapped (from24 (be24 p 3) k) →
        ¬MeetsAround (be24 p 0) (be24 p 3) (be24 p 6).toNat k := by
  have small := (be24 p 6).isLt
  generalize lenEq : (be24 p 6).toNat = len at small
  constructor
  · rintro moves k inside fromMapped toMapped meets
    obtain ⟨c', ran, moved⟩ := moves (spotCard (from24 (be24 p 0) k)) rfl
    obtain ⟨j, earlier, clobbered⟩ := (meetsAround_iff small inside).mp meets
    obtain ⟨before, after, order, first, -⟩ := copyOrder_split (be24 p 0) (be24 p 3) inside
    obtain ⟨start, between, rfl⟩ := List.append_of_mem ((first j).mpr earlier)
    have arrived := moved.arrived k inside ((writable_mapped rfl).mpr toMapped)
    have spot := spotCard_peek fromMapped
    rw [runCommand_copy, lenEq, order, List.append_assoc, List.cons_append] at ran
    obtain rfl := Option.some.inj ran
    have unread : ∀ i ∈ start ++ [j], from24 (be24 p 0) i ≠ from24 (be24 p 0) k := by
      intro i member
      have before : CopiedBefore _ _ len i k := (first i).mp (by
        rw [List.append_cons]
        exact List.mem_append_left _ member)
      unfold CopiedBefore at before
      exact from24_apart _ (by omega) (by omega) (by omega)
    have lost := Move.Memory.peek_move_lost (m := memory) (v := 0)
      (fun b other => (spot b).trans (if_neg other)) clobbered
      ((writable_mapped rfl).mpr fromMapped) unread (between ++ k :: after) (from24 (be24 p 3) k)
    have one : (0 : Byte) = 1 := lost.symm.trans (arrived.trans ((spot _).trans (if_pos rfl)))
    exact absurd one (by decide)
  · intro apart c present
    refine ⟨_, runCommand_copy c p, move_redraws _ _ _, ?_, ?_⟩
    · rw [lenEq]
      intro k inside writable
      obtain ⟨before, after, order, first, last⟩ :=
        copyOrder_split (be24 p 0) (be24 p 3) inside
      rw [order]
      apply Move.Memory.peek_move (m := memory) writable
      · intro j earlier target same
        refine apart k inside ?_ writable.1 ?_
        · rw [same]
          exact target.1
        · exact (meetsAround_iff small inside).mpr ⟨j, (first j).mp earlier, same.symm⟩
      · intro j later
        obtain ⟨below, differ⟩ := last j later
        exact from24_apart _ (by omega) (by omega) differ.symm
    · rw [lenEq]
      intro a outside
      apply Move.Memory.peek_move_other (m := memory)
      exact fun k member _ => outside k (mem_copyOrder.mp member)

/-- COPY of two bytes from the last address to the first. -/
def acrossEnd : Bytes := fun i => [0xFF#8, 0xFF#8, 0xFF#8, 0, 0, 0, 0, 0, 2].getD i 0

theorem copy_across_end : ¬∃ c', (spotCard 0).runCommand 0x0A#8 acrossEnd = some c' ∧
    (spotCard 0).Moved c' (be24 acrossEnd 0) (be24 acrossEnd 3) (be24 acrossEnd 6).toNat := by
  rintro ⟨c', ran, moved⟩
  obtain rfl := Option.some.inj ran
  have arrived := moved.arrived 1 (by decide) ⟨.inl (by decide), fun _ => rfl⟩
  exact absurd arrived (by decide)

end Card

end Pugputer.Vidcard

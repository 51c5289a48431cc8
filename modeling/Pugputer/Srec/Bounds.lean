import Mathlib.Data.List.Forall2
import Mathlib.Order.Bounds.Basic
import Mathlib.Order.ConditionallyCompleteLattice.Basic
import Pugputer.Srec.Loader

namespace Pugputer.Srec

open Loading (Reached)

/-! What a file's records ask for, and how far the loader's 32-bit sums follow. -/

namespace Record

/-- The bytes a data record carries, each with its address. -/
def carried (r : Record) : List (Nat × Byte) :=
  if r.isData then r.data.mapIdx fun i b => (r.address.toNat + i, b) else []

def Inside (memSize : Nat) (r : Record) : Prop := ∀ w ∈ r.carried, w.1 < memSize

/-- The address after the record's last byte. -/
def ending (r : Record) : Nat := r.address.toNat + r.data.length

variable {r : Record} {memSize : Nat}

theorem mem_carried {w : Nat × Byte} :
    w ∈ r.carried ↔ r.isData ∧ ∃ (i : Nat) (small : i < r.data.length),
      w = (r.address.toNat + i, r.data.get ⟨i, small⟩) := by
  rw [carried]
  split
  · next data =>
    rw [List.mem_mapIdx, iff_true_intro data, true_and]
    exact exists_congr fun i => exists_congr fun small => eq_comm
  · next none => exact iff_of_false List.not_mem_nil fun data => none data.1

theorem mem_writes {w : Nat × Byte} :
    w ∈ r.writes ↔ r.isData ∧ ∃ (i : Nat) (small : i < r.data.length),
      w = ((r.address + BitVec.ofNat 32 i).toNat, r.data.get ⟨i, small⟩) := by
  rw [writes]
  split
  · next data =>
    rw [List.mem_mapIdx, iff_true_intro data, true_and]
    exact exists_congr fun i => exists_congr fun small => eq_comm
  · next none => exact iff_of_false List.not_mem_nil fun data => none data.1

theorem inside_iff : r.Inside memSize ↔ (r.isData → 0 < r.data.length → r.ending ≤ memSize) := by
  rw [ending]
  constructor
  · intro inside data some
    have last := inside _ (mem_carried.mpr ⟨data, r.data.length - 1, by omega, rfl⟩)
    omega
  · intro fits w member
    obtain ⟨data, i, small, rfl⟩ := mem_carried.mp member
    have bound := fits data (by omega)
    dsimp only
    omega

theorem passes_iff :
    r.Passes memSize ↔ (r.isData → 0 < r.data.length → r.ending % 2 ^ 32 ≤ memSize) := by
  have value : (r.address + BitVec.ofNat 32 r.data.length).toNat = r.ending % 2 ^ 32 := by
    rw [BitVec.toNat_add, BitVec.toNat_ofNat, ending]
    omega
  rw [Passes, value]

/-- A sum that does not wrap is the address meant. -/
theorem writes_eq (inside : r.ending ≤ 2 ^ 32) : r.writes = r.carried := by
  rw [writes, carried]
  split
  · apply List.ext_getElem
    · rw [List.length_mapIdx, List.length_mapIdx]
    · intro i small _
      rw [List.length_mapIdx] at small
      have fits : r.address.toNat + i < 2 ^ 32 := by
        rw [ending] at inside
        omega
      rw [List.getElem_mapIdx, List.getElem_mapIdx, BitVec.toNat_add, BitVec.toNat_ofNat,
        Nat.mod_eq_of_lt (by omega : i < 2 ^ 32), Nat.mod_eq_of_lt fits]
  · rfl

theorem Inside.passes (inside : r.Inside memSize) : r.Passes memSize := by
  refine passes_iff.mpr fun data some => ?_
  exact Nat.le_trans (Nat.mod_le _ _) (inside_iff.mp inside data some)

end Record

theorem Holds.short {line : List Byte} {r : Record} (holds : Holds line r) :
    r.data.length < 256 := by
  obtain ⟨count, check, address, text, after, record⟩ := holds
  have byte := count.isLt
  have counted := record.counted
  omega

/-! The span of what has been put into memory. -/

def addresses (writes : List (Nat × Byte)) : Set Nat := {a | ∃ b, (a, b) ∈ writes}

theorem addresses_append (ws us : List (Nat × Byte)) :
    addresses (ws ++ us) = addresses ws ∪ addresses us := by
  ext a
  simp only [addresses, List.mem_append, Set.mem_ofPred_eq, Set.mem_union, exists_or]

structure Spanned (l : Loading) : Prop where
  any : l.result.anyData = true ↔ l.writes ≠ []
  least : l.result.anyData = true → IsLeast (addresses l.writes) l.result.minAddr.toNat
  greatest : l.result.anyData = true → IsGreatest (addresses l.writes) l.result.maxAddr.toNat

section Span

variable {r : Record} (data : r.isData = true) (some : 0 < r.data.length)

include data some

theorem carried_least : IsLeast (addresses r.carried) r.address.toNat := by
  constructor
  · exact ⟨_, Record.mem_carried.mpr ⟨data, 0, some, rfl⟩⟩
  · rintro a ⟨b, member⟩
    obtain ⟨-, i, small, same⟩ := Record.mem_carried.mp member
    have here : a = r.address.toNat + i := congrArg Prod.fst same
    omega

theorem carried_greatest : IsGreatest (addresses r.carried) (r.ending - 1) := by
  constructor
  · refine ⟨r.data.get ⟨r.data.length - 1, by omega⟩,
      Record.mem_carried.mpr ⟨data, r.data.length - 1, by omega, ?_⟩⟩
    rw [Record.ending]
    congr 1
    omega
  · rintro a ⟨b, member⟩
    obtain ⟨-, i, small, same⟩ := Record.mem_carried.mp member
    have here : a = r.address.toNat + i := congrArg Prod.fst same
    rw [Record.ending]
    omega

omit data in
theorem last_toNat (inside : r.ending ≤ 2 ^ 32) :
    (r.address + BitVec.ofNat 32 r.data.length - 1).toNat = r.ending - 1 := by
  rw [Record.ending] at inside ⊢
  have small := r.address.isLt
  rw [BitVec.toNat_sub, BitVec.toNat_add, BitVec.toNat_ofNat]
  change (2 ^ 32 - 1 + _) % 2 ^ 32 = _
  omega

theorem carried_nonempty : r.carried ≠ [] := by
  intro empty
  obtain ⟨b, member⟩ := (carried_least data some).1
  rw [empty] at member
  exact absurd member List.not_mem_nil

end Span

theorem toNat_ite_min (a b : BitVec 32) : (if a < b then a else b).toNat = min b.toNat a.toNat := by
  split
  · next less => exact (Nat.min_eq_right (Nat.le_of_lt (BitVec.lt_def.mp less))).symm
  · next more => exact (Nat.min_eq_left (BitVec.le_def.mp (BitVec.not_lt.mp more))).symm

theorem toNat_ite_max (a b : BitVec 32) : (if b < a then a else b).toNat = max b.toNat a.toNat := by
  split
  · next less => exact (Nat.max_eq_right (Nat.le_of_lt (BitVec.lt_def.mp less))).symm
  · next more => exact (Nat.max_eq_left (BitVec.le_def.mp (BitVec.not_lt.mp more))).symm

/-- A record that ends within 2^32 keeps the span. -/
theorem Spanned.carry {l : Loading} {r : Record} (span : Spanned l)
    (inside : r.isData → 0 < r.data.length → r.ending ≤ 2 ^ 32) : Spanned (l.carry r) := by
  by_cases carries : r.isData = true ∧ 0 < r.data.length
  · obtain ⟨data, some⟩ := carries
    have fits := inside data some
    have least := carried_least data some
    have greatest := carried_greatest data some
    have grown : l.writes ++ r.carried ≠ [] := fun empty =>
      carried_nonempty data some (List.append_eq_nil_iff.mp empty).2
    rw [Loading.carry, if_pos ⟨data, some⟩, Record.writes_eq fits]
    dsimp only
    by_cases any : l.result.anyData = true
    · rw [if_pos any]
      refine ⟨iff_of_true any grown, fun _ => ?_, fun _ => ?_⟩
      · dsimp only
        rw [addresses_append, toNat_ite_min]
        exact (span.least any).union least
      · dsimp only
        rw [addresses_append, toNat_ite_max, last_toNat some fits]
        exact (span.greatest any).union greatest
    · have none : l.writes = [] := not_not.mp fun filled => any (span.any.mpr filled)
      rw [if_neg any, none, List.nil_append]
      refine ⟨iff_of_true rfl (carried_nonempty data some), fun _ => least, fun _ => ?_⟩
      dsimp only
      rw [last_toNat some fits]
      exact greatest
  · rw [Loading.carry, if_neg carries]
    exact span

theorem Spanned.foldl {l : Loading} {rs : List Record} (span : Spanned l)
    (inside : ∀ r ∈ rs, r.isData → 0 < r.data.length → r.ending ≤ 2 ^ 32) :
    Spanned (rs.foldl Loading.carry l) := by
  induction rs generalizing l with
  | nil => exact span
  | cons r rest ih =>
      obtain ⟨first, later⟩ := List.forall_mem_cons.mp inside
      exact ih (span.carry first) later

theorem foldl_writes (l : Loading) (rs : List Record) :
    (rs.foldl Loading.carry l).writes = l.writes ++ rs.flatMap Record.writes := by
  induction rs generalizing l with
  | nil => exact (List.append_nil _).symm
  | cons r rest ih =>
      rw [List.foldl_cons, ih, Loading.carry_writes, List.flatMap_cons, List.append_assoc]

theorem exists_of_forall₂ {R : α → β → Prop} {as : List α} {bs : List β}
    (all : List.Forall₂ R as bs) {b : β} (member : b ∈ bs) : ∃ a ∈ as, R a b := by
  induction all with
  | nil => exact absurd member List.not_mem_nil
  | cons first _ ih =>
      rcases List.mem_cons.mp member with rfl | later
      · exact ⟨_, List.mem_cons_self, first⟩
      · obtain ⟨a, inRest, related⟩ := ih later
        exact ⟨a, List.mem_cons_of_mem _ inRest, related⟩

/-! The contract, and when it is kept. -/

def WellFormed (memSize : Nat) (content : List Byte) : Prop :=
  ∀ line ∈ textLines (getLines content), ∃ r, Holds line r ∧ r.Inside memSize

/-- The loader has done with the file what its header says. -/
structure Loads (content : List Byte) (memSize : Nat) (l : Loading) : Prop where
  inside : ∀ w ∈ l.writes, w.1 < memSize
  accepts : l.result.ok = true ↔ WellFormed memSize content
  applied : l.result.ok = true →
    ∃ rs, List.Forall₂ Holds (textLines (getLines content)) rs ∧
      (∀ mem, stored l.writes mem = stored (rs.flatMap Record.carried) mem) ∧
      (l.result.anyData = true ↔ rs.flatMap Record.carried ≠ []) ∧
      (l.result.anyData = true →
        IsLeast (addresses (rs.flatMap Record.carried)) l.result.minAddr.toNat ∧
        IsGreatest (addresses (rs.flatMap Record.carried)) l.result.maxAddr.toNat)

/-- After lines that are all well formed comes a data record that ends at 2^32 or past it, by
no more than the memory's size. -/
def WrapsFirst (memSize : Nat) (content : List Byte) : Prop :=
  ∃ before line after r, textLines (getLines content) = before ++ line :: after ∧
    (∀ line ∈ before, ∃ r, Holds line r ∧ r.Inside memSize) ∧ Holds line r ∧ r.isData ∧
    2 ^ 32 ≤ r.ending ∧ r.ending - 2 ^ 32 ≤ memSize

/-- Every line is a record, and one carries data past 2^32. -/
def RunsPast (content : List Byte) : Prop :=
  (∀ line ∈ textLines (getLines content), ∃ r, Holds line r) ∧
    ∃ line ∈ textLines (getLines content), ∃ r, Holds line r ∧ r.isData ∧ 2 ^ 32 < r.ending

section Contract

variable {path : String} {content : List Byte} {memSize : Nat}

/-- When no record that gets through runs past 2^32, what was stored and its span are right. -/
theorem applied_of_fits
    (ok : (loadSrecFile path (some content) memSize).result.ok = true)
    (fits : ∀ line ∈ textLines (getLines content), ∀ r, Holds line r → r.Passes memSize →
      r.isData → r.ending ≤ 2 ^ 32) :
    ∃ rs, List.Forall₂ Holds (textLines (getLines content)) rs ∧
      (∀ mem, stored (loadSrecFile path (some content) memSize).writes mem =
        stored (rs.flatMap Record.carried) mem) ∧
      ((loadSrecFile path (some content) memSize).result.anyData = true ↔
        rs.flatMap Record.carried ≠ []) ∧
      ((loadSrecFile path (some content) memSize).result.anyData = true →
        IsLeast (addresses (rs.flatMap Record.carried))
          (loadSrecFile path (some content) memSize).result.minAddr.toNat ∧
        IsGreatest (addresses (rs.flatMap Record.carried))
          (loadSrecFile path (some content) memSize).result.maxAddr.toNat) := by
  have every := (Loading.loadLines_ok path memSize 0 {} (getLines content) rfl).mp ok
  obtain ⟨rs, spelled, passes, same⟩ :=
    Loading.loadLines_done path memSize 0 {} (getLines content) every
  have small : ∀ r ∈ rs, r.isData → r.ending ≤ 2 ^ 32 := by
    intro r member data
    obtain ⟨line, inLines, holds⟩ := exists_of_forall₂ spelled member
    exact fits line inLines r holds (passes r member) data
  have carried : rs.flatMap Record.writes = rs.flatMap Record.carried := by
    refine List.flatMap_congr fun r member => ?_
    by_cases data : r.isData = true
    · exact Record.writes_eq (small r member data)
    · rw [Record.writes, Record.carried, if_neg data, if_neg data]
  have span : Spanned (rs.foldl Loading.carry {}) :=
    Spanned.foldl ⟨iff_of_false Bool.false_ne_true (not_not_intro rfl),
      fun any => absurd any Bool.false_ne_true, fun any => absurd any Bool.false_ne_true⟩
      fun r member data _ => small r member data
  have written : (rs.foldl Loading.carry {}).writes = rs.flatMap Record.carried := by
    rw [foldl_writes, carried]
    rfl
  refine ⟨rs, spelled, ?_⟩
  rw [loadSrecFile, same]
  refine ⟨fun mem => congrArg (stored · mem) written, ?_, fun any => ?_⟩
  · rw [← written]
    exact span.any
  · rw [← written]
    exact ⟨span.least any, span.greatest any⟩

/-- Up to the first record that wraps, a line that gets through is well formed. -/
theorem good_of_accepted (never : ¬WrapsFirst memSize content) {before after : List (List Byte)}
    (split : textLines (getLines content) = before ++ after)
    (accepted : ∀ line ∈ before, Accepted memSize line) :
    ∀ line ∈ before, ∃ r, Holds line r ∧ r.Inside memSize := by
  induction before using List.reverseRecOn generalizing after with
  | nil => exact fun _ member => absurd member List.not_mem_nil
  | append_singleton before line ih =>
      rw [List.append_assoc] at split
      have earlier := ih split fun line member => accepted line (List.mem_append_left _ member)
      obtain ⟨r, holds, passes⟩ := accepted line (List.mem_append_right _ List.mem_cons_self)
      have inside : r.Inside memSize := by
        refine Record.inside_iff.mpr fun data some => ?_
        have bound := Record.passes_iff.mp passes data some
        by_contra beyond
        have address := r.address.isLt
        have short := holds.short
        have wide : 2 ^ 32 ≤ r.ending := by
          by_contra narrow
          rw [Nat.mod_eq_of_lt (by omega)] at bound
          exact beyond bound
        have wrapped : r.ending - 2 ^ 32 ≤ memSize := by
          rw [Record.ending] at *
          omega
        exact never ⟨before, line, after, r, split, earlier, holds, data, wide, wrapped⟩
      intro line' member
      rcases List.mem_append.mp member with old | new
      · exact earlier line' old
      · rw [List.mem_singleton.mp new]
        exact ⟨r, holds, inside⟩

theorem accepted_of_good {line : List Byte} (good : ∃ r, Holds line r ∧ r.Inside memSize) :
    Accepted memSize line := by
  obtain ⟨r, holds, inside⟩ := good
  exact ⟨r, holds, inside.passes⟩

theorem loads_small (small : memSize < 2 ^ 32) :
    Loads content memSize (loadSrecFile path (some content) memSize) ↔
      ¬WrapsFirst memSize content := by
  constructor
  · rintro loads ⟨before, line, after, r, split, good, holds, data, wide, wrapped⟩
    have address := r.address.isLt
    have short := holds.short
    have passes : r.Passes memSize := by
      refine Record.passes_iff.mpr fun _ _ => ?_
      rw [Record.ending] at *
      omega
    rw [Record.ending] at wide
    have top : ((r.address + BitVec.ofNat 32 (2 ^ 32 - 1 - r.address.toNat)).toNat,
        r.data.get ⟨2 ^ 32 - 1 - r.address.toNat, by omega⟩) ∈ r.writes :=
      Record.mem_writes.mpr ⟨data, _, by omega, rfl⟩
    have stored := loads.inside _ ((Loading.loadLines_writes path memSize 0 {} (getLines content)
      _).mpr (.inr ⟨r, ⟨before, line, after, split, fun line member =>
        accepted_of_good (good line member), holds⟩, passes, top⟩))
    rw [BitVec.toNat_add, BitVec.toNat_ofNat] at stored
    omega
  · intro never
    refine ⟨?_, ?_, ?_⟩
    · intro w member
      rcases (Loading.loadLines_writes path memSize 0 {} (getLines content) w).mp member with
        none | ⟨r, ⟨before, line, after, split, accepted, holds⟩, passes, written⟩
      · exact absurd none List.not_mem_nil
      · have upTo : textLines (getLines content) = (before ++ [line]) ++ after := by
          rw [split, List.append_assoc]
          rfl
        have all : ∀ line' ∈ before ++ [line], Accepted memSize line' := by
          intro line' member
          rcases List.mem_append.mp member with old | new
          · exact accepted line' old
          · rw [List.mem_singleton.mp new]
            exact ⟨r, holds, passes⟩
        obtain ⟨r', holds', inside⟩ := good_of_accepted never upTo all line
          (List.mem_append_right _ List.mem_cons_self)
        cases holds_unique holds holds'
        obtain ⟨data, i, within, -⟩ := Record.mem_writes.mp written
        have bound := Record.inside_iff.mp inside data (by omega)
        rw [Record.writes_eq (by omega)] at written
        exact inside w written
    · refine (Loading.loadLines_ok path memSize 0 {} (getLines content) rfl).trans ?_
      constructor
      · intro every
        exact good_of_accepted never (List.append_nil _).symm every
      · intro good line member
        exact accepted_of_good (good line member)
    · intro ok
      have every := (Loading.loadLines_ok path memSize 0 {} (getLines content) rfl).mp ok
      refine applied_of_fits ok fun line member r holds _ data => ?_
      obtain ⟨r', holds', inside⟩ :=
        good_of_accepted never (List.append_nil _).symm every line member
      cases holds_unique holds holds'
      by_contra wide
      have address := r.address.isLt
      have bound := Record.inside_iff.mp inside data (by rw [Record.ending] at wide; omega)
      omega

theorem loads_large (large : 2 ^ 32 ≤ memSize) :
    Loads content memSize (loadSrecFile path (some content) memSize) ↔ ¬RunsPast content := by
  have passes (r : Record) : r.Passes memSize := by
    refine Record.passes_iff.mpr fun _ _ => ?_
    have below : r.ending % 2 ^ 32 < 2 ^ 32 := Nat.mod_lt _ (by decide)
    omega
  have accepts : (loadSrecFile path (some content) memSize).result.ok = true ↔
      ∀ line ∈ textLines (getLines content), ∃ r, Holds line r := by
    refine (Loading.loadLines_ok path memSize 0 {} (getLines content) rfl).trans ?_
    refine forall₂_congr fun line _ => exists_congr fun r => ?_
    exact ⟨And.left, fun holds => ⟨holds, passes r⟩⟩
  constructor
  · rintro loads ⟨every, line, member, r, holds, data, wide⟩
    have ok := accepts.mpr every
    obtain ⟨rs, spelled, -, any, span⟩ := loads.applied ok
    obtain ⟨r', inRs, holds'⟩ := exists_of_forall₂ (List.Forall₂.flip (R := flip Holds) spelled) member
    cases holds_unique holds holds'
    have address := r.address.isLt
    have nonempty : 0 < r.data.length := by
      rw [Record.ending] at wide
      omega
    have filled : rs.flatMap Record.carried ≠ [] := by
      intro empty
      exact carried_nonempty data nonempty (List.flatMap_eq_nil_iff.mp empty r inRs)
    obtain ⟨b, last⟩ := (carried_greatest data nonempty).1
    have bound := (span (any.mpr filled)).2.2
      ⟨b, List.mem_flatMap.mpr ⟨r, inRs, last⟩⟩
    have limit := (loadSrecFile path (some content) memSize).result.maxAddr.isLt
    omega
  · intro never
    have fits (every : ∀ line ∈ textLines (getLines content), ∃ r, Holds line r) :
        ∀ line ∈ textLines (getLines content), ∀ r, Holds line r → r.isData →
          r.ending ≤ 2 ^ 32 := by
      intro line member r holds data
      by_contra wide
      exact never ⟨every, line, member, r, holds, data, Nat.not_le.mp wide⟩
    refine ⟨?_, ?_, ?_⟩
    · intro w member
      rcases (Loading.loadLines_writes path memSize 0 {} (getLines content) w).mp member with
        none | ⟨r, -, -, written⟩
      · exact absurd none List.not_mem_nil
      · obtain ⟨-, i, within, rfl⟩ := Record.mem_writes.mp written
        exact Nat.lt_of_lt_of_le (BitVec.isLt _) large
    · refine accepts.trans ?_
      constructor
      · intro every line member
        obtain ⟨r, holds⟩ := every line member
        refine ⟨r, holds, Record.inside_iff.mpr fun data _ => ?_⟩
        exact Nat.le_trans (fits every line member r holds data) large
      · intro good line member
        obtain ⟨r, holds, -⟩ := good line member
        exact ⟨r, holds⟩
    · intro ok
      exact applied_of_fits ok fun line member r holds _ data =>
        fits (accepts.mp ok) line member r holds data

end Contract

/-- The loader keeps its contract except where a sum of 32 bits wraps. -/
theorem loadSrecFile_loads (path : String) (content : List Byte) (memSize : Nat) :
    Loads content memSize (loadSrecFile path (some content) memSize) ↔
      (memSize < 2 ^ 32 → ¬WrapsFirst memSize content) ∧
        (2 ^ 32 ≤ memSize → ¬RunsPast content) := by
  rcases Nat.lt_or_ge memSize (2 ^ 32) with small | large
  · rw [loads_small small]
    exact ⟨fun never => ⟨fun _ => never, fun large => absurd small (Nat.not_lt.mpr large)⟩,
      fun never => never.1 small⟩
  · rw [loads_large large]
    exact ⟨fun never => ⟨fun small => absurd small (Nat.not_lt.mpr large), fun _ => never⟩,
      fun never => never.2 large⟩

/-- One S3 record: $AA for address $FFFFFFFF. -/
def topByteFile : List Byte :=
  ['S', '3', '0', '6', 'F', 'F', 'F', 'F', 'F', 'F', 'F', 'F', 'A', 'A', '5', '3'].map chr

theorem top_byte_outside :
    ¬Loads topByteFile 0x10000 (loadSrecFile "top.s19" (some topByteFile) 0x10000) := by
  intro loads
  have written : (0xFFFFFFFF, 0xAA) ∈
      (loadSrecFile "top.s19" (some topByteFile) 0x10000).writes := by
    decide
  exact absurd (loads.inside _ written) (by decide)

end Pugputer.Srec

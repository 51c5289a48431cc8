import Pugputer.Operand.Decoded

namespace Pugputer.Operand

open Hd6309

/-! Offsets: the bytes that an offset from a register comes to. -/

/-- An offset's bytes: the register, whether it is indirect, and the offset. -/
inductive Emitted (r : Reg) (indirect : Bool) : Word → List Byte → Prop
  | none (four : r.Four) : Emitted r indirect 0 [ind10 indirect (0x84 ||| r.rn <<< 5)]
  | five (four : r.Four) (plain : indirect = false) (low : Byte) :
      Emitted r indirect ((low.extractLsb' 0 5).signExtend 16) [low &&& 0x1F#8 ||| r.rn <<< 5]
  | eight (four : r.Four) (low : Byte) :
      Emitted r indirect (low.signExtend 16) [ind10 indirect (0x88 ||| r.rn <<< 5), low]
  | sixteen (four : r.Four) (n : Word) :
      Emitted r indirect n [ind10 indirect (0x89 ||| r.rn <<< 5), hiByte n, loByte n]
  | wNone (w : r = .W) : Emitted r indirect 0 [if indirect then 0x90 else 0x8F]
  | wSixteen (w : r = .W) (n : Word) : Emitted r indirect n [w16 indirect, hiByte n, loByte n]
  | pcEight (pc : r = .PC ∨ r = .PCR) (low : Byte) :
      Emitted r indirect (low.signExtend 16) [ind10 indirect 0x8C, low]
  | pcSixteen (pc : r = .PC ∨ r = .PCR) (n : Word) :
      Emitted r indirect n [ind10 indirect 0x8D, hiByte n, loByte n]

/-! Ranges. -/

theorem toNat_low (E : BitVec 32) : (E.setWidth 8).toNat = E.toNat % 256 := BitVec.toNat_setWidth 8 E

theorem sign_low {E : BitVec 32} (fits : inrange 128 255 E = true) :
    (E.setWidth 8).signExtend 16 = E.setWidth 16 := by
  have small : (E + BitVec.ofNat 32 128).toNat ≤ 255 := of_decide_eq_true fits
  rw [BitVec.toNat_add] at small
  change (E.toNat + 128) % 2 ^ 32 ≤ 255 at small
  have whole := E.isLt
  apply BitVec.eq_of_toNat_eq
  rw [BitVec.toNat_signExtend, BitVec.msb_eq_decide, BitVec.toNat_setWidth, toNat_low,
    BitVec.toNat_setWidth]
  split
  · next negative =>
      have above := of_decide_eq_true negative
      omega
  · next positive =>
      have below := of_decide_eq_false (Bool.eq_false_iff.mpr positive)
      omega

/-- What ID_FIVE takes, but for the values from 65536 up that it also takes. -/
theorem sign_five {E : BitVec 32} (fits : inrange 16 31 E = true ∨ 0xFFF0 ≤ E.toNat ∧ E.toNat < 0x10000) :
    ((E.setWidth 8).extractLsb' 0 5).signExtend 16 = E.setWidth 16 := by
  have small : inrange 16 31 E = true → (E.toNat + 16) % 2 ^ 32 ≤ 31 := by
    intro inside
    have inside := of_decide_eq_true inside
    rw [BitVec.toNat_add] at inside
    exact inside
  have whole := E.isLt
  have bits : ((E.setWidth 8).extractLsb' 0 5).toNat = E.toNat % 32 := by
    rw [BitVec.extractLsb'_toNat, toNat_low, Nat.shiftRight_zero]
    omega
  apply BitVec.eq_of_toNat_eq
  rw [BitVec.toNat_signExtend, BitVec.toNat_setWidth, BitVec.toNat_setWidth, bits,
    BitVec.msb_eq_decide, bits]
  split
  · next negative =>
      have above := of_decide_eq_true negative
      rcases fits with inside | ⟨least, most⟩
      · have inside := small inside
        omega
      · omega
  · next positive =>
      have below := of_decide_eq_false (Bool.eq_false_iff.mpr positive)
      rcases fits with inside | ⟨least, most⟩
      · have inside := small inside
        omega
      · omega

theorem high_low (E : BitVec 32) :
    E.extractLsb' 8 8 = hiByte (E.setWidth 16) ∧ E.setWidth 8 = loByte (E.setWidth 16) := by
  constructor
  · ext i inside
    simp only [hiByte, BitVec.getElem_extractLsb', BitVec.getLsbD_setWidth]
    have within : 8 + i < 16 := by omega
    simp only [within, decide_true, Bool.true_and]
  · ext i inside
    simp only [loByte, BitVec.getElem_extractLsb', BitVec.getElem_setWidth, BitVec.getLsbD_setWidth]
    have within : i < 16 := by omega
    simp only [within, Nat.zero_add, decide_true, Bool.true_and]

/-! Offsets assembled. -/

/-- What is to be added to the register: the value, or how far it is from the end of the operand. -/
def Line.reach (l : Line) (r : Reg) (length : ℕ) (value : BitVec 32) : Word :=
  (if r = .PCR then l.relative length value else value).setWidth 16

variable {l : Line} {s : Sized} {value : Option (BitVec 32)} {r : Reg} {indirect : Bool} {f : Form}
  {bytes : List Byte}

theorem idxvalue_reach (pcr : f.IDXPCR = decide (r = .PCR)) (v : BitVec 32) :
    (idxvalue l f v).setWidth 16 = l.reach r (1 + f.IDXLINT.toNat) v := by
  rw [idxvalue, pcr, Line.reach]
  simp only [decide_eq_true_eq]

theorem idEmit_two (lint : f.IDXLINT = 2) (pcr : f.IDXPCR = decide (r = .PCR))
    (accepted : idEmit l value f = .ok bytes) :
    ∃ n, n = l.reach r bytes.length (value.getD 0) ∧ bytes = [f.IDXPB, hiByte n, loByte n] := by
  rw [idEmit.eq_def, lint] at accepted
  cases value with
  | none => cases accepted
  | some v =>
      obtain ⟨high, low⟩ := high_low (idxvalue l f v)
      have found := idxvalue_reach (l := l) pcr v
      rw [lint] at found
      cases accepted
      refine ⟨_, rfl, ?_⟩
      rw [high, low, found]
      rfl

theorem idEmit_one (lint : f.IDXLINT = 1) (pcr : f.IDXPCR = decide (r = .PCR))
    (accepted : idEmit l value f = .ok bytes) :
    ∃ low : Byte, low.signExtend 16 = l.reach r bytes.length (value.getD 0) ∧ bytes = [f.IDXPB, low] := by
  rw [idEmit.eq_def, lint] at accepted
  cases value with
  | none => cases accepted
  | some v =>
      have found := idxvalue_reach (l := l) pcr v
      rw [lint] at found
      by_cases fits : inrange 128 255 (idxvalue l f v) = true
      · have emitted : Except.ok [f.IDXPB, (idxvalue l f v).setWidth 8] = (.ok bytes : Except Err _) := by
          rw [← accepted]
          exact (if_pos fits).symm
        cases emitted
        exact ⟨_, (sign_low fits).trans found, rfl⟩
      · have refused : (.error .BYTEOVF : Except Err (List Byte)) = .ok bytes := by
          rw [← accepted]
          exact (if_neg fits).symm
        cases refused

theorem idEmit_zero (lint : f.IDXLINT = 0) (accepted : idEmit l value f = .ok bytes) :
    bytes = [f.IDXPB] := by
  rw [idEmit.eq_def, if_pos lint] at accepted
  cases accepted
  rfl

/-- A post byte whose offset's size is still to be decided. -/
structure Undecided (r : Reg) (indirect : Bool) (f : Form) : Prop where
  reg : f.IDXPB &&& 7 = r.rn
  shifted : r.Four → (f.IDXPB &&& 3) <<< 5 = r.rn <<< 5
  flag : f.IDXPB.msb = indirect
  pcr : f.IDXPCR = decide (r = .PCR)

theorem reg_cases (r : Reg) :
    (r.Four ∧ r.rn ≤ 3) ∨ (r = .W ∧ r.rn = 4) ∨ ((r = .PC ∨ r = .PCR) ∧ ¬r.rn ≤ 3 ∧ r.rn ≠ 4) := by
  cases r <;> decide

theorem ir16_emitted (undecided : Undecided r indirect f) (accepted : idEmit l value (ir16 f) = .ok bytes) :
    Emitted r indirect (l.reach r bytes.length (value.getD 0)) bytes := by
  obtain ⟨n, reach, rfl⟩ := idEmit_two rfl (by exact undecided.pcr) accepted
  rw [← reach, ir16]
  dsimp only
  rw [undecided.reg, undecided.flag]
  rcases reg_cases r with ⟨four, low⟩ | ⟨w, low⟩ | ⟨pc, above, other⟩
  · rw [if_pos low, undecided.shifted four]
    exact .sixteen four n
  · rw [if_neg (by rw [low]; decide), if_pos low]
    exact .wSixteen w n
  · rw [if_neg above, if_neg other]
    exact .pcSixteen pc n

theorem ir8_emitted (undecided : Undecided r indirect f) (accepted : idEmit l value (ir8 f) = .ok bytes) :
    Emitted r indirect (l.reach r bytes.length (value.getD 0)) bytes := by
  rw [ir8] at accepted
  rw [undecided.reg, undecided.flag] at accepted
  rcases reg_cases r with ⟨four, low⟩ | ⟨w, low⟩ | ⟨pc, above, other⟩
  · rw [if_pos low, undecided.shifted four] at accepted
    obtain ⟨n, reach, rfl⟩ := idEmit_one rfl (by exact undecided.pcr) accepted
    exact reach ▸ .eight four n
  · rw [if_neg (by rw [low]; decide), if_pos low] at accepted
    obtain ⟨n, reach, rfl⟩ := idEmit_two rfl (by exact undecided.pcr) accepted
    exact reach ▸ .wSixteen w n
  · rw [if_neg above, if_neg other] at accepted
    obtain ⟨n, reach, rfl⟩ := idEmit_one rfl (by exact undecided.pcr) accepted
    exact reach ▸ .pcEight pc n

/-- The size chosen by the value, as it is known in the SIZE mode. -/
theorem resolved_emitted (undecided : Undecided r indirect f)
    (exact : s.known = true → s.inexact = false → value = some s.EVAL)
    (accepted : idEmit l value (idxresolve l s f) = .ok bytes) :
    Emitted r indirect (l.reach r bytes.length (value.getD 0)) bytes := by
  rw [idxresolve] at accepted
  split at accepted
  · exact ir16_emitted undecided accepted
  next certain =>
  rw [Bool.not_eq_true, Bool.or_eq_false_iff, Bool.not_eq_false'] at certain
  have value := exact certain.1 certain.2
  subst value
  split at accepted
  · exact ir16_emitted undecided accepted
  dsimp only at accepted
  rw [undecided.reg, undecided.flag] at accepted
  generalize found : (if f.IDXPCR = true then l.relative 2 s.EVAL else s.EVAL) = EVAL at accepted
  have direct : r ≠ .PCR → s.EVAL = EVAL := by
    intro plain
    rw [undecided.pcr, if_neg (by simpa using plain)] at found
    exact found
  split at accepted
  · next zero =>
      obtain ⟨rfl, few, -⟩ := zero
      have plain : r ≠ .PCR := by
        rintro rfl
        exact absurd few (by decide)
      have none : l.reach r bytes.length s.EVAL = 0 := by
        rw [Line.reach, if_neg plain, direct plain]
        rfl
      dsimp only [Option.getD_some]
      rw [none]
      split at accepted
      · next w =>
          rw [idEmit_zero rfl accepted]
          refine .wNone ?_
          cases r <;> first | rfl | cases w
      · next other =>
          have four : r.Four := by
            revert few other
            cases r <;> decide
          rw [undecided.shifted four] at accepted
          rw [idEmit_zero rfl accepted]
          exact .none four
  split at accepted
  · exact ir16_emitted undecided accepted
  split at accepted
  · exact ir8_emitted undecided accepted
  next short =>
  rw [Bool.not_eq_true, Bool.or_eq_false_iff, Bool.or_eq_false_iff, Bool.not_eq_false'] at short
  obtain ⟨⟨plain, low⟩, fits⟩ := short
  have four : r.Four := by
    revert low
    cases r <;> decide
  have plainly : r ≠ .PCR := by
    rintro rfl
    exact absurd low (by decide)
  have reach (n : ℕ) : l.reach r n s.EVAL = ((EVAL.setWidth 8).extractLsb' 0 5).signExtend 16 := by
    rw [Line.reach, if_neg plainly, direct plainly, sign_five (.inl fits)]
  rw [undecided.shifted four] at accepted
  rw [idEmit_zero rfl accepted, Option.getD_some, reach, BitVec.or_comm]
  exact .five four plain (EVAL.setWidth 8)

theorem parsed_auto (zero : Bool) : ∃ f, idxparse (.offset .auto zero r indirect) = .ok f ∧
    f.IDXLINT < 0 ∧ Undecided r indirect f := by
  cases r <;> cases zero <;> cases indirect <;>
    exact ⟨_, rfl, by decide, by decide, by decide, by decide, rfl⟩

theorem parsed_eight (zero : Bool) (parsed : idxparse (.offset .eight zero r indirect) = .ok f) :
    f.IDXLINT = 1 ∧ f.IDXPCR = decide (r = .PCR) ∧
      ∀ low, Emitted r indirect (low.signExtend 16) [f.IDXPB, low] := by
  cases r with
  | W => cases parsed
  | X => cases parsed; exact ⟨rfl, rfl, .eight (by decide)⟩
  | Y => cases parsed; exact ⟨rfl, rfl, .eight (by decide)⟩
  | U => cases parsed; exact ⟨rfl, rfl, .eight (by decide)⟩
  | S => cases parsed; exact ⟨rfl, rfl, .eight (by decide)⟩
  | PCR => cases parsed; exact ⟨rfl, rfl, .pcEight (by decide)⟩
  | PC => cases parsed; exact ⟨rfl, rfl, .pcEight (by decide)⟩

theorem parsed_sixteen (zero : Bool) (parsed : idxparse (.offset .sixteen zero r indirect) = .ok f) :
    f.IDXLINT = 2 ∧ f.IDXPCR = decide (r = .PCR) ∧
      ∀ n, Emitted r indirect n [f.IDXPB, hiByte n, loByte n] := by
  cases r with
  | W => cases parsed; exact ⟨rfl, rfl, .wSixteen rfl⟩
  | X => cases parsed; exact ⟨rfl, rfl, .sixteen (by decide)⟩
  | Y => cases parsed; exact ⟨rfl, rfl, .sixteen (by decide)⟩
  | U => cases parsed; exact ⟨rfl, rfl, .sixteen (by decide)⟩
  | S => cases parsed; exact ⟨rfl, rfl, .sixteen (by decide)⟩
  | PCR => cases parsed; exact ⟨rfl, rfl, .pcSixteen (by decide)⟩
  | PC => cases parsed; exact ⟨rfl, rfl, .pcSixteen (by decide)⟩

theorem parsed_five (zero : Bool) (parsed : idxparse (.offset .five zero r indirect) = .ok f) :
    f = { IDXPB := r.rn <<< 5, IDXLINT := 3, IDXPCR := false } ∧ r.Four ∧ indirect = false := by
  cases indirect with
  | true => cases parsed
  | false =>
      cases r <;> first
        | (cases parsed; done)
        | (cases parsed; exact ⟨rfl, by decide, rfl⟩)

theorem fits5_small {E : BitVec 32} (fits : fits5 E = true) (small : E.msb = true ∨ E.toNat < 0x10000) :
    inrange 16 31 E = true ∨ 0xFFF0 ≤ E.toNat ∧ E.toNat < 0x10000 := by
  rw [fits5, Bool.or_eq_true, Bool.and_eq_true, Bool.not_eq_true', decide_eq_true_eq] at fits
  rcases fits with near | ⟨positive, above⟩
  · exact .inl near
  · rcases small with negative | small
    · rw [negative] at positive
      cases positive
    · exact .inr ⟨above, small⟩

theorem assemble_parsed {op : Indexed} (accepted : assemble l s value op = .ok bytes) :
    ∃ f, idxparse op = .ok f ∧
      idEmit l value (if f.IDXLINT < 0 then idxresolve l s f else f) = .ok bytes := by
  rw [assemble] at accepted
  cases parsed : idxparse op with
  | error e =>
      rw [parsed] at accepted
      cases accepted
  | ok f =>
      rw [parsed] at accepted
      exact ⟨f, rfl, accepted⟩

/-- An offset that is assembled, where << is of no value from 65536 up. -/
theorem offset_emitted {size : Size} {zero : Bool}
    (accepted : assemble l s value (.offset size zero r indirect) = .ok bytes)
    (exact : s.known = true → s.inexact = false → value = some s.EVAL)
    (small : size = .five → ∀ v, value = some v → v.msb = true ∨ v.toNat < 0x10000) :
    Emitted r indirect (l.reach r bytes.length (value.getD 0)) bytes := by
  obtain ⟨f, parsed, bodied⟩ := assemble_parsed accepted
  cases size with
  | auto =>
      obtain ⟨f', parsed', lint, undecided⟩ := @parsed_auto r indirect zero
      obtain rfl := Except.ok.inj (parsed.symm.trans parsed')
      rw [if_pos lint] at bodied
      exact resolved_emitted undecided exact bodied
  | eight =>
      obtain ⟨lint, pcr, emits⟩ := parsed_eight zero parsed
      rw [if_neg (by rw [lint]; decide)] at bodied
      obtain ⟨low, reach, rfl⟩ := idEmit_one lint pcr bodied
      exact reach ▸ emits low
  | sixteen =>
      obtain ⟨lint, pcr, emits⟩ := parsed_sixteen zero parsed
      rw [if_neg (by rw [lint]; decide)] at bodied
      obtain ⟨n, reach, rfl⟩ := idEmit_two lint pcr bodied
      exact reach ▸ emits n
  | five =>
      obtain ⟨rfl, four, plain⟩ := parsed_five zero parsed
      have plainly : r ≠ .PCR := by
        rintro rfl
        exact absurd four (by decide)
      cases value with
      | none => cases bodied
      | some v =>
          change (if fits5 v then _ else _) = _ at bodied
          by_cases fits : fits5 v = true
          · rw [if_pos fits] at bodied
            cases bodied
            have reach (n : ℕ) : l.reach r n v = ((v.setWidth 8).extractLsb' 0 5).signExtend 16 := by
              rw [Line.reach, if_neg plainly, sign_five (fits5_small fits (small rfl v rfl))]
            rw [Option.getD_some, reach]
            exact .five four plain (v.setWidth 8)
          · rw [if_neg fits] at bodied
            cases bodied

end Pugputer.Operand

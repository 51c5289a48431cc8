import Pugputer.Hd6309.Ram
import Pugputer.Operand.Indexed

namespace Pugputer.Operand

open Hd6309

/-! What the CPU makes of an indexed operand's bytes. -/

/-- The address by the low four bits of a post byte. -/
def byMode (i : BitVec 2) : ℕ → Exec Ram Word
  | 0x0 => do
      let v ← getIndexReg i
      setIndexReg i (v + 1)
      return v
  | 0x1 => do
      let v ← getIndexReg i
      setIndexReg i (v + 2)
      return v
  | 0x2 => do
      setIndexReg i ((← getIndexReg i) - 1)
      getIndexReg i
  | 0x3 => do
      setIndexReg i ((← getIndexReg i) - 2)
      getIndexReg i
  | 0x4 => getIndexReg i
  | 0x5 => do return (← getIndexReg i) + (← regs).b.signExtend 16
  | 0x6 => do return (← getIndexReg i) + (← regs).a.signExtend 16
  | 0x7 => do return (← getIndexReg i) + (← regs).e.signExtend 16
  | 0x8 => do
      let off ← rel8
      return (← getIndexReg i) + off
  | 0x9 => do
      let off ← fetch16
      return (← getIndexReg i) + off
  | 0xA => do return (← getIndexReg i) + (← regs).f.signExtend 16
  | 0xB => do return (← getIndexReg i) + (← regs).d
  | 0xC => do
      let off ← rel8
      return (← regs).pc + off
  | 0xD => do
      let off ← fetch16
      return (← regs).pc + off
  | 0xE => do return (← getIndexReg i) + (← regs).w
  | _ => fetch16

def indirectly (indirect : Bool) (address : Exec Ram Word) : Exec Ram Word := do
  let addr ← address
  if indirect then read16 addr else return addr

/-- The CPU once a post byte is fetched, and its cycles counted. -/
def fetchedPost (pb : Byte) (c : Cpu Ram) : Cpu Ram :=
  { c with
    r := { c.r with pc := c.r.pc + 1 }
    cycles := c.cycles + indexedExtraCycles c.r.native pb }

theorem eaIndexed_short {c : Cpu Ram} {pb : Byte} (stored : c.bus c.r.pc = pb)
    (short : pb &&& 0x80#8 = 0) :
    eaIndexed c = (do return (← getIndexReg (pb.extractLsb' 5 2)) +
      (pb.extractLsb' 0 5).signExtend 16 : Exec Ram Word) (fetchedPost pb c) := by
  rw [eaIndexed, exec_bind, fetch8_ram, stored]
  dsimp only
  rw [exec_bind, exec_bind, if_pos short]
  rfl

/-- The address by a post byte, if it is one of W's. -/
def byW (other : Exec Ram Word) : ℕ → Exec Ram Word
  | 0x8F => do return (← regs).w
  | 0xAF => do
      let off ← fetch16
      return (← regs).w + off
  | 0xCF => do
      let v := (← regs).w
      setW (v + 2)
      return v
  | 0xEF => do
      let v := (← regs).w - 2
      setW v
      return v
  | 0x90 => do read16 (← regs).w
  | 0xB0 => do
      let off ← fetch16
      read16 ((← regs).w + off)
  | 0xD0 => do
      let v := (← regs).w
      setW (v + 2)
      read16 v
  | 0xF0 => do
      let v := (← regs).w - 2
      setW v
      read16 v
  | _ => other

theorem eaIndexed_long {c : Cpu Ram} {pb : Byte} (stored : c.bus c.r.pc = pb)
    (long : pb &&& 0x80#8 ≠ 0) :
    eaIndexed c = byW (indirectly (pb &&& 0x10#8 ≠ 0)
      (byMode (pb.extractLsb' 5 2) (pb &&& 0x0F#8).toNat)) pb.toNat (fetchedPost pb c) := by
  rw [eaIndexed, exec_bind, fetch8_ram, stored]
  dsimp only
  rw [exec_bind, exec_bind, if_neg long]
  have tail : indirectly (pb &&& 0x10#8 ≠ 0) (byMode (pb.extractLsb' 5 2) (pb &&& 0x0F#8).toNat) =
      (do
        let addr ← byMode (pb.extractLsb' 5 2) (pb &&& 0x0F#8).toNat
        if pb &&& 0x10#8 ≠ 0 then read16 addr else return addr) := by
    rw [indirectly]
    simp only [decide_eq_true_eq]
  rw [tail]
  change (match pb.toNat with
    | 0x8F => _ | 0xAF => _ | 0xCF => _ | 0xEF => _ | 0x90 => _ | 0xB0 => _ | 0xD0 => _ | 0xF0 => _
    | _ => byMode (pb.extractLsb' 5 2) (pb &&& 0x0F#8).toNat >>= fun addr =>
      if pb &&& 0x10#8 ≠ 0 then read16 addr else return addr) _ = _
  generalize (do
    let addr ← byMode (pb.extractLsb' 5 2) (pb &&& 0x0F#8).toNat
    if pb &&& 0x10#8 ≠ 0 then read16 addr else return addr : Exec Ram Word) = rest
  generalize pb.toNat = n
  rw [byW.eq_def]
  split <;> rfl

def wBytes : List ℕ := [0x8F, 0xAF, 0xCF, 0xEF, 0x90, 0xB0, 0xD0, 0xF0]

theorem byW_other {other : Exec Ram Word} {n : ℕ} (apart : ∀ k ∈ wBytes, n ≠ k) : byW other n = other := by
  simp only [wBytes, List.forall_mem_cons] at apart
  obtain ⟨not8F, notAF, notCF, notEF, not90, notB0, notD0, notF0, -⟩ := apart
  rw [byW.eq_def]
  split
  all_goals first
    | contradiction
    | rfl

theorem eaIndexed_mode {c : Cpu Ram} {pb : Byte} (stored : c.bus c.r.pc = pb)
    (long : pb &&& 0x80#8 ≠ 0) (other : ∀ k ∈ wBytes, pb.toNat ≠ k) :
    eaIndexed c = indirectly (pb &&& 0x10#8 ≠ 0)
      (byMode (pb.extractLsb' 5 2) (pb &&& 0x0F#8).toNat) (fetchedPost pb c) := by
  rw [eaIndexed_long stored long, byW_other other]

/-! Registers. -/

def Reg.get (r : Regs) : Reg → Word
  | .X => r.x
  | .Y => r.y
  | .U => r.u
  | .S => r.s
  | .W => r.w
  | .PCR => 0
  | .PC => r.pc

def Reg.set (r : Regs) (v : Word) : Reg → Regs
  | .X => { r with x := v }
  | .Y => { r with y := v }
  | .U => { r with u := v }
  | .S => { r with s := v }
  | .W => r.setW v
  | _ => r

def Acc.get (r : Regs) : Acc → Word
  | .A => r.a.signExtend 16
  | .B => r.b.signExtend 16
  | .D => r.d
  | .E => r.e.signExtend 16
  | .F => r.f.signExtend 16
  | .W => r.w

/-- X, Y, U or S. -/
def Reg.Four (r : Reg) : Prop := r = .X ∨ r = .Y ∨ r = .U ∨ r = .S

instance (r : Reg) : Decidable r.Four := inferInstanceAs (Decidable (_ ∨ _))

def Reg.index (r : Reg) : BitVec 2 := r.rn.setWidth 2

theorem getIndexReg_four {r : Reg} (four : r.Four) (c : Cpu Ram) :
    getIndexReg r.index c = (r.get c.r, c) := by
  rcases four with rfl | rfl | rfl | rfl <;> rfl

theorem get_set {r : Reg} (four : r.Four) (regs : Regs) (v : Word) : r.get (r.set regs v) = v := by
  rcases four with rfl | rfl | rfl | rfl <;> rfl

def modes : List Byte :=
  [0x80, 0x81, 0x82, 0x83, 0x84, 0x85, 0x86, 0x87, 0x88, 0x89, 0x8A, 0x8B, 0x8C, 0x8D, 0x8E]

theorem post_four {r : Reg} (four : r.Four) : ∀ m ∈ modes, ∀ indirect : Bool,
    (indirect = true → m ≠ 0x80#8) →
      ind10 indirect (m ||| r.rn <<< 5) &&& 0x80#8 ≠ 0 ∧
      (∀ k ∈ wBytes, (ind10 indirect (m ||| r.rn <<< 5)).toNat ≠ k) ∧
      (ind10 indirect (m ||| r.rn <<< 5)).extractLsb' 5 2 = r.index ∧
      ind10 indirect (m ||| r.rn <<< 5) &&& 0x0F#8 = m &&& 0x0F#8 ∧
      decide (ind10 indirect (m ||| r.rn <<< 5) &&& 0x10#8 ≠ 0) = indirect := by
  rcases four with rfl | rfl | rfl | rfl
  · decide
  · decide
  · decide
  · decide

/-- A register's post byte is a mode's. -/
theorem eaIndexed_four {c : Cpu Ram} {r : Reg} {m : Byte} {indirect : Bool} (four : r.Four)
    (mode : m ∈ modes) (fair : indirect = true → m ≠ 0x80#8)
    (stored : c.bus c.r.pc = ind10 indirect (m ||| r.rn <<< 5)) :
    eaIndexed c = indirectly indirect (byMode r.index (m &&& 0x0F#8).toNat)
      (fetchedPost (ind10 indirect (m ||| r.rn <<< 5)) c) := by
  obtain ⟨long, other, index, low, flag⟩ := post_four four m mode indirect fair
  rw [eaIndexed_mode stored long other, index, low, flag]

end Pugputer.Operand

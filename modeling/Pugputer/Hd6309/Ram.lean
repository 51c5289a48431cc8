import Pugputer.Hd6309.Step

namespace Pugputer.Hd6309

/-! The flat RAM bus, and descending byte runs in it. -/

abbrev Ram := Word → Byte

def Ram.set (m : Ram) (addr : Word) (value : Byte) : Ram :=
  fun a => if a = addr then value else m a

instance : Bus Ram where
  read m addr := (m addr, m)
  write m addr value := m.set addr value

@[simp] theorem read8_ram (addr : Word) (c : Cpu Ram) :
    read8 addr c = (c.bus addr, c) := rfl

@[simp] theorem read16_ram (addr : Word) (c : Cpu Ram) :
    read16 addr c = (word (c.bus addr) (c.bus (addr + 1)), c) := rfl

@[simp] theorem fetch8_ram (c : Cpu Ram) :
    fetch8 c = (c.bus c.r.pc, { c with r := { c.r with pc := c.r.pc + 1 } }) := rfl

@[simp] theorem pull8_ram (c : Cpu Ram) :
    pull8 .system c = (c.bus c.r.s, { c with r := { c.r with s := c.r.s + 1 } }) := rfl

@[simp] theorem pull16_ram (c : Cpu Ram) :
    pull16 .system c = (word (c.bus c.r.s) (c.bus (c.r.s + 1)),
      { c with r := { c.r with s := c.r.s + 1 + 1 } }) := rfl

/-- The CPU with its opcode fetched. -/
def Cpu.fetched (c : Cpu Ram) : Cpu Ram :=
  { c.begun with insnPc := c.r.pc, r := { c.r with pc := c.r.pc + 1 } }

theorem stepBody_ram (c : Cpu Ram) (running : c.halted = false)
    (idle : c.lines.serviceable c.r = false) (awake : c.waitSync = false) :
    (stepBody c).2 = (execute (c.bus c.r.pc) c.fetched).2 := by
  rw [stepBody_execute c running idle awake, exec_bind, fetch8_ram]
  rfl

/-- `bytes` pushed in order on a stack whose pointer is `sp`. -/
def Ram.push (m : Ram) (sp : Word) : List Byte → Ram
  | [] => m
  | value :: rest => (m.set (sp - 1) value).push (sp - 1) rest

/-- The address of the `k`-th byte, counted up from a stack pointer. -/
def stackAddr (sp : Word) (k : Nat) : Word := sp + BitVec.ofNat 16 k

theorem stackAddr_zero (sp : Word) : stackAddr sp 0 = sp := by
  simp [stackAddr]

theorem stackAddr_succ (sp : Word) (k : Nat) :
    stackAddr sp (k + 1) = stackAddr sp k + 1 := by
  simp [stackAddr, BitVec.ofNat_add, BitVec.add_assoc]

theorem stackAddr_add (sp : Word) (first second : Nat) :
    stackAddr (stackAddr sp first) second = stackAddr sp (first + second) := by
  simp [stackAddr, BitVec.ofNat_add, BitVec.add_assoc]

@[simp] theorem Ram.set_self (m : Ram) (addr : Word) (value : Byte) :
    m.set addr value addr = value := by
  simp [Ram.set]

theorem Ram.set_other (m : Ram) {addr a : Word} (value : Byte) (ne : a ≠ addr) :
    m.set addr value a = m a := by
  simp [Ram.set, ne]

theorem Ram.push_append (m : Ram) (sp : Word) (first second : List Byte) :
    m.push sp (first ++ second) =
      (m.push sp first).push (sp - BitVec.ofNat 16 first.length) second := by
  induction first generalizing m sp with
  | nil => simp [Ram.push]
  | cons value rest ih =>
      simp only [List.cons_append, Ram.push, ih, List.length_cons, BitVec.ofNat_add]
      congr 1
      rw [BitVec.sub_sub, BitVec.add_comm (1 : Word)]
      rfl

/-- A push leaves every byte outside the run it stores alone. -/
theorem Ram.push_outside (m : Ram) (sp : Word) (bytes : List Byte) {a : Word}
    (outside : ∀ i < bytes.length, a ≠ sp - 1 - BitVec.ofNat 16 i) :
    m.push sp bytes a = m a := by
  induction bytes generalizing m sp with
  | nil => rfl
  | cons value rest ih =>
      have head : a ≠ sp - 1 := by
        simpa using outside 0 (by simp)
      have tail : ∀ i < rest.length, a ≠ sp - 1 - 1 - BitVec.ofNat 16 i := by
        intro i bound
        have step := outside (i + 1) (by simpa using bound)
        rwa [BitVec.ofNat_add, BitVec.add_comm, ← BitVec.sub_sub] at step
      rw [Ram.push, ih _ _ tail, Ram.set_other _ _ head]

/-- The `i`-th byte pushed is found `i + 1` below the old stack pointer. -/
theorem Ram.push_get (m : Ram) (sp : Word) (bytes : List Byte)
    (fits : bytes.length ≤ 65536) {i : Nat} (bound : i < bytes.length) :
    m.push sp bytes (sp - 1 - BitVec.ofNat 16 i) = bytes[i] := by
  induction bytes generalizing m sp i with
  | nil => simp at bound
  | cons value rest ih =>
      simp only [List.length_cons] at fits bound
      cases i with
      | zero =>
          rw [Ram.push, Ram.push_outside]
          · simp
          · intro j jBound clash
            have offset : BitVec.ofNat 16 (j + 1) = 0 := by
              rw [BitVec.ofNat_add]
              bv_omega
            have value := congrArg BitVec.toNat offset
            have small : (j + 1) % 65536 = 0 := by simpa using value
            omega
      | succ i =>
          have tail := ih (m.set (sp - 1) value) (sp - 1) (by omega)
            (i := i) (by omega)
          rw [Ram.push, List.getElem_cons_succ, ← tail]
          congr 1
          rw [BitVec.ofNat_add, BitVec.add_comm, ← BitVec.sub_sub]
          rfl

/-- The same byte counted up from the new stack pointer. -/
theorem Ram.push_stackAddr (m : Ram) (sp : Word) (bytes : List Byte)
    (fits : bytes.length ≤ 65536) {k : Nat} (bound : k < bytes.length) :
    m.push sp bytes (stackAddr (sp - BitVec.ofNat 16 bytes.length) k) =
      bytes[bytes.length - 1 - k] := by
  have found := m.push_get sp bytes fits (i := bytes.length - 1 - k) (by omega)
  rw [← found]
  congr 1
  have offsets : BitVec.ofNat 16 bytes.length =
      BitVec.ofNat 16 (bytes.length - 1 - k) + BitVec.ofNat 16 k + 1 :=
    calc
      BitVec.ofNat 16 bytes.length =
          BitVec.ofNat 16 ((bytes.length - 1 - k) + k + 1) := by congr 1; omega
      _ = _ := by rw [BitVec.ofNat_add, BitVec.ofNat_add]; rfl
  rw [stackAddr, offsets]
  bv_omega

end Pugputer.Hd6309

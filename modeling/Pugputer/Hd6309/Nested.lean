import Pugputer.Hd6309.Interrupt

namespace Pugputer.Hd6309

/-! Pushes and pulls, calls and returns, that close what they open. -/

theorem Ram.holds_append (m : Ram) (addr : Word) (first second : List Byte) :
    m.holds addr (first ++ second) ↔
      m.holds addr first ∧ m.holds (stackAddr addr first.length) second := by
  induction first generalizing addr with
  | nil =>
      rw [List.nil_append, List.length_nil, stackAddr_zero]
      exact (and_iff_right trivial).symm
  | cons value rest ih =>
      have next : stackAddr (addr + 1) rest.length = stackAddr addr (rest.length + 1) := by
        have one : addr + 1 = stackAddr addr 1 := rfl
        rw [one, stackAddr_add, Nat.add_comm]
      rw [List.cons_append, Ram.holds, ih, next, Ram.holds, and_assoc, List.length_cons]

/-- The bytes of PSHS's registers, from the stack pointer up. -/
def stackedBytes (m : Byte) (r : Regs) : List Byte :=
  (if m.getLsbD 0 then [r.cc] else []) ++
  (if m.getLsbD 1 then [r.a] else []) ++
  (if m.getLsbD 2 then [r.b] else []) ++
  (if m.getLsbD 3 then [r.dp] else []) ++
  (if m.getLsbD 4 then [hiByte r.x, loByte r.x] else []) ++
  (if m.getLsbD 5 then [hiByte r.y, loByte r.y] else []) ++
  (if m.getLsbD 6 then [hiByte r.u, loByte r.u] else [])

/-- The registers that PULS loads. -/
def restored (m : Byte) (saved r : Regs) : Regs :=
  { r with
    cc := if m.getLsbD 0 then saved.cc else r.cc
    a := if m.getLsbD 1 then saved.a else r.a
    b := if m.getLsbD 2 then saved.b else r.b
    dp := if m.getLsbD 3 then saved.dp else r.dp
    x := if m.getLsbD 4 then saved.x else r.x
    y := if m.getLsbD 5 then saved.y else r.y
    u := if m.getLsbD 6 then saved.u else r.u }

def maskSize (m : Byte) : Nat :=
  (m.getLsbD 0).toNat + (m.getLsbD 1).toNat + (m.getLsbD 2).toNat + (m.getLsbD 3).toNat +
    2 * (m.getLsbD 4).toNat + 2 * (m.getLsbD 5).toNat + 2 * (m.getLsbD 6).toNat

theorem length_if (chosen : Bool) (bytes : List Byte) :
    (if chosen then bytes else []).length = bytes.length * chosen.toNat := by
  cases chosen with
  | false => rfl
  | true => exact (Nat.mul_one _).symm

theorem reverse_if (chosen : Bool) (bytes : List Byte) :
    (if chosen then bytes else []).reverse = if chosen then bytes.reverse else [] := by
  cases chosen <;> rfl

theorem length_stackedBytes (m : Byte) (r : Regs) : (stackedBytes m r).length = maskSize m := by
  simp only [stackedBytes, List.length_append, length_if, List.length_cons, List.length_nil,
    Nat.zero_add, Nat.one_mul, Nat.reduceAdd, maskSize]

/-! One register of a mask. -/

theorem Cpu.pushed_nil (c : Cpu Ram) : c.pushed [] = c := by
  rw [Cpu.pushed, List.length_nil, BitVec.sub_zero]
  rfl

/-- The CPU after pulling `n` bytes, and what is done with them. -/
def Cpu.pulled (c : Cpu Ram) (n : Nat) (change : Regs → Regs) : Cpu Ram :=
  { c with r := change { c.r with s := stackAddr c.r.s n } }

theorem Cpu.pulled_zero (c : Cpu Ram) {change : Regs → Regs} (same : change c.r = c.r) :
    c.pulled 0 change = c := by
  rw [Cpu.pulled, stackAddr_zero]
  exact congrArg (fun r => { c with r }) same

section Choice

variable {β : Type} {chosen : Bool} {next : Unit → Exec Ram β} (c : Cpu Ram)

theorem push16_if (field : Regs → Word) :
    (if chosen = true then (do
      let r ← regs
      let u ← push16 .system (field r)
      next u) else next ()) c =
      next () (c.pushed (if chosen then [loByte (field c.r), hiByte (field c.r)] else [])) := by
  cases chosen with
  | false => exact (congrArg (next ()) c.pushed_nil).symm
  | true => exact congrArg (fun out => next out.1 out.2) (push16_ram (field c.r) c)

theorem push8_if (field : Regs → Byte) :
    (if chosen = true then (do
      let r ← regs
      let u ← push8 .system (field r)
      next u) else next ()) c =
      next () (c.pushed (if chosen then [field c.r] else [])) := by
  cases chosen with
  | false => exact (congrArg (next ()) c.pushed_nil).symm
  | true => rfl

theorem pull8_if {assign : Byte → Regs → Regs} (field : Regs → Byte) (value : Byte)
    (same : ∀ r, assign (field r) r = r)
    (held : c.bus.holds c.r.s (if chosen then [value] else [])) :
    (if chosen = true then (do
      let u ← pull8To .system assign
      next u) else next ()) c =
      next () (c.pulled chosen.toNat
        (assign (if chosen then value else field c.r))) := by
  cases chosen with
  | false => exact (congrArg (next ()) (c.pulled_zero (same c.r))).symm
  | true =>
      have found : c.bus c.r.s = value := held.1
      subst found
      rfl

theorem pull16_if {assign : Word → Regs → Regs} (field : Regs → Word) (value : Word)
    (same : ∀ r, assign (field r) r = r)
    (held : c.bus.holds c.r.s (if chosen then [hiByte value, loByte value] else [])) :
    (if chosen = true then (do
      let u ← pull16To .system assign
      next u) else next ()) c =
      next () (c.pulled (2 * chosen.toNat)
        (assign (if chosen then value else field c.r))) := by
  cases chosen with
  | false => exact (congrArg (next ()) (c.pulled_zero (same c.r))).symm
  | true =>
      obtain ⟨high, low, -⟩ := held
      have found : word (c.bus c.r.s) (c.bus (c.r.s + 1)) = value := by
        rw [high, low, word_hiByte_loByte]
      have two : c.r.s + 1 + 1 = stackAddr c.r.s 2 := by
        rw [stackAddr_succ, stackAddr_succ, stackAddr_zero]
      have pulled : pull16To .system assign c = ((), c.pulled 2 (assign value)) := by
        rw [pull16To, exec_bind, pull16_ram, modifyRegs_exec, found, two]
        rfl
      exact congrArg (fun out => next out.1 out.2) pulled

end Choice

/-- The CPU past the postbyte. -/
def Cpu.past (c : Cpu Ram) : Cpu Ram := { c with r := { c.r with pc := c.r.pc + 1 } }

theorem psh_ram (c : Cpu Ram) (withoutPc : (c.bus c.r.pc).getLsbD 7 = false) :
    psh .system c =
      addCyclesEmNm (5 + rlistExtraCycles (c.bus c.r.pc)) (4 + rlistExtraCycles (c.bus c.r.pc))
        (c.past.pushed (stackedBytes (c.bus c.r.pc) c.r).reverse) := by
  generalize mask : c.bus c.r.pc = m at *
  have steps : psh .system c = addCyclesEmNm (5 + rlistExtraCycles m) (4 + rlistExtraCycles m)
      ((((((((c.past.pushed (if m.getLsbD 7 then [loByte (c.r.pc + 1), hiByte (c.r.pc + 1)] else [])).pushed
        (if m.getLsbD 6 then [loByte c.r.u, hiByte c.r.u] else [])).pushed
        (if m.getLsbD 5 then [loByte c.r.y, hiByte c.r.y] else [])).pushed
        (if m.getLsbD 4 then [loByte c.r.x, hiByte c.r.x] else [])).pushed
        (if m.getLsbD 3 then [c.r.dp] else [])).pushed
        (if m.getLsbD 2 then [c.r.b] else [])).pushed
        (if m.getLsbD 1 then [c.r.a] else [])).pushed
        (if m.getLsbD 0 then [c.r.cc] else [])) := by
    rw [psh, exec_bind, fetch8_ram, mask]
    refine (push16_if _ (·.pc)).trans ?_
    refine (push16_if _ (·.u)).trans ?_
    refine (push16_if _ (·.y)).trans ?_
    refine (push16_if _ (·.x)).trans ?_
    refine (push8_if _ (·.dp)).trans ?_
    refine (push8_if _ (·.b)).trans ?_
    refine (push8_if _ (·.a)).trans ?_
    exact push8_if _ (·.cc)
  have reversed : (stackedBytes m c.r).reverse =
      (if m.getLsbD 6 then [loByte c.r.u, hiByte c.r.u] else []) ++
      (if m.getLsbD 5 then [loByte c.r.y, hiByte c.r.y] else []) ++
      (if m.getLsbD 4 then [loByte c.r.x, hiByte c.r.x] else []) ++
      (if m.getLsbD 3 then [c.r.dp] else []) ++
      (if m.getLsbD 2 then [c.r.b] else []) ++
      (if m.getLsbD 1 then [c.r.a] else []) ++
      (if m.getLsbD 0 then [c.r.cc] else []) := by
    simp only [stackedBytes, List.reverse_append, reverse_if, List.reverse_cons, List.reverse_nil,
      List.nil_append, List.cons_append, List.append_assoc]
  rw [steps, withoutPc, if_neg Bool.false_ne_true, Cpu.pushed_nil, reversed]
  simp only [Cpu.pushed_pushed]

/-- PULS over bytes that PSHS left. -/
theorem pul_ram (c : Cpu Ram) (saved : Regs) (withoutPc : (c.bus c.r.pc).getLsbD 7 = false)
    (held : c.bus.holds c.r.s (stackedBytes (c.bus c.r.pc) saved)) :
    pul .system c =
      addCyclesEmNm (5 + rlistExtraCycles (c.bus c.r.pc)) (4 + rlistExtraCycles (c.bus c.r.pc))
        (c.past.pulled (maskSize (c.bus c.r.pc)) (restored (c.bus c.r.pc) saved)) := by
  generalize mask : c.bus c.r.pc = m at *
  simp only [stackedBytes, Ram.holds_append, List.length_append, length_if, List.length_cons,
    List.length_nil, Nat.zero_add, Nat.one_mul, Nat.reduceAdd] at held
  obtain ⟨⟨⟨⟨⟨⟨heldCc, heldA⟩, heldB⟩, heldDp⟩, heldX⟩, heldY⟩, heldU⟩ := held
  simp only [← stackAddr_add] at heldB heldDp heldX heldY heldU
  rw [pul, exec_bind, fetch8_ram, mask]
  refine (pull8_if _ (·.cc) saved.cc ?_ ?_).trans ?_
  · exact fun _ => rfl
  · exact heldCc
  refine (pull8_if _ (·.a) saved.a ?_ ?_).trans ?_
  · exact fun _ => rfl
  · exact heldA
  refine (pull8_if _ (·.b) saved.b ?_ ?_).trans ?_
  · exact fun _ => rfl
  · exact heldB
  refine (pull8_if _ (·.dp) saved.dp ?_ ?_).trans ?_
  · exact fun _ => rfl
  · exact heldDp
  refine (pull16_if _ (·.x) saved.x ?_ ?_).trans ?_
  · exact fun _ => rfl
  · exact heldX
  refine (pull16_if _ (·.y) saved.y ?_ ?_).trans ?_
  · exact fun _ => rfl
  · exact heldY
  refine (pull16_if _ (·.u) saved.u ?_ ?_).trans ?_
  · exact fun _ => rfl
  · exact heldU
  refine (congrFun (if_neg (Bool.eq_false_iff.mp withoutPc)) _).trans ?_
  refine congrArg (addCyclesEmNm _ _) ?_
  simp only [Cpu.pulled, stackAddr_add]
  rfl

/-! Operands of JSR. -/

/-- An action that reads `n` bytes at PC, writes no memory, and leaves S alone if it `keeps` it. -/
structure Operand (n : Nat) (keeps : Prop) (act : Exec Ram α) : Prop where
  bus : ∀ c, (act c).2.bus = c.bus
  pc : ∀ c, (act c).2.r.pc = stackAddr c.r.pc n
  s : keeps → ∀ c, (act c).2.r.s = c.r.s

namespace Operand

variable {keeps : Prop} {first : Exec Ram α} {next : α → Exec Ram β}

theorem bind {m n : Nat} (before : Operand m keeps first) (after : ∀ a, Operand n keeps (next a)) :
    Operand (m + n) keeps (first >>= next) where
  bus c := ((after _).bus _).trans (before.bus c)
  pc c := by
    rw [exec_bind, (after _).pc, before.pc, stackAddr_add]
  s keep c := ((after _).s keep _).trans (before.s keep c)

theorem bind_none {n : Nat} (before : Operand 0 keeps first)
    (after : ∀ a, Operand n keeps (next a)) : Operand n keeps (first >>= next) :=
  Nat.zero_add n ▸ before.bind after

theorem ite {condition : Prop} [Decidable condition] {n : Nat} {yes no : Exec Ram α}
    (whenYes : Operand n keeps yes) (whenNo : Operand n keeps no) :
    Operand n keeps (if condition then yes else no) := by
  split
  · exact whenYes
  · exact whenNo

theorem of_same {act : Exec Ram α} (bus : ∀ c, (act c).2.bus = c.bus)
    (pc : ∀ c, (act c).2.r.pc = c.r.pc) (s : keeps → ∀ c, (act c).2.r.s = c.r.s) :
    Operand 0 keeps act :=
  ⟨bus, fun c => (pc c).trans (stackAddr_zero _).symm, s⟩

theorem pure (a : α) : Operand 0 keeps (pure a) :=
  of_same (fun _ => rfl) (fun _ => rfl) fun _ _ => rfl

theorem regs : Operand 0 keeps regs := of_same (fun _ => rfl) (fun _ => rfl) fun _ _ => rfl

theorem getIndexReg (i : BitVec 2) : Operand 0 keeps (getIndexReg i) :=
  of_same (fun _ => rfl) (fun _ => rfl) fun _ _ => rfl

theorem setW (value : Word) : Operand 0 keeps (setW value) :=
  of_same (fun _ => rfl) (fun _ => rfl) fun _ _ => rfl

theorem read16 (addr : Word) : Operand 0 keeps (read16 addr) :=
  of_same (fun _ => rfl) (fun _ => rfl) fun _ _ => rfl

theorem fetch8 : Operand 1 keeps fetch8 := ⟨fun _ => rfl, fun _ => rfl, fun _ _ => rfl⟩

theorem fetch16 : Operand 2 keeps fetch16 := fetch8.bind fun _ => fetch8.bind fun _ => pure _

theorem rel8 : Operand 1 keeps rel8 := fetch8.bind fun _ => pure _

theorem setIndexReg {i : BitVec 2} (apart : keeps → i ≠ 3) (value : Word) :
    Operand 0 keeps (setIndexReg i value) := by
  have cases : ∀ i : BitVec 2, i = 0 ∨ i = 1 ∨ i = 2 ∨ i = 3 := by decide
  rcases cases i with rfl | rfl | rfl | rfl
  · exact of_same (fun _ => rfl) (fun _ => rfl) fun _ _ => rfl
  · exact of_same (fun _ => rfl) (fun _ => rfl) fun _ _ => rfl
  · exact of_same (fun _ => rfl) (fun _ => rfl) fun _ _ => rfl
  · exact of_same (fun _ => rfl) (fun _ => rfl) fun keep => absurd rfl (apart keep)

end Operand

/-- The bytes of the offset that a postbyte's low bits name. -/
def offsetLength : Nat → Nat
  | 0x8 | 0xC => 1
  | 0x9 | 0xD | 0xF => 2
  | _ => 0

/-- The bytes of an indexed operand, its postbyte among them. -/
def indexedLength (pb : Byte) : Nat :=
  if pb &&& 0x80#8 = 0 then 1
  else match pb.toNat with
    | 0x8F | 0xCF | 0xEF | 0x90 | 0xD0 | 0xF0 => 1
    | 0xAF | 0xB0 => 3
    | _ => 1 + offsetLength (pb &&& 0x0F#8).toNat

/-- The operands that move S: `,S+`, `,S++`, `,-S`, `,--S`, and the last three indirect. -/
def movesS (pb : Byte) : Bool :=
  [0xE0#8, 0xE1#8, 0xE2#8, 0xE3#8, 0xF1#8, 0xF2#8, 0xF3#8].contains pb

/-- An increment or decrement of S is one of the listed postbytes. -/
theorem movesS_of_index {pb : Byte} (steady : movesS pb = false) (indexed : pb &&& 0x80#8 ≠ 0)
    (other : pb.toNat ≠ 0xF0) (low : (pb &&& 0x0F#8).toNat ≤ 3) : pb.extractLsb' 5 2 ≠ 3 := by
  revert pb
  decide

theorem indexedLength_w {pb : Byte} {k n : Nat} (found : pb.toNat = k)
    (length : indexedLength (BitVec.ofNat 8 k) = n + 1) : indexedLength pb - 1 = n := by
  rw [← found, BitVec.ofNat_toNat, BitVec.setWidth_eq] at length
  omega

theorem indexedLength_offset {pb : Byte} (indexed : pb &&& 0x80#8 ≠ 0)
    (other : pb.toNat ∉ [0x8F, 0xAF, 0xCF, 0xEF, 0x90, 0xB0, 0xD0, 0xF0]) :
    indexedLength pb - 1 = offsetLength (pb &&& 0x0F#8).toNat := by
  revert pb
  decide

theorem eaIndexed_operand : ∃ rest : Byte → Exec Ram Word, eaIndexed = fetch8 >>= rest ∧
    ∀ pb, Operand (indexedLength pb - 1) (movesS pb = false) (rest pb) := by
  refine ⟨_, rfl, fun pb => ?_⟩
  refine (Operand.of_same (fun _ => rfl) (fun _ => rfl) fun _ _ => rfl).bind_none fun _ => ?_
  refine (Operand.of_same (fun _ => rfl) (fun _ => rfl) fun _ _ => rfl).bind_none fun _ => ?_
  dsimp only
  split
  · next offset =>
      rw [indexedLength, if_pos offset]
      exact (Operand.getIndexReg _).bind_none fun _ => .pure _
  · next indexed =>
      split
      · next found =>
          rw [indexedLength_w found (show _ = 0 + 1 from rfl)]
          exact Operand.regs.bind_none fun _ => .pure _
      · next found =>
          rw [indexedLength_w found (show _ = 2 + 1 from rfl)]
          exact Operand.fetch16.bind fun _ => Operand.regs.bind_none fun _ => .pure _
      · next found =>
          rw [indexedLength_w found (show _ = 0 + 1 from rfl)]
          exact Operand.regs.bind_none fun _ => (Operand.setW _).bind_none fun _ => .pure _
      · next found =>
          rw [indexedLength_w found (show _ = 0 + 1 from rfl)]
          exact Operand.regs.bind_none fun _ => (Operand.setW _).bind_none fun _ => .pure _
      · next found =>
          rw [indexedLength_w found (show _ = 0 + 1 from rfl)]
          exact Operand.regs.bind_none fun _ => Operand.read16 _
      · next found =>
          rw [indexedLength_w found (show _ = 2 + 1 from rfl)]
          exact Operand.fetch16.bind fun _ => Operand.regs.bind_none fun _ => Operand.read16 _
      · next found =>
          rw [indexedLength_w found (show _ = 0 + 1 from rfl)]
          exact Operand.regs.bind_none fun _ => (Operand.setW _).bind_none fun _ => Operand.read16 _
      · next found =>
          rw [indexedLength_w found (show _ = 0 + 1 from rfl)]
          exact Operand.regs.bind_none fun _ => (Operand.setW _).bind_none fun _ => Operand.read16 _
      · next n1 n2 n3 n4 n5 n6 n7 n8 =>
          have length := indexedLength_offset indexed (by
            simp only [List.mem_cons, List.not_mem_nil, or_false, not_or]
            exact ⟨n1, n2, n3, n4, n5, n6, n7, n8⟩)
          have steady : ∀ {k : Nat}, (pb &&& 0x0F#8).toNat = k → k ≤ 3 → movesS pb = false →
              pb.extractLsb' 5 2 ≠ 3 :=
            fun low small steady => movesS_of_index steady indexed n8 (low ▸ small)
          rw [length]
          generalize offset : offsetLength (pb &&& 0x0F#8).toNat = n
          refine Operand.bind (n := 0) ?_ fun _ => .ite (.read16 _) (.pure _)
          split
          · next low =>
              rw [low] at offset
              subst offset
              exact (Operand.getIndexReg _).bind_none fun _ =>
                (Operand.setIndexReg (steady low (by decide)) _).bind_none fun _ => .pure _
          · next low =>
              rw [low] at offset
              subst offset
              exact (Operand.getIndexReg _).bind_none fun _ =>
                (Operand.setIndexReg (steady low (by decide)) _).bind_none fun _ => .pure _
          · next low =>
              rw [low] at offset
              subst offset
              exact (Operand.getIndexReg _).bind_none fun _ =>
                (Operand.setIndexReg (steady low (by decide)) _).bind_none fun _ => .getIndexReg _
          · next low =>
              rw [low] at offset
              subst offset
              exact (Operand.getIndexReg _).bind_none fun _ =>
                (Operand.setIndexReg (steady low (by decide)) _).bind_none fun _ => .getIndexReg _
          · next low =>
              rw [low] at offset
              subst offset
              exact Operand.getIndexReg _
          · next low =>
              rw [low] at offset
              subst offset
              exact (Operand.getIndexReg _).bind_none fun _ => Operand.regs.bind_none fun _ => .pure _
          · next low =>
              rw [low] at offset
              subst offset
              exact (Operand.getIndexReg _).bind_none fun _ => Operand.regs.bind_none fun _ => .pure _
          · next low =>
              rw [low] at offset
              subst offset
              exact (Operand.getIndexReg _).bind_none fun _ => Operand.regs.bind_none fun _ => .pure _
          · next low =>
              rw [low] at offset
              subst offset
              exact Operand.rel8.bind fun _ => (Operand.getIndexReg _).bind_none fun _ => .pure _
          · next low =>
              rw [low] at offset
              subst offset
              exact Operand.fetch16.bind fun _ => (Operand.getIndexReg _).bind_none fun _ => .pure _
          · next low =>
              rw [low] at offset
              subst offset
              exact (Operand.getIndexReg _).bind_none fun _ => Operand.regs.bind_none fun _ => .pure _
          · next low =>
              rw [low] at offset
              subst offset
              exact (Operand.getIndexReg _).bind_none fun _ => Operand.regs.bind_none fun _ => .pure _
          · next low =>
              rw [low] at offset
              subst offset
              exact Operand.rel8.bind fun _ => Operand.regs.bind_none fun _ => .pure _
          · next low =>
              rw [low] at offset
              subst offset
              exact Operand.fetch16.bind fun _ => Operand.regs.bind_none fun _ => .pure _
          · next low =>
              rw [low] at offset
              subst offset
              exact (Operand.getIndexReg _).bind_none fun _ => Operand.regs.bind_none fun _ => .pure _
          · next m0 m1 m2 m3 m4 m5 m6 m7 m8 m9 m10 m11 m12 m13 m14 =>
              have low : (pb &&& 0x0F#8).toNat = 15 := by
                have small : ∀ v : Byte, (v &&& 0x0F#8).toNat ≤ 15 := by decide
                have bound := small pb
                simp only [imp_false] at m0 m1 m2 m3 m4 m5 m6 m7 m8 m9 m10 m11 m12 m13 m14
                omega
              rw [low] at offset
              subst offset
              exact Operand.fetch16

/-! The operations that open, and those that close. -/

inductive Call
  | bsr | lbsr | jsrDirect | jsrIndexed | jsrExtended
  deriving DecidableEq, Repr

def Call.opcode : Call → Byte
  | .bsr => 0x8D
  | .lbsr => 0x17
  | .jsrDirect => 0x9D
  | .jsrIndexed => 0xAD
  | .jsrExtended => 0xBD

/-- The bytes of a call that is at PC. -/
def Call.length (call : Call) (c : Cpu Ram) : Nat :=
  match call with
  | .bsr | .jsrDirect => 2
  | .lbsr | .jsrExtended => 3
  | .jsrIndexed => 1 + indexedLength (c.bus (c.r.pc + 1))

def Call.returnsTo (call : Call) (c : Cpu Ram) : Word := stackAddr c.r.pc (call.length c)

inductive Opening
  | registers (mask : Byte)
  | w
  | call (form : Call)
  deriving DecidableEq, Repr

namespace Opening

def code : Opening → List Byte
  | .registers mask => [0x34, mask]
  | .w => [0x10, 0x38]
  | .call form => [form.opcode]

def closing : Opening → List Byte
  | .registers mask => [0x35, mask]
  | .w => [0x10, 0x39]
  | .call _ => [0x39]

/-- A mask has no PC. -/
def Listed : Opening → Prop
  | .registers mask => mask.getLsbD 7 = false
  | _ => True

/-- The operand of JSR leaves S alone. -/
def Steady (opening : Opening) (c : Cpu Ram) : Prop :=
  opening = .call .jsrIndexed → movesS (c.bus (c.r.pc + 1)) = false

/-- What is pushed, from the stack pointer up. -/
def bytes (opening : Opening) (c : Cpu Ram) : List Byte :=
  match opening with
  | .registers mask => stackedBytes mask c.r
  | .w => [c.r.e, c.r.f]
  | .call form => [hiByte (form.returnsTo c), loByte (form.returnsTo c)]

def size : Opening → Nat
  | .registers mask => maskSize mask
  | _ => 2

theorem length_bytes (opening : Opening) (c : Cpu Ram) :
    (opening.bytes c).length = opening.size := by
  cases opening with
  | registers mask => exact length_stackedBytes mask c.r
  | w => rfl
  | call form => rfl

/-- The registers after closing what was opened at `c`, from those before. -/
def restore (opening : Opening) (c : Cpu Ram) (r : Regs) : Regs :=
  match opening with
  | .registers mask => { restored mask c.r r with pc := r.pc + 2 }
  | .w => { r with e := c.r.e, f := c.r.f, pc := r.pc + 2 }
  | .call form => { r with pc := form.returnsTo c }

end Opening

/-- One step, of the instruction `code`. -/
structure Executes (code : List Byte) (c c' : Cpu Ram) : Prop where
  running : c.halted = false
  idle : c.lines.serviceable c.r = false
  awake : c.waitSync = false
  code : c.bus.holds c.r.pc code
  after : c' = (step c).2

namespace Executes

variable {c c' : Cpu Ram}

theorem r_bus {opcode : Byte} {rest : List Byte} (executes : Executes (opcode :: rest) c c') :
    c'.r = (execute opcode c.fetched).2.r ∧ c'.bus = (execute opcode c.fetched).2.bus := by
  obtain ⟨running, idle, awake, ⟨code, -⟩, rfl⟩ := executes
  have body := stepBody_ram c running idle awake
  rw [code] at body
  rw [step_r, step_bus, body]
  exact ⟨rfl, rfl⟩

theorem postbyte {opcode second : Byte} (executes : Executes [opcode, second] c c') :
    c.fetched.bus c.fetched.r.pc = second := executes.code.2.1

end Executes

theorem callTo_ram {ea : Exec Ram Word} {n : Nat} {c : Cpu Ram} (bus : (ea c).2.bus = c.bus)
    (pc : (ea c).2.r.pc = stackAddr c.r.pc n) (s : (ea c).2.r.s = c.r.s) :
    (callTo ea c).2.r.s = c.r.s - 2#16 ∧
      (callTo ea c).2.bus = c.bus.push c.r.s
        [loByte (stackAddr c.r.pc n), hiByte (stackAddr c.r.pc n)] := by
  rw [callTo, exec_bind, exec_bind, regs_exec, exec_bind, push16_ram, pc, setPc, modifyRegs_exec]
  constructor
  · change (ea c).2.r.s - 2#16 = _
    rw [s]
  · change (ea c).2.bus.push (ea c).2.r.s _ = _
    rw [bus, s]

/-- BSR and LBSR. -/
theorem callBy_ram {offset : Exec Ram Word} {n : Nat} (operand : Operand n True offset)
    (em nm : Nat) (c : Cpu Ram) :
    let out := ((do
      let off ← offset
      push16 .system (← regs).pc
      branchRel off
      addCyclesEmNm em nm : Exec Ram Unit) c).2
    out.r.s = c.r.s - 2#16 ∧
      out.bus = c.bus.push c.r.s [loByte (stackAddr c.r.pc n), hiByte (stackAddr c.r.pc n)] := by
  have bus := operand.bus c
  have pc := operand.pc c
  have s := operand.s trivial c
  dsimp only
  rw [exec_bind, exec_bind, regs_exec, exec_bind, push16_ram, pc]
  constructor
  · change (offset c).2.r.s - 2#16 = _
    rw [s]
  · change (offset c).2.bus.push (offset c).2.r.s _ = _
    rw [bus, s]

theorem one_le_indexedLength (pb : Byte) : 1 ≤ indexedLength pb := by
  revert pb
  decide

theorem eaIndexed_ram (c : Cpu Ram) :
    (eaIndexed c).2.bus = c.bus ∧
      (eaIndexed c).2.r.pc = stackAddr c.r.pc (indexedLength (c.bus c.r.pc)) ∧
      (movesS (c.bus c.r.pc) = false → (eaIndexed c).2.r.s = c.r.s) := by
  obtain ⟨rest, split, operand⟩ := eaIndexed_operand
  have run : eaIndexed c = rest (c.bus c.r.pc) c.past := congrFun split c
  have length : 1 + (indexedLength (c.bus c.r.pc) - 1) = indexedLength (c.bus c.r.pc) :=
    Nat.add_sub_cancel' (one_le_indexedLength _)
  rw [run]
  refine ⟨(operand _).bus c.past, ?_, fun steady => (operand _).s steady c.past⟩
  exact ((operand _).pc c.past).trans
    ((stackAddr_add c.r.pc 1 _).trans (congrArg (stackAddr c.r.pc) length))

theorem pc_fetched (c : Cpu Ram) (n : Nat) :
    stackAddr c.fetched.r.pc n = stackAddr c.r.pc (1 + n) := stackAddr_add c.r.pc 1 n

/-- What an opening leaves on the stack. -/
theorem Executes.opened {opening : Opening} {c a : Cpu Ram} (listed : opening.Listed)
    (steady : opening.Steady c) (executes : Executes opening.code c a) :
    a.r.s = c.r.s - BitVec.ofNat 16 opening.size ∧
      a.bus = c.bus.push c.r.s (opening.bytes c).reverse := by
  cases opening with
  | registers mask =>
      obtain ⟨r, bus⟩ := executes.r_bus
      have found := executes.postbyte
      have run : execute 0x34 c.fetched = _ := psh_ram c.fetched (found ▸ listed)
      rw [found] at run
      rw [r, bus, run]
      refine ⟨congrArg (fun n => c.r.s - BitVec.ofNat 16 n) ?_, rfl⟩
      exact List.length_reverse.trans (length_stackedBytes mask c.r)
  | w =>
      obtain ⟨r, bus⟩ := executes.r_bus
      have found := executes.postbyte
      have page : execute 0x10 c.fetched =
          executePage10 (c.fetched.bus c.fetched.r.pc) c.fetched.past := rfl
      rw [found] at page
      have run : executePage10 0x38 c.fetched.past = _ :=
        congrArg (fun out : Unit × Cpu Ram => addCycles 6 out.2) (push16_ram c.r.w c.fetched.past)
      rw [r, bus, page, run]
      refine ⟨rfl, ?_⟩
      change c.bus.push c.r.s [loByte c.r.w, hiByte c.r.w] = c.bus.push c.r.s [c.r.f, c.r.e]
      rw [Regs.w, loByte_word, hiByte_word]
  | call form =>
      obtain ⟨r, bus⟩ := executes.r_bus
      rw [r, bus]
      cases form with
      | bsr =>
          have run := callBy_ram Operand.rel8 7 6 c.fetched
          rw [pc_fetched] at run
          exact run
      | lbsr =>
          have run := callBy_ram Operand.fetch16 9 7 c.fetched
          rw [pc_fetched] at run
          exact run
      | jsrDirect =>
          have ea : Operand 1 True eaDirect := .bind_none .regs fun _ => .bind .fetch8 fun _ => .pure _
          have run := callTo_ram (ea.bus c.fetched) (ea.pc c.fetched) (ea.s trivial c.fetched)
          rw [pc_fetched] at run
          exact run
      | jsrIndexed =>
          obtain ⟨bus, pc, s⟩ := eaIndexed_ram c.fetched
          have run := callTo_ram bus pc (s (steady rfl))
          rw [pc_fetched] at run
          exact run
      | jsrExtended =>
          have ea : Operand 2 True eaExtended := .fetch16
          have run := callTo_ram (ea.bus c.fetched) (ea.pc c.fetched) (ea.s trivial c.fetched)
          rw [pc_fetched] at run
          exact run

theorem add_one_one (v : Word) : v + 1 + 1 = v + 2 := BitVec.add_assoc v 1 1

/-- What a closing restores, over what the opening left. -/
theorem Executes.closed {opening : Opening} {c b c' : Cpu Ram} (listed : opening.Listed)
    (executes : Executes opening.closing b c') (held : b.bus.holds b.r.s (opening.bytes c)) :
    c'.bus = b.bus ∧
      c'.r = { opening.restore c b.r with s := stackAddr b.r.s opening.size } := by
  cases opening with
  | registers mask =>
      obtain ⟨r, bus⟩ := executes.r_bus
      have found := executes.postbyte
      have run : execute 0x35 b.fetched = _ :=
        pul_ram b.fetched c.r (found ▸ listed) (by rw [found]; exact held)
      rw [found] at run
      rw [r, bus, run]
      refine ⟨rfl, ?_⟩
      change { restored mask c.r b.r with
        pc := b.r.pc + 1 + 1, s := stackAddr b.r.s (maskSize mask) } = _
      rw [add_one_one]
      rfl
  | w =>
      obtain ⟨r, bus⟩ := executes.r_bus
      have found := executes.postbyte
      have page : execute 0x10 b.fetched =
          executePage10 (b.fetched.bus b.fetched.r.pc) b.fetched.past := rfl
      rw [found] at page
      obtain ⟨high, low, -⟩ := held
      rw [r, bus, page]
      refine ⟨rfl, ?_⟩
      change { (b.r.setW (word (b.bus b.r.s) (b.bus (b.r.s + 1)))) with
        pc := b.r.pc + 1 + 1, s := b.r.s + 1 + 1 } = _
      rw [high, low, Regs.setW, hiByte_word, loByte_word, add_one_one, add_one_one]
      rfl
  | call form =>
      obtain ⟨r, bus⟩ := executes.r_bus
      obtain ⟨high, low, -⟩ := held
      rw [r, bus]
      refine ⟨rfl, ?_⟩
      change { b.r with
        pc := word (b.bus b.r.s) (b.bus (b.r.s + 1)), s := b.r.s + 1 + 1 } = _
      rw [high, low, word_hiByte_loByte, add_one_one]
      rfl

/-! Runs. -/

/-- The bytes from the stack pointer up that are still to be pulled. -/
def Keeps (depth : Nat) (c c' : Cpu Ram) : Prop :=
  c'.r.s = c.r.s ∧ ∀ k < depth, c'.bus (stackAddr c.r.s k) = c.bus (stackAddr c.r.s k)

/-- Well-nested sequences, inside which `depth` bytes stay pushed. Where a pair closes, `law`
holds of what opened it, the CPU before that, and the CPU before and after the closing. -/
inductive Nested (law : Opening → Cpu Ram → Cpu Ram → Cpu Ram → Prop) :
    Nat → Cpu Ram → Cpu Ram → Prop
  | change {depth : Nat} {c c' : Cpu Ram} (keeps : Keeps depth c c') : Nested law depth c c'
  | append {depth : Nat} {c m c' : Cpu Ram} (first : Nested law depth c m)
      (second : Nested law depth m c') : Nested law depth c c'
  | pair {depth : Nat} {opening : Opening} {c a b c' : Cpu Ram} (listed : opening.Listed)
      (fits : depth + opening.size < 65536) (opens : Executes opening.code c a)
      (inside : Nested law (depth + opening.size) a b) (closes : Executes opening.closing b c')
      (lawful : law opening c b c') : Nested law depth c c'

/-- A closing restores just what its opening saved, and the stack pointer. -/
def Opening.Restores (opening : Opening) (c b c' : Cpu Ram) : Prop :=
  c'.r = { opening.restore c b.r with s := c.r.s }

theorem Keeps.trans {depth : Nat} {c m c' : Cpu Ram} (first : Keeps depth c m)
    (second : Keeps depth m c') : Keeps depth c c' := by
  refine ⟨second.1.trans first.1, fun k less => ?_⟩
  have later := second.2 k less
  rw [first.1] at later
  exact later.trans (first.2 k less)

theorem pushed_back (sp : Word) (n : Nat) : stackAddr (sp - BitVec.ofNat 16 n) n = sp :=
  BitVec.sub_add_cancel sp _

theorem stackAddr_above {sp : Word} {k i : Nat} (less : k + i + 1 < 65536) :
    stackAddr sp k ≠ sp - 1 - BitVec.ofNat 16 i := by
  rw [stackAddr]
  bv_omega

/-- A pair restores, if what is inside it keeps the bytes that it pushed. -/
theorem Executes.pair {opening : Opening} {depth : Nat} {c a b c' : Cpu Ram}
    (listed : opening.Listed) (steady : opening.Steady c) (fits : depth + opening.size < 65536)
    (opens : Executes opening.code c a) (inside : Keeps (depth + opening.size) a b)
    (closes : Executes opening.closing b c') :
    Keeps depth c c' ∧ opening.Restores c b c' := by
  obtain ⟨s, bus⟩ := opens.opened listed steady
  have length := opening.length_bytes c
  have back := pushed_back c.r.s opening.size
  rw [← s] at back
  have pushed : a.bus.holds a.r.s (opening.bytes c) := by
    have held := c.bus.holds_push c.r.s (opening.bytes c).reverse (by
      rw [List.length_reverse, length]
      omega)
    rw [List.length_reverse, length, List.reverse_reverse] at held
    rw [bus, s]
    exact held
  have held : b.bus.holds b.r.s (opening.bytes c) := by
    rw [Ram.holds_iff] at pushed ⊢
    intro k bound
    rw [inside.1, inside.2 k (by omega)]
    exact pushed k bound
  obtain ⟨busClosed, rClosed⟩ := closes.closed listed held
  rw [inside.1, back] at rClosed
  refine ⟨⟨by rw [rClosed], fun k less => ?_⟩, rClosed⟩
  have above : stackAddr c.r.s k = stackAddr a.r.s (opening.size + k) := by
    rw [← back, stackAddr_add]
  rw [busClosed, above, inside.2 _ (by omega), bus, ← above]
  refine c.bus.push_outside _ _ fun i bound => ?_
  rw [List.length_reverse, length] at bound
  exact stackAddr_above (by omega)

/-- `PSHS X,A` and `PULS X,A` around a BSR and its RTS. -/
def nest : Cpu Ram :=
  { r := { pc := 0x1000, s := 1, x := 0xBEEF, a := 7 }
    bus := fun a =>
      [0x34, 0x12, 0x8D, 0x02, 0x35, 0x12, 0x39].getD (a - 0x1000).toNat 0 }

/-- `JSR ,--S` at $1000, and RTS everywhere else. -/
def predecrement : Cpu Ram :=
  { r := { pc := 0x1000, s := 0x8000 }
    bus := fun a => if a = 0x1000 then 0xAD else if a = 0x1001 then 0xE3 else 0x39 }

end Pugputer.Hd6309

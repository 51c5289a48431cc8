import Pugputer.Hd6309.Ram

namespace Pugputer.Hd6309

/-! The frames an interrupt pushes and RTI pulls. -/

inductive FrameKind
  | full | short
  deriving DecidableEq, Repr

namespace FrameKind

/-- The E flag records the kind of frame. -/
def mark (kind : FrameKind) (r : Regs) : Regs :=
  r.setFlag ccE (kind = .full)

/-- The bytes of a frame in the order they are pushed. -/
def bytes (kind : FrameKind) (r : Regs) : List Byte :=
  match kind with
  | .full =>
      [loByte r.pc, hiByte r.pc, loByte r.u, hiByte r.u, loByte r.y, hiByte r.y,
        loByte r.x, hiByte r.x, r.dp] ++
      (if r.native then [r.f, r.e] else []) ++ [r.b, r.a, r.cc]
  | .short => [loByte r.pc, hiByte r.pc, r.cc]

def size (kind : FrameKind) (nm : Bool) : Nat :=
  match kind with
  | .full => if nm then 14 else 12
  | .short => 3

@[simp] theorem length_bytes (kind : FrameKind) (r : Regs) :
    (kind.bytes r).length = kind.size r.native := by
  cases kind with
  | full => cases mode : r.native <;> simp [bytes, size, mode]
  | short => rfl

theorem size_le (kind : FrameKind) (nm : Bool) : kind.size nm ≤ 14 := by
  cases kind <;> cases nm <;> simp [size]

@[simp] theorem native_mark (kind : FrameKind) (r : Regs) :
    (kind.mark r).native = r.native := rfl

@[simp] theorem s_mark (kind : FrameKind) (r : Regs) : (kind.mark r).s = r.s := rfl

end FrameKind

/-- The CPU after pushing `bytes`, in that order, on the system stack. -/
def Cpu.pushed (c : Cpu Ram) (bytes : List Byte) : Cpu Ram :=
  { c with
    r := { c.r with s := c.r.s - BitVec.ofNat 16 bytes.length }
    bus := c.bus.push c.r.s bytes }

theorem Cpu.pushed_pushed (c : Cpu Ram) (first second : List Byte) :
    (c.pushed first).pushed second = c.pushed (first ++ second) := by
  simp [Cpu.pushed, Ram.push_append, BitVec.ofNat_add, BitVec.sub_sub]

theorem push8_ram (value : Byte) (c : Cpu Ram) :
    push8 .system value c = ((), c.pushed [value]) := rfl

theorem push16_ram (value : Word) (c : Cpu Ram) :
    push16 .system value c = ((), c.pushed [loByte value, hiByte value]) := by
  rw [← List.singleton_append, ← Cpu.pushed_pushed]
  rfl

/-- The CPU with a whole frame on its stack. -/
def Cpu.stacked (c : Cpu Ram) (kind : FrameKind) : Cpu Ram :=
  Cpu.pushed { c with r := kind.mark c.r } (kind.bytes (kind.mark c.r))

@[simp] theorem stacked_pending (c : Cpu Ram) (kind : FrameKind) :
    (c.stacked kind).cwaiPushedPending = c.cwaiPushedPending := rfl

theorem pushPartialSet_ram (c : Cpu Ram) :
    pushPartialSet c = ((), c.stacked .short) := by
  simp only [pushPartialSet, exec_bind, setFlag_exec, regs_exec, push16_ram,
    push8_ram, Cpu.pushed_pushed]
  rfl

theorem pushFullSet_ram (c : Cpu Ram) :
    pushFullSet c = ((), c.stacked .full) := by
  have modeKept : ∀ bytes : List Byte,
      (Cpu.pushed { c with r := c.r.setFlag ccE true } bytes).r.native =
        c.r.native := fun _ => rfl
  simp only [pushFullSet, exec_bind, setFlag_exec, regs_exec, push16_ram,
    push8_ram, Cpu.pushed_pushed, native_exec, modeKept, exec_ite]
  cases mode : c.r.native with
  | false =>
      simp only [Bool.false_eq_true, if_false, Cpu.stacked, FrameKind.bytes,
        FrameKind.native_mark, mode]
      rfl
  | true =>
      simp only [if_true, Cpu.stacked, FrameKind.bytes, FrameKind.native_mark, mode]
      rfl

def FrameKind.of (fullStack : Bool) : FrameKind :=
  if fullStack then .full else .short

/-- The CPU with `vector` taken, its masks raised. -/
def Cpu.vectored (c : Cpu Ram) (vector : Word) (mask : Byte) : Cpu Ram :=
  { c with
    cwaiPushedPending := false
    r := { c.r with
      cc := c.r.cc ||| mask
      pc := word (c.bus vector) (c.bus (vector + 1)) } }

/-- CWAI has already pushed a full frame when its interrupt comes. -/
def Cpu.framed (c : Cpu Ram) (kind : FrameKind) : Cpu Ram :=
  if c.cwaiPushedPending then c else c.stacked kind

theorem enterInterrupt_ram (vector : Word) (mask : Byte) (fullStack : Bool)
    (c : Cpu Ram) :
    enterInterrupt vector mask fullStack c =
      ((), (c.framed (.of fullStack)).vectored vector mask) := by
  obtain ⟨r, bus, lines, waitSync, halted, pending, _, _, _, _, _, _⟩ := c
  cases pending with
  | true => rfl
  | false =>
      cases fullStack with
      | true =>
          simp only [enterInterrupt, exec_bind, exec_get, exec_modify, Bool.not_false,
            if_true, pushFullSet_ram, modifyRegs_exec, read16_ram, Cpu.vectored,
            Cpu.framed, FrameKind.of, Bool.false_eq_true, if_false, stacked_pending]
      | false =>
          simp only [enterInterrupt, exec_bind, exec_get, exec_modify, Bool.not_false,
            Bool.false_eq_true, if_true, if_false, pushPartialSet_ram, modifyRegs_exec,
            read16_ram, Cpu.vectored, Cpu.framed, FrameKind.of, stacked_pending]

/-! Stacked bytes read back from the new stack pointer up. -/

def Ram.holds (m : Ram) (addr : Word) : List Byte → Prop
  | [] => True
  | value :: rest => m addr = value ∧ m.holds (addr + 1) rest

theorem Ram.holds_iff (m : Ram) (addr : Word) (bytes : List Byte) :
    m.holds addr bytes ↔
      ∀ k (bound : k < bytes.length), m (stackAddr addr k) = bytes[k] := by
  induction bytes generalizing addr with
  | nil => simp [Ram.holds]
  | cons value rest ih =>
      have shift : ∀ k, stackAddr (addr + 1) k = stackAddr addr (k + 1) := by
        intro k
        rw [← stackAddr_zero (addr + 1), stackAddr_add, ← stackAddr_zero addr,
          ← stackAddr_succ, stackAddr_add, stackAddr_zero]
        congr 1
        omega
      constructor
      · rintro ⟨head, tail⟩ k bound
        cases k with
        | zero => simpa [stackAddr_zero] using head
        | succ k =>
            have found := (ih (addr + 1)).mp tail k (by simpa using bound)
            rw [← shift, found, List.getElem_cons_succ]
      · intro all
        have head := all 0 (by simp)
        rw [stackAddr_zero] at head
        refine ⟨head, (ih _).mpr ?_⟩
        intro k bound
        rw [shift, all (k + 1) (by simpa using bound), List.getElem_cons_succ]

theorem Ram.holds_push (m : Ram) (sp : Word) (bytes : List Byte)
    (fits : bytes.length ≤ 65536) :
    (m.push sp bytes).holds (sp - BitVec.ofNat 16 bytes.length) bytes.reverse := by
  rw [Ram.holds_iff]
  intro k bound
  have inside : k < bytes.length := by simpa using bound
  rw [Ram.push_stackAddr m sp bytes fits inside, List.getElem_reverse]

/-- The registers RTI loads from a frame that saved `saved`. -/
def FrameKind.restore (kind : FrameKind) (saved r : Regs) : Regs :=
  match kind with
  | .full =>
      { r with
        cc := saved.cc, a := saved.a, b := saved.b
        e := if saved.native then saved.e else r.e
        f := if saved.native then saved.f else r.f
        dp := saved.dp, x := saved.x, y := saved.y, u := saved.u, pc := saved.pc }
  | .short => { r with cc := saved.cc, pc := saved.pc }

theorem FrameKind.restore_fetched (kind : FrameKind) (saved r : Regs) (pc : Word) :
    kind.restore saved { r with pc } = kind.restore saved r := by
  cases kind <;> rfl

theorem FrameKind.restore_mark (kind : FrameKind) (saved r : Regs) :
    kind.restore (kind.mark saved) r = kind.mark (kind.restore saved r) := by
  cases kind <;> rfl

/-- Restoring over the registers of the handler's entry undoes all but the stack
pointer. -/
theorem FrameKind.restore_entered (kind : FrameKind) (saved : Regs) (s pc : Word)
    (cc : Byte) :
    kind.restore saved { kind.mark saved with s, cc, pc } = { saved with s } := by
  cases kind with
  | full => simp [restore, mark, Regs.setFlag]
  | short => rfl

theorem FrameKind.getFlag_mark (kind : FrameKind) (r : Regs) :
    (kind.mark r).getFlag ccE = decide (kind = .full) :=
  r.getFlag_setFlag _ (by decide)

/-! The three frames as they lie in memory, from the stack pointer up. -/

theorem FrameKind.reverse_bytes_short (r : Regs) :
    (FrameKind.short.bytes r).reverse = [r.cc, hiByte r.pc, loByte r.pc] := rfl

theorem FrameKind.reverse_bytes_emulation (r : Regs) (mode : r.native = false) :
    (FrameKind.full.bytes r).reverse =
      [r.cc, r.a, r.b, r.dp, hiByte r.x, loByte r.x, hiByte r.y, loByte r.y,
        hiByte r.u, loByte r.u, hiByte r.pc, loByte r.pc] := by
  simp [bytes, mode]

theorem FrameKind.reverse_bytes_native (r : Regs) (mode : r.native = true) :
    (FrameKind.full.bytes r).reverse =
      [r.cc, r.a, r.b, r.e, r.f, r.dp, hiByte r.x, loByte r.x, hiByte r.y, loByte r.y,
        hiByte r.u, loByte r.u, hiByte r.pc, loByte r.pc] := by
  simp [bytes, mode]

theorem rti_ram (c : Cpu Ram) (kind : FrameKind) (saved : Regs)
    (marked : saved.getFlag ccE = decide (kind = .full))
    (mode : c.r.native = saved.native)
    (held : c.bus.holds c.r.s (kind.bytes saved).reverse) :
    (rti c).2.bus = c.bus ∧
    (rti c).2.r =
      { kind.restore saved c.r with s := stackAddr c.r.s (kind.size saved.native) } := by
  cases kind with
  | short =>
      rw [FrameKind.reverse_bytes_short] at held
      obtain ⟨hcc, hpcHi, hpcLo, -⟩ := held
      have plain : ¬ saved.cc &&& ccE ≠ 0 := by
        simpa [Regs.getFlag] using marked
      simp only [rti, exec_bind, pull8_ram, modifyRegs_exec, hcc, plain, if_false, pull16To,
        pull16_ram, addCycles, hpcHi, hpcLo, word_hiByte_loByte, true_and,
        FrameKind.restore, FrameKind.size, stackAddr_succ, stackAddr_zero]
  | full =>
      have entire : saved.cc &&& ccE ≠ 0 := by
        simpa [Regs.getFlag] using marked
      cases native_eq : saved.native with
      | false =>
          rw [FrameKind.reverse_bytes_emulation saved native_eq] at held
          obtain ⟨hcc, ha, hb, hdp, hxHi, hxLo, hyHi, hyLo, huHi, huLo, hpcHi, hpcLo, -⟩ :=
            held
          rw [native_eq] at mode
          rw [Regs.native] at mode native_eq
          simp only [rti, exec_bind, pull8_ram, modifyRegs_exec, hcc, entire,
            ne_eq, not_false_eq_true, if_true, pull8To, pull16To, pull16_ram, addCyclesEmNm, native_exec,
            Regs.native, mode, native_eq, Bool.false_eq_true, if_false, ha, hb, hdp, hxHi, hxLo, hyHi,
            hyLo, huHi, huLo, hpcHi, hpcLo, word_hiByte_loByte, true_and,
            FrameKind.restore, FrameKind.size, stackAddr_succ, stackAddr_zero]
      | true =>
          rw [FrameKind.reverse_bytes_native saved native_eq] at held
          obtain ⟨hcc, ha, hb, he, hf, hdp, hxHi, hxLo, hyHi, hyLo, huHi, huLo, hpcHi,
            hpcLo, -⟩ := held
          rw [native_eq] at mode
          rw [Regs.native] at mode native_eq
          simp only [rti, exec_bind, pull8_ram, modifyRegs_exec, hcc, entire, ne_eq,
            not_false_eq_true, if_true, pull8To, pull16To, pull16_ram, addCyclesEmNm,
            native_exec, Regs.native, mode, native_eq, ha, hb, he, hf, hdp, hxHi, hxLo, hyHi, hyLo,
            huHi, huLo, hpcHi, hpcLo, word_hiByte_loByte, true_and, FrameKind.restore,
            FrameKind.size, stackAddr_succ, stackAddr_zero]

/-! Taking a request. -/

/-- A full frame, unless FIRQ is taken with MD.1 clear. -/
def requestKind (lines : Lines) (r : Regs) : FrameKind :=
  if lines.nmiPending then .full
  else if lines.firqLine && !r.getFlag ccF then .of (r.md &&& mdFirqNative != 0)
  else .full

/-- What taking a request leaves: the frame, if none was pushed ahead, then the
masks raised and the vector loaded. -/
structure Taken (c c' : Cpu Ram) : Prop where
  regs : ∃ cc pc, c'.r = { (c.framed (requestKind c.lines c.r)).r with cc, pc }
  bus : c'.bus = (c.framed (requestKind c.lines c.r)).bus
  halted : c'.halted = c.halted
  awake : c'.waitSync = false

private theorem taken_of_enter (c ready : Cpu Ram) {fullStack : Bool}
    (vector : Word) (mask : Byte) (cycles : Nat)
    (sameRegs : ready.r = c.r) (sameBus : ready.bus = c.bus)
    (samePending : ready.cwaiPushedPending = c.cwaiPushedPending)
    (sameHalted : ready.halted = c.halted) (awake : ready.waitSync = false)
    (kind : requestKind c.lines c.r = .of fullStack) :
    Taken c { (enterInterrupt vector mask fullStack ready).2 with cycles } := by
  rw [enterInterrupt_ram]
  have sameFrame :
      (ready.framed (.of fullStack)).r = (c.framed (.of fullStack)).r ∧
      (ready.framed (.of fullStack)).bus = (c.framed (.of fullStack)).bus ∧
      (ready.framed (.of fullStack)).halted = c.halted ∧
      (ready.framed (.of fullStack)).waitSync = false := by
    cases pending : c.cwaiPushedPending with
    | true => simp [Cpu.framed, samePending, pending, sameRegs, sameBus, sameHalted, awake]
    | false =>
        simp [Cpu.framed, samePending, pending, Cpu.stacked, Cpu.pushed, sameRegs, sameBus,
          sameHalted, awake]
  obtain ⟨framedRegs, framedBus, framedHalted, framedAwake⟩ := sameFrame
  exact {
    regs := ⟨_, _, by rw [kind, ← framedRegs]; rfl⟩
    bus := by rw [kind, ← framedBus]; rfl
    halted := framedHalted
    awake := framedAwake }

theorem serviceInterrupts_taken (c : Cpu Ram)
    (ready : c.lines.serviceable c.r = true) :
    (serviceInterrupts c).1 = true ∧ Taken c (serviceInterrupts c).2 := by
  rw [serviceInterrupts, exec_bind, exec_get]
  cases nmi : c.lines.nmiPending with
  | true =>
      have kind : requestKind c.lines c.r = .of true := by
        simp [requestKind, nmi, FrameKind.of]
      simp only [exec_bind, if_true, exec_modify,
        addCyclesEmNm, exec_pure, true_and]
      exact taken_of_enter c
        { c with lines := { c.lines with nmiPending := false }, waitSync := false }
        _ _ _ rfl rfl rfl rfl rfl kind
  | false =>
      cases firq : c.lines.firqLine && !c.r.getFlag ccF with
      | true =>
          cases full : c.r.md &&& mdFirqNative != 0 with
          | true =>
              have kind : requestKind c.lines c.r = .of true := by
                simp only [requestKind, nmi, firq, full, Bool.false_eq_true, if_false, if_true]
              simp only [exec_bind, if_true, exec_modify, Bool.false_eq_true, if_false,
                addCyclesEmNm, exec_pure, true_and]
              exact taken_of_enter c { c with waitSync := false }
                _ _ _ rfl rfl rfl rfl rfl kind
          | false =>
              have kind : requestKind c.lines c.r = .of false := by
                simp only [requestKind, nmi, firq, full, Bool.false_eq_true, if_false, if_true]
              simp only [exec_bind, if_true, exec_modify, Bool.false_eq_true, if_false,
                addCyclesEmNm, exec_pure, true_and]
              exact taken_of_enter c { c with waitSync := false }
                _ _ _ rfl rfl rfl rfl rfl kind
      | false =>
          have irq : (c.lines.irqLine && !c.r.getFlag ccI) = true := by
            simpa only [Lines.serviceable, nmi, firq, Bool.false_or] using ready
          have kind : requestKind c.lines c.r = .of true := by
            simp only [requestKind, nmi, firq, FrameKind.of, Bool.false_eq_true, if_false,
              if_true]
          simp only [exec_bind, irq, if_true, exec_modify, Bool.false_eq_true, if_false,
            addCyclesEmNm, exec_pure, true_and]
          exact taken_of_enter c { c with waitSync := false }
            _ _ _ rfl rfl rfl rfl rfl kind

private theorem begun_framed (c : Cpu Ram) (kind : FrameKind) :
    (c.begun.framed kind).r = (c.framed kind).r ∧
      (c.begun.framed kind).bus = (c.framed kind).bus := by
  cases pending : c.cwaiPushedPending with
  | true => simp [Cpu.framed, Cpu.begun, pending]
  | false => simp [Cpu.framed, Cpu.begun, pending, Cpu.stacked, Cpu.pushed]

theorem step_taken (c : Cpu Ram) (running : c.halted = false)
    (ready : c.lines.serviceable c.r = true) : Taken c (step c).2 := by
  obtain ⟨served, taken⟩ := serviceInterrupts_taken c.begun ready
  rw [← stepBody_service c running served] at taken
  obtain ⟨sameRegs, sameBus⟩ := begun_framed c (requestKind c.lines c.r)
  obtain ⟨cc, pc, regs⟩ := taken.regs
  exact {
    regs := ⟨cc, pc, by rw [step_r, regs, ← sameRegs]; rfl⟩
    bus := by rw [step_bus, taken.bus, ← sameBus]; rfl
    halted := by rw [step_halted, taken.halted]; rfl
    awake := by rw [step_waitSync, taken.awake] }

/-! The CPU about to take a request whose RTI must lead back to `before`. -/

/-- Registers and memory are those of `before` with one frame pushed. -/
structure HasFrame (kind : FrameKind) (before : Regs) (memory : Ram) (c : Cpu Ram) :
    Prop where
  regs : c.r =
    { kind.mark before with s := before.s - BitVec.ofNat 16 (kind.size before.native) }
  bus : c.bus = memory.push before.s (kind.bytes (kind.mark before))

theorem stacked_hasFrame {before : Regs} {memory : Ram} {c : Cpu Ram} (kind : FrameKind)
    (regs : c.r = before) (bus : c.bus = memory) :
    HasFrame kind before memory (c.stacked kind) := by
  subst regs bus
  exact ⟨by simp [Cpu.stacked, Cpu.pushed], rfl⟩

theorem HasFrame.congr {kind : FrameKind} {before : Regs} {memory : Ram}
    {c c' : Cpu Ram} (framed : HasFrame kind before memory c)
    (regs : c'.r = c.r) (bus : c'.bus = c.bus) : HasFrame kind before memory c' :=
  ⟨regs.trans framed.regs, bus.trans framed.bus⟩

/-- A CPU waiting in CWAI: nothing moves but its request lines, until one of
them is serviceable. -/
inductive Waits : Cpu Ram → Cpu Ram → Prop
  | refl (c : Cpu Ram) : Waits c c
  | idle {c waiting : Cpu Ram} : Waits c waiting →
      waiting.lines.serviceable waiting.r = false → Waits c (step waiting).2
  | request {c waiting : Cpu Ram} (lines : Lines) : Waits c waiting →
      Waits c { waiting with lines }

/-- `Arrives before memory kind c`: in `c` a request is about to be taken over a
frame of this kind, and `before` and `memory` are what it interrupts. -/
inductive Arrives : Regs → Ram → FrameKind → Cpu Ram → Prop
  | running (c : Cpu Ram) : c.halted = false → c.cwaiPushedPending = false →
      c.lines.serviceable c.r = true →
      Arrives c.r c.bus (requestKind c.lines c.r) c
  | waiting (c : Cpu Ram) {waiting : Cpu Ram} : c.halted = false →
      c.waitSync = false → c.lines.serviceable c.r = false →
      c.bus c.r.pc = 0x3C#8 → Waits (step c).2 waiting →
      waiting.lines.serviceable waiting.r = true →
      Arrives { c.r with pc := c.r.pc + 2, cc := c.r.cc &&& c.bus (c.r.pc + 1) } c.bus
        .full waiting

theorem Waits.unchanged {c waiting : Cpu Ram} (waits : Waits c waiting)
    (running : c.halted = false) (asleep : c.waitSync = true) :
    waiting.r = c.r ∧ waiting.bus = c.bus ∧ waiting.halted = false ∧
      waiting.waitSync = true ∧ waiting.cwaiPushedPending = c.cwaiPushedPending := by
  induction waits with
  | refl => exact ⟨rfl, rfl, running, asleep, rfl⟩
  | idle waits quiet ih =>
      obtain ⟨sameRegs, sameBus, stillRunning, stillAsleep, samePending⟩ := ih
      have body := stepBody_wait _ stillRunning quiet stillAsleep
      simp only [step_r, step_bus, step_halted, step_waitSync, step_cwaiPushedPending, body]
      exact ⟨sameRegs, sameBus, stillRunning, stillAsleep, samePending⟩
  | request lines waits ih => exact ih

/-- The registers CWAI saves, once its opcode is fetched. -/
def cwaiRegs (m : Ram) (r : Regs) : Regs :=
  { r with pc := r.pc + 1, cc := r.cc &&& m r.pc }

theorem cwai_ram (c : Cpu Ram) :
    ∃ cycles, (cwai c).2 =
      { Cpu.stacked { c with r := cwaiRegs c.bus c.r } .full with
        cwaiPushedPending := true, waitSync := true, cycles } := by
  simp only [cwai, exec_bind, fetch8_ram, modifyRegs_exec, pushFullSet_ram, exec_modify,
    addCyclesEmNm]
  exact ⟨_, rfl⟩

theorem cwai_hasFrame (c : Cpu Ram) (running : c.halted = false)
    (awake : c.waitSync = false) (quiet : c.lines.serviceable c.r = false)
    (opcode : c.bus c.r.pc = 0x3C#8) :
    HasFrame .full
      { c.r with pc := c.r.pc + 2, cc := c.r.cc &&& c.bus (c.r.pc + 1) } c.bus (step c).2 ∧
    (step c).2.halted = false ∧ (step c).2.waitSync = true ∧
      (step c).2.cwaiPushedPending = true := by
  have body := stepBody_ram c running quiet awake
  have decoded : (execute 0x3C#8 : Exec Ram Unit) = cwai := rfl
  obtain ⟨cycles, executed⟩ := cwai_ram c.fetched
  rw [opcode, decoded, executed] at body
  have saved : cwaiRegs c.fetched.bus c.fetched.r =
      { c.r with pc := c.r.pc + 2, cc := c.r.cc &&& c.bus (c.r.pc + 1) } := by
    have next : c.r.pc + 1 + 1 = c.r.pc + 2 := by
      rw [BitVec.add_assoc]
      rfl
    simp only [cwaiRegs, Cpu.fetched, Cpu.begun, next]
  have framed := stacked_hasFrame .full saved
    (show ({ c.fetched with r := cwaiRegs c.fetched.bus c.fetched.r } : Cpu Ram).bus = c.bus
      from rfl)
  refine ⟨framed.congr ?_ ?_, ?_, ?_, ?_⟩
  · rw [step_r, body]
  · rw [step_bus, body]
  · rw [step_halted, body]
    exact running
  · rw [step_waitSync, body]
  · rw [step_cwaiPushedPending, body]

/-- However the request came, taking it leaves exactly one frame. -/
theorem Arrives.frame {before : Regs} {memory : Ram} {kind : FrameKind} {c : Cpu Ram}
    (arrives : Arrives before memory kind c) :
    (step c).2.bus = memory.push before.s (kind.bytes (kind.mark before)) ∧
    ∃ cc pc, (step c).2.r = { kind.mark before with
      s := before.s - BitVec.ofNat 16 (kind.size before.native), cc, pc } := by
  cases arrives with
  | running _ running fresh ready =>
      have taken := step_taken c running ready
      obtain ⟨cc, pc, regs⟩ := taken.regs
      have framed := stacked_hasFrame (c := c) (requestKind c.lines c.r) rfl rfl
      have stacked : c.framed (requestKind c.lines c.r) =
          c.stacked (requestKind c.lines c.r) := by
        simp [Cpu.framed, fresh]
      rw [stacked, framed.regs] at regs
      refine ⟨?_, cc, pc, regs⟩
      rw [taken.bus, stacked, framed.bus]
  | waiting start running awake quiet opcode waits ready =>
      obtain ⟨framed, stillRunning, asleep, pushed⟩ :=
        cwai_hasFrame start running awake quiet opcode
      obtain ⟨sameRegs, sameBus, waitRunning, -, samePending⟩ :=
        waits.unchanged stillRunning asleep
      have taken := step_taken c waitRunning ready
      obtain ⟨cc, pc, regs⟩ := taken.regs
      have pending : c.cwaiPushedPending = true := samePending.trans pushed
      have ahead : c.framed (requestKind c.lines c.r) = c := if_pos pending
      rw [ahead, sameRegs, framed.regs] at regs
      refine ⟨?_, cc, pc, regs⟩
      rw [taken.bus, ahead, sameBus, framed.bus]

/-- A handler about to execute its RTI: the line is released, and the stack
pointer, the stacked bytes and what is not stacked are as on entry. -/
structure AtRti (kind : FrameKind) (before : Regs) (entered h : Cpu Ram) : Prop where
  opcode : h.bus h.r.pc = 0x3B#8
  running : h.halted = false
  awake : h.waitSync = false
  released : h.lines.serviceable h.r = false
  stack : ∀ k < kind.size before.native,
    h.bus (stackAddr entered.r.s k) = entered.bus (stackAddr entered.r.s k)
  unstacked : kind.restore before h.r = kind.restore before entered.r

/-- Interrupt transparency: one frame goes on the stack and comes off again, and
RTI leaves everything as it was, with E saying which frame it was. -/
theorem interrupt_then_rti {before : Regs} {memory : Ram} {kind : FrameKind}
    {c h : Cpu Ram} (arrives : Arrives before memory kind c)
    (atRti : AtRti kind before (step c).2 h) :
    (step c).2.bus = memory.push before.s (kind.bytes (kind.mark before)) ∧
    (step c).2.r.s = before.s - BitVec.ofNat 16 (kind.size before.native) ∧
    (step h).2.bus = h.bus ∧
    (step h).2.r = kind.mark before := by
  obtain ⟨bus, cc, pc, regs⟩ := arrives.frame
  refine ⟨bus, by rw [regs], ?_⟩
  have frameSize := kind.length_bytes (kind.mark before)
  -- The frame is still in memory where RTI looks for it.
  have pushedFrame : (step c).2.bus.holds (step c).2.r.s
      (kind.bytes (kind.mark before)).reverse := by
    have held := memory.holds_push before.s (kind.bytes (kind.mark before))
      (by rw [frameSize]; have := kind.size_le (kind.mark before).native; omega)
    rw [bus, regs]
    simpa using held
  have restored := atRti.unstacked
  have sameS : h.r.s = (step c).2.r.s := by
    have := congrArg Regs.s restored
    cases kind <;> exact this
  have sameMd : h.r.md = (step c).2.r.md := by
    have := congrArg Regs.md restored
    cases kind <;> exact this
  have mode : h.r.native = before.native := by
    rw [Regs.native, sameMd, regs]
    rfl
  have held : h.bus.holds h.r.s (kind.bytes (kind.mark before)).reverse := by
    rw [Ram.holds_iff] at pushedFrame ⊢
    intro k bound
    have inside : k < kind.size before.native := by simpa using bound
    rw [sameS, atRti.stack k inside, pushedFrame k bound]
  obtain ⟨rtiBus, rtiRegs⟩ :=
    rti_ram h.fetched kind (kind.mark before) (kind.getFlag_mark before) mode held
  have body := stepBody_ram h atRti.running atRti.released atRti.awake
  have decoded : (execute 0x3B#8 : Exec Ram Unit) = rti := rfl
  rw [atRti.opcode, decoded] at body
  refine ⟨by rw [step_bus, body, rtiBus]; rfl, ?_⟩
  have emptied : stackAddr h.fetched.r.s (kind.size before.native) = before.s := by
    have sp : h.fetched.r.s = before.s - BitVec.ofNat 16 (kind.size before.native) := by
      rw [show h.fetched.r.s = (step c).2.r.s from sameS, regs]
    rw [sp, stackAddr, BitVec.sub_add_cancel]
  have loaded : kind.restore (kind.mark before) h.fetched.r =
      kind.mark { before with
        s := before.s - BitVec.ofNat 16 (kind.size before.native) } :=
    calc
      kind.restore (kind.mark before) h.fetched.r =
          kind.mark (kind.restore before h.r) := by
        rw [FrameKind.restore_mark]
        exact congrArg kind.mark (kind.restore_fetched before h.r _)
      _ = kind.mark (kind.restore before (step c).2.r) := by rw [restored]
      _ = _ := by rw [regs, FrameKind.restore_entered]
  rw [step_r, body, rtiRegs, loaded, FrameKind.native_mark, emptied]
  rfl

/-- An IRQ taken in native mode, its frame wrapping past address 0, by a handler
whose RTI is at `$2000`. -/
theorem interrupt_then_rti_wrapping :
    let c : Cpu Ram :=
      { r := { pc := 0x1234#16, s := 12#16, x := 0xBEEF#16, e := 7#8, md := mdNative }
        bus := fun _ => 0x3B#8
        lines := { irqLine := true } }
    let h : Cpu Ram := { (step c).2 with
      lines := {}, r := { (step c).2.r with pc := 0x2000#16 } }
    (step h).2.r = FrameKind.full.mark c.r := by
  intro c h
  have arrives : Arrives c.r c.bus .full c := .running c rfl rfl (by decide)
  have taken := step_taken c rfl (by decide)
  refine (interrupt_then_rti arrives ?_).2.2.2
  exact {
    opcode := by
      change (step c).2.bus 0x2000#16 = 0x3B#8
      rw [arrives.frame.1]
      decide
    running := taken.halted
    awake := taken.awake
    released := rfl
    stack := fun _ _ => rfl
    unstacked := FrameKind.restore_fetched .full c.r (step c).2.r _ }

end Pugputer.Hd6309

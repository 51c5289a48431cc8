import Pugputer.Hd6309.Ram

namespace Pugputer.Hd6309

/-! A RAM bus that records every access, and on which a device may raise or drop
request lines at any of them. -/

inductive Access
  | read (addr : Word) (value : Byte)
  | write (addr : Word) (value : Byte)
  deriving DecidableEq, Repr

structure Bench where
  ram : Ram
  trace : List Access := []
  requests : Nat → Lines → Lines := fun _ lines => lines

instance : Bus Bench where
  read b addr := (b.ram addr, { b with trace := b.trace ++ [.read addr (b.ram addr)] })
  write b addr value :=
    { b with ram := b.ram.set addr value, trace := b.trace ++ [.write addr value] }
  signal b lines := b.requests b.trace.length lines

/-! The registers TFM accepts as pointers. -/

inductive Pointer
  | d | x | y | u | s
  deriving DecidableEq, Repr

namespace Pointer

def code : Pointer → BitVec 4
  | d => 0#4
  | x => 1#4
  | y => 2#4
  | u => 3#4
  | s => 4#4

variable (p q : Pointer) (r : Regs) (v v' : Word)

theorem set_get : r.setRegByCode p.code (r.getRegByCode p.code) = r := by
  cases p with
  | d => exact Regs.setD_d r
  | x | y | u | s => rfl

theorem get_set : (r.setRegByCode p.code v).getRegByCode p.code = v := by
  cases p with
  | d => exact Regs.d_setD r v
  | x | y | u | s => rfl

theorem set_set :
    (r.setRegByCode p.code v).setRegByCode p.code v' = r.setRegByCode p.code v' := by
  cases p <;> rfl

theorem set_comm (ne : p ≠ q) :
    (r.setRegByCode p.code v).setRegByCode q.code v' =
      (r.setRegByCode q.code v').setRegByCode p.code v := by
  cases p <;> cases q <;> first | rfl | exact absurd rfl ne

theorem get_set_ne (ne : p ≠ q) :
    (r.setRegByCode p.code v).getRegByCode q.code = r.getRegByCode q.code := by
  cases p <;> cases q <;> first | rfl | exact absurd rfl ne

theorem set_setW :
    (r.setW v').setRegByCode p.code v = (r.setRegByCode p.code v).setW v' := by
  cases p <;> rfl

theorem get_setW : (r.setW v).getRegByCode p.code = r.getRegByCode p.code := by
  cases p <;> rfl

theorem set_pc (pc : Word) :
    ({ r with pc }).setRegByCode p.code v = { r.setRegByCode p.code v with pc } := by
  cases p <;> rfl

theorem get_pc (pc : Word) :
    ({ r with pc } : Regs).getRegByCode p.code = r.getRegByCode p.code := by
  cases p <;> rfl

theorem get_cc (cc : Byte) :
    ({ r with cc } : Regs).getRegByCode p.code = r.getRegByCode p.code := by
  cases p <;> rfl

theorem set_cc (cc : Byte) :
    ({ r with cc }).setRegByCode p.code v = { r.setRegByCode p.code v with cc } := by
  cases p <;> rfl

end Pointer

/-! What a transfer of `n` bytes does to memory, byte by byte. -/

namespace TfmForm

def opcode : TfmForm → Byte
  | incInc => 0x38#8
  | decDec => 0x39#8
  | incFix => 0x3A#8
  | fixInc => 0x3B#8

variable (form : TfmForm)

def srcAt (sp : Word) (k : Nat) : Word := sp + BitVec.ofNat 16 k * form.srcStep

def dstAt (dp : Word) (k : Nat) : Word := dp + BitVec.ofNat 16 k * form.dstStep

/-- The memory after `n` bytes and the accesses that move them. -/
def move : Nat → Ram → Word → Word → Ram × List Access
  | 0, m, _, _ => (m, [])
  | n + 1, m, sp, dp =>
      let rest := move n (m.set dp (m sp)) (sp + form.srcStep) (dp + form.dstStep)
      (rest.1, .read sp (m sp) :: .write dp (m sp) :: rest.2)

theorem srcAt_zero (sp : Word) : form.srcAt sp 0 = sp := by
  simp [srcAt]

theorem dstAt_zero (dp : Word) : form.dstAt dp 0 = dp := by
  simp [dstAt]

private theorem stride (start step : Word) (k : Nat) :
    start + step + BitVec.ofNat 16 k * step = start + BitVec.ofNat 16 (k + 1) * step := by
  rw [BitVec.ofNat_add, BitVec.add_mul, BitVec.add_assoc, BitVec.add_comm step]
  simp

theorem srcAt_step (sp : Word) (k : Nat) :
    form.srcAt (sp + form.srcStep) k = form.srcAt sp (k + 1) :=
  stride sp form.srcStep k

theorem dstAt_step (dp : Word) (k : Nat) :
    form.dstAt (dp + form.dstStep) k = form.dstAt dp (k + 1) :=
  stride dp form.dstStep k

/-- A transfer may be cut after any byte. -/
theorem move_add (first second : Nat) (m : Ram) (sp dp : Word) :
    form.move (first + second) m sp dp =
      let head := form.move first m sp dp
      let tail := form.move second head.1 (form.srcAt sp first) (form.dstAt dp first)
      (tail.1, head.2 ++ tail.2) := by
  induction first generalizing m sp dp with
  | zero => simp [move, srcAt_zero, dstAt_zero]
  | succ first ih =>
      rw [Nat.succ_add]
      simp only [move, ih, srcAt_step, dstAt_step, List.cons_append]

/-- A transfer writes only where its destination pointer goes. -/
theorem move_outside (n : Nat) (m : Ram) (sp dp : Word) {a : Word}
    (outside : ∀ k < n, a ≠ form.dstAt dp k) : (form.move n m sp dp).1 a = m a := by
  induction n generalizing m sp dp with
  | zero => rfl
  | succ n ih =>
      have head : a ≠ dp := by simpa [dstAt_zero] using outside 0 (by omega)
      have tail : ∀ k < n, a ≠ form.dstAt (dp + form.dstStep) k := by
        intro k bound
        rw [dstAt_step]
        exact outside (k + 1) (by omega)
      simp only [move]
      rw [ih _ _ _ tail, Ram.set_other _ _ head]

/-- Two memories that agree outside `scratch` still do after a transfer that
reads nothing there, and the transfer makes the same accesses in both. -/
theorem move_agree (scratch : Word → Prop) (n : Nat) (m m' : Ram) (sp dp : Word)
    (agree : ∀ a, ¬ scratch a → m a = m' a)
    (sources : ∀ k < n, ¬ scratch (form.srcAt sp k)) :
    (∀ a, ¬ scratch a → (form.move n m sp dp).1 a = (form.move n m' sp dp).1 a) ∧
      (form.move n m sp dp).2 = (form.move n m' sp dp).2 := by
  induction n generalizing m m' sp dp with
  | zero => exact ⟨agree, rfl⟩
  | succ n ih =>
      have same : m sp = m' sp := agree sp (by simpa [srcAt_zero] using sources 0 (by omega))
      have agreeNext : ∀ a, ¬ scratch a → m.set dp (m' sp) a = m'.set dp (m' sp) a := by
        intro a outside
        by_cases hit : a = dp
        · simp [hit]
        · rw [Ram.set_other _ _ hit, Ram.set_other _ _ hit, agree a outside]
      obtain ⟨agreeRest, sameRest⟩ := ih _ _ (sp + form.srcStep) (dp + form.dstStep) agreeNext
        fun k bound => by
          rw [srcAt_step]
          exact sources (k + 1) (by omega)
      simp only [move, same]
      exact ⟨agreeRest, by rw [sameRest]⟩

/-- The registers after `k` bytes, with `left` still to move. -/
def advance (src dst : Pointer) (r : Regs) (k left : Nat) : Regs :=
  ((r.setRegByCode src.code (form.srcAt (r.getRegByCode src.code) k)).setRegByCode dst.code
    (form.dstAt (r.getRegByCode dst.code) k)).setW (BitVec.ofNat 16 left)

variable {src dst : Pointer} (ne : src ≠ dst)

theorem advance_zero (r : Regs) (left : Nat) (count : r.w = BitVec.ofNat 16 left) :
    form.advance src dst r 0 left = r := by
  rw [advance, srcAt_zero, dstAt_zero, Pointer.set_get, Pointer.set_get, ← count,
    Regs.setW_w]

variable (src dst) in
@[simp] theorem w_advance (r : Regs) (k left : Nat) :
    (form.advance src dst r k left).w = BitVec.ofNat 16 left := by
  simp [advance]

variable (src dst) in
theorem advance_pc (r : Regs) (k left : Nat) (pc : Word) :
    form.advance src dst { r with pc } k left =
      { form.advance src dst r k left with pc } := by
  simp only [advance, Pointer.get_pc, Pointer.set_pc]
  rfl

theorem advance_cc (r : Regs) (k left : Nat) (cc : Byte) :
    form.advance src dst { r with cc } k left =
      { form.advance src dst r k left with cc } := by
  simp only [advance, Pointer.get_cc, Pointer.set_cc]
  rfl

variable (src dst) in
@[simp] theorem pc_advance (r : Regs) (k left : Nat) :
    (form.advance src dst r k left).pc = r.pc := by
  cases src <;> cases dst <;> rfl

variable (src dst) in
theorem serviceable_advance (lines : Lines) (r : Regs) (k left : Nat) :
    lines.serviceable (form.advance src dst r k left) = lines.serviceable r := by
  cases src <;> cases dst <;> rfl

include ne

theorem src_advance (r : Regs) (k left : Nat) :
    (form.advance src dst r k left).getRegByCode src.code =
      form.srcAt (r.getRegByCode src.code) k := by
  rw [advance, Pointer.get_setW, Pointer.get_set_ne _ _ _ _ ne.symm, Pointer.get_set]

omit ne in
theorem dst_advance (r : Regs) (k left : Nat) :
    (form.advance src dst r k left).getRegByCode dst.code =
      form.dstAt (r.getRegByCode dst.code) k := by
  rw [advance, Pointer.get_setW, Pointer.get_set]

theorem advance_advance (r : Regs) (k left k' left' : Nat) :
    form.advance src dst (form.advance src dst r k left) k' left' =
      form.advance src dst r (k + k') left' := by
  have srcTwice : form.srcAt (form.srcAt (r.getRegByCode src.code) k) k' =
      form.srcAt (r.getRegByCode src.code) (k + k') := by
    rw [srcAt, srcAt, srcAt, BitVec.ofNat_add, BitVec.add_mul, BitVec.add_assoc]
  have dstTwice : form.dstAt (form.dstAt (r.getRegByCode dst.code) k) k' =
      form.dstAt (r.getRegByCode dst.code) (k + k') := by
    rw [dstAt, dstAt, dstAt, BitVec.ofNat_add, BitVec.add_mul, BitVec.add_assoc]
  rw [advance, src_advance form ne, dst_advance form, srcTwice, dstTwice, advance, advance,
    Pointer.set_setW, Pointer.set_setW, Regs.setW_setW,
    Pointer.set_comm dst src _ _ _ ne.symm, Pointer.set_set, Pointer.set_set]

end TfmForm

section Loop

variable (form : TfmForm) {src dst : Pointer} (ne : src ≠ dst)

/-- What moving `k` bytes does to a CPU that had `n` to move. -/
def Cpu.moved (c : Cpu Bench) (form : TfmForm) (src dst : Pointer) (n k : Nat)
    (lines : Lines) (cycles : Nat) : Cpu Bench :=
  let moves := form.move k c.bus.ram (c.r.getRegByCode src.code) (c.r.getRegByCode dst.code)
  { c with
    r := form.advance src dst c.r k (n - k)
    bus := { c.bus with ram := moves.1, trace := c.bus.trace ++ moves.2 }
    lines, cycles }

include ne in
theorem Cpu.moved_moved (c : Cpu Bench) (n first second : Nat)
    (lines lines' : Lines) (cycles cycles' : Nat) :
    (c.moved form src dst n first lines cycles).moved form src dst (n - first) second
        lines' cycles' =
      c.moved form src dst n (first + second) lines' cycles' := by
  simp only [Cpu.moved, TfmForm.advance_advance form ne, TfmForm.src_advance form ne,
    TfmForm.dst_advance form, TfmForm.move_add, Nat.sub_sub, List.append_assoc]

/-- A bus whose devices leave the request lines alone. -/
def Bench.Silent (b : Bench) : Prop := ∀ count lines, b.requests count lines = lines

include ne in
theorem tfmLoop_succ (count : Nat) (c : Cpu Bench) :
    ∃ lines, (c.bus.Silent → lines = c.lines) ∧
      let c' := c.moved form src dst (count + 1) 1 lines (c.cycles + 3)
      tfmLoop form src.code dst.code (count + 1) (c.r.getRegByCode src.code)
          (c.r.getRegByCode dst.code) c =
        if count ≠ 0 ∧ c'.lines.serviceable c'.r then (true, c')
        else tfmLoop form src.code dst.code count (c'.r.getRegByCode src.code)
          (c'.r.getRegByCode dst.code) c' := by
  let v := c.bus.ram (c.r.getRegByCode src.code)
  let afterRead : Bench := { c.bus with
    trace := c.bus.trace ++ [.read (c.r.getRegByCode src.code) v] }
  let afterWrite : Bench := { afterRead with
    ram := c.bus.ram.set (c.r.getRegByCode dst.code) v
    trace := afterRead.trace ++ [.write (c.r.getRegByCode dst.code) v] }
  let lines := Bus.signal afterWrite (Bus.signal afterRead c.lines)
  have after : c.moved form src dst (count + 1) 1 lines (c.cycles + 3) =
      { c with
        r := ((c.r.setRegByCode src.code (c.r.getRegByCode src.code + form.srcStep)).setRegByCode
          dst.code (c.r.getRegByCode dst.code + form.dstStep)).setW (BitVec.ofNat 16 count)
        bus := afterWrite, lines, cycles := c.cycles + 3 } := by
    simp [Cpu.moved, TfmForm.move, TfmForm.advance, TfmForm.srcAt, TfmForm.dstAt, afterWrite,
      afterRead, v]
  have srcNext : (c.moved form src dst (count + 1) 1 lines (c.cycles + 3)).r.getRegByCode
      src.code = c.r.getRegByCode src.code + form.srcStep := by
    simpa [Cpu.moved, TfmForm.srcAt] using TfmForm.src_advance form ne c.r 1 count
  have dstNext : (c.moved form src dst (count + 1) 1 lines (c.cycles + 3)).r.getRegByCode
      dst.code = c.r.getRegByCode dst.code + form.dstStep := by
    simpa [Cpu.moved, TfmForm.dstAt] using TfmForm.dst_advance form c.r 1 count
  have kept : c.bus.Silent → lines = c.lines := by
    intro silent
    exact (silent _ _).trans (silent _ _)
  refine ⟨lines, kept, ?_⟩
  intro c'
  have unrolled : tfmLoop form src.code dst.code (count + 1)
      (c.r.getRegByCode src.code) (c.r.getRegByCode dst.code) c =
        (if count ≠ 0 ∧ c'.lines.serviceable c'.r then pure true
          else tfmLoop form src.code dst.code count
            (c.r.getRegByCode src.code + form.srcStep)
            (c.r.getRegByCode dst.code + form.dstStep) : Exec Bench Bool) c' := by
    simp only [c', after]
    rfl
  rw [unrolled, srcNext, dstNext, exec_ite, exec_pure]

theorem Cpu.moved_zero (c : Cpu Bench) (n : Nat) (w : c.r.w = BitVec.ofNat 16 n) :
    c.moved form src dst n 0 c.lines c.cycles = c := by
  simp only [Cpu.moved, TfmForm.move, Nat.sub_zero, List.append_nil,
    TfmForm.advance_zero form c.r n w]

include ne in
/-- The loop moves every byte, or stops early after at least one, when a request
has come. -/
theorem tfmLoop_moves (n : Nat) (c : Cpu Bench) (w : c.r.w = BitVec.ofNat 16 n) :
    ∃ k lines cycles, k ≤ n ∧ (n ≠ 0 → k ≠ 0) ∧
      (k < n → lines.serviceable c.r) ∧ (c.bus.Silent → lines = c.lines) ∧
      tfmLoop form src.code dst.code n (c.r.getRegByCode src.code)
          (c.r.getRegByCode dst.code) c =
        (decide (k < n), c.moved form src dst n k lines cycles) := by
  induction n generalizing c with
  | zero =>
      refine ⟨0, c.lines, c.cycles, Nat.le_refl 0, id, by omega, fun _ => rfl, ?_⟩
      rw [Cpu.moved_zero form c 0 w]
      rfl
  | succ count ih =>
      obtain ⟨lines, kept, unrolled⟩ := tfmLoop_succ form ne count c
      simp only at unrolled
      have sameMasks := form.serviceable_advance src dst lines c.r 1 count
      split at unrolled
      · rename_i stop
        refine ⟨1, lines, c.cycles + 3, by omega, by omega, ?_, kept, ?_⟩
        · intro _
          rw [← sameMasks]
          exact stop.2
        · have early : 1 < count + 1 := by omega
          rw [unrolled, decide_eq_true early]
      · obtain ⟨k, linesAfter, cycles, bound, -, stopped, keptAfter, loop⟩ :=
          ih (c.moved form src dst (count + 1) 1 lines (c.cycles + 3))
            (by simp [Cpu.moved])
        refine ⟨1 + k, linesAfter, cycles, by omega, by omega, ?_, ?_, ?_⟩
        · intro early
          have request := stopped (by omega)
          rwa [← form.serviceable_advance src dst linesAfter c.r 1 count]
        · intro silent
          exact (keptAfter silent).trans (kept silent)
        · have sameTest : decide (k < count) = decide (1 + k < count + 1) := by
            simp only [decide_eq_decide]
            omega
          rw [unrolled, loop, sameTest,
            ← Cpu.moved_moved form ne c (count + 1) 1 k lines linesAfter (c.cycles + 3) cycles]
          rfl

end Loop

/-! One step at a TFM instruction. -/

/-- The CPU after fetching one byte. -/
def Cpu.fetchedByte (c : Cpu Bench) : Cpu Bench :=
  let trace := c.bus.trace ++ [.read c.r.pc (c.bus.ram c.r.pc)]
  { c with
    r := { c.r with pc := c.r.pc + 1 }
    bus := { c.bus with trace }
    lines := c.bus.requests trace.length c.lines }

theorem fetch8_bench (c : Cpu Bench) :
    fetch8 c = (c.bus.ram c.r.pc, c.fetchedByte) := rfl

structure AtTfm (form : TfmForm) (src dst : Pointer) (c : Cpu Bench) : Prop where
  running : c.halted = false
  awake : c.waitSync = false
  quiet : c.lines.serviceable c.r = false
  page : c.bus.ram c.r.pc = 0x11#8
  opcode : c.bus.ram (c.r.pc + 1) = form.opcode
  postbyte : c.bus.ram (c.r.pc + 2) = src.code ++ dst.code

/-- The data accesses of a step at a TFM instruction: all but its three fetches. -/
def dataAccesses (c c' : Cpu Bench) : List Access :=
  c'.bus.trace.drop (c.bus.trace.length + 3)

theorem executePage11_tfm (form : TfmForm) :
    (executePage11 form.opcode : Exec Bench Unit) = doTfm form := by
  cases form <;> rfl

/-- What a step at a TFM instruction may do: `k` bytes, at least one if there
are any, and back to the instruction while some are left. -/
structure TfmStep (form : TfmForm) (src dst : Pointer) (k : Nat) (c c' : Cpu Bench) :
    Prop where
  bound : k ≤ c.r.w.toNat
  progress : c.r.w.toNat ≠ 0 → k ≠ 0
  whole : c.bus.Silent → k = c.r.w.toNat
  regs : c'.r = { form.advance src dst c.r k (c.r.w.toNat - k) with
    pc := if k < c.r.w.toNat then c.r.pc else c.r.pc + 3 }
  ram : c'.bus.ram = (form.move k c.bus.ram (c.r.getRegByCode src.code)
    (c.r.getRegByCode dst.code)).1
  accesses : dataAccesses c c' = (form.move k c.bus.ram (c.r.getRegByCode src.code)
    (c.r.getRegByCode dst.code)).2

theorem doTfm_moves (form : TfmForm) {src dst : Pointer} (ne : src ≠ dst) (c : Cpu Bench)
    (postbyte : c.bus.ram c.r.pc = src.code ++ dst.code) :
    ∃ k lines cycles, k ≤ c.r.w.toNat ∧ (c.r.w.toNat ≠ 0 → k ≠ 0) ∧
      (k < c.r.w.toNat → lines.serviceable c.r) ∧
      (c.bus.Silent → lines = c.lines) ∧
      (doTfm form c).2 =
        let c' := c.fetchedByte.moved form src dst c.r.w.toNat k lines cycles
        { c' with r := { c'.r with pc := if k < c.r.w.toNat then c.insnPc else c.r.pc + 1 } } := by
  have srcCode : (src.code ++ dst.code).extractLsb' 4 4 = src.code :=
    BitVec.extractLsb'_append_eq_left
  have dstCode : (src.code ++ dst.code).extractLsb' 0 4 = dst.code :=
    BitVec.extractLsb'_append_eq_right
  obtain ⟨k, lines, cycles, bound, progress, stopped, kept, loop⟩ :=
    tfmLoop_moves form ne c.r.w.toNat
      { c.fetchedByte with cycles := c.fetchedByte.cycles + 6 }
      (by simp [Cpu.fetchedByte]; rfl)
  have keptLines : c.bus.Silent → lines = c.lines := by
    intro silent
    exact (kept silent).trans (silent _ _)
  refine ⟨k, lines, cycles, bound, progress, stopped, keptLines, ?_⟩
  have started : doTfm form c =
      (do
        let interrupted ← tfmLoop form src.code dst.code c.r.w.toNat
          (c.fetchedByte.r.getRegByCode src.code) (c.fetchedByte.r.getRegByCode dst.code)
        if interrupted then
          modify fun c => { c with r := { c.r with pc := c.insnPc } } : Exec Bench Unit)
        { c.fetchedByte with cycles := c.fetchedByte.cycles + 6 } := by
    rw [doTfm, exec_bind, fetch8_bench, postbyte]
    simp only [srcCode, dstCode]
    rfl
  rw [started, exec_bind, loop]
  by_cases early : k < c.r.w.toNat
  · simp only [early, decide_true, if_true]
    rfl
  · have next : (form.advance src dst c.fetchedByte.r k (c.r.w.toNat - k)).pc = c.r.pc + 1 :=
      form.pc_advance src dst _ k _
    simp only [early, decide_false, if_false, Bool.false_eq_true, exec_pure, ← next]
    rfl

/-- One step at a TFM instruction with nothing to take. -/
theorem step_tfm {form : TfmForm} {src dst : Pointer} {c : Cpu Bench} (ne : src ≠ dst)
    (atTfm : AtTfm form src dst c) : ∃ k, TfmStep form src dst k c (step c).2 := by
  let c₂ := ({ c.begun with insnPc := c.r.pc } : Cpu Bench).fetchedByte.fetchedByte
  have nextPc : c.r.pc + 1 + 1 = c.r.pc + 2 := by
    rw [BitVec.add_assoc]
    rfl
  have decoded : (stepBody c).2 = (doTfm form c₂).2 := by
    have page : (execute 0x11#8 : Exec Bench Unit) = fetch8 >>= executePage11 := rfl
    rw [stepBody_execute c atTfm.running atTfm.quiet atTfm.awake, exec_bind, fetch8_bench]
    simp only [Cpu.begun, atTfm.page, page, exec_bind, fetch8_bench]
    rw [← executePage11_tfm, ← atTfm.opcode]
    rfl
  have postbyte : c₂.bus.ram c₂.r.pc = src.code ++ dst.code := by
    rw [← atTfm.postbyte, ← nextPc]
    rfl
  obtain ⟨k, lines, cycles, bound, progress, stopped, kept, moved⟩ :=
    doTfm_moves form ne c₂ postbyte
  have whole : c.bus.Silent → k = c.r.w.toNat := by
    intro silent
    have sameLines : lines = c.lines :=
      (kept silent).trans ((silent _ _).trans (silent _ _))
    have quiet : ¬ k < c.r.w.toNat := by
      intro early
      have request : lines.serviceable c.r := stopped early
      rw [sameLines, atTfm.quiet] at request
      exact absurd request (by simp)
    have boundW : k ≤ c.r.w.toNat := bound
    omega
  have advanced := form.advance_pc src dst c.r k (c.r.w.toNat - k)
    (c.r.pc + 1 + 1 + 1)
  have afterPc : c.r.pc + 1 + 1 + 1 = c.r.pc + 3 := by
    rw [nextPc, BitVec.add_assoc]
    rfl
  have srcKept : c₂.fetchedByte.r.getRegByCode src.code = c.r.getRegByCode src.code :=
    src.get_pc c.r _
  have dstKept : c₂.fetchedByte.r.getRegByCode dst.code = c.r.getRegByCode dst.code :=
    dst.get_pc c.r _
  have ramKept : c₂.fetchedByte.bus.ram = c.bus.ram := rfl
  obtain ⟨first, second, third, fetched⟩ : ∃ first second third,
      c₂.fetchedByte.bus.trace = c.bus.trace ++ [first, second, third] :=
    ⟨_, _, _, by
      simp only [c₂, Cpu.fetchedByte, List.append_assoc, List.cons_append, List.nil_append]
      rfl⟩
  refine ⟨k, bound, progress, whole, ?_, ?_, ?_⟩
  · rw [step_r, decoded, moved]
    change ({ form.advance src dst { c.r with pc := c.r.pc + 1 + 1 + 1 } k
      (c.r.w.toNat - k) with
        pc := if k < c.r.w.toNat then c.r.pc else c.r.pc + 1 + 1 + 1 } : Regs) = _
    rw [advanced, afterPc]
  · rw [step_bus, decoded, moved]
    simp only [Cpu.moved, srcKept, dstKept, ramKept]
  · rw [dataAccesses, step_bus, decoded, moved]
    simp only [Cpu.moved, fetched, srcKept, dstKept, ramKept]
    rw [List.drop_append_of_le_length (by simp)]
    have dropped : (c.bus.trace ++ [first, second, third]).drop (c.bus.trace.length + 3) = [] := by
      simp
    rw [dropped, List.nil_append]

/-! A transfer cut into any number of steps by interrupts. -/

/-- What a handler leaves that restores all registers and memory: CC aside, only
the bytes of `scratch`, its dead stack, may differ, and the request is gone. -/
structure Restores (scratch : Word → Prop) (c c' : Cpu Bench) : Prop where
  running : c'.halted = false
  awake : c'.waitSync = false
  quiet : c'.lines.serviceable c'.r = false
  regs : c'.r = { c.r with cc := c'.r.cc }
  ram : ∀ a, ¬ scratch a → c'.bus.ram a = c.bus.ram a

/-- What the transfer that `c` is about to start asks of memory: it reads nothing
in `scratch`, and its own instruction is neither there nor overwritten. -/
structure Undisturbed (form : TfmForm) (src dst : Pointer) (scratch : Word → Prop)
    (c : Cpu Bench) : Prop where
  sources : ∀ k < c.r.w.toNat, ¬ scratch (form.srcAt (c.r.getRegByCode src.code) k)
  instruction : ∀ j < 3, ¬ scratch (c.r.pc + BitVec.ofNat 16 j) ∧
    ∀ k < c.r.w.toNat,
      c.r.pc + BitVec.ofNat 16 j ≠ form.dstAt (c.r.getRegByCode dst.code) k

section Run

variable {form : TfmForm} {src dst : Pointer} {scratch : Word → Prop} {start : Cpu Bench}

/-- `c` is at the instruction with the first `t` bytes of `start`'s transfer moved. -/
structure Halfway (form : TfmForm) (src dst : Pointer) (scratch : Word → Prop)
    (start : Cpu Bench) (t : Nat) (c : Cpu Bench) : Prop where
  atTfm : AtTfm form src dst c
  bound : t ≤ start.r.w.toNat
  regs : c.r =
    { form.advance src dst start.r t (start.r.w.toNat - t) with cc := c.r.cc }
  ram : ∀ a, ¬ scratch a → c.bus.ram a = (form.move t start.bus.ram
    (start.r.getRegByCode src.code) (start.r.getRegByCode dst.code)).1 a

variable (scratch) in
theorem Halfway.refl (atTfm : AtTfm form src dst start) :
    Halfway form src dst scratch start 0 start where
  atTfm := atTfm
  bound := Nat.zero_le _
  regs := by
    rw [Nat.sub_zero, form.advance_zero start.r start.r.w.toNat (by simp)]
  ram := fun _ _ => rfl

/-- The outcome of one more step from there. -/
structure Reached (form : TfmForm) (src dst : Pointer) (scratch : Word → Prop)
    (start : Cpu Bench) (t : Nat) (c : Cpu Bench) : Prop where
  bound : t ≤ start.r.w.toNat
  regs : c.r = { form.advance src dst start.r t (start.r.w.toNat - t) with
    cc := c.r.cc
    pc := if t < start.r.w.toNat then start.r.pc else start.r.pc + 3 }
  ram : ∀ a, ¬ scratch a → c.bus.ram a = (form.move t start.bus.ram
    (start.r.getRegByCode src.code) (start.r.getRegByCode dst.code)).1 a

theorem Reached.w_eq {t : Nat} {c : Cpu Bench}
    (reached : Reached form src dst scratch start t c) :
    c.r.w = 0 ↔ t = start.r.w.toNat := by
  have w : c.r.w = BitVec.ofNat 16 (start.r.w.toNat - t) := by
    rw [reached.regs]
    exact form.w_advance src dst start.r t _
  have bound := reached.bound
  have small := start.r.w.isLt
  rw [w]
  constructor
  · intro zero
    have value := congrArg BitVec.toNat zero
    rw [BitVec.toNat_ofNat, Nat.mod_eq_of_lt (by omega)] at value
    have none : start.r.w.toNat - t = 0 := value
    omega
  · intro whole
    rw [whole, Nat.sub_self]
    rfl

theorem Halfway.step (ne : src ≠ dst)
    (undisturbed : Undisturbed form src dst scratch start) {t : Nat} {c : Cpu Bench}
    (halfway : Halfway form src dst scratch start t c) :
    ∃ k, (start.r.w.toNat ≠ t → k ≠ 0) ∧ (c.bus.Silent → t + k = start.r.w.toNat) ∧
      Reached form src dst scratch start (t + k) (step c).2 ∧
      (form.move (t + k) start.bus.ram (start.r.getRegByCode src.code)
        (start.r.getRegByCode dst.code)).2 =
        (form.move t start.bus.ram (start.r.getRegByCode src.code)
          (start.r.getRegByCode dst.code)).2 ++ dataAccesses c (step c).2 := by
  obtain ⟨k, moved⟩ := step_tfm ne halfway.atTfm
  have bound := halfway.bound
  have small := start.r.w.isLt
  have left : c.r.w.toNat = start.r.w.toNat - t := by
    have w : c.r.w = BitVec.ofNat 16 (start.r.w.toNat - t) := by
      rw [halfway.regs]
      exact form.w_advance src dst start.r t _
    rw [w, BitVec.toNat_ofNat, Nat.mod_eq_of_lt (by omega)]
  have boundK := moved.bound
  have progress := moved.progress
  have whole := moved.whole
  rw [left] at boundK progress whole
  have srcNow : c.r.getRegByCode src.code =
      form.srcAt (start.r.getRegByCode src.code) t := by
    rw [halfway.regs, src.get_cc, form.src_advance ne]
  have dstNow : c.r.getRegByCode dst.code =
      form.dstAt (start.r.getRegByCode dst.code) t := by
    rw [halfway.regs, dst.get_cc, form.dst_advance]
  have cut := form.move_add t k start.bus.ram (start.r.getRegByCode src.code)
    (start.r.getRegByCode dst.code)
  obtain ⟨agree, sameAccesses⟩ := form.move_agree scratch k c.bus.ram _
    (c.r.getRegByCode src.code) (c.r.getRegByCode dst.code) halfway.ram fun j inside => by
      rw [srcNow, TfmForm.srcAt, TfmForm.srcAt, BitVec.add_assoc, ← BitVec.add_mul,
        ← BitVec.ofNat_add]
      exact undisturbed.sources (t + j) (by omega)
  rw [srcNow, dstNow] at agree sameAccesses
  refine ⟨k, fun unfinished => progress (by omega), fun silent => ?_, ⟨by omega, ?_, ?_⟩, ?_⟩
  · have all := whole silent
    omega
  · have pc : c.r.pc = start.r.pc := by
      rw [halfway.regs]
      exact form.pc_advance src dst start.r t (start.r.w.toNat - t)
    have flat : form.advance src dst c.r k (start.r.w.toNat - t - k) =
        { form.advance src dst start.r (t + k) (start.r.w.toNat - (t + k)) with
          cc := c.r.cc } := by
      refine (congrArg (form.advance src dst · k (start.r.w.toNat - t - k))
        halfway.regs).trans ?_
      rw [form.advance_cc, form.advance_advance ne start.r t (start.r.w.toNat - t) k,
        Nat.sub_sub]
    have goOn : (k < start.r.w.toNat - t) = (t + k < start.r.w.toNat) := by
      rw [eq_iff_iff]
      omega
    rw [moved.regs, left, flat, pc]
    simp only [goOn]
  · intro a outside
    rw [moved.ram, cut, srcNow, dstNow]
    exact agree a outside
  · rw [cut, moved.accesses, srcNow, dstNow, sameAccesses]

/-- The handler gives the transfer back where the step left it. -/
theorem Reached.resume (undisturbed : Undisturbed form src dst scratch start)
    (atTfm : AtTfm form src dst start) {t : Nat} {c c' : Cpu Bench}
    (reached : Reached form src dst scratch start t c) (unfinished : t < start.r.w.toNat)
    (restores : Restores scratch c c') : Halfway form src dst scratch start t c' := by
  have ram : ∀ a, ¬ scratch a → c'.bus.ram a = (form.move t start.bus.ram
      (start.r.getRegByCode src.code) (start.r.getRegByCode dst.code)).1 a := by
    intro a outside
    rw [restores.ram a outside, reached.ram a outside]
  have instruction : ∀ j < 3, c'.bus.ram (start.r.pc + BitVec.ofNat 16 j) =
      start.bus.ram (start.r.pc + BitVec.ofNat 16 j) := by
    intro j bound
    obtain ⟨outside, apart⟩ := undisturbed.instruction j bound
    rw [ram _ outside]
    exact form.move_outside t _ _ _ fun k inside => apart k (by omega)
  have regs : c'.r = { form.advance src dst start.r t (start.r.w.toNat - t) with
      cc := c'.r.cc, pc := start.r.pc } := by
    rw [restores.regs, reached.regs, if_pos unfinished]
  have pc : c'.r.pc = start.r.pc := by rw [regs]
  have page := instruction 0 (by omega)
  have opcode := instruction 1 (by omega)
  have postbyte := instruction 2 (by omega)
  rw [BitVec.add_zero] at page
  exact {
    atTfm := {
      running := restores.running
      awake := restores.awake
      quiet := restores.quiet
      page := by rw [pc, page, atTfm.page]
      opcode := by rw [pc, ← atTfm.opcode]; exact opcode
      postbyte := by rw [pc, ← atTfm.postbyte]; exact postbyte }
    bound := reached.bound
    regs := by
      have kept := form.pc_advance src dst start.r t
        (start.r.w.toNat - t)
      rw [← kept] at regs
      exact regs
    ram := ram }

/-- The accesses of the first `count` steps of a run. -/
def runAccesses (s : Nat → Cpu Bench) (count : Nat) : List Access :=
  (List.range count).flatMap fun i => dataAccesses (s i) (step (s i)).2

theorem runAccesses_succ (s : Nat → Cpu Bench) (count : Nat) :
    runAccesses s (count + 1) =
      dataAccesses (s 0) (step (s 0)).2 ++ runAccesses (fun i => s (i + 1)) count := by
  simp only [runAccesses, List.range_succ_eq_map, List.flatMap_cons, List.flatMap_map]

/-- From any point of the transfer, stepping and resuming finishes it in at most
as many further resumptions as bytes are left. -/
theorem Halfway.run (ne : src ≠ dst) (undisturbed : Undisturbed form src dst scratch start)
    (atTfm : AtTfm form src dst start) {t : Nat} (s : Nat → Cpu Bench)
    (halfway : Halfway form src dst scratch start t (s 0))
    (resumes : ∀ i, (Hd6309.step (s i)).2.r.w ≠ 0 →
      Restores scratch (Hd6309.step (s i)).2 (s (i + 1))) :
    ∃ i, i ≤ start.r.w.toNat - t ∧ (∀ j < i, (Hd6309.step (s j)).2.r.w ≠ 0) ∧
      Reached form src dst scratch start start.r.w.toNat (Hd6309.step (s i)).2 ∧
      (form.move start.r.w.toNat start.bus.ram (start.r.getRegByCode src.code)
        (start.r.getRegByCode dst.code)).2 =
        (form.move t start.bus.ram (start.r.getRegByCode src.code)
          (start.r.getRegByCode dst.code)).2 ++ runAccesses s (i + 1) := by
  induction left : start.r.w.toNat - t using Nat.strongRecOn generalizing t s with
  | ind left ih =>
      obtain ⟨k, progress, -, reached, accesses⟩ := halfway.step ne undisturbed
      by_cases whole : t + k = start.r.w.toNat
      · rw [whole] at reached accesses
        refine ⟨0, Nat.zero_le _, by omega, reached, ?_⟩
        rw [accesses]
        simp [runAccesses]
      · have goOn : (Hd6309.step (s 0)).2.r.w ≠ 0 := fun zero =>
          whole (reached.w_eq.mp zero)
        have bound := reached.bound
        have resumed := reached.resume undisturbed atTfm (by omega) (resumes 0 goOn)
        have moved : k ≠ 0 := progress (by omega)
        obtain ⟨i, boundI, earlier, finished, rest⟩ :=
          ih (start.r.w.toNat - (t + k)) (by omega) (fun i => s (i + 1)) resumed
            (fun i => resumes (i + 1)) rfl
        refine ⟨i + 1, by omega, ?_, finished, ?_⟩
        · intro j before
          cases j with
          | zero => exact goOn
          | succ j => exact earlier j (by omega)
        · rw [rest, accesses, runAccesses_succ s (i + 1), List.append_assoc]

end Run

/-- The same CPU on a bus where no request ever comes. -/
def Cpu.uninterrupted (c : Cpu Bench) : Cpu Bench :=
  { c with bus := { c.bus with requests := fun _ lines => lines } }

/-- Interrupted TFM equals uninterrupted TFM: `s i` is the CPU about to execute
the instruction after the `i`-th interrupt. -/
theorem tfm_interrupted (form : TfmForm) {src dst : Pointer} (ne : src ≠ dst)
    (scratch : Word → Prop) (s : Nat → Cpu Bench) (atTfm : AtTfm form src dst (s 0))
    (undisturbed : Undisturbed form src dst scratch (s 0))
    (resumes : ∀ i, (step (s i)).2.r.w ≠ 0 → Restores scratch (step (s i)).2 (s (i + 1))) :
    let alone := (step (s 0).uninterrupted).2
    ∃ i, i ≤ (s 0).r.w.toNat ∧ (∀ j < i, (step (s j)).2.r.w ≠ 0) ∧
      let done := (step (s i)).2
      done.r = { alone.r with cc := done.r.cc } ∧
      done.r.w = 0 ∧ done.r.pc = (s 0).r.pc + 3 ∧
      (∀ a, ¬ scratch a → done.bus.ram a = alone.bus.ram a) ∧
      runAccesses s (i + 1) = dataAccesses (s 0).uninterrupted alone := by
  intro alone
  have atTfmAlone : AtTfm form src dst (s 0).uninterrupted :=
    ⟨atTfm.running, atTfm.awake, atTfm.quiet, atTfm.page, atTfm.opcode, atTfm.postbyte⟩
  have undisturbedAlone : Undisturbed form src dst scratch (s 0).uninterrupted :=
    ⟨undisturbed.sources, undisturbed.instruction⟩
  obtain ⟨k, -, whole, reachedAlone, accessesAlone⟩ :=
    (Halfway.refl scratch atTfmAlone).step ne undisturbedAlone
  rw [whole fun _ _ => rfl] at reachedAlone accessesAlone
  obtain ⟨i, bound, earlier, reached, accesses⟩ :=
    (Halfway.refl scratch atTfm).run ne undisturbed atTfm s resumes
  refine ⟨i, bound, earlier, ?_, reached.w_eq.mpr rfl, ?_, ?_, ?_⟩
  · rw [reachedAlone.regs]
    exact reached.regs
  · rw [reached.regs, if_neg (Nat.lt_irrefl _)]
  · intro a outside
    rw [reached.ram a outside, reachedAlone.ram a outside]
    rfl
  · have nothing : ∀ m sp dp, (form.move 0 m sp dp).2 = [] := fun _ _ _ => rfl
    rw [nothing, List.nil_append] at accesses accessesAlone
    rw [← accesses, ← accessesAlone]
    rfl

/-- A two-byte `TFM X+,Y+` whose first byte brings an IRQ. -/
def twoBytes : Cpu Bench where
  r := { pc := 0x1000#16, x := 0x2000#16, y := 0x3000#16, f := 2#8 }
  bus :=
    { ram := fun a =>
        if a = 0x1000#16 then 0x11#8 else if a = 0x1001#16 then 0x38#8
        else if a = 0x1002#16 then 0x12#8 else 0x55#8
      requests := fun count lines =>
        if count = 5 then { lines with irqLine := true } else lines }

def Cpu.released (c : Cpu Bench) : Cpu Bench := { c with lines := {} }

theorem Restores.released (scratch : Word → Prop) (c : Cpu Bench)
    (running : c.halted = false) (awake : c.waitSync = false) :
    Restores scratch c c.released :=
  ⟨running, awake, rfl, rfl, fun _ _ => rfl⟩

/-- The run in which that request is withdrawn at once. -/
def twoBytesRun : Nat → Cpu Bench
  | 0 => twoBytes
  | _ + 1 => (step twoBytes).2.released

theorem tfm_interrupted_twoBytes :
    ∃ i, i ≤ (twoBytesRun 0).r.w.toNat ∧ runAccesses twoBytesRun (i + 1) =
      dataAccesses (twoBytesRun 0).uninterrupted (step (twoBytesRun 0).uninterrupted).2 := by
  have atTfm : AtTfm .incInc .x .y (twoBytesRun 0) :=
    ⟨by decide +kernel, by decide +kernel, by decide +kernel, by decide +kernel,
      by decide +kernel, by decide +kernel⟩
  have undisturbed : Undisturbed .incInc .x .y (fun _ => False) (twoBytesRun 0) :=
    ⟨fun _ _ => id, by decide +kernel⟩
  have resumes : ∀ i, (step (twoBytesRun i)).2.r.w ≠ 0 →
      Restores (fun _ => False) (step (twoBytesRun i)).2 (twoBytesRun (i + 1)) := by
    have running : (step twoBytes).2.halted = false := by decide +kernel
    have awake : (step twoBytes).2.waitSync = false := by decide +kernel
    have finished : (step (step twoBytes).2.released).2.r.w = 0 := by decide +kernel
    have later : ∀ i, twoBytesRun (i + 1) = (step twoBytes).2.released := fun _ => rfl
    have first : (step (twoBytesRun 0)).2 = (step twoBytes).2 := by rw [twoBytesRun]
    intro i unfinished
    -- Nothing below needs the step evaluated again.
    generalize (step twoBytes).2 = paused at *
    cases i with
    | zero =>
        rw [first, later]
        exact Restores.released _ paused running awake
    | succ i =>
        rw [later] at unfinished
        exact absurd finished unfinished
  obtain ⟨i, bound, -, -, -, -, -, accesses⟩ := tfm_interrupted .incInc (by decide)
    (fun _ => False) twoBytesRun atTfm undisturbed resumes
  exact ⟨i, bound, accesses⟩

end Pugputer.Hd6309

import Pugputer.Serio.Output

namespace Pugputer.Serio

open Hd6309 (Regs ccC ccZ ccI)

variable {cyclesPerChar : Byte → Byte → Nat}

/-! What holds of the receive side at every instruction. -/

/-- A character that waits in the chip has latched the IRQ. -/
def Announced (u : Uart) : Prop := u.rdrf = true → u.irqFlag = true

/-- What a status value, once read, still says of the receiver. -/
def Heard (u : Uart) (value : Byte) : Prop :=
  u.rdrf = true → u.irqFlag = true ∨ (value &&& 0x80#8 ≠ 0 ∧ value &&& 0x08#8 ≠ 0)

/-- UT_ISR, by instruction, and the characters that wait. -/
def IsrRx (s : Sys) (i : Isr) : Prop :=
  match i.pc with
  | .staTsta => Heard s.uart i.a
  | .timIrq | .ldaTsta | .anda | .beqChkRx | .oraSerr | .staSerr | .timRdrf =>
      Heard s.uart s.tsta
  | .beqNotUart => Heard s.uart s.tsta ∧ i.zero = decide (s.tsta &&& 0x80#8 = 0)
  | .beqChkTx => Heard s.uart s.tsta ∧ i.zero = decide (s.tsta &&& 0x08#8 = 0)
  | .ldaDat => True
  | _ => Announced s.uart

/-- UT_ISR, by instruction, and the error flags it has to add to SERR. -/
def IsrSerr (s : Sys) (i : Isr) : Prop :=
  let due := errorsDue s.trace
  match i.pc with
  | .staTsta =>
      s.serr ||| (i.a &&& 0x07#8) = due ∧ (i.a &&& 0x07#8 ≠ 0 → i.a &&& 0x80#8 ≠ 0)
  | .timIrq =>
      s.serr ||| (s.tsta &&& 0x07#8) = due ∧ (s.tsta &&& 0x07#8 ≠ 0 → s.tsta &&& 0x80#8 ≠ 0)
  | .beqNotUart =>
      s.serr ||| (s.tsta &&& 0x07#8) = due ∧
        (s.tsta &&& 0x07#8 ≠ 0 → s.tsta &&& 0x80#8 ≠ 0) ∧
        i.zero = decide (s.tsta &&& 0x80#8 = 0)
  | .ldaTsta => s.serr ||| (s.tsta &&& 0x07#8) = due
  | .anda => s.serr ||| (i.a &&& 0x07#8) = due
  | .beqChkRx => s.serr ||| i.a = due ∧ i.zero = decide (i.a = 0)
  | .oraSerr => s.serr ||| i.a = due
  | .staSerr | .staRxfull => i.a = due
  | .ldxSrx | .cbufPut =>
      (if sbufsz ≤ s.srxbuf.count then s.serr ||| utErrRxfull else s.serr) = due
  | .bccChkTx => (if i.carry then s.serr ||| utErrRxfull else s.serr) = due
  | .ldaSerr => s.serr ||| utErrRxfull = due
  | .oraRxfull => i.a ||| utErrRxfull = due
  | _ => s.serr = due

/-- The byte the ISR holds between UT_DAT and SRXBUF. -/
def Sys.arriving (s : Sys) : List Byte :=
  match s.isr with
  | some i =>
      match i.pc with
      | .ldxSrx | .cbufPut => if sbufsz ≤ s.srxbuf.count then [] else [i.a]
      | _ => []
  | none => []

/-- The byte UT_READ holds between SRXBUF and the caller's buffer. -/
def Main.leaving (m : Main) : List Byte :=
  match m.pc with
  | .utRead .tst | .utRead .bne | .utRead .andcc | .utRead .pulsX | .utRead .bcs =>
      if m.r.getFlag ccC then [] else [m.r.a]
  | .utRead .sta => [m.r.a]
  | _ => []

/-- The registers UT_READ has pushed stand on top of the stack. -/
def Main.Top (m : Main) (called : Regs) : Prop := ∃ rest, m.stack = called :: rest

/-- They stand below one more set, of which `kept` holds. -/
def Main.Under (m : Main) (called : Regs) (kept : Regs → Prop) : Prop :=
  ∃ saved rest, m.stack = saved :: called :: rest ∧ kept saved

/-- UT_READ, by instruction: where its caller's registers are, and what it has
computed from them, `n` bytes being stored. -/
def ReadPlace (m : Main) (utrMasked : Byte) (called : Regs) (n : Nat) : ReadPc → Prop
  | .pshs => False
  | .tfrCc => m.Top called ∧ n = 0 ∧ m.r.cc = called.cc
  | .anda => m.Top called ∧ n = 0 ∧ m.r.a = called.cc
  | .staMasked => m.Top called ∧ n = 0 ∧ m.r.a = called.cc &&& ccI
  | .tfrU => m.Top called ∧ n = 0 ∧ utrMasked = called.cc &&& ccI
  | .cmpu | .bra =>
      m.Top called ∧ m.r.u = called.y - BitVec.ofNat 16 n ∧ utrMasked = called.cc &&& ccI
  | .beq =>
      m.Top called ∧ m.r.u = called.y - BitVec.ofNat 16 n ∧ utrMasked = called.cc &&& ccI ∧
        m.r.getFlag ccZ = decide (m.r.u = 0)
  | .pshsX | .bcs | .sta =>
      m.Top called ∧ m.r.u = called.y - BitVec.ofNat 16 n ∧ utrMasked = called.cc &&& ccI ∧
        n < called.y.toNat
  | .leau =>
      m.Top called ∧ m.r.u = called.y - BitVec.ofNat 16 (n - 1) ∧
        utrMasked = called.cc &&& ccI ∧ 0 < n
  | .orcc | .ldx | .cbufGet | .tst | .pulsX =>
      m.Under called (·.x = m.r.x) ∧ m.r.u = called.y - BitVec.ofNat 16 n ∧
        utrMasked = called.cc &&& ccI ∧ n < called.y.toNat
  | .bne =>
      m.Under called (·.x = m.r.x) ∧ m.r.u = called.y - BitVec.ofNat 16 n ∧
        utrMasked = called.cc &&& ccI ∧ n < called.y.toNat ∧
        m.r.getFlag ccZ = decide (utrMasked = 0)
  | .andcc =>
      m.Under called (·.x = m.r.x) ∧ m.r.u = called.y - BitVec.ofNat 16 n ∧
        utrMasked = called.cc &&& ccI ∧ n < called.y.toNat ∧ called.getFlag ccI = false
  | .tfrD => m.Top called ∧ m.r.u = called.y - BitVec.ofNat 16 n
  | .pshsU => m.Top called ∧ m.r.u = called.y - BitVec.ofNat 16 n ∧ m.r.d = called.y
  | .subd => m.Under called (·.u = called.y - BitVec.ofNat 16 n) ∧ m.r.d = called.y
  | .tfrY => m.Top called ∧ m.r.d = BitVec.ofNat 16 n
  | .puls => m.Top called ∧ m.r.y = BitVec.ofNat 16 n

/-- The bytes of one UT_READ fill its caller's buffer from the start. -/
structure Filled (called : Regs) (stored : List (Word × Byte)) : Prop where
  fits : stored.length ≤ called.y.toNat
  addresses : stored.map Prod.fst =
    (List.range stored.length).map fun i => called.x + BitVec.ofNat 16 i

/-- The registers UT_READ never writes. -/
def untouched (r : Regs) : Regs := { r with cc := 0, a := 0, b := 0, x := 0, y := 0, u := 0 }

/-- UT_READ under way. -/
structure Reading (s : Sys) (pc : ReadPc) (called : Regs) : Prop where
  filled : Filled called (delivered s.trace)
  x : s.main.r.x = called.x + BitVec.ofNat 16 (delivered s.trace).length
  y : pc ≠ .puls → s.main.r.y = called.y
  others : untouched s.main.r = untouched called
  masked : called.getFlag ccI = true → s.main.r.getFlag ccI = true
  place : ReadPlace s.main s.utrMasked called (delivered s.trace).length pc

def MainRx (s : Sys) : Prop :=
  match s.main.pc with
  | .utRead .pshs => delivered s.trace = []
  | .utRead pc => ∃ called, Reading s pc called
  | .utIoctl .geClr => delivered s.trace = [] ∧ s.main.r.b = s.serr
  | _ => delivered s.trace = []

/-- What UT_READ gives back to its caller. -/
def afterRead (called : Regs) (stored : List (Word × Byte)) : Regs :=
  { called with
    x := called.x + BitVec.ofNat 16 stored.length
    y := BitVec.ofNat 16 stored.length }

/-- What UT_READ and UT_IOC_GETERR report is what happened since they last did. -/
def Honest (before : List Action) : Action → Prop
  | .geterr value => value = errorsDue before
  | .readReturn called returned =>
      Filled called (delivered before) ∧ returned = afterRead called (delivered before)
  | _ => True

structure RxInv (s : Sys) : Prop where
  buffer : s.srxbuf.WellFormed
  announced : s.isr = none → Announced s.uart
  isr : ∀ i, s.isr = some i → IsrRx s i ∧ IsrSerr s i
  serr : s.isr = none → s.serr = errorsDue s.trace
  main : MainRx s
  ordered :
    returned s.trace ++ s.main.leaving ++ s.srxbuf.contents ++ s.arriving = kept s.trace
  honest : Run.Each Honest s.trace

/-! Time passing at the chip. -/

theorem Announced.drifts {u u' : Uart} (announced : Announced u) (drifts : u.Drifts u')
    (listening : u.rxIrqEnabled = true) : Announced u' := by
  intro full
  rcases drifts.receives listening full with before | latched
  · exact drifts.irq (announced before)
  · exact latched

theorem Heard.drifts {u u' : Uart} {value : Byte} (heard : Heard u value)
    (drifts : u.Drifts u') (listening : u.rxIrqEnabled = true) : Heard u' value := by
  intro full
  rcases drifts.receives listening full with before | latched
  · exact (heard before).imp_left drifts.irq
  · exact .inl latched

theorem IsrRx.drifts {s : Sys} {i : Isr} {uart : Uart} (here : IsrRx s i)
    (drifts : s.uart.Drifts uart) (listening : s.uart.rxIrqEnabled = true) :
    IsrRx { s with uart } i := by
  obtain ⟨pc, a, zero, carry⟩ := i
  cases pc with
  | staTsta | timIrq | ldaTsta | anda | beqChkRx | oraSerr | staSerr | timRdrf =>
      exact Heard.drifts here drifts listening
  | beqNotUart | beqChkTx => exact ⟨here.1.drifts drifts listening, here.2⟩
  | ldaDat => trivial
  | _ => exact Announced.drifts here drifts listening

theorem MainRx.ofSame {s s' : Sys} (here : MainRx s) (main : s'.main = s.main)
    (trace : delivered s'.trace = delivered s.trace) (mask : s'.utrMasked = s.utrMasked)
    (serr : s.main.pc = .utIoctl .geClr → s'.serr = s.serr) : MainRx s' := by
  unfold MainRx at here ⊢
  rw [main, trace]
  split at here
  · exact here
  · obtain ⟨called, reading⟩ := here
    obtain ⟨filled, x, y, others, kept, place⟩ := reading
    refine ⟨called, ?_⟩
    constructor
    all_goals simp only [main, trace, mask]
    all_goals assumption
  · rename_i atClr
    rw [serr atClr]
    exact here
  · exact here

theorem RxInv.drifts {s : Sys} {uart : Uart} (inv : RxInv s) (drifts : s.uart.Drifts uart)
    (listening : s.uart.rxIrqEnabled = true) : RxInv { s with uart } where
  buffer := inv.buffer
  announced idle := (inv.announced idle).drifts drifts listening
  isr i active := ⟨(inv.isr i active).1.drifts drifts listening, (inv.isr i active).2⟩
  serr := inv.serr
  main := inv.main.ofSame rfl rfl rfl fun _ => rfl
  ordered := inv.ordered
  honest := inv.honest

/-! Traces one entry longer. -/

@[simp] theorem errorsDue_append (first second : List Action) :
    errorsDue (first ++ second) = second.foldl Action.noteErrors (errorsDue first) :=
  List.foldl_append

@[simp] theorem delivered_append (first second : List Action) :
    delivered (first ++ second) = second.foldl Action.noteDelivered (delivered first) :=
  List.foldl_append

@[simp] theorem kept_append (first second : List Action) :
    kept (first ++ second) = kept first ++ kept second :=
  List.filterMap_append

@[simp] theorem returned_append (first second : List Action) :
    returned (first ++ second) = returned first ++ returned second :=
  List.filterMap_append

/-! The ISR. -/

theorem RxInv.isr_rx {s : Sys} {i i' : Isr} (inv : RxInv s) (active : s.isr = some i)
    (next : (utIsr cyclesPerChar i s).isr = some i') :
    IsrRx (utIsr cyclesPerChar i s) i' := by
  have here := (inv.isr i active).1
  obtain ⟨pc, a, zero, carry⟩ := i
  cases pc with
  | ldaSta =>
      cases next
      exact fun full => .inr ⟨s.uart.statusRegister_bits.1.mpr (here full),
        s.uart.statusRegister_bits.2.2.1.mpr full⟩
  | timIrq | timRdrf =>
      cases next
      exact ⟨here, rfl⟩
  | beqNotUart =>
      obtain ⟨heard, flag⟩ := here
      cases zero with
      | true =>
          cases next
          exact fun full => (heard full).resolve_right fun both =>
            both.1 (of_decide_eq_true flag.symm)
      | false =>
          cases next
          exact heard
  | beqChkTx =>
      obtain ⟨heard, flag⟩ := here
      cases zero with
      | true =>
          cases next
          exact fun full => (heard full).resolve_right fun both =>
            both.2 (of_decide_eq_true flag.symm)
      | false =>
          cases next
          trivial
  | ldaDat =>
      cases next
      exact nofun
  | beqChkRx | beqDone => cases zero <;> cases next <;> exact here
  | bccChkTx | bcsTxEnd => cases carry <;> cases next <;> exact here
  | cbufPut | cbufGet =>
      simp only [utIsr, Option.some.injEq] at next
      subst next
      exact here
  | staCmd =>
      cases next
      exact fun full => by simp [utIsr, here full]
  | rtiSent | rti => cases next
  | _ =>
      cases next
      exact here

theorem TxInv.errors_heard {s : Sys} (inv : TxInv s) (announced : Announced s.uart) :
    s.uart.statusRegister &&& 0x07#8 ≠ 0 → s.uart.statusRegister &&& 0x80#8 ≠ 0 := by
  intro errors
  have full := inv.sound.errors (s.uart.statusRegister_bits.2.2.2.mp errors)
  exact s.uart.statusRegister_bits.1.mpr (announced full)

theorem RxInv.isr_serr {s : Sys} {i i' : Isr} (inv : RxInv s) (tx : TxInv s)
    (active : s.isr = some i) (next : (utIsr cyclesPerChar i s).isr = some i') :
    IsrSerr (utIsr cyclesPerChar i s) i' := by
  obtain ⟨announced, here⟩ := inv.isr i active
  obtain ⟨pc, a, zero, carry⟩ := i
  cases pc with
  | ldaSta =>
      cases next
      refine ⟨?_, tx.errors_heard announced⟩
      have due : s.serr = errorsDue s.trace := here
      simp [utIsr, due, Action.noteErrors]
  | timIrq =>
      cases next
      exact ⟨here.1, here.2, rfl⟩
  | beqNotUart =>
      obtain ⟨due, heard, flag⟩ := here
      cases zero with
      | true =>
          cases next
          -- The IRQ was not the UART's, so the status had no error in it either.
          have clear : s.tsta &&& 0x80#8 = 0 := of_decide_eq_true flag.symm
          have none : s.tsta &&& 0x07#8 = 0 := Decidable.not_not.mp fun errors =>
            heard errors clear
          have same : s.serr = errorsDue s.trace := by simpa [none] using due
          exact same
      | false =>
          cases next
          exact due
  | anda =>
      cases next
      exact ⟨here, rfl⟩
  | beqChkRx =>
      obtain ⟨due, flag⟩ := here
      cases zero with
      | true =>
          cases next
          have none : a = 0 := of_decide_eq_true flag.symm
          have same : s.serr = errorsDue s.trace := by simpa [none] using due
          exact same
      | false =>
          cases next
          exact due
  | oraSerr =>
      cases next
      exact (BitVec.or_comm ..).trans here
  | ldaDat =>
      cases next
      have due : s.serr = errorsDue s.trace := here
      by_cases full : sbufsz ≤ s.srxbuf.count <;>
        simp [IsrSerr, utIsr, due, full, Action.noteErrors]
  | cbufPut =>
      simp only [utIsr, Option.some.injEq] at next
      subst next
      have due : (if sbufsz ≤ s.srxbuf.count then s.serr ||| utErrRxfull else s.serr) =
        errorsDue s.trace := here
      simp only [inv.buffer.full_iff] at due
      have put := (cbufPut_contents inv.buffer a).2
      split at put
      · rename_i full
        simpa [IsrSerr, utIsr, put, full] using due
      · rename_i room
        simpa [IsrSerr, utIsr, put, room] using due
  | bccChkTx =>
      cases carry with
      | true =>
          cases next
          exact here
      | false =>
          cases next
          exact here
  | beqChkTx | beqDone => cases zero <;> cases next <;> exact here
  | bcsTxEnd => cases carry <;> cases next <;> exact here
  | cbufGet =>
      simp only [utIsr, Option.some.injEq] at next
      subst next
      exact here
  | staDat =>
      cases next
      have due : s.serr = errorsDue s.trace := here
      simpa [utIsr, IsrSerr, Action.noteErrors] using due
  | rtiSent | rti => cases next
  | _ =>
      cases next
      exact here

variable (cyclesPerChar) in
theorem RxInv.isr_queue {s : Sys} {i : Isr} (inv : RxInv s) (active : s.isr = some i) :
    (utIsr cyclesPerChar i s).srxbuf.WellFormed ∧
      returned (utIsr cyclesPerChar i s).trace ++ s.main.leaving ++
        (utIsr cyclesPerChar i s).srxbuf.contents ++ (utIsr cyclesPerChar i s).arriving =
          kept (utIsr cyclesPerChar i s).trace := by
  have ordered := inv.ordered
  obtain ⟨pc, a, zero, carry⟩ := i
  simp only [Sys.arriving, active] at ordered
  cases pc with
  | ldaSta | staDat =>
      refine ⟨inv.buffer, ?_⟩
      simpa [utIsr, Sys.arriving, returned, kept] using ordered
  | ldaDat =>
      refine ⟨inv.buffer, ?_⟩
      by_cases full : sbufsz ≤ s.srxbuf.count
      · simpa [utIsr, Sys.arriving, full, returned, kept] using ordered
      · have before : returned s.trace ++ (s.main.leaving ++ s.srxbuf.contents) =
            kept s.trace := by simpa using ordered
        have one : returned [.readDat s.uart.rxData false] = [] ∧
            kept [.readDat s.uart.rxData false] = [s.uart.rxData] := ⟨rfl, rfl⟩
        simp [utIsr, Sys.arriving, full, one, ← before]
  | beqNotUart | beqChkRx | beqChkTx | beqDone =>
      refine ⟨inv.buffer, ?_⟩
      cases zero <;> exact ordered
  | bccChkTx | bcsTxEnd =>
      refine ⟨inv.buffer, ?_⟩
      cases carry <;> exact ordered
  | cbufPut =>
      obtain ⟨wellFormed, put⟩ := cbufPut_contents inv.buffer a
      refine ⟨wellFormed, ?_⟩
      simp only [inv.buffer.full_iff] at ordered
      split at put
      · rename_i full
        simpa [utIsr, Sys.arriving, put, full] using ordered
      · rename_i room
        simpa [utIsr, Sys.arriving, put, room] using ordered
  | _ => exact ⟨inv.buffer, ordered⟩

variable (cyclesPerChar) in
/-- The ISR adds no report to the trace, and takes nothing of UT_READ's. -/
theorem utIsr_reports (i : Isr) (s : Sys) :
    delivered (utIsr cyclesPerChar i s).trace = delivered s.trace ∧
      (utIsr cyclesPerChar i s).utrMasked = s.utrMasked ∧
      (Run.Each Honest s.trace → Run.Each Honest (utIsr cyclesPerChar i s).trace) := by
  obtain ⟨pc, a, zero, carry⟩ := i
  cases pc with
  | ldaSta | ldaDat | staDat =>
      refine ⟨?_, rfl, fun honest => honest.snoc trivial⟩
      simp [utIsr, Action.noteDelivered]
  | _ => exact ⟨rfl, rfl, id⟩

/-- The ISR leaves nothing undone when it returns. -/
theorem RxInv.isr_returns {s : Sys} {i : Isr} (inv : RxInv s) (active : s.isr = some i)
    (returns : (utIsr cyclesPerChar i s).isr = none) :
    Announced (utIsr cyclesPerChar i s).uart ∧
      (utIsr cyclesPerChar i s).serr = errorsDue (utIsr cyclesPerChar i s).trace := by
  have here := inv.isr i active
  obtain ⟨pc, a, zero, carry⟩ := i
  cases pc with
  | rtiSent | rti => exact here
  | _ => cases returns

theorem MainRx.utIsr {s : Sys} {i : Isr} (here : MainRx s) (masked : s.Masked)
    (active : s.isr = some i) : MainRx (utIsr cyclesPerChar i s) := by
  obtain ⟨sameDelivered, sameMask, -⟩ := utIsr_reports cyclesPerChar i s
  refine here.ofSame (utIsr_main i s) sameDelivered sameMask fun atClr => ?_
  have idle := (masked (by rw [atClr]; rfl)).2
  rw [active] at idle
  cases idle

theorem RxInv.utIsr {s : Sys} {i : Isr} (inv : RxInv s) (tx : TxInv s)
    (active : s.isr = some i) : RxInv (utIsr cyclesPerChar i s) := by
  obtain ⟨buffer, ordered⟩ := inv.isr_queue cyclesPerChar active
  obtain ⟨-, -, honest⟩ := utIsr_reports cyclesPerChar i s
  exact {
    buffer
    announced := fun returns => (inv.isr_returns active returns).1
    isr := fun _ next => ⟨inv.isr_rx active next, inv.isr_serr tx active next⟩
    serr := fun returns => (inv.isr_returns active returns).2
    main := inv.main.utIsr tx.masked active
    ordered := by rwa [utIsr_main]
    honest := honest inv.honest }

/-! The main program outside UT_READ. -/

/-- While no ISR runs. -/
theorem RxInv.of_idle {s : Sys} (idle : s.isr = none) (buffer : s.srxbuf.WellFormed)
    (announced : Announced s.uart) (serr : s.serr = errorsDue s.trace) (main : MainRx s)
    (ordered : returned s.trace ++ s.main.leaving ++ s.srxbuf.contents = kept s.trace)
    (honest : Run.Each Honest s.trace) : RxInv s where
  buffer := buffer
  announced _ := announced
  isr i active := by
    rw [idle] at active
    cases active
  serr _ := serr
  main := main
  ordered := by
    rw [Sys.arriving, idle, List.append_nil]
    exact ordered
  honest := honest

theorem RxInv.ordered_idle {s : Sys} (inv : RxInv s) (idle : s.isr = none) :
    returned s.trace ++ s.main.leaving ++ s.srxbuf.contents = kept s.trace := by
  have ordered := inv.ordered
  rwa [Sys.arriving, idle, List.append_nil] at ordered

theorem RxInv.utPutc1 {s : Sys} {pc : PutcPc} (inv : RxInv s) (idle : s.isr = none)
    (atPc : s.main.pc = .utPutc1 pc) : RxInv (utPutc1 cyclesPerChar pc s) := by
  have none : delivered s.trace = [] := by
    have here := inv.main
    rwa [MainRx, atPc] at here
  have ordered := inv.ordered_idle idle
  have announced := inv.announced idle
  have serr := inv.serr idle
  rw [Main.leaving, atPc] at ordered
  cases pc with
  | cbufPut =>
      have put : (Serio.utPutc1 cyclesPerChar .cbufPut s).trace = s.trace ∨
          (Serio.utPutc1 cyclesPerChar .cbufPut s).trace =
            s.trace ++ [.accept s.main.r.a] := by
        simp only [Serio.utPutc1]
        split <;> simp
      rcases put with same | more
      · refine .of_idle idle inv.buffer announced ?_ ?_ ?_ ?_ <;> simp only [MainRx, same]
        · exact serr
        · exact none
        · exact ordered
        · exact inv.honest
      · refine .of_idle idle inv.buffer announced ?_ ?_ ?_ ?_ <;> simp only [MainRx, more]
        · simpa [Serio.utPutc1, Action.noteErrors] using serr
        · simpa [Serio.utPutc1, Action.noteDelivered] using none
        · simpa [Serio.utPutc1, Main.leaving, returned, kept] using ordered
        · exact inv.honest.snoc trivial
  | stbCmd =>
      refine .of_idle idle inv.buffer (fun full => ?_) serr none ordered inv.honest
      simp [Serio.utPutc1, announced full]
  | bcc =>
      refine .of_idle idle inv.buffer announced serr ?_ ?_ inv.honest
      · exact none
      · exact ordered
  | _ => exact .of_idle idle inv.buffer announced serr none ordered inv.honest

theorem RxInv.utIoctl {s : Sys} {pc : IoctlPc} (inv : RxInv s) (idle : s.isr = none)
    (atPc : s.main.pc = .utIoctl pc) : RxInv (utIoctl cyclesPerChar pc s) := by
  have here := inv.main
  have ordered := inv.ordered_idle idle
  have announced := inv.announced idle
  have serr := inv.serr idle
  rw [MainRx, atPc] at here
  rw [Main.leaving, atPc] at ordered
  cases pc with
  | geLdb =>
      exact .of_idle idle inv.buffer announced serr ⟨here, rfl⟩ ordered inv.honest
  | geClr =>
      obtain ⟨none, value⟩ := here
      refine .of_idle idle inv.buffer announced ?_ ?_ ?_ (inv.honest.snoc (value.trans serr))
      · simp [Serio.utIoctl, Action.noteErrors]
      · simpa [Serio.utIoctl, MainRx, Main.goto, Action.noteDelivered] using none
      · simpa [Serio.utIoctl, Main.leaving, Main.goto, returned, kept] using ordered
  | beqGeterr | bneBadfn | bneWait =>
      refine .of_idle idle inv.buffer announced serr ?_ ?_ inv.honest
      · simp only [MainRx, Serio.utIoctl, Main.goto]
        cases s.main.r.getFlag ccZ <;> exact here
      · simp only [Main.leaving, Serio.utIoctl, Main.goto]
        cases s.main.r.getFlag ccZ <;> exact ordered
  | _ => exact .of_idle idle inv.buffer announced serr here ordered inv.honest

/-! UT_READ. -/

private theorem room_left {asked : Word} {n : Nat} (fits : n ≤ asked.toNat)
    (more : asked - BitVec.ofNat 16 n ≠ 0) : n < asked.toNat := by
  refine Nat.lt_of_le_of_ne fits fun all => more ?_
  rw [all, BitVec.ofNat_toNat, BitVec.setWidth_eq, BitVec.sub_self]
  rfl

theorem Filled.snoc {called : Regs} {stored : List (Word × Byte)} (filled : Filled called stored)
    (room : stored.length < called.y.toNat) (byte : Byte) :
    Filled called (stored ++ [(called.x + BitVec.ofNat 16 stored.length, byte)]) where
  fits := by
    rw [List.length_append]
    exact room
  addresses := by
    rw [List.map_append, filled.addresses, List.length_append, List.length_singleton,
      List.range_succ, List.map_append]
    rfl

/-- Every instruction but the first and the last stays in UT_READ. -/
theorem Reading.next {s : Sys} {pc : ReadPc} {called : Regs} (reading : Reading s pc called)
    (notLast : pc ≠ .puls) :
    ∃ pc', (utRead pc s).main.pc = .utRead pc' ∧ pc' ≠ .pshs ∧
      Reading (utRead pc s) pc' called := by
  have y := reading.y notLast
  have here := reading.place
  have sameMask : ∀ {bit : Byte} (value : Bool), bit &&& ccI = 0#8 →
      (called.getFlag ccI = true → (s.main.r.setFlag bit value).getFlag ccI = true) := by
    intro bit value apart
    rw [Regs.getFlag_setFlag_ne _ _ apart]
    exact reading.masked
  cases pc with
  | pshs => exact here.elim
  | puls => exact absurd rfl notLast
  | tfrCc | anda =>
      refine ⟨_, rfl, by decide, { reading with y := fun _ => y, place := ?_ }⟩
      exact ⟨here.1, here.2.1, by simp [utRead, here.2.2]⟩
  | staMasked =>
      exact ⟨_, rfl, by decide, { reading with y := fun _ => y, place := here }⟩
  | tfrU =>
      refine ⟨_, rfl, by decide, { reading with y := fun _ => y, place := ?_ }⟩
      exact ⟨here.1, by simp [utRead, here.2.1, y], here.2.2⟩
  | cmpu =>
      refine ⟨_, rfl, by decide, { reading with
        y := fun _ => y, masked := sameMask _ rfl, place := ?_ }⟩
      exact ⟨here.1, here.2.1, here.2.2, Regs.getFlag_setFlag _ _ (by decide)⟩
  | beq =>
      obtain ⟨top, left, mask, flag⟩ := here
      cases zero : s.main.r.getFlag ccZ with
      | true =>
          refine ⟨.tfrD, by simp [utRead, Main.goto, zero], by decide,
            { reading with y := fun _ => y, place := ⟨top, left⟩ }⟩
      | false =>
          have more : s.main.r.u ≠ 0 := of_decide_eq_false (flag.symm.trans zero)
          rw [left] at more
          have room := room_left reading.filled.fits more
          refine ⟨.pshsX, by simp [utRead, Main.goto, zero], by decide,
            { reading with y := fun _ => y, place := ⟨top, left, mask, room⟩ }⟩
  | pshsX =>
      obtain ⟨⟨rest, stack⟩, left, mask, room⟩ := here
      refine ⟨_, rfl, by decide, { reading with y := fun _ => y, place := ?_ }⟩
      exact ⟨⟨s.main.r, rest, congrArg (s.main.r :: ·) stack, rfl⟩, left, mask, room⟩
  | orcc =>
      refine ⟨_, rfl, by decide, { reading with y := fun _ => y, masked := ?_, place := here }⟩
      exact fun _ => Regs.getFlag_setFlag _ _ (by decide)
  | ldx => exact ⟨_, rfl, by decide, { reading with y := fun _ => y, place := here }⟩
  | cbufGet =>
      exact ⟨_, rfl, by decide, { reading with
        y := fun _ => y, masked := sameMask _ rfl, place := here }⟩
  | tst =>
      obtain ⟨under, left, mask, room⟩ := here
      refine ⟨_, rfl, by decide, { reading with
        y := fun _ => y, masked := sameMask _ rfl, place := ?_ }⟩
      exact ⟨under, left, mask, room, Regs.getFlag_setFlag _ _ (by decide)⟩
  | bne =>
      obtain ⟨under, left, mask, room, flag⟩ := here
      cases zero : s.main.r.getFlag ccZ with
      | true =>
          have clear : s.utrMasked = 0 := of_decide_eq_true (flag.symm.trans zero)
          have unmasked : called.getFlag ccI = false := by
            rw [Regs.getFlag, ← mask, clear]
            rfl
          refine ⟨.andcc, by simp [utRead, Main.goto, zero], by decide,
            { reading with y := fun _ => y, place := ⟨under, left, mask, room, unmasked⟩ }⟩
      | false =>
          refine ⟨.pulsX, by simp [utRead, Main.goto, zero], by decide,
            { reading with y := fun _ => y, place := ⟨under, left, mask, room⟩ }⟩
  | andcc =>
      obtain ⟨under, left, mask, room, unmasked⟩ := here
      refine ⟨_, rfl, by decide, { reading with
        y := fun _ => y, masked := ?_, place := ⟨under, left, mask, room⟩ }⟩
      intro kept
      rw [unmasked] at kept
      cases kept
  | pulsX =>
      obtain ⟨⟨saved, rest, stack, sameX⟩, left, mask, room⟩ := here
      have after : (utRead .pulsX s).main =
          { s.main with pc := .utRead .bcs, stack := called :: rest } := by
        simp [utRead, Main.puls, Main.goto, stack, sameX]
      refine ⟨.bcs, by rw [after], by decide, ?_⟩
      exact {
        filled := reading.filled
        x := by rw [after]; exact reading.x
        y := by rw [after]; exact fun _ => y
        others := by rw [after]; exact reading.others
        masked := by rw [after]; exact reading.masked
        place := by rw [after]; exact ⟨⟨rest, rfl⟩, left, mask, room⟩ }
  | bcs =>
      obtain ⟨top, left, mask, room⟩ := here
      cases carry : s.main.r.getFlag ccC with
      | true =>
          refine ⟨.tfrD, by simp [utRead, Main.goto, carry], by decide,
            { reading with y := fun _ => y, place := ⟨top, left⟩ }⟩
      | false =>
          refine ⟨.sta, by simp [utRead, Main.goto, carry], by decide,
            { reading with y := fun _ => y, place := ⟨top, left, mask, room⟩ }⟩
  | sta =>
      obtain ⟨top, left, mask, room⟩ := here
      have stored : delivered (utRead .sta s).trace =
          delivered s.trace ++ [(s.main.r.x, s.main.r.a)] := by
        simp [utRead, Action.noteDelivered]
      have one : (delivered (utRead .sta s).trace).length = (delivered s.trace).length + 1 := by
        rw [stored, List.length_append, List.length_singleton]
      refine ⟨.leau, rfl, by decide, ?_⟩
      exact {
        filled := by
          rw [stored, reading.x]
          exact reading.filled.snoc room _
        x := by
          rw [one, BitVec.ofNat_add, ← BitVec.add_assoc, ← reading.x]
          rfl
        y := fun _ => y
        others := reading.others
        masked := reading.masked
        place := by
          rw [one]
          exact ⟨top, left, mask, Nat.succ_pos _⟩ }
  | leau =>
      obtain ⟨top, left, mask, some⟩ := here
      refine ⟨_, rfl, by decide, { reading with y := fun _ => y, place := ⟨top, ?_, mask⟩ }⟩
      have count : BitVec.ofNat 16 (delivered s.trace).length =
          BitVec.ofNat 16 ((delivered s.trace).length - 1) + 1 := by
        conv => lhs; rw [← Nat.sub_add_cancel some, BitVec.ofNat_add]
        rfl
      simp only [utRead, left, count]
      bv_omega
  | bra => exact ⟨_, rfl, by decide, { reading with y := fun _ => y, place := here }⟩
  | tfrD =>
      refine ⟨_, rfl, by decide, { reading with y := fun _ => y, place := ?_ }⟩
      exact ⟨here.1, here.2, by simp [utRead, y]⟩
  | pshsU =>
      obtain ⟨⟨rest, stack⟩, left, all⟩ := here
      refine ⟨_, rfl, by decide, { reading with y := fun _ => y, place := ?_ }⟩
      exact ⟨⟨s.main.r, rest, congrArg (s.main.r :: ·) stack, left⟩, all⟩
  | subd =>
      obtain ⟨⟨saved, rest, stack, left⟩, all⟩ := here
      have after : (utRead .subd s).main = { s.main with
          pc := .utRead .tfrY
          r := s.main.r.setD (BitVec.ofNat 16 (delivered s.trace).length)
          stack := called :: rest } := by
        have count : called.y - (called.y - BitVec.ofNat 16 (delivered s.trace).length) =
            BitVec.ofNat 16 (delivered s.trace).length := by
          bv_omega
        simp [utRead, Main.puls, Main.goto, stack, left, all, count]
      refine ⟨.tfrY, by rw [after], by decide, ?_⟩
      exact {
        filled := reading.filled
        x := by rw [after]; exact reading.x
        y := by rw [after]; exact fun _ => y
        others := by rw [after]; exact reading.others
        masked := by rw [after]; exact reading.masked
        place := by rw [after]; exact ⟨⟨rest, rfl⟩, Regs.d_setD ..⟩ }
  | tfrY =>
      exact ⟨_, rfl, by decide, { reading with y := fun last => absurd rfl last, place := here }⟩

theorem Reading.start {s : Sys} (none : delivered s.trace = []) :
    Reading (utRead .pshs s) .tfrCc s.main.r where
  filled := by
    rw [show delivered (utRead .pshs s).trace = [] from none]
    exact ⟨Nat.zero_le _, rfl⟩
  x := by
    rw [show delivered (utRead .pshs s).trace = [] from none]
    exact (BitVec.add_zero _).symm
  y _ := rfl
  others := rfl
  masked := id
  place := ⟨⟨s.main.stack, rfl⟩, congrArg List.length none, rfl⟩

theorem Reading.last {s : Sys} {called : Regs} (reading : Reading s .puls called) :
    (utRead .puls s).trace =
      s.trace ++ [.readReturn called (afterRead called (delivered s.trace))] := by
  obtain ⟨⟨rest, stack⟩, count⟩ := reading.place
  have back : { s.main.r with cc := called.cc, a := called.a, b := called.b, u := called.u } =
      afterRead called (delivered s.trace) := by
    have others := reading.others
    simp only [untouched, Regs.mk.injEq] at others
    simp [afterRead, others, count, reading.x]
  simp [utRead, Main.puls, Main.goto, stack, back]

private theorem ccZ_ccC : ccZ &&& ccC = 0#8 := rfl

private theorem ccI_ccC : ccI &&& ccC = 0#8 := rfl

/-- UT_READ moves bytes from SRXBUF to its caller's buffer, one at a time. -/
theorem RxInv.read_queue {s : Sys} {pc : ReadPc} (inv : RxInv s) (idle : s.isr = none)
    (atPc : s.main.pc = .utRead pc) :
    (utRead pc s).srxbuf.WellFormed ∧
      returned (utRead pc s).trace ++ (utRead pc s).main.leaving ++
        (utRead pc s).srxbuf.contents = kept (utRead pc s).trace := by
  have ordered := inv.ordered_idle idle
  rw [Main.leaving, atPc] at ordered
  cases pc with
  | cbufGet =>
      obtain ⟨wellFormed, ⟨none, same⟩ | ⟨noCarry, taken⟩⟩ :=
        cbufGet_contents inv.buffer s.main.r.a
      · refine ⟨wellFormed, ?_⟩
        simpa [utRead, Main.leaving, same, Regs.getFlag_setFlag, ccC] using ordered
      · refine ⟨wellFormed, ?_⟩
        rw [taken] at ordered
        simpa [utRead, Main.leaving, noCarry, Regs.getFlag_setFlag, ccC] using ordered
  | tst =>
      refine ⟨inv.buffer, ?_⟩
      cases carry : s.main.r.getFlag ccC <;>
        simpa [utRead, Main.leaving, carry, Regs.getFlag_setFlag_ne _ _ ccZ_ccC, Regs.a_setFlag]
          using ordered
  | bne =>
      refine ⟨inv.buffer, ?_⟩
      cases zero : s.main.r.getFlag ccZ <;>
        simpa [utRead, Main.leaving, Main.goto, zero] using ordered
  | andcc =>
      refine ⟨inv.buffer, ?_⟩
      cases carry : s.main.r.getFlag ccC <;>
        simpa [utRead, Main.leaving, Main.goto, Main.mask, carry,
          Regs.getFlag_setFlag_ne _ _ ccI_ccC, Regs.a_setFlag] using ordered
  | pulsX =>
      refine ⟨inv.buffer, ?_⟩
      cases stack : s.main.stack <;>
        simpa [utRead, Main.leaving, Main.goto, Main.puls, stack] using ordered
  | bcs =>
      refine ⟨inv.buffer, ?_⟩
      cases carry : s.main.r.getFlag ccC <;>
        simpa [utRead, Main.leaving, Main.goto, carry] using ordered
  | sta =>
      refine ⟨inv.buffer, ?_⟩
      have one : returned [.deliver s.main.r.x s.main.r.a] = [s.main.r.a] ∧
          kept [.deliver s.main.r.x s.main.r.a] = [] := ⟨rfl, rfl⟩
      simpa [utRead, Main.leaving, one] using ordered
  | beq =>
      refine ⟨inv.buffer, ?_⟩
      cases zero : s.main.r.getFlag ccZ <;>
        simpa [utRead, Main.leaving, Main.goto, zero] using ordered
  | puls =>
      refine ⟨inv.buffer, ?_⟩
      cases stack : s.main.stack <;>
        simpa [utRead, Main.leaving, Main.goto, Main.puls, stack, returned, kept] using ordered
  | _ => exact ⟨inv.buffer, ordered⟩

theorem utRead_trace (s : Sys) {pc : ReadPc} (notLast : pc ≠ .puls) :
    (utRead pc s).trace = s.trace ∨
      ∃ addr byte, (utRead pc s).trace = s.trace ++ [.deliver addr byte] := by
  cases pc with
  | puls => exact absurd rfl notLast
  | sta => exact .inr ⟨_, _, rfl⟩
  | _ => exact .inl rfl

theorem RxInv.utRead {s : Sys} {pc : ReadPc} (inv : RxInv s) (idle : s.isr = none)
    (atPc : s.main.pc = .utRead pc) : RxInv (utRead pc s) := by
  obtain ⟨buffer, ordered⟩ := inv.read_queue idle atPc
  have idle' : (Serio.utRead pc s).isr = none := (utRead_stays pc s).1.trans idle
  have announced : Announced (Serio.utRead pc s).uart := by
    have same : (Serio.utRead pc s).uart = s.uart := by cases pc <;> rfl
    rw [same]
    exact inv.announced idle
  have serr := inv.serr idle
  have here := inv.main
  rw [MainRx, atPc] at here
  by_cases first : pc = .pshs
  · subst first
    exact .of_idle idle' buffer announced serr ⟨_, .start here⟩ ordered inv.honest
  · obtain ⟨called, reading⟩ : ∃ called, Reading s pc called := by
      cases pc with
      | pshs => exact absurd rfl first
      | _ => exact here
    by_cases last : pc = .puls
    · subst last
      have trace := reading.last
      refine .of_idle idle' buffer announced ?_ ?_ ordered ?_
      · rw [trace]
        simpa [Serio.utRead, Action.noteErrors] using serr
      · have none : delivered (Serio.utRead .puls s).trace = [] := by
          simp [trace, Action.noteDelivered]
        exact none
      · rw [trace]
        exact inv.honest.snoc ⟨reading.filled, rfl⟩
    · obtain ⟨pc', atNext, notFirst, reading'⟩ := reading.next last
      have main : MainRx (Serio.utRead pc s) := by
        rw [MainRx, atNext]
        cases pc' with
        | pshs => exact absurd rfl notFirst
        | _ => exact ⟨called, reading'⟩
      rcases utRead_trace s last with same | ⟨addr, byte, more⟩
      · refine .of_idle idle' buffer announced ?_ main ordered ?_
        · rw [same, ← serr]
          cases pc <;> rfl
        · rw [same]
          exact inv.honest
      · refine .of_idle idle' buffer announced ?_ main ordered ?_
        · rw [more, errorsDue_append, ← serr]
          cases pc <;> rfl
        · rw [more]
          exact inv.honest.snoc trivial

/-! Runs from UT_INIT. -/

theorem Steps.rxInv {s s' : Sys} (steps : Steps cyclesPerChar s s') (inv : RxInv s)
    (tx : TxInv s) : RxInv s' := by
  cases steps with
  | isr active => exact inv.utIsr tx active
  | utPutc1 idle here => exact inv.utPutc1 idle here
  | utRead idle here => exact inv.utRead idle here
  | utIoctl idle here => exact inv.utIoctl idle here
  | call entry r idle here =>
      have none := inv.main
      have ordered := inv.ordered_idle idle
      rw [MainRx, here] at none
      rw [Main.leaving, here] at ordered
      refine .of_idle idle inv.buffer (inv.announced idle) (inv.serr idle) ?_ ?_ inv.honest
      · cases entry <;> exact none
      · cases entry <;> exact ordered
  | elsewhere r idle here =>
      have none := inv.main
      have ordered := inv.ordered_idle idle
      rw [MainRx, here] at none
      rw [Main.leaving, here] at ordered
      refine .of_idle idle inv.buffer (inv.announced idle) (inv.serr idle) ?_ ?_ inv.honest
      · rw [MainRx]
        simp only [here]
        exact none
      · rw [Main.leaving]
        simp only [here]
        exact ordered
  | irq idle enabled =>
      have ordered := inv.ordered
      rw [Sys.arriving, idle] at ordered
      exact {
        buffer := inv.buffer
        announced := nofun
        isr := fun i started => by
          cases started
          exact ⟨inv.announced idle, inv.serr idle⟩
        serr := nofun
        main := inv.main.ofSame rfl rfl rfl fun _ => rfl
        ordered := ordered
        honest := inv.honest }
  | drift uart drifts => exact inv.drifts drifts tx.listening

theorem utInit_rxInv {s : Sys} (fresh : s.Fresh) : RxInv (utInit cyclesPerChar s) := by
  have empty := cbufInit_contents s.srxbuf
  refine .of_idle fresh.isr empty.1 ?_ ?_ ?_ ?_ ?_
  · simp [Announced, utInit, Uart.reset]
  · simp [utInit, fresh.trace, errorsDue]
  · simp [MainRx, utInit, fresh.main, fresh.trace, delivered]
  · simp [utInit, fresh.main, fresh.trace, Main.leaving, empty.2, returned, kept]
  · rw [show (utInit cyclesPerChar s).trace = [] from fresh.trace]
    exact .nil

theorem run_rxInv {s₀ s : Sys} {events : List Event} (fresh : s₀.Fresh)
    (ran : Run.run (next cyclesPerChar) (utInit cyclesPerChar s₀) events = some s) :
    RxInv s := by
  have both : TxInv s ∧ RxInv s :=
    Run.run_invariant (fun s => TxInv s ∧ RxInv s)
      (fun _ _ _ inv happened =>
        ⟨(next_steps happened).txInv inv.1, (next_steps happened).rxInv inv.2 inv.1⟩)
      ⟨utInit_txInv fresh, utInit_rxInv fresh⟩ ran
  exact both.2

/-- What the ISR reads and finds room for is returned once and in order, SERR holds
what has gone wrong since it was last read, and every UT_READ and UT_IOC_GETERR
gave its caller a true account. -/
theorem console_input {s₀ s : Sys} {events : List Event} (fresh : s₀.Fresh)
    (ran : Run.run (next cyclesPerChar) (utInit cyclesPerChar s₀) events = some s) :
    returned s.trace ++ s.main.leaving ++ s.srxbuf.contents ++ s.arriving = kept s.trace ∧
      (s.main.pc = .caller → s.main.leaving = []) ∧
      (s.isr = none → s.arriving = [] ∧ s.serr = errorsDue s.trace) ∧
      s.srxbuf.WellFormed ∧ Run.Each Honest s.trace := by
  have inv := run_rxInv fresh ran
  refine ⟨inv.ordered, fun atCaller => ?_, fun idle => ⟨?_, inv.serr idle⟩, inv.buffer,
    inv.honest⟩
  · rw [Main.leaving, atCaller]
  · rw [Sys.arriving, idle]

/-- One character comes in, the ISR takes it, and UT_READ is called for it. -/
def receiveOne (byte : Byte) (r : Regs) : List Event :=
  [.receive byte, .tick 10, .irq] ++ List.replicate 22 .isr ++ .call .utRead r ::
    List.replicate 33 .main

theorem console_input_receiveOne :
    ∃ s, Run.run (next fun _ _ => 10) (utInit (fun _ _ => 10) {})
        (receiveOne 0x41#8 { x := 0x0100, y := 2, cc := 0x10 }) = some s ∧
      s.main.r = { x := 0x0101, y := 1, cc := 0x10 } ∧ returned s.trace = [0x41#8] ∧
      Run.Each Honest s.trace := by
  have ends : (Run.run (next fun _ _ => 10) (utInit (fun _ _ => 10) {})
      (receiveOne 0x41#8 { x := 0x0100, y := 2, cc := 0x10 })).map
        (fun s => (s.main.r, returned s.trace)) =
      some ({ x := 0x0101, y := 1, cc := 0x10 }, [0x41#8]) := by
    decide
  obtain ⟨s, ran, facts⟩ := Option.map_eq_some_iff.mp ends
  obtain ⟨regs, got⟩ := Prod.mk.inj facts
  exact ⟨s, ran, regs, got, (console_input ⟨rfl, rfl, rfl⟩ ran).2.2.2.2⟩

end Pugputer.Serio

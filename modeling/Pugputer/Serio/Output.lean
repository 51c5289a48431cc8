import Pugputer.Serio.Steps

namespace Pugputer.Serio

open Hd6309 (Regs ccC ccZ ccI)

variable {cyclesPerChar : Byte → Byte → Nat}

/-! What holds of the transmit side at every instruction. -/

/-- The transmit interrupt is enabled, and is latched or will be. -/
structure Sending (u : Uart) : Prop where
  command : u.command = txIrqCmd
  due : u.txActive = true ∨ u.irqFlag = true

/-- What a status value, once read, still says of the transmitter: the read has
unlatched the IRQ, so the ISR that holds the value has to act on it. -/
structure Seen (u : Uart) (stxie value : Byte) : Prop where
  tdre : value &&& 0x10#8 ≠ 0 → u.tdre = true
  command : stxie ≠ 0 → u.command = txIrqCmd
  due : stxie ≠ 0 →
    (value &&& 0x80#8 ≠ 0 ∧ value &&& 0x10#8 ≠ 0) ∨ u.txActive = true ∨ u.irqFlag = true

/-- The transmitter has nothing to send, or sends. -/
def Resting (s : Sys) : Prop :=
  (s.stxie = 0 → s.stxbuf.contents = []) ∧ (s.stxie ≠ 0 → Sending s.uart)

/-- UT_PUTC1, by instruction, while no ISR runs. -/
def PutcTx (s : Sys) : PutcPc → Prop
  | .bcc =>
      (s.stxie ≠ 0 → Sending s.uart) ∧
        (s.main.r.getFlag ccC = true → s.stxie = 0 → s.stxbuf.contents = [])
  | .ldbStxie => s.stxie ≠ 0 → Sending s.uart
  | .bne => (s.stxie ≠ 0 → Sending s.uart) ∧ s.main.r.getFlag ccZ = decide (s.stxie = 0)
  | .ldbOne => s.stxie = 0
  | .stbStxie => s.stxie = 0 ∧ s.main.r.b = 1
  | .ldbCmd => s.uart.tdre = true ∧ s.stxie = 1
  | .stbCmd => s.uart.tdre = true ∧ s.stxie = 1 ∧ s.main.r.b = txIrqCmd
  | _ => Resting s

def MainTx (s : Sys) : Prop :=
  match s.main.pc with
  | .utPutc1 pc => PutcTx s pc
  | _ => Resting s

/-- UT_ISR, by instruction. -/
def IsrTx (s : Sys) (i : Isr) : Prop :=
  match i.pc with
  | .ldaSta | .rtiSent | .rti => s.stxie ≠ 0 → Sending s.uart
  | .staTsta => Seen s.uart s.stxie i.a
  | .beqNotUart => Seen s.uart s.stxie s.tsta ∧ i.zero = decide (s.tsta &&& 0x80#8 = 0)
  | .beqDone => Seen s.uart s.stxie s.tsta ∧ i.zero = decide (s.tsta &&& 0x10#8 = 0)
  | .ldxStx | .cbufGet => s.uart.tdre = true ∧ (s.stxie ≠ 0 → s.uart.command = txIrqCmd)
  | .bcsTxEnd =>
      s.uart.tdre = true ∧ (s.stxie ≠ 0 → s.uart.command = txIrqCmd) ∧
        if i.carry then s.stxbuf.contents = [] else s.stxie ≠ 0
  | .staDat => s.uart.tdre = true ∧ s.uart.command = txIrqCmd ∧ s.stxie ≠ 0
  | .ldaCmd => s.uart.tdre = true ∧ s.stxbuf.contents = []
  | .staCmd => s.uart.tdre = true ∧ s.stxbuf.contents = [] ∧ i.a = suartcmd
  | .clrStxie => s.uart.tdre = true ∧ s.stxbuf.contents = []
  | _ => Seen s.uart s.stxie s.tsta

/-- The byte the ISR holds between STXBUF and UT_DAT. -/
def Isr.inFlight (i : Isr) : List Byte :=
  match i.pc with
  | .bcsTxEnd => if i.carry then [] else [i.a]
  | .staDat => [i.a]
  | _ => []

def Sys.inFlight (s : Sys) : List Byte :=
  match s.isr with
  | some i => i.inFlight
  | none => []

structure TxInv (s : Sys) : Prop where
  masked : s.Masked
  sound : s.uart.Sound
  listening : s.uart.rxIrqEnabled = true
  buffer : s.stxbuf.WellFormed
  resting : s.stxie = 0 → s.uart.tdre = true
  main : s.isr = none → MainTx s
  isr : ∀ i, s.isr = some i → (s.stxie = 0 → s.stxbuf.contents = []) ∧ IsrTx s i
  ordered : written s.trace ++ s.inFlight ++ s.stxbuf.contents = accepted s.trace
  ready : ∀ byte tdre, Action.writeDat byte tdre ∈ s.trace → tdre = true

/-! Time passing at the chip. -/

theorem Sending.drifts {u u' : Uart} (sending : Sending u) (drifts : u.Drifts u') :
    Sending u' where
  command := drifts.command.trans sending.command
  due := by
    have enabled : u.txIrqEnabled = true := by
      rw [Uart.txIrqEnabled, sending.command]
      rfl
    exact drifts.sends enabled sending.due

theorem Seen.drifts {u u' : Uart} {stxie value : Byte} (seen : Seen u stxie value)
    (drifts : u.Drifts u') : Seen u' stxie value where
  tdre := drifts.tdre ∘ seen.tdre
  command transmitting := drifts.command.trans (seen.command transmitting)
  due transmitting := by
    rcases seen.due transmitting with both | due
    · exact .inl both
    · exact .inr (Sending.drifts ⟨seen.command transmitting, due⟩ drifts).due

theorem MainTx.drifts {s : Sys} {uart : Uart} (here : MainTx s)
    (drifts : s.uart.Drifts uart) : MainTx { s with uart } := by
  have sending : (s.stxie ≠ 0 → Sending s.uart) → s.stxie ≠ 0 → Sending uart :=
    fun sends transmitting => (sends transmitting).drifts drifts
  unfold MainTx at here ⊢
  dsimp only
  split at here
  · rename_i pc _
    cases pc with
    | bcc | bne => exact ⟨sending here.1, here.2⟩
    | ldbStxie => exact sending here
    | ldbOne | stbStxie => exact here
    | ldbCmd | stbCmd => exact ⟨drifts.tdre here.1, here.2⟩
    | _ => exact ⟨here.1, sending here.2⟩
  · exact ⟨here.1, sending here.2⟩

theorem IsrTx.drifts {s : Sys} {i : Isr} {uart : Uart} (here : IsrTx s i)
    (drifts : s.uart.Drifts uart) : IsrTx { s with uart } i := by
  obtain ⟨pc, a, zero, carry⟩ := i
  have command := drifts.command
  cases pc with
  | ldaSta | rtiSent | rti => exact fun transmitting => (here transmitting).drifts drifts
  | beqNotUart | beqDone => exact ⟨here.1.drifts drifts, here.2⟩
  | ldxStx | cbufGet =>
      exact ⟨drifts.tdre here.1, fun transmitting => command.trans (here.2 transmitting)⟩
  | bcsTxEnd =>
      exact ⟨drifts.tdre here.1, fun transmitting => command.trans (here.2.1 transmitting),
        here.2.2⟩
  | staDat => exact ⟨drifts.tdre here.1, command.trans here.2.1, here.2.2⟩
  | ldaCmd | staCmd | clrStxie => exact ⟨drifts.tdre here.1, here.2⟩
  | _ => exact Seen.drifts here drifts

theorem TxInv.drifts {s : Sys} {uart : Uart} (inv : TxInv s) (drifts : s.uart.Drifts uart) :
    TxInv { s with uart } where
  masked := inv.masked
  sound := drifts.sound inv.sound
  listening := by
    rw [Uart.rxIrqEnabled, drifts.command]
    exact inv.listening
  buffer := inv.buffer
  resting := drifts.tdre ∘ inv.resting
  main idle := (inv.main idle).drifts drifts
  isr i active := ⟨(inv.isr i active).1, (inv.isr i active).2.drifts drifts⟩
  ordered := inv.ordered
  ready := inv.ready

/-! The ISR. -/

/-- The status read unlatches the IRQ and leaves it in the value. -/
theorem Seen.status {s : Sys} (inv : TxInv s) (sends : s.stxie ≠ 0 → Sending s.uart) :
    Seen { s.uart with irqFlag := false } s.stxie s.uart.statusRegister where
  tdre := s.uart.statusRegister_bits.2.1.mp
  command transmitting := (sends transmitting).command
  due transmitting := by
    rcases (sends transmitting).due with active | latched
    · exact .inr (.inl active)
    · cases active : s.uart.txActive with
      | true => exact .inr (.inl rfl)
      | false =>
          have tdre : s.uart.tdre = true := by rw [inv.sound.tdre, active]; rfl
          exact .inl ⟨s.uart.statusRegister_bits.1.mpr latched,
            s.uart.statusRegister_bits.2.1.mpr tdre⟩

/-- A value that shows nothing for the ISR to send leaves the IRQ to come. -/
theorem Seen.sending {u : Uart} {stxie value : Byte} (seen : Seen u stxie value)
    (nothing : value &&& 0x80#8 = 0 ∨ value &&& 0x10#8 = 0) (transmitting : stxie ≠ 0) :
    Sending u := by
  refine ⟨seen.command transmitting, ?_⟩
  rcases seen.due transmitting with ⟨latched, empty⟩ | due
  · rcases nothing with clear | clear
    · exact absurd clear latched
    · exact absurd clear empty
  · exact due

theorem TxInv.isr_place {s : Sys} {i i' : Isr} (inv : TxInv s) (active : s.isr = some i)
    (next : (utIsr cyclesPerChar i s).isr = some i') :
    IsrTx (utIsr cyclesPerChar i s) i' := by
  obtain ⟨empty, here⟩ := inv.isr i active
  obtain ⟨pc, a, zero, carry⟩ := i
  cases pc with
  | ldaSta =>
      cases next
      exact Seen.status inv here
  | timIrq | timTdre =>
      cases next
      exact ⟨here, rfl⟩
  | beqNotUart =>
      obtain ⟨seen, flag⟩ := here
      cases zero with
      | true =>
          cases next
          exact seen.sending (.inl (of_decide_eq_true flag.symm))
      | false =>
          cases next
          exact seen
  | beqChkRx | beqChkTx => cases zero <;> cases next <;> exact here
  | bccChkTx => cases carry <;> cases next <;> exact here
  | ldaDat =>
      cases next
      exact ⟨here.tdre, here.command, here.due⟩
  | beqDone =>
      obtain ⟨seen, flag⟩ := here
      cases zero with
      | true =>
          cases next
          exact seen.sending (.inr (of_decide_eq_true flag.symm))
      | false =>
          cases next
          exact ⟨seen.tdre (of_decide_eq_false flag.symm), seen.command⟩
  | cbufGet =>
      obtain ⟨tdre, command⟩ := here
      simp only [utIsr, Option.some.injEq] at next
      subst next
      refine ⟨tdre, command, ?_⟩
      obtain ⟨_, ⟨none, same⟩ | ⟨noCarry, taken⟩⟩ := cbufGet_contents inv.buffer a
      · simp [utIsr, same, none]
      · have transmitting : s.stxie ≠ 0 := by
          intro idle
          rw [empty idle] at taken
          cases taken
        simpa [utIsr, noCarry] using transmitting
  | bcsTxEnd =>
      obtain ⟨tdre, command, rest⟩ := here
      cases carry with
      | true =>
          cases next
          exact ⟨tdre, rest⟩
      | false =>
          cases next
          exact ⟨tdre, command rest, rest⟩
  | staDat =>
      cases next
      exact fun _ => ⟨here.2.1, .inl rfl⟩
  | ldaCmd =>
      cases next
      exact ⟨here.1, here.2, rfl⟩
  | staCmd =>
      cases next
      exact ⟨here.1, here.2.1⟩
  | clrStxie =>
      cases next
      exact fun transmitting => absurd rfl transmitting
  | rtiSent | rti => cases next
  | _ =>
      cases next
      exact here

variable (cyclesPerChar) in
theorem TxInv.isr_uart {s : Sys} {i : Isr} (inv : TxInv s) (active : s.isr = some i) :
    (utIsr cyclesPerChar i s).uart.Sound ∧
      (utIsr cyclesPerChar i s).uart.rxIrqEnabled = true ∧
      ((utIsr cyclesPerChar i s).stxie = 0 → (utIsr cyclesPerChar i s).uart.tdre = true) := by
  obtain ⟨_, here⟩ := inv.isr i active
  obtain ⟨pc, a, zero, carry⟩ := i
  have sound := inv.sound
  have listening := inv.listening
  have resting := inv.resting
  cases pc with
  | ldaSta => exact ⟨⟨sound.tdre, sound.errors⟩, listening, resting⟩
  | ldaDat => exact ⟨⟨sound.tdre, by simp [utIsr]⟩, listening, resting⟩
  | staDat => exact ⟨⟨rfl, sound.errors⟩, listening, fun idle => absurd idle here.2.2⟩
  | staCmd =>
      obtain ⟨_, _, rfl⟩ := here
      exact ⟨⟨sound.tdre, sound.errors⟩, by simp [utIsr, Uart.rxIrqEnabled, suartcmd], resting⟩
  | clrStxie => exact ⟨sound, listening, fun _ => here.1⟩
  | _ => exact ⟨sound, listening, resting⟩

@[simp] theorem written_append (first second : List Action) :
    written (first ++ second) = written first ++ written second :=
  List.filterMap_append

@[simp] theorem accepted_append (first second : List Action) :
    accepted (first ++ second) = accepted first ++ accepted second :=
  List.filterMap_append

variable (cyclesPerChar) in
theorem TxInv.isr_queue {s : Sys} {i : Isr} (inv : TxInv s) (active : s.isr = some i) :
    (utIsr cyclesPerChar i s).stxbuf.WellFormed ∧
      ((utIsr cyclesPerChar i s).stxie = 0 → (utIsr cyclesPerChar i s).stxbuf.contents = []) ∧
      written (utIsr cyclesPerChar i s).trace ++ (utIsr cyclesPerChar i s).inFlight ++
        (utIsr cyclesPerChar i s).stxbuf.contents = accepted (utIsr cyclesPerChar i s).trace := by
  obtain ⟨empty, here⟩ := inv.isr i active
  have ordered := inv.ordered
  obtain ⟨pc, a, zero, carry⟩ := i
  simp only [Sys.inFlight, active] at ordered
  cases pc with
  | ldaSta =>
      refine ⟨inv.buffer, empty, ?_⟩
      simpa [utIsr, Sys.inFlight, Isr.inFlight, written, accepted] using ordered
  | ldaDat =>
      refine ⟨inv.buffer, empty, ?_⟩
      simpa [utIsr, Sys.inFlight, Isr.inFlight, written, accepted] using ordered
  | beqNotUart | beqChkRx | beqChkTx | beqDone =>
      refine ⟨inv.buffer, empty, ?_⟩
      cases zero <;> exact ordered
  | bccChkTx =>
      refine ⟨inv.buffer, empty, ?_⟩
      cases carry <;> exact ordered
  | cbufGet =>
      obtain ⟨wellFormed, ⟨none, same⟩ | ⟨noCarry, taken⟩⟩ := cbufGet_contents inv.buffer a
      · refine ⟨wellFormed, ?_, ?_⟩
        · simpa [utIsr, same] using empty
        · simpa [utIsr, same, Sys.inFlight, Isr.inFlight] using ordered
      · refine ⟨wellFormed, ?_, ?_⟩
        · intro idle
          rw [empty idle] at taken
          cases taken
        · simp only [Isr.inFlight, taken] at ordered
          simpa [utIsr, noCarry, Sys.inFlight, Isr.inFlight] using ordered
  | bcsTxEnd =>
      refine ⟨inv.buffer, empty, ?_⟩
      cases carry <;> exact ordered
  | staDat =>
      refine ⟨inv.buffer, empty, ?_⟩
      simpa [utIsr, Sys.inFlight, Isr.inFlight, written, accepted] using ordered
  | clrStxie => exact ⟨inv.buffer, fun _ => here.2, ordered⟩
  | _ => exact ⟨inv.buffer, empty, ordered⟩

/-- Outside UT_PUTC1's masked section the driver rests or sends. -/
theorem MainTx.outside {s : Sys} (outside : s.OutsidePutc) : MainTx s ↔ Resting s := by
  unfold MainTx
  split
  · rename_i pc here
    have unmasked := outside pc here
    cases pc with
    | ldx | cbufPut | bcc | ldbStxie | bne | ldbOne | stbStxie | ldbCmd | stbCmd =>
        cases unmasked
    | _ => rfl
  · rfl

theorem Sys.Masked.outside {s : Sys} (masked : s.Masked)
    (open' : s.isr ≠ none ∨ s.main.r.getFlag ccI = false) : s.OutsidePutc := by
  intro pc here
  cases inside : pc.masked with
  | false => rfl
  | true =>
      have closed := masked (by rw [here]; exact inside)
      rcases open' with active | enabled
      · exact absurd closed.2 active
      · rw [closed.1] at enabled
        cases enabled

/-- The ISR leaves nothing undone when it returns. -/
theorem TxInv.isr_returns {s : Sys} {i : Isr} (inv : TxInv s) (active : s.isr = some i)
    (returns : (utIsr cyclesPerChar i s).isr = none) :
    MainTx (utIsr cyclesPerChar i s) := by
  obtain ⟨empty, here⟩ := inv.isr i active
  have outside : (Serio.utIsr cyclesPerChar i s).OutsidePutc := by
    intro pc atPc
    rw [utIsr_main] at atPc
    exact inv.masked.outside (.inl (by simp [active])) pc atPc
  refine (MainTx.outside outside).mpr ?_
  obtain ⟨pc, a, zero, carry⟩ := i
  cases pc with
  | rtiSent | rti => exact ⟨empty, here⟩
  | _ => cases returns

theorem TxInv.isr_ready {s : Sys} {i : Isr} (inv : TxInv s) (active : s.isr = some i)
    {byte : Byte} {tdre : Bool}
    (done : Action.writeDat byte tdre ∈ (utIsr cyclesPerChar i s).trace) : tdre = true := by
  obtain ⟨_, here⟩ := inv.isr i active
  obtain ⟨pc, a, zero, carry⟩ := i
  cases pc with
  | ldaSta | ldaDat =>
      rcases List.mem_append.mp done with before | now
      · exact inv.ready byte tdre before
      · simp at now
  | staDat =>
      rcases List.mem_append.mp done with before | now
      · exact inv.ready byte tdre before
      · simp only [List.mem_singleton, Action.writeDat.injEq] at now
        rw [now.2]
        exact here.1
  | _ => exact inv.ready byte tdre done

theorem TxInv.utIsr {s : Sys} {i : Isr} (inv : TxInv s) (active : s.isr = some i) :
    TxInv (utIsr cyclesPerChar i s) := by
  obtain ⟨sound, listening, resting⟩ := inv.isr_uart cyclesPerChar active
  obtain ⟨buffer, empty, ordered⟩ := inv.isr_queue cyclesPerChar active
  refine ⟨Steps.masked (.isr active) inv.masked, sound, listening, buffer, resting, ?_,
    fun i' next => ⟨empty, inv.isr_place active next⟩, ordered, ?_⟩
  · exact inv.isr_returns active
  · exact fun _ _ => inv.isr_ready active

/-! UT_PUTC1. -/

theorem TxInv.putc_place {s : Sys} {pc : PutcPc} (inv : TxInv s) (here : PutcTx s pc) :
    MainTx (utPutc1 cyclesPerChar pc s) := by
  cases pc with
  | cbufPut =>
      obtain ⟨empty, sends⟩ := here
      refine ⟨sends, fun full idle => ?_⟩
      have put := (cbufPut_contents inv.buffer s.main.r.a).2
      split at put
      · rw [utPutc1, put]
        exact empty idle
      · simp only [utPutc1, Regs.getFlag_setFlag _ _ (show ccC ≠ 0#8 by decide), put.1] at full
        cases full
  | bcc =>
      obtain ⟨sends, empty⟩ := here
      simp only [utPutc1]
      cases full : s.main.r.getFlag ccC with
      | true => exact ⟨empty full, sends⟩
      | false => exact sends
  | ldbStxie =>
      refine ⟨here, ?_⟩
      exact Regs.getFlag_setFlag _ _ (by decide)
  | bne =>
      obtain ⟨sends, flag⟩ := here
      simp only [utPutc1]
      cases zero : s.main.r.getFlag ccZ with
      | true =>
          have resting : s.stxie = 0 := of_decide_eq_true (flag.symm.trans zero)
          exact resting
      | false =>
          have transmitting : s.stxie ≠ 0 := of_decide_eq_false (flag.symm.trans zero)
          exact ⟨fun idle => absurd idle transmitting, sends⟩
  | ldbOne => exact ⟨here, rfl⟩
  | stbStxie => exact ⟨inv.resting here.1, here.2⟩
  | ldbCmd => exact ⟨here.1, here.2, rfl⟩
  | stbCmd =>
      -- TDRE is set, so enabling the transmit interrupt latches it at once.
      obtain ⟨tdre, one, command⟩ := here
      refine ⟨fun idle => ?_, fun _ => ⟨command, .inr ?_⟩⟩
      · simp [utPutc1, one] at idle
      · simp [utPutc1, tdre, command, Uart.txIrqEnabled, txIrqCmd]
  | _ => exact here

theorem TxInv.utPutc1 {s : Sys} {pc : PutcPc} (inv : TxInv s) (idle : s.isr = none)
    (atPc : s.main.pc = .utPutc1 pc) : TxInv (utPutc1 cyclesPerChar pc s) := by
  have here : PutcTx s pc := by
    have whole := inv.main idle
    rwa [MainTx, atPc] at whole
  have stillIdle : (Serio.utPutc1 cyclesPerChar pc s).isr = none := by
    cases pc <;> exact idle
  have ordered := inv.ordered
  simp only [Sys.inFlight, idle, List.append_nil] at ordered
  have flight : (Serio.utPutc1 cyclesPerChar pc s).inFlight = [] := by
    rw [Sys.inFlight, stillIdle]
  refine ⟨Steps.masked (.utPutc1 idle atPc) inv.masked, ?_, ?_, ?_, ?_,
    fun _ => inv.putc_place here, ?_, ?_, ?_⟩
  · cases pc with
    | stbCmd => exact ⟨inv.sound.tdre, inv.sound.errors⟩
    | _ => exact inv.sound
  · cases pc with
    | stbCmd => simp [Serio.utPutc1, here.2.2, Uart.rxIrqEnabled, txIrqCmd]
    | _ => exact inv.listening
  · cases pc with
    | cbufPut => exact (cbufPut_contents inv.buffer _).1
    | _ => exact inv.buffer
  · cases pc with
    | stbStxie => simp [Serio.utPutc1, here.2]
    | _ => exact inv.resting
  · rw [stillIdle]
    intro i active
    cases active
  · rw [flight, List.append_nil]
    cases pc with
    | cbufPut =>
        have put := (cbufPut_contents inv.buffer s.main.r.a).2
        split at put
        · simpa [Serio.utPutc1, put] using ordered
        · have one : written [.accept s.main.r.a] = [] ∧
              accepted [.accept s.main.r.a] = [s.main.r.a] := ⟨rfl, rfl⟩
          simp [Serio.utPutc1, put, ← ordered, one]
    | _ => exact ordered
  · intro byte tdre done
    cases pc with
    | cbufPut =>
        have put := (cbufPut_contents inv.buffer s.main.r.a).2
        simp only [Serio.utPutc1] at done
        split at done
        · exact inv.ready byte tdre done
        · simpa using inv.ready byte tdre (by simpa using done)
    | _ => exact inv.ready byte tdre done

/-! Everything else leaves the transmit side alone. -/

structure TxSame (s s' : Sys) : Prop where
  uart : s.uart.Drifts s'.uart
  stxbuf : s'.stxbuf = s.stxbuf
  stxie : s'.stxie = s.stxie
  written : written s'.trace = written s.trace
  accepted : accepted s'.trace = accepted s.trace
  writes : ∀ byte tdre, Action.writeDat byte tdre ∈ s'.trace →
    Action.writeDat byte tdre ∈ s.trace

theorem TxSame.rfl {s s' : Sys} (uart : s'.uart = s.uart) (stxbuf : s'.stxbuf = s.stxbuf)
    (stxie : s'.stxie = s.stxie) (trace : s'.trace = s.trace) : TxSame s s' where
  uart := by
    rw [uart]
    exact .refl _
  stxbuf := stxbuf
  stxie := stxie
  written := by rw [trace]
  accepted := by rw [trace]
  writes := by
    rw [trace]
    exact fun _ _ => id

theorem Resting.same {s s' : Sys} (resting : Resting s) (same : TxSame s s') : Resting s' := by
  rw [Resting, same.stxie, same.stxbuf]
  exact ⟨resting.1, fun transmitting => (resting.2 transmitting).drifts same.uart⟩

/-- The main program moves between two places where the driver rests or sends. -/
theorem TxInv.same {s s' : Sys} (inv : TxInv s) (steps : Steps cyclesPerChar s s')
    (same : TxSame s s') (idle : s.isr = none) (idle' : s'.isr = none)
    (main : Resting s' → MainTx s') (resting : Resting s) : TxInv s' where
  masked := steps.masked inv.masked
  sound := same.uart.sound inv.sound
  listening := by
    rw [Uart.rxIrqEnabled, same.uart.command]
    exact inv.listening
  buffer := by
    rw [same.stxbuf]
    exact inv.buffer
  resting := by
    rw [same.stxie]
    exact same.uart.tdre ∘ inv.resting
  main _ := main (resting.same same)
  isr i active := by
    rw [idle'] at active
    cases active
  ordered := by
    have ordered := inv.ordered
    simp only [Sys.inFlight, idle, idle'] at ordered ⊢
    rw [same.written, same.accepted, same.stxbuf]
    exact ordered
  ready byte tdre done := inv.ready byte tdre (same.writes byte tdre done)

theorem utRead_same (pc : ReadPc) (s : Sys) : TxSame s (utRead pc s) := by
  cases pc with
  | sta =>
      refine ⟨.refl _, rfl, rfl, ?_, ?_, ?_⟩
      · simp [utRead, written]
      · simp [utRead, accepted]
      · simp [utRead]
  | puls =>
      refine ⟨.refl _, rfl, rfl, ?_, ?_, ?_⟩
      · cases stack : s.main.stack <;> simp [utRead, written, stack]
      · cases stack : s.main.stack <;> simp [utRead, accepted, stack]
      · cases stack : s.main.stack <;> simp [utRead, stack]
  | _ => exact .rfl rfl rfl rfl rfl

theorem utIoctl_same (pc : IoctlPc) (s : Sys) : TxSame s (utIoctl cyclesPerChar pc s) := by
  cases pc with
  | stbCtl =>
      refine ⟨⟨rfl, fun sound => ⟨sound.tdre, sound.errors⟩, id, id, fun _ => id,
        fun _ => .inl⟩, rfl, rfl, rfl, rfl, fun _ _ => id⟩
  | geClr => refine ⟨.refl _, rfl, rfl, ?_, ?_, ?_⟩ <;> simp [utIoctl, written, accepted]
  | _ => exact .rfl rfl rfl rfl rfl

theorem utRead_stays (pc : ReadPc) (s : Sys) :
    (utRead pc s).isr = s.isr ∧ (utRead pc s).OutsidePutc := by
  cases pc <;> exact ⟨rfl, fun _ => nofun⟩

variable (cyclesPerChar) in
theorem utIoctl_stays (pc : IoctlPc) (s : Sys) :
    (utIoctl cyclesPerChar pc s).isr = s.isr ∧ (utIoctl cyclesPerChar pc s).OutsidePutc := by
  cases pc <;> exact ⟨rfl, fun _ => nofun⟩

theorem Steps.txInv {s s' : Sys} (steps : Steps cyclesPerChar s s') (inv : TxInv s) :
    TxInv s' := by
  have step := steps
  cases steps with
  | isr active => exact inv.utIsr active
  | utPutc1 idle here => exact inv.utPutc1 idle here
  | @utRead pc idle here =>
      obtain ⟨isr, outside⟩ := utRead_stays pc s
      have before : s.OutsidePutc := by simp [Sys.OutsidePutc, here]
      exact inv.same step (utRead_same pc s) idle (isr.trans idle)
        (MainTx.outside outside).mpr ((MainTx.outside before).mp (inv.main idle))
  | @utIoctl pc idle here =>
      obtain ⟨isr, outside⟩ := utIoctl_stays cyclesPerChar pc s
      have before : s.OutsidePutc := by simp [Sys.OutsidePutc, here]
      exact inv.same step (utIoctl_same pc s) idle (isr.trans idle)
        (MainTx.outside outside).mpr ((MainTx.outside before).mp (inv.main idle))
  | call entry r idle here =>
      have before : s.OutsidePutc := by simp [Sys.OutsidePutc, here]
      refine inv.same step (.rfl rfl rfl rfl rfl) idle idle (fun resting => ?_)
        ((MainTx.outside before).mp (inv.main idle))
      cases entry <;> exact resting
  | elsewhere r idle here =>
      have before : s.OutsidePutc := by simp [Sys.OutsidePutc, here]
      have after : ({ s with main := { s.main with r } } : Sys).OutsidePutc := before
      exact inv.same step (.rfl rfl rfl rfl rfl) idle idle (MainTx.outside after).mpr
        ((MainTx.outside before).mp (inv.main idle))
  | irq idle enabled =>
      have resting := (MainTx.outside (inv.masked.outside (.inr enabled))).mp (inv.main idle)
      refine { inv with
        masked := step.masked inv.masked
        main := nofun
        isr := fun i started => ?_
        ordered := ?_ }
      · cases started
        exact resting
      · have ordered := inv.ordered
        rw [Sys.inFlight, idle] at ordered
        exact ordered
  | drift uart drifts => exact inv.drifts drifts

/-! Runs from UT_INIT. -/

/-- Before UT_INIT: the driver has not run yet. -/
structure Sys.Fresh (s : Sys) : Prop where
  main : s.main.pc = .caller
  isr : s.isr = none
  trace : s.trace = []

theorem utInit_txInv {s : Sys} (fresh : s.Fresh) : TxInv (utInit cyclesPerChar s) := by
  have empty := (cbufInit_contents s.stxbuf).2
  exact {
    masked := by simp [Sys.Masked, utInit, fresh.main, MainPc.masked]
    sound := by constructor <;> simp [utInit, Uart.reset]
    listening := by simp [utInit, Uart.reset, Uart.rxIrqEnabled, suartcmd]
    buffer := (cbufInit_contents s.stxbuf).1
    resting := fun _ => rfl
    main := fun _ => by
      have outside : (utInit cyclesPerChar s).OutsidePutc := by
        simp [Sys.OutsidePutc, utInit, fresh.main]
      exact (MainTx.outside outside).mpr ⟨fun _ => empty, fun transmitting =>
        absurd rfl transmitting⟩
    isr := by simp [utInit, fresh.isr]
    ordered := by simp [utInit, Sys.inFlight, fresh.isr, fresh.trace, empty, written, accepted]
    ready := by simp [utInit, fresh.trace] }

theorem run_txInv {s₀ s : Sys} {events : List Event} (fresh : s₀.Fresh)
    (ran : Run.run (next cyclesPerChar) (utInit cyclesPerChar s₀) events = some s) : TxInv s :=
  Run.run_invariant TxInv (fun _ _ _ inv happened => (next_steps happened).txInv inv)
    (utInit_txInv fresh) ran

theorem TxInv.due {s : Sys} (inv : TxInv s) (outside : s.OutsidePutc) (idle : s.isr = none)
    (queued : s.stxbuf.contents ≠ []) : s.uart.txActive = true ∨ s.uart.irqFlag = true := by
  obtain ⟨empty, sends⟩ := (MainTx.outside outside).mp (inv.main idle)
  exact (sends (mt empty queued)).due

theorem TxInv.settles {s : Sys} (inv : TxInv s) :
    ∃ own n s', (own = Event.isr ∨ own = Event.main) ∧
      Run.run (next cyclesPerChar) s (List.replicate n own) = some s' ∧
      s'.isr = none ∧ s'.OutsidePutc := by
  by_cases idle : s.isr = none
  · by_cases outside : s.OutsidePutc
    · exact ⟨.main, 0, s, .inr rfl, rfl, idle, outside⟩
    · simp only [Sys.OutsidePutc, Classical.not_forall, Bool.not_eq_false] at outside
      obtain ⟨pc, here, inside⟩ := outside
      obtain ⟨n, s', ran, done⟩ := utPutc1_leaves s idle here inside
      exact ⟨.main, n, s', .inr rfl, ran, done⟩
  · obtain ⟨n, s', ran, done, main⟩ :=
      utIsr_returns cyclesPerChar s (by simpa [Option.isSome_iff_ne_none])
    refine ⟨.isr, n, s', .inl rfl, ran, done, ?_⟩
    rw [Sys.OutsidePutc, main]
    exact inv.masked.outside (.inl idle)

/-- Every byte UT_PUTC1 accepts is sent once and in order, and queued bytes always
have something to send them: an ISR or a masked section that is under way comes,
by its own instructions alone, to where the transmitter runs or an IRQ waits. -/
theorem console_output {s₀ s : Sys} {events : List Event} (fresh : s₀.Fresh)
    (ran : Run.run (next cyclesPerChar) (utInit cyclesPerChar s₀) events = some s) :
    written s.trace ++ s.inFlight ++ s.stxbuf.contents = accepted s.trace ∧
      (s.isr = none → s.inFlight = []) ∧
      (∀ byte tdre, Action.writeDat byte tdre ∈ s.trace → tdre = true) ∧
      (s.OutsidePutc → s.stxie = 0 → s.stxbuf.contents = [] ∧ s.uart.tdre = true) ∧
      (s.OutsidePutc → s.isr = none → s.stxbuf.contents ≠ [] →
        s.uart.txActive = true ∨ s.uart.irqFlag = true) ∧
      (∃ own n s', (own = Event.isr ∨ own = Event.main) ∧
        Run.run (next cyclesPerChar) s (List.replicate n own) = some s' ∧
        s'.isr = none ∧ s'.OutsidePutc) := by
  have inv := run_txInv fresh ran
  refine ⟨inv.ordered, fun idle => ?_, inv.ready, fun outside resting => ?_, inv.due,
    inv.settles⟩
  · rw [Sys.inFlight, idle]
  · refine ⟨?_, inv.resting resting⟩
    cases active : s.isr with
    | none => exact ((MainTx.outside outside).mp (inv.main active)).1 resting
    | some i => exact (inv.isr i active).1 resting

/-- One UT_PUTC1, and the ISR its command write brings on. -/
def sendOne (byte : Byte) : List Event :=
  .call .utPutc1 { a := byte } :: List.replicate 12 .main ++ .irq :: List.replicate 16 .isr

theorem console_output_sendOne :
    ∃ s, Run.run (next fun _ _ => 10) (utInit (fun _ _ => 10) {}) (sendOne 0x41#8) = some s ∧
      s.isr.isNone = true ∧ written s.trace = [0x41#8] ∧
      written s.trace ++ s.inFlight ++ s.stxbuf.contents = accepted s.trace := by
  have ends : (Run.run (next fun _ _ => 10) (utInit (fun _ _ => 10) {}) (sendOne 0x41#8)).map
      (fun s => (s.isr.isNone, written s.trace)) = some (true, [0x41#8]) := by
    decide
  obtain ⟨s, ran, facts⟩ := Option.map_eq_some_iff.mp ends
  obtain ⟨idle, sent⟩ := Prod.mk.inj facts
  exact ⟨s, ran, idle, sent, (console_output ⟨rfl, rfl, rfl⟩ ran).1⟩

end Pugputer.Serio

import Pugputer.Lib.Run
import Pugputer.Serio.Driver

namespace Pugputer.Serio

open Hd6309 (Regs ccC ccZ ccI)

variable {cyclesPerChar : Byte → Byte → Nat}

/-- Everything one event can do, the chip's own changes bounded by `Drifts`. -/
inductive Steps (cyclesPerChar : Byte → Byte → Nat) : Sys → Sys → Prop
  | isr {s : Sys} {i : Isr} : s.isr = some i → Steps cyclesPerChar s (utIsr cyclesPerChar i s)
  | utPutc1 {s : Sys} {pc : PutcPc} : s.isr = none → s.main.pc = .utPutc1 pc →
      Steps cyclesPerChar s (utPutc1 cyclesPerChar pc s)
  | utRead {s : Sys} {pc : ReadPc} : s.isr = none → s.main.pc = .utRead pc →
      Steps cyclesPerChar s (utRead pc s)
  | utIoctl {s : Sys} {pc : IoctlPc} : s.isr = none → s.main.pc = .utIoctl pc →
      Steps cyclesPerChar s (utIoctl cyclesPerChar pc s)
  | call {s : Sys} (entry : Entry) (r : Regs) : s.isr = none → s.main.pc = .caller →
      Steps cyclesPerChar s { s with main := { s.main with pc := entry.pc, r } }
  | elsewhere {s : Sys} (r : Regs) : s.isr = none → s.main.pc = .caller →
      Steps cyclesPerChar s { s with main := { s.main with r } }
  | irq {s : Sys} : s.isr = none → s.main.r.getFlag ccI = false →
      Steps cyclesPerChar s { s with isr := some {} }
  | drift {s : Sys} (uart : Uart) : s.uart.Drifts uart →
      Steps cyclesPerChar s { s with uart }

theorem next_steps {s s' : Sys} {event : Event}
    (happened : next cyclesPerChar s event = some s') : Steps cyclesPerChar s s' := by
  cases event with
  | isr =>
      obtain ⟨i, active, equal⟩ := Option.map_eq_some_iff.mp happened
      rw [← equal]
      exact .isr active
  | main =>
      simp only [next] at happened
      split at happened
      · cases happened
      · rename_i idle
        have none : s.isr = none := by simpa using idle
        split at happened <;> cases happened
        · exact .utPutc1 none ‹_›
        · exact .utRead none ‹_›
        · exact .utIoctl none ‹_›
  | call entry r =>
      simp only [next] at happened
      split at happened <;> cases happened
      rename_i ready
      exact .call entry r (by simpa using ready.1) ready.2
  | elsewhere r =>
      simp only [next] at happened
      split at happened <;> cases happened
      rename_i ready
      exact .elsewhere r (by simpa using ready.1) ready.2
  | irq =>
      simp only [next] at happened
      split at happened <;> cases happened
      rename_i ready
      exact .irq (by simpa using ready.1) ready.2
  | tick cpuCycles =>
      cases happened
      exact .drift _ (s.uart.tick_drifts cyclesPerChar cpuCycles)
  | receive byte =>
      cases happened
      exact .drift _ (s.uart.rxEnqueue_drifts byte)
  | lineFault framing parity =>
      simp only [next] at happened
      split at happened <;> cases happened
      rename_i full
      exact .drift _ ⟨rfl, fun sound => ⟨sound.tdre, fun _ => full⟩, id, id,
        fun _ => id, fun _ => .inl⟩

/-! An IRQ finds the main program at an instruction that leaves the shared data whole. -/

/-- UT_PUTC1's masked section, as far as STB UT_CMD. -/
def PutcPc.masked : PutcPc → Bool
  | ldx | cbufPut | bcc | ldbStxie | bne | ldbOne | stbStxie | ldbCmd | stbCmd => true
  | _ => false

/-- The instructions that only run with IRQ masked. -/
def MainPc.masked : MainPc → Bool
  | .utPutc1 pc => pc.masked
  | .utRead pc =>
      match pc with
      | .ldx | .cbufGet | .tst | .bne => true
      | _ => false
  | .utIoctl .geLdb | .utIoctl .geClr => true
  | _ => false

def Sys.Masked (s : Sys) : Prop :=
  s.main.pc.masked = true → s.main.r.getFlag ccI = true ∧ s.isr = none

@[simp] theorem utIsr_main (i : Isr) (s : Sys) :
    (utIsr cyclesPerChar i s).main = s.main := by
  obtain ⟨pc, _, _, _⟩ := i
  cases pc <;> rfl

theorem Sys.Masked.utPutc1 {s : Sys} {pc : PutcPc} (masked : s.Masked) (idle : s.isr = none)
    (here : s.main.pc = .utPutc1 pc) : (utPutc1 cyclesPerChar pc s).Masked := by
  simp only [Sys.Masked, here] at masked
  cases pc <;>
    simp_all [Sys.Masked, Serio.utPutc1, MainPc.masked, PutcPc.masked, Main.goto, Main.pshs, Main.mask,
      Main.puls, Regs.getFlag_setFlag, Regs.getFlag_setFlag_ne, ccI, ccC, ccZ]

theorem Sys.Masked.utRead {s : Sys} {pc : ReadPc} (masked : s.Masked) (idle : s.isr = none)
    (here : s.main.pc = .utRead pc) : (utRead pc s).Masked := by
  simp only [Sys.Masked, here] at masked
  cases pc
  case beq =>
    cases flag : s.main.r.getFlag ccZ <;>
      simp [Sys.Masked, Serio.utRead, MainPc.masked, Main.goto, flag]
  case bcs =>
    cases flag : s.main.r.getFlag ccC <;>
      simp [Sys.Masked, Serio.utRead, MainPc.masked, Main.goto, flag]
  all_goals
    simp_all [Sys.Masked, Serio.utRead, MainPc.masked, Main.goto, Main.pshs, Main.mask,
      Main.puls, Regs.getFlag_setFlag, Regs.getFlag_setFlag_ne, ccI, ccC, ccZ]

theorem Sys.Masked.utIoctl {s : Sys} {pc : IoctlPc} (masked : s.Masked) (idle : s.isr = none)
    (here : s.main.pc = .utIoctl pc) : (utIoctl cyclesPerChar pc s).Masked := by
  simp only [Sys.Masked, here] at masked
  cases pc
  case beqGeterr | bneBadfn | bneWait =>
    cases flag : s.main.r.getFlag ccZ <;>
      simp [Sys.Masked, Serio.utIoctl, MainPc.masked, Main.goto, flag]
  all_goals
    simp_all [Sys.Masked, Serio.utIoctl, MainPc.masked, Main.goto, Main.pshs, Main.mask,
      Main.puls, Regs.getFlag_setFlag, ccI]

theorem Steps.masked {s s' : Sys} (steps : Steps cyclesPerChar s s') (masked : s.Masked) :
    s'.Masked := by
  cases steps with
  | isr active =>
      intro atMasked
      rw [utIsr_main] at atMasked
      rw [(masked atMasked).2] at active
      cases active
  | utPutc1 idle here => exact masked.utPutc1 idle here
  | utRead idle here => exact masked.utRead idle here
  | utIoctl idle here => exact masked.utIoctl idle here
  | call entry r idle here =>
      cases entry <;> simp [Sys.Masked, Entry.pc, MainPc.masked, PutcPc.masked]
  | elsewhere r idle here => simp [Sys.Masked, here, MainPc.masked]
  | irq idle enabled =>
      intro atMasked
      rw [(masked atMasked).1] at enabled
      cases enabled
  | drift uart drifts => exact masked

/-! What the CPU has begun with IRQ masked, it finishes by itself. -/

/-- Instructions UT_ISR still runs at most. -/
def IsrPc.left : IsrPc → Nat
  | ldaSta => 28 | staTsta => 27 | timIrq => 26 | beqNotUart => 25 | ldaTsta => 24
  | anda => 23 | beqChkRx => 22 | oraSerr => 21 | staSerr => 20
  | timRdrf => 19 | beqChkTx => 18 | ldaDat => 17 | ldxSrx => 16 | cbufPut => 15
  | bccChkTx => 14 | ldaSerr => 13 | oraRxfull => 12 | staRxfull => 11
  | timTdre => 10 | beqDone => 9 | ldxStx => 8 | cbufGet => 7 | bcsTxEnd => 6
  | staDat => 5 | ldaCmd => 4 | staCmd => 3 | clrStxie => 2 | rtiSent => 1 | rti => 1

/-- Instructions of UT_PUTC1's masked section still to run. -/
def PutcPc.left : PutcPc → Nat
  | ldx => 9 | cbufPut => 8 | bcc => 7 | ldbStxie => 6 | bne => 5 | ldbOne => 4
  | stbStxie => 3 | ldbCmd => 2 | stbCmd => 1 | _ => 0

variable (cyclesPerChar) in
theorem utIsr_left (i : Isr) (s : Sys) :
    (utIsr cyclesPerChar i s).isr = none ∨
      ∃ i', (utIsr cyclesPerChar i s).isr = some i' ∧ i'.pc.left < i.pc.left := by
  obtain ⟨pc, a, zero, carry⟩ := i
  cases pc with
  | rtiSent | rti => exact .inl rfl
  | beqNotUart | beqChkRx | beqChkTx | beqDone =>
      cases zero <;> exact .inr ⟨_, rfl, by simp [IsrPc.left]⟩
  | bccChkTx | bcsTxEnd => cases carry <;> exact .inr ⟨_, rfl, by simp [IsrPc.left]⟩
  | _ => exact .inr ⟨_, rfl, by simp [IsrPc.left]⟩

variable (cyclesPerChar) in
theorem utIsr_returns (s : Sys) (active : s.isr.isSome) :
    ∃ n s', Run.run (next cyclesPerChar) s (List.replicate n .isr) = some s' ∧
      s'.isr = none ∧ s'.main = s.main := by
  obtain ⟨i, here⟩ := Option.isSome_iff_exists.mp active
  induction left : i.pc.left using Nat.strongRecOn generalizing s i with
  | _ left ih =>
      have step : next cyclesPerChar s .isr = some (utIsr cyclesPerChar i s) := by
        rw [next, here]
        rfl
      rcases utIsr_left cyclesPerChar i s with done | ⟨i', more, fewer⟩
      · exact ⟨1, _, Run.run_cons.mpr ⟨_, step, rfl⟩, done, utIsr_main i s⟩
      · subst left
        obtain ⟨n, s', ran, idle, main⟩ := ih _ fewer _ (by simp [more]) i' more rfl
        exact ⟨n + 1, s', Run.run_cons.mpr ⟨_, step, ran⟩, idle, main.trans (utIsr_main i s)⟩

/-- Outside UT_PUTC1's masked section. -/
def Sys.OutsidePutc (s : Sys) : Prop :=
  ∀ pc, s.main.pc = .utPutc1 pc → pc.masked = false

variable (cyclesPerChar) in
theorem utPutc1_left (pc : PutcPc) (s : Sys) (inside : pc.masked = true) :
    ∃ pc', (utPutc1 cyclesPerChar pc s).main.pc = .utPutc1 pc' ∧
      (utPutc1 cyclesPerChar pc s).isr = s.isr ∧
        (pc'.masked = false ∨ pc'.left < pc.left) := by
  cases pc with
  | bcc =>
      refine ⟨_, rfl, rfl, ?_⟩
      split <;> decide
  | bne =>
      refine ⟨_, rfl, rfl, ?_⟩
      split <;> decide
  | pshs | orcc | andcc | bra | puls => cases inside
  | _ => exact ⟨_, rfl, rfl, by decide⟩

theorem utPutc1_leaves (s : Sys) (idle : s.isr = none) {pc : PutcPc}
    (here : s.main.pc = .utPutc1 pc) (inside : pc.masked = true) :
    ∃ n s', Run.run (next cyclesPerChar) s (List.replicate n .main) = some s' ∧
      s'.isr = none ∧ s'.OutsidePutc := by
  induction left : pc.left using Nat.strongRecOn generalizing s pc with
  | _ left ih =>
      have step : next cyclesPerChar s .main = some (utPutc1 cyclesPerChar pc s) := by
        simp [next, idle, here]
      obtain ⟨pc', here', isr, outside | fewer⟩ :=
        utPutc1_left cyclesPerChar pc s inside
      · refine ⟨1, _, Run.run_cons.mpr ⟨_, step, rfl⟩, isr.trans idle, ?_⟩
        intro other atOther
        rw [here'] at atOther
        cases atOther
        exact outside
      · cases still : pc'.masked with
        | false =>
            refine ⟨1, _, Run.run_cons.mpr ⟨_, step, rfl⟩, isr.trans idle, ?_⟩
            intro other atOther
            rw [here'] at atOther
            cases atOther
            exact still
        | true =>
            subst left
            obtain ⟨n, s', ran, idle', outside⟩ :=
              ih _ fewer _ (isr.trans idle) here' still rfl
            exact ⟨n + 1, s', Run.run_cons.mpr ⟨_, step, ran⟩, idle', outside⟩

end Pugputer.Serio

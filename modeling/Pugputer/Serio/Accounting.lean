import Mathlib.Data.List.Basic
import Mathlib.Tactic.SplitIfs
import Pugputer.Serio.Uart

namespace Pugputer.Serio

/-! What becomes of the bytes the line brings, and of the interrupts they call for. -/

/-- What the host and the CPU do to the chip. -/
inductive Access
  | rxEnqueue (byte : Byte)
  | tick (cpuCycles : Nat)
  | read (offset : Word)
  | write (offset : Word) (value : Byte)
  deriving DecidableEq, Repr

namespace Uart

variable (cyclesPerChar : Byte → Byte → Nat)

/-- The receiver in a tick, once it has had the chance to start a character. -/
def started (u : Uart) (cpuCycles : Nat) : Uart := startRx cyclesPerChar (u.tickTx cpuCycles)

/-- The character a tick completes. -/
def completes (u : Uart) (cpuCycles : Nat) : Option Byte :=
  let v := u.started cyclesPerChar cpuCycles
  if v.rxActive = true ∧ v.rxCyclesRemaining - cpuCycles ≤ 0 then some v.rxShiftByte else none

/-- The byte a tick drops: it is complete while the one before is unread. -/
def drops (u : Uart) (cpuCycles : Nat) : Option Byte :=
  if u.rdrf then u.completes cyclesPerChar cpuCycles else none

def rxWants (u : Uart) : Bool := u.rdrf && u.rxIrqEnabled

def txWants (u : Uart) : Bool := u.tdre && u.txIrqEnabled

/-- The byte in the receiver's shift register. -/
def shifting (u : Uart) : List Byte := if u.rxActive then [u.rxShiftByte] else []

/-- The byte in the data register that no read has taken. -/
def unread (u : Uart) : List Byte := if u.rdrf then [u.rxData] else []

end Uart

/-- The chip with its history: the bytes accepted from the host, those read while RDRF
was set, those dropped, whether one was dropped since the last Data read or programmed
reset, and whether Status was read since each flag and its enable were last both set. -/
structure Watched where
  uart : Uart
  accepted : List Byte := []
  delivered : List Byte := []
  dropped : List Byte := []
  overrunDue : Bool := false
  rxSeen : Bool := false
  txSeen : Bool := false

namespace Watched

variable (cyclesPerChar : Byte → Byte → Nat)

/-- What an access does to the chip. -/
def apply (u : Uart) : Access → Uart
  | .rxEnqueue byte => (u.rxEnqueue byte).2
  | .tick cpuCycles => u.tick cyclesPerChar cpuCycles
  | .read offset => (u.read offset).2
  | .write offset value => u.write cyclesPerChar offset value

def isData (offset : Word) : Bool := (offset &&& 3#16).toNat == 0

def isStatus (offset : Word) : Bool := (offset &&& 3#16).toNat == 1

def accepts (u : Uart) : Access → List Byte
  | .rxEnqueue byte => if (u.rxEnqueue byte).1 then [byte] else []
  | _ => []

def takes (u : Uart) : Access → List Byte
  | .read offset => if isData offset && u.rdrf then [(u.read offset).1] else []
  | _ => []

def loses (u : Uart) : Access → List Byte
  | .tick cpuCycles => (u.drops cyclesPerChar cpuCycles).toList
  | _ => []

/-- A drop is due to be seen until a Data read or a programmed reset. -/
def overruns (u : Uart) (earlier : Bool) : Access → Bool
  | .rxEnqueue _ => earlier
  | .tick cpuCycles => earlier || (u.drops cyclesPerChar cpuCycles).isSome
  | .read offset => earlier && !isData offset
  | .write offset _ => earlier && !isStatus offset

/-- Whether Status was read since a condition last became true. -/
def seen (before after : Bool) (event : Access) (earlier : Bool) : Bool :=
  if !before && after then false
  else
    match event with
    | .read offset => earlier || isStatus offset
    | _ => earlier

def next (w : Watched) (event : Access) : Watched :=
  let uart := apply cyclesPerChar w.uart event
  { uart
    accepted := w.accepted ++ accepts w.uart event
    delivered := w.delivered ++ takes w.uart event
    dropped := w.dropped ++ loses cyclesPerChar w.uart event
    overrunDue := overruns cyclesPerChar w.uart w.overrunDue event
    rxSeen := seen w.uart.rxWants uart.rxWants event w.rxSeen
    txSeen := seen w.uart.txWants uart.txWants event w.txSeen }

end Watched

/-! The receiver. -/

namespace Uart

variable (cyclesPerChar : Byte → Byte → Nat) (u : Uart) (cpuCycles : Nat)

/-- Starting a character moves one byte from the queue to the shift register. -/
theorem started_line :
    (u.started cyclesPerChar cpuCycles).shifting ++
        (u.started cyclesPerChar cpuCycles).rxPending = u.shifting ++ u.rxPending ∧
      (u.started cyclesPerChar cpuCycles).rdrf = u.rdrf ∧
      (u.started cyclesPerChar cpuCycles).rxData = u.rxData ∧
      (u.started cyclesPerChar cpuCycles).overrun = u.overrun := by
  have sent : (u.tickTx cpuCycles).rxActive = u.rxActive ∧
      (u.tickTx cpuCycles).rxShiftByte = u.rxShiftByte ∧
      (u.tickTx cpuCycles).rxPending = u.rxPending ∧
      (u.tickTx cpuCycles).rdrf = u.rdrf ∧ (u.tickTx cpuCycles).rxData = u.rxData ∧
      (u.tickTx cpuCycles).overrun = u.overrun := by
    unfold tickTx
    split
    · dsimp only
      split <;> exact ⟨rfl, rfl, rfl, rfl, rfl, rfl⟩
    · exact ⟨rfl, rfl, rfl, rfl, rfl, rfl⟩
  obtain ⟨active, byte, pending, rdrf, data, overrun⟩ := sent
  have line : (u.tickTx cpuCycles).shifting ++ (u.tickTx cpuCycles).rxPending =
      u.shifting ++ u.rxPending := by
    rw [shifting, shifting, active, byte, pending]
  rw [← line, ← rdrf, ← data, ← overrun, started]
  unfold startRx
  split
  · rename_i first rest queued
    split
    · rename_i starts
      have idle : (u.tickTx cpuCycles).rxActive = false := by
        simp only [Bool.and_eq_true, Bool.not_eq_true'] at starts
        exact starts.1
      refine ⟨?_, rfl, rfl, rfl⟩
      rw [shifting, shifting, idle, queued]
      rfl
    · exact ⟨rfl, rfl, rfl, rfl⟩
  · exact ⟨rfl, rfl, rfl, rfl⟩

theorem tickRx_waits (waits : ¬(u.rxActive = true ∧ u.rxCyclesRemaining - cpuCycles ≤ 0)) :
    (u.tickRx cpuCycles).shifting = u.shifting ∧ (u.tickRx cpuCycles).rxPending = u.rxPending ∧
      (u.tickRx cpuCycles).unread = u.unread ∧ (u.tickRx cpuCycles).overrun = u.overrun := by
  unfold tickRx
  split
  · rename_i active
    dsimp only
    rw [if_neg fun due => waits ⟨active, due⟩]
    exact ⟨rfl, rfl, rfl, rfl⟩
  · exact ⟨rfl, rfl, rfl, rfl⟩

theorem tickRx_completes (active : u.rxActive = true)
    (due : u.rxCyclesRemaining - cpuCycles ≤ 0) :
    (u.tickRx cpuCycles).shifting = [] ∧ (u.tickRx cpuCycles).rxPending = u.rxPending ∧
      (u.tickRx cpuCycles).unread = (if u.rdrf then [u.rxData] else [u.rxShiftByte]) ∧
      (u.tickRx cpuCycles).overrun = (u.rdrf || u.overrun) := by
  rw [tickRx, if_pos active]
  dsimp only
  rw [if_pos due]
  cases full : u.rdrf with
  | true => exact ⟨rfl, rfl, by simp [unread], rfl⟩
  | false => exact ⟨rfl, rfl, rfl, rfl⟩

theorem tick_waits (waits : u.completes cyclesPerChar cpuCycles = none) :
    (u.tick cyclesPerChar cpuCycles).shifting ++ (u.tick cyclesPerChar cpuCycles).rxPending =
        u.shifting ++ u.rxPending ∧
      (u.tick cyclesPerChar cpuCycles).unread = u.unread ∧
      (u.tick cyclesPerChar cpuCycles).overrun = u.overrun := by
  obtain ⟨line, rdrf, data, overrun⟩ := u.started_line cyclesPerChar cpuCycles
  rw [completes] at waits
  have early := (ite_eq_right_iff.mp waits)
  obtain ⟨shift, pending, unreadSame, overrunSame⟩ :=
    (u.started cyclesPerChar cpuCycles).tickRx_waits cpuCycles fun due => by cases early due
  refine ⟨?_, ?_, overrunSame.trans overrun⟩
  · rw [← line, ← shift, ← pending]
    rfl
  · refine unreadSame.trans ?_
    rw [unread, unread, rdrf, data]

/-- A tick that completes a character: it is kept in the data register, or dropped. -/
theorem tick_completes {byte : Byte} (done : u.completes cyclesPerChar cpuCycles = some byte) :
    byte :: ((u.tick cyclesPerChar cpuCycles).shifting ++
        (u.tick cyclesPerChar cpuCycles).rxPending) = u.shifting ++ u.rxPending ∧
      (u.tick cyclesPerChar cpuCycles).unread = (if u.rdrf then [u.rxData] else [byte]) ∧
      (u.tick cyclesPerChar cpuCycles).overrun = (u.rdrf || u.overrun) := by
  obtain ⟨line, rdrf, data, overrun⟩ := u.started_line cyclesPerChar cpuCycles
  simp only [completes, Option.ite_none_right_eq_some, Option.some.injEq] at done
  obtain ⟨⟨active, due⟩, rfl⟩ := done
  obtain ⟨shift, pending, unreadSame, overrunSame⟩ :=
    (u.started cyclesPerChar cpuCycles).tickRx_completes cpuCycles active due
  have held : (u.started cyclesPerChar cpuCycles).shifting =
      [(u.started cyclesPerChar cpuCycles).rxShiftByte] := by
    rw [shifting, if_pos active]
  refine ⟨?_, ?_, ?_⟩
  · rw [← line, held, ← pending]
    change _ :: (((u.started cyclesPerChar cpuCycles).tickRx cpuCycles).shifting ++ _) = _
    rw [shift]
    rfl
  · rw [← rdrf, ← data]
    exact unreadSame
  · rw [← rdrf, ← overrun]
    exact overrunSame

end Uart

namespace Watched

variable (cyclesPerChar : Byte → Byte → Nat)

/-- The bytes whose characters are complete, each with whether it was kept. -/
def kept (arrived : List (Byte × Bool)) : List Byte :=
  (arrived.filter (·.2)).map (·.1)

def lost (arrived : List (Byte × Bool)) : List Byte :=
  (arrived.filter (!·.2)).map (·.1)

/-- Every byte accepted is complete, in the shift register or pending; of those complete
the kept ones are read in order, the last of them waiting. -/
structure Arrives (w : Watched) (arrived : List (Byte × Bool)) : Prop where
  accepted : w.accepted = arrived.map (·.1) ++ (w.uart.shifting ++ w.uart.rxPending)
  kept : kept arrived = w.delivered ++ w.uart.unread
  lost : lost arrived = w.dropped

theorem Arrives.unmoved {w : Watched} {arrived : List (Byte × Bool)} (holds : w.Arrives arrived)
    {event : Access} (accepts : accepts w.uart event = []) (takes : takes w.uart event = [])
    (loses : loses cyclesPerChar w.uart event = [])
    (line : (apply cyclesPerChar w.uart event).shifting ++
      (apply cyclesPerChar w.uart event).rxPending = w.uart.shifting ++ w.uart.rxPending)
    (unread : (apply cyclesPerChar w.uart event).unread = w.uart.unread) :
    (w.next cyclesPerChar event).Arrives arrived where
  accepted := by
    rw [next, accepts, List.append_nil]
    dsimp only
    rw [line]
    exact holds.accepted
  kept := by
    rw [next, takes, List.append_nil]
    dsimp only
    rw [unread]
    exact holds.kept
  lost := by
    rw [next, loses, List.append_nil]
    exact holds.lost

theorem Arrives.tick {w : Watched} {arrived : List (Byte × Bool)} (holds : w.Arrives arrived)
    (cpuCycles : Nat) : ∃ arrived, (w.next cyclesPerChar (.tick cpuCycles)).Arrives arrived := by
  cases done : w.uart.completes cyclesPerChar cpuCycles with
  | none =>
      obtain ⟨line, unread, -⟩ := w.uart.tick_waits cyclesPerChar cpuCycles done
      have drops : w.uart.drops cyclesPerChar cpuCycles = none := by
        rw [Uart.drops, done, ite_self]
      exact ⟨arrived, holds.unmoved cyclesPerChar rfl rfl (by rw [loses, drops]; rfl) line unread⟩
  | some byte =>
      obtain ⟨line, unread, -⟩ := w.uart.tick_completes cyclesPerChar cpuCycles done
      refine ⟨arrived ++ [(byte, !w.uart.rdrf)], ?_, ?_, ?_⟩
      · change w.accepted ++ [] = _ ++ ((w.uart.tick cyclesPerChar cpuCycles).shifting ++
          (w.uart.tick cyclesPerChar cpuCycles).rxPending)
        rw [List.append_nil, holds.accepted, ← line]
        simp
      · change _ = (w.delivered ++ []) ++ (w.uart.tick cyclesPerChar cpuCycles).unread
        have before := holds.kept
        rw [unread, List.append_nil]
        cases full : w.uart.rdrf with
        | true =>
            rw [Uart.unread, full, if_pos rfl] at before
            simpa [Watched.kept] using before
        | false =>
            rw [Uart.unread, full, if_neg (by decide), List.append_nil] at before
            simpa [Watched.kept] using before
      · change _ = w.dropped ++ (w.uart.drops cyclesPerChar cpuCycles).toList
        rw [← holds.lost, Uart.drops, done]
        cases w.uart.rdrf <;> simp [Watched.lost]

theorem read_data (u : Uart) {offset : Word} (data : isData offset = true) :
    u.read offset = (u.rxData, { u with
      rdrf := false, overrun := false, framingError := false, parityError := false }) := by
  have zero : (offset &&& 3#16).toNat = 0 := by simpa [isData] using data
  rw [Uart.read, zero]
  rfl

theorem read_other (u : Uart) {offset : Word} (other : isData offset = false) :
    (u.read offset).2 = { u with irqFlag := u.irqFlag && !isStatus offset } := by
  have nonzero : (offset &&& 3#16).toNat ≠ 0 := by simpa [isData] using other
  unfold Uart.read isStatus
  split
  · rename_i zero
    exact absurd zero nonzero
  · rename_i one
    simp [one]
  · rename_i two
    simp [two]
  · rename_i zero one two
    rw [beq_false_of_ne one, Bool.not_false, Bool.and_true]

/-- The receiver does not see what the CPU writes. -/
theorem write_line (u : Uart) (offset : Word) (value : Byte) :
    (u.write cyclesPerChar offset value).shifting = u.shifting ∧
      (u.write cyclesPerChar offset value).rxPending = u.rxPending ∧
      (u.write cyclesPerChar offset value).unread = u.unread := by
  unfold Uart.write
  split <;> exact ⟨rfl, rfl, rfl⟩

theorem Arrives.rxEnqueue {w : Watched} {arrived : List (Byte × Bool)}
    (holds : w.Arrives arrived) (byte : Byte) :
    (w.next cyclesPerChar (.rxEnqueue byte)).Arrives arrived := by
  by_cases full : w.uart.rxPending.length ≥ 65536
  · have refused : w.uart.rxEnqueue byte = (false, w.uart) := if_pos full
    apply holds.unmoved cyclesPerChar _ rfl rfl
    · rw [apply, refused]
    · rw [apply, refused]
    · rw [accepts, refused]
      rfl
  · have taken : w.uart.rxEnqueue byte =
        (true, { w.uart with rxPending := w.uart.rxPending ++ [byte] }) := if_neg full
    refine ⟨?_, ?_, ?_⟩
    · change w.accepted ++ (if (w.uart.rxEnqueue byte).1 then [byte] else []) =
        _ ++ ((w.uart.rxEnqueue byte).2.shifting ++ (w.uart.rxEnqueue byte).2.rxPending)
      rw [taken, holds.accepted]
      simp [Uart.shifting]
    · change _ = (w.delivered ++ []) ++ (w.uart.rxEnqueue byte).2.unread
      rw [taken, List.append_nil]
      exact holds.kept
    · change _ = w.dropped ++ []
      rw [List.append_nil]
      exact holds.lost

theorem Arrives.read {w : Watched} {arrived : List (Byte × Bool)} (holds : w.Arrives arrived)
    (offset : Word) : (w.next cyclesPerChar (.read offset)).Arrives arrived := by
  cases data : isData offset with
  | false =>
      apply holds.unmoved cyclesPerChar rfl _ rfl
      · rw [apply, read_other w.uart data]
        rfl
      · rw [apply, read_other w.uart data]
        rfl
      · rw [takes, data]
        rfl
  | true =>
      have kept := holds.kept
      refine ⟨?_, ?_, ?_⟩
      · change w.accepted ++ [] = _ ++ ((w.uart.read offset).2.shifting ++
          (w.uart.read offset).2.rxPending)
        rw [read_data w.uart data, List.append_nil]
        exact holds.accepted
      · change _ = (w.delivered ++ takes w.uart (.read offset)) ++ (w.uart.read offset).2.unread
        rw [kept, takes, read_data w.uart data, data, Uart.unread]
        cases w.uart.rdrf <;> simp [Uart.unread]
      · change _ = w.dropped ++ []
        rw [List.append_nil]
        exact holds.lost

theorem Arrives.write {w : Watched} {arrived : List (Byte × Bool)} (holds : w.Arrives arrived)
    (offset : Word) (value : Byte) :
    (w.next cyclesPerChar (.write offset value)).Arrives arrived := by
  obtain ⟨shifting, pending, unread⟩ := write_line cyclesPerChar w.uart offset value
  apply holds.unmoved cyclesPerChar rfl rfl rfl
  · rw [apply, shifting, pending]
  · exact unread

/-! The overrun flag and the interrupt latch. -/

theorem overrun_next {w : Watched} (event : Access)
    (holds : w.overrunDue = true → w.uart.overrun = true) :
    (w.next cyclesPerChar event).overrunDue = true →
      (w.next cyclesPerChar event).uart.overrun = true := by
  change overruns cyclesPerChar w.uart w.overrunDue event = true →
    (apply cyclesPerChar w.uart event).overrun = true
  cases event with
  | rxEnqueue byte =>
      intro due
      have kept : (w.uart.rxEnqueue byte).2.overrun = w.uart.overrun := by
        unfold Uart.rxEnqueue
        split <;> rfl
      exact kept.trans (holds due)
  | tick cpuCycles =>
      intro due
      rw [apply]
      cases done : w.uart.completes cyclesPerChar cpuCycles with
      | none =>
          rw [overruns, Uart.drops, done, ite_self] at due
          rw [(w.uart.tick_waits cyclesPerChar cpuCycles done).2.2]
          exact holds (by simpa using due)
      | some byte =>
          rw [overruns, Uart.drops, done] at due
          rw [(w.uart.tick_completes cyclesPerChar cpuCycles done).2.2]
          cases full : w.uart.rdrf with
          | true => rfl
          | false => exact holds (by simpa [full] using due)
  | read offset =>
      intro due
      rw [overruns, Bool.and_eq_true, Bool.not_eq_true'] at due
      rw [apply, read_other w.uart due.2]
      exact holds due.1
  | write offset value =>
      intro due
      rw [overruns, Bool.and_eq_true, Bool.not_eq_true'] at due
      have elsewhere : (offset &&& 3#16).toNat ≠ 1 := by simpa [isStatus] using due.2
      rw [apply]
      unfold Uart.write
      split
      · exact holds due.1
      · rename_i one
        exact absurd one elsewhere
      · exact holds due.1
      · exact holds due.1

/-- Only a read of Status drops the latch. -/
theorem irq_kept (u : Uart) (event : Access) (latched : u.irqFlag = true) :
    (apply cyclesPerChar u event).irqFlag = true ∨
      ∃ offset, event = .read offset ∧ isStatus offset = true := by
  cases event with
  | rxEnqueue byte => exact .inl ((u.rxEnqueue_drifts byte).irq latched)
  | tick cpuCycles => exact .inl ((u.tick_drifts cyclesPerChar cpuCycles).irq latched)
  | read offset =>
      cases data : isData offset with
      | true =>
          left
          rw [apply, read_data u data]
          exact latched
      | false =>
          cases status : isStatus offset with
          | true => exact .inr ⟨offset, rfl, status⟩
          | false =>
              left
              rw [apply, read_other u data, status, latched]
              rfl
  | write offset value =>
      left
      rw [apply]
      unfold Uart.write
      split
      · exact latched
      · exact latched
      · simp [latched]
      · exact latched

/-- A receive condition that becomes true latches the interrupt. -/
theorem rx_latches (u : Uart) (event : Access) (before : u.rxWants = false)
    (after : (apply cyclesPerChar u event).rxWants = true) :
    (apply cyclesPerChar u event).irqFlag = true := by
  cases event with
  | rxEnqueue byte =>
      have same : (u.rxEnqueue byte).2.rxWants = u.rxWants := by
        unfold Uart.rxEnqueue
        split <;> rfl
      rw [apply, same, before] at after
      cases after
  | tick cpuCycles =>
      have drifts := u.tick_drifts cyclesPerChar cpuCycles
      obtain ⟨full, enabled⟩ := (Bool.and_eq_true _ _).mp after
      have enabledBefore : u.rxIrqEnabled = true := by
        rw [← enabled, Uart.rxIrqEnabled, Uart.rxIrqEnabled, apply, drifts.command]
      rcases drifts.receives enabledBefore full with fullBefore | latched
      · rw [Uart.rxWants, fullBefore, enabledBefore] at before
        cases before
      · exact latched
  | read offset =>
      cases data : isData offset with
      | true =>
          rw [apply, read_data u data] at after
          cases after
      | false =>
          rw [apply, read_other u data] at after
          exact absurd (before.symm.trans after) (by decide)
  | write offset value =>
      rw [apply] at after ⊢
      unfold Uart.write at after ⊢
      split at after
      · exact absurd (before.symm.trans after) (by decide)
      · simp [Uart.rxWants, Uart.rxIrqEnabled] at after
      · exact (Bool.or_eq_true _ _).mpr (.inr after)
      · exact absurd (before.symm.trans after) (by decide)

/-- The transmitter is empty after a tick if it was before, or the tick has emptied it. -/
theorem tick_tdre (u : Uart) (cpuCycles : Nat)
    (empty : (u.tick cyclesPerChar cpuCycles).tdre = true) :
    u.tdre = true ∨
      (u.txIrqEnabled = true → (u.tick cyclesPerChar cpuCycles).irqFlag = true) := by
  have later := (Uart.startRx_drifts cyclesPerChar (u.tickTx cpuCycles)).trans
    (Uart.tickRx_drifts _ cpuCycles)
  have starts : (u.started cyclesPerChar cpuCycles).tdre = (u.tickTx cpuCycles).tdre := by
    unfold Uart.started Uart.startRx
    split
    · split <;> rfl
    · rfl
  have receives (v : Uart) : (v.tickRx cpuCycles).tdre = v.tdre := by
    unfold Uart.tickRx
    dsimp only
    split_ifs <;> rfl
  have kept : (u.tick cyclesPerChar cpuCycles).tdre = (u.tickTx cpuCycles).tdre :=
    (receives _).trans starts
  rw [kept] at empty
  have sent : u.tdre = true ∨
      (u.txIrqEnabled = true → (u.tickTx cpuCycles).irqFlag = true) := by
    unfold Uart.tickTx at empty ⊢
    split at empty
    · dsimp only at empty
      split at empty
      · rename_i active done
        right
        intro enabled
        simp only [active, if_true, if_pos done]
        exact (Bool.or_eq_true _ _).mpr (.inr enabled)
      · exact .inl empty
    · exact .inl empty
  exact sent.imp_right fun latches enabled => later.irq (latches enabled)

theorem tx_latches (u : Uart) (event : Access) (before : u.txWants = false)
    (after : (apply cyclesPerChar u event).txWants = true) :
    (apply cyclesPerChar u event).irqFlag = true := by
  cases event with
  | rxEnqueue byte =>
      have same : (u.rxEnqueue byte).2.txWants = u.txWants := by
        unfold Uart.rxEnqueue
        split <;> rfl
      rw [apply, same, before] at after
      cases after
  | tick cpuCycles =>
      have drifts := u.tick_drifts cyclesPerChar cpuCycles
      obtain ⟨empty, enabled⟩ := (Bool.and_eq_true _ _).mp after
      have enabledBefore : u.txIrqEnabled = true := by
        rw [← enabled, Uart.txIrqEnabled, Uart.txIrqEnabled, apply, drifts.command]
      rcases tick_tdre cyclesPerChar u cpuCycles empty with emptyBefore | latches
      · rw [Uart.txWants, emptyBefore, enabledBefore] at before
        cases before
      · exact latches enabledBefore
  | read offset =>
      cases data : isData offset with
      | true =>
          rw [apply, read_data u data] at after
          exact absurd (before.symm.trans after) (by decide)
      | false =>
          rw [apply, read_other u data] at after
          exact absurd (before.symm.trans after) (by decide)
  | write offset value =>
      rw [apply] at after ⊢
      unfold Uart.write at after ⊢
      split at after
      · cases after
      · simp [Uart.txWants, Uart.txIrqEnabled] at after
      · exact (Bool.or_eq_true _ _).mpr (.inl ((Bool.or_eq_true _ _).mpr (.inr after)))
      · exact absurd (before.symm.trans after) (by decide)

/-- A condition whose rise latches the interrupt shows, or Status was read since. -/
theorem latch_next {u : Uart} {event : Access} {before after earlier : Bool}
    (holds : before = true → u.irqFlag = true ∨ earlier = true)
    (latches : before = false → after = true → (apply cyclesPerChar u event).irqFlag = true) :
    after = true → (apply cyclesPerChar u event).irqFlag = true ∨
      seen before after event earlier = true := by
  intro wants
  subst wants
  cases before with
  | false => exact .inl (latches rfl rfl)
  | true =>
      rcases holds rfl with latched | acked
      · rcases irq_kept cyclesPerChar u event latched with still | ⟨offset, rfl, status⟩
        · exact .inl still
        · right
          change (earlier || isStatus offset) = true
          rw [status, Bool.or_true]
      · right
        subst acked
        cases event <;> rfl

/-- The history invariant. -/
structure Sound (w : Watched) : Prop where
  arrives : ∃ arrived, w.Arrives arrived
  overrun : w.overrunDue = true → w.uart.overrun = true
  rx : w.uart.rxWants = true → w.uart.irqFlag = true ∨ w.rxSeen = true
  tx : w.uart.txWants = true → w.uart.irqFlag = true ∨ w.txSeen = true

theorem Sound.reset (u : Uart) : Sound { uart := u.reset } where
  arrives := ⟨[], rfl, rfl, rfl⟩
  overrun := fun due => absurd due (by simp)
  rx := fun wants => absurd wants (by simp [Uart.rxWants, Uart.reset])
  tx := fun wants => absurd wants (by simp [Uart.txWants, Uart.txIrqEnabled, Uart.reset])

theorem Sound.next {w : Watched} (sound : w.Sound) (event : Access) :
    (w.next cyclesPerChar event).Sound where
  arrives := by
    obtain ⟨arrived, holds⟩ := sound.arrives
    cases event with
    | rxEnqueue byte => exact ⟨arrived, holds.rxEnqueue cyclesPerChar byte⟩
    | tick cpuCycles => exact holds.tick cyclesPerChar cpuCycles
    | read offset => exact ⟨arrived, holds.read cyclesPerChar offset⟩
    | write offset value => exact ⟨arrived, holds.write cyclesPerChar offset value⟩
  overrun := overrun_next cyclesPerChar event sound.overrun
  rx := latch_next cyclesPerChar sound.rx (rx_latches cyclesPerChar w.uart event)
  tx := latch_next cyclesPerChar sound.tx (tx_latches cyclesPerChar w.uart event)

/-- The history of a chip from a reset on. -/
def history (u : Uart) (events : List Access) : Watched :=
  events.foldl (next cyclesPerChar) { uart := u.reset }

theorem history_sound (u : Uart) (events : List Access) :
    (history cyclesPerChar u events).Sound :=
  List.foldlRecOn events _ (Sound.reset u) fun _ sound event _ => sound.next cyclesPerChar event

/-! Where every accepted byte is. -/

inductive Fate
  | pending | shifting | unread | delivered | dropped
  deriving DecidableEq, Repr

/-- The bytes of one fate, in order. -/
def bytesOf (fates : List (Byte × Fate)) (fate : Fate) : List Byte :=
  (fates.filter (·.2 = fate)).map (·.1)

@[simp] theorem bytesOf_append (first second : List (Byte × Fate)) (fate : Fate) :
    bytesOf (first ++ second) fate = bytesOf first fate ++ bytesOf second fate := by
  simp [bytesOf]

/-- A fate for each accepted byte that puts every byte where the chip has it. -/
structure Accounts (w : Watched) (fates : List (Byte × Fate)) : Prop where
  accepted : fates.map (·.1) = w.accepted
  pending : bytesOf fates .pending = w.uart.rxPending
  shifting : bytesOf fates .shifting = w.uart.shifting
  unread : bytesOf fates .unread = w.uart.unread
  delivered : bytesOf fates .delivered = w.delivered
  dropped : bytesOf fates .dropped = w.dropped

/-- The fates of the completed bytes when the first `count` kept ones have been read. -/
def fatesOf : List (Byte × Bool) → Nat → List (Byte × Fate)
  | [], _ => []
  | (byte, false) :: rest, count => (byte, .dropped) :: fatesOf rest count
  | (byte, true) :: rest, 0 => (byte, .unread) :: fatesOf rest 0
  | (byte, true) :: rest, count + 1 => (byte, .delivered) :: fatesOf rest count

theorem fatesOf_spec (arrived : List (Byte × Bool)) (count : Nat) :
    (fatesOf arrived count).map (·.1) = arrived.map (·.1) ∧
      bytesOf (fatesOf arrived count) .pending = [] ∧
      bytesOf (fatesOf arrived count) .shifting = [] ∧
      bytesOf (fatesOf arrived count) .unread = (kept arrived).drop count ∧
      bytesOf (fatesOf arrived count) .delivered = (kept arrived).take count ∧
      bytesOf (fatesOf arrived count) .dropped = lost arrived := by
  fun_induction fatesOf arrived count with
  | case1 count => simp [bytesOf, kept, lost]
  | case2 byte rest count ih => simpa [bytesOf, kept, lost] using ih
  | case3 byte rest ih => simpa [bytesOf, kept, lost] using ih
  | case4 byte rest count ih => simpa [bytesOf, kept, lost] using ih

theorem bytesOf_map (bytes : List Byte) (given fate : Fate) :
    bytesOf (bytes.map (·, given)) fate = if given = fate then bytes else [] := by
  induction bytes with
  | nil => simp [bytesOf]
  | cons byte rest ih =>
      split at ih
      · simp_all [bytesOf]
      · simp_all [bytesOf]

theorem Arrives.accounts {w : Watched} {arrived : List (Byte × Bool)}
    (holds : w.Arrives arrived) : ∃ fates, w.Accounts fates := by
  obtain ⟨bytes, pending, shifting, unread, delivered, dropped⟩ :=
    fatesOf_spec arrived w.delivered.length
  refine ⟨fatesOf arrived w.delivered.length ++ (w.uart.shifting.map (·, .shifting) ++
    w.uart.rxPending.map (·, .pending)), ?_, ?_, ?_, ?_, ?_, ?_⟩
  · rw [List.map_append, bytes, holds.accepted]
    simp [Function.comp_def]
  · simp [pending, bytesOf_map]
  · simp [shifting, bytesOf_map]
  · simp [unread, bytesOf_map, holds.kept]
  · simp [delivered, bytesOf_map, holds.kept]
  · simp [dropped, bytesOf_map, holds.lost]

theorem Accounts.delivered_sublist {w : Watched} {fates : List (Byte × Fate)}
    (accounts : w.Accounts fates) : w.delivered.Sublist w.accepted := by
  rw [← accounts.delivered, ← accounts.accepted]
  exact List.filter_sublist.map _

/-- Nothing is lost silently: the delivered bytes are a subsequence of the accepted ones,
each of which has one fate; a drop shows in OVRN; a wanted interrupt is requested unless
Status was read since it came to be wanted. -/
theorem nothing_lost (u : Uart) (events : List Access) :
    let w := history cyclesPerChar u events
    (w.delivered.Sublist w.accepted ∧ ∃ fates, w.Accounts fates) ∧
      (w.overrunDue = true → w.uart.overrun = true) ∧
      (w.uart.rdrf = true → w.uart.rxIrqEnabled = true →
        w.uart.irqFlag = true ∨ w.rxSeen = true) ∧
      (w.uart.tdre = true → w.uart.txIrqEnabled = true →
        w.uart.irqFlag = true ∨ w.txSeen = true) := by
  have sound := history_sound cyclesPerChar u events
  obtain ⟨arrived, holds⟩ := sound.arrives
  obtain ⟨fates, accounts⟩ := holds.accounts
  refine ⟨⟨accounts.delivered_sublist, fates, accounts⟩, sound.overrun, ?_, ?_⟩
  · intro full enabled
    exact sound.rx ((Bool.and_eq_true _ _).mpr ⟨full, enabled⟩)
  · intro empty enabled
    exact sound.tx ((Bool.and_eq_true _ _).mpr ⟨empty, enabled⟩)

end Watched

end Pugputer.Serio

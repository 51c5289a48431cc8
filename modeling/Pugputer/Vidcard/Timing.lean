import Mathlib.Tactic.Linarith
import Pugputer.Vidcard.Beam

namespace Pugputer.Vidcard

/-! When the lines begin. -/

namespace CpuClock

variable (clock : CpuClock)

theorem lineStart_le {n cycles : Nat} :
    clock.lineStart n ≤ cycles ↔ (n : ℚ) * clock.hz / 31500 ≤ cycles := by
  rw [lineStart, Nat.ceil_le]
  norm_num [vcFps, vcLines]

theorem lineStart_mono {m n : Nat} (le : m ≤ n) : clock.lineStart m ≤ clock.lineStart n := by
  have positive := clock.pos.le
  apply Nat.ceil_mono
  gcongr

theorem lineStart_zero : clock.lineStart 0 = 0 := by
  rw [lineStart, Nat.cast_zero, zero_mul, zero_div, Nat.ceil_zero]

/-- Lines that have begun are few: a clock of `hz` makes no more of them in these cycles. -/
theorem lineStart_few {n cycles : Nat} (begun : clock.lineStart n ≤ cycles) :
    n < ⌊(cycles : ℚ) * (vcFps * vcLines : ℕ) / clock.hz⌋₊ + 1 := by
  rw [Nat.lt_succ_iff]
  apply Nat.le_floor
  rw [le_div_iff₀ clock.pos]
  rw [lineStart, Nat.ceil_le] at begun
  have period : (0 : ℚ) < (vcFps * vcLines : ℕ) := by norm_num [vcFps, vcLines]
  exact (div_le_iff₀ period).mp begun

end CpuClock

theorem Screen.beginLine_card {σ : Type} [VideoSink σ] (s : Screen σ) (line : Word) :
    (s.beginLine line).card = s.card.beginLine line := by
  have asked : s.askDrawing.card = s.card := by
    unfold askDrawing
    split
    · split
      · rfl
      · split <;> rfl
    · rfl
  unfold beginLine
  dsimp only
  split <;> split <;> split <;> first | rfl | exact congrArg (VcCard.beginLine · line) asked

namespace VideoDevice

variable {σ : Type} [VideoSink σ]

/-- The clock and the lines begun agree. -/
structure Timed (d : VideoDevice σ) : Prop where
  next : d.nextLineAt = d.cpuClock.lineStart d.lines
  begun : ∀ n < d.lines, d.cpuClock.lineStart n ≤ d.cycles

theorem Timed.turn {d : VideoDevice σ} (timed : d.Timed) (isDue : d.due) : d.turn.Timed := by
  refine ⟨rfl, fun n before => ?_⟩
  rcases Nat.lt_succ_iff_lt_or_eq.mp before with earlier | rfl
  · exact timed.begun n earlier
  · exact timed.next.ge.trans isDue

omit [VideoSink σ] in
theorem Timed.advance {d : VideoDevice σ} (timed : d.Timed) (n : Nat) : (d.advance n).Timed :=
  ⟨timed.next, fun line before => Nat.le_add_right_of_le (timed.begun line before)⟩

/-- What a tick does, by the turns of its loop. -/
theorem Timed.tick {d : VideoDevice σ} (timed : d.Timed) (n : Nat) :
    ∃ d' begun, d.tick n = some (d', begun) ∧
      Catchup.Ends due VideoDevice.turn line (d.advance n) d' begun := by
  let few (s : VideoDevice σ) : Prop :=
    s.Timed ∧ s.cycles = (d.advance n).cycles ∧ s.cpuClock = d.cpuClock
  have lower (s : VideoDevice σ) (inv : few s) (isDue : s.due) :
      (d.advance n).turns - s.turn.lines < (d.advance n).turns - s.lines := by
    obtain ⟨sTimed, sCycles, sClock⟩ := inv
    have begun : s.cpuClock.lineStart s.lines ≤ s.cycles := sTimed.next.ge.trans isDue
    have bound := s.cpuClock.lineStart_few begun
    rw [sCycles, sClock] at bound
    change _ < (d.advance n).turns at bound
    change (d.advance n).turns - (s.lines + 1) < _
    omega
  have ends : ∃ d' begun, d.tick n = some (d', begun) :=
    Catchup.loop_total few (fun s => (d.advance n).turns - s.lines)
      (fun s inv isDue => ⟨inv.1.turn isDue, inv.2⟩) lower ⟨timed.advance n, rfl, rfl⟩
      (Nat.sub_le _ _)
  obtain ⟨d', begun, ran⟩ := ends
  exact ⟨d', begun, ran, .of_loop ran⟩

/-- A tick in two parts, or at once. -/
theorem Timed.tick_add {d : VideoDevice σ} (timed : d.Timed) {m n : Nat} {middle : VideoDevice σ}
    {begun : List Word} (first : d.tick m = some (middle, begun)) (middleTimed : middle.Timed) :
    d.tick (m + n) = (middle.tick n).map fun (last, rest) => (last, begun ++ rest) := by
  obtain ⟨last, rest, second, ends⟩ := middleTimed.tick n
  obtain ⟨once, all, ran, atOnce⟩ := timed.tick (m + n)
  have firstEnds : Catchup.Ends due VideoDevice.turn line (d.advance m) middle begun :=
    .of_loop first
  have sliced := Catchup.Ends.sliced VideoDevice.advance
    (fun s => congrArg (fun cycles => { s with cycles }) (Nat.add_assoc ..))
    (fun _ _ => rfl) (fun _ _ => rfl) (fun k _ isDue => Nat.le_add_right_of_le isDue) firstEnds ends
  obtain ⟨rfl, rfl⟩ := atOnce.unique sliced
  rw [ran, second]
  rfl

end VideoDevice

/-! What a run of the card does to FRAME and to the flags. -/

namespace VcCard

variable {font8x16 : Bytes} {c c' : VcCard}

/-- Neither flag of the beam is raised, and FRAME is as it was. -/
structure Unbeamed (c c' : VcCard) : Prop where
  frame : c'.frame = c.frame
  vsync : c'.isr.getLsbD 0 = true → c.isr.getLsbD 0 = true
  lineFlag : c'.isr.getLsbD 1 = true → c.isr.getLsbD 1 = true

theorem Unbeamed.same (frame : c'.frame = c.frame) (isr : c'.isr = c.isr) : Unbeamed c c' :=
  ⟨frame, fun raised => isr ▸ raised, fun raised => isr ▸ raised⟩

/-- Another flag is raised, or none. -/
theorem Unbeamed.trans {a b c : VcCard} (first : Unbeamed a b) (second : Unbeamed b c) :
    Unbeamed a c :=
  ⟨second.frame.trans first.frame, fun raised => first.vsync (second.vsync raised),
    fun raised => first.lineFlag (second.lineFlag raised)⟩

theorem Unbeamed.other (frame : c'.frame = c.frame) {flag : Byte} (isr : c'.isr = c.isr ||| flag)
    (vsync : flag.getLsbD 0 = false) (line : flag.getLsbD 1 = false) : Unbeamed c c' := by
  refine ⟨frame, fun raised => ?_, fun raised => ?_⟩
  · rwa [isr, BitVec.getLsbD_or, vsync, Bool.or_false] at raised
  · rwa [isr, BitVec.getLsbD_or, line, Bool.or_false] at raised

theorem reset_unbeamed (c : VcCard) : Unbeamed c (c.reset font8x16) :=
  ⟨rfl, fun raised => absurd raised (by decide : ¬(0#8).getLsbD 0 = true),
    fun raised => absurd raised (by decide : ¬(0#8).getLsbD 1 = true)⟩

theorem read_unbeamed (c : VcCard) (reg : Byte) : Unbeamed c (c.read reg).2 := by
  unfold read
  dsimp only
  split
  all_goals first | exact .same rfl rfl | skip
  split <;> exact .same rfl rfl

theorem commandByte_unbeamed {v : Byte} (ran : c.commandByte v = some c') : Unbeamed c c' := by
  unfold commandByte runCommand at ran
  dsimp only at ran
  split at ran
  · rw [Option.map_map, Option.map_eq_some_iff] at ran
    obtain ⟨card, -, rfl⟩ := ran
    exact .other rfl rfl (by decide) (by decide)
  · cases ran
    exact .same rfl rfl

theorem write_unbeamed {reg v : Byte} (ran : c.write font8x16 reg v = some c') :
    Unbeamed c c' := by
  unfold write at ran
  dsimp only at ran
  split at ran
  all_goals first | exact commandByte_unbeamed ran | obtain rfl := Option.some.inj ran
  all_goals first
    | exact .same rfl rfl
    | split <;> first | exact .same rfl rfl | exact reset_unbeamed c
    | skip
  refine ⟨rfl, fun raised => ?_, fun raised => ?_⟩
  all_goals
    rw [BitVec.getLsbD_and, Bool.and_eq_true] at raised
    exact raised.1

theorem mouseTo_unbeamed (c : VcCard) (x y : Int) (buttons : Byte) :
    Unbeamed c (c.mouseTo x y buttons) := by
  by_cases moved : BitVec.ofInt 16 (max 0 (min x 639)) ≠ c.mouseX ∨
      BitVec.ofInt 16 (max 0 (min y 479)) ≠ c.mouseY ∨ 0x80#8 ||| buttons &&& 0x07#8 ≠ c.buttons
  · exact .other rfl (if_pos moved) (by decide) (by decide)
  · exact .same rfl (if_neg moved)

theorem next_unbeamed {event : Event} (ran : c.next font8x16 event = some c')
    (other : ∀ line, event ≠ .beginLine line) : Unbeamed c c' := by
  cases event with
  | read reg =>
      obtain rfl := Option.some.inj ran
      exact read_unbeamed c reg
  | write reg v => exact write_unbeamed ran
  | mouseTo x y buttons =>
      obtain rfl := Option.some.inj ran
      exact mouseTo_unbeamed c x y buttons
  | mouseBy dx dy buttons =>
      obtain rfl := Option.some.inj ran
      exact mouseTo_unbeamed c _ _ buttons
  | mouseWheel clicks =>
      obtain rfl := Option.some.inj ran
      unfold mouseWheel
      split
      · exact .same rfl rfl
      · exact .other rfl rfl (by decide) (by decide)
  | key usage down =>
      obtain rfl := Option.some.inj ran
      have modified : (c.modifier usage down).frame = c.frame ∧
          (c.modifier usage down).isr = c.isr := by
        unfold modifier
        split
        · exact ⟨rfl, rfl⟩
        · split <;> exact ⟨rfl, rfl⟩
      unfold key
      dsimp only
      split
      · exact .same modified.1 modified.2
      · exact .other modified.1 (congrArg (· ||| vcIrqInput) modified.2) (by decide) (by decide)
  | beginLine line => exact absurd rfl (other line)

theorem startVblank_frame (c : VcCard) : c.startVblank.frame = c.frame + 1 := by
  unfold startVblank
  dsimp only
  split <;> rfl

theorem startVblank_isr (c : VcCard) : c.startVblank.isr = c.isr ||| vcIrqVsync := by
  unfold startVblank
  dsimp only
  split <;> rfl

theorem startVblank_lines (c : VcCard) :
    c.startVblank.line = c.line ∧ c.startVblank.irqLine = c.irqLine := by
  unfold startVblank
  dsimp only
  split <;> exact ⟨rfl, rfl⟩

theorem reachLine_isr (c : VcCard) :
    c.reachLine.isr = c.isr ||| if c.line = c.irqLine then vcIrqLine else 0 := by
  unfold reachLine
  split
  · rfl
  · exact (BitVec.or_zero).symm

theorem vblank_line (line : Word) : line.toNat = vcHeight ↔ line = 480#16 :=
  (BitVec.toNat_inj (y := 480#16)).symm.symm

theorem beginLine_frame (c : VcCard) (line : Word) :
    (c.beginLine line).frame = if line = 480#16 then c.frame + 1 else c.frame := by
  have reached (c : VcCard) : c.reachLine.frame = c.frame := by
    unfold reachLine
    split <;> rfl
  unfold beginLine
  dsimp only
  rw [reached]
  by_cases vblank : line = 480#16
  · rw [if_pos ((vblank_line line).mpr vblank), if_pos vblank, startVblank_frame]
  · rw [if_neg fun here => vblank ((vblank_line line).mp here), if_neg vblank]

theorem beginLine_isr (c : VcCard) (line : Word) :
    (c.beginLine line).isr = (c.isr ||| if line = 480#16 then vcIrqVsync else 0) |||
      if line = c.irqLine then vcIrqLine else 0 := by
  unfold beginLine
  dsimp only
  rw [reachLine_isr]
  by_cases vblank : line = 480#16
  · obtain ⟨sameLine, sameIrq⟩ := startVblank_lines { c with line }
    rw [if_pos ((vblank_line line).mpr vblank), if_pos vblank, startVblank_isr, sameLine, sameIrq]
  · rw [if_neg fun here => vblank ((vblank_line line).mp here), if_neg vblank]
    exact congrArg (· ||| _) (BitVec.or_zero).symm

theorem raise_bit (isr flag : Byte) (p : Prop) [Decidable p] (i : Nat) :
    (isr ||| if p then flag else 0).getLsbD i = (isr.getLsbD i || (decide p && flag.getLsbD i)) := by
  rw [BitVec.getLsbD_or]
  by_cases holds : p
  · rw [if_pos holds, decide_eq_true holds, Bool.true_and]
  · rw [if_neg holds, decide_eq_false holds, Bool.false_and]
    exact congrArg _ (BitVec.getLsbD_zero)

/-- The flags of the beam are raised where they should be, and nowhere else. -/
structure Flagged (c : VcCard) (event : Event) (c' : VcCard) : Prop where
  vsync : event = .beginLine 480 → c'.isr.getLsbD 0 = true
  vsyncOnly : c.isr.getLsbD 0 = false → c'.isr.getLsbD 0 = true → event = .beginLine 480
  line : event = .beginLine c.irqLine → c'.isr.getLsbD 1 = true
  lineOnly : c.isr.getLsbD 1 = false → c'.isr.getLsbD 1 = true → event = .beginLine c.irqLine

theorem beginLine_flagged (c : VcCard) (line : Word) :
    Flagged c (.beginLine line) (c.beginLine line) := by
  have bits : vcIrqVsync.getLsbD 0 = true ∧ vcIrqVsync.getLsbD 1 = false ∧
      vcIrqLine.getLsbD 0 = false ∧ vcIrqLine.getLsbD 1 = true := by decide
  have vsync : (c.beginLine line).isr.getLsbD 0 = (c.isr.getLsbD 0 || decide (line = 480#16)) := by
    rw [beginLine_isr, raise_bit, raise_bit, bits.1, bits.2.2.1, Bool.and_true, Bool.and_false,
      Bool.or_false]
  have flag : (c.beginLine line).isr.getLsbD 1 =
      (c.isr.getLsbD 1 || decide (line = c.irqLine)) := by
    rw [beginLine_isr, raise_bit, raise_bit, bits.2.1, bits.2.2.2, Bool.and_true, Bool.and_false,
      Bool.or_false]
  constructor
  · rintro ⟨⟩
    rw [vsync]
    exact Bool.or_true _
  · intro clear raised
    rw [vsync, clear, Bool.false_or, decide_eq_true_eq] at raised
    rw [raised]
    rfl
  · rintro ⟨⟩
    rw [flag, decide_eq_true rfl, Bool.or_true]
  · intro clear raised
    rw [flag, clear, Bool.false_or, decide_eq_true_eq] at raised
    rw [raised]

theorem next_flagged {event : Event} (ran : c.next font8x16 event = some c') :
    Flagged c event c' := by
  cases begins : event.begins with
  | some line =>
      cases event with
      | beginLine line =>
          obtain rfl := Option.some.inj ran
          exact beginLine_flagged c line
      | _ => cases begins
  | none =>
      have other (line : Word) : event ≠ .beginLine line := by
        rintro rfl
        cases begins
      have unbeamed := next_unbeamed ran other
      exact ⟨fun same => absurd same (other _),
        fun clear raised => absurd (unbeamed.vsync raised) (by rw [clear]; exact Bool.false_ne_true),
        fun same => absurd same (other _),
        fun clear raised =>
          absurd (unbeamed.lineFlag raised) (by rw [clear]; exact Bool.false_ne_true)⟩

theorem next_frame {event : Event} (ran : c.next font8x16 event = some c') :
    c'.frame = c.frame + BitVec.ofNat 8 ((event.begins.toList).count 480) := by
  cases event with
  | beginLine line =>
      obtain rfl := Option.some.inj ran
      rw [beginLine_frame]
      change _ = c.frame + BitVec.ofNat 8 ([line].count 480)
      rw [List.count_singleton]
      by_cases vblank : line = 480#16 <;> simp [vblank]
  | _ => exact (next_unbeamed ran fun _ same => by cases same).frame.trans (BitVec.add_zero _).symm

theorem run_frame {events : List Event} (ran : Run.run (next font8x16) c events = some c') :
    c'.frame = c.frame + BitVec.ofNat 8 ((events.filterMap Event.begins).count 480) := by
  induction events generalizing c with
  | nil =>
      cases ran
      exact (BitVec.add_zero _).symm
  | cons event rest ih =>
      obtain ⟨middle, step, tail⟩ := Run.run_cons.mp ran
      rw [ih tail, next_frame step, BitVec.add_assoc, ← BitVec.ofNat_add]
      congr 2
      cases begins : event.begins with
      | none => rw [List.filterMap_cons_none begins]; simp
      | some line => rw [List.filterMap_cons_some begins, List.count_cons]; simp [List.count_cons, add_comm]

end VcCard

/-! A device since its reset. -/

def Access.elapsed {σ : Type} : Access σ → Nat
  | .tick cycles => cycles
  | _ => 0

namespace VideoDevice

variable {σ : Type} [VideoSink σ]

/-- The n-th line begun since the reset, from 0. -/
def lineNumber (n : Nat) : Word := BitVec.ofNat 16 (n % vcLines)

end VideoDevice

namespace Beam

variable {σ : Type} [VideoSink σ] {font8x16 : Bytes} {start : VcCard}

/-- What holds between two accesses: no line is due, and the log has those that were. -/
structure Sound (font8x16 : Bytes) (start : VcCard) (b : Beam σ) : Prop where
  timed : b.device.Timed
  caught : ¬b.device.due
  begun : b.begun = (List.range b.device.lines).map VideoDevice.lineNumber
  card : Run.run (VcCard.next font8x16) start b.past = some b.device.card

omit [VideoSink σ] in
theorem begun_snoc (device : VideoDevice σ) (past : List Event) (line : Word) :
    (Beam.mk device (past ++ [.beginLine line])).begun = (Beam.mk device past).begun ++ [line] := by
  rw [begun, begun, List.filterMap_append]
  rfl

/-- Whatever a loop of turns starts from, it ends sound. -/
theorem ends_sound {d d' : VideoDevice σ} {past : List Event} {lines : List Word}
    (timed : d.Timed) (begun : (Beam.mk d past).begun = (List.range d.lines).map VideoDevice.lineNumber)
    (card : Run.run (VcCard.next font8x16) start past = some d.card)
    (ends : Catchup.Ends VideoDevice.due VideoDevice.turn VideoDevice.line d d' lines) :
    Sound font8x16 start ⟨d', past ++ lines.map .beginLine⟩ ∧ d'.cycles = d.cycles ∧
      d'.cpuClock = d.cpuClock := by
  let Inv (s : VideoDevice σ) (seen : List Word) : Prop :=
    s.Timed ∧ (Beam.mk s (past ++ seen.map .beginLine)).begun =
        (List.range s.lines).map VideoDevice.lineNumber ∧
      Run.run (VcCard.next font8x16) start (past ++ seen.map .beginLine) = some s.card ∧
      s.cycles = d.cycles ∧ s.cpuClock = d.cpuClock
  have turned (s : VideoDevice σ) (seen : List Word) (inv : Inv s seen) (isDue : s.due) :
      Inv s.turn (seen ++ [s.line]) := by
    obtain ⟨sTimed, sBegun, sCard, sCycles, sClock⟩ := inv
    dsimp only [Inv]
    rw [List.map_append, List.map_singleton, ← List.append_assoc]
    refine ⟨sTimed.turn isDue, ?_, ?_, sCycles, sClock⟩
    · rw [begun_snoc]
      change _ = (List.range (s.lines + 1)).map VideoDevice.lineNumber
      rw [List.range_succ, List.map_append, ← sBegun]
      rfl
    · rw [Run.run_append]
      exact ⟨s.card, sCard, Run.run_cons.mpr
        ⟨_, rfl, congrArg some (s.toScreen.beginLine_card s.line).symm⟩⟩
  have initial : Inv d [] := by
    dsimp only [Inv]
    rw [List.map_nil, List.append_nil]
    exact ⟨timed, begun, card, rfl, rfl⟩
  have kept := ends.keeps Inv turned initial
  obtain ⟨timed', begun', card', cycles, clock⟩ := kept
  exact ⟨⟨timed', ends.idle, begun', card'⟩, cycles, clock⟩

omit [VideoSink σ] in
/-- An access that is one event of the card, and no line begins. -/
theorem Sound.other {b : Beam σ} (sound : Sound font8x16 start b) {screen : Screen σ}
    {event : Event} (step : b.device.card.next font8x16 event = some screen.card)
    (other : event.begins = none) :
    Sound font8x16 start ⟨{ b.device with toScreen := screen }, b.past ++ [event]⟩ := by
  refine ⟨⟨sound.timed.next, sound.timed.begun⟩, sound.caught, ?_, ?_⟩
  · refine Eq.trans ?_ sound.begun
    rw [Beam.begun, Beam.begun, List.filterMap_append, List.filterMap_cons_none other]
    exact List.append_nil _
  · rw [Run.run_append]
    exact ⟨b.device.card, sound.card, Run.run_cons.mpr ⟨_, step, rfl⟩⟩

omit [VideoSink σ] in
/-- And one that the card does not see. -/
theorem Sound.silent {b : Beam σ} (sound : Sound font8x16 start b) {screen : Screen σ}
    (same : screen.card = b.device.card) :
    Sound font8x16 start ⟨{ b.device with toScreen := screen }, b.past ++ []⟩ := by
  rw [List.append_nil]
  refine ⟨⟨sound.timed.next, sound.timed.begun⟩, sound.caught, sound.begun, ?_⟩
  rw [sound.card]
  exact congrArg some same.symm

theorem Sound.next {b : Beam σ} (sound : Sound font8x16 start b) (access : Access σ) :
    ∃ b', b.next font8x16 access = some b' ∧ Sound font8x16 start b' ∧
      b'.device.cycles = b.device.cycles + access.elapsed ∧
      b'.device.cpuClock = b.device.cpuClock := by
  cases access with
  | read offset => exact ⟨_, rfl, sound.other rfl rfl, rfl, rfl⟩
  | write offset value =>
      obtain ⟨card, wrote⟩ := b.device.card.next_total font8x16 (.write (loByte offset) value)
      have next : b.next font8x16 (.write offset value) = some
          ⟨{ b.device with active := true, card }, b.past ++ [.write (loByte offset) value]⟩ := by
        change b.device.card.write font8x16 (loByte offset) value = some card at wrote
        rw [Beam.next, VideoDevice.next, wrote]
        rfl
      exact ⟨_, next, sound.other wrote rfl, rfl, rfl⟩
  | tick cycles =>
      obtain ⟨device, lines, ticked, ends⟩ := sound.timed.tick cycles
      have next : b.next font8x16 (.tick cycles) = some
          ⟨device, b.past ++ lines.map .beginLine⟩ := by
        rw [Beam.next, VideoDevice.next, ticked]
        rfl
      obtain ⟨sound', elapsed, clock⟩ :=
        ends_sound (sound.timed.advance cycles) sound.begun sound.card ends
      exact ⟨_, next, sound', elapsed, clock⟩
  | mouseTo x y buttons => exact ⟨_, rfl, sound.other rfl rfl, rfl, rfl⟩
  | mouseWheel clicks => exact ⟨_, rfl, sound.other rfl rfl, rfl, rfl⟩
  | key usage down => exact ⟨_, rfl, sound.other rfl rfl, rfl, rfl⟩
  | setSink sink => exact ⟨_, rfl, sound.silent rfl, rfl, rfl⟩
  | setDrawAll on => exact ⟨_, rfl, sound.silent rfl, rfl, rfl⟩

theorem Sound.run {b : Beam σ} (sound : Sound font8x16 start b) (accesses : List (Access σ)) :
    ∃ b', Run.run (Beam.next font8x16) b accesses = some b' ∧ Sound font8x16 start b' ∧
      b'.device.cycles = b.device.cycles + (accesses.map Access.elapsed).sum ∧
      b'.device.cpuClock = b.device.cpuClock := by
  induction accesses generalizing b with
  | nil => exact ⟨b, rfl, sound, rfl, rfl⟩
  | cons access rest ih =>
      obtain ⟨middle, step, middleSound, elapsed, clock⟩ := sound.next access
      obtain ⟨last, tail, lastSound, elapsed', clock'⟩ := ih middleSound
      refine ⟨last, Run.run_cons.mpr ⟨middle, step, tail⟩, lastSound, ?_, clock'.trans clock⟩
      rw [elapsed', elapsed, List.map_cons, List.sum_cons, Nat.add_assoc]

/-- Ticks in slices come to one tick. -/
theorem Sound.slices {b : Beam σ} (sound : Sound font8x16 start b) (slices : List Nat) :
    Run.run (Beam.next font8x16) b (slices.map .tick) = b.next font8x16 (.tick slices.sum) := by
  induction slices generalizing b with
  | nil =>
      have still : b.device.tick 0 = some (b.device, []) := by
        rw [VideoDevice.tick, VideoDevice.turns, Catchup.loop]
        exact if_neg sound.caught
      rw [List.sum_nil, Beam.next, VideoDevice.next, still]
      exact congrArg (fun past => some (Beam.mk b.device past)) (List.append_nil _).symm
  | cons cycles rest ih =>
      obtain ⟨middle, begun, first, -⟩ := sound.timed.tick cycles
      obtain ⟨b', step, sound', -, -⟩ := sound.next (.tick cycles)
      have middleEq : b' = ⟨middle, b.past ++ begun.map .beginLine⟩ := by
        rw [Beam.next, VideoDevice.next, first] at step
        exact (Option.some.inj step).symm
      have once := sound.timed.tick_add (n := rest.sum) first (by
        have timed := sound'.timed
        rwa [middleEq] at timed)
      rw [List.map_cons, Run.run, step, Option.bind_some, ih sound', List.sum_cons, middleEq,
        Beam.next, Beam.next, VideoDevice.next, VideoDevice.next, once]
      cases middle.tick rest.sum with
      | none => rfl
      | some result =>
          obtain ⟨last, lines⟩ := result
          refine congrArg (fun past => some (Beam.mk last past)) ?_
          rw [List.map_append, List.append_assoc]

theorem reset_sound (font8x16 : Bytes) (d : VideoDevice σ) :
    ∃ b, Beam.reset font8x16 d = some b ∧
      Sound font8x16 { d.card.reset font8x16 with line := 0, frame := 0 } b ∧
      b.device.cycles = 0 ∧ b.device.cpuClock = d.cpuClock := by
  let zeroed : VideoDevice σ :=
    { d with
      card := { d.card.reset font8x16 with line := 0, frame := 0 }
      cycles := 0
      lines := 0
      nextLineAt := 0
      active := false
      drawing := false }
  have timed : zeroed.Timed :=
    ⟨(CpuClock.lineStart_zero _).symm, fun n before => absurd before (Nat.not_lt_zero n)⟩
  obtain ⟨device, begun, ticked, ends⟩ := timed.tick 0
  have reset : Beam.reset font8x16 d = some ⟨device, begun.map .beginLine⟩ := by
    rw [Beam.reset, VideoDevice.reset, ticked]
    rfl
  have none : (Beam.mk zeroed []).begun = (List.range 0).map VideoDevice.lineNumber := rfl
  obtain ⟨sound, cycles, clock⟩ := ends_sound timed none rfl ends
  exact ⟨_, reset, sound, cycles, clock⟩

end Beam

/-- The lines begin on time however the time is sliced, FRAME counts the vertical blanks, and the
flags follow the beam. -/
theorem beam_timing {σ : Type} [VideoSink σ] (font8x16 : Bytes) (device : VideoDevice σ)
    (accesses : List (Access σ)) :
    ∃ b₀ b, Beam.reset font8x16 device = some b₀ ∧
      Run.run (Beam.next font8x16) b₀ accesses = some b ∧
      (∀ slices slices' : List Nat, slices.sum = slices'.sum →
        Run.run (Beam.next font8x16) b (slices.map .tick) =
          Run.run (Beam.next font8x16) b (slices'.map .tick)) ∧
      (∃ count, b.begun = (List.range count).map VideoDevice.lineNumber ∧
        ∀ n : Nat, n < count ↔ (n : ℚ) * device.cpuClock.hz / 31500 ≤
          ((accesses.map Access.elapsed).sum : ℕ)) ∧
      b.device.card.frame = BitVec.ofNat 8 (b.begun.count 480) ∧
      ∀ before event after, b.past = before ++ event :: after → ∃ c c',
        Run.run (VcCard.next font8x16)
          { device.card.reset font8x16 with line := 0, frame := 0 } before = some c ∧
        c.next font8x16 event = some c' ∧
        Run.run (VcCard.next font8x16) c' after = some b.device.card ∧ c.Flagged event c' := by
  obtain ⟨b₀, reset, sound₀, cycles₀, clock₀⟩ := Beam.reset_sound font8x16 device
  obtain ⟨b, ran, sound, cycles, clock⟩ := sound₀.run accesses
  refine ⟨b₀, b, reset, ran, fun slices slices' same => ?_, ⟨b.device.lines, sound.begun, fun n => ?_⟩,
    ?_, fun before event after split => ?_⟩
  · rw [sound.slices, sound.slices, same]
  · rw [cycles₀, Nat.zero_add] at cycles
    rw [← clock₀, ← clock, ← cycles, ← CpuClock.lineStart_le]
    constructor
    · exact sound.timed.begun n
    · intro early
      by_contra late
      have next := b.device.cpuClock.lineStart_mono (Nat.not_lt.mp late)
      rw [← sound.timed.next] at next
      exact sound.caught (next.trans early)
  · rw [VcCard.run_frame sound.card]
    exact BitVec.zero_add _
  · have card := sound.card
    rw [split, Run.run_append] at card
    obtain ⟨c, first, rest⟩ := card
    obtain ⟨c', step, last⟩ := Run.run_cons.mp rest
    exact ⟨c, c', first, step, last, VcCard.next_flagged step⟩

end Pugputer.Vidcard

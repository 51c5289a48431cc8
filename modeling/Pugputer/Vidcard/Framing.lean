import Mathlib.Data.List.GetD
import Mathlib.Tactic.IntervalCases
import Pugputer.Lib.Run
import Pugputer.Vidcard.Registers
import Pugputer.Vidcard.Shapes

namespace Pugputer.Vidcard

/-! Every command comes to its end, and so does every register write. -/

theorem Card.runCommand_total (c : Card) (opcode : Byte) (p : Bytes) :
    ∃ c', c.runCommand opcode p = some c' := by
  unfold Card.runCommand
  split
  all_goals first | exact ⟨_, c.line_drawAll _ _ _ _⟩ | exact ⟨_, rfl⟩

namespace VcCard

variable (font8x16 : Bytes) {c : VcCard}

theorem commandByte_total (c : VcCard) (v : Byte) : ∃ c', c.commandByte v = some c' := by
  unfold commandByte runCommand
  dsimp only
  split
  · obtain ⟨card, ran⟩ := c.card.runCommand_total _ _
    rw [ran]
    exact ⟨_, rfl⟩
  · exact ⟨_, rfl⟩

theorem next_total (c : VcCard) (event : Event) : ∃ c', c.next font8x16 event = some c' := by
  cases event with
  | write reg v =>
      unfold next write
      dsimp only
      split
      all_goals first | exact c.commandByte_total v | exact ⟨_, rfl⟩
  | _ => exact ⟨_, rfl⟩

theorem run_total (c : VcCard) (events : List Event) :
    ∃ c', Run.run (next font8x16) c events = some c' := by
  induction events generalizing c with
  | nil => exact ⟨c, rfl⟩
  | cons event rest ih =>
      obtain ⟨middle, step⟩ := c.next_total font8x16 event
      obtain ⟨last, ran⟩ := ih middle
      exact ⟨last, Run.run_cons.mpr ⟨middle, step, ran⟩⟩

end VcCard

/-! A command depends on its own parameters only. -/

/-- The parameter bytes of a command; an unknown opcode is one byte. -/
def paramsOf (opcode : Byte) : Nat := kParams.getD opcode.toNat 0

theorem paramsOf_le (opcode : Byte) : paramsOf opcode ≤ 14 := by
  have table : ∀ n, kParams.getD n 0 ≤ 14 := by
    intro n
    by_cases known : n < 16
    · revert n
      decide
    · rw [List.getD_eq_default _ _ (Nat.le_of_not_lt known)]
      decide
  exact table _

/-- The first `n` bytes, and nothing after them. -/
def first (n : Nat) (p : Bytes) : Bytes := fun i => if i < n then p i else 0

section

variable {n i : Nat} (p : Bytes)

theorem first_at (inside : i < n) : first n p i = p i := if_pos inside

theorem be16_first (inside : i + 1 < n) : be16 (first n p) i = be16 p i := by
  rw [be16, be16, first_at p inside, first_at p (by omega)]

theorem s16_first (inside : i + 1 < n) : s16 (first n p) i = s16 p i := by
  rw [s16, s16, be16_first p inside]

theorem be24_first (inside : i + 2 < n) : be24 (first n p) i = be24 p i := by
  rw [be24, be24, first_at p inside, first_at p (by omega), first_at p (by omega)]

end

theorem Card.runCommand_first (c : Card) (opcode : Byte) (p : Bytes) :
    c.runCommand opcode (first (paramsOf opcode) p) = c.runCommand opcode p := by
  by_cases known : opcode.toNat < 16
  · have listed : ∀ v : Byte, v.toNat < 16 → v ∈ [0x00#8, 0x01#8, 0x02#8, 0x03#8, 0x04#8, 0x05#8,
        0x06#8, 0x07#8, 0x08#8, 0x09#8, 0x0A#8, 0x0B#8, 0x0C#8, 0x0D#8, 0x0E#8, 0x0F#8] := by
      decide
    have inList := listed opcode known
    simp only [List.mem_cons, List.not_mem_nil, or_false] at inList
    rcases inList with rfl | rfl | rfl | rfl | rfl | rfl | rfl | rfl | rfl | rfl | rfl | rfl | rfl |
      rfl | rfl | rfl
    · change some c = some c
      rfl
    · rw [show paramsOf 0x01#8 = 10 by decide]
      change some (c.setTarget (first 10 p)) = some (c.setTarget p)
      simp (disch := decide) only [setTarget, first_at, be16_first, be24_first]
    · rw [show paramsOf 0x02#8 = 1 by decide]
      change some { c with color := first 1 p 0 } = some { c with color := p 0 }
      simp (disch := decide) only [first_at]
    · rw [show paramsOf 0x03#8 = 4 by decide]
      change some (c.pset _ _ c.color) = some (c.pset _ _ c.color)
      simp (disch := decide) only [s16_first]
    · rw [show paramsOf 0x04#8 = 8 by decide]
      change c.line _ _ _ _ = c.line _ _ _ _
      simp (disch := decide) only [s16_first]
    · rw [show paramsOf 0x05#8 = 8 by decide]
      change some (c.rect _ _ _ _) = some (c.rect _ _ _ _)
      simp (disch := decide) only [s16_first]
    · rw [show paramsOf 0x06#8 = 8 by decide]
      change some (c.fillRect _ _ _ _) = some (c.fillRect _ _ _ _)
      simp (disch := decide) only [s16_first]
    · rw [show paramsOf 0x07#8 = 6 by decide]
      change some (c.circle _ _ _ _) = some (c.circle _ _ _ _)
      simp (disch := decide) only [s16_first]
    · rw [show paramsOf 0x08#8 = 6 by decide]
      change some (c.circle _ _ _ _) = some (c.circle _ _ _ _)
      simp (disch := decide) only [s16_first]
    · change some c.clear = some c.clear
      rfl
    · rw [show paramsOf 0x0A#8 = 9 by decide]
      change some (if _ ∧ _ then c.copyDown _ _ _ else c.copyUp _ _ _ _) =
        some (if _ ∧ _ then c.copyDown _ _ _ else c.copyUp _ _ _ _)
      simp (disch := decide) only [be24_first]
    · rw [show paramsOf 0x0B#8 = 7 by decide]
      change some (c.fill _ _ _ _) = some (c.fill _ _ _ _)
      simp (disch := decide) only [first_at, be24_first]
    · rw [show paramsOf 0x0C#8 = 14 by decide]
      change some (c.blitRows _ _ _ _ _ _ _ _) = some (c.blitRows _ _ _ _ _ _ _ _)
      simp (disch := decide) only [first_at, be16_first, s16_first, be24_first]
    · rw [show paramsOf 0x0D#8 = 12 by decide]
      change some (c.triangle _ _ _ _ _ _) = some (c.triangle _ _ _ _ _ _)
      simp (disch := decide) only [s16_first]
    · rw [show paramsOf 0x0E#8 = 4 by decide]
      change some { c with font := _, fontH := _ } = some { c with font := _, fontH := _ }
      simp (disch := decide) only [first_at, be24_first]
    · rw [show paramsOf 0x0F#8 = 5 by decide]
      change some (c.charRows _ _ _ _ _) = some (c.charRows _ _ _ _ _)
      simp (disch := decide) only [first_at, s16_first]
  · unfold Card.runCommand
    split <;> first | omega | rfl

theorem Card.runCommand_congr (c : Card) {opcode : Byte} {p q : Bytes}
    (same : ∀ i < paramsOf opcode, p i = q i) : c.runCommand opcode p = c.runCommand opcode q := by
  have firsts : first (paramsOf opcode) p = first (paramsOf opcode) q := by
    funext i
    unfold first
    split
    · rename_i inside
      exact same i inside
    · rfl
  rw [← runCommand_first, firsts, runCommand_first]

/-- A write to CMD. -/
def Event.Command : Event → Prop
  | .write reg _ => (reg &&& 0x1F#8).toNat = 0x12
  | _ => False

/-- A card reset. -/
def Event.Resets : Event → Prop
  | .write reg v => (reg &&& 0x1F#8).toNat = 0x0C ∧ v.getLsbD 7 = true
  | _ => False

/-- Anything but a byte of a command or a reset. -/
def Event.Aside (event : Event) : Prop := ¬event.Command ∧ ¬event.Resets

namespace VcCard

variable (font8x16 : Bytes)

/-- The card with other bytes in its command buffer. -/
def withCmd (c : VcCard) (cmd : Bytes) (cmdLen : Nat) : VcCard := { c with cmd, cmdLen }

@[simp] theorem withCmd_withCmd (c : VcCard) (cmd cmd' : Bytes) (n n' : Nat) :
    (c.withCmd cmd n).withCmd cmd' n' = c.withCmd cmd' n' := rfl

theorem read_withCmd (c : VcCard) (reg : Byte) (cmd : Bytes) (n : Nat) :
    ((c.withCmd cmd n).read reg).2 = (c.read reg).2.withCmd cmd n := by
  unfold read
  dsimp only
  split
  all_goals first | rfl | (split <;> split <;> first | rfl | contradiction)

theorem write_withCmd (c : VcCard) {reg v : Byte} (aside : (Event.write reg v).Aside) (cmd : Bytes)
    (n : Nat) : (c.withCmd cmd n).write font8x16 reg v =
      (c.write font8x16 reg v).map (·.withCmd cmd n) := by
  obtain ⟨notCommand, notReset⟩ := aside
  unfold Event.Command at notCommand
  unfold Event.Resets at notReset
  unfold write
  dsimp only
  split
  all_goals first | rfl | contradiction | (split <;> first | rfl | exact absurd ⟨‹_›, ‹_›⟩ notReset)

theorem beginLine_withCmd (c : VcCard) (line : Word) (cmd : Bytes) (n : Nat) :
    (c.withCmd cmd n).beginLine line = (c.beginLine line).withCmd cmd n := by
  have vblank (d : VcCard) : (d.withCmd cmd n).startVblank = d.startVblank.withCmd cmd n := by
    have control : (d.withCmd cmd n).inCtrl = d.inCtrl := rfl
    unfold startVblank
    dsimp only
    rw [control]
    split <;> rfl
  have reach (d : VcCard) : (d.withCmd cmd n).reachLine = d.reachLine.withCmd cmd n := by
    have line : (d.withCmd cmd n).line = d.line := rfl
    have irqLine : (d.withCmd cmd n).irqLine = d.irqLine := rfl
    unfold reachLine
    rw [line, irqLine]
    split <;> rfl
  unfold beginLine
  dsimp only
  split
  · exact (congrArg reachLine (vblank { c with line })).trans (reach _)
  · exact reach { c with line }

theorem key_withCmd (c : VcCard) (usage : Byte) (down : Bool) (cmd : Bytes) (n : Nat) :
    (c.withCmd cmd n).key usage down = (c.key usage down).withCmd cmd n := by
  have modifiers : (c.withCmd cmd n).modifier usage down = (c.modifier usage down).withCmd cmd n := by
    unfold modifier
    split
    · rfl
    · split <;> rfl
  have waiting : ((c.modifier usage down).withCmd cmd n).keyqLen =
      (c.modifier usage down).keyqLen := rfl
  unfold key
  dsimp only
  rw [modifiers, waiting]
  split <;> rfl

/-- What is no command byte does not depend on the command buffer, and leaves it alone. -/
theorem next_withCmd (c : VcCard) {event : Event} (aside : event.Aside) (cmd : Bytes) (n : Nat) :
    (c.withCmd cmd n).next font8x16 event = (c.next font8x16 event).map (·.withCmd cmd n) := by
  cases event with
  | read reg => exact congrArg some (c.read_withCmd reg cmd n)
  | write reg v => exact c.write_withCmd font8x16 aside cmd n
  | mouseTo x y buttons => rfl
  | mouseBy dx dy buttons => rfl
  | mouseWheel clicks =>
      refine congrArg some ?_
      unfold mouseWheel
      split <;> rfl
  | key usage down => exact congrArg some (c.key_withCmd usage down cmd n)
  | beginLine line => exact congrArg some (c.beginLine_withCmd line cmd n)

theorem run_withCmd (c : VcCard) {events : List Event} (aside : ∀ e ∈ events, e.Aside) (cmd : Bytes)
    (n : Nat) : Run.run (next font8x16) (c.withCmd cmd n) events =
      (Run.run (next font8x16) c events).map (·.withCmd cmd n) := by
  induction events generalizing c with
  | nil => rfl
  | cons event rest ih =>
      rw [Run.run, Run.run, c.next_withCmd font8x16 (aside event List.mem_cons_self)]
      obtain ⟨c', step⟩ := c.next_total font8x16 event
      rw [step]
      exact ih c' fun e member => aside e (List.mem_cons_of_mem _ member)

/-! A byte of a command. -/

/-- A command run as a whole. -/
def execute (c : VcCard) (opcode : Byte) (params : List Byte) : Option VcCard :=
  (c.card.runCommand opcode fun i => params.getD i 0).map fun card =>
    { c with card, isr := c.isr ||| vcIrqCmdDone }

/-- The buffer holds these bytes. -/
def Received (cmd : Bytes) (sent : List Byte) : Prop :=
  ∀ i, (inside : i < sent.length) → cmd i = sent[i]

theorem Received.snoc {cmd : Bytes} {sent : List Byte} (received : Received cmd sent) (v : Byte) :
    Received (Function.update cmd sent.length v) (sent ++ [v]) := by
  intro i inside
  by_cases old : i < sent.length
  · rw [Function.update_of_ne (by omega), received i old, List.getElem_append_left old]
  · have last : i = sent.length := by
      rw [List.length_append, List.length_singleton] at inside
      omega
    subst last
    rw [Function.update_self, List.getElem_concat_length rfl]

/-- The bytes sent so far and one more: the command goes on, or it is run. -/
theorem commandByte_received (c : VcCard) {cmd : Bytes} {sent : List Byte} (v opcode : Byte)
    (params : List Byte) (received : Received cmd sent) (next : sent ++ [v] = opcode :: params)
    (inside : params.length ≤ paramsOf opcode) :
    (c.withCmd cmd sent.length).commandByte v =
      if params.length = paramsOf opcode then
        (c.execute opcode params).map (·.withCmd (Function.update cmd sent.length v) 0)
      else some (c.withCmd (Function.update cmd sent.length v) (params.length + 1)) := by
  have now := received.snoc v
  rw [next] at now
  have opcodeAt : Function.update cmd sent.length v 0 = opcode := now 0 (Nat.zero_lt_succ _)
  have count : sent.length = params.length := by
    have := congrArg List.length next
    simpa using this
  have need : kParams.getD (Function.update cmd sent.length v 0).toNat 0 = paramsOf opcode := by
    rw [opcodeAt, paramsOf]
  unfold commandByte
  dsimp only [withCmd]
  rw [need]
  by_cases last : params.length = paramsOf opcode
  · have own : c.card.runCommand opcode (fun i => Function.update cmd sent.length v (i + 1)) =
        c.card.runCommand opcode fun i => params.getD i 0 := by
      apply Card.runCommand_congr
      intro i below
      have found := now (i + 1) (by rw [List.length_cons]; omega)
      rw [found, List.getElem_cons_succ, List.getD_eq_getElem]
    rw [if_pos (by omega), if_pos last, runCommand]
    dsimp only
    rw [opcodeAt, own, execute, Option.map_map, Option.map_map]
    rfl
  · rw [if_neg (by omega), if_neg last, count]

/-! Streams of commands. -/

/-- A command being sent: what happens before each of its parameters, and the parameter. -/
structure Sent where
  opcode : Byte
  rest : List (List Event × Byte)

/-- A write of a byte to CMD. -/
def cmdByte (v : Byte) : Event := .write 0x12 v

/-- What the card does: something else that happens to it, or a command. -/
inductive Act where
  | event (event : Event)
  | command (opcode : Byte) (params : List Byte)

def act (font8x16 : Bytes) (c : VcCard) : Act → Option VcCard
  | .event event => c.next font8x16 event
  | .command opcode params => c.execute opcode params

namespace Sent

def params (s : Sent) : List Byte := s.rest.map (·.2)

def between (s : Sent) : List Event := s.rest.flatMap (·.1)

def events (s : Sent) : List Event :=
  cmdByte s.opcode :: s.rest.flatMap fun p => p.1 ++ [cmdByte p.2]

/-- The command, where its last byte is. -/
def acts (s : Sent) : List Act := s.between.map .event ++ [.command s.opcode s.params]

/-- All of its parameters; an unknown opcode has none. -/
def Complete (s : Sent) : Prop := s.rest.length = paramsOf s.opcode

def Unfinished (s : Sent) : Prop := s.rest.length < paramsOf s.opcode

end Sent

theorem run_events (c : VcCard) (events : List Event) :
    Run.run (act font8x16) c (events.map .event) = Run.run (next font8x16) c events := by
  induction events generalizing c with
  | nil => rfl
  | cons event rest ih => exact congrArg (Option.bind _) (funext ih)

/-- The parameters of a command up to where it is complete or broken off. -/
theorem run_params (c : VcCard) {cmd : Bytes} {opcode : Byte} (params : List Byte)
    (received : Received cmd (opcode :: params)) (going : params.length < paramsOf opcode)
    (rest : List (List Event × Byte)) (inside : params.length + rest.length ≤ paramsOf opcode)
    (aside : ∀ p ∈ rest, ∀ e ∈ p.1, e.Aside) :
    ∃ cmd', Received cmd' (opcode :: (params ++ rest.map (·.2))) ∧
      Run.run (next font8x16) (c.withCmd cmd (params.length + 1))
          (rest.flatMap fun p => p.1 ++ [cmdByte p.2]) =
        if params.length + rest.length = paramsOf opcode then
          (Run.run (act font8x16) c ((rest.flatMap (·.1)).map .event ++
            [.command opcode (params ++ rest.map (·.2))])).map (·.withCmd cmd' 0)
        else (Run.run (next font8x16) c (rest.flatMap (·.1))).map
          (·.withCmd cmd' (params.length + rest.length + 1)) := by
  induction rest generalizing c cmd params with
  | nil =>
      refine ⟨cmd, by simpa using received, ?_⟩
      rw [if_neg (by simpa using going.ne)]
      rfl
  | cons p rest ih =>
      obtain ⟨before, v⟩ := p
      obtain ⟨c', first⟩ := c.run_total font8x16 before
      have asideBefore : ∀ e ∈ before, e.Aside := aside (before, v) List.mem_cons_self
      have asideRest : ∀ p ∈ rest, ∀ e ∈ p.1, e.Aside :=
        fun p member => aside p (List.mem_cons_of_mem _ member)
      rw [List.length_cons] at inside
      have grown : (params ++ [v]).length = params.length + 1 := by simp
      have joined : params ++ ((before, v) :: rest).map (·.2) = params ++ [v] ++ rest.map (·.2) := by
        simp
      have step := c'.commandByte_received v opcode (params ++ [v]) received rfl
        (by omega)
      rw [List.length_cons] at step
      have started : Run.run (next font8x16) (c.withCmd cmd (params.length + 1))
          (((before, v) :: rest).flatMap fun p => p.1 ++ [cmdByte p.2]) =
          ((c'.withCmd cmd (params.length + 1)).commandByte v).bind fun d =>
            Run.run (next font8x16) d (rest.flatMap fun p => p.1 ++ [cmdByte p.2]) := by
        rw [List.flatMap_cons, List.append_assoc, Run.run_append_bind, c.run_withCmd font8x16 asideBefore,
          first]
        rfl
      have happened : Run.run (next font8x16) c (((before, v) :: rest).flatMap (·.1)) =
          Run.run (next font8x16) c' (rest.flatMap (·.1)) := by
        rw [List.flatMap_cons, Run.run_append_bind, first]
        rfl
      have acted (acts : List Act) : Run.run (act font8x16) c
          ((((before, v) :: rest).flatMap (·.1)).map .event ++ acts) =
          Run.run (act font8x16) c' ((rest.flatMap (·.1)).map .event ++ acts) := by
        rw [List.flatMap_cons, List.map_append, List.append_assoc, Run.run_append_bind, run_events,
          first]
        rfl
      rw [started, step, joined, List.length_cons, acted, happened]
      by_cases last : (params ++ [v]).length = paramsOf opcode
      · -- the last byte: nothing is left to send
        obtain rfl : rest = [] := List.eq_nil_of_length_eq_zero (by omega)
        refine ⟨Function.update cmd (params.length + 1) v, ?_, ?_⟩
        · rw [List.map_nil, List.append_nil]
          exact received.snoc v
        · rw [if_pos last, if_pos (by rw [List.length_nil]; omega), List.map_nil, List.append_nil]
          change _ = Option.map _ ((c'.execute opcode (params ++ [v])).bind some)
          cases c'.execute opcode (params ++ [v]) <;> rfl
      · obtain ⟨cmd', received', ran⟩ := ih c' (params ++ [v]) (received.snoc v)
          (by omega) (by omega) asideRest
        refine ⟨cmd', received', ?_⟩
        rw [List.length_cons, grown] at ran
        rw [if_neg last, Option.bind_some, grown, ran]
        have count : params.length + 1 + rest.length = params.length + (rest.length + 1) := by omega
        rw [count]

/-- A command sent to a card that is between commands. -/
theorem run_sent (c : VcCard) (cmd : Bytes) (s : Sent)
    (inside : s.rest.length ≤ paramsOf s.opcode) (aside : ∀ p ∈ s.rest, ∀ e ∈ p.1, e.Aside) :
    ∃ cmd', Run.run (next font8x16) (c.withCmd cmd 0) s.events =
      if s.rest.length = paramsOf s.opcode then
        (Run.run (act font8x16) c s.acts).map (·.withCmd cmd' 0)
      else (Run.run (next font8x16) c s.between).map (·.withCmd cmd' (s.rest.length + 1)) := by
  obtain ⟨opcode, rest⟩ := s
  have empty : Received cmd [] := fun i inside => absurd inside (Nat.not_lt_zero i)
  have step := c.commandByte_received opcode opcode [] empty rfl (Nat.zero_le _)
  have started : Run.run (next font8x16) (c.withCmd cmd 0) (Sent.events ⟨opcode, rest⟩) =
      ((c.withCmd cmd 0).commandByte opcode).bind fun d =>
        Run.run (next font8x16) d (rest.flatMap fun p => p.1 ++ [cmdByte p.2]) := rfl
  rw [List.length_nil] at step
  rw [started, step]
  dsimp only at inside aside ⊢
  by_cases alone : 0 = paramsOf opcode
  · obtain rfl : rest = [] := List.eq_nil_of_length_eq_zero (by omega)
    refine ⟨Function.update cmd 0 opcode, ?_⟩
    rw [if_pos alone, List.length_nil, if_pos alone]
    change _ = Option.map _ ((c.execute opcode []).bind some)
    cases c.execute opcode [] <;> rfl
  · obtain ⟨cmd', -, ran⟩ := c.run_params font8x16 [] (empty.snoc opcode)
      (by rw [List.length_nil]; omega) rest (by rw [List.length_nil]; omega) aside
    refine ⟨cmd', ?_⟩
    rw [if_neg alone, Option.bind_some]
    simp only [List.length_nil, Nat.zero_add, List.nil_append] at ran
    exact ran

/-- Complete commands, each with what happens before it. -/
abbrev Stream := List (List Event × Sent)

namespace Stream

def events (stream : Stream) : List Event := stream.flatMap fun p => p.1 ++ p.2.events

def acts (stream : Stream) : List Act := stream.flatMap fun p => p.1.map .event ++ p.2.acts

/-- Every command is complete, and nothing else writes CMD or resets the card. -/
structure Framed (stream : Stream) : Prop where
  complete : ∀ p ∈ stream, p.2.Complete
  aside : ∀ p ∈ stream, (∀ e ∈ p.1, e.Aside) ∧ ∀ q ∈ p.2.rest, ∀ e ∈ q.1, e.Aside

end Stream

theorem run_stream (c : VcCard) (cmd : Bytes) {stream : Stream} (framed : stream.Framed) :
    ∃ cmd', Run.run (next font8x16) (c.withCmd cmd 0) stream.events =
      (Run.run (act font8x16) c stream.acts).map (·.withCmd cmd' 0) := by
  induction stream generalizing c cmd with
  | nil => exact ⟨cmd, rfl⟩
  | cons p rest ih =>
      obtain ⟨before, s⟩ := p
      have complete : s.Complete := framed.complete (before, s) List.mem_cons_self
      obtain ⟨asideBefore, asideSent⟩ := framed.aside (before, s) List.mem_cons_self
      have framedRest : Stream.Framed rest :=
        ⟨fun p member => framed.complete p (List.mem_cons_of_mem _ member),
          fun p member => framed.aside p (List.mem_cons_of_mem _ member)⟩
      obtain ⟨c', first⟩ := c.run_total font8x16 before
      obtain ⟨cmd', ran⟩ := c'.run_sent font8x16 cmd s complete.le asideSent
      rw [if_pos (show s.rest.length = paramsOf s.opcode from complete)] at ran
      have eventsEq : Run.run (next font8x16) (c.withCmd cmd 0) (Stream.events ((before, s) :: rest)) =
          ((Run.run (act font8x16) c' s.acts).map (·.withCmd cmd' 0)).bind fun d =>
            Run.run (next font8x16) d (Stream.events rest) := by
        rw [Stream.events, List.flatMap_cons, List.append_assoc, Run.run_append_bind,
          c.run_withCmd font8x16 asideBefore, first, Option.map_some, Option.bind_some,
          Run.run_append_bind, ran]
        rfl
      have actsEq : Run.run (act font8x16) c (Stream.acts ((before, s) :: rest)) =
          (Run.run (act font8x16) c' s.acts).bind fun d =>
            Run.run (act font8x16) d (Stream.acts rest) := by
        rw [Stream.acts, List.flatMap_cons, List.append_assoc, Run.run_append_bind, run_events,
          first, Option.bind_some, Run.run_append_bind]
        rfl
      rw [eventsEq, actsEq]
      cases Run.run (act font8x16) c' s.acts with
      | none => exact ⟨cmd', rfl⟩
      | some d =>
          obtain ⟨cmd'', last⟩ := ih d cmd' framedRest
          exact ⟨cmd'', last⟩

theorem act_total (c : VcCard) (acts : List Act) :
    ∃ c', Run.run (act font8x16) c acts = some c' := by
  induction acts generalizing c with
  | nil => exact ⟨c, rfl⟩
  | cons a rest ih =>
      have step : ∃ middle, c.act font8x16 a = some middle := by
        cases a with
        | event event => exact c.next_total font8x16 event
        | command opcode params =>
            obtain ⟨card, ran⟩ := c.card.runCommand_total opcode fun i => params.getD i 0
            exact ⟨_, by rw [act, execute, ran]; rfl⟩
      obtain ⟨middle, step⟩ := step
      obtain ⟨last, ran⟩ := ih middle
      exact ⟨last, Run.run_cons.mpr ⟨middle, step, ran⟩⟩

/-! The counter. -/

/-- In the middle of a command the buffer holds part of it. -/
def Counted (c : VcCard) : Prop := c.cmdLen = 0 ∨ c.cmdLen ≤ paramsOf (c.cmd 0)

theorem commandByte_counted {c c' : VcCard} {v : Byte} (ran : c.commandByte v = some c') :
    c'.Counted := by
  unfold commandByte at ran
  dsimp only at ran
  split at ran
  · obtain ⟨d, -, rfl⟩ := Option.map_eq_some_iff.mp ran
    exact .inl rfl
  · rename_i short
    obtain rfl := Option.some.inj ran
    exact .inr (Nat.le_of_not_lt short)

theorem write_command (c : VcCard) {reg : Byte} (v : Byte)
    (command : (reg &&& 0x1F#8).toNat = 0x12) :
    c.write font8x16 reg v = c.commandByte v := by
  unfold write
  rw [command]
  rfl

theorem write_reset (c : VcCard) {reg v : Byte} (control : (reg &&& 0x1F#8).toNat = 0x0C)
    (bit : v.getLsbD 7 = true) : c.write font8x16 reg v = some (c.reset font8x16) := by
  unfold write
  rw [control]
  exact congrArg some (if_pos bit)

theorem next_counted {c c' : VcCard} {event : Event} (counted : c.Counted)
    (ran : c.next font8x16 event = some c') : c'.Counted := by
  by_cases command : event.Command
  · cases event with
    | write reg v =>
        rw [next, c.write_command font8x16 v command] at ran
        exact commandByte_counted ran
    | _ => exact command.elim
  · by_cases resets : event.Resets
    · cases event with
      | write reg v =>
          rw [next, c.write_reset font8x16 resets.1 resets.2] at ran
          obtain rfl := Option.some.inj ran
          exact .inl rfl
      | _ => exact resets.elim
    · have kept := c.next_withCmd font8x16 ⟨command, resets⟩ c.cmd c.cmdLen
      rw [ran] at kept
      have same : c' = c'.withCmd c.cmd c.cmdLen := Option.some.inj (ran.symm.trans kept)
      rw [same]
      exact counted

/-- STATUS says a command is being received. -/
theorem status_busy (c : VcCard) : (c.read 0x0D#8).1.getLsbD 6 = decide (c.cmdLen ≠ 0) := by
  have bits : (c.read 0x0D#8).1 = (if vcHeight ≤ c.line.toNat then 0x80#8 else 0) |||
    (if c.cmdLen ≠ 0 then 0x40#8 else 0) ||| (if c.keyqLen ≠ 0 then 0x10#8 else 0) := rfl
  have vblank : (if vcHeight ≤ c.line.toNat then 0x80#8 else 0).getLsbD 6 = false := by
    split <;> rfl
  have waiting : (if c.keyqLen ≠ 0 then 0x10#8 else 0).getLsbD 6 = false := by
    split <;> rfl
  have busy : (if c.cmdLen ≠ 0 then 0x40#8 else 0).getLsbD 6 = decide (c.cmdLen ≠ 0) := by
    by_cases some : c.cmdLen ≠ 0
    · rw [if_pos some, decide_eq_true some]
      rfl
    · rw [if_neg some, decide_eq_false some]
      rfl
  rw [bits, BitVec.getLsbD_or, BitVec.getLsbD_or, vblank, waiting, busy, Bool.false_or,
    Bool.or_false]

theorem execute_done {c c' : VcCard} {opcode : Byte} {params : List Byte}
    (ran : c.execute opcode params = some c') : c'.isr.getLsbD 2 = true := by
  obtain ⟨card, -, rfl⟩ := Option.map_eq_some_iff.mp ran
  have bit : vcIrqCmdDone.getLsbD 2 = true := by decide
  rw [BitVec.getLsbD_or, bit, Bool.or_true]

/-- After complete commands, and anything else that happens. -/
theorem run_complete {c : VcCard} (idle : c.cmdLen = 0) {stream : Stream} (framed : stream.Framed)
    {after : List Event} (aside : ∀ e ∈ after, e.Aside) :
    ∃ cmd d, Run.run (act font8x16) c (stream.acts ++ after.map .event) = some d ∧
      Run.run (next font8x16) c (stream.events ++ after) = some (d.withCmd cmd 0) := by
  have own : c = c.withCmd c.cmd 0 := by
    rw [← idle]
    rfl
  obtain ⟨cmd, sent⟩ := c.run_stream font8x16 c.cmd framed
  obtain ⟨middle, acted⟩ := c.act_total font8x16 stream.acts
  obtain ⟨d, happened⟩ := middle.run_total font8x16 after
  rw [← own, acted, Option.map_some] at sent
  refine ⟨cmd, d, ?_, ?_⟩
  · rw [Run.run_append_bind, acted, Option.bind_some, run_events, happened]
  · rw [Run.run_append_bind, sent, Option.bind_some, run_withCmd font8x16 _ aside, happened, Option.map_some]

/-- In the middle of the next command. -/
theorem run_unfinished {c : VcCard} (idle : c.cmdLen = 0) {stream : Stream} (framed : stream.Framed)
    {before after : List Event} {part : Sent} (unfinished : part.Unfinished)
    (asideBefore : ∀ e ∈ before, e.Aside) (asidePart : ∀ p ∈ part.rest, ∀ e ∈ p.1, e.Aside)
    (asideAfter : ∀ e ∈ after, e.Aside) :
    ∃ cmd d, Run.run (act font8x16) c
        (stream.acts ++ (before ++ part.between ++ after).map .event) = some d ∧
      Run.run (next font8x16) c (stream.events ++ before ++ (part.events ++ after)) =
        some (d.withCmd cmd (part.rest.length + 1)) := by
  obtain ⟨cmd, middle, acted, ran⟩ := run_complete font8x16 idle framed asideBefore
  obtain ⟨cmd', sent⟩ := middle.run_sent font8x16 cmd part unfinished.le asidePart
  rw [if_neg (show part.rest.length ≠ paramsOf part.opcode from unfinished.ne)] at sent
  obtain ⟨reached, between⟩ := middle.run_total font8x16 part.between
  obtain ⟨d, happened⟩ := reached.run_total font8x16 after
  rw [between, Option.map_some] at sent
  refine ⟨cmd', d, ?_, ?_⟩
  · rw [List.append_assoc, List.map_append, ← List.append_assoc, Run.run_append_bind, acted,
      Option.bind_some, run_events, Run.run_append_bind, between, Option.bind_some, happened]
  · rw [Run.run_append_bind, ran, Option.bind_some, Run.run_append_bind, sent, Option.bind_some,
      run_withCmd font8x16 _ asideAfter, happened, Option.map_some]

/-- The bytes written to CMD are taken as the commands they make up: each runs once, in order,
at its last byte and with its own parameters. STATUS says so, CMDDONE is raised at every end, and
the byte a card takes next always has room in the buffer. -/
theorem commands_framed {c : VcCard} (idle : c.cmdLen = 0) :
    (∀ (stream : Stream) (after : List Event), stream.Framed → (∀ e ∈ after, e.Aside) →
      ∃ cmd d, Run.run (act font8x16) c (stream.acts ++ after.map .event) = some d ∧
        Run.run (next font8x16) c (stream.events ++ after) = some (d.withCmd cmd 0) ∧
        ((d.withCmd cmd 0).read 0x0D#8).1.getLsbD 6 = false) ∧
    (∀ (stream : Stream) (before : List Event) (part : Sent) (after : List Event),
      stream.Framed → part.Unfinished → (∀ e ∈ before, e.Aside) →
      (∀ p ∈ part.rest, ∀ e ∈ p.1, e.Aside) → (∀ e ∈ after, e.Aside) →
      ∃ cmd d, Run.run (act font8x16) c
          (stream.acts ++ (before ++ part.between ++ after).map .event) = some d ∧
        Run.run (next font8x16) c (stream.events ++ before ++ (part.events ++ after)) =
          some (d.withCmd cmd (part.rest.length + 1)) ∧
        ((d.withCmd cmd (part.rest.length + 1)).read 0x0D#8).1.getLsbD 6 = true) ∧
    (∀ (d : VcCard) (opcode : Byte) (params : List Byte) (d' : VcCard),
      d.execute opcode params = some d' → d'.isr.getLsbD 2 = true) ∧
    ∀ (events : List Event) (d : VcCard), Run.run (next font8x16) c events = some d →
      d.cmdLen + 1 ≤ 15 := by
  refine ⟨?_, ?_, ?_, ?_⟩
  · intro stream after framed aside
    obtain ⟨cmd, d, acted, ran⟩ := run_complete font8x16 idle framed aside
    exact ⟨cmd, d, acted, ran, status_busy _⟩
  · intro stream before part after framed unfinished asideBefore asidePart asideAfter
    obtain ⟨cmd, d, acted, ran⟩ := run_unfinished font8x16 idle framed unfinished
      asideBefore asidePart asideAfter
    exact ⟨cmd, d, acted, ran, status_busy _⟩
  · intro d opcode params d' ran
    exact execute_done ran
  · intro events d ran
    have counted : d.Counted :=
      Run.run_invariant Counted (fun _ _ _ => next_counted font8x16) (.inl idle) ran
    have most := paramsOf_le (d.cmd 0)
    rcases counted with none | some <;> omega

theorem commands_framed_color : ∃ cmd d,
    Run.run (act fun _ => 0) { card := { vram := fun _ => 0, cfg := fun _ => 0 } }
      [.event (.key 0x04 true), .command 0x02 [0x07]] = some d ∧
    Run.run (next fun _ => 0) { card := { vram := fun _ => 0, cfg := fun _ => 0 } }
      [cmdByte 0x02, .key 0x04 true, cmdByte 0x07] = some (d.withCmd cmd 0) ∧
    ((d.withCmd cmd 0).read 0x0D#8).1.getLsbD 6 = false := by
  have framed : Stream.Framed [([], ⟨0x02, [([.key 0x04 true], 0x07)]⟩)] := by
    refine ⟨?_, ?_⟩
    · intro p member
      obtain rfl := List.mem_singleton.mp member
      exact (by decide : 1 = paramsOf 0x02)
    · intro p member
      obtain rfl := List.mem_singleton.mp member
      refine ⟨fun e none => absurd none List.not_mem_nil, fun q inRest e inside => ?_⟩
      obtain rfl := List.mem_singleton.mp inRest
      obtain rfl := List.mem_singleton.mp inside
      exact ⟨id, id⟩
  exact (commands_framed (fun _ => 0) rfl).1 _ [] framed fun e none => absurd none List.not_mem_nil

end VcCard

end Pugputer.Vidcard

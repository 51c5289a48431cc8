import Mathlib.Algebra.Order.Field.Rat
import Mathlib.Data.Rat.Floor
import Pugputer.Lib.Catchup
import Pugputer.Vidcard.Framing
import Pugputer.Vidcard.Render

namespace Pugputer.Vidcard

/-! The card on the bus: its beam moves in step with the CPU. -/

def vcLines : Nat := 525
def vcFps : Nat := 60

/-- Rows of 0x00RRGGBB. -/
abbrev Picture := Nat → Nat → BitVec 32

class VideoSink (σ : Type) where
  wantsFrame : σ → Bool × σ
  frame : σ → Option Picture → σ

structure CpuClock where
  hz : ℚ
  pos : 0 < hz

/-- What `begin_line` works on. -/
structure Screen (σ : Type) where
  card : VcCard
  pixels : Picture := fun _ _ => 0
  sink : Option σ := none
  active : Bool := false
  drawing : Bool := false
  drawAll : Bool := false
  framesDrawn : Nat := 0

structure VideoDevice (σ : Type) extends Screen σ where
  cpuClock : CpuClock
  cycles : Nat := 0
  lines : Nat := 0
  nextLineAt : Nat := 0

/-- Line n begins at n / (60 * 525) seconds. -/
def CpuClock.lineStart (clock : CpuClock) (n : Nat) : Nat :=
  ⌈(n : ℚ) * clock.hz / (vcFps * vcLines : ℕ)⌉₊

/-- RGB565 to 0x00RRGGBB. -/
def rgb888 (p : Word) : BitVec 32 :=
  let r := p.toNat / 2048
  let g := p.toNat / 32 % 64
  let b := p.toNat % 32
  BitVec.ofNat 32 ((r * 255 + 15) / 31 * 65536 + (g * 255 + 31) / 63 * 256 + (b * 255 + 15) / 31)

namespace Screen

variable {σ : Type} [VideoSink σ]

/-- Whether the frame that starts is drawn; the sink is asked only where it matters. -/
def askDrawing (s : Screen σ) : Screen σ :=
  if s.active then
    if s.drawAll then { s with drawing := true }
    else
      match s.sink with
      | some sink =>
          { s with
            drawing := (VideoSink.wantsFrame sink).1
            sink := some (VideoSink.wantsFrame sink).2 }
      | none => { s with drawing := false }
  else { s with drawing := false }

def drawLine (s : Screen σ) (line : Nat) : Screen σ :=
  let row := fun x => rgb888 (s.card.card.renderLine line x)
  { s with pixels := Function.update s.pixels line row }

def sendFrame (s : Screen σ) : Screen σ :=
  { s with
    framesDrawn := if s.drawing then s.framesDrawn + 1 else s.framesDrawn
    sink := s.sink.map fun sink =>
      VideoSink.frame sink (if s.drawing then some s.pixels else none) }

def beginLine (s : Screen σ) (line : Word) : Screen σ :=
  let s := if line = 0 then s.askDrawing else s
  let s := { s with card := s.card.beginLine line }
  let s := if line.toNat < vcHeight ∧ s.drawing then s.drawLine line.toNat else s
  if line.toNat = vcHeight ∧ s.active then s.sendFrame else s

end Screen

namespace VideoDevice

variable {σ : Type} [VideoSink σ]

def due (d : VideoDevice σ) : Prop := d.nextLineAt ≤ d.cycles

instance : DecidablePred (due (σ := σ)) := fun d =>
  inferInstanceAs (Decidable (d.nextLineAt ≤ d.cycles))

def line (d : VideoDevice σ) : Word := BitVec.ofNat 16 (d.lines % vcLines)

/-- The body of the loop in `tick`. -/
def turn (d : VideoDevice σ) : VideoDevice σ :=
  { d with
    toScreen := d.toScreen.beginLine d.line
    lines := d.lines + 1
    nextLineAt := d.cpuClock.lineStart (d.lines + 1) }

def advance (cycles : Nat) (d : VideoDevice σ) : VideoDevice σ :=
  { d with cycles := d.cycles + cycles }

/-- The turns the loop may take before every line due has begun, and one more. -/
def turns (d : VideoDevice σ) : Nat :=
  ⌊(d.cycles : ℚ) * (vcFps * vcLines : ℕ) / d.cpuClock.hz⌋₊ + 1

/-- Besides the device, the lines that begin. -/
def tick (d : VideoDevice σ) (cycles : Nat) : Option (VideoDevice σ × List Word) :=
  let d := d.advance cycles
  Catchup.loop due turn line d.turns d

def reset (font8x16 : Bytes) (d : VideoDevice σ) : Option (VideoDevice σ × List Word) :=
  let card := d.card.reset font8x16
  tick { d with
    card := { card with line := 0, frame := 0 }
    cycles := 0
    lines := 0
    nextLineAt := 0
    active := false
    drawing := false } 0

end VideoDevice

/-- What the machine does to the device. -/
inductive Access (σ : Type) where
  | read (offset : Word)
  | write (offset : Word) (value : Byte)
  | tick (cycles : Nat)
  | mouseTo (x y : Int) (buttons : Byte)
  | mouseWheel (clicks : Int)
  | key (usage : Byte) (down : Bool)
  | setSink (sink : Option σ)
  | setDrawAll (on : Bool)

namespace VideoDevice

variable {σ : Type} [VideoSink σ]

/-- The device after an access, and what that was to the card. -/
def next (font8x16 : Bytes) (d : VideoDevice σ) : Access σ → Option (VideoDevice σ × List Event)
  | .read offset =>
      let (_, card) := d.card.read (loByte offset)
      some ({ d with card }, [.read (loByte offset)])
  | .write offset value =>
      (d.card.write font8x16 (loByte offset) value).map fun card =>
        ({ d with active := true, card }, [.write (loByte offset) value])
  | .tick cycles => (d.tick cycles).map fun (d, begun) => (d, begun.map .beginLine)
  | .mouseTo x y buttons =>
      some ({ d with card := d.card.mouseTo x y buttons }, [.mouseTo x y buttons])
  | .mouseWheel clicks => some ({ d with card := d.card.mouseWheel clicks }, [.mouseWheel clicks])
  | .key usage down => some ({ d with card := d.card.key usage down }, [.key usage down])
  | .setSink sink => some ({ d with sink }, [])
  | .setDrawAll on => some ({ d with drawAll := on }, [])

end VideoDevice

/-- The line that begins. -/
def Event.begins : Event → Option Word
  | .beginLine line => some line
  | _ => none

/-- A device with what happened to its card since the last reset. -/
structure Beam (σ : Type) where
  device : VideoDevice σ
  past : List Event

namespace Beam

variable {σ : Type} [VideoSink σ] (font8x16 : Bytes)

def next (b : Beam σ) (access : Access σ) : Option (Beam σ) :=
  (b.device.next font8x16 access).map fun (device, events) => ⟨device, b.past ++ events⟩

def reset (d : VideoDevice σ) : Option (Beam σ) :=
  (d.reset font8x16).map fun (device, begun) => ⟨device, begun.map .beginLine⟩

/-- The lines that began, in order. -/
def begun (b : Beam σ) : List Word := b.past.filterMap Event.begins

end Beam

end Pugputer.Vidcard

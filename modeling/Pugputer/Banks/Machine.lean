import Pugputer.Time.Ticks

namespace Pugputer.Banks

open Time (Rtc)

/-! Banked memory, and the NMI ticks that arrive between any two instructions. -/

def bankSize : Nat := 0x4000
def bankBase : Nat := 0xFFEC
/-- The ROM and the I/O registers hide bank 3 from here on. -/
def ramTop : Nat := 0xF000

/-- A byte of a page of RAM. -/
abbrev Cell := Nat × Nat

abbrev Ram := Cell → Byte

/-- The registers V_NMI's frame holds, as they are when the tick arrives. -/
abbrev Frame := Fin 14 → Byte

structure Machine where
  ram : Ram
  /-- The bank registers. -/
  bank : Nat → Nat
  /-- The ticks that arrive before each of the instructions still to come. -/
  ticks : List (List Frame)

/-- Public variables, in page 0. -/
def rtcTicks : Nat := 0x04
def rtcTicksPriv : Nat := 0x0C
def rtcMtx : Nat := 0x14
def rtcSet : Nat := 0x15
def sbank1 : Nat := 0x16

namespace Machine

def cell (m : Machine) (a : Nat) : Cell := (m.bank (a / bankSize), a % bankSize)

def load (m : Machine) (a : Nat) : Byte := m.ram (m.cell a)

/-- A store into RAM or a bank register; there is nothing else to store to here. -/
def store (m : Machine) (a : Nat) (v : Byte) : Machine :=
  if a < ramTop then { m with ram := Function.update m.ram (m.cell a) v }
  else if bankBase ≤ a ∧ a < bankBase + 4 then
    { m with bank := Function.update m.bank (a - bankBase) v.toNat }
  else m

/-- The frame goes on the stack; RTI takes it off again. -/
def pushFrame (m : Machine) (s : Nat) (f : Frame) : Machine :=
  (List.finRange 14).foldl (fun m i => m.store (s - 14 + i.val) (f i)) m

def rtc (ram : Ram) : Rtc where
  ticks b := ram (0, rtcTicks + b)
  ticksPriv b := ram (0, rtcTicksPriv + b)
  mtx := ram (0, rtcMtx)
  set := ram (0, rtcSet)

def withRtc (ram : Ram) (rtc : Rtc) : Ram := fun c =>
  if c.1 = 0 then
    if h : rtcTicks ≤ c.2 ∧ c.2 < rtcTicks + 8 then rtc.ticks ⟨c.2 - rtcTicks, by omega⟩
    else if h : rtcTicksPriv ≤ c.2 ∧ c.2 < rtcTicksPriv + 8 then
      rtc.ticksPriv ⟨c.2 - rtcTicksPriv, by omega⟩
    else if c.2 = rtcMtx then rtc.mtx
    else if c.2 = rtcSet then rtc.set
    else ram c
  else ram c

/-- A tick, from the push of its frame at `s` to the RTI: V_NMI's variables are in bank 0. -/
def nmi (m : Machine) (s : Nat) (f : Frame) : Machine :=
  let m := m.pushFrame s f
  { m with ram := withRtc m.ram (rtc m.ram).vNmi }

/-- The next instruction begins. -/
def tick (m : Machine) (s : Nat) : Machine :=
  { m.ticks.headD [] |>.foldl (fun m f => m.nmi s f) m with ticks := m.ticks.tail }

/-! The instructions. Between two that touch memory only registers change, so a tick there is
one before the second. -/

def ldb (m : Machine) (s a : Nat) : Byte × Machine :=
  let m := m.tick s
  (m.load a, m)

def ldd (m : Machine) (s a : Nat) : Word × Machine :=
  let m := m.tick s
  (word (m.load a) (m.load (a + 1)), m)

def stb (m : Machine) (s a : Nat) (v : Byte) : Machine := (m.tick s).store a v

def std (m : Machine) (s a : Nat) (v : Word) : Machine :=
  ((m.tick s).store a (hiByte v)).store (a + 1) (loByte v)

/-- `PSHS` of a word; S is less by two after it. -/
def pshs (m : Machine) (s : Nat) (v : Word) : Machine := m.std s (s - 2) v

/-- `PULS` of a word. -/
def puls (m : Machine) (s : Nat) : Word × Machine := m.ldd s s

/-- `TFM r+,r+`, of W bytes; a tick may come before any of them. -/
def tfm (m : Machine) (s : Nat) (src dst : Nat) : Nat → Machine
  | 0 => m.tick s
  | w + 1 =>
      let m := m.tick s
      (m.store dst (m.load src)).tfm s (src + 1) (dst + 1) w

end Machine

end Pugputer.Banks

import Mathlib.Logic.Function.Basic
import Pugputer.Basic

namespace Pugputer.Time

/-! The tick count of time.asm: a private counter, its public copy, and the two flags
that readers, setters and V_NMI share. -/

/-- Eight bytes, big-endian. -/
abbrev Count := Fin 8 → Byte

namespace Count

def word (count : Count) (k : Fin 4) : Word :=
  Pugputer.word (count ⟨2 * k.val, by omega⟩) (count ⟨2 * k.val + 1, by omega⟩)

def setWord (count : Count) (k : Fin 4) (value : Word) : Count :=
  Function.update (Function.update count ⟨2 * k.val, by omega⟩ (hiByte value))
    ⟨2 * k.val + 1, by omega⟩ (loByte value)

/-- LDD, ADDD #1, STD; whether BCC falls through. -/
def addOne (count : Count) (k : Fin 4) : Count × Bool :=
  (count.setWord k (count.word k + 1), count.word k == 0xFFFF#16)

/-- The carry goes up word by word. -/
def increment (count : Count) : Count :=
  let (count, carry) := count.addOne 3
  if !carry then count
  else
    let (count, carry) := count.addOne 2
    if !carry then count
    else
      let (count, carry) := count.addOne 1
      if !carry then count else (count.addOne 0).1

end Count

structure Rtc where
  ticks : Count
  ticksPriv : Count
  mtx : Byte := 0
  set : Byte := 0

/-- V_NMI. -/
def Rtc.vNmi (rtc : Rtc) : Rtc :=
  let rtc := { rtc with ticksPriv := rtc.ticksPriv.increment }
  if rtc.mtx = 0 then { rtc with ticks := rtc.ticksPriv }
  else if rtc.set = 0 then rtc
  else { rtc with ticksPriv := rtc.ticks, set := 0, mtx := 0 }

/-- The next instruction of RTC_GETTIX. -/
inductive GettixPc
  | pshs | clra | tfr | lda | sta
  | ldd (k : Fin 4)
  | std (k : Fin 4)
  | clr | puls | rts
  deriving DecidableEq, Repr

/-- The next store of a setter: RTC_MTX, a byte of RTC_TICKS, RTC_SET once none is left. -/
inductive SetterPc
  | mtx (order : List (Fin 8))
  | write (left : List (Fin 8))
  deriving DecidableEq, Repr

/-- One course of instructions: outside, in RTC_GETTIX with D and the bytes stored at X
so far, or setting a count. -/
inductive Thread
  | idle
  | gettix (pc : GettixPc) (d : Word) (out : Count)
  | setter (pc : SetterPc) (value : Count)

/-- The counter, whoever uses it, and what is to be said about a run: the counts the
public copy has held whole, the count announced and not yet taken, and those returned. -/
structure Sys (ι : Type) where
  rtc : Rtc
  thread : ι → Thread := fun _ => .idle
  held : List Count
  announced : Option Count := none
  returned : List Count := []

inductive Event (ι : Type)
  | tick
  | gettix (i : ι)
  | setTicks (i : ι) (value : Count) (order : List (Fin 8))
  | run (i : ι)

namespace Sys

variable {ι : Type} [DecidableEq ι]

def goto (s : Sys ι) (i : ι) (thread : Thread) : Sys ι :=
  { s with thread := Function.update s.thread i thread }

/-- The next instruction of a thread that is in RTC_GETTIX. -/
def stepGettix (s : Sys ι) (i : ι) (pc : GettixPc) (d : Word) (out : Count) : Sys ι :=
  match pc with
  | .pshs => s.goto i (.gettix .clra d out)
  | .clra => s.goto i (.gettix .tfr d out)
  | .tfr => s.goto i (.gettix .lda d out)
  | .lda => s.goto i (.gettix .sta d out)
  | .sta => { s with rtc.mtx := 1 }.goto i (.gettix (.ldd 0) d out)
  | .ldd k => s.goto i (.gettix (.std k) (s.rtc.ticks.word k) out)
  | .std k =>
      s.goto i (.gettix (if last : k.val = 3 then .clr else .ldd ⟨k.val + 1, by omega⟩) d
        (out.setWord k d))
  | .clr => { s with rtc.mtx := 0 }.goto i (.gettix .puls d out)
  | .puls => s.goto i (.gettix .rts d out)
  | .rts => { s with returned := s.returned ++ [out] }.goto i .idle

def stepSetter (s : Sys ι) (i : ι) (pc : SetterPc) (value : Count) : Sys ι :=
  match pc with
  | .mtx order => { s with rtc.mtx := 1 }.goto i (.setter (.write order) value)
  | .write (b :: left) =>
      { s with rtc.ticks := Function.update s.rtc.ticks b (value b) }.goto i
        (.setter (.write left) value)
  | .write [] =>
      { s with
        rtc.set := 1
        held := s.held ++ [value]
        announced := some value }.goto i .idle

def tick (s : Sys ι) : Sys ι :=
  { s with
    rtc := s.rtc.vNmi
    held := if s.rtc.mtx = 0 then s.held ++ [s.rtc.vNmi.ticks] else s.held
    announced := none }

/-- One step of an interleaving.  A setter stores all eight bytes, in any order. -/
def next (s : Sys ι) : Event ι → Option (Sys ι)
  | .tick => some s.tick
  | .gettix i =>
      match s.thread i with
      | .idle => some (s.goto i (.gettix .pshs 0 fun _ => 0))
      | _ => none
  | .setTicks i value order =>
      match s.thread i with
      | .idle => if ∀ b, b ∈ order then some (s.goto i (.setter (.mtx order) value)) else none
      | _ => none
  | .run i =>
      match s.thread i with
      | .idle => none
      | .gettix pc d out => some (s.stepGettix i pc d out)
      | .setter pc value => some (s.stepSetter i pc value)

end Sys

end Pugputer.Time

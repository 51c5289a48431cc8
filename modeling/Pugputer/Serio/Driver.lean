import Pugputer.Hd6309.State
import Pugputer.Serio.Circbuf
import Pugputer.Serio.Uart

namespace Pugputer.Serio

open Hd6309 (Regs ccC ccZ ccI)

/-! The serial driver, one instruction at a time.  A program counter names the
next instruction of a routine; CBUF_PUT and CBUF_GET, which only ever run with
IRQ masked, are one step.  Of the flags, those are kept that a later branch
tests, and X is left out where it only holds a buffer's address. -/

open Uart (utDat utSta utCmd utCtl)

def suartctl : Byte := 0x1F#8
def suartcmd : Byte := 0x09#8
def txIrqCmd : Byte := 0x05#8

def utErrRxfull : Byte := 0x08#8

def utIocSetctl : Byte := 0x00#8
def utIocGeterr : Byte := 0x01#8

def errOk : Byte := 0x00#8
def errNotsup : Byte := 0x03#8

inductive IsrPc
  | ldaSta | staTsta | timIrq | beqNotUart | ldaTsta | anda | beqChkRx | oraSerr | staSerr
  | timRdrf | beqChkTx | ldaDat | ldxSrx | cbufPut | bccChkTx | ldaSerr | oraRxfull
  | staRxfull
  | timTdre | beqDone | ldxStx | cbufGet | bcsTxEnd | staDat | rtiSent
  | ldaCmd | staCmd | clrStxie | rti
  deriving DecidableEq, Repr

inductive PutcPc
  | pshs | orcc | ldx | cbufPut | bcc | andcc | bra
  | ldbStxie | bne | ldbOne | stbStxie | ldbCmd | stbCmd | puls
  deriving DecidableEq, Repr

inductive ReadPc
  | pshs | tfrCc | anda | staMasked | tfrU
  | cmpu | beq | pshsX | orcc | ldx | cbufGet | tst | bne | andcc | pulsX | bcs | sta | leau
  | bra
  | tfrD | pshsU | subd | tfrY | puls
  deriving DecidableEq, Repr

inductive IoctlPc
  | cmpGeterr | beqGeterr | cmpSetctl | bneBadfn
  | pshs | andcc | ldaStxie | bneWait | puls | stbCtl | ldaOk | andccRts
  | gePshs | geOrcc | geLdb | geClr | gePuls | geLdaOk | geAndcc
  | ldaBadfn | orccRts
  deriving DecidableEq, Repr

/-- Where the main program is: outside the driver, or in one of its routines. -/
inductive MainPc
  | caller
  | utPutc1 (pc : PutcPc)
  | utRead (pc : ReadPc)
  | utIoctl (pc : IoctlPc)
  deriving DecidableEq, Repr

/-- A PSHS saves the registers as they are; a PULS takes back those it names. -/
structure Main where
  pc : MainPc := .caller
  r : Regs := {}
  stack : List Regs := []

structure Isr where
  pc : IsrPc := .ldaSta
  a : Byte := 0
  zero : Bool := false
  carry : Bool := false

/-- What happens at the driver's edges, in order. -/
inductive Action
  | accept (byte : Byte)
  | writeDat (byte : Byte) (tdre : Bool)
  | status (value : Byte)
  | readDat (byte : Byte) (full : Bool)
  | deliver (addr : Word) (byte : Byte)
  | readReturn (called returned : Regs)
  | geterr (value : Byte)
  deriving DecidableEq, Repr

/-! What a trace says. -/

/-- The bytes UT_PUTC1 has accepted. -/
def accepted (trace : List Action) : List Byte :=
  trace.filterMap fun
    | .accept byte => some byte
    | _ => none

/-- The bytes written to UT_DAT. -/
def written (trace : List Action) : List Byte :=
  trace.filterMap fun
    | .writeDat byte _ => some byte
    | _ => none

/-- The bytes the ISR read from UT_DAT, less those that found SRXBUF full. -/
def kept (trace : List Action) : List Byte :=
  trace.filterMap fun
    | .readDat byte false => some byte
    | _ => none

/-- The bytes UT_READ has stored in its callers' buffers. -/
def returned (trace : List Action) : List Byte :=
  trace.filterMap fun
    | .deliver _ byte => some byte
    | _ => none

def Action.noteDelivered (stored : List (Word × Byte)) : Action → List (Word × Byte)
  | .deliver addr byte => stored ++ [(addr, byte)]
  | .readReturn .. => []
  | _ => stored

/-- What the UT_READ under way has stored, and where. -/
def delivered (trace : List Action) : List (Word × Byte) :=
  trace.foldl Action.noteDelivered []

def Action.noteErrors (due : Byte) : Action → Byte
  | .status value => due ||| (value &&& 0x07#8)
  | .readDat _ true => due ||| utErrRxfull
  | .geterr _ => 0
  | _ => due

/-- The error flags seen since the last UT_IOC_GETERR. -/
def errorsDue (trace : List Action) : Byte := trace.foldl Action.noteErrors 0

structure Sys where
  uart : Uart := {}
  srxbuf : Circbuf := {}
  stxbuf : Circbuf := {}
  stxie : Byte := 0
  tsta : Byte := 0
  serr : Byte := 0
  utrMasked : Byte := 0
  main : Main := {}
  isr : Option Isr := none
  trace : List Action := []

variable (cyclesPerChar : Byte → Byte → Nat)

/-- UT_INIT, on a UART just reset. -/
def utInit (s : Sys) : Sys :=
  let uart := (s.uart.reset.write cyclesPerChar utCtl suartctl).write cyclesPerChar utCmd suartcmd
  { s with
    uart
    srxbuf := cbufInit s.srxbuf
    stxbuf := cbufInit s.stxbuf
    stxie := 0
    serr := 0 }

/-- One instruction of UT_ISR.  The handler NOT_UART chains to is the default
one, a lone RTI. -/
def utIsr (i : Isr) (s : Sys) : Sys :=
  match i.pc with
  | .ldaSta =>
      let (value, uart) := s.uart.read utSta
      { s with
        uart
        isr := some { i with pc := .staTsta, a := value }
        trace := s.trace ++ [.status value] }
  | .staTsta => { s with tsta := i.a, isr := some { i with pc := .timIrq } }
  | .timIrq =>
      { s with isr := some { i with pc := .beqNotUart, zero := s.tsta &&& 0x80#8 = 0 } }
  | .beqNotUart =>
      { s with isr := some { i with pc := if i.zero then .rti else .ldaTsta } }
  | .ldaTsta => { s with isr := some { i with pc := .anda, a := s.tsta } }
  | .anda =>
      { s with isr := some { i with
          pc := .beqChkRx, a := i.a &&& 0x07#8, zero := i.a &&& 0x07#8 = 0 } }
  | .beqChkRx =>
      { s with isr := some { i with pc := if i.zero then .timRdrf else .oraSerr } }
  | .oraSerr => { s with isr := some { i with pc := .staSerr, a := i.a ||| s.serr } }
  | .staSerr => { s with serr := i.a, isr := some { i with pc := .timRdrf } }
  | .timRdrf =>
      { s with isr := some { i with pc := .beqChkTx, zero := s.tsta &&& 0x08#8 = 0 } }
  | .beqChkTx =>
      { s with isr := some { i with pc := if i.zero then .timTdre else .ldaDat } }
  | .ldaDat =>
      let (value, uart) := s.uart.read utDat
      { s with
        uart
        isr := some { i with pc := .ldxSrx, a := value }
        trace := s.trace ++ [.readDat value (decide (sbufsz ≤ s.srxbuf.count))] }
  | .ldxSrx => { s with isr := some { i with pc := .cbufPut } }
  | .cbufPut =>
      let (carry, srxbuf) := cbufPut i.a s.srxbuf
      { s with
        srxbuf
        isr := some { i with pc := .bccChkTx, carry } }
  | .bccChkTx =>
      { s with isr := some { i with pc := if i.carry then .ldaSerr else .timTdre } }
  | .ldaSerr => { s with isr := some { i with pc := .oraRxfull, a := s.serr } }
  | .oraRxfull => { s with isr := some { i with pc := .staRxfull, a := i.a ||| utErrRxfull } }
  | .staRxfull => { s with serr := i.a, isr := some { i with pc := .timTdre } }
  | .timTdre =>
      { s with isr := some { i with pc := .beqDone, zero := s.tsta &&& 0x10#8 = 0 } }
  | .beqDone => { s with isr := some { i with pc := if i.zero then .rti else .ldxStx } }
  | .ldxStx => { s with isr := some { i with pc := .cbufGet } }
  | .cbufGet =>
      let (carry, a, stxbuf) := cbufGet i.a s.stxbuf
      { s with stxbuf, isr := some { i with pc := .bcsTxEnd, carry, a } }
  | .bcsTxEnd =>
      { s with isr := some { i with pc := if i.carry then .ldaCmd else .staDat } }
  | .staDat =>
      { s with
        uart := s.uart.write cyclesPerChar utDat i.a
        isr := some { i with pc := .rtiSent }
        trace := s.trace ++ [.writeDat i.a s.uart.tdre] }
  | .rtiSent => { s with isr := none }
  | .ldaCmd => { s with isr := some { i with pc := .staCmd, a := suartcmd } }
  | .staCmd =>
      { s with
        uart := s.uart.write cyclesPerChar utCmd i.a
        isr := some { i with pc := .clrStxie } }
  | .clrStxie => { s with stxie := 0, isr := some { i with pc := .rti } }
  | .rti => { s with isr := none }

def Main.goto (m : Main) (pc : MainPc) : Main := { m with pc }

def Main.pshs (m : Main) : Main := { m with stack := m.r :: m.stack }

/-- A PULS, `take saved r` being the registers after it. -/
def Main.puls (m : Main) (take : Regs → Regs → Regs) : Main :=
  match m.stack with
  | saved :: rest => { m with r := take saved m.r, stack := rest }
  | [] => m

/-- ORCC #$10 and ANDCC #$EF. -/
def Main.mask (m : Main) (value : Bool) : Main := { m with r := m.r.setFlag ccI value }

/-- One instruction of UT_PUTC1. -/
def utPutc1 (pc : PutcPc) (s : Sys) : Sys :=
  let m := s.main
  match pc with
  | .pshs => { s with main := m.pshs.goto (.utPutc1 .orcc) }
  | .orcc => { s with main := (m.mask true).goto (.utPutc1 .ldx) }
  | .ldx => { s with main := m.goto (.utPutc1 .cbufPut) }
  | .cbufPut =>
      let (carry, stxbuf) := cbufPut m.r.a s.stxbuf
      { s with
        stxbuf
        main := { m with pc := .utPutc1 .bcc, r := m.r.setFlag ccC carry }
        trace := if carry then s.trace else s.trace ++ [.accept m.r.a] }
  | .bcc =>
      { s with main := m.goto (.utPutc1 (if m.r.getFlag ccC then .andcc else .ldbStxie)) }
  | .andcc => { s with main := (m.mask false).goto (.utPutc1 .bra) }
  | .bra => { s with main := m.goto (.utPutc1 .orcc) }
  | .ldbStxie =>
      { s with main := { m with
          pc := .utPutc1 .bne
          r := { m.r.setFlag ccZ (s.stxie = 0) with b := s.stxie } } }
  | .bne =>
      { s with main := m.goto (.utPutc1 (if m.r.getFlag ccZ then .ldbOne else .puls)) }
  | .ldbOne => { s with main := { m with pc := .utPutc1 .stbStxie, r := { m.r with b := 1 } } }
  | .stbStxie => { s with stxie := m.r.b, main := m.goto (.utPutc1 .ldbCmd) }
  | .ldbCmd =>
      { s with main := { m with pc := .utPutc1 .stbCmd, r := { m.r with b := txIrqCmd } } }
  | .stbCmd =>
      { s with
        uart := s.uart.write cyclesPerChar utCmd m.r.b
        main := m.goto (.utPutc1 .puls) }
  | .puls =>
      let back := m.puls fun saved r => { r with cc := saved.cc, x := saved.x }
      { s with main := back.goto .caller }

/-- One instruction of UT_READ. -/
def utRead (pc : ReadPc) (s : Sys) : Sys :=
  let m := s.main
  match pc with
  | .pshs => { s with main := m.pshs.goto (.utRead .tfrCc) }
  | .tfrCc => { s with main := { m with pc := .utRead .anda, r := { m.r with a := m.r.cc } } }
  | .anda =>
      { s with main := { m with pc := .utRead .staMasked, r := { m.r with a := m.r.a &&& ccI } } }
  | .staMasked => { s with utrMasked := m.r.a, main := m.goto (.utRead .tfrU) }
  | .tfrU => { s with main := { m with pc := .utRead .cmpu, r := { m.r with u := m.r.y } } }
  | .cmpu =>
      { s with main := { m with pc := .utRead .beq, r := m.r.setFlag ccZ (m.r.u = 0) } }
  | .beq => { s with main := m.goto (.utRead (if m.r.getFlag ccZ then .tfrD else .pshsX)) }
  | .pshsX => { s with main := m.pshs.goto (.utRead .orcc) }
  | .orcc => { s with main := (m.mask true).goto (.utRead .ldx) }
  | .ldx => { s with main := m.goto (.utRead .cbufGet) }
  | .cbufGet =>
      let (carry, a, srxbuf) := cbufGet m.r.a s.srxbuf
      { s with
        srxbuf
        main := { m with pc := .utRead .tst, r := { m.r.setFlag ccC carry with a } } }
  | .tst =>
      { s with main := { m with pc := .utRead .bne, r := m.r.setFlag ccZ (s.utrMasked = 0) } }
  | .bne => { s with main := m.goto (.utRead (if m.r.getFlag ccZ then .andcc else .pulsX)) }
  | .andcc => { s with main := (m.mask false).goto (.utRead .pulsX) }
  | .pulsX =>
      let back := m.puls fun saved r => { r with x := saved.x }
      { s with main := back.goto (.utRead .bcs) }
  | .bcs => { s with main := m.goto (.utRead (if m.r.getFlag ccC then .tfrD else .sta)) }
  | .sta =>
      { s with
        main := { m with pc := .utRead .leau, r := { m.r with x := m.r.x + 1 } }
        trace := s.trace ++ [.deliver m.r.x m.r.a] }
  | .leau => { s with main := { m with pc := .utRead .bra, r := { m.r with u := m.r.u - 1 } } }
  | .bra => { s with main := m.goto (.utRead .cmpu) }
  | .tfrD => { s with main := { m with pc := .utRead .pshsU, r := m.r.setD m.r.y } }
  | .pshsU => { s with main := m.pshs.goto (.utRead .subd) }
  | .subd =>
      let back := m.puls fun saved r => r.setD (r.d - saved.u)
      { s with main := back.goto (.utRead .tfrY) }
  | .tfrY => { s with main := { m with pc := .utRead .puls, r := { m.r with y := m.r.d } } }
  | .puls =>
      let back := m.puls fun saved r =>
        { r with cc := saved.cc, a := saved.a, b := saved.b, u := saved.u }
      { s with
        main := back.goto .caller
        trace := s.trace ++ (match m.stack with
          | called :: _ => [.readReturn called back.r]
          | [] => []) }

/-- One instruction of UT_IOCTL. -/
def utIoctl (pc : IoctlPc) (s : Sys) : Sys :=
  let m := s.main
  match pc with
  | .cmpGeterr =>
      { s with main := { m with
          pc := .utIoctl .beqGeterr, r := m.r.setFlag ccZ (m.r.a = utIocGeterr) } }
  | .beqGeterr =>
      { s with main := m.goto (.utIoctl (if m.r.getFlag ccZ then .gePshs else .cmpSetctl)) }
  | .cmpSetctl =>
      { s with main := { m with
          pc := .utIoctl .bneBadfn, r := m.r.setFlag ccZ (m.r.a = utIocSetctl) } }
  | .bneBadfn =>
      { s with main := m.goto (.utIoctl (if m.r.getFlag ccZ then .pshs else .ldaBadfn)) }
  | .pshs => { s with main := m.pshs.goto (.utIoctl .andcc) }
  | .andcc => { s with main := (m.mask false).goto (.utIoctl .ldaStxie) }
  | .ldaStxie =>
      { s with main := { m with
          pc := .utIoctl .bneWait
          r := { m.r.setFlag ccZ (s.stxie = 0) with a := s.stxie } } }
  | .bneWait =>
      { s with main := m.goto (.utIoctl (if m.r.getFlag ccZ then .puls else .ldaStxie)) }
  | .puls =>
      let back := m.puls fun saved r => { r with cc := saved.cc, b := saved.b }
      { s with main := back.goto (.utIoctl .stbCtl) }
  | .stbCtl =>
      { s with
        uart := s.uart.write cyclesPerChar utCtl m.r.b
        main := m.goto (.utIoctl .ldaOk) }
  | .ldaOk => { s with main := { m with pc := .utIoctl .andccRts, r := { m.r with a := errOk } } }
  | .andccRts => { s with main := { m with pc := .caller, r := m.r.setFlag ccC false } }
  | .gePshs => { s with main := m.pshs.goto (.utIoctl .geOrcc) }
  | .geOrcc => { s with main := (m.mask true).goto (.utIoctl .geLdb) }
  | .geLdb => { s with main := { m with pc := .utIoctl .geClr, r := { m.r with b := s.serr } } }
  | .geClr =>
      { s with
        serr := 0
        main := m.goto (.utIoctl .gePuls)
        trace := s.trace ++ [.geterr m.r.b] }
  | .gePuls =>
      let back := m.puls fun saved r => { r with cc := saved.cc }
      { s with main := back.goto (.utIoctl .geLdaOk) }
  | .geLdaOk =>
      { s with main := { m with pc := .utIoctl .geAndcc, r := { m.r with a := errOk } } }
  | .geAndcc => { s with main := { m with pc := .caller, r := m.r.setFlag ccC false } }
  | .ldaBadfn =>
      { s with main := { m with pc := .utIoctl .orccRts, r := { m.r with a := errNotsup } } }
  | .orccRts => { s with main := { m with pc := .caller, r := m.r.setFlag ccC true } }

/-- The routine the main program calls. -/
inductive Entry
  | utPutc1 | utRead | utIoctl
  deriving DecidableEq, Repr

def Entry.pc : Entry → MainPc
  | utPutc1 => .utPutc1 .pshs
  | utRead => .utRead .pshs
  | utIoctl => .utIoctl .cmpGeterr

/-- What may happen next: the next instruction of the ISR or of the main
program, a call with any registers (any I mask included), an IRQ (also one that
is another device's) when it is not masked, or something at the UART.  The chip
reports framing and parity errors with the character it holds; the simulated one
never does. -/
inductive Event
  | isr
  | main
  | call (entry : Entry) (r : Regs)
  | elsewhere (r : Regs)
  | irq
  | tick (cpuCycles : Nat)
  | receive (byte : Byte)
  | lineFault (framing parity : Bool)

def next (s : Sys) : Event → Option Sys
  | .isr => s.isr.map fun i => utIsr cyclesPerChar i s
  | .main =>
      if s.isr.isSome then none
      else match s.main.pc with
        | .caller => none
        | .utPutc1 pc => some (utPutc1 cyclesPerChar pc s)
        | .utRead pc => some (utRead pc s)
        | .utIoctl pc => some (utIoctl cyclesPerChar pc s)
  | .call entry r =>
      if s.isr.isNone ∧ s.main.pc = .caller then
        some { s with main := { s.main with pc := entry.pc, r } }
      else none
  | .elsewhere r =>
      if s.isr.isNone ∧ s.main.pc = .caller then some { s with main := { s.main with r } }
      else none
  | .irq =>
      if s.isr.isNone ∧ s.main.r.getFlag ccI = false then some { s with isr := some {} }
      else none
  | .tick cpuCycles => some { s with uart := s.uart.tick cyclesPerChar cpuCycles }
  | .receive byte => some { s with uart := (s.uart.rxEnqueue byte).2 }
  | .lineFault framing parity =>
      if s.uart.rdrf then
        some { s with uart := { s.uart with
          framingError := s.uart.framingError || framing
          parityError := s.uart.parityError || parity } }
      else none

end Pugputer.Serio

import Pugputer.Banks.Machine

namespace Pugputer.Banks

/-! B_PAGE_COPY, with S at the frame SWI2 has pushed. -/

def errOk : Byte := 0x00#8
def errBadparam : Byte := 0x11#8
def pcChunkmax : Nat := 128

/-- Where the linker puts the module's variables: in bank 0, after the public ones. -/
structure Layout where
  pagemap : Nat
  afterPublic : 0x40 ≤ pagemap
  inBank0 : pagemap + 172 ≤ bankSize

namespace Layout

variable (l : Layout)

def npages : Nat := l.pagemap + 32
def nfree : Nat := l.pagemap + 34
def pcLen : Nat := l.pagemap + 36
def pcChunk : Nat := l.pagemap + 38
def pcSpage : Nat := l.pagemap + 40
def pcDpage : Nat := l.pagemap + 41
def pcTb : Nat := l.pagemap + 42
def pcKeepi : Nat := l.pagemap + 43
def pcBounce : Nat := l.pagemap + 44

end Layout

/-- The registers RTI takes off the stack. -/
structure Regs where
  cc : Byte
  a : Byte
  b : Byte
  e : Byte
  f : Byte
  dp : Byte
  x : Word
  y : Word
  u : Word
  pc : Word
  s : Nat
  deriving DecidableEq

namespace Machine

def frameRegs (m : Machine) (s : Nat) : Regs where
  cc := m.load s
  a := m.load (s + 1)
  b := m.load (s + 2)
  e := m.load (s + 3)
  f := m.load (s + 4)
  dp := m.load (s + 5)
  x := word (m.load (s + 6)) (m.load (s + 7))
  y := word (m.load (s + 8)) (m.load (s + 9))
  u := word (m.load (s + 10)) (m.load (s + 11))
  pc := word (m.load (s + 12)) (m.load (s + 13))
  s := s + 14

def rti (m : Machine) (s : Nat) : Regs × Machine :=
  let m := m.tick s
  (m.frameRegs s, m)

/-- The end of a call: A and the carry go into the frame. -/
def epilogue (m : Machine) (s : Nat) (a : Byte) (carry : Byte → Byte) : Regs × Machine :=
  let m := m.stb s (s + 1) a
  let (cc, m) := m.ldb s s
  let m := m.store s (carry cc)
  m.rti s

def bcOk (m : Machine) (s : Nat) : Regs × Machine := m.epilogue s errOk (· &&& 0xFE)

def bcErr (m : Machine) (s : Nat) (a : Byte) : Regs × Machine := m.epilogue s a (· ||| 0x01)

def bbBad (m : Machine) (s : Nat) : Regs × Machine := m.bcErr s errBadparam

/-- One way of a chunk: its page is mapped and TFM copies it, the other pointer on the stack
the while. W as it was, the pointer back from the stack. -/
def half (m : Machine) (l : Layout) (s tb : Nat) (page : Byte) (kept : Word) (src dst : Nat) :
    Word × Word × Machine :=
  let m := m.stb s (bankBase + tb) page
  let (w, m) := m.ldd s l.pcChunk
  let m := m.pshs s kept
  let m := m.tfm (s - 2) src dst w.toNat
  let (kept, m) := m.puls (s - 2)
  (w, kept, m)

/-- A chunk: X and Y are moved on past it. -/
def pcSet (m : Machine) (l : Layout) (s : Nat) (len x y : Word) : Word × Word × Machine :=
  let d := if len.toNat ≤ pcChunkmax then len else BitVec.ofNat 16 pcChunkmax
  let m := m.std s l.pcChunk d
  let (tb, m) := m.ldb s l.pcTb
  let (spage, m) := m.ldb s l.pcSpage
  let (w, y, m) := m.half l s tb.toNat spage y x.toNat l.pcBounce
  let x := x + w
  let (dpage, m) := m.ldb s l.pcDpage
  let (w, x, m) := m.half l s tb.toNat dpage x l.pcBounce y.toNat
  let y := y + w
  let (page, m) := m.ldb s (sbank1 - 1 + tb.toNat)
  let m := m.stb s (bankBase + tb.toNat) page
  let (_, m) := m.ldb s l.pcKeepi
  let (len, m) := m.ldd s l.pcLen
  let (chunk, m) := m.ldd s l.pcChunk
  let m := m.std s l.pcLen (len - chunk)
  (x, y, m)

/-- PC_LOOP, `none` if it is still going after `fuel` turns. -/
def pcLoop (l : Layout) (s : Nat) : Nat → Machine → Word → Word → Option Machine
  | 0, _, _, _ => none
  | fuel + 1, m, x, y =>
      let (len, m) := m.ldd s l.pcLen
      if len = 0 then some m
      else
        let (x, y, m) := m.pcSet l s len x y
        pcLoop l s fuel m x y

/-- The bank for the temporary mapping. -/
def tempBank (s : Nat) : Nat := if s / bankSize = 1 then 2 else 1

/-- From PC_NOOVERLAP on. -/
def pcNooverlap (m : Machine) (l : Layout) (s fuel : Nat) (x y : Word) :
    Option (Regs × Machine) :=
  let (len, m) := m.ldd s l.pcLen
  if len = 0 then some (m.bcOk s)
  else
    let tb := tempBank s
    let m := m.stb s l.pcTb (BitVec.ofNat 8 tb)
    let x := x + BitVec.ofNat 16 (tb * bankSize)
    let y := y + BitVec.ofNat 16 (tb * bankSize)
    let (cc, m) := m.ldb s s
    let m := m.stb s l.pcKeepi (cc &&& 0x50)
    (pcLoop l s fuel m x y).map fun m => m.bcOk s

/-- A range that leaves its page: `ADDD` carries, or the sum is over $4000. -/
def leavesPage (u offset : Word) : Prop :=
  0x10000 ≤ u.toNat + offset.toNat ∨ 0x4000 < (u + offset).toNat

instance (u offset : Word) : Decidable (leavesPage u offset) :=
  inferInstanceAs (Decidable (_ ∨ _))

def biosPageCopy (m : Machine) (l : Layout) (s fuel : Nat) : Option (Regs × Machine) :=
  let (x, m) := m.ldd s (s + 6)
  let (y, m) := m.ldd s (s + 8)
  let (u, m) := m.ldd s (s + 10)
  let (b, m) := m.ldb s (s + 2)
  let (npages, m) := m.ldd s l.npages
  if npages.toNat ≤ b.toNat then some (m.bbBad s)
  else
    let m := m.stb s l.pcSpage b
    let (e, m) := m.ldb s (s + 3)
    let (npages, m) := m.ldd s l.npages
    if npages.toNat ≤ e.toNat then some (m.bbBad s)
    else
      let m := m.stb s l.pcDpage e
      let (src, m) := m.ldd s (s + 6)
      if leavesPage u src then some (m.bbBad s)
      else
        let (dst, m) := m.ldd s (s + 8)
        if leavesPage u dst then some (m.bbBad s)
        else
          let m := m.std s l.pcLen u
          let (spage, m) := m.ldb s l.pcSpage
          let (dpage, m) := m.ldb s l.pcDpage
          if spage ≠ dpage then m.pcNooverlap l s fuel x y
          else
            let (src, m) := m.ldd s (s + 6)
            let (dst, m) := m.ldd s (s + 8)
            let d := src - dst
            let d := if d.msb then -d else d
            let (len, m) := m.ldd s l.pcLen
            if d.toNat < len.toNat then some (m.bbBad s) else m.pcNooverlap l s fuel x y

end Machine

end Pugputer.Banks

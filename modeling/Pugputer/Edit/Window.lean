import Pugputer.Basic
import Pugputer.Lib.Span

namespace Pugputer.Edit

/-! EDIT's window and store: the arena holds a window of the text around the gap,
and the rest is in RAM pages above the program's 64KB. -/

def ARENA_HI : Nat := 0xF000
def GAPMIN : Nat := 4096
def GAPLOW : Nat := 2048
def STRESERVE : Nat := 4096
def LF : Byte := 0x0A#8

/-- RAM by page and offset. -/
abbrev Pages := Nat → Nat → Byte

/-- What STINIT and the assembler settle: the pages behind banks 1 to 3, the store's size, and
where the program's variables end. -/
structure Setup where
  ARENA_LO : Nat
  ARPAGE : Nat → Nat
  VTOP : Nat
  low : 0x4000 ≤ ARENA_LO
  high : ARENA_LO ≤ ARENA_HI
  banks : ∀ i j, 1 ≤ i → i < 4 → 1 ≤ j → j < 4 → ARPAGE i = ARPAGE j → i = j
  /-- At most MAXSP pages. -/
  size : VTOP ≤ 252 * 0x4000

/-- The editor's variables, as far as they say where the text is. -/
structure Editor where
  pages : Pages
  /-- The RAM page of each store page, 0: not yet. -/
  STPAGES : Nat → Nat
  /-- The pages that B_PAGE_ALLOC can still hand out. -/
  free : List Nat
  GAPS : Nat
  GAPE : Nat
  CUTLO : Nat
  BLEN : Nat
  ALEN : Nat
  CURLINE : Nat
  BLINES : Nat
  ALINES : Nat
  LFOVER : Nat
  MARKON : Bool
  MARKPOS : Nat
  CPSAVE : Nat

variable (setup : Setup)

namespace Setup

/-- The CPU's view of RAM. -/
def view (pages : Pages) (a : Nat) : Byte := pages (setup.ARPAGE (a / 0x4000)) (a % 0x4000)

def poke (pages : Pages) (a : Nat) (b : Byte) : Pages := fun p o =>
  if p = setup.ARPAGE (a / 0x4000) ∧ o = a % 0x4000 then b else pages p o

/-- TFM X+,Y+. -/
def tfmUp (pages : Pages) (x y : Nat) : Nat → Pages
  | 0 => pages
  | w + 1 => tfmUp (setup.poke pages y (setup.view pages x)) (x + 1) (y + 1) w

/-- TFM X-,Y-. -/
def tfmDown (pages : Pages) (x y : Nat) : Nat → Pages
  | 0 => pages
  | w + 1 => tfmDown (setup.poke pages y (setup.view pages x)) (x - 1) (y - 1) w

/-- The LFs among `d` bytes. -/
def countlf (pages : Pages) (x : Nat) : Nat → Nat
  | 0 => 0
  | d + 1 => countlf pages (x + 1) d + if setup.view pages x = LF then 1 else 0

end Setup

/-- B_PAGE_COPY; `none` for ERR_BADPARAM. -/
def pageCopy (pages : Pages) (b e x y u : Nat) : Option Pages :=
  if x + u ≤ 0x4000 ∧ y + u ≤ 0x4000 ∧ (b = e → x + u ≤ y ∨ y + u ≤ x) then
    some fun p o => if p = e ∧ y ≤ o ∧ o < y + u then pages b (x + (o - y)) else pages p o
  else none

namespace Editor

variable (s : Editor)

/-- A store page's RAM page, taken now if it wasn't yet; `none` if there is none to take. -/
def stpage (a : Nat) : Option (Nat × Editor) :=
  if s.STPAGES a ≠ 0 then some (s.STPAGES a, s)
  else
    match s.free with
    | [] => none
    | p :: free => some (p, { s with free, STPAGES := fun i => if i = a then p else s.STPAGES i })

/-- Copies `XLEN` bytes between RAM and the store, a piece at a time; false for carry set.
The fuel is `XLEN`: each piece has a byte at least. -/
def xfer (inward : Bool) : (fuel : Nat) → Editor → (XRAM XVA XLEN : Nat) → Bool × Editor
  | 0, s, _, _, _ => (true, s)
  | fuel + 1, s, XRAM, XVA, XLEN =>
      if XLEN = 0 then (true, s)
      else
        let XRP := setup.ARPAGE (XRAM / 0x4000)
        let XRO := XRAM % 0x4000
        match s.stpage (XVA / 0x4000 % 256) with
        | none => (false, s)
        | some (XSP, s) =>
            let XSO := XVA % 0x4000
            let XC := min (min (0x4000 - XRO) (0x4000 - XSO)) XLEN
            match
              if inward then pageCopy s.pages XSP XRP XSO XRO XC
              else pageCopy s.pages XRP XSP XRO XSO XC
            with
            | none => (false, s)
            | some pages => xfer inward fuel { s with pages } (XRAM + XC) (XVA + XC) (XLEN - XC)

/-- The cursor's position in the window. -/
def curpos : Nat := s.GAPS - setup.ARENA_LO

/-- The length of the window's text. -/
def textlen : Nat := s.CUTLO - s.GAPE + s.GAPS - setup.ARENA_LO

/-- Moves the gap to a position in the window. -/
def movegap (d : Nat) : Editor :=
  let MGT := d + setup.ARENA_LO
  if MGT = s.GAPS then s
  else if MGT < s.GAPS then
    let w := s.GAPS - MGT
    { s with
      CURLINE := (s.CURLINE + 65536 - setup.countlf s.pages MGT w) % 65536
      pages := setup.tfmDown s.pages (s.GAPS - 1) (s.GAPE - 1) w
      GAPS := s.GAPS - w
      GAPE := s.GAPE - w }
  else
    let w := MGT - s.GAPS
    { s with
      CURLINE := (setup.countlf s.pages s.GAPE w + s.CURLINE) % 65536
      pages := setup.tfmUp s.pages s.GAPE s.GAPS w
      GAPE := s.GAPE + w
      GAPS := s.GAPS + w }

/-- The window's first `n` characters go on the end of the store's front part. -/
def spillf (n : Nat) : Bool × Editor :=
  if n = 0 then (true, s)
  else
    let SPLF := setup.countlf s.pages setup.ARENA_LO n
    match xfer setup false n s setup.ARENA_LO s.BLEN n with
    | (false, s) => (false, s)
    | (true, s) =>
        (true, { s with
          BLEN := s.BLEN + n
          LFOVER := if s.BLINES + SPLF < 65536 then s.LFOVER else (s.LFOVER + 1) % 256
          BLINES := (s.BLINES + SPLF) % 65536
          pages := setup.tfmUp s.pages (setup.ARENA_LO + n) setup.ARENA_LO
            (s.GAPS - setup.ARENA_LO - n)
          GAPS := s.GAPS - n
          MARKPOS := (s.MARKPOS + 65536 - n) % 65536
          CPSAVE := (s.CPSAVE + 65536 - n) % 65536 })

/-- The last `n` characters of the store's front part come back to the window's start. -/
def fillf (n : Nat) : Editor :=
  if n = 0 then s
  else
    let pages := setup.tfmDown s.pages (s.GAPS - 1) (s.GAPS - 1 + n) (s.GAPS - setup.ARENA_LO)
    let s := { s with pages, GAPS := s.GAPS + n, BLEN := s.BLEN - n }
    let s := (xfer setup true n s setup.ARENA_LO s.BLEN n).2
    { s with
      BLINES := (s.BLINES + 65536 - setup.countlf s.pages setup.ARENA_LO n) % 65536
      MARKPOS := (s.MARKPOS + n) % 65536
      CPSAVE := (s.CPSAVE + n) % 65536 }

/-- The window's last `n` characters go on the front of the store's back part. -/
def spillb (n : Nat) : Bool × Editor :=
  if n = 0 then (true, s)
  else
    let SPLF := setup.countlf s.pages (s.CUTLO - n) n
    match xfer setup false n s (s.CUTLO - n) (setup.VTOP - s.ALEN - n) n with
    | (false, s) => (false, s)
    | (true, s) =>
        (true, { s with
          ALEN := s.ALEN + n
          ALINES := (s.ALINES + SPLF) % 65536
          pages := setup.tfmDown s.pages (s.CUTLO - n - 1) (s.CUTLO - 1) (s.CUTLO - n - s.GAPE)
          GAPE := s.GAPE + n })

/-- The first `n` characters of the store's back part come back to the window's end. -/
def fillb (n : Nat) : Editor :=
  if n = 0 then s
  else
    let pages := setup.tfmUp s.pages s.GAPE (s.GAPE - n) (s.CUTLO - s.GAPE)
    let s := { s with pages, GAPE := s.GAPE - n }
    let s := (xfer setup true n s (s.CUTLO - n) (setup.VTOP - s.ALEN) n).2
    { s with
      ALINES := (s.ALINES + 65536 - setup.countlf s.pages (s.CUTLO - n) n) % 65536
      ALEN := s.ALEN - n }

/-- The store's free space. -/
def storefree : Nat := setup.VTOP - s.BLEN - s.ALEN

/-- What the window may spill into the store. -/
def spillroom : Nat := min (s.storefree setup - STRESERVE) 0xFFFF

def shiftroom : Nat := min (s.storefree setup) 0xFFFF

/-- The gap a fill may take. -/
def gaproom : Nat := s.GAPE - s.GAPS - GAPLOW

/-- `MINWANT` with the mark's bound, if the mark is set. -/
def markwant (WANT bound : Nat) : Nat := if s.MARKON then min WANT bound else WANT

/-! ENSUREWIN, side by side. -/

/-- More than HALF before the cursor: spill. -/
def ewFront (HALF : Nat) : Editor :=
  let WANT := s.GAPS - setup.ARENA_LO - HALF
  if WANT = 0 then s
  else (s.spillf setup (s.markwant (min WANT (s.spillroom setup)) s.MARKPOS)).2

/-- More than HALF after it. -/
def ewBack (HALF : Nat) : Editor :=
  let WANT := s.CUTLO - s.GAPE - HALF
  if WANT = 0 then s
  else (s.spillb setup
    (s.markwant (min WANT (s.spillroom setup)) (s.textlen setup - s.MARKPOS))).2

/-- Less than HALF before it: fill from the store. -/
def ewFill (HALF : Nat) : Editor :=
  let WANT := HALF - (s.GAPS - setup.ARENA_LO)
  if WANT = 0 then s
  else s.fillf setup (min (min WANT (min s.BLEN 0xFFFF)) s.gaproom)

/-- And after it. -/
def ewFillB (HALF : Nat) : Editor :=
  let WANT := HALF - (s.CUTLO - s.GAPE)
  if WANT = 0 then s
  else s.fillb setup (min (min WANT (min s.ALEN 0xFFFF)) s.gaproom)

/-- Keeps the window around the cursor. -/
def ensurewin : Editor :=
  let HALF := (s.CUTLO - (setup.ARENA_LO + GAPMIN)) / 2
  let LOWM := HALF / 2
  if s.GAPE - s.GAPS < GAPLOW ∨ (s.BLEN ≠ 0 ∧ s.GAPS - setup.ARENA_LO < LOWM) ∨
      (s.ALEN ≠ 0 ∧ s.CUTLO - s.GAPE < LOWM) then
    (((s.ewFront setup HALF).ewBack setup HALF).ewFill setup HALF).ewFillB setup HALF
  else s

/-- How much more gap MAKEROOM needs. -/
def needgap (MKN : Nat) : Nat := MKN - (s.GAPE - s.GAPS)

/-- Makes the gap at least `MKN`; false for carry set. -/
def makeroom (MKN : Nat) : Bool × Editor :=
  let WANT := min (s.markwant (s.GAPS - setup.ARENA_LO) s.MARKPOS) (s.spillroom setup)
  if s.needgap MKN = 0 then (true, s)
  else
    let s := (s.spillf setup (min WANT (s.needgap MKN))).2
    let WANT := min (s.markwant (s.CUTLO - s.GAPE) (s.textlen setup - s.MARKPOS)) (s.spillroom setup)
    if s.needgap MKN = 0 then (true, s)
    else
      let s := (s.spillb setup (min WANT (s.needgap MKN))).2
      (s.needgap MKN = 0, s)

/-- The mark is dropped. -/
def nomark : Editor := { s with MARKON := false }

/-! GOTOABS, a step back or forward at a time; `none` for GA_STUCK. -/

/-- The window's end goes to the store, and the store's front part comes in. -/
def gaBack (GOTP : Nat) : Bool × Editor :=
  let s := s.nomark.movegap setup 0
  let GDIST := min (s.BLEN - GOTP) 0xFFFF
  let s := (s.spillb setup (min (min GDIST (s.shiftroom setup)) (s.CUTLO - s.GAPE))).2
  let WANT := min (min GDIST (min s.BLEN 0xFFFF)) (s.GAPE - s.GAPS)
  if WANT = 0 then (false, s) else (true, s.fillf setup WANT)

/-- The window's start goes to the store, and the store's back part comes in. -/
def gaFwd (GOTP : Nat) : Bool × Editor :=
  let s := s.nomark.movegap setup (s.textlen setup)
  let GDIST := min (GOTP - s.BLEN - s.textlen setup) 0xFFFF
  let s := (s.spillf setup (min (min GDIST (s.shiftroom setup)) (s.GAPS - setup.ARENA_LO))).2
  let WANT := min (min GDIST (min s.ALEN 0xFFFF)) (s.GAPE - s.GAPS)
  if WANT = 0 then (false, s) else (true, s.fillb setup WANT)

/-- The cursor goes to a position in the whole text; `none` out of fuel. -/
def gotoabs (GOTP : Nat) : (fuel : Nat) → Editor → Option Editor
  | 0, _ => none
  | fuel + 1, s =>
      if GOTP < s.BLEN then
        match s.gaBack setup GOTP with
        | (false, s) => some s
        | (true, s) => gotoabs GOTP fuel s
      else if GOTP - s.BLEN ≤ s.textlen setup then some (s.movegap setup (GOTP - s.BLEN))
      else
        match s.gaFwd setup GOTP with
        | (false, s) => some s
        | (true, s) => gotoabs GOTP fuel s

end Editor

end Pugputer.Edit

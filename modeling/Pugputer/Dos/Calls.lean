import Pugputer.Dos.Stream

namespace Pugputer.Dos

/-! The calls on open files, by handle. -/

def nslots : Nat := 8

def errBaddev : Byte := 0x02#8
def errNoslot : Byte := 0x07#8

structure Files where
  vars : Vars
  slots : Fin nslots → Slot

namespace Files

/-- SLOT_CHECK: the slot that becomes CUR_SLOT. -/
def slotCheck (f : Files) (b : Byte) : Option (Fin nslots) :=
  if h : b.toNat < nslots then
    if (f.slots ⟨b.toNat, h⟩).inuse then some ⟨b.toNat, h⟩ else none
  else none

def current (f : Files) (i : Fin nslots) : Open := ⟨f.vars, f.slots i⟩

def put (f : Files) (i : Fin nslots) (s : Open) : Files := ⟨s.vars, Function.update f.slots i s.slot⟩

def dosFgetc (g : Geometry) (b : Byte) (f : Files) : Except Byte Byte × Files :=
  match f.slotCheck b with
  | none => (.error errBaddev, f)
  | some i =>
      let (result, s) := fileGetbyte g (f.current i)
      (result, f.put i s)

def dosFputc (g : Geometry) (fpByte b : Byte) (f : Files) : Except Byte Unit × Files :=
  match f.slotCheck b with
  | none => (.error errBaddev, f)
  | some i =>
      let (result, s) := filePutbyte g fpByte (f.current i)
      (result, f.put i s)

def dosFread (g : Geometry) (fuel : Nat) (b : Byte) (ioLen : Word) (f : Files) :
    Option (Except Byte Word × List Byte × Files) :=
  match f.slotCheck b with
  | none => some (.error errBaddev, [], f)
  | some i => (fileRead g fuel ioLen (f.current i)).map fun (result, bytes, s) =>
      (result, bytes, f.put i s)

def dosFwrite (g : Geometry) (fuel : Nat) (b : Byte) (ioBuf : List Byte) (f : Files) :
    Option (Except Byte Word × Files) :=
  match f.slotCheck b with
  | none => some (.error errBaddev, f)
  | some i => (fileWrite g fuel ioBuf (f.current i)).map fun (result, s) => (result, f.put i s)

/-- FGETC until the carry is set, at most `n` times. -/
def fgets (g : Geometry) (b : Byte) : (n : Nat) → Files → Option Byte × List Byte × Files
  | 0, f => (none, [], f)
  | n + 1, f =>
      match f.dosFgetc g b with
      | (.error a, f) => (some a, [], f)
      | (.ok byte, f) =>
          let (stop, rest, f) := fgets g b n f
          (stop, byte :: rest, f)

/-- FPUTC of each byte, until the carry is set. -/
def fputs (g : Geometry) (b : Byte) : List Byte → Files → Option Byte × Files
  | [], f => (none, f)
  | byte :: rest, f =>
      match f.dosFputc g byte b with
      | (.error a, f) => (some a, f)
      | (.ok _, f) => fputs g b rest f

section

variable {g : Geometry} {f : Files} {b : Byte} {i : Fin nslots} {s s' : Open}

@[simp] theorem slots_put : (f.put i s).slots i = s.slot := Function.update_self _ _ _

@[simp] theorem current_put : (f.put i s).current i = s := by
  rw [current, slots_put]
  rfl

@[simp] theorem put_put : (f.put i s).put i s' = f.put i s' := by
  rw [put, put, put, Function.update_idem]

@[simp] theorem put_current : f.put i (f.current i) = f := by
  rw [put, current, Function.update_eq_self]

theorem slotCheck_some : f.slotCheck b = some i ↔ b.toNat = i ∧ (f.slots i).inuse = true := by
  rw [slotCheck]
  constructor
  · intro found
    split at found
    · split at found
      · next inuse =>
          cases found
          exact ⟨rfl, inuse⟩
      · cases found
    · cases found
  · rintro ⟨same, inuse⟩
    have small : b.toNat < nslots := same ▸ i.isLt
    obtain rfl : ⟨b.toNat, small⟩ = i := Fin.ext same
    rw [dif_pos small, if_pos inuse]

/-- The file stays open. -/
theorem slotCheck_put (check : f.slotCheck b = some i) (same : s.slot.inuse = (f.slots i).inuse) :
    (f.put i s).slotCheck b = some i := by
  rw [slotCheck_some] at check ⊢
  rw [slots_put, same]
  exact check

end

end Files

/-! One slot's calls leave it open. -/

def KeepsOpen {α : Type} (act : FileM α) : Prop := ∀ s, (act s).2.slot.inuse = s.slot.inuse

namespace KeepsOpen

variable {α β : Type} {act : FileM α} {next : α → FileM β} {g : Geometry}

theorem of_keeps (keeps : Keeps act) : KeepsOpen act := fun s => (keeps.kept s).inuse

theorem bind (first : KeepsOpen act) (rest : ∀ x, KeepsOpen (next x)) :
    KeepsOpen (act >>= next) := by
  intro s
  have before := first s
  rcases ran : act s with ⟨a | x, s'⟩
  · rw [bind_error ran, ← before, ran]
  · rw [bind_ok ran, rest x s', ← before, ran]

theorem ite {condition : Prop} [Decidable condition] {yes no : FileM α} (first : KeepsOpen yes)
    (second : KeepsOpen no) : KeepsOpen (if condition then yes else no) := by
  split
  · exact first
  · exact second

theorem throw {a : Byte} : KeepsOpen (throw a : FileM α) := fun _ => rfl

theorem fileGetbyte : KeepsOpen (Dos.fileGetbyte g) := by
  refine bind (of_keeps .getSlot) fun slot => ite throw (ite throw ?_)
  refine bind (of_keeps .selRead) fun _ => bind (of_keeps .getSlot) fun _ => bind ?_ fun _ => ?_
  · exact fun _ => rfl
  · exact of_keeps (.pure _)

theorem filePutbyte {b : Byte} : KeepsOpen (Dos.filePutbyte g b) := by
  refine bind (of_keeps .getSlot) fun slot => ite throw (ite throw ?_)
  refine bind (of_keeps .selWrite) fun _ => bind ?_ fun _ => ?_
  · exact fun _ => rfl
  · exact fun _ => rfl

end KeepsOpen

namespace Files

section

variable {g : Geometry} {f : Files} {b : Byte} {i : Fin nslots}

theorem fgets_eq {n : Nat} (check : f.slotCheck b = some i) :
    f.fgets g b n = ((gets g n (f.current i)).1, (gets g n (f.current i)).2.1,
      f.put i (gets g n (f.current i)).2.2) := by
  induction n generalizing f with
  | zero => rw [fgets, gets, put_current]
  | succ n ih =>
      have stays := KeepsOpen.fileGetbyte (g := g) (f.current i)
      have one : f.dosFgetc g b = ((fileGetbyte g (f.current i)).1,
          f.put i (fileGetbyte g (f.current i)).2) := by
        rw [dosFgetc, check]
        rfl
      rw [fgets, one, gets]
      rcases ran : fileGetbyte g (f.current i) with ⟨a | byte, s⟩
      · rfl
      · rw [ran] at stays
        dsimp only
        rw [ih (slotCheck_put check stays), current_put, put_put]

theorem fputs_eq {bytes : List Byte} (check : f.slotCheck b = some i) :
    f.fputs g b bytes = ((puts g bytes (f.current i)).1,
      f.put i (puts g bytes (f.current i)).2) := by
  induction bytes generalizing f with
  | nil => rw [fputs, puts, put_current]
  | cons byte rest ih =>
      have stays := KeepsOpen.filePutbyte (g := g) (b := byte) (f.current i)
      have one : f.dosFputc g byte b = ((filePutbyte g byte (f.current i)).1,
          f.put i (filePutbyte g byte (f.current i)).2) := by
        rw [dosFputc, check]
        rfl
      rw [fputs, one, puts]
      rcases ran : filePutbyte g byte (f.current i) with ⟨a | _, s⟩
      · rfl
      · rw [ran] at stays
        dsimp only
        rw [ih (slotCheck_put check stays), current_put, put_put]

/-- A call for bytes of an open file. -/
inductive Call
  | read (b : Byte) (ioLen : Word)
  | write (b : Byte) (ioBuf : List Byte)

/-- The file is open in a mode that suits the call; what is written fits in IO_LEN, and ends
below 2^32. -/
def Suits (f : Files) : Call → Prop
  | .read b _ => ∃ i, f.slotCheck b = some i ∧ (f.slots i).Reads
  | .write b ioBuf => ∃ i, f.slotCheck b = some i ∧ (f.slots i).Writes ∧
      ioBuf.length < 65536 ∧ (f.slots i).pos.toNat + ioBuf.length < 0x100000000

instance (f : Files) : (call : Call) → Decidable (f.Suits call)
  | .read b _ => inferInstanceAs (Decidable (∃ i, f.slotCheck b = some i ∧ (f.slots i).Reads))
  | .write b ioBuf => inferInstanceAs (Decidable (∃ i, f.slotCheck b = some i ∧
      (f.slots i).Writes ∧ ioBuf.length < 65536 ∧
      (f.slots i).pos.toNat + ioBuf.length < 0x100000000))

/-- A call done as one block. -/
def inBlock (g : Geometry) (fuel : Nat) (f : Files) : Call →
    Option (Except Byte Word × List Byte × Files)
  | .read b ioLen => f.dosFread g fuel b ioLen
  | .write b ioBuf => (f.dosFwrite g fuel b ioBuf).map fun (result, f) => (result, [], f)

/-- The same call done byte by byte. -/
def inBytes (g : Geometry) (f : Files) : Call → Except Byte Word × List Byte × Files
  | .read b ioLen => served 0 (f.fgets g b ioLen.toNat)
  | .write b ioBuf =>
      let (result, f) := stored (BitVec.ofNat 16 ioBuf.length) (f.fputs g b ioBuf)
      (result, [], f)

theorem inBlock_eq {call : Call} (suits : f.Suits call) (more : Nat) :
    f.inBlock g (0x10000 + more) call = some (f.inBytes g call) := by
  cases call with
  | read b ioLen =>
      obtain ⟨i, check, reads⟩ := suits
      have short := ioLen.isLt
      rw [inBlock, dosFread, check, inBytes, fgets_eq check]
      dsimp only
      rw [fileRead_eq (s := f.current i) reads (by omega)]
      rfl
  | write b ioBuf =>
      obtain ⟨i, check, writes, short, fits⟩ := suits
      rw [inBlock, dosFwrite, check, inBytes, fputs_eq check]
      dsimp only
      rw [fileWrite_eq (s := f.current i) writes short (by omega) fits]
      rfl

/-- A call in a block (`true`), or byte by byte. -/
def inEither (g : Geometry) (fuel : Nat) (f : Files) (block : Bool) (call : Call) :
    Option (Except Byte Word × List Byte × Files) :=
  if block then f.inBlock g fuel call else some (f.inBytes g call)

/-- Calls on any open files, each in either way; the answers in order. -/
def mixed (g : Geometry) (fuel : Nat) : List (Bool × Call) → Files →
    Option (List (Except Byte Word × List Byte) × Files)
  | [], f => some ([], f)
  | (block, call) :: rest, f => do
      let (result, bytes, f) ← f.inEither g fuel block call
      let (answers, f) ← mixed g fuel rest f
      return ((result, bytes) :: answers, f)

def allInBytes (g : Geometry) : List Call → Files → List (Except Byte Word × List Byte) × Files
  | [], f => ([], f)
  | call :: rest, f =>
      let (result, bytes, f) := f.inBytes g call
      let (answers, f) := allInBytes g rest f
      ((result, bytes) :: answers, f)

/-- Each call suits the state that it comes to. -/
def AllSuit (g : Geometry) : List Call → Files → Prop
  | [], _ => True
  | call :: rest, f => f.Suits call ∧ AllSuit g rest (f.inBytes g call).2.2

instance decidableAllSuit (g : Geometry) : (calls : List Call) → (f : Files) →
    Decidable (AllSuit g calls f)
  | [], _ => .isTrue trivial
  | call :: rest, f =>
      have := decidableAllSuit g rest (f.inBytes g call).2.2
      inferInstanceAs (Decidable (_ ∧ _))

theorem mixed_eq {calls : List (Bool × Call)} (suit : AllSuit g (calls.map Prod.snd) f)
    (more : Nat) :
    mixed g (0x10000 + more) calls f = some (allInBytes g (calls.map Prod.snd) f) := by
  induction calls generalizing f with
  | nil => rfl
  | cons first rest ih =>
      obtain ⟨block, call⟩ := first
      obtain ⟨suits, suit⟩ := suit
      have one : f.inEither g (0x10000 + more) block call = some (f.inBytes g call) := by
        cases block with
        | true => exact inBlock_eq suits more
        | false => rfl
      rw [mixed, one]
      change (mixed g _ rest (f.inBytes g call).2.2).bind _ = _
      rw [ih suit]
      rfl

end

/-- A disk with clusters of two sectors. -/
def shared : Geometry where
  secPerClus := 2
  spcMask := 1
  spcShift := 1
  resSec := 1
  numFats := 2
  rootEntCnt := 16
  secPerFat := 1
  totalSec := 64
  fatLba := 1
  rootLba := 3
  rootDirSec := 1
  dataLba := 4
  totalClus := 30
  maxClus := 32

/-- Files in update mode at their last byte, which is one short of a sector's end. -/
def updated : Files where
  vars := {
    disk := fun _ _ => 0
    fatBuf := fun _ => 0
    fatBufSec := 0xFFFF
    fatDirty := false
    allocHint := 2
    io := []
    written := [] }
  slots i := {
    inuse := true
    mode := fopenUpdate
    startclus := 2 + BitVec.ofNat 16 i
    size := 511
    pos := 510
    bufsec := 0xFF0000
    dirty := false
    cacheidx := 0
    cacheclus := 0
    buf := fun _ => 0 }

/-- What two of them are called for. -/
def across : List (Bool × Call) :=
  [(true, .write 0 [0x41, 0x42, 0x43]), (false, .read 1 9), (true, .write 0 [0x44]),
    (true, .read 0 1)]

theorem mixed_eq_across :
    AllSuit shared (across.map Prod.snd) updated ∧
      mixed shared 0x10000 across updated =
        some (allInBytes shared (across.map Prod.snd) updated) :=
  ⟨by decide +kernel, mixed_eq (by decide +kernel) 0⟩

end Files

end Pugputer.Dos

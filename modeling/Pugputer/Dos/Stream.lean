import Pugputer.Dos.Slot

namespace Pugputer.Dos

/-! The bytes of an open file, one at a time and in blocks. -/

def fopenRead : Byte := 0x00#8
def fopenUpdate : Byte := 0x03#8

/-- A position that has passed the size makes the file grow. -/
def grown (size pos : BitVec 32) : BitVec 32 := if pos < size then size else pos

def Slot.advance (slot : Slot) (n : Word) : Slot := { slot with pos := slot.pos + n.setWidth 32 }

/-- `n` bytes have been put into the buffer. -/
def Slot.advanceWritten (slot : Slot) (n : Word) : Slot :=
  { slot.advance n with dirty := true, size := grown slot.size (slot.advance n).pos }

def fileGetbyte (g : Geometry) : FileM Byte := do
  let slot ← getSlot
  if slot.mode ≠ fopenRead ∧ slot.mode ≠ fopenUpdate then throw errBadmode
  else if slot.size < slot.pos ∨ slot.size - slot.pos = 0 then throw errEof
  else do
    selRead g (shr9 slot.pos)
    let slot ← getSlot
    modifySlot fun slot => slot.advance 1
    return slot.buf (sectorOffset slot.pos).toNat

/-- ADDW and ADCD set the carry. -/
def carries (pos : BitVec 32) (n : Word) : Prop := 0x100000000 ≤ pos.toNat + n.toNat

instance (pos : BitVec 32) (n : Word) : Decidable (carries pos n) :=
  inferInstanceAs (Decidable (_ ≤ _))

def filePutbyte (g : Geometry) (pbByte : Byte) : FileM Unit := do
  let slot ← getSlot
  if slot.mode = fopenRead then throw errBadmode
  else if carries slot.pos 1 then throw errToobig
  else do
    selWrite g (shr9 slot.pos)
    modifySlot fun slot => { slot with
      buf := Function.update slot.buf (sectorOffset slot.pos).toNat pbByte }
    modifySlot fun slot => slot.advanceWritten 1

/-- TFM from the buffer to the caller. -/
def copyOut (buf : Sector) (offset : Nat) : (n : Nat) → List Byte
  | 0 => []
  | n + 1 => buf offset :: copyOut buf (offset + 1) n

/-- TFM from the caller into the buffer. -/
def copyIn (buf : Sector) (offset : Nat) : List Byte → Sector
  | [] => buf
  | b :: rest => copyIn (Function.update buf offset b) (offset + 1) rest

/-- FR_N: of the bytes wanted, those left in the file and those left in this sector. -/
def frN (want : Word) (left : BitVec 32) (pos : BitVec 32) : Word :=
  let n : Word := if left.extractLsb' 16 16 ≠ 0 then 0xFFFF else left.setWidth 16
  let room := 512 - sectorOffset pos
  let n := if n ≤ room then n else room
  if n ≤ want then n else want

/-- FRD_LOOP: what it returns, IO_CNT or a code, and what it has stored from IO_BUF on. -/
def frdLoop (g : Geometry) (ioLen : Word) : (fuel : Nat) → (ioCnt : Word) → Open →
    Option (Except Byte Word × List Byte × Open)
  | 0, _, _ => none
  | fuel + 1, ioCnt, s =>
      let want := ioLen - ioCnt
      let left := s.slot.size - s.slot.pos
      if want = 0 then some (.ok ioCnt, [], s)
      else if s.slot.size < s.slot.pos ∨ left = 0 then some (.ok ioCnt, [], s)
      else
        let frOff := sectorOffset s.slot.pos
        let n := frN want left s.slot.pos
        match selRead g (shr9 s.slot.pos) s with
        | (.error a, s) => some (.error a, [], s)
        | (.ok _, s) =>
            (frdLoop g ioLen fuel (ioCnt + n) { s with slot := s.slot.advance n }).map
              fun (result, rest, s') =>
                (result, copyOut s.slot.buf frOff.toNat n.toNat ++ rest, s')

def fileRead (g : Geometry) (fuel : Nat) (ioLen : Word) (s : Open) :
    Option (Except Byte Word × List Byte × Open) :=
  if s.slot.mode ≠ fopenRead ∧ s.slot.mode ≠ fopenUpdate then some (.error errBadmode, [], s)
  else frdLoop g ioLen fuel 0 s

/-- FR_N: of the bytes wanted, those there is room for in this sector. -/
def fwrN (want : Word) (pos : BitVec 32) : Word :=
  let room := 512 - sectorOffset pos
  if room ≤ want then room else want

/-- FWR_LOOP over what IO_BUF holds. -/
def fwrLoop (g : Geometry) (ioBuf : List Byte) (ioLen : Word) : (fuel : Nat) → (ioCnt : Word) →
    Open → Option (Except Byte Word × Open)
  | 0, _, _ => none
  | fuel + 1, ioCnt, s =>
      let want := ioLen - ioCnt
      if want = 0 then some (.ok ioCnt, s)
      else
        let frOff := sectorOffset s.slot.pos
        let n := fwrN want s.slot.pos
        if carries s.slot.pos n then some (.error errToobig, s)
        else
          match selWrite g (shr9 s.slot.pos) s with
          | (.error a, s) => some (.error a, s)
          | (.ok _, s) =>
              let buf := copyIn s.slot.buf frOff.toNat
                ((ioBuf.drop ioCnt.toNat).take n.toNat)
              fwrLoop g ioBuf ioLen fuel (ioCnt + n)
                { s with slot := { s.slot with buf }.advanceWritten n }

def fileWrite (g : Geometry) (fuel : Nat) (ioBuf : List Byte) (s : Open) :
    Option (Except Byte Word × Open) :=
  if s.slot.mode = fopenRead then some (.error errBadmode, s)
  else fwrLoop g ioBuf (BitVec.ofNat 16 ioBuf.length) fuel 0 s

/-! Byte by byte. -/

/-- FGETC until the carry is set, at most `n` times: the code that stopped it, and the bytes. -/
def gets (g : Geometry) : (n : Nat) → Open → Option Byte × List Byte × Open
  | 0, s => (none, [], s)
  | n + 1, s =>
      match fileGetbyte g s with
      | (.error a, s) => (some a, [], s)
      | (.ok b, s) =>
          let (stop, rest, s) := gets g n s
          (stop, b :: rest, s)

/-- FPUTC of each byte, until the carry is set. -/
def puts (g : Geometry) : List Byte → Open → Option Byte × Open
  | [], s => (none, s)
  | b :: rest, s =>
      match filePutbyte g b s with
      | (.error a, s) => (some a, s)
      | (.ok _, s) => puts g rest s

/-! Positions. -/

theorem toNat_sectorOffset (pos : BitVec 32) : (sectorOffset pos).toNat = pos.toNat % 512 := by
  rw [sectorOffset, BitVec.toNat_and, BitVec.toNat_setWidth]
  change pos.toNat % 65536 &&& 2 ^ 9 - 1 = _
  rw [Nat.and_two_pow_sub_one_eq_mod]
  omega

theorem toNat_shr9 (pos : BitVec 32) : (shr9 pos).toNat = pos.toNat / 512 := by
  have small := pos.isLt
  rw [shr9, BitVec.toNat_ushiftRight, BitVec.extractLsb'_toNat, Nat.shiftRight_eq_div_pow,
    Nat.shiftRight_eq_div_pow]
  omega

theorem shr9_eq {pos pos' : BitVec 32} (same : pos.toNat / 512 = pos'.toNat / 512) :
    shr9 pos = shr9 pos' := by
  apply BitVec.eq_of_toNat_eq
  rw [toNat_shr9, toNat_shr9, same]

theorem toNat_least (a b : Word) : (if a ≤ b then a else b).toNat = min a.toNat b.toNat := by
  split
  · next less => exact (Nat.min_eq_left (BitVec.le_def.mp less)).symm
  · next more =>
      rw [BitVec.le_def] at more
      omega

/-- The room left in a sector. -/
theorem toNat_room (pos : BitVec 32) : (512 - sectorOffset pos).toNat = 512 - pos.toNat % 512 := by
  rw [BitVec.toNat_sub, toNat_sectorOffset]
  change (65536 - _ + 512) % 65536 = _
  omega

/-- FRD_CAP. -/
theorem toNat_capped (left : BitVec 32) :
    (if left.extractLsb' 16 16 ≠ 0 then 0xFFFF else left.setWidth 16 : Word).toNat =
      min left.toNat 65535 := by
  have high : left.extractLsb' 16 16 = 0 ↔ left.toNat < 65536 := by
    have small := left.isLt
    rw [← BitVec.toNat_inj, BitVec.extractLsb'_toNat, Nat.shiftRight_eq_div_pow]
    change left.toNat / 65536 % 65536 = 0 ↔ _
    omega
  split
  · next more =>
      rw [Ne, high] at more
      change 65535 = _
      omega
  · next less =>
      rw [Ne, not_not, high] at less
      rw [BitVec.toNat_setWidth]
      change left.toNat % 65536 = _
      omega

theorem toNat_frN (want : Word) (left pos : BitVec 32) :
    (frN want left pos).toNat = min (min left.toNat (512 - pos.toNat % 512)) want.toNat := by
  rw [frN, toNat_least, toNat_least, toNat_capped, toNat_room]
  omega

theorem toNat_fwrN (want : Word) (pos : BitVec 32) :
    (fwrN want pos).toNat = min (512 - pos.toNat % 512) want.toNat := by
  rw [fwrN, toNat_least, toNat_room]

/-- The position after `n` bytes that end below 2^32. -/
theorem toNat_advance {slot : Slot} {n : Word} (fits : slot.pos.toNat + n.toNat < 0x100000000) :
    (slot.advance n).pos.toNat = slot.pos.toNat + n.toNat := by
  have small := n.isLt
  change (slot.pos + n.setWidth 32).toNat = _
  rw [BitVec.toNat_add, BitVec.toNat_setWidth]
  omega

theorem advance_zero (slot : Slot) : slot.advance 0 = slot := by
  change { slot with pos := slot.pos + 0#32 } = slot
  rw [BitVec.add_zero]

theorem add_setWidth (pos : BitVec 32) {n m : Word} (fits : n.toNat + m.toNat < 65536) :
    pos + n.setWidth 32 + m.setWidth 32 = pos + (n + m).setWidth 32 := by
  rw [BitVec.add_assoc]
  congr 1
  apply BitVec.eq_of_toNat_eq
  rw [BitVec.toNat_add, BitVec.toNat_setWidth, BitVec.toNat_setWidth, BitVec.toNat_setWidth,
    BitVec.toNat_add]
  omega

theorem advance_advance {slot : Slot} {n m : Word} (fits : n.toNat + m.toNat < 65536) :
    (slot.advance n).advance m = slot.advance (n + m) := by
  rw [Slot.advance, Slot.advance, Slot.advance, add_setWidth _ fits]

/-! Reading. -/

def Slot.Reads (slot : Slot) : Prop := slot.mode = fopenRead ∨ slot.mode = fopenUpdate

instance (slot : Slot) : Decidable slot.Reads := inferInstanceAs (Decidable (_ ∨ _))

theorem SameFile.reads {slot slot' : Slot} (same : SameFile slot slot') (reads : slot.Reads) :
    slot'.Reads := by
  rw [Slot.Reads, same.mode]
  exact reads

section

variable {g : Geometry} {s s' : Open} {a : Byte}

theorem fileGetbyte_end (reads : s.slot.Reads) (done : s.slot.size ≤ s.slot.pos) :
    fileGetbyte g s = (.error errEof, s) := by
  rw [fileGetbyte, bind_ok (show getSlot s = (.ok s.slot, s) from rfl), if_neg ?_, if_pos ?_]
  · rfl
  · rw [BitVec.lt_def, ← BitVec.toNat_inj, BitVec.toNat_sub]
    have small := s.slot.pos.isLt
    rw [BitVec.le_def] at done
    change _ ∨ _ = 0
    omega
  · rintro ⟨read, update⟩
    exact reads.elim read update

theorem fileGetbyte_eq (reads : s.slot.Reads) (more : s.slot.pos < s.slot.size) :
    fileGetbyte g s =
      match selRead g (shr9 s.slot.pos) s with
      | (.error a, s) => (.error a, s)
      | (.ok _, s) =>
          (.ok (s.slot.buf (sectorOffset s.slot.pos).toNat), { s with slot := s.slot.advance 1 }) := by
  rw [fileGetbyte, bind_ok (show getSlot s = (.ok s.slot, s) from rfl), if_neg ?_, if_neg ?_]
  · rcases ran : selRead g (shr9 s.slot.pos) s with ⟨a | _, s'⟩
    · exact bind_error ran
    · exact bind_ok ran
  · rw [BitVec.lt_def, ← BitVec.toNat_inj, BitVec.toNat_sub]
    have small := s.slot.size.isLt
    rw [BitVec.lt_def] at more
    change ¬(_ ∨ _ = 0)
    omega
  · rintro ⟨read, update⟩
    exact reads.elim read update

theorem gets_add (k m : Nat) :
    gets g (k + m) s =
      match gets g k s with
      | (some a, bytes, s) => (some a, bytes, s)
      | (none, bytes, s) => ((gets g m s).1, bytes ++ (gets g m s).2.1, (gets g m s).2.2) := by
  induction k generalizing s with
  | zero =>
      rw [Nat.zero_add, gets]
      rfl
  | succ k ih =>
      rw [Nat.succ_add, gets, gets]
      rcases fileGetbyte g s with ⟨a | b, s'⟩
      · rfl
      · dsimp only
        rw [ih]
        rcases gets g k s' with ⟨_ | a, bytes, s''⟩
        · rfl
        · rfl

theorem succ_word (k : Nat) : 1 + BitVec.ofNat 16 k = BitVec.ofNat 16 (k + 1) := by
  rw [BitVec.ofNat_add, BitVec.add_comm]
  rfl

/-- The next `k` positions are in the selected sector, from `offset` on. -/
structure Inside (slot : Slot) (offset k : Nat) : Prop where
  selected : 0 < k → slot.bufsec = shr9 slot.pos ∧ slot.pos.toNat % 512 = offset
  room : offset + k ≤ 512

theorem Inside.next {slot slot' : Slot} {offset k : Nat} (inside : Inside slot offset (k + 1))
    (same : slot'.bufsec = slot.bufsec) (next : slot'.pos.toNat = slot.pos.toNat + 1) :
    Inside slot' (offset + 1) k := by
  obtain ⟨here, at_⟩ := inside.selected (Nat.succ_pos k)
  have room := inside.room
  refine ⟨fun some => ⟨?_, by omega⟩, by omega⟩
  rw [same, here]
  exact shr9_eq (by omega)

/-- Bytes of the selected sector come from the buffer. -/
theorem gets_piece {offset k : Nat} (reads : s.slot.Reads) (inside : Inside s.slot offset k)
    (left : s.slot.pos.toNat + k ≤ s.slot.size.toNat) :
    gets g k s = (none, copyOut s.slot.buf offset k,
      { s with slot := s.slot.advance (BitVec.ofNat 16 k) }) := by
  induction k generalizing s offset with
  | zero =>
      rw [gets, copyOut, show BitVec.ofNat 16 0 = 0 from rfl, advance_zero]
  | succ k ih =>
      obtain ⟨here, at_⟩ := inside.selected (Nat.succ_pos k)
      have room := inside.room
      have small := s.slot.size.isLt
      have next : (s.slot.advance 1).pos.toNat = s.slot.pos.toNat + 1 := by
        refine toNat_advance ?_
        change _ + 1 < _
        omega
      have more : s.slot.pos < s.slot.size := by
        rw [BitVec.lt_def]
        omega
      have rest : gets g k { s with slot := s.slot.advance 1 } = (none,
          copyOut s.slot.buf (offset + 1) k,
          { s with slot := (s.slot.advance 1).advance (BitVec.ofNat 16 k) }) := by
        refine ih reads (inside.next rfl next) ?_
        change (s.slot.advance 1).pos.toNat + k ≤ s.slot.size.toNat
        omega
      have short : (1 : Word).toNat + (BitVec.ofNat 16 k).toNat < 65536 := by
        rw [BitVec.toNat_ofNat, Nat.mod_eq_of_lt (by omega)]
        change 1 + k < 65536
        omega
      rw [gets, fileGetbyte_eq reads more, selRead_same here]
      dsimp only
      rw [rest, copyOut, toNat_sectorOffset, at_, advance_advance short, succ_word]

/-- The first byte has its sector selected; the others then find it so. -/
theorem gets_selected {k : Nat} (some' : 0 < k) (reads : s.slot.Reads)
    (more : s.slot.pos < s.slot.size) :
    gets g k s =
      match selRead g (shr9 s.slot.pos) s with
      | (.error a, s) => (some a, [], s)
      | (.ok _, s) => gets g k s := by
  obtain ⟨k, rfl⟩ := Nat.exists_eq_add_one.mpr some'
  rw [gets, fileGetbyte_eq reads more]
  rcases ran : selRead g (shr9 s.slot.pos) s with ⟨a | _, s'⟩
  · rfl
  · have kept := Keeps.selRead.ran ran
    have here : s'.slot.bufsec = shr9 s'.slot.pos := by rw [kept.pos, selRead_selects ran]
    have more' : s'.slot.pos < s'.slot.size := by
      rw [kept.pos, kept.size]
      exact more
    dsimp only
    rw [gets, fileGetbyte_eq (kept.reads reads) more', selRead_same here]

/-- Past the bytes of the sector that has been selected. -/
theorem gets_sector {n : Word} {k : Nat} (reads : s.slot.Reads)
    (ran : selRead g (shr9 s.slot.pos) s = (.ok (), s'))
    (room : s.slot.pos.toNat % 512 + n.toNat ≤ 512)
    (left : s.slot.pos.toNat + n.toNat ≤ s.slot.size.toNat) :
    gets g (n.toNat + k) s' =
      let rest := gets g k { s' with slot := s'.slot.advance n }
      (rest.1, copyOut s'.slot.buf (s.slot.pos.toNat % 512) n.toNat ++ rest.2.1, rest.2.2) := by
  have kept := Keeps.selRead.ran ran
  have inside : Inside s'.slot (s.slot.pos.toNat % 512) n.toNat := by
    refine ⟨fun _ => ?_, room⟩
    rw [kept.pos]
    exact ⟨selRead_selects ran, rfl⟩
  have piece := gets_piece (g := g) (kept.reads reads) inside (by rw [kept.pos, kept.size]; exact left)
  rw [BitVec.ofNat_toNat, BitVec.setWidth_eq] at piece
  rw [gets_add, piece]

/-- What FREAD makes of it: the end of the file is no error. -/
def served {σ : Type} (ioCnt : Word) (read : Option Byte × List Byte × σ) :
    Except Byte Word × List Byte × σ :=
  let total := ioCnt + BitVec.ofNat 16 read.2.1.length
  (match read.1 with
    | some a => if a = errEof then .ok total else .error a
    | none => .ok total, read.2)

theorem served_append (ioCnt : Word) (stop : Option Byte) (first rest : List Byte) (s : Open) :
    served ioCnt (stop, first ++ rest, s) =
      ((served (ioCnt + BitVec.ofNat 16 first.length) (stop, rest, s)).1, first ++ rest, s) := by
  rw [served, served, List.length_append, BitVec.ofNat_add, BitVec.add_assoc]

theorem length_copyOut (buf : Sector) (offset n : Nat) : (copyOut buf offset n).length = n := by
  induction n generalizing offset with
  | zero => rfl
  | succ n ih => rw [copyOut, List.length_cons, ih]

/-- FREAD's test for the end of the file. -/
theorem at_end_iff (size pos : BitVec 32) : size < pos ∨ size - pos = 0 ↔ size ≤ pos := by
  have small := pos.isLt
  have small' := size.isLt
  rw [BitVec.lt_def, BitVec.le_def, ← BitVec.toNat_inj, BitVec.toNat_sub]
  change _ ∨ _ = 0 ↔ _
  omega

theorem frdLoop_eq (ioLen : Word) {fuel : Nat} {ioCnt : Word} (reads : s.slot.Reads)
    (enough : (ioLen - ioCnt).toNat < fuel) :
    frdLoop g ioLen fuel ioCnt s = some (served ioCnt (gets g (ioLen - ioCnt).toNat s)) := by
  induction fuel generalizing ioCnt s with
  | zero => omega
  | succ fuel ih =>
      have nothing : ioCnt + BitVec.ofNat 16 ([] : List Byte).length = ioCnt := BitVec.add_zero _
      rw [frdLoop]
      dsimp only
      by_cases enough' : ioLen - ioCnt = 0
      · rw [if_pos enough', enough', show (0 : Word).toNat = 0 from rfl, gets, served, nothing]
      · have want : 0 < (ioLen - ioCnt).toNat :=
          Nat.pos_of_ne_zero fun zero => enough' (BitVec.eq_of_toNat_eq zero)
        rw [if_neg enough']
        by_cases done : s.slot.size ≤ s.slot.pos
        · obtain ⟨k, one⟩ := Nat.exists_eq_add_one.mpr want
          rw [if_pos ((at_end_iff _ _).mpr done), one, gets, fileGetbyte_end reads done]
          dsimp only
          rw [served, nothing]
          rfl
        · rw [if_neg fun end' => done ((at_end_iff _ _).mp end')]
          have more : s.slot.pos < s.slot.size := BitVec.not_le.mp done
          rw [gets_selected want reads more]
          rcases ran : selRead g (shr9 s.slot.pos) s with ⟨a | _, s'⟩
          · dsimp only
            rw [served]
            dsimp only
            rw [if_neg (Keeps.selRead.failed ran)]
          · generalize count : frN (ioLen - ioCnt) (s.slot.size - s.slot.pos) s.slot.pos = n
            have n_eq : n.toNat = min (min (s.slot.size.toNat - s.slot.pos.toNat)
                (512 - s.slot.pos.toNat % 512)) (ioLen - ioCnt).toNat := by
              rw [← count, toNat_frN, BitVec.toNat_sub_of_le (BitVec.le_of_lt more)]
            rw [BitVec.lt_def] at more
            have rest : (ioLen - (ioCnt + n)).toNat = (ioLen - ioCnt).toNat - n.toNat := by
              rw [← BitVec.sub_sub, BitVec.toNat_sub_of_le (BitVec.le_def.mpr (by omega))]
            have whole : (ioLen - ioCnt).toNat = n.toNat + (ioLen - (ioCnt + n)).toNat := by omega
            have others := ih (s := { s' with slot := s'.slot.advance n })
              ((Keeps.selRead.ran ran).reads reads)
              (show (ioLen - (ioCnt + n)).toNat < fuel by omega)
            dsimp only
            rw [whole, gets_sector reads ran (by omega) (by omega), others, toNat_sectorOffset]
            dsimp only
            rw [served_append, length_copyOut, BitVec.ofNat_toNat, BitVec.setWidth_eq]
            rfl

/-- FREAD is FGETC, as often as it takes. -/
theorem fileRead_eq {ioLen : Word} {fuel : Nat} (reads : s.slot.Reads)
    (enough : ioLen.toNat < fuel) :
    fileRead g fuel ioLen s = some (served 0 (gets g ioLen.toNat s)) := by
  have whole : ioLen - 0 = ioLen := BitVec.sub_zero _
  rw [fileRead, if_neg fun ⟨read, update⟩ => reads.elim read update, frdLoop_eq ioLen reads,
    whole]
  rw [whole]
  exact enough

end

/-! Writing. -/

def Slot.Writes (slot : Slot) : Prop := slot.mode ≠ fopenRead

instance (slot : Slot) : Decidable slot.Writes := inferInstanceAs (Decidable (_ ≠ _))

theorem SameFile.writes {slot slot' : Slot} (same : SameFile slot slot') (writes : slot.Writes) :
    slot'.Writes := by
  rw [Slot.Writes, same.mode]
  exact writes

/-- The slot after bytes put into its buffer. -/
def Slot.wrote (slot : Slot) (offset : Nat) (bytes : List Byte) : Slot :=
  { slot with buf := copyIn slot.buf offset bytes }.advanceWritten (BitVec.ofNat 16 bytes.length)

theorem grown_grown (size : BitVec 32) {pos pos' : BitVec 32} (later : pos ≤ pos') :
    grown (grown size pos) pos' = grown size pos' := by
  rw [BitVec.le_def] at later
  by_cases less : pos < size
  · rw [grown.eq_def size pos, if_pos less]
  · rw [grown.eq_def size pos, if_neg less]
    rw [BitVec.lt_def] at less
    rw [grown, if_neg (by rw [BitVec.lt_def]; omega), grown,
      if_neg (by rw [BitVec.lt_def]; omega)]

theorem wrote_cons {slot : Slot} {offset : Nat} {b : Byte} {rest : List Byte}
    (fits : slot.pos.toNat + (rest.length + 1) < 0x100000000) (short : rest.length + 1 < 65536) :
    (slot.wrote offset [b]).wrote (offset + 1) rest = slot.wrote offset (b :: rest) := by
  have counted : (BitVec.ofNat 16 rest.length).toNat = rest.length := by
    rw [BitVec.toNat_ofNat, Nat.mod_eq_of_lt (by omega)]
  have pos : slot.pos + (1 : Word).setWidth 32 + (BitVec.ofNat 16 rest.length).setWidth 32 =
      slot.pos + (BitVec.ofNat 16 (rest.length + 1)).setWidth 32 := by
    rw [add_setWidth, succ_word]
    rw [counted]
    change 1 + _ < _
    omega
  have later : slot.pos + (1 : Word).setWidth 32 ≤
      slot.pos + (BitVec.ofNat 16 (rest.length + 1)).setWidth 32 := by
    rw [BitVec.le_def, BitVec.toNat_add, BitVec.toNat_add, BitVec.toNat_setWidth,
      BitVec.toNat_setWidth, BitVec.toNat_ofNat]
    change (_ + 1 % 4294967296) % 4294967296 ≤ _
    omega
  have size := grown_grown slot.size later
  rw [← pos] at size
  change ({ slot with
      buf := copyIn slot.buf offset (b :: rest)
      pos := slot.pos + (1 : Word).setWidth 32 + (BitVec.ofNat 16 rest.length).setWidth 32
      dirty := true
      size := grown (grown slot.size (slot.pos + (1 : Word).setWidth 32))
        (slot.pos + (1 : Word).setWidth 32 + (BitVec.ofNat 16 rest.length).setWidth 32) } : Slot) = _
  rw [size, pos]
  rfl

section

variable {g : Geometry} {s s' : Open} {a b : Byte}

theorem filePutbyte_eq (writes : s.slot.Writes) (fits : s.slot.pos.toNat + 1 < 0x100000000) :
    filePutbyte g b s =
      match selWrite g (shr9 s.slot.pos) s with
      | (.error a, s) => (.error a, s)
      | (.ok _, s) =>
          (.ok (), { s with slot := s.slot.wrote (sectorOffset s.slot.pos).toNat [b] }) := by
  rw [filePutbyte, bind_ok (show getSlot s = (.ok s.slot, s) from rfl), if_neg writes, if_neg ?_]
  · rcases ran : selWrite g (shr9 s.slot.pos) s with ⟨a | _, s'⟩
    · exact bind_error ran
    · exact bind_ok ran
  · rw [carries]
    change ¬ _ ≤ _ + 1
    omega

theorem puts_append (first rest : List Byte) :
    puts g (first ++ rest) s =
      match puts g first s with
      | (some a, s) => (some a, s)
      | (none, s) => puts g rest s := by
  induction first generalizing s with
  | nil => rfl
  | cons b first ih =>
      rw [List.cons_append, puts, puts]
      rcases filePutbyte g b s with ⟨a | _, s'⟩
      · rfl
      · exact ih

/-- Bytes of the selected sector go into the buffer. -/
theorem puts_piece {offset : Nat} {rest : List Byte} (writes : s.slot.Writes)
    (inside : Inside s.slot offset (rest.length + 1))
    (fits : s.slot.pos.toNat + (rest.length + 1) < 0x100000000) :
    puts g (b :: rest) s = (none, { s with slot := s.slot.wrote offset (b :: rest) }) := by
  induction rest generalizing s offset b with
  | nil =>
      obtain ⟨here, at_⟩ := inside.selected (Nat.succ_pos _)
      rw [puts, filePutbyte_eq writes fits, selWrite_same here]
      dsimp only
      rw [puts, toNat_sectorOffset, at_]
  | cons b' rest ih =>
      obtain ⟨here, at_⟩ := inside.selected (Nat.succ_pos _)
      have room := inside.room
      rw [List.length_cons] at room fits inside
      have next : (s.slot.wrote offset [b]).pos.toNat = s.slot.pos.toNat + 1 := by
        refine toNat_advance ?_
        change s.slot.pos.toNat + 1 < _
        omega
      have others : puts g (b' :: rest) { s with slot := s.slot.wrote offset [b] } = (none,
          { s with slot := (s.slot.wrote offset [b]).wrote (offset + 1) (b' :: rest) }) := by
        refine ih (s := { s with slot := s.slot.wrote offset [b] }) writes
          (inside.next rfl next) ?_
        change (s.slot.wrote offset [b]).pos.toNat + _ < _
        omega
      rw [puts, filePutbyte_eq writes (by omega), selWrite_same here]
      dsimp only
      rw [toNat_sectorOffset, at_, others, wrote_cons (by rw [List.length_cons]; omega) (by rw [List.length_cons]; omega)]

theorem puts_selected {bytes : List Byte} (some' : bytes ≠ []) (writes : s.slot.Writes)
    (fits : s.slot.pos.toNat + 1 < 0x100000000) :
    puts g bytes s =
      match selWrite g (shr9 s.slot.pos) s with
      | (.error a, s) => (some a, s)
      | (.ok _, s) => puts g bytes s := by
  obtain ⟨b, rest, rfl⟩ := List.exists_cons_of_ne_nil some'
  rw [puts, filePutbyte_eq writes fits]
  rcases ran : selWrite g (shr9 s.slot.pos) s with ⟨a | _, s'⟩
  · rfl
  · have kept := Keeps.selWrite.ran ran
    have here : s'.slot.bufsec = shr9 s'.slot.pos := by rw [kept.pos, selWrite_selects ran]
    have fits' : s'.slot.pos.toNat + 1 < 0x100000000 := by
      rw [kept.pos]
      exact fits
    dsimp only
    rw [puts, filePutbyte_eq (kept.writes writes) fits', selWrite_same here]

/-- Past the bytes for the sector that has been selected. -/
theorem puts_sector {bytes rest : List Byte} (writes : s.slot.Writes)
    (ran : selWrite g (shr9 s.slot.pos) s = (.ok (), s')) (some' : 0 < bytes.length)
    (room : s.slot.pos.toNat % 512 + bytes.length ≤ 512)
    (fits : s.slot.pos.toNat + bytes.length < 0x100000000) :
    puts g (bytes ++ rest) s' =
      puts g rest { s' with slot := s'.slot.wrote (s.slot.pos.toNat % 512) bytes } := by
  have kept := Keeps.selWrite.ran ran
  have inside : Inside s'.slot (s.slot.pos.toNat % 512) bytes.length := by
    refine ⟨fun _ => ?_, room⟩
    rw [kept.pos]
    exact ⟨selWrite_selects ran, rfl⟩
  obtain ⟨b, tail, rfl⟩ := List.exists_cons_of_length_pos some'
  rw [puts_append, puts_piece (kept.writes writes) inside (by rw [kept.pos]; exact fits)]

/-- What FWRITE makes of it. -/
def stored {σ : Type} (ioLen : Word) (written : Option Byte × σ) : Except Byte Word × σ :=
  (match written.1 with
    | some a => .error a
    | none => .ok ioLen, written.2)

theorem fwrLoop_eq {ioBuf : List Byte} {ioLen : Word} {fuel : Nat} {ioCnt : Word}
    (writes : s.slot.Writes) (enough : (ioLen - ioCnt).toNat < fuel)
    (count : (ioBuf.drop ioCnt.toNat).length = (ioLen - ioCnt).toNat) (under : ioCnt ≤ ioLen)
    (fits : s.slot.pos.toNat + (ioLen - ioCnt).toNat < 0x100000000) :
    fwrLoop g ioBuf ioLen fuel ioCnt s =
      some (stored ioLen (puts g (ioBuf.drop ioCnt.toNat) s)) := by
  induction fuel generalizing ioCnt s with
  | zero => omega
  | succ fuel ih =>
      rw [fwrLoop]
      dsimp only
      by_cases done : ioLen - ioCnt = 0
      · have none : ioBuf.drop ioCnt.toNat = [] := by
          apply List.eq_nil_of_length_eq_zero
          rw [count, done]
          rfl
        rw [if_pos done, none, puts, stored]
        have same : ioCnt = ioLen := by
          have difference := congrArg BitVec.toNat done
          rw [BitVec.toNat_sub_of_le under] at difference
          rw [BitVec.le_def] at under
          change _ = 0 at difference
          exact BitVec.eq_of_toNat_eq (by omega)
        rw [same]
      · have want : 0 < (ioLen - ioCnt).toNat :=
          Nat.pos_of_ne_zero fun zero => done (BitVec.eq_of_toNat_eq zero)
        rw [if_neg done]
        generalize size : fwrN (ioLen - ioCnt) s.slot.pos = n
        have n_eq : n.toNat = min (512 - s.slot.pos.toNat % 512) (ioLen - ioCnt).toNat := by
          rw [← size, toNat_fwrN]
        have some' : ioBuf.drop ioCnt.toNat ≠ [] := by
          intro none
          rw [none] at count
          change 0 = _ at count
          omega
        rw [if_neg (by rw [carries]; omega), puts_selected some' writes (by omega)]
        rcases ran : selWrite g (shr9 s.slot.pos) s with ⟨a | _, s'⟩
        · rfl
        · have rest : (ioLen - (ioCnt + n)).toNat = (ioLen - ioCnt).toNat - n.toNat := by
            rw [← BitVec.sub_sub, BitVec.toNat_sub_of_le (BitVec.le_def.mpr (by omega))]
          have left := BitVec.toNat_sub_of_le under
          rw [BitVec.le_def] at under
          have small := ioLen.isLt
          have ioCnt' : (ioCnt + n).toNat = ioCnt.toNat + n.toNat := by
            rw [BitVec.toNat_add]
            omega
          dsimp only
          generalize chunk : (ioBuf.drop ioCnt.toNat).take n.toNat = bytes
          have split : bytes ++ ioBuf.drop (ioCnt + n).toNat = ioBuf.drop ioCnt.toNat := by
            rw [← chunk, ioCnt', ← List.drop_drop, List.take_append_drop]
          have taken : bytes.length = n.toNat := by
            rw [← chunk, List.length_take, count]
            omega
          have whole : BitVec.ofNat 16 bytes.length = n := by
            rw [taken, BitVec.ofNat_toNat, BitVec.setWidth_eq]
          have next : (s'.slot.wrote (s.slot.pos.toNat % 512) bytes).pos.toNat =
              s.slot.pos.toNat + n.toNat := by
            rw [← (Keeps.selWrite.ran ran).pos, Slot.wrote, whole]
            refine toNat_advance ?_
            change s'.slot.pos.toNat + _ < _
            rw [(Keeps.selWrite.ran ran).pos]
            omega
          rw [← split, puts_sector writes ran (by omega) (by omega) (by omega)]
          refine Eq.trans ?_ (ih (s := { s' with
            slot := s'.slot.wrote (s.slot.pos.toNat % 512) bytes })
            ((Keeps.selWrite.ran ran).writes writes) ?_ ?_ ?_ ?_)
          · rw [Slot.wrote, whole, toNat_sectorOffset]
          · omega
          · rw [ioCnt', ← List.drop_drop, List.length_drop, count]
            omega
          · rw [BitVec.le_def, ioCnt']
            omega
          · change (s'.slot.wrote _ _).pos.toNat + _ < _
            omega

/-- FWRITE is FPUTC of each byte. -/
theorem fileWrite_eq {ioBuf : List Byte} {fuel : Nat} (writes : s.slot.Writes)
    (short : ioBuf.length < 65536) (enough : ioBuf.length < fuel)
    (fits : s.slot.pos.toNat + ioBuf.length < 0x100000000) :
    fileWrite g fuel ioBuf s =
      some (stored (BitVec.ofNat 16 ioBuf.length) (puts g ioBuf s)) := by
  have counted : (BitVec.ofNat 16 ioBuf.length - 0).toNat = ioBuf.length := by
    rw [show BitVec.ofNat 16 ioBuf.length - 0 = _ from BitVec.sub_zero _, BitVec.toNat_ofNat,
      Nat.mod_eq_of_lt (by omega)]
  rw [fileWrite, if_neg writes]
  refine fwrLoop_eq writes ?_ counted.symm (BitVec.le_def.mpr (Nat.zero_le _)) ?_
  · omega
  · omega

end

end Pugputer.Dos

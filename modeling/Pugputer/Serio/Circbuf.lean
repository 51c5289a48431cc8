import Pugputer.Basic
import Pugputer.Lib.Ring

namespace Pugputer.Serio

/-! The ring buffers of the serial driver. -/

def sbufsz : Byte := 0x7E#8

/-- `buf` is indexed by the accumulator offset, which CBUF_PUT and CBUF_GET keep
below 128, so its sign never shows. -/
structure Circbuf where
  head : Byte := 0
  tail : Byte := 0
  count : Byte := 0
  buf : Byte → Byte := fun _ => 0

def cbufInit (c : Circbuf) : Circbuf :=
  { c with head := 0, tail := 0, count := 0 }

/-- An index after INC, and CLR when it has reached the end. -/
def cbufWrap (index : Byte) : Byte :=
  if index + 1 < sbufsz then index + 1 else 0

/-- Carry set: buffer full, byte not stored. -/
def cbufPut (a : Byte) (c : Circbuf) : Bool × Circbuf :=
  if sbufsz ≤ c.count then (true, c)
  else
    (false, { c with
      buf := fun i => if i = c.head then a else c.buf i
      head := cbufWrap c.head
      count := c.count + 1 })

/-- Carry set: buffer empty, A unchanged. -/
def cbufGet (a : Byte) (c : Circbuf) : Bool × Byte × Circbuf :=
  if c.count = 0 then (true, a, c)
  else
    (false, c.buf c.tail, { c with tail := cbufWrap c.tail, count := c.count - 1 })

/-! The queue a buffer stands for. -/

def capacity : Nat := 126

def Circbuf.Holds (c : Circbuf) (contents : List Byte) : Prop :=
  Ring.Holds capacity (fun i => c.buf (BitVec.ofNat 8 i)) c.head.toNat c.tail.toNat
    c.count.toNat contents

theorem cbufWrap_toNat {index : Byte} (bound : index.toNat < capacity) :
    (cbufWrap index).toNat = Ring.advance capacity index.toNat := by
  have next : (index + 1).toNat = index.toNat + 1 := by
    rw [BitVec.toNat_add, Nat.mod_eq_of_lt]
    · rfl
    · simp only [capacity] at bound
      have : BitVec.toNat (1 : Byte) = 1 := rfl
      omega
  have test : index + 1 < sbufsz ↔ index.toNat + 1 < capacity := by
    rw [BitVec.lt_def, next]
    rfl
  by_cases inside : index.toNat + 1 < capacity
  · rw [cbufWrap, if_pos (test.mpr inside), Ring.advance, if_pos inside, next]
  · rw [cbufWrap, if_neg (mt test.mp inside), Ring.advance, if_neg inside]
    rfl

theorem cbufInit_holds (c : Circbuf) : (cbufInit c).Holds [] :=
  Ring.Holds.empty (by decide)

/-- The queue itself, oldest byte first. -/
def Circbuf.contents (c : Circbuf) : List Byte :=
  (List.range c.count.toNat).map fun i =>
    c.buf (BitVec.ofNat 8 (Ring.slot capacity c.tail.toNat i))

variable {c : Circbuf} {contents : List Byte}

theorem Circbuf.Holds.length_le (holds : c.Holds contents) : contents.length ≤ capacity :=
  holds.fits

theorem Circbuf.Holds.count_eq (holds : c.Holds contents) :
    c.count = BitVec.ofNat 8 contents.length := by
  rw [← holds.length]
  simp

theorem Circbuf.Holds.contents_eq (holds : c.Holds contents) : c.contents = contents := by
  apply List.ext_getElem
  · simp [Circbuf.contents, holds.length]
  · intro i _ inside
    simpa [Circbuf.contents] using holds.cell i inside

/-- Head, tail and count agree. -/
def Circbuf.WellFormed (c : Circbuf) : Prop := c.Holds c.contents

theorem Circbuf.Holds.wellFormed (holds : c.Holds contents) : c.WellFormed := by
  rw [Circbuf.WellFormed, holds.contents_eq]
  exact holds

/-- CBUF_PUT on a full buffer changes nothing. -/
theorem cbufPut_full (holds : c.Holds contents) (full : contents.length = capacity)
    (a : Byte) : cbufPut a c = (true, c) := by
  have count := holds.count_eq
  rw [full] at count
  simp [cbufPut, count, capacity, sbufsz]

/-- CBUF_PUT with room appends its byte. -/
theorem cbufPut_room (holds : c.Holds contents) (room : contents.length < capacity)
    (a : Byte) : (cbufPut a c).1 = false ∧ (cbufPut a c).2.Holds (contents ++ [a]) := by
  have length := holds.length
  have small : c.count.toNat < 126 := by
    simp only [capacity] at room
    omega
  have notFull : ¬ sbufsz ≤ c.count := by
    simp only [BitVec.le_def, show sbufsz.toNat = 126 from rfl]
    omega
  have headBound : c.head.toNat < capacity := holds.head_lt
  have next : (c.count + 1).toNat = c.count.toNat + 1 := by
    rw [BitVec.toNat_add, Nat.mod_eq_of_lt]
    · rfl
    · have : BitVec.toNat (1 : Byte) = 1 := rfl
      omega
  simp only [cbufPut, if_neg notFull, true_and]
  have stored := Ring.Holds.put
    (fun i => if BitVec.ofNat 8 i = c.head then a else c.buf (BitVec.ofNat 8 i)) a
    holds room (by simp) ?_
  · rw [Circbuf.Holds, cbufWrap_toNat headBound, next]
    exact stored
  · intro i inRing ne
    have apart : BitVec.ofNat 8 i ≠ c.head := by
      intro clash
      have value := congrArg BitVec.toNat clash
      simp only [capacity] at inRing
      rw [BitVec.toNat_ofNat, Nat.mod_eq_of_lt (by omega)] at value
      exact ne value
    simp only [if_neg apart]

theorem cbufGet_empty (holds : c.Holds []) (a : Byte) : cbufGet a c = (true, a, c) := by
  have count := holds.count_eq
  simp [cbufGet, count]

/-- CBUF_GET takes the oldest byte. -/
theorem cbufGet_cons {first : Byte} {rest : List Byte} (holds : c.Holds (first :: rest))
    (a : Byte) :
    (cbufGet a c).1 = false ∧ (cbufGet a c).2.1 = first ∧ (cbufGet a c).2.2.Holds rest := by
  have length := holds.length
  have fits := holds.fits
  simp only [List.length_cons, capacity] at length fits
  have someLeft : c.count ≠ 0 := by
    intro none
    rw [none] at length
    have : BitVec.toNat (0 : Byte) = 0 := rfl
    omega
  have fewer : (c.count - 1).toNat = c.count.toNat - 1 := by
    rw [BitVec.toNat_sub]
    have : BitVec.toNat (1 : Byte) = 1 := rfl
    omega
  obtain ⟨found, shorter⟩ := Ring.Holds.take holds
  have tailBound : c.tail.toNat < capacity := holds.tail_lt
  simp only [cbufGet, if_neg someLeft, true_and]
  refine ⟨by simpa using found, ?_⟩
  rw [Circbuf.Holds, cbufWrap_toNat tailBound, fewer]
  exact shorter

/-! The same for a well-formed buffer. -/

theorem cbufInit_contents (c : Circbuf) :
    (cbufInit c).WellFormed ∧ (cbufInit c).contents = [] :=
  ⟨(cbufInit_holds c).wellFormed, (cbufInit_holds c).contents_eq⟩

theorem Circbuf.WellFormed.full_iff (wf : c.WellFormed) :
    sbufsz ≤ c.count ↔ c.contents.length = capacity := by
  have length := Ring.Holds.length wf
  have fits := Ring.Holds.fits wf
  rw [BitVec.le_def, show sbufsz.toNat = capacity from rfl]
  omega

/-- CBUF_PUT either drops its byte or appends it. -/
theorem cbufPut_contents (wf : c.WellFormed) (a : Byte) :
    (cbufPut a c).2.WellFormed ∧
      if c.contents.length = capacity then cbufPut a c = (true, c)
      else (cbufPut a c).1 = false ∧ (cbufPut a c).2.contents = c.contents ++ [a] := by
  split
  · rename_i full
    have same := cbufPut_full wf full a
    exact ⟨by rw [same]; exact wf, same⟩
  · rename_i room
    have fits := Ring.Holds.fits wf
    obtain ⟨carry, holds⟩ := cbufPut_room wf (by omega) a
    exact ⟨holds.wellFormed, carry, holds.contents_eq⟩

/-- CBUF_GET finds the buffer empty or takes its first byte. -/
theorem cbufGet_contents (wf : c.WellFormed) (a : Byte) :
    (cbufGet a c).2.2.WellFormed ∧
      ((c.contents = [] ∧ cbufGet a c = (true, a, c)) ∨
        ((cbufGet a c).1 = false ∧
          c.contents = (cbufGet a c).2.1 :: (cbufGet a c).2.2.contents)) := by
  cases queue : c.contents with
  | nil =>
      rw [Circbuf.WellFormed, queue] at wf
      have same := cbufGet_empty wf a
      exact ⟨by rw [same]; exact wf.wellFormed, .inl ⟨rfl, same⟩⟩
  | cons first rest =>
      rw [Circbuf.WellFormed, queue] at wf
      obtain ⟨carry, value, holds⟩ := cbufGet_cons wf a
      exact ⟨holds.wellFormed, .inr ⟨carry, by rw [value, holds.contents_eq]⟩⟩

end Pugputer.Serio

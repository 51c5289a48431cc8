import Mathlib.Data.Nat.Notation

namespace Pugputer

/-! Machine bytes and words.  The 6309 is big-endian: a word is its high byte
followed by its low byte. -/

abbrev Byte := BitVec 8
abbrev Word := BitVec 16

def word (hi lo : Byte) : Word := hi ++ lo

def hiByte (v : Word) : Byte := v.extractLsb' 8 8

def loByte (v : Word) : Byte := v.extractLsb' 0 8

@[simp] theorem hiByte_word (hi lo : Byte) : hiByte (word hi lo) = hi :=
  BitVec.extractLsb'_append_eq_left

@[simp] theorem loByte_word (hi lo : Byte) : loByte (word hi lo) = lo :=
  BitVec.extractLsb'_append_eq_right

@[simp] theorem word_hiByte_loByte (v : Word) :
    word (hiByte v) (loByte v) = v := by
  have whole : v.extractLsb' 0 16 = v := BitVec.extractLsb'_eq_self
  calc
    word (hiByte v) (loByte v) = v.extractLsb' 0 16 :=
      BitVec.extractLsb'_append_extractLsb'_eq_extractLsb' (x := v) rfl
    _ = v := whole

end Pugputer

import Pugputer.Srec.Bios
import Pugputer.Srec.Parse

namespace Pugputer.Srec

/-! What SRECREAD makes of a line: every character that is not a digit, or a digit of its own
kind, is a 0 to it. -/

/-- READHEXDIGIT knows it. -/
def upperDigit (c : Byte) : Bool :=
  chr '0' ≤ c && c ≤ chr '9' || chr 'A' ≤ c && c ≤ chr 'F'

def readAs (c : Byte) : Byte := if upperDigit c then c else chr '0'

theorem hexNibble_readAs : ∀ c : Byte,
    hexNibble (readAs c) = some (Loader.readhexdigit c 0).toNat := by
  decide

theorem upper_of_same : ∀ c : Byte, hexNibble c = hexNibble (readAs c) → upperDigit c := by
  decide

theorem upper_nonzero : ∀ c : Byte, upperDigit c → c ≠ 0 := by
  decide

theorem readAs_upper {c : Byte} (upper : upperDigit c) : readAs c = c := if_pos upper

theorem readhexdigit_or (c a : Byte) :
    Loader.readhexdigit c a = a ||| Loader.readhexdigit c 0 := by
  unfold Loader.readhexdigit
  dsimp only
  split
  · exact BitVec.or_zero.symm
  · split
    · exact congrArg (a ||| ·) BitVec.zero_or.symm
    · split
      · exact BitVec.or_zero.symm
      · split
        · exact congrArg (a ||| ·) BitVec.zero_or.symm
        · exact BitVec.or_zero.symm

/-- The byte SRECREAD makes of two characters. -/
def octet (c d : Byte) : Byte := Loader.readhexdigit d (Loader.readhexdigit c 0 <<< 4)

theorem octet_eq (c d : Byte) :
    octet c d =
      BitVec.ofNat 8 (16 * (Loader.readhexdigit c 0).toNat + (Loader.readhexdigit d 0).toNat) := by
  have high := hexNibble_lt (hexNibble_readAs c)
  have low := hexNibble_lt (hexNibble_readAs d)
  rw [octet, readhexdigit_or]
  generalize Loader.readhexdigit c 0 = a at high ⊢
  generalize Loader.readhexdigit d 0 = b at low ⊢
  apply BitVec.eq_of_toNat_eq
  have shifted : a.toNat <<< 4 < 2 ^ 8 := by
    rw [Nat.shiftLeft_eq]
    omega
  rw [BitVec.toNat_or, BitVec.toNat_shiftLeft, BitVec.toNat_ofNat, Nat.mod_eq_of_lt shifted,
    nibbles_or low, Nat.mod_eq_of_lt (by omega)]

/-- A line as it is read: its first two characters are not digits. -/
def zeroed (k : List Byte) : List Byte := k.take 2 ++ (k.drop 2).map readAs

theorem zeroed_length (k : List Byte) : (zeroed k).length = k.length := by
  rw [zeroed, List.length_append, List.length_map, List.length_take, List.length_drop]
  omega

theorem zeroed_early (k : List Byte) {i : Nat} (early : i < 2) : (zeroed k)[i]? = k[i]? := by
  by_cases inside : i < k.length
  · rw [zeroed, List.getElem?_append_left (by rw [List.length_take]; omega),
      List.getElem?_take_of_lt early]
  · rw [List.getElem?_eq_none (by rw [zeroed_length]; omega), List.getElem?_eq_none (by omega)]

theorem zeroed_late (k : List Byte) {i : Nat} (late : 2 ≤ i) :
    (zeroed k)[i]? = k[i]?.map readAs := by
  by_cases inside : i < k.length
  · have front : (k.take 2).length = 2 := by
      rw [List.length_take]
      omega
    rw [zeroed, List.getElem?_append_right (by omega), front, List.getElem?_map,
      List.getElem?_drop, Nat.add_sub_cancel' late]
  · rw [List.getElem?_eq_none (by rw [zeroed_length]; omega), List.getElem?_eq_none (by omega)]
    rfl

theorem hexByte_eq (s : List Byte) (pos : Nat) :
    hexByte s pos = s[pos]?.bind fun c => s[pos + 1]?.bind fun d =>
      (hexNibble c).bind fun h => (hexNibble d).map fun l => BitVec.ofNat 8 (16 * h + l) := by
  rw [hexByte]
  by_cases short : s.length ≤ pos + 1
  · rw [if_pos short, List.getElem?_eq_none short]
    cases s[pos]? <;> rfl
  · have first : pos < s.length := by omega
    have second : pos + 1 < s.length := by omega
    rw [if_neg short, List.getElem?_eq_getElem first, List.getElem?_eq_getElem second,
      List.getD_eq_getElem _ _ first, List.getD_eq_getElem _ _ second, Option.bind_some,
      Option.bind_some]
    cases hexNibble s[pos] with
    | none => rfl
    | some h =>
        cases low : hexNibble s[pos + 1] with
        | none => rfl
        | some l =>
            exact congrArg (fun n => some (BitVec.ofNat 8 n)) (nibbles_or (hexNibble_lt low))

theorem hexByte_congr {s t : List Byte} {pos : Nat} (first : s[pos]? = t[pos]?)
    (second : s[pos + 1]? = t[pos + 1]?) : hexByte s pos = hexByte t pos := by
  rw [hexByte_eq, hexByte_eq, first, second]

theorem readBytes_congr {s t : List Byte} {count pos : Nat}
    (same : ∀ i, pos ≤ i → i < pos + 2 * count → s[i]? = t[i]?) :
    readBytes s count pos = readBytes t count pos := by
  induction count generalizing pos with
  | zero => rfl
  | succ count ih =>
      have rest : readBytes s count (pos + 2) = readBytes t count (pos + 2) :=
        ih fun i after before => same i (by omega) (by omega)
      rw [readBytes, readBytes, rest,
        hexByte_congr (same pos (by omega) (by omega)) (same (pos + 1) (by omega) (by omega))]

theorem hexByte_zeroed {k : List Byte} {pos : Nat} (late : 2 ≤ pos) (inside : pos + 1 < k.length) :
    hexByte (zeroed k) pos = some (octet (k.getD pos 0) (k.getD (pos + 1) 0)) := by
  have first : pos < k.length := by omega
  rw [hexByte_eq, zeroed_late k late, zeroed_late k (by omega), List.getElem?_eq_getElem first,
    List.getElem?_eq_getElem inside, List.getD_eq_getElem _ _ first,
    List.getD_eq_getElem _ _ inside, octet_eq]
  simp only [Option.map_some, Option.bind_some, hexNibble_readAs]

/-- The octets read from a position on. -/
def octetsFrom (f : Nat → Byte) : Nat → Nat → List Byte
  | 0, _ => []
  | count + 1, pos => octet (f pos) (f (pos + 1)) :: octetsFrom f count (pos + 2)

theorem octetsFrom_length (f : Nat → Byte) (count pos : Nat) :
    (octetsFrom f count pos).length = count := by
  induction count generalizing pos with
  | zero => rfl
  | succ count ih => rw [octetsFrom, List.length_cons, ih]

theorem readBytes_zeroed {k : List Byte} {count pos : Nat} (late : 2 ≤ pos)
    (inside : pos + 2 * count ≤ k.length) :
    readBytes (zeroed k) count pos = some (octetsFrom (k.getD · 0) count pos) := by
  induction count generalizing pos with
  | zero => rfl
  | succ count ih =>
      rw [readBytes, hexByte_zeroed late (by omega), ih (by omega) (by omega)]
      rfl

theorem octetsFrom_add (f : Nat → Byte) (first second pos : Nat) :
    octetsFrom f (first + second) pos =
      octetsFrom f first pos ++ octetsFrom f second (pos + 2 * first) := by
  induction first generalizing pos with
  | zero => rw [Nat.zero_add]; rfl
  | succ first ih =>
      have shift : pos + 2 + 2 * first = pos + 2 * (first + 1) := by omega
      rw [Nat.succ_add, octetsFrom, ih, shift]
      rfl

end Pugputer.Srec

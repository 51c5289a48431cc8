import Mathlib.Data.List.GetD
import Pugputer.Srec.Record

namespace Pugputer.Srec

/-! A line is taken apart into the record it spells. -/

theorem bind_ok {x : Except ε α} {f : α → Except ε β} {b : β} :
    (x >>= f) = .ok b ↔ ∃ a, x = .ok a ∧ f a = .ok b := by
  cases x with
  | error e => exact iff_of_false nofun fun ⟨_, step, _⟩ => nomatch step
  | ok a => exact ⟨fun last => ⟨a, rfl, last⟩, fun ⟨_, step, last⟩ => Except.ok.inj step ▸ last⟩

theorem orFail_ok {x : Option α} {msg : String} {a : α} : orFail x msg = .ok a ↔ x = some a := by
  cases x with
  | none => exact iff_of_false nofun nofun
  | some b => exact ⟨fun same => congrArg some (Except.ok.inj same), fun same => by rw [same]; rfl⟩

theorem failIf_ok {p : Prop} [Decidable p] {msg : String} {u : Unit} :
    failIf p msg = .ok u ↔ ¬p := by
  rw [failIf]
  split
  · next holds => exact iff_of_false nofun (not_not_intro holds)
  · next fails => exact iff_of_true rfl fails

theorem hexNibble_lt {c : Byte} {h : Nat} (digit : hexNibble c = some h) : h < 16 := by
  have nine : '9'.toNat = 57 := rfl
  have zero : '0'.toNat = 48 := rfl
  have upperA : 'A'.toNat = 65 := rfl
  have upperF : 'F'.toNat = 70 := rfl
  have lowerA : 'a'.toNat = 97 := rfl
  have lowerF : 'f'.toNat = 102 := rfl
  rw [hexNibble] at digit
  split at digit
  · cases digit
    omega
  · split at digit
    · cases digit
      omega
    · split at digit
      · cases digit
        omega
      · nomatch digit

theorem nibbles_or {h l : Nat} (low : l < 16) : h <<< 4 ||| l = 16 * h + l := by
  rw [← Nat.shiftLeft_add_eq_or_of_lt (i := 4) low h, Nat.shiftLeft_eq, Nat.mul_comm]

theorem hexByte_eq_some {s : List Byte} {pos : Nat} {b : Byte} :
    hexByte s pos = some b ↔
      ∃ hi lo h l rest, s.drop pos = hi :: lo :: rest ∧ hexNibble hi = some h ∧
        hexNibble lo = some l ∧ b = BitVec.ofNat 8 (16 * h + l) := by
  rw [hexByte]
  by_cases short : s.length ≤ pos + 1
  · rw [if_pos short]
    refine iff_of_false nofun ?_
    rintro ⟨hi, lo, h, l, rest, dropped, -⟩
    have size := congrArg List.length dropped
    rw [List.length_drop, List.length_cons, List.length_cons] at size
    omega
  · have first : pos < s.length := by omega
    have second : pos + 1 < s.length := by omega
    rw [if_neg short, List.drop_eq_getElem_cons first, List.drop_eq_getElem_cons second,
      List.getD_eq_getElem _ _ first, List.getD_eq_getElem _ _ second]
    constructor
    · intro read
      obtain ⟨h, high, read⟩ := Option.bind_eq_some_iff.mp read
      obtain ⟨l, low, read⟩ := Option.bind_eq_some_iff.mp read
      refine ⟨_, _, h, l, _, rfl, high, low, ?_⟩
      rw [← nibbles_or (hexNibble_lt low)]
      exact (Option.some.inj read).symm
    · rintro ⟨hi, lo, h, l, rest, dropped, high, low, rfl⟩
      obtain ⟨rfl, tail⟩ := List.cons.inj dropped
      obtain ⟨rfl, -⟩ := List.cons.inj tail
      rw [← nibbles_or (hexNibble_lt low)]
      exact Option.bind_eq_some_iff.mpr ⟨h, high, Option.bind_eq_some_iff.mpr ⟨l, low, rfl⟩⟩

/-- Bytes one after the other, from a position on. -/
def readBytes (s : List Byte) : Nat → Nat → Option (List Byte)
  | 0, _ => some []
  | count + 1, pos => do
      let b ← hexByte s pos
      let rest ← readBytes s count (pos + 2)
      some (b :: rest)

theorem Spells.length {bytes text : List Byte} (spelled : Spells bytes text) :
    text.length = 2 * bytes.length := by
  induction spelled with
  | nil => rfl
  | cons _ _ _ ih =>
      rw [List.length_cons, List.length_cons, List.length_cons, ih]
      rfl

theorem drop_add {s : List α} {pos n : Nat} (front : List α) {after : List α}
    (dropped : s.drop pos = front ++ after) (size : front.length = n) :
    s.drop (pos + n) = after := by
  rw [← List.drop_drop, dropped, ← size, List.drop_left]

theorem readBytes_eq_some {s : List Byte} {count pos : Nat} {bytes : List Byte} :
    readBytes s count pos = some bytes ↔
      bytes.length = count ∧ ∃ text after, s.drop pos = text ++ after ∧ Spells bytes text := by
  induction count generalizing pos bytes with
  | zero =>
      constructor
      · intro read
        cases Option.some.inj read
        exact ⟨rfl, [], _, rfl, .nil⟩
      · rintro ⟨empty, -⟩
        rw [List.length_eq_zero_iff.mp empty]
        rfl
  | succ count ih =>
      simp only [readBytes, Option.bind_eq_bind, Option.bind_eq_some_iff, hexByte_eq_some, ih]
      constructor
      · rintro ⟨b, ⟨hi, lo, h, l, rest, dropped, high, low, rfl⟩, bytes', ⟨size, text, after, next,
          spelled⟩, same⟩
        cases Option.some.inj same
        have tail : s.drop (pos + 2) = rest :=
          drop_add [hi, lo] dropped rfl
        refine ⟨congrArg (· + 1) size, hi :: lo :: text, after, ?_, .cons high low spelled⟩
        rw [dropped, ← tail, next]
        rfl
      · rintro ⟨size, text, after, dropped, spelled⟩
        cases spelled with
        | nil => nomatch size
        | @cons hi lo h l bytes' text' high low rest =>
            refine ⟨_, ⟨hi, lo, h, l, text' ++ after, dropped, high, low, rfl⟩, bytes',
              ⟨Nat.succ.inj size, text', after, ?_, rest⟩, rfl⟩
            exact drop_add [hi, lo] dropped rfl

theorem readBytes_add {s : List Byte} {first second pos : Nat} {bytes : List Byte} :
    readBytes s (first + second) pos = some bytes ↔
      ∃ front rest, readBytes s first pos = some front ∧
        readBytes s second (pos + 2 * first) = some rest ∧ bytes = front ++ rest := by
  induction first generalizing pos bytes with
  | zero =>
      rw [Nat.zero_add]
      constructor
      · intro read
        exact ⟨[], bytes, rfl, read, rfl⟩
      · rintro ⟨front, rest, none, read, rfl⟩
        cases Option.some.inj none
        exact read
  | succ first ih =>
      rw [Nat.succ_add]
      simp only [readBytes, Option.bind_eq_bind, Option.bind_eq_some_iff, ih]
      have shift : pos + 2 + 2 * first = pos + 2 * (first + 1) := by ring
      rw [shift]
      constructor
      · rintro ⟨b, byte, rest, ⟨front', rest', front, second, rfl⟩, same⟩
        cases Option.some.inj same
        exact ⟨b :: front', rest', ⟨b, byte, front', front, rfl⟩, second, rfl⟩
      · rintro ⟨front, rest, ⟨b, byte, front', read, same⟩, second, rfl⟩
        cases Option.some.inj same
        exact ⟨b, byte, front' ++ rest, ⟨front', rest, read, second, rfl⟩, rfl⟩

def addressOf (address : BitVec 32) (bytes : List Byte) : BitVec 32 :=
  bytes.foldl (fun address b => address <<< 8 ||| b.setWidth 32) address

theorem addressLoop_eq (line : List Byte) (count pos : Nat) (address : BitVec 32) (sum : Nat) :
    addressLoop line count pos address sum = (readBytes line count pos).map fun bytes =>
      (pos + 2 * count, addressOf address bytes, sum + total bytes) := by
  induction count generalizing pos address sum with
  | zero => rfl
  | succ count ih =>
      rw [addressLoop, readBytes]
      cases hexByte line pos with
      | none => rfl
      | some b =>
          have shift : pos + 2 + 2 * count = pos + 2 * (count + 1) := by ring
          simp only [Option.bind_eq_bind, Option.bind_some, ih, shift]
          cases readBytes line count (pos + 2) with
          | none => rfl
          | some bytes => simp only [Option.map_some, Option.bind_some, total, Nat.add_assoc,
              addressOf, List.foldl_cons]

theorem dataLoop_eq (line : List Byte) (count pos sum : Nat) :
    dataLoop line count pos sum = (readBytes line count pos).map fun bytes =>
      (pos + 2 * count, bytes, sum + total bytes) := by
  induction count generalizing pos sum with
  | zero => rfl
  | succ count ih =>
      rw [dataLoop, readBytes]
      cases hexByte line pos with
      | none => rfl
      | some b =>
          have shift : pos + 2 + 2 * count = pos + 2 * (count + 1) := by ring
          simp only [Option.bind_eq_bind, Option.bind_some, ih, shift]
          cases readBytes line count (pos + 2) with
          | none => rfl
          | some bytes => simp only [Option.map_some, Option.bind_some, total, Nat.add_assoc]

theorem total_append (front rest : List Byte) : total (front ++ rest) = total front + total rest := by
  induction front with
  | nil => exact (Nat.zero_add _).symm
  | cons b front ih => rw [List.cons_append, total, ih, total, Nat.add_assoc]

theorem total_single (b : Byte) : total [b] = b.toNat := rfl

theorem checksum_iff {check : Byte} {sum : Nat} :
    ¬check ≠ ~~~BitVec.ofNat 8 sum ↔ (sum + check.toNat) % 256 = 255 := by
  have small := check.isLt
  rw [not_ne_iff, ← BitVec.toNat_inj, BitVec.toNat_not, BitVec.toNat_ofNat]
  omega

theorem foldl_mod (bytes : List Byte) (n : Nat) :
    bytes.foldl appendByte (n % 2 ^ 32) % 2 ^ 32 = bytes.foldl appendByte n % 2 ^ 32 := by
  induction bytes using List.reverseRecOn with
  | nil => exact Nat.mod_mod n _
  | append_singleton bytes b ih =>
      rw [List.foldl_append, List.foldl_append, List.foldl_cons, List.foldl_cons, List.foldl_nil,
        List.foldl_nil, appendByte, appendByte]
      omega

theorem shiftIn_toNat (address : BitVec 32) (b : Byte) :
    (address <<< 8 ||| b.setWidth 32).toNat = appendByte address.toNat b % 2 ^ 32 := by
  have byte := b.isLt
  have apart : address <<< 8 &&& b.setWidth 32 = 0#32 := by
    apply BitVec.eq_of_getLsbD_eq
    intro i _
    rw [BitVec.getLsbD_and, BitVec.getLsbD_shiftLeft, BitVec.getLsbD_setWidth,
      BitVec.getLsbD_zero]
    by_cases low : i < 8
    · simp [low]
    · simp [BitVec.getLsbD_of_ge b i (by omega)]
  rw [← BitVec.add_eq_or_of_and_eq_zero _ _ apart, BitVec.toNat_add, BitVec.toNat_shiftLeft,
    BitVec.toNat_setWidth, Nat.shiftLeft_eq, appendByte]
  omega

theorem addressOf_toNat (address : BitVec 32) (bytes : List Byte) :
    (addressOf address bytes).toNat = bytes.foldl appendByte address.toNat % 2 ^ 32 := by
  induction bytes generalizing address with
  | nil => exact (Nat.mod_eq_of_lt address.isLt).symm
  | cons b rest ih =>
      calc
        (addressOf address (b :: rest)).toNat =
            rest.foldl appendByte (address <<< 8 ||| b.setWidth 32).toNat % 2 ^ 32 := ih _
        _ = rest.foldl appendByte (appendByte address.toNat b % 2 ^ 32) % 2 ^ 32 := by
            rw [shiftIn_toNat]
        _ = rest.foldl appendByte (appendByte address.toNat b) % 2 ^ 32 := foldl_mod rest _

theorem bigEndian_lt (bytes : List Byte) : bigEndian bytes < 256 ^ bytes.length := by
  induction bytes using List.reverseRecOn with
  | nil => exact Nat.one_pos
  | append_singleton bytes b ih =>
      have byte := b.isLt
      rw [bigEndian] at ih ⊢
      rw [List.foldl_append, List.foldl_cons, List.foldl_nil, List.length_append,
        List.length_singleton, Nat.pow_succ, appendByte]
      omega

theorem addrBytes_le {type : Byte} {width : Nat} (known : addrBytes type = some width) :
    2 ≤ width ∧ width ≤ 4 := by
  rw [addrBytes] at known
  split at known
  · cases known
    decide
  · split at known
    · cases known
      decide
    · split at known
      · cases known
        decide
      · nomatch known

theorem addressOf_iff {bytes : List Byte} (short : bytes.length ≤ 4) (address : BitVec 32) :
    addressOf 0 bytes = address ↔ bigEndian bytes = address.toNat := by
  have small : bigEndian bytes < 2 ^ 32 :=
    Nat.lt_of_lt_of_le (bigEndian_lt bytes) (Nat.pow_le_pow_right (by decide) short)
  have value : (addressOf 0 bytes).toNat = bigEndian bytes :=
    (addressOf_toNat 0 bytes).trans (Nat.mod_eq_of_lt small)
  rw [← BitVec.toNat_inj, value]

/-- What `parseLine` reads of a line, field by field. -/
structure Fields (line : List Byte) (r : Record) (count check : Byte) (address : List Byte) :
    Prop where
  first : line.getD 0 0 = chr 'S' ∨ line.getD 0 0 = chr 's'
  type : line.getD 1 0 = r.type
  countRead : hexByte line 2 = some count
  width : addrBytes r.type = some address.length
  addressRead : readBytes line address.length 4 = some address
  number : bigEndian address = r.address.toNat
  dataRead : readBytes line r.data.length (4 + 2 * address.length) = some r.data
  checkRead : hexByte line (4 + 2 * address.length + 2 * r.data.length) = some check
  counted : count.toNat = address.length + r.data.length + 1
  summed : (count.toNat + total address + total r.data + check.toNat) % 256 = 255

theorem hexByte_inside {s : List Byte} {pos : Nat} {b : Byte} (read : hexByte s pos = some b) :
    pos + 1 < s.length := by
  rw [hexByte] at read
  by_contra outside
  rw [if_pos (Nat.not_lt.mp outside)] at read
  nomatch read

theorem parseLine_fields {line : List Byte} {r : Record} :
    parseLine line = .ok r ↔ ∃ count check address, Fields line r count check address := by
  simp only [parseLine, bind_ok, failIf_ok, orFail_ok, addressLoop_eq, dataLoop_eq,
    Option.map_eq_some_iff]
  constructor
  · rintro ⟨-, first, -, long, count, read, width, known, -, whole, -, fits, ⟨pos, address, sum⟩,
      ⟨bytes, addressRead, rest⟩, ⟨pos', data, sum'⟩, ⟨_, dataRead, rest'⟩, check, checkRead, -,
      checked, made⟩
    cases rest
    cases rest'
    cases Except.ok.inj made
    have size := (readBytes_eq_some.mp addressRead).1
    have dataSize := (readBytes_eq_some.mp dataRead).1
    subst size
    have narrow := (addrBytes_le known).2
    have sum := checksum_iff.mp checked
    refine ⟨count, check, bytes, ?_, rfl, read, known, addressRead, ?_, ?_, ?_, ?_, sum⟩
    · by_contra other
      exact first (not_or.mp other)
    · exact (addressOf_iff narrow _).mp rfl
    · rw [dataSize]
      exact dataRead
    · rw [dataSize]
      exact checkRead
    · dsimp only
      omega
  · rintro ⟨count, check, address, first, type, read, width, addressRead, number, dataRead,
      checkRead, counted, summed⟩
    have inside := hexByte_inside checkRead
    have narrow := (addrBytes_le width).2
    have dataSize : count.toNat - address.length - 1 = r.data.length := by omega
    refine ⟨(), ?_, (), by omega, count, read, address.length, type ▸ width, (), by omega, (),
      by omega, _, ⟨address, addressRead, rfl⟩, _, ⟨r.data, dataSize ▸ dataRead, rfl⟩, check, ?_, (),
      checksum_iff.mpr summed, ?_⟩
    · rintro ⟨upper, lower⟩
      exact first.elim upper lower
    · rw [dataSize]
      exact checkRead
    · rw [(addressOf_iff narrow _).mpr number, type]
      rfl

theorem readBytes_one {s : List Byte} {pos : Nat} {b : Byte} :
    readBytes s 1 pos = some [b] ↔ hexByte s pos = some b := by
  rw [readBytes]
  cases hexByte s pos with
  | none => exact iff_of_false nofun nofun
  | some c =>
      constructor
      · intro read
        exact congrArg some (List.cons.inj (Option.some.inj read)).1
      · rintro ⟨⟩
        rfl

/-- Fields read one after the other are one stretch read whole. -/
theorem readBytes_append {s : List Byte} {first second pos : Nat} (front : List Byte)
    {rest : List Byte} (size : front.length = first) :
    readBytes s (first + second) pos = some (front ++ rest) ↔
      readBytes s first pos = some front ∧ readBytes s second (pos + 2 * first) = some rest := by
  rw [readBytes_add]
  constructor
  · rintro ⟨front', rest', read, read', same⟩
    have size' := (readBytes_eq_some.mp read).1
    obtain ⟨rfl, rfl⟩ := List.append_inj same (size.trans size'.symm)
    exact ⟨read, read'⟩
  · rintro ⟨read, read'⟩
    exact ⟨front, rest, read, read', rfl⟩

theorem stretch_read {line : List Byte} {count check : Byte} {address data : List Byte} :
    readBytes line (1 + (address.length + (data.length + 1))) 2 =
        some (count :: (address ++ data ++ [check])) ↔
      hexByte line 2 = some count ∧ readBytes line address.length 4 = some address ∧
        readBytes line data.length (4 + 2 * address.length) = some data ∧
        hexByte line (4 + 2 * address.length + 2 * data.length) = some check := by
  have parts : count :: (address ++ data ++ [check]) = [count] ++ (address ++ (data ++ [check])) :=
    congrArg (count :: ·) (List.append_assoc address data [check])
  have one : [count].length = 1 := rfl
  rw [parts, readBytes_append [count] one, readBytes_append address rfl,
    readBytes_append data rfl, readBytes_one,
    readBytes_one]

theorem holds_fields {line : List Byte} {r : Record} :
    Holds line r ↔ ∃ count check address, Fields line r count check address := by
  constructor
  · rintro ⟨count, check, address, text, after, record⟩
    obtain ⟨first, s, rfl⟩ := record.starts
    have read := readBytes_eq_some.mpr
      (show _ ∧ ∃ text' after', (first :: r.type :: (text ++ after)).drop 2 = text' ++ after' ∧ _ from
      ⟨rfl, text, after, rfl, record.spelled⟩)
    have size : (count :: (address ++ r.data ++ [check])).length =
        1 + (address.length + (r.data.length + 1)) := by
      rw [List.length_cons, List.length_append, List.length_append, List.length_singleton]
      omega
    rw [size] at read
    obtain ⟨countRead, addressRead, dataRead, checkRead⟩ := stretch_read.mp read
    have summed := record.summed
    rw [total, total_append, total_append, total_single] at summed
    exact ⟨count, check, address, s, rfl, countRead, record.width, addressRead, record.number,
      dataRead, checkRead, record.counted, by rw [← summed]; congr 1; omega⟩
  · rintro ⟨count, check, address, fields⟩
    obtain ⟨size, text, after, dropped, spelled⟩ := readBytes_eq_some.mp (stretch_read.mpr
      ⟨fields.countRead, fields.addressRead, fields.dataRead, fields.checkRead⟩)
    have long := hexByte_inside fields.countRead
    refine ⟨count, check, address, text, after, ⟨line.getD 0 0, fields.first, ?_⟩, spelled,
      fields.width, fields.number, fields.counted, ?_⟩
    · have zeroth : 0 < line.length := by omega
      have oneth : 0 + 1 < line.length := by omega
      rw [← dropped, ← fields.type, List.getD_eq_getElem _ _ zeroth, List.getD_eq_getElem _ _ oneth,
        ← List.drop_eq_getElem_cons oneth, ← List.drop_eq_getElem_cons zeroth, List.drop_zero]
    · rw [total, total_append, total_append, total_single, ← fields.summed]
      congr 1
      omega

/-- `parseLine` accepts the lines that are records, and makes of each the record it spells. -/
theorem parseLine_ok {line : List Byte} {r : Record} : parseLine line = .ok r ↔ Holds line r :=
  parseLine_fields.trans holds_fields.symm

end Pugputer.Srec

import Pugputer.Srec.Receive

namespace Pugputer.Srec

/-! Where the BIOS's loader and the host's agree on a line. -/

/-! Trailing blanks are no part of a record. -/

theorem digit_not_blank : ∀ c : Byte, hexNibble c ≠ none → isBlank c = false := by
  decide

theorem Spells.digits {bytes text : List Byte} (spelled : Spells bytes text) :
    ∀ c ∈ text, hexNibble c ≠ none := by
  induction spelled with
  | nil => exact fun _ member => absurd member List.not_mem_nil
  | cons high low _ ih =>
      refine List.forall_mem_cons.mpr ⟨fun none => ?_, List.forall_mem_cons.mpr ⟨fun none => ?_, ih⟩⟩
      · exact nomatch none.symm.trans high
      · exact nomatch none.symm.trans low

theorem rstrip_append {front : List Byte} (filled : front ≠ [])
    (last : isBlank (front.getLast filled) = false) (after : List Byte) :
    rstrip (front ++ after) = front ++ rstrip after := by
  rw [rstrip, rstrip]
  induction after using List.reverseRecOn with
  | nil =>
      rw [List.append_nil, List.rdropWhile_nil, List.append_nil, List.rdropWhile_eq_self_iff]
      exact fun _ => Bool.eq_false_iff.mp last
  | append_singleton after c ih =>
      rw [← List.append_assoc, List.rdropWhile_concat, List.rdropWhile_concat, ih]
      split
      · rfl
      · exact List.append_assoc _ _ _

/-- The host's loader makes the record of the line, its trailing blanks gone. -/
theorem parse_rstrip {line : List Byte} {r : Record} :
    parseLine (rstrip line) = .ok r ↔ Holds line r := by
  rw [parseLine_ok]
  constructor
  · rintro ⟨count, check, address, text, after, record⟩
    obtain ⟨first, s, starts⟩ := record.starts
    obtain ⟨blanks, split⟩ := List.rdropWhile_prefix isBlank (l := line)
    refine ⟨count, check, address, text, after ++ blanks, ⟨first, s, ?_⟩, record.spelled,
      record.width, record.number, record.counted, record.summed⟩
    rw [rstrip] at starts
    rw [← split, starts, List.cons_append, List.cons_append, List.append_assoc]
  · rintro ⟨count, check, address, text, after, record⟩
    obtain ⟨first, s, starts⟩ := record.starts
    have filled : text ≠ [] := by
      intro none
      have size := record.spelled.length
      rw [none] at size
      exact absurd size (by simp)
    have last : isBlank ((first :: r.type :: text).getLast (List.cons_ne_nil _ _)) = false := by
      rw [List.getLast_cons (List.cons_ne_nil _ _), List.getLast_cons filled]
      exact digit_not_blank _ (record.spelled.digits _ (List.getLast_mem filled))
    refine ⟨count, check, address, text, rstrip after, ⟨first, s, ?_⟩, record.spelled,
      record.width, record.number, record.counted, record.summed⟩
    rw [starts]
    exact rstrip_append (List.cons_ne_nil _ _) last after

theorem Acceptable.holds {userRam : Word} {line : List Byte} {r : Record}
    (acceptable : Acceptable userRam line r) : Holds line r := parse_rstrip.mp acceptable.accepted

/-! A record and the line it is read from. -/

theorem bigEndian_two (a b : Byte) : bigEndian [a, b] = (word a b).toNat := by
  have low := b.isLt
  rw [word, BitVec.toNat_append, ← Nat.shiftLeft_add_eq_or_of_lt low, Nat.shiftLeft_eq]
  change 256 * (256 * 0 + a.toNat) + b.toNat = _
  omega

section Zeroed

variable {k : List Byte} {userRam : Word} {r : Record}

/-- The fields of a line as it is read, when it is long enough for its byte count. -/
structure Octets (k : List Byte) (n : Nat) : Prop where
  count : hexByte (zeroed k) 2 = some (octet (k.getD 2 0) (k.getD 3 0))
  address : readBytes (zeroed k) 2 4 =
    some [octet (k.getD 4 0) (k.getD 5 0), octet (k.getD 6 0) (k.getD 7 0)]
  data : readBytes (zeroed k) n 8 = some (octetsFrom (k.getD · 0) n 8)
  check : hexByte (zeroed k) (8 + 2 * n) =
    some (octet (k.getD (8 + 2 * n) 0) (k.getD (8 + 2 * n + 1) 0))

theorem octets_of_length {n : Nat} (long : 8 + 2 * n + 2 ≤ k.length) : Octets k n where
  count := hexByte_zeroed (by omega) (by omega)
  address := readBytes_zeroed (by omega) (by omega)
  data := readBytes_zeroed (by omega) (by omega)
  check := hexByte_zeroed (by omega) (by omega)

theorem zeroed_getD (k : List Byte) {i : Nat} (small : i < 2) :
    (zeroed k).getD i 0 = k.getD i 0 := by
  rw [List.getD_eq_getElem?_getD, zeroed_early k small, ← List.getD_eq_getElem?_getD]

theorem octetsFrom_total {f : Nat → Byte} (some : 4 ≤ count f) :
    total (octetsFrom f (count f) 4) =
      total [octet (f 4) (f 5), octet (f 6) (f 7)] + total (made f).data +
        (octet (f (8 + 2 * (count f - 3))) (f (8 + 2 * (count f - 3) + 1))).toNat := by
  rw [octetsFrom_parts some, total_append, total_append, ← Nat.add_assoc]
  rfl

/-- A line whose octets are stored is, as it is read, a record the host accepts. -/
theorem acceptable_of_takes (takes : Takes (k.getD · 0) k.length userRam) :
    Acceptable userRam (zeroed k) (made (k.getD · 0)) := by
  have some := takes.some
  have most := takes.most
  have whole := takes.whole
  have octets := octets_of_length (k := k) (n := count (k.getD · 0) - 3) (by omega)
  have size : (made (k.getD · 0)).data.length = count (k.getD · 0) - 3 := made_data_length
  refine ⟨parse_rstrip.mpr <| holds_fields.mpr ⟨octet (k.getD 2 0) (k.getD 3 0),
    octet (k.getD (8 + 2 * (count (k.getD · 0) - 3)) 0)
      (k.getD (8 + 2 * (count (k.getD · 0) - 3) + 1) 0),
    [octet (k.getD 4 0) (k.getD 5 0), octet (k.getD 6 0) (k.getD 7 0)], ⟨.inl ?_, ?_, octets.count, rfl, octets.address, ?_, ?_, ?_,
    ?_, ?_⟩⟩, rfl, ?_, ?_, ?_, ?_⟩
  · rw [zeroed_getD k (by decide)]
    exact takes.starts.1
  · rw [zeroed_getD k (by decide)]
    exact takes.starts.2
  · rw [bigEndian_two, made_address]
    rfl
  · rw [size]
    exact octets.data
  · rw [size]
    exact octets.check
  · rw [size]
    change count (k.getD · 0) = 2 + (count (k.getD · 0) - 3) + 1
    omega
  · have summed := takes.summed
    rw [octetsFrom_total some] at summed
    rw [← summed, ← Nat.add_assoc, ← Nat.add_assoc]
    rfl
  · rw [size]
    omega
  · rw [size]
    omega
  · rw [made_address]
    exact takes.above
  · rw [made_address, size]
    exact takes.below

theorem takes_of_acceptable (starts : k.getD 0 0 = chr 'S')
    (acceptable : Acceptable userRam (zeroed k) r) :
    Takes (k.getD · 0) k.length userRam ∧ r = made (k.getD · 0) := by
  obtain ⟨n, check, address, fields⟩ := holds_fields.mp acceptable.holds
  obtain ⟨-, s1, some, most, above, below⟩ := acceptable
  have width : address.length = 2 := by
    have known := fields.width
    rw [s1] at known
    exact (Option.some.inj known).symm
  have long := hexByte_inside fields.checkRead
  rw [zeroed_length, width] at long
  have octets := octets_of_length (k := k) (n := r.data.length) (by omega)
  have countIs : n = octet (k.getD 2 0) (k.getD 3 0) :=
    Option.some.inj (fields.countRead.symm.trans octets.count)
  have addressIs : address = _ :=
    Option.some.inj ((width ▸ fields.addressRead).symm.trans octets.address)
  have dataIs : r.data = octetsFrom (k.getD · 0) r.data.length 8 :=
    Option.some.inj ((width ▸ fields.dataRead).symm.trans octets.data)
  have checkIs : check = _ :=
    Option.some.inj ((width ▸ fields.checkRead).symm.trans octets.check)
  have counted : count (k.getD · 0) = r.data.length + 3 := by
    have counted := fields.counted
    rw [countIs, width] at counted
    change count (k.getD · 0) = _ at counted
    omega
  have size : count (k.getD · 0) - 3 = r.data.length := by omega
  have placed : r.address.toNat = (destination (k.getD · 0)).toNat := by
    rw [← fields.number, addressIs, bigEndian_two]
    rfl
  have type : k.getD 1 0 = chr '1' := by
    rw [← zeroed_getD k (by decide), fields.type, s1]
  refine ⟨⟨⟨starts, type⟩, by omega, by omega, by omega, ?_, ?_, ?_⟩, ?_⟩
  · have summed := fields.summed
    have data : (made (k.getD · 0)).data = r.data := by
      rw [made, size]
      exact dataIs.symm
    rw [octetsFrom_total (by omega), data, size, ← summed, addressIs, checkIs, countIs,
      ← Nat.add_assoc, ← Nat.add_assoc]
    rfl
  · rw [← placed]
    exact above
  · rw [← placed, size]
    exact below
  · have addressSame : r.address = (destination (k.getD · 0)).setWidth 32 := by
      apply BitVec.eq_of_toNat_eq
      have small := (destination (k.getD · 0)).isLt
      rw [placed, BitVec.toNat_setWidth]
      omega
    obtain ⟨t, a, d⟩ := r
    dsimp only at s1 addressSame dataIs size
    rw [made, s1, addressSame, size]
    exact congrArg _ dataIs

end Zeroed

/-! A line as it is received and as it is read. -/

/-- The part of a line that reaches the parser: what the buffer holds, up to a 0. -/
def seen (line : List Byte) : List Byte := (line.take 95).takeWhile (· ≠ 0)

/-- The characters that spell the record. -/
def digits (line : List Byte) (r : Record) : List Byte :=
  (line.drop 2).take (2 * (r.data.length + 4))

theorem seen_prefix (line : List Byte) : seen line <+: line :=
  (List.takeWhile_prefix _).trans (List.take_prefix _ _)

theorem seen_getElem? {line : List Byte} {i : Nat} (inside : i < (seen line).length) :
    (seen line)[i]? = (line)[i]? := by
  obtain ⟨rest, split⟩ := seen_prefix line
  conv_rhs => rw [← split]
  exact (List.getElem?_append_left inside).symm

theorem seen_length {line : List Byte} {m : Nat} (fits : m ≤ 95) (long : m ≤ line.length)
    (nonzero : ∀ c ∈ line.take m, c ≠ 0) : m ≤ (seen line).length := by
  have split : line.take 95 = line.take m ++ (line.drop m).take (95 - m) := by
    rw [← List.take_add, Nat.add_sub_cancel' fits]
  rw [seen, split, List.takeWhile_append_of_pos fun c member => decide_eq_true (nonzero c member),
    List.length_append, List.length_take]
  omega

section Digits

variable {userRam : Word} {line : List Byte} {r : Record}

theorem digits_upper (upper : ∀ c ∈ digits line r, upperDigit c) {i : Nat} (late : 2 ≤ i)
    (inside : i < 2 * (r.data.length + 4) + 2) {c : Byte} (here : (line)[i]? = some c) :
    upperDigit c := by
  apply upper c
  apply List.mem_of_getElem? (i := i - 2)
  rw [digits, List.getElem?_take_of_lt (by omega), List.getElem?_drop, Nat.add_sub_cancel' late]
  exact here

/-- Read, a line of upper-case digits is itself. -/
theorem zeroed_same (long : 2 * (r.data.length + 4) + 2 ≤ (seen line).length)
    (upper : ∀ c ∈ digits line r, upperDigit c) {i : Nat}
    (inside : i < 2 * (r.data.length + 4) + 2) : (zeroed (seen line))[i]? = (line)[i]? := by
  by_cases early : i < 2
  · rw [zeroed_early _ early, seen_getElem? (by omega)]
  · rw [zeroed_late _ (Nat.not_lt.mp early), seen_getElem? (by omega)]
    cases here : (line)[i]? with
    | none => rfl
    | some c =>
        exact congrArg some (readAs_upper (digits_upper upper (Nat.not_lt.mp early) inside here))

theorem Acceptable.fields (acceptable : Acceptable userRam line r) :
    ∃ count check address, Fields line r count check address ∧ address.length = 2 := by
  obtain ⟨count, check, address, fields⟩ := holds_fields.mp acceptable.holds
  refine ⟨count, check, address, fields, ?_⟩
  have known := fields.width
  rw [acceptable.s1] at known
  exact (Option.some.inj known).symm

theorem Acceptable.length (acceptable : Acceptable userRam line r) :
    2 * (r.data.length + 4) + 2 ≤ line.length := by
  obtain ⟨count, check, address, fields, width⟩ := acceptable.fields
  have long := hexByte_inside fields.checkRead
  omega

theorem Acceptable.congr {line' : List Byte} (acceptable : Acceptable userRam line r)
    (same : ∀ i < 2 * (r.data.length + 4) + 2, (line)[i]? = line'[i]?) :
    Acceptable userRam line' r := by
  obtain ⟨count, check, address, fields, width⟩ := acceptable.fields
  have getD (i : Nat) (inside : i < 2 * (r.data.length + 4) + 2) :
      line'.getD i 0 = line.getD i 0 := by
    rw [List.getD_eq_getElem?_getD, List.getD_eq_getElem?_getD, same i inside]
  refine { acceptable with
    accepted := parse_rstrip.mpr (holds_fields.mpr ⟨count, check, address, { fields with
      first := ?_, type := ?_, countRead := ?_, addressRead := ?_, dataRead := ?_,
      checkRead := ?_ }⟩) }
  · rw [getD 0 (by omega)]
    exact fields.first
  · rw [getD 1 (by omega)]
    exact fields.type
  · rw [← hexByte_congr (same 2 (by omega)) (same 3 (by omega))]
    exact fields.countRead
  · rw [← readBytes_congr fun i _ before => same i (by omega)]
    exact fields.addressRead
  · rw [← readBytes_congr fun i _ before => same i (by omega)]
    exact fields.dataRead
  · rw [← hexByte_congr (same _ (by omega)) (same _ (by omega))]
    exact fields.checkRead

/-- On a line of upper-case digits the two loaders take the same record. -/
theorem acceptable_zeroed (starts : line.getD 0 0 = chr 'S')
    (upper : ∀ c ∈ digits line r, upperDigit c) :
    Acceptable userRam (zeroed (seen line)) r ↔ Acceptable userRam line r := by
  constructor
  · intro acceptable
    have long := acceptable.length
    rw [zeroed_length] at long
    exact acceptable.congr fun i inside => zeroed_same long upper inside
  · intro acceptable
    have most := acceptable.most
    obtain ⟨count, check, address, fields, -⟩ := acceptable.fields
    have long : 2 * (r.data.length + 4) + 2 ≤ (seen line).length := by
      refine seen_length (by omega) acceptable.length fun c member => ?_
      obtain ⟨i, here⟩ := List.mem_iff_getElem?.mp member
      have inside : i < 2 * (r.data.length + 4) + 2 := by
        by_contra outside
        rw [List.getElem?_take_eq_none (Nat.not_lt.mp outside)] at here
        nomatch here
      rw [List.getElem?_take_of_lt inside] at here
      have value : line.getD i 0 = c := by
        rw [List.getD_eq_getElem?_getD, here]
        rfl
      by_cases late : 2 ≤ i
      · exact upper_nonzero c (digits_upper upper late inside here)
      · rcases (by omega : i = 0 ∨ i = 1) with rfl | rfl
        · rw [← value, starts]
          decide
        · rw [← value, fields.type, acceptable.s1]
          decide
    exact acceptable.congr fun i inside => (zeroed_same long upper inside).symm

theorem nibbles_inj {h l h' l' : Nat} (high : h < 16) (low : l < 16) (high' : h' < 16)
    (low' : l' < 16) (same : BitVec.ofNat 8 (16 * h + l) = BitVec.ofNat 8 (16 * h' + l')) :
    h = h' ∧ l = l' := by
  have values := congrArg BitVec.toNat same
  rw [BitVec.toNat_ofNat, BitVec.toNat_ofNat] at values
  omega

theorem hexByte_parts {s : List Byte} {pos : Nat} {b : Byte} (read : hexByte s pos = some b) :
    ∃ c d h l, s[pos]? = some c ∧ s[pos + 1]? = some d ∧ hexNibble c = some h ∧
      hexNibble d = some l ∧ b = BitVec.ofNat 8 (16 * h + l) := by
  rw [hexByte_eq] at read
  obtain ⟨c, first, read⟩ := Option.bind_eq_some_iff.mp read
  obtain ⟨d, second, read⟩ := Option.bind_eq_some_iff.mp read
  obtain ⟨h, high, read⟩ := Option.bind_eq_some_iff.mp read
  obtain ⟨l, low, same⟩ := Option.map_eq_some_iff.mp read
  exact ⟨c, d, h, l, first, second, high, low, same.symm⟩

/-- Where the line and the line as it is read spell the same byte, the characters are
upper-case digits. -/
theorem upper_of_hexByte {pos : Nat} {b : Byte} (late : 2 ≤ pos)
    (plain : hexByte line pos = some b) (read : hexByte (zeroed (seen line)) pos = some b) :
    (∀ c, (line)[pos]? = some c → upperDigit c) ∧ ∀ c, (line)[pos + 1]? = some c → upperDigit c := by
  have whole := hexByte_inside read
  rw [zeroed_length] at whole
  obtain ⟨c, d, h, l, first, second, high, low, value⟩ := hexByte_parts plain
  obtain ⟨c', d', h', l', first', second', high', low', value'⟩ := hexByte_parts read
  rw [zeroed_late _ late, seen_getElem? (by omega), first] at first'
  rw [zeroed_late _ (by omega), seen_getElem? whole, second] at second'
  cases Option.some.inj first'
  cases Option.some.inj second'
  obtain ⟨rfl, rfl⟩ := nibbles_inj (hexNibble_lt high) (hexNibble_lt low) (hexNibble_lt high')
    (hexNibble_lt low') (value.symm.trans value')
  constructor
  · intro e here
    cases Option.some.inj (first.symm.trans here)
    exact upper_of_same c (high.trans high'.symm)
  · intro e here
    cases Option.some.inj (second.symm.trans here)
    exact upper_of_same d (low.trans low'.symm)

theorem hexByte_of_readBytes {s t : List Byte} {count pos : Nat} {bytes : List Byte}
    (read : readBytes s count pos = some bytes) (read' : readBytes t count pos = some bytes)
    {j : Nat} (inside : j < count) :
    ∃ b, hexByte s (pos + 2 * j) = some b ∧ hexByte t (pos + 2 * j) = some b := by
  induction count generalizing pos bytes j with
  | zero => exact absurd inside (Nat.not_lt_zero j)
  | succ count ih =>
      obtain ⟨b, first, read⟩ := Option.bind_eq_some_iff.mp read
      obtain ⟨rest, later, same⟩ := Option.bind_eq_some_iff.mp read
      obtain ⟨b', first', read'⟩ := Option.bind_eq_some_iff.mp read'
      obtain ⟨rest', later', same'⟩ := Option.bind_eq_some_iff.mp read'
      obtain ⟨rfl, rfl⟩ := List.cons.inj (Option.some.inj (same.trans same'.symm))
      cases j with
      | zero => exact ⟨b, first, first'⟩
      | succ j =>
          have shift : pos + 2 * (j + 1) = pos + 2 + 2 * j := by omega
          rw [shift]
          exact ih later later' (Nat.lt_of_succ_lt_succ inside)

theorem bigEndian_inj {as bs : List Byte} (size : as.length = bs.length)
    (same : bigEndian as = bigEndian bs) : as = bs := by
  induction as using List.reverseRecOn generalizing bs with
  | nil => exact (List.length_eq_zero_iff.mp size.symm).symm
  | append_singleton as a ih =>
      cases bs using List.reverseRecOn with
      | nil => exact absurd size (by simp)
      | append_singleton bs b =>
          have first := a.isLt
          have second := b.isLt
          rw [List.length_append, List.length_append] at size
          rw [bigEndian, bigEndian, List.foldl_append, List.foldl_append] at same
          change 256 * bigEndian as + a.toNat = 256 * bigEndian bs + b.toNat at same
          have front := ih (Nat.add_right_cancel size) (by omega)
          have last : a = b := BitVec.eq_of_toNat_eq (by omega)
          rw [front, last]

/-- A line read right by both loaders has upper-case digits only. -/
theorem upper_of_both (plain : Acceptable userRam line r)
    (read : Acceptable userRam (zeroed (seen line)) r) :
    ∀ c ∈ digits line r, upperDigit c := by
  obtain ⟨n, check, address, fields, width⟩ := plain.fields
  obtain ⟨n', check', address', fields', width'⟩ := read.fields
  have sameCount : n = n' := by
    apply BitVec.eq_of_toNat_eq
    rw [fields.counted, fields'.counted, width, width']
  have sameAddress : address = address' :=
    bigEndian_inj (width.trans width'.symm) (fields.number.trans fields'.number.symm)
  have sameCheck : check = check' := by
    have sum := fields.summed
    have sum' := fields'.summed
    rw [← sameCount, ← sameAddress] at sum'
    have small := check.isLt
    have small' := check'.isLt
    exact BitVec.eq_of_toNat_eq (by omega)
  subst sameCount sameAddress sameCheck
  have whole := stretch_read.mpr
    ⟨fields.countRead, fields.addressRead, fields.dataRead, fields.checkRead⟩
  have whole' := stretch_read.mpr
    ⟨fields'.countRead, fields'.addressRead, fields'.dataRead, fields'.checkRead⟩
  intro c member
  obtain ⟨i, here⟩ := List.mem_iff_getElem?.mp member
  have inside : i < 2 * (r.data.length + 4) := by
    by_contra outside
    rw [digits, List.getElem?_take_eq_none (Nat.not_lt.mp outside)] at here
    nomatch here
  rw [digits, List.getElem?_take_of_lt inside, List.getElem?_drop] at here
  obtain ⟨b, byte, byte'⟩ := hexByte_of_readBytes whole whole' (j := i / 2) (by omega)
  obtain ⟨first, second⟩ := upper_of_hexByte (by omega) byte byte'
  rcases (by omega : 2 + i = 2 + 2 * (i / 2) ∨ 2 + i = 2 + 2 * (i / 2) + 1) with even | odd
  · exact first c (even ▸ here)
  · exact second c (odd ▸ here)

end Digits

/-! The contract, line by line. -/

/-- What is stored for a line is what the host's loader would make of it. -/
structure StoresRight (userRam : Word) (line : List Byte) (stored : List (Nat × Byte)) : Prop where
  taken : ∀ r, Acceptable userRam line r → stored = r.carried
  left : (¬∃ r, Acceptable userRam line r) → stored = []

/-- A record the host takes, with an `s` or a lower-case digit in it. -/
def LowerCase (userRam : Word) (line : List Byte) : Prop :=
  ∃ r, Acceptable userRam line r ∧
    (line.getD 0 0 ≠ chr 'S' ∨ ∃ c ∈ digits line r, upperDigit c = false)

/-- A line that comes out as a record once its characters that are no upper-case digits
are read as 0. -/
def ZeroRead (userRam : Word) (line : List Byte) : Prop :=
  line.getD 0 0 = chr 'S' ∧ ∃ r, Acceptable userRam (zeroed (seen line)) r ∧
    ∃ c ∈ digits line r, upperDigit c = false

theorem Acceptable.isData {userRam : Word} {line : List Byte} {r : Record}
    (acceptable : Acceptable userRam line r) : r.isData = true := by
  rw [Record.isData, acceptable.s1]
  rfl

theorem Acceptable.nonempty {userRam : Word} {line : List Byte} {r : Record}
    (acceptable : Acceptable userRam line r) : r.carried ≠ [] := by
  have some := acceptable.some
  exact carried_nonempty acceptable.isData (by omega)

theorem carried_inj {userRam : Word} {line line' : List Byte} {r r' : Record}
    (acceptable : Acceptable userRam line r) (acceptable' : Acceptable userRam line' r')
    (same : r.carried = r'.carried) : r = r' := by
  obtain ⟨t, a, d⟩ := r
  obtain ⟨t', a', d'⟩ := r'
  have type : t = t' := acceptable.s1.trans acceptable'.s1.symm
  have some := acceptable.some
  have some' := acceptable'.some
  rw [Record.carried, Record.carried, if_pos acceptable.isData, if_pos acceptable'.isData] at same
  dsimp only at same some some'
  have size := congrArg List.length same
  rw [List.length_mapIdx, List.length_mapIdx] at size
  have entry (i : Nat) (inside : i < d.length) (inside' : i < d'.length) :
      (a.toNat + i, d[i]) = (a'.toNat + i, d'[i]) := by
    have both := congrArg (·[i]?) same
    rw [List.getElem?_mapIdx, List.getElem?_mapIdx, List.getElem?_eq_getElem inside,
      List.getElem?_eq_getElem inside'] at both
    exact Option.some.inj both
  have first := congrArg Prod.fst (entry 0 (by omega) (by omega))
  have address : a = a' := BitVec.eq_of_toNat_eq first
  have bytes : d = d' := by
    refine List.ext_getElem size fun i inside inside' => ?_
    exact congrArg Prod.snd (entry i inside inside')
  rw [type, address, bytes]

theorem not_upper {line : List Byte} {r : Record} :
    (¬∃ c ∈ digits line r, upperDigit c = false) ↔ ∀ c ∈ digits line r, upperDigit c := by
  constructor
  · intro none c member
    by_contra lower
    exact none ⟨c, member, Bool.eq_false_iff.mpr lower⟩
  · rintro upper ⟨c, member, lower⟩
    exact Bool.false_ne_true (lower.symm.trans (upper c member))

/-- What is stored is right exactly when neither slip is on the line. -/
theorem storesRight_iff {userRam : Word} {line : List Byte} {stored : List (Nat × Byte)}
    (taken : ∀ r, line.getD 0 0 = chr 'S' → Acceptable userRam (zeroed (seen line)) r →
      stored = r.carried)
    (left : (¬∃ r, line.getD 0 0 = chr 'S' ∧ Acceptable userRam (zeroed (seen line)) r) →
      stored = []) :
    StoresRight userRam line stored ↔ ¬LowerCase userRam line ∧ ¬ZeroRead userRam line := by
  constructor
  · intro right
    constructor
    · rintro ⟨r, acceptable, slip⟩
      have some : ∃ r', line.getD 0 0 = chr 'S' ∧ Acceptable userRam (zeroed (seen line)) r' := by
        by_contra none
        exact acceptable.nonempty ((right.taken r acceptable).symm.trans (left none))
      obtain ⟨r', starts, read⟩ := some
      cases carried_inj acceptable read
        ((right.taken r acceptable).symm.trans (taken r' starts read))
      rcases slip with lower | lower
      · exact lower starts
      · exact not_upper.mpr (upper_of_both acceptable read) lower
    · rintro ⟨starts, r, read, lower⟩
      have some : ∃ r', Acceptable userRam line r' := by
        by_contra none
        exact read.nonempty ((taken r starts read).symm.trans (right.left none))
      obtain ⟨r', acceptable⟩ := some
      cases carried_inj acceptable read
        ((right.taken r' acceptable).symm.trans (taken r starts read))
      exact not_upper.mpr (upper_of_both acceptable read) lower
  · rintro ⟨noLower, noZero⟩
    constructor
    · intro r acceptable
      have starts : line.getD 0 0 = chr 'S' := by
        by_contra lower
        exact noLower ⟨r, acceptable, .inl lower⟩
      have upper := not_upper.mp fun lower => noLower ⟨r, acceptable, .inr lower⟩
      exact taken r starts ((acceptable_zeroed starts upper).mpr acceptable)
    · intro none
      refine left ?_
      rintro ⟨r, starts, read⟩
      have upper := not_upper.mp fun lower => noZero ⟨starts, r, read, lower⟩
      exact none ⟨r, (acceptable_zeroed starts upper).mp read⟩

end Pugputer.Srec

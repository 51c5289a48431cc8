import Pugputer.Srec.Stream

namespace Pugputer.Srec

/-! S-records as ASM and LINK write them, and what the two loaders make of such a file. -/

/-- HEXDIG. -/
def hexdig (a : Byte) : Byte := if a < 10#8 then a + chr '0' else a + 7#8 + chr '0'

/-- SPUTHEX. -/
def sputhex (a : Byte) : List Byte := [hexdig (a >>> 4), hexdig (a &&& 0x0F#8)]

def sumOf (bytes : List Byte) : Byte := bytes.foldl (fun sum a => a + sum) 0#8

/-- The count, the address and the data. -/
def fieldsOf (address : Word) (data : List Byte) : List Byte :=
  (BitVec.ofNat 8 data.length + 3#8) :: hiByte address :: loByte address :: data

/-- A record's line, less its end. -/
def srecord (type : Byte) (address : Word) (data : List Byte) : List Byte :=
  chr 'S' :: type ::
    ((fieldsOf address data).flatMap sputhex ++ sputhex (~~~sumOf (fieldsOf address data)))

/-- SPUTNL after each line. -/
def fileOf (lines : List (List Byte)) : List Byte :=
  lines.flatMap (· ++ [chr '\r', chr '\n'])

/-! A line is a record. -/

structure HexDigits (a : Byte) : Prop where
  high : hexNibble (hexdig (a >>> 4)) = some (a.toNat / 16)
  low : hexNibble (hexdig (a &&& 0x0F#8)) = some (a.toNat % 16)
  upper : upperDigit (hexdig (a >>> 4)) ∧ upperDigit (hexdig (a &&& 0x0F#8))

theorem hexdigits (a : Byte) : HexDigits a := by
  have table : ∀ n : Fin 256, hexNibble (hexdig (BitVec.ofFin n >>> 4)) = some (n.val / 16) ∧
      hexNibble (hexdig (BitVec.ofFin n &&& 0x0F#8)) = some (n.val % 16) ∧
      upperDigit (hexdig (BitVec.ofFin n >>> 4)) ∧ upperDigit (hexdig (BitVec.ofFin n &&& 0x0F#8)) := by
    decide +kernel
  obtain ⟨high, low, upper⟩ := table a.toFin
  exact ⟨high, low, upper⟩

theorem spells_sputhex (bytes : List Byte) : Spells bytes (bytes.flatMap sputhex) := by
  induction bytes with
  | nil => exact .nil
  | cons a bytes ih =>
      have digits := hexdigits a
      have spelled := Spells.cons digits.high digits.low ih
      rw [Nat.div_add_mod, BitVec.ofNat_toNat, BitVec.setWidth_eq] at spelled
      exact spelled

theorem sumOf_total (bytes : List Byte) : (sumOf bytes).toNat = total bytes % 256 := by
  have from_ : ∀ sum : Byte, (bytes.foldl (fun sum a => a + sum) sum).toNat =
      (sum.toNat + total bytes) % 256 := by
    induction bytes with
    | nil => exact fun sum => (Nat.mod_eq_of_lt sum.isLt).symm
    | cons a bytes ih =>
        intro sum
        rw [List.foldl_cons, ih, BitVec.toNat_add, total]
        omega
  rw [sumOf, from_]
  exact congrArg (· % 256) (Nat.zero_add _)

theorem srecord_holds {type : Byte} (two : addrBytes type = some 2) (address : Word)
    {data : List Byte} (short : data.length ≤ 252) :
    Holds (srecord type address data) ⟨type, address.setWidth 32, data⟩ := by
  have count : (BitVec.ofNat 8 data.length + 3#8).toNat = data.length + 3 := by
    rw [BitVec.toNat_add, BitVec.toNat_ofNat]
    change (data.length % 256 + 3) % 256 = _
    omega
  refine ⟨BitVec.ofNat 8 data.length + 3#8, ~~~sumOf (fieldsOf address data), [hiByte address, loByte address], _, [],
    ⟨chr 'S', .inl rfl, congrArg (fun text => chr 'S' :: type :: text) (List.append_nil _).symm⟩, ?_, two,
    ?_, ?_, ?_⟩
  · have spelled := spells_sputhex (fieldsOf address data ++ [~~~sumOf (fieldsOf address data)])
    rw [List.flatMap_append, List.flatMap_singleton] at spelled
    exact spelled
  · rw [BitVec.toNat_setWidth, Nat.mod_eq_of_lt (Nat.lt_trans address.isLt (by decide))]
    have whole := congrArg BitVec.toNat (word_hiByte_loByte address)
    rw [← bigEndian_two] at whole
    exact whole
  · rw [count]
    change data.length + 3 = 2 + data.length + 1
    omega
  · have sum := sumOf_total (fieldsOf address data)
    have parts := total_append (fieldsOf address data) [~~~sumOf (fieldsOf address data)]
    rw [total_single, BitVec.toNat_not, sum] at parts
    have split : total ((BitVec.ofNat 8 data.length + 3#8) ::
        ([hiByte address, loByte address] ++ data ++ [~~~sumOf (fieldsOf address data)])) =
      total (fieldsOf address data ++ [~~~sumOf (fieldsOf address data)]) := rfl
    rw [split, parts]
    omega

/-! The characters of a line. -/

theorem upper_plain {c : Byte} (upper : upperDigit c) : ¬Loader.Ends c ∧ isBlank c = false ∧ c ≠ 0#8 := by
  have table : ∀ n : Fin 256, upperDigit (BitVec.ofFin n) →
      ¬(BitVec.ofFin n = escape ∨ BitVec.ofFin n = chr '\r' ∨ BitVec.ofFin n = chr '.') ∧
        isBlank (BitVec.ofFin n) = false ∧ BitVec.ofFin n ≠ 0#8 := by
    decide +kernel
  exact table c.toFin upper

/-- A line of a record with two bytes of address. -/
structure Written where
  type : Byte
  address : Word
  data : List Byte
  two : addrBytes type = some 2
  digit : upperDigit type
  short : data.length ≤ 252

namespace Written

variable (w : Written)

def line : List Byte := srecord w.type w.address w.data

def record : Record := ⟨w.type, w.address.setWidth 32, w.data⟩

theorem holds : Holds w.line w.record := srecord_holds w.two w.address w.short

theorem address_toNat : w.record.address.toNat = w.address.toNat := by
  rw [record, BitVec.toNat_setWidth]
  exact Nat.mod_eq_of_lt (Nat.lt_trans w.address.isLt (by decide))

theorem sputhex_upper {bytes : List Byte} {c : Byte} (member : c ∈ bytes.flatMap sputhex) :
    upperDigit c := by
  obtain ⟨a, -, digit⟩ := List.mem_flatMap.mp member
  rcases List.mem_cons.mp digit with rfl | second
  · exact (hexdigits a).upper.1
  · rw [List.mem_singleton.mp second]
    exact (hexdigits a).upper.2

theorem digits_upper {c : Byte} (member : c ∈ w.line.drop 1) : upperDigit c := by
  have rest : w.line.drop 1 = w.type :: ((fieldsOf w.address w.data).flatMap sputhex ++
      [~~~sumOf (fieldsOf w.address w.data)].flatMap sputhex) := by
    rw [List.flatMap_singleton]
    rfl
  rw [rest, ← List.flatMap_append] at member
  rcases List.mem_cons.mp member with rfl | digit
  · exact w.digit
  · exact sputhex_upper digit

theorem plain {c : Byte} (member : c ∈ w.line) :
    ¬Loader.Ends c ∧ isBlank c = false ∧ c ≠ 0#8 := by
  rcases List.mem_cons.mp member with rfl | later
  · rw [Loader.Ends]
    decide
  · exact upper_plain (w.digits_upper later)

theorem length_line : w.line.length = 2 * w.data.length + 10 := by
  have fields : (fieldsOf w.address w.data).length = w.data.length + 3 := rfl
  have flat : ∀ bytes : List Byte, (bytes.flatMap sputhex).length = 2 * bytes.length := fun bytes => by
    induction bytes with
    | nil => rfl
    | cons a bytes ih =>
        rw [List.flatMap_cons, List.length_append, ih, List.length_cons]
        change 2 + _ = _
        omega
  rw [line, srecord, List.length_cons, List.length_cons, List.length_append, flat, fields]
  change _ + 2 + 1 + 1 = _
  omega

end Written

/-! The host's loader. -/

theorem getLines_line {line : List Byte} (none : ∀ c ∈ line, c ≠ chr '\n') (rest : List Byte) :
    getLines (line ++ chr '\n' :: rest) = line :: getLines rest := by
  induction line with
  | nil => exact if_pos rfl
  | cons c line ih =>
      obtain ⟨first, later⟩ := List.forall_mem_cons.mp none
      rw [List.cons_append, getLines, if_neg first, ih later]

theorem textLines_fileOf (ws : List Written) :
    textLines (getLines (fileOf (ws.map Written.line))) = ws.map Written.line := by
  induction ws with
  | nil => rfl
  | cons w ws ih =>
      have noLf : ∀ c ∈ w.line ++ [chr '\r'], c ≠ chr '\n' := by
        intro c member
        rcases List.mem_append.mp member with text | last
        · rintro rfl
          have blank := (w.plain text).2.1
          exact absurd blank (by decide)
        · rw [List.mem_singleton.mp last]
          decide
      have split : fileOf ((w :: ws).map Written.line) =
          (w.line ++ [chr '\r']) ++ chr '\n' :: fileOf (ws.map Written.line) := by
        rw [fileOf, List.map_cons, List.flatMap_cons, List.append_assoc, List.append_assoc]
        rfl
      have filled : w.line ≠ [] := List.cons_ne_nil _ _
      have stripped : rstrip (w.line ++ [chr '\r']) = w.line := by
        rw [rstrip, List.rdropWhile_concat_pos isBlank _ _ (by decide), List.rdropWhile_eq_self_iff]
        intro some_
        rw [(w.plain (List.getLast_mem some_)).2.1]
        exact Bool.false_ne_true
      rw [split, getLines_line noLf, Loading.textLines_cons, stripped, if_neg filled, ih, List.map_cons]

/-- The host takes a file whose records end by the memory's end, and does what they say. -/
theorem written_loads (path : String) (ws : List Written) :
    ((loadSrecFile path (some (fileOf (ws.map Written.line))) 0x10000).result.ok = true ↔
      ∀ w ∈ ws, w.record.isData → w.address.toNat + w.data.length ≤ 0x10000) ∧
    ((loadSrecFile path (some (fileOf (ws.map Written.line))) 0x10000).result.ok = true → ∀ mem,
      stored (loadSrecFile path (some (fileOf (ws.map Written.line))) 0x10000).writes mem =
        stored (ws.flatMap (·.record.carried)) mem) := by
  have passes : ∀ w : Written, w.record.Passes 0x10000 ↔
      (w.record.isData → w.address.toNat + w.data.length ≤ 0x10000) := by
    intro w
    have small := w.address.isLt
    have short := w.short
    have ending : w.record.ending = w.address.toNat + w.data.length :=
      congrArg (· + w.data.length) w.address_toNat
    have whole : w.record.ending % 2 ^ 32 = w.record.ending := Nat.mod_eq_of_lt (by omega)
    rw [Record.passes_iff, whole, ending]
    refine ⟨fun fits data => ?_, fun fits data _ => fits data⟩
    by_cases empty : w.data.length = 0
    · omega
    · exact fits data (Nat.pos_of_ne_zero empty)
  have ok := Loading.loadLines_ok path 0x10000 0 {} (getLines (fileOf (ws.map Written.line))) rfl
  rw [textLines_fileOf] at ok
  refine ⟨ok.trans ⟨fun every w member => ?_, fun every line member => ?_⟩, fun done => ?_⟩
  · obtain ⟨r, holds, fits⟩ := every w.line (List.mem_map_of_mem member)
    rw [holds_unique holds w.holds] at fits
    exact (passes w).mp fits
  · obtain ⟨w, inside, rfl⟩ := List.mem_map.mp member
    exact ⟨w.record, w.holds, (passes w).mpr (every w inside)⟩
  · have every := ok.mp done
    obtain ⟨rs, spelled, fits, same⟩ := Loading.loadLines_done path 0x10000 0 {}
      (getLines (fileOf (ws.map Written.line))) (by rw [textLines_fileOf]; exact every)
    rw [textLines_fileOf] at spelled
    have records : rs = ws.map Written.record := by
      clear same fits every done ok
      induction ws generalizing rs with
      | nil => cases spelled; rfl
      | cons w ws ih =>
          cases spelled with
          | cons first later => rw [ih _ later, holds_unique first w.holds, List.map_cons]
    have written : (rs.foldl Loading.carry {}).writes = ws.flatMap (·.record.carried) := by
      rw [foldl_writes, records, List.flatMap_map]
      refine List.flatMap_congr fun w _ => Record.writes_eq ?_
      have small := w.address.isLt
      have short := w.short
      have ending : w.record.ending = w.address.toNat + w.data.length :=
        congrArg (· + w.data.length) w.address_toNat
      omega
    intro mem
    rw [loadSrecFile, same]
    exact congrArg (stored · mem) written

/-! The BIOS's loader, to which each LF is the next line's first character. -/

namespace Written

variable (w : Written)

/-- A data record whose bytes are where programs may be. -/
structure Allowed (userRam : Word) : Prop where
  s1 : w.type = chr '1'
  filled : w.data ≠ []
  above : userRam.toNat ≤ w.address.toNat
  below : w.address.toNat + w.data.length ≤ exeMaxtop

instance (userRam : Word) : Decidable (w.Allowed userRam) :=
  decidable_of_iff (w.type = chr '1' ∧ w.data ≠ [] ∧ userRam.toNat ≤ w.address.toNat ∧
      w.address.toNat + w.data.length ≤ exeMaxtop)
    ⟨fun ⟨s1, filled, above, below⟩ => ⟨s1, filled, above, below⟩,
      fun ⟨s1, filled, above, below⟩ => ⟨s1, filled, above, below⟩⟩

theorem seen_line (few : w.data.length ≤ 37) : zeroed (seen w.line) = w.line := by
  have fits : w.line.length ≤ 95 := by
    rw [w.length_line]
    omega
  have whole : seen w.line = w.line := by
    rw [seen, List.take_of_length_le fits, List.takeWhile_eq_self_iff]
    exact fun c member => decide_eq_true (w.plain member).2.2
  have digits : (w.line.drop 2).map readAs = w.line.drop 2 := by
    refine List.map_congr_left (fun c member => readAs_upper (w.digits_upper ?_)) |>.trans
      (List.map_id _)
    have later : (w.line.drop 1).drop 1 = w.line.drop 2 := List.drop_drop
    rw [← later] at member
    exact List.mem_of_mem_drop member
  rw [whole, zeroed, digits, List.take_append_drop]

theorem acceptable_iff (few : w.data.length ≤ 37) {userRam : Word} {r : Record} :
    Acceptable userRam (zeroed (seen w.line)) r ↔ r = w.record ∧ w.Allowed userRam := by
  have filled : w.line ≠ [] := List.cons_ne_nil _ _
  have stripped : rstrip w.line = w.line := by
    rw [rstrip, List.rdropWhile_eq_self_iff]
    intro some_
    rw [(w.plain (List.getLast_mem some_)).2.1]
    exact Bool.false_ne_true
  rw [w.seen_line few]
  constructor
  · rintro ⟨accepted, s1, long, most, above, below⟩
    rw [stripped] at accepted
    obtain rfl := holds_unique (parseLine_ok.mp accepted) w.holds
    rw [w.address_toNat] at above below
    refine ⟨rfl, s1, fun empty => ?_, above, below⟩
    have none : w.record.data.length = 0 := congrArg List.length empty
    omega
  · rintro ⟨rfl, s1, filled, above, below⟩
    have nonempty : 0 < w.data.length := List.length_pos_iff.mpr filled
    refine ⟨?_, s1, ?_, ?_, ?_, ?_⟩
    · rw [stripped]
      exact parseLine_ok.mpr w.holds
    · exact Nat.add_le_add_right nonempty 3
    · exact Nat.add_le_add_right few 3
    · rw [w.address_toNat]
      exact above
    · rw [w.address_toNat]
      exact below

end Written

namespace Loader

variable {program : Loader → Loader} {s : Loader}

/-- A line after the first is taken with the LF before it, and left. -/
theorem keys_later (start : s.x = 0) (ws : List Written) :
    stores (s.keys program (ws.flatMap fun w => chr '\n' :: w.line ++ [chr '\r'])).log = [] ∧
      (s.keys program (ws.flatMap fun w => chr '\n' :: w.line ++ [chr '\r'])).value.x = 0 := by
  induction ws generalizing s with
  | nil => exact ⟨rfl, start⟩
  | cons w ws ih =>
      have plain : ∀ c ∈ chr '\n' :: w.line, ¬Ends c := by
        refine List.forall_mem_cons.mpr ⟨?_, fun c member => (w.plain member).1⟩
        rw [Ends]
        decide
      have left := (line_stores program start plain).2 (by
        rintro ⟨r, letter, -⟩
        rw [List.getD_cons_zero] at letter
        exact absurd letter (by decide))
      have fresh : (s.keys program (chr '\n' :: w.line ++ [chr '\r'])).value.x = 0 := by
        refine keys_fresh program start fun c last => ?_
        rw [List.getLast?_concat] at last
        exact .inr (.inl (Option.some.inj last).symm)
      obtain ⟨rest, x⟩ := ih fresh
      rw [List.flatMap_cons, keys_append, Logged.value_bind, Logged.log_bind, stores_append, left, rest]
      exact ⟨rfl, x⟩

end Loader

theorem fileOf_cons (w : Written) (ws : List Written) :
    fileOf ((w :: ws).map Written.line) = (w.line ++ [chr '\r']) ++
      (ws.flatMap fun w => chr '\n' :: w.line ++ [chr '\r']) ++ [chr '\n'] := by
  induction ws generalizing w with
  | nil =>
      rw [List.map_cons, List.map_nil, fileOf, List.flatMap_cons, List.flatMap_nil, List.append_nil,
        List.flatMap_nil, List.append_nil, List.append_assoc]
      rfl
  | cons v ws ih =>
      have rest := ih v
      have split : fileOf ((w :: v :: ws).map Written.line) =
          w.line ++ [chr '\r', chr '\n'] ++ fileOf ((v :: ws).map Written.line) := rfl
      rw [split, rest, List.flatMap_cons]
      simp only [List.append_assoc, List.cons_append, List.nil_append]

/-- A record of another type, however long. -/
theorem Written.unacceptable (w : Written) (other : w.type ≠ chr '1') {userRam : Word} {r : Record} :
    ¬Acceptable userRam (zeroed (seen w.line)) r := by
  intro acceptable
  have whole : seen w.line = w.line.take 95 := by
    rw [seen, List.takeWhile_eq_self_iff]
    exact fun c member => decide_eq_true (w.plain (List.mem_of_mem_take member)).2.2
  have letters : (seen w.line).getD 0 0 = chr 'S' ∧ (seen w.line).getD 1 0 = w.type := by
    rw [whole]
    exact ⟨rfl, rfl⟩
  obtain ⟨takes, -⟩ := takes_of_acceptable letters.1 acceptable
  exact other (letters.2.symm.trans takes.starts.2)

/-- Only a first line is ever stored. -/
theorem written_received (program : Loader → Loader) (s : Loader) (w : Written) (ws : List Written)
    (few : w.type = chr '1' → w.data.length ≤ 37) :
    stores (s.loaderStart program (fileOf ((w :: ws).map Written.line))).log =
      if w.Allowed s.userRam then w.record.carried else [] := by
  have plain : ∀ c ∈ w.line, ¬Loader.Ends c := fun c member => (w.plain member).1
  have start : ({ s with x := 0 } : Loader).x = 0 := rfl
  obtain ⟨taken, left⟩ := Loader.line_stores program start plain
  have fresh : (Loader.keys program (w.line ++ [chr '\r']) { s with x := 0 }).value.x = 0 := by
    refine Loader.keys_fresh program start fun c last => ?_
    rw [List.getLast?_concat] at last
    exact .inr (.inl (Option.some.inj last).symm)
  obtain ⟨later, x⟩ := @Loader.keys_later program _ fresh ws
  have lf : ∀ t : Loader, t.x = 0 → stores (t.keys program [chr '\n']).log = [] := by
    intro t start
    have lone : ∀ c ∈ [chr '\n'], ¬Loader.Ends c := fun c member => by
      rw [List.mem_singleton.mp member, Loader.Ends]
      decide
    have empty : Loader.Filled t (List.take 95 ([] : List Byte)) :=
      ⟨start, Nat.zero_le 95, fun _ inside => absurd inside (Nat.not_lt_zero _)⟩
    exact (@Loader.keys_plain program _ _ _ lone empty).1.stores
  have whole : stores (s.loaderStart program (fileOf ((w :: ws).map Written.line))).log =
      stores (Loader.keys program (w.line ++ [chr '\r']) { s with x := 0 }).log := by
    have entered : (Loader.endparse (say msgPrompt s).value).value = { s with x := 0 } := rfl
    rw [Loader.loaderStart, (quiet_say _ s).stores_bind, (Loader.quiet_endparse _).stores_bind, entered,
      fileOf_cons, Loader.keys_append, Loader.keys_append, Logged.log_bind, stores_append,
      Logged.value_bind, lf _ x, Logged.log_bind, stores_append, List.append_nil, later, List.append_nil]
  rw [whole]
  by_cases allowed : w.Allowed s.userRam
  · rw [if_pos allowed]
    exact taken w.record rfl ((w.acceptable_iff (few allowed.s1)).mpr ⟨rfl, allowed⟩)
  · rw [if_neg allowed]
    refine left ?_
    rintro ⟨r, -, acceptable⟩
    by_cases s1 : w.type = chr '1'
    · exact allowed ((w.acceptable_iff (few s1)).mp acceptable).2
    · exact w.unacceptable s1 acceptable

end Pugputer.Srec

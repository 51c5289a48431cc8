import Pugputer.Srec.Bounds
import Pugputer.Srec.Digits

namespace Pugputer.Srec

/-! What the BIOS's loader does with a completed line. -/

/-- The buffers, and memory from USER_RAM up to the ROM. -/
def Effect.Inside : Effect → Prop
  | .linbuf i => i < 96
  | .srecbuf i => i < 40
  | .ram userRam a _ => userRam.toNat ≤ a ∧ a < exeMaxtop
  | .puts _ => True

def Effect.store : Effect → Option (Nat × Byte)
  | .ram _ a v => some (a, v)
  | _ => none

/-- What was stored in memory outside the buffers. -/
def stores (log : List Effect) : List (Nat × Byte) := log.filterMap Effect.store

theorem stores_append (log log' : List Effect) : stores (log ++ log') = stores log ++ stores log' :=
  List.filterMap_append

/-- The computation stores nothing outside the buffers, and nothing past their ends. -/
structure Quiet (x : Acting α) : Prop where
  inside : x.All Effect.Inside
  stores : stores x.log = []

theorem Quiet.pure (a : α) : Quiet (pure a : Acting α) := ⟨(Logged.all_pure a).mpr trivial, rfl⟩

theorem Quiet.bind {x : Acting α} {f : α → Acting β} (first : Quiet x) (next : Quiet (f x.value)) :
    Quiet (x >>= f) := by
  refine ⟨(Logged.all_bind x f).mpr ⟨first.inside, next.inside⟩, ?_⟩
  rw [Logged.log_bind, stores_append, first.stores, next.stores]
  rfl

/-- Something quiet first changes nothing about what is stored after it. -/
theorem Quiet.stores_bind {x : Acting α} (first : Quiet x) (f : α → Acting β) :
    Srec.stores (x >>= f).log = Srec.stores (f x.value).log := by
  rw [Logged.log_bind, stores_append, first.stores]
  rfl

theorem quiet_utPuts (text : List Byte) (s : Loader) : Quiet (utPuts text s) :=
  ⟨(Logged.all_note _ _).mpr trivial, rfl⟩

theorem quiet_say (text : String) (s : Loader) : Quiet (say text s) := quiet_utPuts _ s

namespace Loader

variable {s : Loader}

theorem quiet_storeLin {i : Nat} (inside : i < 96) (v : Byte) (s : Loader) :
    Quiet (s.storeLin i v) :=
  ⟨(Logged.all_note _ _).mpr inside, rfl⟩

theorem quiet_storeRec {i : Nat} (inside : i < 40) (v : Byte) (s : Loader) :
    Quiet (s.storeRec i v) :=
  ⟨(Logged.all_note _ _).mpr inside, rfl⟩

theorem quiet_endparse (s : Loader) : Quiet s.endparse := .pure _

theorem quiet_reject (s : Loader) : Quiet s.reject := (quiet_say _ s).bind (quiet_endparse _)

theorem quiet_sHexa {x : Nat} (inside : x + 1 < 96) (a : Byte) (s : Loader) :
    Quiet (s.sHexa x a) :=
  (quiet_storeLin (by omega) _ s).bind (quiet_storeLin inside _ _)

theorem quiet_badline (s : Loader) : Quiet s.badline :=
  (quiet_sHexa (by decide) _ s).bind <| (quiet_sHexa (by decide) _ _).bind <|
    (quiet_storeLin (by decide) _ _).bind <|
    (quiet_utPuts _ _).bind <| (quiet_say _ _).bind (quiet_endparse _)

/-- OCTLOOP: the octets are in the buffer, and summed; the line is as it was. -/
structure Decoded (s s' : Loader) (x y count : Nat) : Prop where
  linbuf : s'.linbuf = s.linbuf
  userRam : s'.userRam = s.userRam
  srecbc : s'.srecbc = s.srecbc
  srecbuf : ∀ i, s'.srecbuf i =
    if y ≤ i ∧ i < y + count then (octetsFrom s.linbuf count x).getD (i - y) 0 else s.srecbuf i
  srecchk : s'.srecchk = s.srecchk + BitVec.ofNat 8 (total (octetsFrom s.linbuf count x))

theorem octloop_quiet (x y count : Nat) (s : Loader) (inside : y + count ≤ 40) :
    Quiet (s.octloop x y count) := by
  induction count generalizing x y s with
  | zero => exact .pure s
  | succ count ih =>
      rw [octloop]
      exact (quiet_storeRec (by omega) _ _).bind (ih _ _ _ (by omega))

theorem octloop_decoded (x y count : Nat) (s : Loader) :
    Decoded s (s.octloop x y count).value x y count := by
  induction count generalizing x y s with
  | zero =>
      refine ⟨rfl, rfl, rfl, fun i => (if_neg (by omega)).symm, ?_⟩
      exact (BitVec.add_zero _).symm
  | succ count ih =>
      have rest := ih (x + 2) (y + 1) ((s.srecread x).2.storeRec y (s.srecread x).1).value
      refine ⟨rest.linbuf, rest.userRam, rest.srecbc, fun i => ?_, ?_⟩
      · refine (rest.srecbuf i).trans ?_
        rw [octetsFrom]
        by_cases later : y + 1 ≤ i ∧ i < y + 1 + count
        · have shift : i - y = i - (y + 1) + 1 := by omega
          rw [if_pos later, if_pos (by omega), shift, List.getD_cons_succ]
          rfl
        · rw [if_neg later]
          by_cases here : i = y
          · subst here
            rw [if_pos (by omega), Nat.sub_self, List.getD_cons_zero]
            exact Function.update_self _ _ _
          · rw [if_neg (by omega)]
            exact Function.update_of_ne here _ _
      · refine rest.srecchk.trans ?_
        rw [octetsFrom, total, BitVec.ofNat_add, ← BitVec.add_assoc, BitVec.ofNat_toNat,
          BitVec.setWidth_eq]
        congr 1
        exact BitVec.add_comm _ _

/-- XWRLOOP: the bytes go to memory one after the other. -/
theorem xwrloop_log (x y count : Nat) (s : Loader) :
    (s.xwrloop x y count).log =
      (List.range count).map fun i => .ram s.userRam (y + i) (s.srecbuf (x + i)) := by
  induction count generalizing x y s with
  | zero => rfl
  | succ count ih =>
      rw [xwrloop, Logged.log_bind, ih, List.range_succ_eq_map, List.map_cons, List.map_map]
      refine congrArg₂ List.cons rfl (List.map_congr_left fun i _ => ?_)
      rw [Function.comp_apply, Nat.succ_eq_add_one, Nat.add_right_comm x 1 i,
        Nat.add_right_comm y 1 i]
      rfl

end Loader

section Line

variable (f : Nat → Byte)

/-- The byte count as it is read. -/
def count : Nat := (octet (f 2) (f 3)).toNat

def destination : Word := word (octet (f 4) (f 5)) (octet (f 6) (f 7))

/-- The record the line is taken for. -/
def made : Record :=
  ⟨chr '1', (destination f).setWidth 32, octetsFrom f (count f - 3) 8⟩

/-- The line's octets are stored. -/
structure Takes (len : Nat) (userRam : Word) : Prop where
  starts : f 0 = chr 'S' ∧ f 1 = chr '1'
  some : 4 ≤ count f
  most : count f ≤ 40
  whole : 2 * count f + 4 ≤ len
  summed : (count f + total (octetsFrom f (count f) 4)) % 256 = 255
  above : userRam.toNat ≤ (destination f).toNat
  below : (destination f).toNat + (count f - 3) ≤ exeMaxtop

variable {f}

/-- Address, data and checksum follow one another. -/
theorem octetsFrom_parts (some : 4 ≤ count f) :
    octetsFrom f (count f) 4 = [octet (f 4) (f 5), octet (f 6) (f 7)] ++
      (octetsFrom f (count f - 3) 8 ++ octetsFrom f 1 (8 + 2 * (count f - 3))) := by
  have parts : count f = 2 + (count f - 3 + 1) := by omega
  calc
    octetsFrom f (count f) 4 = octetsFrom f (2 + (count f - 3 + 1)) 4 := by rw [← parts]
    _ = octetsFrom f 2 4 ++ octetsFrom f (count f - 3 + 1) (4 + 2 * 2) := octetsFrom_add f 2 _ 4
    _ = _ := congrArg (octetsFrom f 2 4 ++ ·) (octetsFrom_add f (count f - 3) 1 8)

theorem made_address : (made f).address.toNat = (destination f).toNat := by
  have small := (destination f).isLt
  rw [made, BitVec.toNat_setWidth]
  omega

theorem made_data_length : (made f).data.length = count f - 3 := octetsFrom_length f _ 8

end Line

namespace Loader

/-- The state in which the octets are read, after the count. -/
def counted (s : Loader) : Loader :=
  { (srecread { s with srecchk := 0 } 2).2 with srecbc := octet (s.linbuf 2) (s.linbuf 3) }

def decoded (s : Loader) : Loader := (s.counted.octloop 4 0 (count s.linbuf)).value

theorem octets_eq (s : Loader) :
    s.octets =
      if count s.linbuf < 4 then s.counted.reject
      else if 40 < count s.linbuf then s.counted.reject
      else if s.sreclen < 2 * count s.linbuf + 4 then s.counted.reject
      else s.counted.octloop 4 0 (count s.linbuf) >>= fun s =>
        if s.srecchk = 0xFF then s.goodline else s.badline := by
  rfl

theorem decoded_checksum (s : Loader) :
    s.decoded.srecchk = 0xFF ↔
      (count s.linbuf + total (octetsFrom s.linbuf (count s.linbuf) 4)) % 256 = 255 := by
  have start : s.counted.srecchk = octet (s.linbuf 2) (s.linbuf 3) := BitVec.add_zero _
  have read := (octloop_decoded 4 0 (count s.linbuf) s.counted).srecchk
  rw [decoded, read, start, ← BitVec.toNat_inj, BitVec.toNat_add,
    BitVec.toNat_ofNat, count]
  change _ = 255 ↔ _
  have same : s.counted.linbuf = s.linbuf := rfl
  rw [same]
  omega

theorem decoded_srecbuf (s : Loader) {i : Nat} (inside : i < count s.linbuf) :
    s.decoded.srecbuf i = (octetsFrom s.linbuf (count s.linbuf) 4).getD i 0 := by
  have read := (octloop_decoded 4 0 (count s.linbuf) s.counted).srecbuf i
  rw [if_pos (by omega)] at read
  exact read

theorem decoded_destination (s : Loader) (some : 4 ≤ count s.linbuf) :
    word (s.decoded.srecbuf 0) (s.decoded.srecbuf 1) = destination s.linbuf := by
  rw [decoded_srecbuf s (by omega), decoded_srecbuf s (by omega), octetsFrom_parts some]
  rfl

theorem decoded_data (s : Loader) (some : 4 ≤ count s.linbuf) {i : Nat}
    (inside : i < count s.linbuf - 3) :
    s.decoded.srecbuf (2 + i) = (made s.linbuf).data.getD i 0 := by
  rw [decoded_srecbuf s (by omega), octetsFrom_parts some, List.getD_append_right _ _ _ _ (by
      change 2 ≤ 2 + i
      omega),
    List.getD_append _ _ _ _ (by
      rw [octetsFrom_length]
      change 2 + i - 2 < _
      omega)]
  change (octetsFrom s.linbuf _ 8).getD (2 + i - 2) 0 = _
  rw [Nat.add_sub_cancel_left]
  rfl

/-- B less the address and the checksum, as `LEAX B,Y` adds it. -/
theorem ending_toNat {y : Word} {a : Byte} (some : 4 ≤ a.toNat) (most : a.toNat ≤ 40)
    (low : y.toNat < exeMaxtop) :
    (a - 3).toNat = a.toNat - 3 ∧
      (y + (a - 3).signExtend 16).toNat = y.toNat + (a.toNat - 3) := by
  have three : (3 : Byte).toNat = 3 := rfl
  have top : exeMaxtop = 0xF000 := rfl
  have less : (a - 3).toNat = a.toNat - 3 := BitVec.toNat_sub_of_le (BitVec.le_def.mpr (by omega))
  have positive : (a - 3).msb = false := BitVec.msb_eq_false_iff_two_mul_lt.mpr (by omega)
  have extended : ((a - 3).signExtend 16).toNat = a.toNat - 3 := by
    rw [BitVec.signExtend_eq_setWidth_of_msb_false positive, BitVec.toNat_setWidth, less]
    omega
  refine ⟨less, ?_⟩
  rw [BitVec.toNat_add, extended]
  omega

theorem goodline_eq (s : Loader) (some : 4 ≤ count s.linbuf) (most : count s.linbuf ≤ 40) :
    s.decoded.goodline =
      if (destination s.linbuf).toNat < s.userRam.toNat then s.decoded.reject
      else if exeMaxtop ≤ (destination s.linbuf).toNat then s.decoded.reject
      else if exeMaxtop < (destination s.linbuf).toNat + (count s.linbuf - 3) then
        s.decoded.reject
      else s.decoded.xwrloop 2 (destination s.linbuf).toNat (count s.linbuf - 3) >>= endparse := by
  have after := octloop_decoded 4 0 (count s.linbuf) s.counted
  have user : s.decoded.userRam = s.userRam := after.userRam
  have bytes : s.decoded.srecbc = octet (s.linbuf 2) (s.linbuf 3) := after.srecbc
  rw [goodline, decoded_destination s some, user, bytes]
  dsimp only
  by_cases low : (destination s.linbuf).toNat < exeMaxtop
  · obtain ⟨less, ending⟩ := ending_toNat some most low
    rw [less, ending]
    rfl
  · rw [if_pos (Nat.not_lt.mp low), if_pos (Nat.not_lt.mp low)]
    rfl

theorem goodline_quiet (s : Loader) (some : 4 ≤ count s.linbuf) (most : count s.linbuf ≤ 40)
    (outside : ¬(s.userRam.toNat ≤ (destination s.linbuf).toNat ∧
      (destination s.linbuf).toNat + (count s.linbuf - 3) ≤ exeMaxtop)) :
    Quiet s.decoded.goodline := by
  rw [goodline_eq s some most]
  split
  · exact quiet_reject _
  · split
    · exact quiet_reject _
    · split
      · exact quiet_reject _
      · exact absurd ⟨by omega, by omega⟩ outside

theorem goodline_stores (s : Loader) (some : 4 ≤ count s.linbuf) (most : count s.linbuf ≤ 40)
    (above : s.userRam.toNat ≤ (destination s.linbuf).toNat)
    (below : (destination s.linbuf).toNat + (count s.linbuf - 3) ≤ exeMaxtop) :
    s.decoded.goodline.All Effect.Inside ∧
      stores s.decoded.goodline.log = (made s.linbuf).carried := by
  have user : s.decoded.userRam = s.userRam :=
    (octloop_decoded 4 0 (count s.linbuf) s.counted).userRam
  rw [goodline_eq s some most, if_neg (by omega), if_neg (by omega), if_neg (by omega)]
  constructor
  · refine (Logged.all_bind _ _).mpr ⟨?_, (quiet_endparse _).inside⟩
    intro e member
    rw [xwrloop_log, user] at member
    obtain ⟨i, inside, rfl⟩ := List.mem_map.mp member
    have small := List.mem_range.mp inside
    exact ⟨by omega, by omega⟩
  · rw [Logged.log_bind, stores_append, (quiet_endparse _).stores, List.append_nil, xwrloop_log,
      stores, List.filterMap_map]
    have data : (made s.linbuf).isData = true := rfl
    rw [Record.carried, if_pos data, made_address]
    have total : ∀ l : List Nat, l.filterMap (Effect.store ∘ fun i =>
        .ram s.decoded.userRam ((destination s.linbuf).toNat + i) (s.decoded.srecbuf (2 + i))) =
        l.map fun i => ((destination s.linbuf).toNat + i, s.decoded.srecbuf (2 + i)) :=
      congrFun (List.filterMap_eq_map (f := fun i =>
        ((destination s.linbuf).toNat + i, s.decoded.srecbuf (2 + i))))
    rw [total]
    apply List.ext_getElem
    · rw [List.length_map, List.length_range, List.length_mapIdx, made_data_length]
    · intro i _ inData
      rw [List.length_mapIdx, made_data_length] at inData
      rw [List.getElem_map, List.getElem_range, List.getElem_mapIdx,
        decoded_data s some inData, List.getD_eq_getElem]

theorem octets_taken {s : Loader} (takes : Takes s.linbuf s.sreclen s.userRam) :
    s.octets.All Effect.Inside ∧ stores s.octets.log = (made s.linbuf).carried := by
  have read := octloop_quiet 4 0 (count s.linbuf) s.counted (by have := takes.most; omega)
  obtain ⟨inside, stored⟩ := goodline_stores s takes.some takes.most takes.above takes.below
  rw [octets_eq, if_neg (Nat.not_lt.mpr takes.some), if_neg (Nat.not_lt.mpr takes.most),
    if_neg (Nat.not_lt.mpr takes.whole), Logged.all_bind, read.stores_bind]
  change (_ ∧ Logged.All _ (if s.decoded.srecchk = 0xFF then s.decoded.goodline else _)) ∧
    stores (if s.decoded.srecchk = 0xFF then s.decoded.goodline else _ : Acting Loader).log = _
  rw [if_pos ((decoded_checksum s).mpr takes.summed)]
  exact ⟨⟨read.inside, inside⟩, stored⟩

theorem octets_left {s : Loader} (starts : s.linbuf 0 = chr 'S' ∧ s.linbuf 1 = chr '1')
    (left : ¬Takes s.linbuf s.sreclen s.userRam) : Quiet s.octets := by
  rw [octets_eq]
  split
  · exact quiet_reject _
  · next some =>
    split
    · exact quiet_reject _
    · next most =>
      split
      · exact quiet_reject _
      · next whole =>
        refine (octloop_quiet 4 0 _ s.counted (by omega)).bind ?_
        change Quiet (if s.decoded.srecchk = 0xFF then s.decoded.goodline else s.decoded.badline)
        split
        · next summed =>
          refine goodline_quiet s (by omega) (by omega) fun fits => left ?_
          exact ⟨starts, by omega, by omega, by omega, (decoded_checksum s).mp summed, fits.1,
            fits.2⟩
        · exact quiet_badline _

/-- The line so far is in the buffer. -/
structure Filled (s : Loader) (k : List Byte) : Prop where
  x : s.x = k.length
  fits : k.length ≤ 95
  linbuf : ∀ i < k.length, s.linbuf i = k.getD i 0

/-- S_LEN stops at the first 0. -/
theorem sLen_eq {buf : Nat → Byte} {k : List Byte} {x fuel : Nat} (enough : k.length < fuel)
    (same : ∀ i < k.length, buf (x + i) = k.getD i 0) (last : buf (x + k.length) = 0) :
    sLen buf x fuel = some (x + (k.takeWhile (· ≠ 0)).length) := by
  induction k generalizing x fuel with
  | nil =>
      obtain ⟨fuel, rfl⟩ : ∃ n, fuel = n + 1 := ⟨fuel - 1, by
        rw [List.length_nil] at enough
        omega⟩
      exact if_pos last
  | cons c rest ih =>
      rw [List.length_cons] at enough last
      obtain ⟨fuel, rfl⟩ : ∃ n, fuel = n + 1 := ⟨fuel - 1, by omega⟩
      have here : buf x = c := same 0 (Nat.succ_pos _)
      rw [sLen, here]
      by_cases zero : c = 0
      · rw [if_pos zero, List.takeWhile_cons_of_neg (by simpa using zero)]
        rfl
      · rw [if_neg zero, List.takeWhile_cons_of_pos (by simpa using zero), List.length_cons]
        have shift : x + ((rest.takeWhile (· ≠ 0)).length + 1) =
            x + 1 + (rest.takeWhile (· ≠ 0)).length := by omega
        rw [shift]
        refine ih (by omega) (fun i inside => ?_) ?_
        · rw [Nat.add_assoc, Nat.add_comm 1 i]
          exact same (i + 1) (Nat.succ_lt_succ inside)
        · rw [Nat.add_assoc, Nat.add_comm 1]
          exact last

section Completed

variable {s : Loader} {k : List Byte} (filled : Filled s k)

include filled

/-- The line as it is parsed. -/
def ended (s : Loader) (len : Nat) : Loader :=
  { s with linbuf := Function.update s.linbuf s.x 0, sreclen := len }

theorem gotcr_eq :
    s.gotcr = s.storeLin s.x 0 >>= fun _ =>
      let s := s.ended (k.takeWhile (· ≠ 0)).length
      if s.sreclen < 4 then s.endparse
      else if s.linbuf 0 ≠ chr 'S' then s.endparse
      else if s.linbuf 1 = chr '9' then s.gotSeof
      else if s.linbuf 1 ≠ chr '1' then s.endparse
      else s.octets := by
  have length : sLen (Function.update s.linbuf s.x 0) 0 96 =
      some (k.takeWhile (· ≠ 0)).length := by
    rw [sLen_eq (k := k) (Nat.lt_succ_of_le filled.fits), Nat.zero_add]
    · intro i inside
      rw [Nat.zero_add, filled.x, Function.update_of_ne (Nat.ne_of_lt inside)]
      exact filled.linbuf i inside
    · rw [Nat.zero_add, filled.x, Function.update_self]
  rw [gotcr, storeLin]
  simp only [Bind.bind, Logged.note]
  rw [length]
  rfl

theorem ended_linbuf {i : Nat} (inside : i < (k.takeWhile (· ≠ 0)).length) (len : Nat) :
    (s.ended len).linbuf i = (k.takeWhile (· ≠ 0)).getD i 0 := by
  have short := (List.takeWhile_prefix (fun c : Byte => decide (c ≠ 0)) (l := k)).length_le
  obtain ⟨rest, split⟩ := List.takeWhile_prefix (fun c : Byte => decide (c ≠ 0)) (l := k)
  have old : (s.ended len).linbuf i = s.linbuf i :=
    Function.update_of_ne (by rw [filled.x]; omega) _ _
  rw [old, filled.linbuf i (by omega)]
  conv_lhs => rw [← split]
  exact List.getD_append _ _ _ _ inside

theorem gotcr_taken
    (takes : Takes (s.ended (k.takeWhile (· ≠ 0)).length).linbuf (k.takeWhile (· ≠ 0)).length
      s.userRam) :
    s.gotcr.All Effect.Inside ∧ stores s.gotcr.log =
      (made (s.ended (k.takeWhile (· ≠ 0)).length).linbuf).carried := by
  have fits := filled.fits
  have first : Quiet (s.storeLin s.x 0) := quiet_storeLin (by rw [filled.x]; omega) 0 s
  obtain ⟨inside, stored⟩ :=
    octets_taken (s := s.ended (k.takeWhile (· ≠ 0)).length) takes
  have some := takes.some
  have whole := takes.whole
  have notEof : ¬(s.ended (k.takeWhile (· ≠ 0)).length).linbuf 1 = chr '9' := by
    rw [takes.starts.2]
    decide
  have long : ¬(s.ended (k.takeWhile (· ≠ 0)).length).sreclen < 4 := by
    change ¬(k.takeWhile (· ≠ 0)).length < 4
    omega
  rw [gotcr_eq filled, Logged.all_bind, first.stores_bind]
  dsimp only
  rw [if_neg long, if_neg (not_not_intro takes.starts.1), if_neg notEof,
    if_neg (not_not_intro takes.starts.2)]
  exact ⟨⟨first.inside, inside⟩, stored⟩

theorem gotcr_left
    (left : ¬Takes (s.ended (k.takeWhile (· ≠ 0)).length).linbuf (k.takeWhile (· ≠ 0)).length
      s.userRam) : Quiet s.gotcr := by
  have fits := filled.fits
  have first : Quiet (s.storeLin s.x 0) := quiet_storeLin (by rw [filled.x]; omega) 0 s
  rw [gotcr_eq filled]
  refine first.bind ?_
  dsimp only
  split
  · exact quiet_endparse _
  · split
    · exact quiet_endparse _
    · next letter =>
      split
      · exact (quiet_say _ _).bind (quiet_endparse _)
      · split
        · exact quiet_endparse _
        · next type => exact octets_left ⟨not_not.mp letter, not_not.mp type⟩ left

omit filled in
theorem octets_x (s : Loader) : s.octets.value.x = 0 := by
  rw [octets_eq]
  split
  · rfl
  · split
    · rfl
    · split
      · rfl
      · rw [Logged.value_bind]
        split
        · rw [goodline]
          dsimp only
          split
          · rfl
          · split
            · rfl
            · split <;> rfl
        · rfl

theorem gotcr_x : s.gotcr.value.x = 0 := by
  rw [gotcr_eq filled, Logged.value_bind]
  dsimp only
  split
  · rfl
  · split
    · rfl
    · split
      · rfl
      · split
        · rfl
        · exact octets_x _

end Completed

end Loader

/-! The host's loader beside it. -/

/-- The line is an S1 record that the host's loader accepts, of 4 to 40 bytes, that belongs where
programs may be. -/
structure Acceptable (userRam : Word) (line : List Byte) (r : Record) : Prop where
  accepted : parseLine (rstrip line) = .ok r
  s1 : r.type = chr '1'
  some : 4 ≤ r.data.length + 3
  most : r.data.length + 3 ≤ 40
  above : userRam.toNat ≤ r.address.toNat
  below : r.address.toNat + r.data.length ≤ exeMaxtop

theorem octetsFrom_congr {f g : Nat → Byte} {count pos len : Nat} (inside : pos + 2 * count ≤ len)
    (same : ∀ i < len, f i = g i) : octetsFrom f count pos = octetsFrom g count pos := by
  induction count generalizing pos with
  | zero => rfl
  | succ count ih =>
      rw [octetsFrom, octetsFrom, same pos (by omega), same (pos + 1) (by omega), ih (by omega)]

theorem Takes.congr {f g : Nat → Byte} {len : Nat} {userRam : Word}
    (takes : Takes f len userRam) (same : ∀ i < len, f i = g i) :
    Takes g len userRam ∧ made f = made g := by
  obtain ⟨starts, some, most, whole, summed, above, below⟩ := takes
  have sameCount : count f = count g := by
    rw [count, count, same 2 (by omega), same 3 (by omega)]
  have sameDest : destination f = destination g := by
    rw [destination, destination, same 4 (by omega), same 5 (by omega), same 6 (by omega),
      same 7 (by omega)]
  have sameData : octetsFrom f (count f - 3) 8 = octetsFrom g (count g - 3) 8 := by
    rw [← sameCount]
    exact octetsFrom_congr (by omega) same
  have sameAll : octetsFrom f (count f) 4 = octetsFrom g (count g) 4 := by
    rw [← sameCount]
    exact octetsFrom_congr (by omega) same
  refine ⟨⟨?_, ?_, ?_, ?_, ?_, ?_, ?_⟩, ?_⟩
  · rw [← same 0 (by omega), ← same 1 (by omega)]
    exact starts
  · rw [← sameCount]
    exact some
  · rw [← sameCount]
    exact most
  · rw [← sameCount]
    exact whole
  · rw [← sameAll, ← sameCount]
    exact summed
  · rw [← sameDest]
    exact above
  · rw [← sameDest, ← sameCount]
    exact below
  · rw [made, made, sameDest, sameData]

end Pugputer.Srec

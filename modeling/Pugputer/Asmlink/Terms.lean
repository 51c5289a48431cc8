import Pugputer.Asmlink.Tokens

namespace Pugputer.Asmlink

/-! Numbers, in the base they are written in. -/

theorem numacc_eq (n B d : Nat) :
    numacc (BitVec.ofNat 32 n) B d = BitVec.ofNat 32 (n * B + d) := by
  rw [numacc, MUL32_eq, BitVec.ofNat_add, BitVec.ofNat_mul]

/-- More digits after a number. -/
def moreDigits (radix : Nat) (v : Nat) (ds : Chars) : Nat :=
  ds.foldl (fun v d => v * radix + digitval d) v

theorem After.tail_digits {q : Nat} {rest : Chars} (after : After q rest) {B : Nat} (small : B ≤ 16)
    (v : BitVec 32) : radixnum B rest v = (v, rest) := by
  rcases after.head with rfl | ⟨c, tail, rfl, follows⟩
  · rfl
  · have none := (follows_plain c follows).2.2.2.2.1
    rw [radixnum, if_pos (by rw [none]; omega)]

theorem radixnum_digits {B q : Nat} {ds rest : Chars} (small : B ≤ 16)
    (digits : ∀ d ∈ ds, digitval d < B) (after : After q rest) (n : Nat) :
    radixnum B (ds ++ rest) (BitVec.ofNat 32 n) =
      (BitVec.ofNat 32 (moreDigits B n ds), rest) := by
  induction ds generalizing n with
  | nil => exact after.tail_digits small _
  | cons d ds ih =>
      rw [List.cons_append, radixnum, if_neg (Nat.not_le.mpr (digits d List.mem_cons_self)),
        numacc_eq, ih fun d member => digits d (List.mem_cons_of_mem _ member)]
      rfl

theorem ptRadix_digits {B q : Nat} {ds rest : Chars} (small : B ≤ 16) (some : ds ≠ [])
    (digits : ∀ d ∈ ds, digitval d < B) (after : After q rest) (c : Byte) (p : Parser) :
    ptRadix B (c :: (ds ++ rest)) p =
      { p with EVAL := BitVec.ofNat 32 (moreDigits B 0 ds) }.done rest := by
  cases ds with
  | nil => exact absurd rfl some
  | cons d ds =>
      have first := digits d List.mem_cons_self
      have plus : d ≠ ch '-' := by
        rintro rfl
        have none : digitval (ch '-') = 99 := by decide
        omega
      have number := radixnum_digits small digits after 0
      rw [ptRadix, leax_one, Option.bind_some, List.cons_append, peek_zero, Option.bind_some]
      rw [List.cons_append] at number
      dsimp only
      rw [decide_eq_false plus, if_neg Bool.false_ne_true, Option.bind_some, peek_zero,
        Option.bind_some, if_neg (Nat.not_le.mpr first), number]
      rfl

/-! A number without a prefix is tried in every base. -/

def pnStep (c : Byte) (n : Number) : Number :=
  let n := if n.NUMBIN then { n with NUMBIN := false, isbin := false } else n
  pnDigit (digitval c) (if upcase c = ch 'B' && n.isbin then
    { n with NUMBIN := true, isbin := true, isoct := false, isdec := false, ishex := true } else n)

theorem pnDigit_hex (d : Nat) (n : Number) (hex : n.ishex = true) :
    (pnDigit d n).ishex = true ∧ (pnDigit d n).hex = numacc n.hex 16 d := by
  rw [pnDigit, if_pos hex]
  repeat' split
  all_goals exact ⟨hex, rfl⟩

theorem pnStep_hex {n : Number} (c : Byte) (hex : n.ishex = true) :
    (pnStep c n).ishex = true ∧ (pnStep c n).hex = numacc n.hex 16 (digitval c) := by
  rw [pnStep]
  split <;> split <;> exact pnDigit_hex _ _ (by first | exact hex | rfl)

theorem pnLoop_digit {c : Byte} {X : Chars} {n : Number} (digit : digitval c < 16)
    (hex : n.ishex = true) : pnLoop (c :: X) n = pnLoop X (pnStep c n) := by
  obtain ⟨num, notQ, notO, notH, same, -⟩ := hex_digit c digit
  have still := (pnStep_hex c hex).1
  rw [pnLoop]
  dsimp only
  rw [num, if_neg (by rintro ⟨⟩), if_neg (not_or.mpr ⟨notQ, notO⟩), if_neg notH, same]
  refine if_neg ?_
  have shown : (pnStep c n).ishex = true := still
  rw [pnStep] at shown
  rw [shown, Bool.or_true]
  exact Bool.false_ne_true

theorem pn_fold {P : Nat → Number → Prop} {B v : Nat} {ds X : Chars} {n : Number} (small : B ≤ 16)
    (hex : ∀ v n, P v n → n.ishex = true)
    (step : ∀ v n c, digitval c < B → P v n → P (v * B + digitval c) (pnStep c n))
    (start : P v n) (digits : ∀ d ∈ ds, digitval d < B) :
    ∃ m, pnLoop (ds ++ X) n = pnLoop X m ∧ P (moreDigits B v ds) m := by
  induction ds generalizing v n with
  | nil => exact ⟨n, rfl, start⟩
  | cons d ds ih =>
      have digit := digits d List.mem_cons_self
      rw [List.cons_append, pnLoop_digit (Nat.lt_of_lt_of_le digit small) (hex v n start)]
      exact ih (step v n d digit start) fun d member => digits d (List.mem_cons_of_mem _ member)

theorem pnStep_plain {c : Byte} {n : Number} (digit : digitval c < 10) (none : n.NUMBIN = false) :
    pnStep c n = pnDigit (digitval c) n := by
  have notB : upcase c ≠ ch 'B' := fun same => by
    have eleven := (hex_digit c (by omega)).2.2.2.2.2.mp same
    omega
  simp only [pnStep, none, notB, decide_false, Bool.false_and, Bool.false_eq_true, if_false]

/-- The hex number so far. -/
def InHex (v : Nat) (n : Number) : Prop := n.ishex = true ∧ n.hex = BitVec.ofNat 32 v

/-- The decimal number so far, and there was no B. -/
def InDec (v : Nat) (n : Number) : Prop :=
  n.ishex = true ∧ n.NUMBIN = false ∧ n.isdec = true ∧ n.dec = BitVec.ofNat 32 v

def InOct (v : Nat) (n : Number) : Prop :=
  n.ishex = true ∧ n.NUMBIN = false ∧ n.isoct = true ∧ n.oct = BitVec.ofNat 32 v

def InBin (v : Nat) (n : Number) : Prop :=
  n.ishex = true ∧ n.NUMBIN = false ∧ n.isbin = true ∧ n.bin = BitVec.ofNat 32 v

theorem InHex.step (v : Nat) (n : Number) (c : Byte) (_ : digitval c < 16) (inHex : InHex v n) :
    InHex (v * 16 + digitval c) (pnStep c n) := by
  obtain ⟨hex, value⟩ := inHex
  obtain ⟨still, more⟩ := pnStep_hex c hex
  exact ⟨still, by rw [more, value, numacc_eq]⟩

theorem InDec.step (v : Nat) (n : Number) (c : Byte) (digit : digitval c < 10) (inDec : InDec v n) :
    InDec (v * 10 + digitval c) (pnStep c n) := by
  obtain ⟨hex, none, dec, value⟩ := inDec
  have few : ¬9 < digitval c := by omega
  rw [pnStep_plain digit none, InDec, ← numacc_eq, ← value, pnDigit]
  simp only [hex, dec, few, none, if_true, Bool.not_true, if_false, Bool.false_eq_true]
  repeat' split
  all_goals exact ⟨rfl, rfl, rfl, rfl⟩

theorem InOct.step (v : Nat) (n : Number) (c : Byte) (digit : digitval c < 8) (inOct : InOct v n) :
    InOct (v * 8 + digitval c) (pnStep c n) := by
  obtain ⟨hex, none, oct, value⟩ := inOct
  have few : ¬7 < digitval c := by omega
  have few' : ¬9 < digitval c := by omega
  rw [pnStep_plain (by omega) none, InOct, ← numacc_eq, ← value, pnDigit]
  cases dec : n.isdec with
  | true =>
      simp only [hex, oct, few, few', none, if_true, Bool.not_true, if_false,
        Bool.false_eq_true]
      repeat' split
      all_goals exact ⟨rfl, rfl, rfl, rfl⟩
  | false =>
      simp only [hex, oct, few, none, if_true, Bool.not_true, Bool.not_false, if_false,
        Bool.false_eq_true]
      repeat' split
      all_goals exact ⟨rfl, rfl, rfl, rfl⟩

theorem InBin.step (v : Nat) (n : Number) (c : Byte) (digit : digitval c < 2) (inBin : InBin v n) :
    InBin (v * 2 + digitval c) (pnStep c n) := by
  obtain ⟨hex, none, bin, value⟩ := inBin
  have few : ¬1 < digitval c := by omega
  have few' : ¬7 < digitval c := by omega
  have few'' : ¬9 < digitval c := by omega
  rw [pnStep_plain (by omega) none, InBin, ← numacc_eq, ← value, pnDigit]
  cases dec : n.isdec <;> cases oct : n.isoct <;>
    simp only [hex, bin, few, few', few'', none, if_true, Bool.not_true, Bool.not_false,
      if_false, Bool.false_eq_true, and_self]

/-! The ends of numbers. -/

theorem After.number_ends {q : Nat} {rest : Chars} (after : After q rest) (n : Number) :
    pnLoop rest n =
      if n.NUMBIN then some (n.bin, rest) else if n.isdec then some (n.dec, rest) else none := by
  rcases after.head with rfl | ⟨c, tail, rfl, follows⟩
  · rw [pnLoop]
  · have other := (follows_plain c follows).2.2.2.2.2
    rw [pnLoop, other]
    rfl

theorem number_H {n : Number} (hex : n.ishex = true) {c : Byte} (suffix : upcase c = ch 'H')
    (X : Chars) : pnLoop (c :: X) n = some (n.hex, X) := by
  have num : isnumch (ch 'H') = true := by decide
  have other : ¬(ch 'H' = ch 'Q' ∨ ch 'H' = ch 'O') := by decide
  rw [pnLoop, suffix]
  dsimp only
  rw [num, if_neg (by rintro ⟨⟩), if_neg other, if_pos rfl]
  cases n.NUMBIN with
  | true => exact if_pos hex
  | false => exact if_pos hex

theorem number_O {n : Number} (oct : n.isoct = true) (none : n.NUMBIN = false) {c : Byte}
    (suffix : upcase c = ch 'Q' ∨ upcase c = ch 'O') (X : Chars) :
    pnLoop (c :: X) n = some (n.oct, X) := by
  have num : isnumch (upcase c) = true := by
    rcases suffix with same | same <;> rw [same] <;> decide
  rw [pnLoop]
  dsimp only
  rw [num, if_neg (by rintro ⟨⟩), if_pos suffix, none]
  exact if_pos oct

theorem number_B {q : Nat} {rest : Chars} (after : After q rest) {n : Number}
    (hex : n.ishex = true) (bin : n.isbin = true) (none : n.NUMBIN = false) {c : Byte}
    (suffix : upcase c = ch 'B') : pnLoop (c :: rest) n = some (n.bin, rest) := by
  have digit := letter_B c suffix
  have step : (pnStep c n).NUMBIN = true ∧ (pnStep c n).bin = n.bin := by
    have B : (if n.NUMBIN then { n with NUMBIN := false, isbin := false } else n) = n := by
      rw [none]
      rfl
    rw [pnStep, B, digit, suffix, bin]
    exact ⟨rfl, rfl⟩
  rw [pnLoop_digit (by omega) hex, after.number_ends, step.1, if_pos rfl, step.2]

theorem start_number : InHex 0 {} ∧ InDec 0 {} ∧ InOct 0 {} ∧ InBin 0 {} :=
  ⟨⟨rfl, rfl⟩, ⟨rfl, rfl, rfl, rfl⟩, ⟨rfl, rfl, rfl, rfl⟩, ⟨rfl, rfl, rfl, rfl⟩⟩

/-- A number that has no prefix. -/
def Literal.bare : Literal → Bool
  | dec _ | suffixH _ _ _ | suffixB _ _ | suffixO _ _ | suffixQ _ _ => true
  | _ => false

theorem pnLoop_literal {q : Nat} {rest : Chars} (after : After q rest) {l : Literal}
    (bare : l.bare = true) : pnLoop (l.text ++ rest) {} = some (BitVec.ofNat 32 l.value, rest) := by
  obtain ⟨inHex, inDec, inOct, inBin⟩ := start_number
  cases l with
  | dec ds =>
      obtain ⟨n, digits, -, none, dec, value⟩ :=
        pn_fold (X := rest) (by decide) (fun _ _ inDec => inDec.1) InDec.step inDec ds.2.2
      rw [Literal.text, digits, after.number_ends, none, if_neg Bool.false_ne_true, if_pos dec, value]
      rfl
  | suffixH ds first upper =>
      obtain ⟨n, digits, hex, value⟩ := pn_fold (X := (if upper then ch 'H' else ch 'h') :: rest)
        (by decide) (fun _ _ inHex => inHex.1) InHex.step inHex ds.2.2
      rw [Literal.text, List.append_assoc, List.singleton_append, digits,
        number_H hex (by cases upper <;> decide), value]
      rfl
  | suffixB ds upper =>
      obtain ⟨n, digits, hex, none, bin, value⟩ :=
        pn_fold (X := (if upper then ch 'B' else ch 'b') :: rest)
          (by decide) (fun _ _ inBin => inBin.1) InBin.step inBin ds.2.2
      rw [Literal.text, List.append_assoc, List.singleton_append, digits,
        number_B after hex bin none (by cases upper <;> decide), value]
      rfl
  | suffixO ds upper =>
      obtain ⟨n, digits, -, none, oct, value⟩ :=
        pn_fold (X := (if upper then ch 'O' else ch 'o') :: rest)
          (by decide) (fun _ _ inOct => inOct.1) InOct.step inOct ds.2.2
      rw [Literal.text, List.append_assoc, List.singleton_append, digits,
        number_O oct none (by cases upper <;> decide), value]
      rfl
  | suffixQ ds upper =>
      obtain ⟨n, digits, -, none, oct, value⟩ :=
        pn_fold (X := (if upper then ch 'Q' else ch 'q') :: rest)
          (by decide) (fun _ _ inOct => inOct.1) InOct.step inOct ds.2.2
      rw [Literal.text, List.append_assoc, List.singleton_append, digits,
        number_O oct none (by cases upper <;> decide), value]
      rfl
  | _ => cases bare

/-! Symbols. -/

theorem After.sym {q : Nat} {rest : Chars} (after : After q rest) :
    rest.takeWhile issym = [] ∧ rest.dropWhile issym = rest := by
  rcases after.head with rfl | ⟨c, tail, rfl, follows⟩
  · exact ⟨rfl, rfl⟩
  · have none := (follows_plain c follows).1
    rw [List.takeWhile_cons_of_neg (by rw [none]; exact Bool.false_ne_true),
      List.dropWhile_cons_of_neg (by rw [none]; exact Bool.false_ne_true)]
    exact ⟨rfl, rfl⟩

end Pugputer.Asmlink

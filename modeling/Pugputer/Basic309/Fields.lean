import Pugputer.Dos.Saved

namespace Pugputer.Basic309

open Dos

/-! INPUT #, LINE INPUT # and EOF on a file that is open for input. -/

def lbufmx : Nat := 250

def space : Byte := 0x20#8
def quote : Byte := 0x22#8
def comma : Byte := 0x2C#8

inductive Trouble where
  /-- INPUT PAST END -/
  | ie
  /-- BAD FILE DATA -/
  | fd
  /-- What never ends. -/
  | hangs
  deriving DecidableEq

section

variable (g : Geometry)

/-- FI_GETC; the carry is set where there is nothing. -/
def fiGetc (s : Open) : Option Byte × Open :=
  match fileGetbyte g s with
  | (.ok a, s) => (some a, s)
  | (.error _, s) => (none, s)

/-- The low 16 bits of the size, and of the position. -/
def fstatxy (s : Open) : Word × Word := (s.slot.size.setWidth 16, s.slot.pos.setWidth 16)

/-- FI_STORE, to a text that starts at LINBUF+1. -/
def fiStore (text : List Byte) (a : Byte) : List Byte :=
  if lbufmx - 1 ≤ text.length + 1 then text else text ++ [a]

/-- B_FSEEK_NAME from the file's start, to a position of 16 bits. -/
def seekSet (y : Word) (s : Open) : Open := { s with slot := { s.slot with pos := y.setWidth 32 } }

def fiCr (s : Open) : Open :=
  match fiGetc g s with
  | (none, s) => s
  | (some a, s) => if a = lf then s else seekSet ((fstatxy s).2 - 1#16) s

/-- FI_SKIP, to the first character of an item. -/
def fiSkip : (fuel : Nat) → Open → Except Trouble Byte × Open
  | 0, s => (.error .hangs, s)
  | fuel + 1, s =>
      match fiGetc g s with
      | (none, s) => (.error .ie, s)
      | (some a, s) => if a = space ∨ a = cr ∨ a = lf then fiSkip fuel s else (.ok a, s)

def fiPloop : (fuel : Nat) → Byte → List Byte → Open → Except Trouble (List Byte) × Open
  | 0, _, _, s => (.error .hangs, s)
  | fuel + 1, a, text, s =>
      if a = comma then (.ok text, s)
      else if a = cr then (.ok text, fiCr g s)
      else if a = lf then (.ok text, s)
      else
        match fiGetc g s with
        | (none, s) => (.ok (fiStore text a), s)
        | (some b, s) => fiPloop fuel b (fiStore text a) s

/-- FI_QTAIL: what is left up to the terminator. -/
def fiQtail : (fuel : Nat) → List Byte → Open → Except Trouble (List Byte) × Open
  | 0, _, s => (.error .hangs, s)
  | fuel + 1, text, s =>
      match fiGetc g s with
      | (none, s) => (.ok text, s)
      | (some a, s) =>
          if a = comma then (.ok text, s)
          else if a = cr then (.ok text, fiCr g s)
          else if a = lf then (.ok text, s)
          else fiQtail fuel text s

def fiQloop : (fuel : Nat) → List Byte → Open → Except Trouble (List Byte) × Open
  | 0, _, s => (.error .hangs, s)
  | fuel + 1, text, s =>
      match fiGetc g s with
      | (none, s) => (.ok text, s)
      | (some a, s) =>
          if a = quote then fiQtail g fuel (fiStore text a) s else fiQloop fuel (fiStore text a) s

/-- FILEITEM: what LINBUF+1 has, up to its NUL. -/
def fileitem (s : Open) : Except Trouble (List Byte) × Open :=
  let fuel := s.slot.size.toNat + 1
  match fiSkip g fuel s with
  | (.error e, s) => (.error e, s)
  | (.ok a, s) =>
      if a = comma then (.ok [], s)
      else if a = quote then fiQloop g fuel (fiStore [] a) s
      else fiPloop g fuel a [] s

def fileline (s : Open) : Except Trouble (List Byte) × Open :=
  if (fstatxy s).2 < (fstatxy s).1 then
    let (line, s) := rlLoop g (lbufmx - 1) s
    (.ok line, s)
  else (.error .ie, s)

/-- EOFFN, of a file open for input. -/
def eoffn (s : Open) : Bool := !decide ((fstatxy s).2 < (fstatxy s).1)

/-- LB51E from X+1 on: a string, and what is in memory from its end on. -/
def lb51e (charac endchr : Byte) : List Byte → List Byte × List Byte
  | [] => ([], [])
  | a :: rest =>
      if a = 0#8 ∨ a = charac ∨ a = endchr then ([], if a = quote then rest else a :: rest)
      else (a :: (lb51e charac endchr rest).1, (lb51e charac endchr rest).2)

def isSpace (a : Byte) : Bool := a = space

/-- LB069 of a string variable, from a comma on. -/
def lb069 (buffer : List Byte) : List Byte × List Byte :=
  match buffer.tail.dropWhile isSpace with
  | [] => ([], [])
  | a :: rest => if a = quote then lb51e quote quote rest else lb51e 0#8 comma (a :: rest)

/-- What LB069 starts from, and the text that came from the file for it; `dattmp` is what DATTMP
points to. -/
def fetch (dattmp : List Byte) (s : Open) :
    Except Trouble (List Byte × List (List Byte)) × Open :=
  if dattmp.head? = some 0#8 then
    match fileitem g s with
    | (.ok text, s) => (.ok (comma :: text ++ [0#8], [text]), s)
    | (.error e, s) => (.error e, s)
  else (.ok (dattmp, []), s)

/-- LBD12, from a character on: a number, and what is in memory from its end on. -/
structure Numbers (α : Type) where
  lbd12 : List Byte → α × List Byte
  zero : α
  suffix (buffer : List Byte) : (lbd12 buffer).2 <:+ buffer
  quoted (rest : List Byte) : lbd12 (quote :: rest) = (zero, quote :: rest)

inductive Var where
  | string
  | number

inductive Value (α : Type) where
  | string (text : List Byte)
  | number (value : α)

variable {α : Type} (numbers : Numbers α)

/-- LB069 of a variable. -/
def Var.item (buffer : List Byte) : Var → Value α × List Byte
  | .string => (.string (lb069 buffer).1, (lb069 buffer).2)
  | .number =>
      let read := numbers.lbd12 (buffer.tail.dropWhile isSpace)
      (.number read.1, read.2)

/-- LB04E to LB0D5: what the variables get, and each text put in LINBUF+1. -/
def lb04e : List Var → (dattmp : List Byte) → Open →
    (List (Value α) × List (List Byte) × Option Trouble) × Open
  | [], _, s => (([], [], none), s)
  | var :: vars, dattmp, s =>
      match fetch g dattmp s with
      | (.error e, s) => (([], [], some e), s)
      | (.ok (buffer, texts), s) =>
          let (value, left) := var.item numbers buffer
          if left.head? = some 0#8 ∨ left.head? = some comma then
            let ((values, more, trouble), s) := lb04e vars left s
            ((value :: values, texts ++ more, trouble), s)
          else (([value], texts, some .fd), s)

end

/-! The fields of a file's content. -/

def blank (a : Byte) : Bool := a = space || a = cr || a = lf

def goesOn (a : Byte) : Bool := !(a = comma || a = cr || a = lf)

/-- What comes after the terminator that is first. -/
def past : List Byte → List Byte
  | [] => []
  | a :: rest => if a = cr then (if rest.head? = some lf then rest.tail else rest) else rest

def unquoted (a : Byte) : Bool := a ≠ quote

def notNul (a : Byte) : Bool := a ≠ 0#8

/-- A quoted field's text is between its quotes. -/
structure Field where
  quoted : Bool
  text : List Byte
  rest : List Byte

/-- The next field of what is left. -/
def field (left : List Byte) : Option Field :=
  match left.dropWhile blank with
  | [] => none
  | a :: rest =>
      if a = quote then
        some ⟨true, rest.takeWhile unquoted, past ((rest.dropWhile unquoted).tail.dropWhile goesOn)⟩
      else some ⟨false, (a :: rest).takeWhile goesOn, past ((a :: rest).dropWhile goesOn)⟩

/-- What there is room for in LINBUF, up to a NUL. -/
def Field.value (f : Field) : List Byte :=
  (f.text.take (if f.quoted then 247 else 248)).takeWhile notNul

/-- The rest of a line, or 249 characters of it. -/
def lineOf : (most : Nat) → List Byte → List Byte × List Byte
  | 0, left => ([], left)
  | _ + 1, [] => ([], [])
  | most + 1, a :: rest =>
      if a = cr then ([], if rest.head? = some lf then rest.tail else rest)
      else if a = lf then ([], rest)
      else (a :: (lineOf most rest).1, (lineOf most rest).2)

/-! Each routine of the code, by the content that is left. -/

section

variable {g : Geometry} {clusters : List Word} {content left : List Byte} {s : Open} {a : Byte}

theorem fiGetc_none (open_ : Left g clusters content s []) : fiGetc g s = (none, s) := by
  rw [fiGetc, open_.done]

theorem fiGetc_some (volume : Volume g) (open_ : Left g clusters content s (a :: left)) :
    ∃ s', fiGetc g s = (some a, s') ∧ Left g clusters content s' left ∧
      s'.slot.pos.toNat = s.slot.pos.toNat + 1 := by
  obtain ⟨s', got, open', pos⟩ := open_.getbyte volume
  exact ⟨s', by rw [fiGetc, got], open', pos⟩

theorem fiCr_left (volume : Volume g) (small : content.length < 0x10000)
    (open_ : Left g clusters content s left) :
    Left g clusters content (fiCr g s) (if left.head? = some lf then left.tail else left) := by
  rw [fiCr]
  cases left with
  | nil =>
      rw [fiGetc_none open_]
      exact open_
  | cons a left =>
      obtain ⟨s', got, open', pos⟩ := fiGetc_some volume open_
      rw [got, List.head?_cons, List.tail_cons]
      dsimp only
      by_cases follows : a = lf
      · rw [if_pos follows, if_pos (congrArg some follows)]
        exact open'
      · rw [if_neg follows, if_neg fun same => follows (Option.some.inj same)]
        have within := open'.within
        have back : (((fstatxy s').2 - 1#16).setWidth 32).toNat = s.slot.pos.toNat := by
          rw [BitVec.toNat_setWidth, BitVec.toNat_sub, fstatxy, BitVec.toNat_setWidth, pos]
          change (65536 - 1 + (s.slot.pos.toNat + 1) % 65536) % 65536 % 4294967296 = _
          omega
        refine ⟨open'.holds.seek _, open'.reads, open'.inuse, ?_, ?_⟩
        · dsimp only [seekSet]
          rw [back]
          exact open_.within
        · dsimp only [seekSet]
          rw [back]
          exact open_.rest

theorem fiSkip_left (volume : Volume g) {fuel : Nat} (enough : left.length < fuel)
    (open_ : Left g clusters content s left) :
    match left.dropWhile blank with
    | [] => ∃ s', fiSkip g fuel s = (.error .ie, s') ∧ Left g clusters content s' []
    | a :: rest => ∃ s', fiSkip g fuel s = (.ok a, s') ∧ Left g clusters content s' rest := by
  induction left generalizing s fuel with
  | nil =>
      cases fuel with
      | zero => exact absurd enough (Nat.not_lt_zero _)
      | succ fuel => exact ⟨s, by rw [fiSkip, fiGetc_none open_], open_⟩
  | cons a left ih =>
      cases fuel with
      | zero => exact absurd enough (Nat.not_lt_zero _)
      | succ fuel =>
          obtain ⟨s', got, open', -⟩ := fiGetc_some volume open_
          rw [fiSkip, got]
          dsimp only
          by_cases skipped : a = space ∨ a = cr ∨ a = lf
          · have blank_ : blank a = true := by
              rw [blank, Bool.or_eq_true, Bool.or_eq_true, or_assoc]
              exact skipped.imp decide_eq_true (Or.imp decide_eq_true decide_eq_true)
            rw [if_pos skipped, List.dropWhile_cons_of_pos blank_]
            exact ih (Nat.lt_of_succ_lt_succ enough) open'
          · have filled : ¬blank a = true := by
              rw [blank, Bool.or_eq_true, Bool.or_eq_true, or_assoc]
              exact fun all => skipped (all.imp of_decide_eq_true (Or.imp of_decide_eq_true of_decide_eq_true))
            rw [if_neg skipped, List.dropWhile_cons_of_neg filled]
            exact ⟨s', rfl, open'⟩

theorem fiStore_take (seen : List Byte) (a : Byte) :
    fiStore (seen.take 248) a = (seen ++ [a]).take 248 := by
  have length := @List.length_take _ 248 seen
  rw [fiStore, lbufmx]
  by_cases full : 248 ≤ seen.length
  · rw [if_pos (by omega), List.take_append_of_le_length full]
  · have short : (seen ++ [a]).length ≤ 248 := by
      rw [List.length_append, List.length_singleton]
      omega
    rw [if_neg (by omega), List.take_of_length_le (by omega), List.take_of_length_le short]

theorem goesOn_iff : goesOn a = true ↔ ¬(a = comma ∨ a = cr ∨ a = lf) := by
  rw [goesOn, Bool.not_eq_true', ← Bool.not_eq_true, Bool.or_eq_true, Bool.or_eq_true, or_assoc,
    decide_eq_true_iff, decide_eq_true_iff, decide_eq_true_iff]

/-- The three ways a field's terminator is taken. -/
theorem terminated (volume : Volume g) (small : content.length < 0x10000)
    (ended : a = comma ∨ a = cr ∨ a = lf) (text : List Byte)
    (other : Except Trouble (List Byte) × Open) (open_ : Left g clusters content s left) :
    ∃ s', (if a = comma then (.ok text, s)
        else if a = cr then (.ok text, fiCr g s)
        else if a = lf then (.ok text, s)
        else other) = (.ok text, s') ∧
      Left g clusters content s' (past ((a :: left).dropWhile goesOn)) := by
  have closed : ¬goesOn a = true := fun goes => goesOn_iff.mp goes ended
  have notCr : comma ≠ cr ∧ lf ≠ cr := by decide
  rw [List.dropWhile_cons_of_neg closed, past]
  rcases ended with rfl | rfl | rfl
  · rw [if_pos rfl, if_neg notCr.1]
    exact ⟨s, rfl, open_⟩
  · rw [if_pos rfl]
    exact ⟨fiCr g s, rfl, fiCr_left volume small open_⟩
  · rw [if_neg notCr.2]
    exact ⟨s, rfl, open_⟩

theorem fiPloop_left (volume : Volume g) (small : content.length < 0x10000) {fuel : Nat}
    (enough : left.length < fuel) (seen : List Byte) (open_ : Left g clusters content s left) :
    ∃ s', fiPloop g fuel a (seen.take 248) s =
        (.ok ((seen ++ (a :: left).takeWhile goesOn).take 248), s') ∧
      Left g clusters content s' (past ((a :: left).dropWhile goesOn)) := by
  induction left generalizing a s seen fuel with
  | nil =>
      obtain ⟨fuel, rfl⟩ := Nat.exists_eq_succ_of_ne_zero (Nat.ne_of_gt enough)
      rw [fiPloop]
      by_cases ended : a = comma ∨ a = cr ∨ a = lf
      · have closed : ¬goesOn a = true := fun goes => goesOn_iff.mp goes ended
        rw [List.takeWhile_cons_of_neg closed, List.append_nil]
        exact terminated volume small ended _ _ open_
      · have goes : goesOn a = true := goesOn_iff.mpr ended
        obtain ⟨notComma, notCr, notLf⟩ := (not_or.mp ended).imp_right not_or.mp
        rw [if_neg notComma, if_neg notCr, if_neg notLf, fiGetc_none open_, fiStore_take,
          List.takeWhile_cons_of_pos goes, List.dropWhile_cons_of_pos goes]
        exact ⟨s, rfl, open_⟩
  | cons b left ih =>
      obtain ⟨fuel, rfl⟩ := Nat.exists_eq_succ_of_ne_zero (Nat.ne_of_gt (Nat.zero_lt_of_lt enough))
      rw [fiPloop]
      by_cases ended : a = comma ∨ a = cr ∨ a = lf
      · have closed : ¬goesOn a = true := fun goes => goesOn_iff.mp goes ended
        rw [List.takeWhile_cons_of_neg closed, List.append_nil]
        exact terminated volume small ended _ _ open_
      · have goes : goesOn a = true := goesOn_iff.mpr ended
        obtain ⟨notComma, notCr, notLf⟩ := (not_or.mp ended).imp_right not_or.mp
        obtain ⟨s', got, open', -⟩ := fiGetc_some volume open_
        rw [if_neg notComma, if_neg notCr, if_neg notLf, got, fiStore_take,
          List.takeWhile_cons_of_pos goes, List.dropWhile_cons_of_pos goes]
        obtain ⟨s'', ran, open''⟩ := @ih s' b fuel (Nat.lt_of_succ_lt_succ enough) (seen ++ [a]) open'
        rw [List.append_assoc] at ran
        exact ⟨s'', ran, open''⟩

theorem fiQtail_left (volume : Volume g) (small : content.length < 0x10000) {fuel : Nat}
    (enough : left.length < fuel) (text : List Byte) (open_ : Left g clusters content s left) :
    ∃ s', fiQtail g fuel text s = (.ok text, s') ∧
      Left g clusters content s' (past (left.dropWhile goesOn)) := by
  induction left generalizing s fuel with
  | nil =>
      obtain ⟨fuel, rfl⟩ := Nat.exists_eq_succ_of_ne_zero (Nat.ne_of_gt enough)
      exact ⟨s, by rw [fiQtail, fiGetc_none open_], open_⟩
  | cons a left ih =>
      obtain ⟨fuel, rfl⟩ := Nat.exists_eq_succ_of_ne_zero (Nat.ne_of_gt (Nat.zero_lt_of_lt enough))
      obtain ⟨s', got, open', -⟩ := fiGetc_some volume open_
      rw [fiQtail, got]
      dsimp only
      by_cases ended : a = comma ∨ a = cr ∨ a = lf
      · exact terminated volume small ended _ _ open'
      · have goes : goesOn a = true := goesOn_iff.mpr ended
        obtain ⟨notComma, notCr, notLf⟩ := (not_or.mp ended).imp_right not_or.mp
        rw [if_neg notComma, if_neg notCr, if_neg notLf, List.dropWhile_cons_of_pos goes]
        exact ih (Nat.lt_of_succ_lt_succ enough) open'

theorem fiQloop_left (volume : Volume g) (small : content.length < 0x10000) {fuel : Nat}
    (enough : left.length < fuel) (seen : List Byte) (open_ : Left g clusters content s left) :
    ∃ s' closing, (closing = [] ∨ closing = [quote]) ∧
      fiQloop g fuel (seen.take 248) s =
        (.ok ((seen ++ left.takeWhile unquoted ++ closing).take 248), s') ∧
      Left g clusters content s'
        (past ((left.dropWhile unquoted).tail.dropWhile goesOn)) := by
  induction left generalizing s seen fuel with
  | nil =>
      obtain ⟨fuel, rfl⟩ := Nat.exists_eq_succ_of_ne_zero (Nat.ne_of_gt enough)
      refine ⟨s, [], .inl rfl, ?_, open_⟩
      rw [fiQloop, fiGetc_none open_, List.takeWhile_nil, List.append_nil, List.append_nil]
  | cons a left ih =>
      obtain ⟨fuel, rfl⟩ := Nat.exists_eq_succ_of_ne_zero (Nat.ne_of_gt (Nat.zero_lt_of_lt enough))
      obtain ⟨s', got, open', -⟩ := fiGetc_some volume open_
      rw [fiQloop, got]
      dsimp only
      rw [fiStore_take]
      by_cases closes : a = quote
      · have closed : ¬unquoted a = true := fun goes => of_decide_eq_true goes closes
        obtain ⟨s'', ran, open''⟩ := fiQtail_left volume small (Nat.lt_of_succ_lt_succ enough)
          ((seen ++ [a]).take 248) open'
        rw [if_pos closes, ran, List.takeWhile_cons_of_neg closed, List.dropWhile_cons_of_neg closed,
          closes, List.append_nil]
        exact ⟨s'', [quote], .inr rfl, rfl, open''⟩
      · have goes : unquoted a = true := decide_eq_true closes
        obtain ⟨s'', closing, either, ran, open''⟩ :=
          @ih s' fuel (Nat.lt_of_succ_lt_succ enough) (seen ++ [a]) open'
        rw [if_neg closes, ran, List.takeWhile_cons_of_pos goes, List.dropWhile_cons_of_pos goes]
        refine ⟨s'', closing, either, ?_, open''⟩
        rw [List.append_assoc seen, List.singleton_append]

end

/-! INPUT's own parser, on a fetched text. -/

theorem lb51e_stops {charac endchr b : Byte} {front rest : List Byte}
    (plain : ∀ a ∈ front, a ≠ 0#8 → a ≠ charac ∧ a ≠ endchr)
    (stop : b = 0#8 ∨ b = quote ∧ b = charac ∧ rest.head? = some 0#8) :
    (lb51e charac endchr (front ++ b :: rest)).1 = front.takeWhile notNul ∧
      (lb51e charac endchr (front ++ b :: rest)).2.head? = some 0#8 := by
  have nulQuote : (0#8 : Byte) ≠ quote := by decide
  induction front with
  | nil =>
      rw [List.nil_append, lb51e]
      rcases stop with rfl | ⟨rfl, rfl, next⟩
      · rw [if_pos (.inl rfl), if_neg nulQuote]
        exact ⟨rfl, rfl⟩
      · rw [if_pos (.inr (.inl rfl)), if_pos rfl]
        exact ⟨rfl, next⟩
  | cons a front ih =>
      obtain ⟨here, later⟩ := List.forall_mem_cons.mp plain
      rw [List.cons_append, lb51e]
      by_cases nul : a = 0#8
      · have closed : ¬notNul a = true := fun goes => of_decide_eq_true goes nul
        rw [if_pos (.inl nul), List.takeWhile_cons_of_neg closed, nul, if_neg nulQuote]
        exact ⟨rfl, rfl⟩
      · have goes : notNul a = true := decide_eq_true nul
        obtain ⟨notCharac, notEndchr⟩ := here nul
        rw [if_neg (by rw [not_or, not_or]; exact ⟨nul, notCharac, notEndchr⟩),
          List.takeWhile_cons_of_pos goes]
        obtain ⟨value, head⟩ := ih later
        exact ⟨congrArg (a :: ·) value, head⟩

theorem lb069_quoted {body closing : List Byte} (plain : ∀ a ∈ body, a ≠ quote)
    (either : closing = [] ∨ closing = [quote]) :
    (lb069 (comma :: (quote :: body ++ closing).take 248 ++ [0#8])).1 =
        (body.take 247).takeWhile notNul ∧
      (lb069 (comma :: (quote :: body ++ closing).take 248 ++ [0#8])).2.head? = some 0#8 := by
  have parsed : lb069 (comma :: (quote :: body ++ closing).take 248 ++ [0#8]) =
      lb51e quote quote ((body ++ closing).take 247 ++ [0#8]) := rfl
  have inside : ∀ a ∈ body.take 247, a ≠ 0#8 → a ≠ quote ∧ a ≠ quote :=
    fun a member _ => ⟨plain a (List.mem_of_mem_take member), plain a (List.mem_of_mem_take member)⟩
  rw [parsed]
  rcases either with rfl | rfl
  · rw [List.append_nil]
    exact lb51e_stops inside (.inl rfl)
  · by_cases full : 247 ≤ body.length
    · rw [List.take_append_of_le_length full]
      exact lb51e_stops inside (.inl rfl)
    · have short : (body ++ [quote]).length ≤ 247 := by
        rw [List.length_append, List.length_singleton]
        omega
      have whole : (body ++ [quote]).take 247 ++ [0#8] = body.take 247 ++ quote :: [0#8] := by
        rw [List.take_of_length_le short, @List.take_of_length_le _ 247 body (by omega),
          List.append_assoc]
        rfl
      rw [whole]
      exact lb51e_stops inside (.inr ⟨rfl, rfl, rfl⟩)

theorem lb069_plain {text : List Byte} (plain : ∀ a ∈ text, a ≠ comma)
    (starts : ∀ a, text.head? = some a → a ≠ space ∧ a ≠ quote) :
    (lb069 (comma :: text ++ [0#8])).1 = text.takeWhile notNul ∧
      (lb069 (comma :: text ++ [0#8])).2.head? = some 0#8 := by
  have parsed : lb069 (comma :: text ++ [0#8]) = lb51e 0#8 comma (text ++ [0#8]) := by
    cases text with
    | nil => rfl
    | cons a text =>
        obtain ⟨notSpace, notQuote⟩ := starts a rfl
        have stays : ¬isSpace a = true := fun same => notSpace (of_decide_eq_true same)
        rw [lb069, List.cons_append, List.tail_cons, List.cons_append,
          List.dropWhile_cons_of_neg stays]
        exact if_neg notQuote
  rw [parsed]
  exact lb51e_stops (fun a member nul => ⟨nul, plain a member⟩) (.inl rfl)

end Pugputer.Basic309

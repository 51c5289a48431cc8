import Mathlib.Data.List.TakeWhile
import Pugputer.Basic309.Fields

namespace Pugputer.Basic309

open Dos

/-! Any sequence of INPUT #, LINE INPUT # and EOF, and what WRITE # writes. -/

/-- LINE_STORE's string, of the line in LINBUF+1; CHARAC is as the statements before left it. -/
def lineStore (charac : Byte) (line : List Byte) : List Byte :=
  (lb51e charac 0#8 (line ++ [0#8])).1

inductive Stmt where
  | input (vars : List Var)
  | lineInput (charac : Byte)
  | eof

/-- What a statement gives; `texts` and `line` are what it puts in LINBUF+1, less the NULs. -/
inductive Outcome (α : Type) where
  | values (values : List (Value α)) (texts : List (List Byte)) (trouble : Option Trouble)
  | line (line value : List Byte)
  | trouble (trouble : Trouble)
  | eof (true_ : Bool)

variable {α : Type} (numbers : Numbers α)

def Stmt.step (g : Geometry) (s : Open) : Stmt → Outcome α × Open
  | .input vars =>
      -- CLR LINBUF
      let ((values, texts, trouble), s) := lb04e g numbers vars [0#8] s
      (.values values texts trouble, s)
  | .lineInput charac =>
      match fileline g s with
      | (.ok line, s) => (.line line (lineStore charac line), s)
      | (.error e, s) => (.trouble e, s)
  | .eof => (.eof (eoffn s), s)

def run (g : Geometry) : List Stmt → Open → List (Outcome α) × Open
  | [], s => ([], s)
  | stmt :: stmts, s =>
      let (outcome, s) := stmt.step numbers g s
      let (outcomes, s) := run g stmts s
      (outcome :: outcomes, s)

/-- PUTCHR_FILE. -/
def putchrFile (a : Byte) : List Byte := if a = cr then [cr, lf] else [a]

/-- WR_LIST, of strings. -/
def wrList : List (List Byte) → List Byte
  | [] => [cr]
  | string :: strings =>
      quote :: string ++ quote :: (if strings = [] then [cr] else comma :: wrList strings)

/-- What WRITE # puts in the file. -/
def written (strings : List (List Byte)) : List Byte := (wrList strings).flatMap putchrFile

/-! What the statements are to give. -/

/-- A number that is a whole field, and not in quotes; else BAD FILE DATA. -/
def Field.number (f : Field) : α × Bool :=
  if f.quoted then (numbers.zero, false)
  else
    let read := numbers.lbd12 (f.text.take 248 ++ [0#8])
    (read.1, read.2.head? = some 0#8)

/-- A field for each variable, as far as there are any, and what is left. -/
def inputs : List Var → List Byte → (List (Value α) × Option Trouble) × List Byte
  | [], left => (([], none), left)
  | var :: vars, left =>
      match field left with
      | none => (([], some .ie), [])
      | some f =>
          match var with
          | .string => ((.string f.value :: (inputs vars f.rest).1.1, (inputs vars f.rest).1.2),
              (inputs vars f.rest).2)
          | .number =>
              if (f.number numbers).2 then
                ((.number (f.number numbers).1 :: (inputs vars f.rest).1.1,
                  (inputs vars f.rest).1.2), (inputs vars f.rest).2)
              else (([.number (f.number numbers).1], some .fd), f.rest)

/-- An outcome, of what is left before the statement and after it. -/
def Meets (left : List Byte) : Stmt → Outcome α → (after : List Byte) → Prop
  | .input vars, .values values texts trouble, after =>
      ((values, trouble), after) = inputs numbers vars left ∧
        ∀ text ∈ texts, text.length + 2 ≤ lbufmx + 1
  | .lineInput charac, .line line value, after =>
      left ≠ [] ∧ (line, after) = lineOf 249 left ∧ line.length + 2 ≤ lbufmx + 1 ∧
        (charac ∉ line → value = line.takeWhile notNul)
  | .lineInput _, .trouble trouble, after => left = [] ∧ after = [] ∧ trouble = .ie
  | .eof, .eof true_, after => after = left ∧ (true_ = true ↔ left = [])
  | _, _, _ => False

inductive AllMeet : List Byte → List Stmt → List (Outcome α) → List Byte → Prop
  | nil {left : List Byte} : AllMeet left [] [] left
  | cons {left after last : List Byte} {stmt : Stmt} {stmts : List Stmt} {outcome : Outcome α}
      {outcomes : List (Outcome α)} (meets : Meets numbers left stmt outcome after)
      (rest : AllMeet after stmts outcomes last) :
      AllMeet left (stmt :: stmts) (outcome :: outcomes) last

section

variable {g : Geometry} {clusters : List Word} {content left : List Byte} {s : Open}

/-- What the parser of either type of variable makes of a field's text. -/
structure Item (f : Field) (text : List Byte) : Prop where
  short : text.length ≤ 248
  value : (lb069 (comma :: text ++ [0#8])).1 = f.value
  head : (lb069 (comma :: text ++ [0#8])).2.head? = some 0#8
  number : (Var.item numbers (comma :: text ++ [0#8]) .number).1 = .number (f.number numbers).1
  whole : (Var.item numbers (comma :: text ++ [0#8]) .number).2.head? = some 0#8 ↔
    (f.number numbers).2 = true
  noComma : (Var.item numbers (comma :: text ++ [0#8]) .number).2.head? ≠ some comma

theorem unquoted_iff {a : Byte} : unquoted a = true ↔ a ≠ quote := decide_eq_true_iff

theorem fileitem_left (volume : Volume g) (small : content.length < 0x10000)
    (open_ : Left g clusters content s left) :
    match field left with
    | none => ∃ s', fileitem g s = (.error .ie, s') ∧ Left g clusters content s' []
    | some f => ∃ s' text, fileitem g s = (.ok text, s') ∧ Left g clusters content s' f.rest ∧
        Item numbers f text := by
  have enough : left.length < s.slot.size.toNat + 1 := by
    rw [open_.holds.size, ← open_.rest, List.length_drop]
    omega
  have skipped := fiSkip_left volume enough open_
  have filled : ∀ a rest, left.dropWhile blank = a :: rest → ¬blank a = true := by
    intro a rest here
    have head := List.head?_dropWhile_not blank left
    rw [here] at head
    rw [Bool.not_eq_true]
    exact head
  have shorter := (@List.dropWhile_suffix _ left blank).length_le
  rw [field, fileitem]
  generalize left.dropWhile blank = next at *
  cases next with
  | nil =>
      obtain ⟨s', ran, open'⟩ := skipped
      rw [ran]
      exact ⟨s', rfl, open'⟩
  | cons a rest =>
      obtain ⟨s', ran, open'⟩ := skipped
      rw [List.length_cons] at shorter
      have enough' : rest.length < s.slot.size.toNat + 1 := by omega
      rw [ran]
      dsimp only
      by_cases quoted : a = quote
      · have notComma : a ≠ comma := by
          rw [quoted]
          decide
        have stored : fiStore [] a = ([quote] : List Byte).take 248 := by
          rw [quoted]
          rfl
        obtain ⟨s'', closing, either, ran', open''⟩ :=
          fiQloop_left volume small enough' [quote] open'
        have plain : ∀ b ∈ rest.takeWhile unquoted, b ≠ quote :=
          fun b member => unquoted_iff.mp (List.mem_takeWhile_imp member)
        obtain ⟨value, head⟩ := lb069_quoted plain either
        rw [if_neg notComma, if_pos quoted, if_pos quoted, stored, ran']
        have read : Var.item numbers
            (comma :: ((quote :: rest.takeWhile unquoted) ++ closing).take 248 ++ [0#8]) .number =
              (.number numbers.zero, quote :: (rest.takeWhile unquoted ++ closing).take 247 ++ [0#8]) :=
          congrArg (fun read : α × List Byte => (Value.number read.1, read.2)) (numbers.quoted _)
        refine ⟨s'', _, rfl, open'', ⟨List.length_take_le _ _, value, head, ?_, ?_, ?_⟩⟩
        · exact congrArg Prod.fst read
        · refine iff_of_false (fun nul => ?_) Bool.false_ne_true
          have first := (congrArg (fun read => read.2.head?) read).symm.trans nul
          exact absurd (Option.some.inj first) (by decide)
        · intro comma_
          have first := (congrArg (fun read => read.2.head?) read).symm.trans comma_
          exact absurd (Option.some.inj first) (by decide)
      · obtain ⟨s'', ran', open''⟩ := @fiPloop_left _ _ _ _ _ a volume small _ enough' [] open'
        rw [List.nil_append, List.take_nil] at ran'
        have plain : ∀ b ∈ ((a :: rest).takeWhile goesOn).take 248, b ≠ comma := fun b member same =>
          goesOn_iff.mp (List.mem_takeWhile_imp (List.mem_of_mem_take member)) (.inl same)
        have starts : ∀ b, (((a :: rest).takeWhile goesOn).take 248).head? = some b →
            b ≠ space ∧ b ≠ quote := by
          intro b head
          have same : b = a := by
            by_cases goes : goesOn a = true
            · rw [List.takeWhile_cons_of_pos goes] at head
              exact (Option.some.inj head).symm
            · rw [List.takeWhile_cons_of_neg goes, List.take_nil] at head
              cases head
          refine ⟨fun isSpace => filled a rest rfl ?_, same ▸ quoted⟩
          rw [← same, isSpace]
          rfl
        have noSpace : (((a :: rest).takeWhile goesOn).take 248 ++ [0#8]).dropWhile isSpace =
            ((a :: rest).takeWhile goesOn).take 248 ++ [0#8] := by
          generalize ((a :: rest).takeWhile goesOn).take 248 = text at starts
          cases text with
          | nil => rfl
          | cons b text =>
              rw [List.cons_append, List.dropWhile_cons_of_neg]
              exact fun same => (starts b rfl).1 (of_decide_eq_true same)
        obtain ⟨value, head⟩ := lb069_plain plain starts
        have read : Var.item numbers
            (comma :: ((a :: rest).takeWhile goesOn).take 248 ++ [0#8]) .number =
              (.number (numbers.lbd12 (((a :: rest).takeWhile goesOn).take 248 ++ [0#8])).1,
                (numbers.lbd12 (((a :: rest).takeWhile goesOn).take 248 ++ [0#8])).2) := by
          rw [Var.item, List.cons_append, List.tail_cons, noSpace]
        have ended : (if a = comma then (.ok [], s') else
            if a = quote then fiQloop g (s.slot.size.toNat + 1) (fiStore [] a) s'
            else fiPloop g (s.slot.size.toNat + 1) a [] s') =
              fiPloop g (s.slot.size.toNat + 1) a [] s' := by
          by_cases isComma : a = comma
          · rw [if_pos isComma, fiPloop, if_pos isComma]
          · rw [if_neg isComma, if_neg quoted]
        rw [ended, if_neg quoted, ran']
        refine ⟨s'', _, rfl, open'', ⟨List.length_take_le _ _, value, head, ?_, ?_, ?_⟩⟩
        · rw [read]
          rfl
        · rw [read]
          exact decide_eq_true_iff.symm
        · intro comma_
          rw [read] at comma_
          obtain ⟨before, same⟩ := numbers.suffix (((a :: rest).takeWhile goesOn).take 248 ++ [0#8])
          have inside : comma ∈ ((a :: rest).takeWhile goesOn).take 248 ++ [0#8] := by
            rw [← same]
            exact List.mem_append_right _ (List.mem_of_mem_head? comma_)
          rcases List.mem_append.mp inside with text | nul
          · exact plain comma text rfl
          · exact absurd (List.mem_singleton.mp nul) (by decide)

/-- By induction on the variables; between two of them DATTMP points to a NUL. -/
theorem lb04e_left (volume : Volume g) (small : content.length < 0x10000) (vars : List Var)
    {dattmp : List Byte} (nul : dattmp.head? = some 0#8) (open_ : Left g clusters content s left) :
    ∃ s' texts, lb04e g numbers vars dattmp s =
        (((inputs numbers vars left).1.1, texts, (inputs numbers vars left).1.2), s') ∧
      Left g clusters content s' (inputs numbers vars left).2 ∧ ∀ text ∈ texts, text.length ≤ 248 := by
  induction vars generalizing dattmp left s with
  | nil => exact ⟨s, [], rfl, open_, fun _ member => absurd member List.not_mem_nil⟩
  | cons var vars ih =>
      have item := fileitem_left numbers volume small open_
      rw [lb04e, fetch, if_pos nul, inputs]
      generalize field left = next at *
      cases next with
      | none =>
          obtain ⟨s', ran, open'⟩ := item
          rw [ran]
          exact ⟨s', [], rfl, open', fun _ member => absurd member List.not_mem_nil⟩
      | some f =>
          obtain ⟨s', text, ran, open', item⟩ := item
          rw [ran]
          dsimp only
          cases var with
          | string =>
              obtain ⟨s'', texts, ran', open'', shorter⟩ := ih item.head open'
              rw [Var.item]
              dsimp only
              rw [if_pos (.inl item.head), ran', item.value]
              exact ⟨s'', text :: texts, rfl, open'', List.forall_mem_cons.mpr ⟨item.short, shorter⟩⟩
          | number =>
              dsimp only
              rw [item.number]
              by_cases whole : (f.number numbers).2 = true
              · have ended := item.whole.mpr whole
                obtain ⟨s'', texts, ran', open'', shorter⟩ := ih ended open'
                rw [if_pos (.inl ended), ran', if_pos whole]
                exact ⟨s'', text :: texts, rfl, open'', List.forall_mem_cons.mpr ⟨item.short, shorter⟩⟩
              · have stray := not_or.mpr ⟨mt item.whole.mp whole, item.noComma⟩
                rw [if_neg stray, if_neg whole]
                exact ⟨s', [text], rfl, open', List.forall_mem_singleton.mpr item.short⟩

theorem rlLoop_lineOf (volume : Volume g) (most : Nat) (open_ : Left g clusters content s left) :
    (rlLoop g most s).1 = (lineOf most left).1 ∧
      Left g clusters content (rlLoop g most s).2 (lineOf most left).2 := by
  induction most generalizing left s with
  | zero => exact ⟨rfl, open_⟩
  | succ most ih =>
      rw [rlLoop]
      cases left with
      | nil =>
          rw [open_.done]
          exact ⟨rfl, open_⟩
      | cons a left =>
          obtain ⟨s', got, open', -⟩ := open_.getbyte volume
          rw [got, lineOf]
          dsimp only
          by_cases isCr : a = cr
          · rw [if_pos isCr, if_pos isCr]
            exact ⟨rfl, rlCr_left volume open'⟩
          · rw [if_neg isCr, if_neg isCr]
            by_cases isLf : a = lf
            · rw [if_pos isLf, if_pos isLf]
              exact ⟨rfl, open'⟩
            · rw [if_neg isLf, if_neg isLf]
              obtain ⟨line, open''⟩ := ih open'
              exact ⟨congrArg (a :: ·) line, open''⟩

theorem length_lineOf (most : Nat) : (lineOf most left).1.length ≤ most := by
  induction most generalizing left with
  | zero => exact Nat.le_refl 0
  | succ most ih =>
      cases left with
      | nil => exact Nat.zero_le _
      | cons a left =>
          rw [lineOf]
          split
          · exact Nat.zero_le _
          · split
            · exact Nat.zero_le _
            · exact Nat.succ_le_succ ih

/-- Below 64 KB the low 16 bits are the whole of the size and of the position. -/
theorem fstatxy_left (small : content.length < 0x10000) (open_ : Left g clusters content s left) :
    (fstatxy s).2 < (fstatxy s).1 ↔ left ≠ [] := by
  have size := open_.holds.size
  have within := open_.within
  rw [fstatxy, BitVec.lt_def, BitVec.toNat_setWidth, BitVec.toNat_setWidth, size, ← open_.rest, ne_eq,
    List.drop_eq_nil_iff]
  change s.slot.pos.toNat % 65536 < content.length % 65536 ↔ _
  omega

theorem fileline_left (volume : Volume g) (small : content.length < 0x10000)
    (open_ : Left g clusters content s left) (some_ : left ≠ []) :
    ∃ s', fileline g s = (.ok (lineOf 249 left).1, s') ∧
      Left g clusters content s' (lineOf 249 left).2 := by
  obtain ⟨line, open'⟩ := rlLoop_lineOf volume 249 open_
  refine ⟨(rlLoop g 249 s).2, ?_, open'⟩
  rw [fileline, if_pos ((fstatxy_left small open_).mpr some_), ← line]
  rfl

theorem lineStore_eq {charac : Byte} {line : List Byte} (apart : charac ∉ line) :
    lineStore charac line = line.takeWhile notNul := by
  have plain : ∀ a ∈ line, a ≠ 0#8 → a ≠ charac ∧ a ≠ 0#8 := by
    rintro a member nul
    refine ⟨?_, nul⟩
    rintro rfl
    exact apart member
  exact (lb51e_stops plain (.inl rfl)).1

theorem step_meets (volume : Volume g) (small : content.length < 0x10000) (stmt : Stmt)
    (open_ : Left g clusters content s left) :
    ∃ after, Meets numbers left stmt (stmt.step numbers g s).1 after ∧
      Left g clusters content (stmt.step numbers g s).2 after := by
  cases stmt with
  | input vars =>
      obtain ⟨s', texts, ran, open', short⟩ :=
        @lb04e_left _ numbers _ _ _ _ _ volume small vars [0#8] rfl open_
      rw [Stmt.step, ran]
      exact ⟨_, ⟨rfl, fun text member => Nat.add_le_add_right (Nat.le_succ_of_le (short text member)) 2⟩,
        open'⟩
  | lineInput charac =>
      rw [Stmt.step]
      by_cases empty : left = []
      · rw [fileline, if_neg fun more => (fstatxy_left small open_).mp more empty]
        exact ⟨[], ⟨empty, rfl, rfl⟩, empty ▸ open_⟩
      · obtain ⟨s', ran, open'⟩ := fileline_left volume small open_ empty
        rw [ran]
        exact ⟨_, ⟨empty, rfl, Nat.add_le_add_right (length_lineOf 249) 2, lineStore_eq⟩, open'⟩
  | eof =>
      refine ⟨left, ⟨rfl, ?_⟩, open_⟩
      rw [eoffn, Bool.not_eq_true', decide_eq_false_iff_not, fstatxy_left small open_, not_not]

/-- By induction on the statements. -/
theorem run_meets (volume : Volume g) (small : content.length < 0x10000) (stmts : List Stmt)
    (open_ : Left g clusters content s left) :
    ∃ after, AllMeet numbers left stmts (run numbers g stmts s).1 after ∧
      Left g clusters content (run numbers g stmts s).2 after := by
  induction stmts generalizing left s with
  | nil => exact ⟨left, .nil, open_⟩
  | cons stmt stmts ih =>
      obtain ⟨after, meets, open'⟩ := step_meets numbers volume small stmt open_
      obtain ⟨last, rest, open''⟩ := ih open'
      exact ⟨last, .cons meets rest, open''⟩

end

/-! What WRITE # writes, read by INPUT #. -/

/-- Strings that come back as they were. -/
def Plain (string : List Byte) : Prop :=
  string.length ≤ 247 ∧ ∀ a ∈ string, a ≠ quote ∧ a ≠ 0#8 ∧ a ≠ cr

/-- Between two items, or after the last. -/
def separator (strings : List (List Byte)) : List Byte := if strings = [] then [cr, lf] else [comma]

theorem written_cons {string : List Byte} (plain : Plain string) (strings : List (List Byte)) :
    written (string :: strings) =
      quote :: string ++ quote :: (separator strings ++ if strings = [] then [] else written strings) := by
  have same : string.flatMap putchrFile = string := by
    have each : ∀ a ∈ string, putchrFile a = [a] := fun a member => if_neg (plain.2 a member).2.2
    rw [List.flatMap_congr each]
    exact List.flatMap_singleton' string
  have whole : written (string :: strings) = quote :: (string.flatMap putchrFile ++
      quote :: (if strings = [] then [cr] else comma :: wrList strings).flatMap putchrFile) := by
    rw [written, wrList, List.flatMap_append, List.flatMap_cons, List.flatMap_cons]
    rfl
  rw [whole, same, separator]
  by_cases last : strings = []
  · rw [if_pos last, if_pos last, if_pos last]
    rfl
  · rw [if_neg last, if_neg last, if_neg last]
    rfl

theorem field_written {string : List Byte} (plain : Plain string) (strings : List (List Byte))
    (more : List Byte) :
    field (quote :: string ++ quote :: (separator strings ++ more)) = some ⟨true, string, more⟩ := by
  have quotes : ∀ a ∈ string, unquoted a = true := fun a member => decide_eq_true (plain.2 a member).1
  have text : (string ++ quote :: (separator strings ++ more)).takeWhile unquoted = string := by
    rw [List.takeWhile_append_of_pos quotes, List.takeWhile_cons_of_neg (by decide), List.append_nil]
  have rest : (string ++ quote :: (separator strings ++ more)).dropWhile unquoted =
      quote :: (separator strings ++ more) := by
    rw [List.dropWhile_append_of_pos quotes, List.dropWhile_cons_of_neg (by decide)]
  have ended : past ((separator strings ++ more).dropWhile goesOn) = more := by
    rw [separator]
    split
    · rfl
    · rfl
  rw [field, List.cons_append, List.dropWhile_cons_of_neg (by decide)]
  dsimp only
  rw [if_pos rfl, text, rest, List.tail_cons, ended]

theorem value_written {string more : List Byte} (plain : Plain string) :
    Field.value ⟨true, string, more⟩ = string := by
  have all : ∀ a ∈ string, notNul a = true :=
    fun a member => decide_eq_true (plain.2 a member).2.1
  rw [Field.value, if_pos rfl]
  dsimp only
  rw [List.take_of_length_le plain.1]
  exact List.takeWhile_eq_self_iff.mpr all

/-- By induction on the strings. -/
theorem inputs_written {strings : List (List Byte)} (plain : ∀ string ∈ strings, Plain string)
    (some_ : strings ≠ []) (more : List Byte) :
    inputs numbers (strings.map fun _ => .string) (written strings ++ more) =
      ((strings.map .string, none), more) := by
  induction strings with
  | nil => exact absurd rfl some_
  | cons string strings ih =>
      obtain ⟨here, later⟩ := List.forall_mem_cons.mp plain
      have split : written (string :: strings) ++ more = quote :: string ++
          quote :: (separator strings ++ ((if strings = [] then [] else written strings) ++ more)) := by
        rw [written_cons here]
        simp only [List.append_assoc, List.cons_append]
      rw [split, List.map_cons, inputs, field_written here, List.map_cons]
      dsimp only
      rw [value_written here]
      by_cases last : strings = []
      · rw [last]
        rfl
      · rw [if_neg last, ih later last]

/-- A number of decimal digits. -/
def decimals : Numbers Nat where
  lbd12 buffer :=
    let digits := buffer.takeWhile fun a => 0x30#8 ≤ a ∧ a ≤ 0x39#8
    (digits.foldl (fun value a => 10 * value + (a.toNat - 0x30)) 0,
      buffer.dropWhile fun a => 0x30#8 ≤ a ∧ a ≤ 0x39#8)
  zero := 0
  suffix _ := List.dropWhile_suffix _
  quoted _ := rfl

/-- WRITE # of "A,", and of "A", a CR and "B". -/
def twoWrites : List Byte := written [[0x41, comma]] ++ written [[0x41, cr, 0x42]]

def twoOpen : Open := ⟨textVars 0xFF twoWrites, openSlot fopenRead 2 14⟩

theorem twoOpen_left : Left (dosStart plainBoot) [2] twoWrites twoOpen twoWrites := by
  have saved : Saved (dosStart plainBoot) (textVars 0xFF twoWrites) 2 [2] twoWrites :=
    textVars_saved (.last (by decide) (by decide)) (by decide)
  exact ⟨saved.opened rfl rfl (by decide) rfl rfl, .inl rfl, rfl, Nat.zero_le _, rfl⟩

theorem twoWrites_small : twoWrites.length < 0x10000 := by decide

end Pugputer.Basic309

import Pugputer.Objects.Read
import Pugputer.Objects.Written

namespace Pugputer.Objects

/-! LINK reads the records that ASM wrote. -/

open Lib
open Asmlink (NAMEMAX)
open Linker (Chars Chunked CHUNKSZ SYMMAX SEF_BSS SEF_CONST Sym Sect)

theorem oword_reads (v : Word) : Reads oword (wordBytes v) v := by
  have whole := word_hiByte_loByte v
  refine .head (hiByte v) (.head (loByte v) ?_)
  rw [whole]
  exact .pure v

theorem osLoop_reads {name : Chars} (nonul : 0#8 ∉ name) {room : Nat} (fits : name.length ≤ room)
    (rest : List Byte) : osLoop (sputs name ++ rest) room = .ok (name, rest) := by
  induction name generalizing room with
  | nil => rfl
  | cons A name ih =>
      rw [List.mem_cons, not_or] at nonul
      have some : room ≠ 0 := by
        rintro rfl
        cases fits
      rw [List.length_cons] at fits
      rw [sputs, List.cons_append, List.cons_append, osLoop, if_neg (Ne.symm nonul.1), ← sputs,
        ih nonul.2 (by omega)]
      dsimp only
      rw [if_neg some]

/-- A text with a first byte and no NUL, as it is written. -/
theorem ostring_reads {most : Nat} {name : Chars} (named : Named most name) (small : most ≤ SYMMAX) :
    ∃ A more, A ≠ 0#8 ∧ sputs name = A :: more ∧ Reads (ostring A) more ⟨name, named.some⟩ := by
  obtain ⟨some, nonul, fits⟩ := named
  cases name with
  | nil => exact absurd rfl some
  | cons A name =>
      rw [List.mem_cons, not_or] at nonul
      refine ⟨A, sputs name, Ne.symm nonul.1, rfl, ?_⟩
      have string : Reads (fun X => osLoop X (SYMMAX - 1)) (sputs name) name := by
        refine osLoop_reads nonul.2 ?_
        rw [List.length_cons] at fits
        omega
      exact string.map fun name : Chars =>
        (⟨A :: name, List.cons_ne_nil A name⟩ : { name : Chars // name ≠ [] })

theorem foldl_heads {α γ : Type} (g : α → γ) (xs : List α) (ys : List γ) :
    xs.foldl (fun ys x => g x :: ys) ys = (xs.map g).reverse ++ ys := by
  induction xs generalizing ys with
  | nil => rfl
  | cons x xs ih =>
      rw [List.foldl_cons, ih, List.map_cons, List.reverse_cons, List.append_assoc,
        List.singleton_append]

def linkSym (y : Chars × Word) : Sym := { name := y.1, val := y.2 }

theorem readsyms_reads {ys : List (Chars × Word)} {fuel : Nat}
    (named : ∀ y ∈ ys, Named SYMMAX y.1) (enough : ys.length < fuel) :
    Reads (readsyms fuel) (ys.flatMap woSym ++ [0#8]) (ys.map linkSym).reverse := by
  have each : Reads.Entries 0#8 (fun A _ ys => readsym A ys) woSym (fun ys y => linkSym y :: ys) []
      ys := by
    intro before y after split
    have inside : y ∈ ys := by
      rw [← split]
      exact List.mem_append_right before List.mem_cons_self
    obtain ⟨A, more, first, written, name⟩ := ostring_reads (named y inside) (Nat.le_refl _)
    refine ⟨A, more ++ wordBytes y.2, first, ?_, ?_⟩
    · rw [woSym, written, List.cons_append]
    · exact name.bind (Reads.map _ (oword_reads y.2))
  have all := Reads.entries Fatal.BADOBJ .spent each enough
  rw [foldl_heads, List.append_nil] at all
  exact all

/-! Relocations. -/

/-- A postfix term as it is written, where it is one that ASM writes. -/
def woItem : Linker.Term → List Byte
  | .int v => 1#8 :: wordBytes v
  | .ext name => 2#8 :: sputs name
  | .loc name => 3#8 :: sputs name
  | .op B => [4#8, B]
  | .base => [5#8]

def NoNul : Linker.Term → Prop
  | .ext name | .loc name => 0#8 ∉ name
  | _ => True

theorem rrStr_reads {name : Chars} (nonul : 0#8 ∉ name) {X : Nat} (fits : X + name.length < 250)
    (rest : List Byte) :
    rrStr (sputs name ++ rest) X = .ok ((name, X + name.length + 1), rest) := by
  induction name generalizing X with
  | nil => rfl
  | cons A name ih =>
      rw [List.mem_cons, not_or] at nonul
      rw [List.length_cons] at fits
      rw [sputs, List.cons_append, List.cons_append, rrStr, if_neg (Ne.symm nonul.1),
        if_neg (by omega), ← sputs, ih nonul.2 (by omega), List.length_cons]
      dsimp only
      rw [Nat.add_right_comm X 1, Nat.add_assoc X]

def Reread.push (s : Reread) (t : Linker.Term) : Reread :=
  { s with X := s.X + (woItem t).length, expr := s.expr ++ [t] }

theorem rrStr_push (t : Chars → Linker.Term) {name : Chars} (nonul : 0#8 ∉ name) {s : Reread}
    (length : (woItem (t name)).length = (sputs name).length + 1)
    (fits : s.X + (woItem (t name)).length ≤ 250) :
    Reads ((fun rest => rrStr rest (s.X + 1) : Rd (Chars × Nat)) >>= fun name =>
      pure { s with X := name.2, expr := s.expr ++ [t name.1] }) (sputs name) (s.push (t name)) := by
  have long : (sputs name).length = name.length + 1 := List.length_append
  have string : Reads (fun rest => rrStr rest (s.X + 1) : Rd (Chars × Nat)) (sputs name)
      (name, s.X + 1 + name.length + 1) := rrStr_reads nonul (by omega)
  have push : s.push (t name) =
      { s with X := s.X + 1 + name.length + 1, expr := s.expr ++ [t name] } := by
    rw [Reread.push, length, long]
    refine congrArg (fun X => { s with X, expr := s.expr ++ [t name] }) ?_
    omega
  rw [push]
  exact string.map fun name : Chars × Nat =>
    ({ s with X := name.2, expr := s.expr ++ [t name.1] } : Reread)

theorem rrTerm_reads {t : Linker.Term} (nonul : NoNul t) {s : Reread}
    (fits : s.X + (woItem t).length ≤ 250) :
    ∃ A more, A ≠ 0#8 ∧ woItem t = A :: more ∧ Reads (rrTerm A s) more (s.push t) := by
  have room : ¬250 ≤ s.X := by
    have some : 0 < (woItem t).length := by cases t <;> exact Nat.succ_pos _
    omega
  cases t with
  | int v =>
      refine ⟨1#8, wordBytes v, by decide, rfl, ?_⟩
      rw [rrTerm, if_neg (by decide), if_neg room, if_pos rfl]
      exact (oword_reads v).map fun v : Word =>
        ({ s with X := s.X + 3, expr := s.expr ++ [.int v] } : Reread)
  | ext name =>
      refine ⟨2#8, sputs name, by decide, rfl, ?_⟩
      rw [rrTerm, if_neg (by decide), if_neg room, if_neg (by decide), if_pos rfl]
      exact rrStr_push .ext nonul rfl fits
  | loc name =>
      refine ⟨3#8, sputs name, by decide, rfl, ?_⟩
      rw [rrTerm, if_neg (by decide), if_neg room, if_neg (by decide), if_neg (by decide),
        if_pos rfl]
      exact rrStr_push .loc nonul rfl fits
  | op B =>
      refine ⟨4#8, [B], by decide, rfl, ?_⟩
      rw [rrTerm, if_neg (by decide), if_neg room, if_neg (by decide), if_neg (by decide),
        if_neg (by decide), if_pos rfl]
      exact (Reads.next Fatal.BADOBJ B).map fun B : Byte =>
        ({ s with X := s.X + 2, expr := s.expr ++ [.op B] } : Reread)
  | base =>
      refine ⟨5#8, [], by decide, rfl, ?_⟩
      rw [rrTerm, if_neg (by decide), if_neg room, if_neg (by decide), if_neg (by decide),
        if_neg (by decide), if_neg (by decide), if_pos rfl]
      exact .pure _

/-- What a flag, or a term, is written as. -/
def woPart : Byte ⊕ Linker.Term → List Byte := Sum.elim (fun B => [0xFF#8, B]) woItem

def Reread.take (s : Reread) : Byte ⊕ Linker.Term → Reread :=
  Sum.elim (fun B => { s with RFLAGS := B }) s.push

theorem take_foldl (ps : List (Byte ⊕ Linker.Term)) (s : Reread) :
    (ps.foldl Reread.take s).X = s.X + ((ps.filterMap Sum.getRight?).flatMap woItem).length ∧
      (ps.foldl Reread.take s).expr = s.expr ++ ps.filterMap Sum.getRight? := by
  induction ps generalizing s with
  | nil => exact ⟨rfl, (List.append_nil _).symm⟩
  | cons p ps ih =>
      obtain ⟨X, expr⟩ := ih (s.take p)
      rw [List.foldl_cons, X, expr]
      cases p with
      | inl B => exact ⟨rfl, rfl⟩
      | inr t =>
          rw [List.filterMap_cons_some (rfl : Sum.getRight? (.inr t) = some t), List.flatMap_cons,
            List.length_append, ← Nat.add_assoc]
          refine ⟨rfl, ?_⟩
          show s.expr ++ [t] ++ _ = _
          rw [List.append_assoc, List.singleton_append]

theorem parts_entries (ps : List (Byte ⊕ Linker.Term))
    (nonul : ∀ t ∈ ps.filterMap Sum.getRight?, NoNul t)
    (fits : ((ps.filterMap Sum.getRight?).flatMap woItem).length ≤ 250) :
    Reads.Entries 0#8 (fun A _ s => rrTerm A s) woPart Reread.take
      { RFLAGS := 0, X := 0, expr := [] } ps := by
  intro before p after split
  cases p with
  | inl B =>
      refine ⟨0xFF#8, [B], by decide, rfl, ?_⟩
      dsimp only
      rw [rrTerm, if_pos rfl]
      exact (Reads.next Fatal.BADOBJ B).map fun B : Byte =>
        ({ before.foldl Reread.take { RFLAGS := 0, X := 0, expr := [] } with RFLAGS := B } : Reread)
  | inr t =>
      have parts : ps.filterMap Sum.getRight? =
          before.filterMap Sum.getRight? ++ t :: after.filterMap Sum.getRight? := by
        rw [← split, List.filterMap_append,
          List.filterMap_cons_some (rfl : Sum.getRight? (.inr t) = some t)]
      have X := (take_foldl before { RFLAGS := 0, X := 0, expr := [] }).1
      rw [parts] at nonul fits
      rw [List.flatMap_append, List.flatMap_cons, List.length_append, List.length_append] at fits
      obtain ⟨A, more, first, written, one⟩ := rrTerm_reads
        (nonul t (List.mem_append_right _ List.mem_cons_self))
        (s := before.foldl Reread.take { RFLAGS := 0, X := 0, expr := [] }) (by
          rw [X]
          dsimp only
          omega)
      exact ⟨A, more, first, written, one⟩

variable (o : Object)

/-- A term in postfix: its base, times its coefficient if that is not 1. -/
def baseTerm : Base → Linker.Term
  | .sect B => .loc (basename (o.sectname B))
  | .imp name => .ext name

def termItems (t : Term) : List Linker.Term :=
  if t.coef = 1#16 then [baseTerm o t.id] else [.int t.coef, baseTerm o t.id, .op 3#8]

/-- A relocation's expression in postfix. -/
def exprItems (r : Relocation) : List Linker.Term :=
  (if r.const = 0#16 then [] else [.int r.const]) ++ r.terms.list.flatMap (termItems o) ++
    List.replicate (r.terms.list.length - if r.const = 0#16 then 1 else 0) (.op 1#8)

theorem woTerm_items (t : Term) : woTerm o t = (termItems o t).flatMap woItem := by
  obtain ⟨id, coef⟩ := t
  rw [woTerm, termItems]
  dsimp only
  split
  · cases id <;> simp [baseTerm, woItem]
  · cases id <;> simp [baseTerm, woItem]

theorem woOps_items {n : Nat} (few : n < 255) :
    woOps (BitVec.ofNat 8 (n + 1)) = (List.replicate n (Linker.Term.op 1#8)).flatMap woItem := by
  have count : (BitVec.ofNat 8 (n + 1) - 1#8).toNat = n := by
    rw [BitVec.toNat_sub, BitVec.toNat_ofNat]
    simp only [BitVec.toNat_ofNat]
    omega
  rw [woOps, count, List.flatMap_replicate]
  rfl

theorem woExpr_items (r : Relocation) : woExpr o r = (exprItems o r).flatMap woItem := by
  have some : 0 < r.terms.list.length := List.length_pos_of_ne_nil r.some
  have few : r.terms.list.length ≤ 4 := r.terms.few
  have terms : r.terms.list.flatMap (woTerm o) =
      (r.terms.list.flatMap (termItems o)).flatMap woItem := by
    rw [List.flatMap_assoc]
    exact congrArg r.terms.list.flatMap (funext (woTerm_items o))
  rw [woExpr, exprItems, List.flatMap_append, List.flatMap_append, terms]
  split
  · have ops := woOps_items (n := r.terms.list.length - 1) (by omega)
    rw [Nat.sub_add_cancel some] at ops
    rw [ops]
    rfl
  · have ops := woOps_items (n := r.terms.list.length) (by omega)
    rw [BitVec.ofNat_add] at ops
    rw [ops, Nat.sub_zero]
    rfl

theorem baseTerm_nonul {r : Relocation} {t : Term} (inside : t ∈ r.terms.list) :
    NoNul (baseTerm o t.id) := by
  cases same : t.id with
  | sect B =>
      show 0#8 ∉ 2#8 :: o.sectname B
      rw [List.mem_cons, not_or]
      refine ⟨by decide, ?_⟩
      rw [Object.sectname]
      cases o.sect? B with
      | none => exact List.not_mem_nil
      | some x => exact x.named.nonul
  | imp name => exact (r.named t inside name same).nonul

theorem exprItems_nonul (r : Relocation) : ∀ t ∈ exprItems o r, NoNul t := by
  intro t inside
  rw [exprItems, List.mem_append, List.mem_append, List.mem_flatMap] at inside
  rcases inside with (const | ⟨u, among, item⟩) | ops
  · split at const
    · cases const
    · rw [List.mem_singleton.mp const]
      trivial
  · rw [termItems] at item
    split at item
    · rw [List.mem_singleton.mp item]
      exact baseTerm_nonul o among
    · simp only [List.mem_cons, List.not_mem_nil, or_false] at item
      rcases item with rfl | rfl | rfl
      · trivial
      · exact baseTerm_nonul o among
      · trivial
  · rw [(List.mem_replicate.mp ops).2]
    trivial

theorem exprItems_some (r : Relocation) : exprItems o r ≠ [] := by
  obtain ⟨t, inside⟩ := List.exists_mem_of_ne_nil _ r.some
  have base : baseTerm o t.id ∈ termItems o t := by
    rw [termItems]
    split
    · exact List.mem_singleton_self _
    · exact List.mem_cons_of_mem _ List.mem_cons_self
  have among : baseTerm o t.id ∈ exprItems o r := by
    rw [exprItems, List.mem_append, List.mem_append, List.mem_flatMap]
    exact .inl (.inr ⟨t, inside, base⟩)
  exact List.ne_nil_of_mem among

/-- What LINK makes of a relocation. -/
def linkReloc (r : Relocation) : Linker.Reloc where
  off := r.off
  flags := if r.size = 1#8 then 1#8 else 0#8
  expr := exprItems o r

/-- A relocation's flag, if it has one, and its terms. -/
def parts (r : Relocation) : List (Byte ⊕ Linker.Term) :=
  (if r.size = 1#8 then [.inl 1#8] else []) ++ (exprItems o r).map .inr

theorem parts_terms (r : Relocation) : (parts o r).filterMap Sum.getRight? = exprItems o r := by
  have terms (ts : List Linker.Term) :
      (ts.map (Sum.inr : _ → Byte ⊕ Linker.Term)).filterMap Sum.getRight? = ts := by
    rw [List.filterMap_map]
    exact List.filterMap_some
  rw [parts, List.filterMap_append, terms]
  split <;> rfl

theorem parts_written (r : Relocation) :
    woreloc o r = (parts o r).flatMap woPart ++ [0#8] ++ wordBytes r.off := by
  rw [woreloc, parts, List.flatMap_append, List.flatMap_map, woExpr_items]
  split <;> rfl

theorem parts_flags (r : Relocation) :
    ((parts o r).foldl Reread.take { RFLAGS := 0, X := 0, expr := [] }).RFLAGS =
      (linkReloc o r).flags := by
  have kept (ts : List Linker.Term) (s : Reread) :
      ((ts.map Sum.inr).foldl Reread.take s).RFLAGS = s.RFLAGS := by
    induction ts generalizing s with
    | nil => rfl
    | cons t ts ih => exact ih (s.push t)
  rw [parts, List.foldl_append, kept, linkReloc]
  split <;> rfl

theorem readreloc_reads {r : Relocation} (fits : (woExpr o r).length ≤ 250) {fuel : Nat}
    (enough : (woreloc o r).length ≤ fuel) :
    ∃ A more, A ≠ 0#8 ∧ woreloc o r = A :: more ∧ Reads (readreloc fuel A) more (linkReloc o r) := by
  have terms := parts_terms o r
  have flags := parts_flags o r
  have written := parts_written o r
  have each := parts_entries (parts o r) (by rw [terms]; exact exprItems_nonul o r)
    (by rw [terms, ← woExpr_items]; exact fits)
  have expr := (take_foldl (parts o r) { RFLAGS := 0, X := 0, expr := [] }).2
  rw [terms] at expr
  have some : parts o r ≠ [] := by
    intro none
    rw [none] at terms
    exact exprItems_some o r terms.symm
  have room : (parts o r).length ≤ (woreloc o r).length := by
    have shorter := @Reads.length_le _ _ woPart (parts o r) fun p _ => by
      rcases p with B | t
      · exact List.cons_ne_nil _ _
      · cases t <;> exact List.cons_ne_nil _ _
    rw [written, List.length_append, List.length_append]
    omega
  cases split : parts o r with
  | nil => exact absurd split some
  | cons p ps =>
      rw [split] at each flags expr room written
      obtain ⟨A, more, first, text, all⟩ := Reads.entries_from Fatal.BADOBJ .spent fuel
        each (by
          rw [List.length_cons] at room
          omega)
      rw [text] at written
      refine ⟨A, more ++ [0#8] ++ wordBytes r.off, first, ?_, ?_⟩
      · rw [written, List.cons_append, List.cons_append]
      · have whole := all.bind (f := fun s => do
          let off ← oword
          pure ({ off, flags := s.RFLAGS, expr := s.expr } : Linker.Reloc))
          ((oword_reads r.off).map fun off : Word =>
            ({ off, flags := ((p :: ps).foldl Reread.take { RFLAGS := 0, X := 0, expr := [] }).RFLAGS,
               expr := ((p :: ps).foldl Reread.take { RFLAGS := 0, X := 0, expr := [] }).expr } :
              Linker.Reloc))
        rw [flags, expr, bind_assoc] at whole
        exact whole

/-! A section's bytes. -/

theorem wobytes_chunks {n : Nat} {cs : List (List Byte)} (chunked : Chunked n cs) :
    wobytes n cs = cs.flatten := by
  induction cs generalizing n with
  | nil => rfl
  | cons c cs ih =>
      obtain ⟨some, long, rest⟩ := chunked
      rw [wobytes, if_neg (Nat.ne_of_gt some), ih rest, ← long, List.take_length, List.flatten_cons]

theorem readcode_reads {n : Nat} {cs : List (List Byte)} (chunked : Chunked n cs) :
    Reads (readcode n) cs.flatten ⟨cs, chunked⟩ := by
  induction cs generalizing n with
  | nil =>
      have none : n = 0 := chunked
      rw [readcode, dif_pos none]
      exact .pure _
  | cons c cs ih =>
      obtain ⟨some, long, rest⟩ := chunked
      rw [readcode, dif_neg (Nat.ne_of_gt some), List.flatten_cons]
      have others : Reads (readcode (n - CHUNKSZ)) cs.flatten ⟨cs, rest⟩ := ih rest
      exact (Reads.take Fatal.BADOBJ long).bind (others.map _)

/-- The flags that there are. -/
theorem Section.flags_cases (x : Section) :
    x.flags = 0#8 ∨ x.flags = 1#8 ∨ x.flags = 2#8 ∨ x.flags = 3#8 := by
  have known := x.known
  have cases : x.flags.toNat = 0 ∨ x.flags.toNat = 1 ∨ x.flags.toNat = 2 ∨ x.flags.toNat = 3 := by
    omega
  rw [← BitVec.toNat_inj, ← BitVec.toNat_inj, ← BitVec.toNat_inj, ← BitVec.toNat_inj]
  exact cases

theorem Section.whole_read (x : Section) :
    Chunked (if x.flags &&& SEF_BSS = 0#8 then x.size.toNat else 0) x.code := by
  have whole := x.whole
  rw [Section.size]
  rcases x.flags_cases with none | bss | const | both
  · rw [none] at whole ⊢
    exact whole
  · rw [bss] at whole ⊢
    exact whole
  · rw [const] at whole ⊢
    exact whole
  · rw [both] at whole ⊢
    exact whole

theorem rsCode_reads (x : Section) :
    Reads (rsCode x.flags x.size)
      (if x.flags &&& (SEF_BSS ||| SEF_CONST) = 0#8 then wobytes x.len.toNat x.code else [])
      ⟨x.code, x.whole_read⟩ := by
  have whole := x.whole
  have again := x.whole_read
  have text : (if x.flags &&& (SEF_BSS ||| SEF_CONST) = 0#8 then wobytes x.len.toNat x.code else []) =
      x.code.flatten := by
    split
    · next plain =>
        rw [if_pos plain] at whole
        exact wobytes_chunks whole
    · next special =>
        rw [if_neg special] at whole
        rw [← wobytes_chunks whole]
        cases x.code <;> rfl
  rw [text, rsCode]
  split
  · next bss =>
      rw [if_pos bss] at again
      have code := (readcode_reads again).map fun code : { code // Chunked x.size.toNat code } =>
        (⟨code.1, (if_pos bss).symm ▸ code.2⟩ : { code : List (List Byte) //
          Chunked (if x.flags &&& SEF_BSS = 0#8 then x.size.toNat else 0) code })
      exact code
  · next bss =>
      rw [if_neg bss] at again
      have none : x.code = [] := by
        cases codes : x.code with
        | nil => rfl
        | cons c cs =>
            rw [codes] at again
            exact absurd again.1 (Nat.lt_irrefl 0)
      have same : (⟨x.code, x.whole_read⟩ : { code : List (List Byte) //
          Chunked (if x.flags &&& SEF_BSS = 0#8 then x.size.toNat else 0) code }) =
          ⟨[], if_neg bss⟩ := Subtype.ext none
      rw [same, none]
      exact .pure _

theorem flags_read (x : Section) {fuel : Nat} (enough : 2 < fuel) :
    Reads (Reading.entries .BADOBJ .spent 0#8 (fun A _ TMPB => rsFlag A TMPB) fuel 0#8)
      (woFlags x.flags ++ [0#8]) x.flags := by
  have each : Reads.Entries 0#8 (fun A _ TMPB => rsFlag A TMPB) (fun A => [A])
      (fun TMPB A => A ||| TMPB) 0#8 (woFlags x.flags) := by
    intro before A after split
    have inside : A ∈ woFlags x.flags := by
      rw [← split]
      exact List.mem_append_right before List.mem_cons_self
    have bit : A = 1#8 ∨ A = 2#8 := by
      rw [woFlags, List.mem_append] at inside
      rcases inside with bss | const
      · split at bss
        · cases bss
        · exact .inl (List.mem_singleton.mp bss)
      · split at const
        · cases const
        · exact .inr (List.mem_singleton.mp const)
    refine ⟨A, [], ?_, rfl, ?_⟩
    · rcases bit with rfl | rfl <;> decide
    · rcases bit with rfl | rfl <;> exact .pure _
  have few : (woFlags x.flags).length < fuel := by
    have two : (woFlags x.flags).length ≤ 2 := by
      rcases x.flags_cases with same | same | same | same <;> rw [same] <;> decide
    omega
  have all := Reads.entries Fatal.BADOBJ .spent each few
  have sum : (woFlags x.flags).foldl (fun TMPB A => A ||| TMPB) 0#8 = x.flags := by
    rcases x.flags_cases with same | same | same | same <;> rw [same] <;> rfl
  rw [sum, List.flatMap_singleton'] at all
  exact all

/-! A section. -/

theorem Named.mono {most most' : Nat} {name : Chars} (named : Named most name) (le : most ≤ most') :
    Named most' name :=
  ⟨named.some, named.nonul, Nat.le_trans named.fits le⟩

theorem decstr_digits (v : Word) : 0#8 ∉ decstr v ∧ (decstr v).length ≤ 5 := by
  constructor
  · rw [decstr, List.mem_map]
    rintro ⟨c, inside, nul⟩
    have digit := Nat.isDigit_of_mem_toDigits (by decide) (by decide) inside
    rw [Char.isDigit, Bool.and_eq_true, decide_eq_true_eq, decide_eq_true_eq] at digit
    have low : 48 ≤ c.toNat := digit.1
    have high : c.toNat ≤ 57 := digit.2
    have zero := congrArg BitVec.toNat nul
    rw [Asmlink.ch, BitVec.toNat_ofNat] at zero
    change c.toNat % 256 = 0 at zero
    omega
  · rw [decstr, List.length_map, Nat.length_toDigits_le_iff (by decide) (by decide)]
    exact Nat.lt_trans v.isLt (by decide)

theorem Symbol.shown_named (y : Symbol) : Named SYMMAX y.shown := by
  obtain ⟨some, nonul, fits⟩ := y.named
  rw [NAMEMAX] at fits
  rw [Symbol.shown]
  cases y.ctx with
  | none =>
      rw [Option.map_none, Option.getD_none, List.append_nil]
      exact ⟨some, nonul, Nat.le_trans fits (by decide)⟩
  | some ctx =>
      obtain ⟨digits, five⟩ := decstr_digits ctx
      rw [Option.map_some, Option.getD_some]
      refine ⟨fun none => some (List.append_eq_nil_iff.mp none).1, ?_, ?_⟩
      · rw [List.mem_append, List.mem_cons, not_or, not_or]
        exact ⟨nonul, by decide, digits⟩
      · rw [List.length_append, List.length_cons, SYMMAX]
        omega

theorem woSyms_named (B : Byte) (x : Section) : ∀ y ∈ woSyms o B x, Named SYMMAX y.1 := by
  intro y inside
  rw [woSyms, List.mem_append, List.mem_filterMap] at inside
  rcases inside with base | ⟨z, -, picked⟩
  · split at base
    · rw [List.mem_singleton.mp base]
      obtain ⟨some, nonul, fits⟩ := x.named
      refine ⟨List.cons_ne_nil _ _, ?_, ?_⟩
      · show 0#8 ∉ 2#8 :: x.name
        rw [List.mem_cons, not_or]
        exact ⟨by decide, nonul⟩
      · show (2#8 :: x.name).length ≤ SYMMAX
        rw [List.length_cons, SYMMAX]
        rw [SNAMEMAX] at fits
        omega
    · cases base
  · split at picked
    · cases picked
    · obtain ⟨v, -, rfl⟩ := Option.map_eq_some_iff.mp picked
      exact z.shown_named

theorem woExports_named (B : Byte) : ∀ y ∈ woExports o B, Named SYMMAX y.1 := by
  intro y inside
  rw [woExports, List.mem_filterMap] at inside
  obtain ⟨name, exported, picked⟩ := inside
  obtain ⟨z, -, picked⟩ := Option.bind_eq_some_iff.mp picked
  split at picked
  · cases picked
  · obtain ⟨v, -, rfl⟩ := Option.map_eq_some_iff.mp picked
    exact (o.named name exported).mono (by decide)

/-- What LINK makes of a section. -/
def linkSect (file : Nat) (B : Byte) (x : Section) : Sect where
  file := file
  flags := x.flags
  size := x.size
  locals := ((woSyms o B x).map linkSym).reverse
  exports := ((woExports o B).map linkSym).reverse
  relocs := (x.relocs.map (linkReloc o)).reverse
  code := x.code
  name := x.name
  named := x.named.some
  whole := x.whole_read

theorem woSym_length (ys : List (Chars × Word)) : ys.length ≤ (ys.flatMap woSym).length :=
  Reads.length_le fun _ _ => List.append_ne_nil_of_right_ne_nil _ (List.cons_ne_nil _ _)

theorem relocs_read {rs : List Relocation} (fits : ∀ r ∈ rs, (woExpr o r).length ≤ 250)
    {fuel : Nat} (enough : (rs.flatMap (woreloc o)).length < fuel) :
    Reads (Reading.entries .BADOBJ .spent 0#8 (fun A _ rs => rsReloc fuel A rs) fuel [])
      (rs.flatMap (woreloc o) ++ [0#8]) (rs.map (linkReloc o)).reverse := by
  have each : Reads.Entries 0#8 (fun A _ rs => rsReloc fuel A rs) (woreloc o)
      (fun rs r => linkReloc o r :: rs) [] rs := by
    intro before r after split
    have inside : r ∈ rs := by
      rw [← split]
      exact List.mem_append_right before List.mem_cons_self
    have room : (woreloc o r).length ≤ fuel := by
      rw [← split, List.flatMap_append, List.flatMap_cons, List.length_append, List.length_append]
        at enough
      omega
    obtain ⟨A, more, first, written, one⟩ := readreloc_reads o (fits r inside) room
    exact ⟨A, more, first, written, one.map _⟩
  have few : rs.length < fuel := by
    refine Nat.lt_of_le_of_lt (@Reads.length_le _ _ (woreloc o) rs fun r _ => ?_) enough
    exact List.append_ne_nil_of_right_ne_nil _ (List.cons_ne_nil _ _)
  have all := Reads.entries Fatal.BADOBJ .spent each few
  rw [foldl_heads, List.append_nil] at all
  exact all

theorem readsect_reads (file : Nat) (B : Byte) {x : Section}
    (fits : ∀ r ∈ x.relocs, (woExpr o r).length ≤ 250) {fuel : Nat}
    (enough : (wosect o B x).length ≤ fuel) :
    ∃ A more, A ≠ 0#8 ∧ wosect o B x = A :: more ∧
      Reads (readsect fuel file A) more (linkSect o file B x) := by
  obtain ⟨A, more, first, written, name⟩ := ostring_reads x.named (by decide : SNAMEMAX ≤ SYMMAX)
  have locals := woSym_length (woSyms o B x)
  have exports := woSym_length (woExports o B)
  rw [wosect] at enough ⊢
  simp only [List.length_append, List.length_singleton] at enough
  have long : 0 < (sputs x.name).length := by
    rw [written]
    exact Nat.succ_pos _
  rw [written] at enough ⊢
  simp only [wordBytes, List.length_cons] at enough
  have flags := @flags_read x fuel (by omega)
  have symbols := readsyms_reads (woSyms_named o B x) (by omega : (woSyms o B x).length < fuel)
  have exported := readsyms_reads (woExports_named o B) (by omega : (woExports o B).length < fuel)
  have relocs := relocs_read o fits (by omega : (x.relocs.flatMap (woreloc o)).length < fuel)
  have code := (rsCode_reads x).map fun code : { code // Chunked _ code } =>
    ({ linkSect o file B x with code := code.1, whole := code.2 } : Sect)
  have whole := name.bind (f := fun name => do
    let flags ← Reading.entries .BADOBJ .spent 0#8 (fun A _ TMPB => rsFlag A TMPB) fuel 0#8
    let locals ← readsyms fuel
    let exports ← readsyms fuel
    let relocs ← Reading.entries .BADOBJ .spent 0#8 (fun A _ rs => rsReloc fuel A rs) fuel []
    let size ← oword
    let code ← rsCode flags size
    pure ({ file, flags, size, locals, exports, relocs, code := code.1, name := name.1,
            named := name.2, whole := code.2 } : Sect))
    (flags.bind (symbols.bind (exported.bind (relocs.bind ((oword_reads x.size).bind code)))))
  simp only [List.append_assoc, List.cons_append] at whole ⊢
  exact ⟨A, _, first, rfl, whole⟩

/-! Files. -/

theorem rfMagic_reads (M : List Byte) : Reads (rfMagic M) M () := by
  induction M with
  | nil => exact .pure ()
  | cons c M ih =>
      refine .head c ?_
      rw [if_neg (not_not.mpr rfl)]
      exact ih

/-- A file's sections, as LINK has them: from the newest on. -/
def linkObject (file : Nat) : List Sect := o.numbered.map fun x => linkSect o file x.1 x.2

/-- Every relocation has room in LINK's buffer. -/
def Object.Fits : Prop := ∀ x ∈ o.sects, ∀ r ∈ x.relocs, (woExpr o r).length ≤ 250

theorem numbered_sects {x : Byte × Section} (inside : x ∈ o.numbered) : x.2 ∈ o.sects := by
  rw [Object.numbered, List.mem_reverse, List.mem_map] at inside
  obtain ⟨y, among, rfl⟩ := inside
  exact List.fst_mem_of_mem_zipIdx among

theorem foldl_ends {α γ : Type} (g : α → γ) (xs : List α) (ys : List γ) :
    xs.foldl (fun ys x => ys ++ [g x]) ys = ys ++ xs.map g := by
  induction xs generalizing ys with
  | nil => exact (List.append_nil ys).symm
  | cons x xs ih => rw [List.foldl_cons, ih, List.map_cons, List.append_assoc, List.singleton_append]

theorem readfile_reads (fits : o.Fits) {fuel : Nat} (enough : (writeobj o).length ≤ fuel)
    (file : Nat) (SECTS : List Sect) :
    Reads (readfile magic fuel file SECTS) (writeobj o) (SECTS ++ linkObject o file) := by
  have each : Reads.Entries 0#8 (fun A _ SECTS => rfSect fuel file A SECTS)
      (fun x : Byte × Section => wosect o x.1 x.2)
      (fun SECTS x => SECTS ++ [linkSect o file x.1 x.2]) SECTS o.numbered := by
    intro before x after split
    have inside : x ∈ o.numbered := by
      rw [← split]
      exact List.mem_append_right before List.mem_cons_self
    have room : (wosect o x.1 x.2).length ≤ fuel := by
      rw [writeobj, ← split, List.flatMap_append, List.flatMap_cons] at enough
      simp only [List.length_append] at enough
      omega
    obtain ⟨A, more, first, written, one⟩ :=
      readsect_reads o file x.1 (fits x.2 (numbered_sects o inside)) room
    exact ⟨A, more, first, written, one.map _⟩
  have few : o.numbered.length < fuel := by
    have shorter := @Reads.length_le _ _ (fun x : Byte × Section => wosect o x.1 x.2) o.numbered
      fun x _ none => by
        rw [wosect] at none
        simp only [List.append_eq_nil_iff, wordBytes, List.cons_ne_nil, and_false, false_and] at none
    rw [writeobj] at enough
    simp only [List.length_append, List.length_singleton] at enough
    omega
  have all := Reads.entries Fatal.BADOBJ .spent each few
  rw [foldl_ends] at all
  have whole := (rfMagic_reads magic).bind (f := fun _ =>
    Reading.entries .BADOBJ .spent 0#8 (fun A _ SECTS => rfSect fuel file A SECTS) fuel SECTS) all
  rw [← List.append_assoc] at whole
  exact whole

/-- The files' sections, numbered from CURFILE on. -/
def linkObjects : (CURFILE : Nat) → List Object → List Sect
  | _, [] => []
  | CURFILE, o :: os => linkObject o CURFILE ++ linkObjects (CURFILE + 1) os

theorem readfiles_reads {os : List Object} (fits : ∀ o ∈ os, o.Fits) {fuel : Nat}
    (enough : ∀ o ∈ os, (writeobj o).length ≤ fuel) (CURFILE : Nat) (SECTS : List Sect) :
    readfiles magic fuel CURFILE SECTS (os.map fun o => some (writeobj o)) =
      .ok (SECTS ++ linkObjects CURFILE os) := by
  induction os generalizing CURFILE SECTS with
  | nil => rw [List.map_nil, readfiles, linkObjects, List.append_nil]
  | cons o os ih =>
      have one := readfile_reads o (fits o List.mem_cons_self) (enough o List.mem_cons_self)
        CURFILE SECTS []
      rw [List.append_nil] at one
      rw [List.map_cons, readfiles, one]
      dsimp only
      rw [ih (fun o' inside => fits o' (List.mem_cons_of_mem o inside))
        (fun o' inside => enough o' (List.mem_cons_of_mem o inside)), linkObjects, List.append_assoc]

/-- A word in a section "c" that is to be 3 more than where the section is. -/
def sampleRelocation : Relocation where
  size := 2
  off := 0
  const := 3
  terms :=
    { list := [⟨.sect 1, 1⟩]
      few := by decide
      left := by decide
      apart := by decide }
  some := by decide
  named := by
    intro t inside name same
    rw [List.mem_singleton.mp inside] at same
    cases same

def sampleSection : Section where
  name := [Asmlink.ch 'c']
  flags := 0
  len := 2
  code := [[0, 0]]
  relocs := [sampleRelocation]
  named := ⟨by decide, by decide, by decide⟩
  known := by decide
  whole := ⟨by decide, by decide, by rw [Chunked]; decide⟩

/-- A local symbol at 1. -/
def sampleSymbol : Symbol where
  name := [Asmlink.ch 'l']
  ctx := some 12
  set := false
  sect := 1
  value := some { EVAL := 1, COMPLEX := false, EVNT := .none }
  named := ⟨by decide, by decide, by decide⟩

def sampleObject : Object where
  sects := [sampleSection]
  syms := [sampleSymbol]
  exports := []
  symfind := fun _ => none
  named := by rintro name ⟨⟩

end Pugputer.Objects

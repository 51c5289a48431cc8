import Pugputer.Edit.Doccopy
import Pugputer.Lib.FirstIn

namespace Pugputer.Edit

/-! DOSEARCH: from just after the cursor to the end, then from the start round to the cursor. -/

def upcase (a : Byte) : Byte := if 0x61 ≤ a.toNat ∧ a.toNat ≤ 0x7A then a - 0x20#8 else a

/-- What DOSEARCH says; nothing where the search didn't wrap. -/
inductive SearchMsg
  | none | wrapped | onlyone | notfound
  deriving DecidableEq

variable (layout : Layout)

/-- SEARCHSTR, up to its NUL, is at `x`. -/
def matchat (pages : Pages) : (searchstr : List Byte) → (x : Nat) → Bool
  | [], _ => true
  | a :: rest, x => upcase (layout.view pages x) = upcase a && matchat pages rest (x + 1)

/-- SR_LOOP: the first of `y` places from `x` on. -/
def srLoop (pages : Pages) (searchstr : List Byte) (x : Nat) : (y : Nat) → Option Nat
  | 0 => none
  | y + 1 =>
      if matchat layout pages searchstr x then some x else srLoop pages searchstr (x + 1) y

namespace Editor

/-- The first position from `SFROM` to `STO`, a chunk at a time; `none` out of fuel. -/
def scanrange (searchstr : List Byte) (STO : Nat) :
    (fuel : Nat) → Editor → (SFROM : Nat) → Option (Option Nat × Editor)
  | 0, _, _ => none
  | fuel + 1, s, SFROM =>
      if STO < SFROM then some (none, s)
      else
        let SRN := min (min (STO - SFROM + 1) 0xFFFF) SCHUNK
        let DCN := SRN + searchstr.length - 1
        let s := doccopy layout.toSetup DCN s SFROM DCN layout.SBUF
        match srLoop layout s.pages searchstr layout.SBUF SRN with
        | some x => some (some (SFROM + (x - layout.SBUF)), s)
        | none => scanrange searchstr STO fuel s (SFROM + SRN)

/-- SE_GO. -/
def seGo (fuel : Nat) (s : Editor) (msg : SearchMsg) (SFOUND : Nat) : Option (SearchMsg × Editor) :=
  (s.gotoabs layout.toSetup SFOUND fuel).map (msg, ·)

def dosearch (fuel : Nat) (s : Editor) (searchstr : List Byte) : Option (SearchMsg × Editor) :=
  let SPLEN := searchstr.length
  let SSAVE := s.BLEN + s.curpos layout.toSetup
  let doclen := s.BLEN + s.ALEN + s.textlen layout.toSetup
  if doclen < SPLEN then some (.notfound, s)
  else
    let SLAST := doclen - SPLEN
    match scanrange layout searchstr SLAST fuel s (SSAVE + 1) with
    | none => none
    | some (some SFOUND, s) => seGo layout fuel s .none SFOUND
    | some (none, s) =>
        match scanrange layout searchstr (min SSAVE SLAST) fuel s 0 with
        | none => none
        | some (none, s) => some (.notfound, s)
        | some (some SFOUND, s) =>
            seGo layout fuel s (if SFOUND = SSAVE then .onlyone else .wrapped) SFOUND

end Editor

variable {layout : Layout} {s : Editor} {pages : Pages} {searchstr doc : List Byte}

/-- The string is at this position, letters compared without case. -/
def Occurs (searchstr doc : List Byte) (p : Nat) : Prop :=
  searchstr.map upcase <+: (doc.drop p).map upcase

theorem Occurs.inside {p : Nat} (occurs : Occurs searchstr doc p) :
    searchstr.length ≤ doc.length - p := by
  have shorter := List.IsPrefix.length_le occurs
  rwa [List.length_map, List.length_map, List.length_drop] at shorter

theorem matchat_iff {text : List Byte} {x : Nat}
    (same : ∀ i < searchstr.length, text[i]? = some (layout.view pages (x + i))) :
    matchat layout pages searchstr x = true ↔
      searchstr.map upcase <+: text.map upcase := by
  induction searchstr generalizing text x with
  | nil => exact iff_of_true rfl (List.nil_prefix)
  | cons a rest ih =>
      cases text with
      | nil => cases same 0 (Nat.zero_lt_succ _)
      | cons b text =>
          have first := same 0 (Nat.zero_lt_succ _)
          rw [List.getElem?_cons_zero, Nat.add_zero, Option.some.injEq] at first
          have later (i : Nat) (small : i < rest.length) :
              text[i]? = some (layout.view pages (x + 1 + i)) := by
            have there := same (i + 1) (Nat.succ_lt_succ small)
            rwa [List.getElem?_cons_succ, Nat.add_comm i, ← Nat.add_assoc] at there
          rw [matchat, Bool.and_eq_true, decide_eq_true_eq, ih later, List.map_cons, List.map_cons,
            List.cons_prefix_cons, first]
          exact and_congr_left' eq_comm

theorem srLoop_first {base p x y : Nat} (from_base : base ≤ x) (nonempty : searchstr ≠ [])
    (same : ∀ i < x - base + y + (searchstr.length - 1),
      doc[p + i]? = some (layout.view pages (base + i))) :
    FirstIn (fun q => Occurs searchstr doc (p + (q - base))) x (x + y)
      (srLoop layout pages searchstr x y) := by
  have positive := List.length_pos_of_ne_nil nonempty
  induction y generalizing x with
  | zero => exact .empty (Nat.le_refl _)
  | succ y ih =>
      have text (i : Nat) (small : i < searchstr.length) :
          (doc.drop (p + (x - base)))[i]? = some (layout.view pages (x + i)) := by
        have there := same (x - base + i) (by omega)
        have place : base + (x - base + i) = x + i := by omega
        rw [place] at there
        rw [List.getElem?_drop, Nat.add_assoc, there]
      rw [srLoop]
      by_cases matches_ : matchat layout pages searchstr x = true
      · rw [if_pos matches_]
        exact .here (by omega) ((matchat_iff text).mp matches_)
      · rw [if_neg matches_]
        have rest := ih (x := x + 1) (by omega) fun i small => same i (by omega)
        have end_ : x + 1 + y = x + (y + 1) := by omega
        rw [end_] at rest
        refine FirstIn.append (Nat.le_succ x) (fun q above below => ?_) rest
        obtain rfl : q = x := by omega
        exact fun occurs => matches_ ((matchat_iff text).mpr occurs)

/-- SCANRANGE finds the first place the string is at, from `SFROM` to `STO`. -/
theorem scanrange_first {fuel SFROM STO : Nat} (good : Good layout.toSetup s)
    (nonempty : searchstr ≠ []) (fits : searchstr.length ≤ NAMEMAX)
    (inside : STO + searchstr.length ≤ (s.whole layout.toSetup).length)
    (enough : STO + 1 - SFROM < fuel) :
    ∃ found s', Editor.scanrange layout searchstr STO fuel s SFROM = some (found, s') ∧
      Aside layout.toSetup s s' ∧
      FirstIn (Occurs searchstr (s.whole layout.toSetup)) SFROM (STO + 1) found := by
  have positive := List.length_pos_of_ne_nil nonempty
  obtain ⟨low, high⟩ := layout.sbuf
  induction fuel generalizing s SFROM with
  | zero => exact absurd enough (Nat.not_lt_zero _)
  | succ fuel ih =>
      rw [Editor.scanrange]
      by_cases past : STO < SFROM
      · rw [if_pos past]
        exact ⟨none, s, rfl, .refl good.mapped, .empty past⟩
      rw [if_neg past]
      dsimp only
      generalize chunk : min (min (STO - SFROM + 1) 0xFFFF) SCHUNK = SRN
      have some_ : 1 ≤ SRN ∧ SRN ≤ STO - SFROM + 1 ∧ SRN ≤ SCHUNK := by
        rw [← chunk]
        refine ⟨Nat.le_min.mpr ⟨Nat.le_min.mpr ⟨Nat.succ_pos _, by decide⟩, by decide⟩,
          Nat.le_trans (Nat.min_le_left ..) (Nat.min_le_left ..), Nat.min_le_right ..⟩
      clear chunk
      have copied : Copied layout.toSetup s SFROM (SRN + searchstr.length - 1) layout.SBUF
          (Editor.doccopy layout.toSetup (SRN + searchstr.length - 1) s SFROM
            (SRN + searchstr.length - 1) layout.SBUF) :=
        doccopy_spec good (Nat.le_refl _) (by omega) low (by omega)
      generalize Editor.doccopy layout.toSetup (SRN + searchstr.length - 1) s SFROM
        (SRN + searchstr.length - 1) layout.SBUF = s₁ at copied ⊢
      have aside := copied.toAside
      have shifted := aside.shifted good
      have text (i : Nat) (small : i < layout.SBUF - layout.SBUF + SRN + (searchstr.length - 1)) :
          (s.whole layout.toSetup)[SFROM + i]? = some (layout.view s₁.pages (layout.SBUF + i)) := by
        rw [whole_char good (by omega), copied.there i (by omega)]
      have looped := (srLoop_first (Nat.le_refl layout.SBUF) nonempty text).shift
      cases found : srLoop layout s₁.pages searchstr layout.SBUF SRN with
      | some x =>
          rw [found] at looped
          exact ⟨_, s₁, rfl, aside, looped.widen (by omega)⟩
      | none =>
          rw [found] at looped
          have room : STO + 1 - (SFROM + SRN) < fuel := by omega
          obtain ⟨found', s', ran, asideOn, first⟩ := ih shifted.good
            (by rw [shifted.whole]; exact inside) room
          rw [shifted.whole] at first
          exact ⟨found', s', ran, aside.trans asideOn, .append (Nat.le_add_right _ _) looped first⟩

/-- Where the search should go: the first place after the cursor, or else the first of all. -/
def Next (searchstr doc : List Byte) (cursor p : Nat) : Prop :=
  (cursor < p ∧ Occurs searchstr doc p ∧
      ∀ q, cursor < q → q < p → ¬Occurs searchstr doc q) ∨
    ((∀ q, cursor < q → ¬Occurs searchstr doc q) ∧ Occurs searchstr doc p ∧
      ∀ q < p, ¬Occurs searchstr doc q)

/-- A search and where it leaves the cursor: at `p` unless GOTOABS can't move. -/
structure Searched (setup : Setup) (s : Editor) (searchstr : List Byte) (msg : SearchMsg)
    (s' : Editor) : Prop where
  good : Good setup s'
  whole : s'.whole setup = s.whole setup
  notfound : msg = .notfound ↔ ∀ p, ¬Occurs searchstr (s.whole setup) p
  stays : msg = .notfound → s'.curabs setup = s.curabs setup
  goes : ∀ p, Next searchstr (s.whole setup) (s.curabs setup) p → s'.curabs setup = p ∨
    (Stuck setup s' ∧ (p < s'.BLEN ∨ s'.BLEN + s'.textlen setup < p))

theorem Next.unique {cursor p q : Nat} (first : Next searchstr doc cursor p)
    (second : Next searchstr doc cursor q) : p = q := by
  rcases first with ⟨past, occurs, before⟩ | ⟨absent, occurs, before⟩ <;>
    rcases second with ⟨past', occurs', before'⟩ | ⟨absent', occurs', before'⟩
  · rcases Nat.lt_trichotomy p q with less | same | more
    · exact absurd occurs (before' p past less)
    · exact same
    · exact absurd occurs' (before q past' more)
  · exact absurd occurs (absent' p past)
  · exact absurd occurs' (absent q past')
  · rcases Nat.lt_trichotomy p q with less | same | more
    · exact absurd occurs (before' p less)
    · exact same
    · exact absurd occurs' (before q more)

theorem seGo_searched {s₁ : Editor} {fuel p : Nat} {msg : SearchMsg}
    (good : Good layout.toSetup s) (aside : Aside layout.toSetup s s₁)
    (next : Next searchstr (s.whole layout.toSetup) (s.curabs layout.toSetup) p)
    (inside : p ≤ (s.whole layout.toSetup).length) (found : msg ≠ .notfound)
    (enough : 2 * (s.whole layout.toSetup).length < fuel) :
    ∃ msg' s', Editor.seGo layout fuel s₁ msg p = some (msg', s') ∧
      Searched layout.toSetup s searchstr msg' s' := by
  have shifted := aside.shifted good
  have length := whole_length shifted.good
  rw [shifted.whole] at length
  have room : s₁.BLEN - p + (p - (s₁.BLEN + s₁.textlen layout.toSetup)) < fuel := by omega
  obtain ⟨s', ran, kept, ends⟩ :=
    gotoabs_spec shifted.good (by rw [shifted.whole]; exact inside) room
  have occurs : Occurs searchstr (s.whole layout.toSetup) p :=
    next.elim (fun ahead => ahead.2.1) (fun wrapped => wrapped.2.1)
  refine ⟨msg, s', ?_, kept.good, kept.whole.trans shifted.whole,
    ⟨fun same => absurd same found, fun absent => absurd occurs (absent p)⟩,
    fun same => absurd same found, fun q other => ?_⟩
  · rw [Editor.seGo, ran]
    rfl
  · rw [other.unique next]
    exact ends

/-- DOSEARCH finds the next occurrence. -/
theorem search_finds (good : Good layout.toSetup s) (nonempty : searchstr ≠ [])
    (fits : searchstr.length ≤ 64) :
    ∃ fuel msg s', Editor.dosearch layout fuel s searchstr = some (msg, s') ∧
      Searched layout.toSetup s searchstr msg s' := by
  have positive := List.length_pos_of_ne_nil nonempty
  have length := whole_length good
  generalize docEq : s.whole layout.toSetup = doc at length
  refine ⟨2 * doc.length + 3, ?_⟩
  have doclen : s.BLEN + s.ALEN + s.textlen layout.toSetup = doc.length := by omega
  have cursor : s.BLEN + s.curpos layout.toSetup = s.curabs layout.toSetup := rfl
  rw [Editor.dosearch]
  dsimp only
  rw [doclen, cursor]
  have tooFar {p : Nat} (past : doc.length < p + searchstr.length) :
      ¬Occurs searchstr doc p := fun occurs => by
    have inside := occurs.inside
    omega
  by_cases long : doc.length < searchstr.length
  · rw [if_pos long]
    refine ⟨.notfound, s, rfl, good, rfl, iff_of_true rfl fun p => ?_, fun _ => rfl, fun p next => ?_⟩
    · rw [docEq]
      exact tooFar (by omega)
    · rw [docEq] at next
      have occurs := next.elim (fun ahead => ahead.2.1) (fun wrapped => wrapped.2.1)
      exact absurd occurs (tooFar (by omega))
  rw [if_neg long]
  generalize lastEq : doc.length - searchstr.length = SLAST
  have turns : SLAST + 1 - (s.curabs layout.toSetup + 1) < 2 * doc.length + 3 := by omega
  obtain ⟨found, s₁, ran, aside, first⟩ :=
    scanrange_first good nonempty fits (by rw [docEq]; omega) turns
  rw [docEq] at first
  rw [ran]
  cases found with
  | some p =>
      obtain ⟨past, below, occurs, before⟩ := first
      exact seGo_searched good aside (.inl ⟨past, docEq.symm ▸ occurs, by rw [docEq]; exact before⟩)
        (by rw [docEq]; omega) (by decide) (by rw [docEq]; omega)
  | none =>
      have ahead (q : Nat) (past : s.curabs layout.toSetup < q) : ¬Occurs searchstr doc q := by
        by_cases early : q < SLAST + 1
        · exact first q past early
        · exact tooFar (by omega)
      have shifted := aside.shifted good
      have turns' : min (s.curabs layout.toSetup) SLAST + 1 - 0 < 2 * doc.length + 3 := by omega
      obtain ⟨found', s₂, ran', aside', first'⟩ :=
        scanrange_first shifted.good nonempty fits (by rw [shifted.whole, docEq]; omega) turns'
      rw [shifted.whole, docEq] at first'
      dsimp only
      rw [ran']
      have both := aside.trans aside'
      cases found' with
      | none =>
          have absent (p : Nat) : ¬Occurs searchstr doc p := by
            by_cases early : p < min (s.curabs layout.toSetup) SLAST + 1
            · exact first' p (Nat.zero_le p) early
            · by_cases past : s.curabs layout.toSetup < p
              · exact ahead p past
              · exact tooFar (by omega)
          have shifted' := both.shifted good
          refine ⟨.notfound, s₂, rfl, shifted'.good, shifted'.whole, iff_of_true rfl ?_,
            fun _ => shifted'.curabs, fun p next => ?_⟩
          · rw [docEq]
            exact absent
          · rw [docEq] at next
            have occurs := next.elim (fun ahead => ahead.2.1) (fun wrapped => wrapped.2.1)
            exact absurd occurs (absent p)
      | some p =>
          obtain ⟨-, below, occurs, before⟩ := first'
          refine seGo_searched good both (.inr ⟨?_, docEq.symm ▸ occurs, fun q less => ?_⟩)
            (by rw [docEq]; omega) ?_ (by rw [docEq]; omega)
          · rw [docEq]
            exact ahead
          · rw [docEq]
            exact before q (Nat.zero_le q) less
          · split <;> decide

def sampleLayout : Layout where
  toSetup := sampleSetup
  buffers := by decide

theorem search_finds_sample : ∃ fuel msg s',
    Editor.dosearch sampleLayout fuel (sampleEditor 0x8003 0xE000 0xEFFE 2) [0x61#8] =
      some (msg, s') ∧
    Searched sampleSetup (sampleEditor 0x8003 0xE000 0xEFFE 2) [0x61#8] msg s' :=
  search_finds (sample_good (by decide) (by decide) (by decide) (by decide) (by decide))
    (by decide) (by decide)

/-- A cut buffer that fills the arena leaves the cursor where it was, though the text has the
string. -/
theorem search_stuck : ¬∀ (layout : Layout) (s : Editor) (searchstr : List Byte),
    Good layout.toSetup s → searchstr ≠ [] → searchstr.length ≤ 64 →
    ∃ fuel msg s', Editor.dosearch layout fuel s searchstr = some (msg, s') ∧
      ∀ p, Next searchstr (s.whole layout.toSetup) (s.curabs layout.toSetup) p →
        s'.curabs layout.toSetup = p := by
  intro claim
  obtain ⟨fuel, msg, s', ran, goes⟩ := claim sampleLayout (sampleEditor 0x8000 0x8000 0x8000 1)
    [0x41#8] (sample_good (by decide) (by decide) (by decide) (by decide) (by decide)) (by decide)
    (by decide)
  have text : (sampleEditor 0x8000 0x8000 0x8000 1).whole sampleLayout.toSetup = [0x41#8] := by
    decide
  have next : Next [0x41#8] [0x41#8] 1 0 := by
    refine .inr ⟨fun q past occurs => ?_, by rw [Occurs]; decide, fun q less =>
      absurd less (Nat.not_lt_zero q)⟩
    have inside := occurs.inside
    rw [List.length_singleton] at inside
    omega
  have moved := goes 0 (by rw [text]; exact next)
  cases fuel with
  | zero => cases ran
  | succ fuel =>
      have stays : (Editor.dosearch sampleLayout (fuel + 1) (sampleEditor 0x8000 0x8000 0x8000 1)
          [0x41#8]).map (fun out => out.2.curabs sampleSetup) = some 1 := rfl
      rw [ran] at stays
      exact absurd (moved.symm.trans (Option.some.inj stays)) (by decide)

end Pugputer.Edit

import Mathlib.Data.List.GetD
import Pugputer.Dos.Exec

namespace Pugputer.Dos

variable {g : Geometry} {l : Layout} {find : Lookup} {mem : Word → Byte}

/-! What is stored. -/

theorem next_place (a : Word) (i : Nat) :
    a + 1 + BitVec.ofNat 16 i = a + BitVec.ofNat 16 (i + 1) := by
  rw [BitVec.ofNat_add, BitVec.add_comm (BitVec.ofNat 16 i), BitVec.add_assoc]
  rfl

theorem place_inj {a : Word} {i j : Nat} (small : i < 0x10000) (small' : j < 0x10000)
    (same : a + BitVec.ofNat 16 i = a + BitVec.ofNat 16 j) : i = j := by
  have value := congrArg BitVec.toNat (BitVec.add_right_inj a |>.mp same)
  rwa [BitVec.toNat_ofNat, BitVec.toNat_ofNat, Nat.mod_eq_of_lt small,
    Nat.mod_eq_of_lt small'] at value

theorem store_frame {a c : Word} {bytes : List Byte}
    (apart : ∀ i < bytes.length, c ≠ a + BitVec.ofNat 16 i) : store a bytes mem c = mem c := by
  induction bytes generalizing a mem with
  | nil => rfl
  | cons b rest ih =>
      have first : c ≠ a := by
        have := apart 0 (Nat.succ_pos _)
        rwa [BitVec.add_zero] at this
      rw [store, ih fun i inside => ?_, Function.update_of_ne first]
      rw [next_place]
      exact apart (i + 1) (Nat.succ_lt_succ inside)

/-- A run of bytes that does not go round the memory. -/
theorem store_at {a : Word} {bytes : List Byte} (fits : bytes.length ≤ 0x10000) {i : Nat}
    (inside : i < bytes.length) : store a bytes mem (a + BitVec.ofNat 16 i) = bytes[i] := by
  induction bytes generalizing a mem i with
  | nil => exact absurd inside (Nat.not_lt_zero i)
  | cons b rest ih =>
      rw [List.length_cons] at fits inside
      rw [store]
      cases i with
      | zero =>
          rw [store_frame, BitVec.add_zero, Function.update_self, List.getElem_cons_zero]
          intro j small same
          rw [next_place] at same
          exact absurd (place_inj (by omega) (by omega) same) (Nat.succ_ne_zero j).symm
      | succ i =>
          rw [← next_place, ih (by omega) (by omega), List.getElem_cons_succ]

theorem store_append (a : Word) (first rest : List Byte) :
    store a (first ++ rest) mem = store (a + BitVec.ofNat 16 first.length) rest (store a first mem) := by
  induction first generalizing a mem with
  | nil => rw [List.nil_append, List.length_nil, BitVec.add_zero, store]
  | cons b first ih => rw [List.cons_append, store, ih, store, next_place, List.length_cons]

/-! The command tail. -/

/-- What EX_ARGLOOP copies, from a place that it does not copy to on the way. -/
theorem exArgloop_eq {b : Nat} {y x : Word}
    (apart : ∀ k, 0 < k → k < b → y + BitVec.ofNat 16 k ≠ x) :
    exArgloop b y x mem =
      (store x (((List.range b).map fun i => mem (y + BitVec.ofNat 16 i)).takeWhile (· ≠ 0)) mem,
        x + BitVec.ofNat 16
          (((List.range b).map fun i => mem (y + BitVec.ofNat 16 i)).takeWhile (· ≠ 0)).length) := by
  induction b generalizing y x mem with
  | zero => exact Prod.ext rfl (BitVec.add_zero x).symm
  | succ b ih =>
      have here : mem (y + BitVec.ofNat 16 0) = mem y := congrArg mem (BitVec.add_zero y)
      rw [exArgloop, List.range_succ_eq_map, List.map_cons, here]
      by_cases ends : mem y = 0
      · rw [if_pos ends, List.takeWhile_cons_of_neg (by simpa using ends)]
        exact Prod.ext rfl (BitVec.add_zero x).symm
      · rw [if_neg ends, List.takeWhile_cons_of_pos (by simpa using ends), ih fun k some small => ?_]
        · have later : (List.range b).map (fun i => Function.update mem x (mem y)
              (y + 1 + BitVec.ofNat 16 i)) =
              ((List.range b).map Nat.succ).map fun i => mem (y + BitVec.ofNat 16 i) := by
            rw [List.map_map]
            apply List.map_congr_left
            intro i member
            have small := List.mem_range.mp member
            rw [next_place, Function.update_of_ne (apart (i + 1) (Nat.succ_pos i) (by omega))]
            rfl
          rw [later, store, List.length_cons, next_place]
        · intro same
          rw [next_place, BitVec.ofNat_add, ← BitVec.add_assoc] at same
          exact apart k some (by omega) (BitVec.add_left_inj 1 |>.mp same)

/-- The copy takes the place of ARGBUF's string, with a byte of zero after it. -/
theorem exArgs_eq {y : Word}
    (apart : ∀ k, 0 < k → k < argmax → y + BitVec.ofNat 16 k ≠ BitVec.ofNat 16 l.argBuf) :
    exArgs l y mem = store (BitVec.ofNat 16 l.argBuf) (tail mem y ++ [0]) mem := by
  rw [store_append]
  unfold exArgs tail
  dsimp only
  by_cases none : y = 0
  · rw [if_pos none, if_pos none, List.length_nil, BitVec.add_zero]
    rfl
  · rw [if_neg none, if_neg none, exArgloop_eq apart]
    rfl

theorem tail_length (mem : Word → Byte) (y : Word) : (tail mem y).length ≤ argmax := by
  unfold tail
  split
  · exact Nat.zero_le _
  · have shorter := (List.takeWhile_prefix (· ≠ 0)
      (l := (List.range argmax).map fun i => mem (y + BitVec.ofNat 16 i))).length_le
    rwa [List.length_map, List.length_range] at shorter

theorem tail_nonzero {mem : Word → Byte} {y : Word} : ∀ b ∈ tail mem y, b ≠ 0 := by
  unfold tail
  split
  · exact fun b member => absurd member List.not_mem_nil
  · intro b member
    simpa using List.all_eq_true.mp List.all_takeWhile b member

theorem dosArgs_store {bytes : List Byte} (fits : bytes.length ≤ argmax)
    (nonzero : ∀ b ∈ bytes, b ≠ 0) :
    dosArgs l (store (BitVec.ofNat 16 l.argBuf) (bytes ++ [0]) mem) = bytes := by
  unfold argmax at fits
  have length : (bytes ++ [0]).length = bytes.length + 1 := List.length_append
  have found (i : Nat) (inside : i < (bytes ++ [0]).length) :
      store (BitVec.ofNat 16 l.argBuf) (bytes ++ [0]) mem (BitVec.ofNat 16 (l.argBuf + i)) =
        (bytes ++ [0])[i] := by
    rw [BitVec.ofNat_add, store_at (by omega) inside]
  have copied : (List.range bytes.length).map (fun i => store (BitVec.ofNat 16 l.argBuf)
      (bytes ++ [0]) mem (BitVec.ofNat 16 (l.argBuf + i))) = bytes := by
    apply List.ext_getElem
    · rw [List.length_map, List.length_range]
    · intro i _ inside
      rw [List.getElem_map, List.getElem_range, found i (by omega), List.getElem_append_left inside]
  have split : argmax + 1 = bytes.length + (argmax - bytes.length + 1) := by
    unfold argmax
    omega
  rw [dosArgs, split, List.range_add, List.range_succ_eq_map, List.map_append, copied,
    List.takeWhile_append_of_pos fun b member => by simpa using nonzero b member,
    List.map_cons, List.map_cons, Nat.add_zero, found _ (by omega), List.getElem_concat_length rfl,
    List.takeWhile_cons_of_neg (by decide), List.append_nil]

/-- B_ARGS gives what the last B_EXEC was passed. -/
theorem dosArgs_exArgs {y : Word}
    (apart : ∀ k, 0 < k → k < argmax → y + BitVec.ofNat 16 k ≠ BitVec.ofNat 16 l.argBuf) :
    dosArgs l (exArgs l y mem) = tail mem y := by
  rw [exArgs_eq apart, dosArgs_store (tail_length mem y) tail_nonzero]

/-- A place outside of DOS. -/
def Outside (l : Layout) (c : Word) : Prop := c.toNat < l.dosLoad ∨ l.dosEnd ≤ c.toNat

theorem Outside.ne {c : Word} (outside : Outside l c) {place i : Nat} (low : l.dosLoad ≤ place)
    (high : place + i < l.dosEnd) : c ≠ BitVec.ofNat 16 place + BitVec.ofNat 16 i := by
  rintro rfl
  have ram := l.ram
  rw [Outside, ← BitVec.ofNat_add, BitVec.toNat_ofNat, Nat.mod_eq_of_lt (by omega)] at outside
  omega

theorem exArgs_frame {c y : Word} (outside : Outside l c)
    (apart : ∀ k, 0 < k → k < argmax → y + BitVec.ofNat 16 k ≠ BitVec.ofNat 16 l.argBuf) :
    exArgs l y mem c = mem c := by
  have low := l.args
  have high := l.hdr
  have room := l.rest
  have length := tail_length mem y
  rw [exArgs_eq apart]
  refine store_frame fun i inside => outside.ne low ?_
  rw [List.length_append, List.length_singleton] at inside
  omega

/-- The header goes to DOS's own memory, and not to ARGBUF. -/
theorem store_hdr_frame {c : Word} (outside : Outside l c) {hdr : List Byte}
    (fits : hdr.length ≤ exeHdrsize) : store (BitVec.ofNat 16 l.hdrBuf) hdr mem c = mem c := by
  have low := l.args
  have high := l.hdr
  have room := l.rest
  exact store_frame fun i inside => outside.ne (by omega) (by omega)

theorem dosArgs_congr {mem' : Word → Byte}
    (same : ∀ i < argmax + 1, mem' (BitVec.ofNat 16 (l.argBuf + i)) =
      mem (BitVec.ofNat 16 (l.argBuf + i))) : dosArgs l mem' = dosArgs l mem := by
  rw [dosArgs, dosArgs]
  congr 1
  exact List.map_congr_left fun i member => same i (List.mem_range.mp member)

theorem dosArgs_hdr {hdr : List Byte} (fits : hdr.length ≤ exeHdrsize) :
    dosArgs l (store (BitVec.ofNat 16 l.hdrBuf) hdr mem) = dosArgs l mem := by
  have high := l.hdr
  have room := l.rest
  have ram := l.ram
  refine dosArgs_congr fun i small => store_frame fun j inside same => ?_
  have value := congrArg BitVec.toNat same
  rw [← BitVec.ofNat_add, BitVec.toNat_ofNat, BitVec.toNat_ofNat, Nat.mod_eq_of_lt (by omega),
    Nat.mod_eq_of_lt (by omega)] at value
  omega

/-! Bytes of the file. -/

/-- What reading leaves of a slot. -/
structure SameSlot (slot slot' : Slot) : Prop where
  inuse : slot'.inuse = slot.inuse
  mode : slot'.mode = slot.mode
  size : slot'.size = slot.size

theorem gets_length (n : Nat) (s : Open) : (gets g n s).1 = none ∧ (gets g n s).2.1.length = n ∨
    (gets g n s).1 ≠ none ∧ (gets g n s).2.1.length < n := by
  induction n generalizing s with
  | zero => exact .inl ⟨rfl, rfl⟩
  | succ n ih =>
      rw [gets]
      rcases fileGetbyte g s with ⟨a | b, s'⟩
      · exact .inr ⟨Option.some_ne_none a, Nat.succ_pos n⟩
      · refine (ih s').imp (fun whole => ⟨whole.1, ?_⟩) fun short => ⟨short.1, ?_⟩
        · exact congrArg Nat.succ whole.2
        · exact Nat.succ_lt_succ short.2

theorem gets_sameSlot (n : Nat) {s : Open} (reads : s.slot.Reads) :
    SameSlot s.slot (gets g n s).2.2.slot := by
  induction n generalizing s with
  | zero => exact ⟨rfl, rfl, rfl⟩
  | succ n ih =>
      rw [gets]
      by_cases more : s.slot.pos < s.slot.size
      · rw [fileGetbyte_eq reads more]
        rcases ran : selRead g (shr9 s.slot.pos) s with ⟨a | _, s'⟩
        · have same := Keeps.selRead.ran ran
          exact ⟨same.inuse, same.mode, same.size⟩
        · have same := Keeps.selRead.ran ran
          obtain ⟨inuse, mode, size⟩ := ih (s := { s' with slot := s'.slot.advance 1 })
            (same.reads reads)
          exact ⟨inuse.trans same.inuse, mode.trans same.mode, size.trans same.size⟩
      · rw [fileGetbyte_end reads (BitVec.not_lt.mp more)]
        exact ⟨rfl, rfl, rfl⟩

/-- FILE_READ: what it stores is no more than was asked for, and it counts so much only if all of
it has been read. -/
theorem fileRead_counts {n : Word} {fuel : Nat} {s : Open} (reads : s.slot.Reads)
    (enough : n.toNat < fuel) : ∃ result bytes s', fileRead g fuel n s = some (result, bytes, s') ∧
      bytes.length ≤ n.toNat ∧ SameSlot s.slot s'.slot ∧
      (result = .ok n ↔ (gets g n.toNat s).1 = none) ∧
      bytes = (gets g n.toNat s).2.1 ∧ s' = (gets g n.toNat s).2.2 := by
  have length := gets_length (g := g) n.toNat s
  refine ⟨_, _, _, fileRead_eq reads enough, ?_, gets_sameSlot n.toNat reads, ?_, rfl, rfl⟩
  · rcases length with ⟨-, whole⟩ | ⟨-, short⟩
    · exact Nat.le_of_eq whole
    · exact Nat.le_of_lt short
  · have bound := n.isLt
    have total (k : Nat) : (0 : Word) + BitVec.ofNat 16 k = BitVec.ofNat 16 k := BitVec.zero_add _
    rw [total]
    rcases length with ⟨none, whole⟩ | ⟨some, short⟩
    · rw [none, whole, BitVec.ofNat_toNat, BitVec.setWidth_eq]
      exact ⟨fun _ => rfl, fun _ => rfl⟩
    · refine iff_of_false (fun same => ?_) some
      obtain ⟨a, stopped⟩ := Option.ne_none_iff_exists'.mp some
      rw [stopped] at same
      dsimp only at same
      split at same
      · have value := congrArg BitVec.toNat (Except.ok.inj same)
        rw [BitVec.toNat_ofNat, Nat.mod_eq_of_lt (by omega)] at value
        omega
      · cases same

namespace Machine

variable {m m₁ : Machine} {i : Fin nslots} {a : Byte}

/-! Opening and closing. -/

/-- The rest of the machine. -/
structure SameRest (m m₁ : Machine) : Prop where
  mem : m₁.mem = m.mem
  sp : m₁.sp = m.sp
  bootSp : m₁.bootSp = m.bootSp

theorem dosOpen_mem (mem : Word → Byte) : dosOpen find { m with mem } =
    ((m.dosOpen find).1, { (m.dosOpen find).2 with mem }) := by
  unfold dosOpen
  dsimp only [onVars]
  rcases find.resolvePath m.files.vars with ⟨a | rpKind, vars⟩
  · rfl
  · dsimp only
    split
    · rfl
    · have slots : openFindslot { m with files := { m.files with vars }, mem } =
          openFindslot { m with files := { m.files with vars } } := rfl
      rw [slots]
      rcases openFindslot { m with files := { m.files with vars } } with _ | i
      · rfl
      · dsimp only
        rcases find.findDirent vars with ⟨a | found, vars'⟩
        · rfl
        · dsimp only
          split
          · rfl
          · change (if checkNotOpen { m with files := { m.files with vars := vars' } } found
              then _ else _) = _
            split <;> rfl

/-- The slot DOS_OPEN finds. -/
structure Opened (m : Machine) (i : Fin nslots) (m₁ : Machine) : Prop where
  free : (m.files.slots i).inuse = false
  inuse : (m₁.files.slots i).inuse = true
  mode : (m₁.files.slots i).mode = fopenRead
  pos : (m₁.files.slots i).pos = 0
  others : ∀ j, j ≠ i → m₁.files.slots j = m.files.slots j ∧ m₁.dirent j = m.dirent j
  rest : SameRest m m₁

/-- DOS_OPEN takes a free slot, or leaves them all as they are. -/
theorem dosOpen_cases (find : Lookup) (m : Machine) :
    (∃ a m₁, m.dosOpen find = (.error a, m₁) ∧ m₁.files.slots = m.files.slots ∧
      m₁.dirent = m.dirent ∧ SameRest m m₁) ∨
    ∃ i m₁, m.dosOpen find = (.ok i, m₁) ∧ Opened m i m₁ := by
  unfold dosOpen
  dsimp only [onVars]
  rcases find.resolvePath m.files.vars with ⟨a | rpKind, vars⟩
  · exact .inl ⟨a, _, rfl, rfl, rfl, rfl, rfl, rfl⟩
  · dsimp only
    split
    · exact .inl ⟨_, _, rfl, rfl, rfl, rfl, rfl, rfl⟩
    · rcases slot : openFindslot { m with files := { m.files with vars } } with _ | i
      · exact .inl ⟨_, _, rfl, rfl, rfl, rfl, rfl, rfl⟩
      · dsimp only
        rcases find.findDirent vars with ⟨a | found, vars'⟩
        · exact .inl ⟨a, _, rfl, rfl, rfl, rfl, rfl, rfl⟩
        · dsimp only
          split
          · exact .inl ⟨_, _, rfl, rfl, rfl, rfl, rfl, rfl⟩
          · split
            · have free := List.find?_some slot
              refine .inr ⟨i, _, rfl, by simpa using free, ?_, ?_, ?_, fun j other => ⟨?_, ?_⟩,
                rfl, rfl, rfl⟩
              · simp only [openInit, Function.update_self]
              · simp only [openInit, Function.update_self]
              · simp only [openInit, Function.update_self]
              · exact Function.update_of_ne other _ _
              · exact Function.update_of_ne other _ _
            · exact .inl ⟨_, _, rfl, rfl, rfl, rfl, rfl, rfl⟩

/-- A file that was opened for reading is closed by marking its slot free. -/
theorem dosClose_read (read : (m.files.slots i).mode = fopenRead) :
    (m.dosClose g i).2 = { m with files := { m.files with
      slots := Function.update m.files.slots i { m.files.slots i with inuse := false } } } := by
  unfold dosClose
  rw [if_pos read]

/-! The header. -/

end Machine

/-- A word of the header. -/
def headerWord (hdr : List Byte) (offset : Nat) : Word :=
  word (hdr.getD offset 0) (hdr.getD (offset + 1) 0)

/-- A header B_EXEC takes, of a file of this size. -/
structure Accepted (l : Layout) (hdr : List Byte) (size : BitVec 32) : Prop where
  magic : headerWord hdr 0 = exeMagic
  flags : headerWord hdr 6 = 0
  above : l.dosEnd ≤ (headerWord hdr 2).toNat
  below : (headerWord hdr 2).toNat + (size.toNat - exeHdrsize) ≤ 0xF000
  first : headerWord hdr 2 ≤ headerWord hdr 4
  last : (headerWord hdr 4).toNat < (headerWord hdr 2).toNat + (size.toNat - exeHdrsize)

theorem headerWord_store {hdr : List Byte} (length : hdr.length = exeHdrsize) {offset : Nat}
    (inside : offset + 1 < exeHdrsize) :
    word (store (BitVec.ofNat 16 l.hdrBuf) hdr mem (BitVec.ofNat 16 l.hdrBuf + BitVec.ofNat 16 offset))
      (store (BitVec.ofNat 16 l.hdrBuf) hdr mem
        (BitVec.ofNat 16 l.hdrBuf + BitVec.ofNat 16 offset + 1)) = headerWord hdr offset := by
  have next : BitVec.ofNat 16 l.hdrBuf + BitVec.ofNat 16 offset + 1 =
      BitVec.ofNat 16 l.hdrBuf + BitVec.ofNat 16 (offset + 1) := by
    rw [BitVec.add_assoc, BitVec.ofNat_add]
    rfl
  unfold exeHdrsize at length inside
  rw [next, store_at (by omega) (by omega), store_at (by omega) (by omega), headerWord,
    List.getD_eq_getElem _ _ (by omega), List.getD_eq_getElem _ _ (by omega)]

namespace Machine

variable {m : Machine} {i : Fin nslots}

theorem exCheck_cases {fuel : Nat} {hdr : List Byte}
    (size : exeHdrsize ≤ (m.files.slots i).size.toNat) :
    (Accepted l hdr (m.files.slots i).size ∧
      m.exCheck g l fuel i (headerWord hdr 0) (headerWord hdr 2) (headerWord hdr 4)
        (headerWord hdr 6) = m.exBody g fuel i (headerWord hdr 2) (headerWord hdr 4)
          (BitVec.ofNat 16 ((m.files.slots i).size.toNat - exeHdrsize))) ∨
    ¬Accepted l hdr (m.files.slots i).size ∧
      ∃ a, m.exCheck g l fuel i (headerWord hdr 0) (headerWord hdr 2) (headerWord hdr 4)
        (headerWord hdr 6) = m.exFail g i a := by
  unfold exCheck
  generalize (m.files.slots i).size = bytes at size ⊢
  have ram := l.ram
  have bound := (headerWord hdr 2).isLt
  have body : (bytes - BitVec.ofNat 32 exeHdrsize).toNat = bytes.toNat - exeHdrsize :=
    BitVec.toNat_sub_of_le size
  generalize bytes - BitVec.ofNat 32 exeHdrsize = rest at body ⊢
  dsimp only
  by_cases magic : headerWord hdr 0 ≠ exeMagic
  · rw [if_pos magic]
    exact .inr ⟨fun accepted => magic accepted.magic, _, rfl⟩
  rw [if_neg magic]
  by_cases flags : headerWord hdr 6 ≠ 0
  · rw [if_pos flags]
    exact .inr ⟨fun accepted => flags accepted.flags, _, rfl⟩
  rw [if_neg flags]
  have upper : (rest.extractLsb' 16 16 : Word).toNat = (bytes.toNat - exeHdrsize) / 65536 := by
    rw [BitVec.extractLsb'_toNat, Nat.shiftRight_eq_div_pow, body]
    have := bytes.isLt
    omega
  by_cases long : (rest.extractLsb' 16 16 : Word) ≠ 0
  · rw [if_pos long]
    refine .inr ⟨fun accepted => long (BitVec.eq_of_toNat_eq ?_), _, rfl⟩
    have below := accepted.below
    rw [upper]
    change _ = 0
    omega
  rw [if_neg long]
  have fits : bytes.toNat - exeHdrsize < 0x10000 := by
    have zero := congrArg BitVec.toNat (not_not.mp long)
    rw [upper] at zero
    change _ = 0 at zero
    omega
  have length : (rest.setWidth 16 : Word) = BitVec.ofNat 16 (bytes.toNat - exeHdrsize) := by
    apply BitVec.eq_of_toNat_eq
    rw [BitVec.toNat_setWidth, BitVec.toNat_ofNat, body]
  have count : (BitVec.ofNat 16 (bytes.toNat - exeHdrsize) : Word).toNat =
      bytes.toNat - exeHdrsize := by
    rw [BitVec.toNat_ofNat, Nat.mod_eq_of_lt fits]
  rw [length]
  by_cases low : headerWord hdr 2 < BitVec.ofNat 16 l.dosEnd
  · rw [if_pos low]
    refine .inr ⟨fun accepted => ?_, _, rfl⟩
    have above := accepted.above
    rw [BitVec.lt_def, BitVec.toNat_ofNat, Nat.mod_eq_of_lt ram] at low
    omega
  rw [if_neg low]
  by_cases wraps : 0x10000 ≤ (headerWord hdr 2).toNat +
      (BitVec.ofNat 16 (bytes.toNat - exeHdrsize) : Word).toNat
  · rw [if_pos wraps]
    refine .inr ⟨fun accepted => ?_, _, rfl⟩
    have below := accepted.below
    omega
  rw [if_neg wraps]
  have sum : (headerWord hdr 2 + BitVec.ofNat 16 (bytes.toNat - exeHdrsize)).toNat =
      (headerWord hdr 2).toNat + (bytes.toNat - exeHdrsize) := by
    rw [BitVec.toNat_add, count]
    omega
  by_cases high : exeMaxtop < headerWord hdr 2 + BitVec.ofNat 16 (bytes.toNat - exeHdrsize)
  · rw [if_pos high]
    refine .inr ⟨fun accepted => ?_, _, rfl⟩
    have below := accepted.below
    rw [BitVec.lt_def, sum] at high
    change 0xF000 < _ at high
    omega
  rw [if_neg high]
  by_cases early : headerWord hdr 4 < headerWord hdr 2
  · rw [if_pos early]
    exact .inr ⟨fun accepted => absurd accepted.first (BitVec.not_le.mpr early), _, rfl⟩
  rw [if_neg early]
  have offset : (headerWord hdr 4 - headerWord hdr 2).toNat =
      (headerWord hdr 4).toNat - (headerWord hdr 2).toNat :=
    BitVec.toNat_sub_of_le (BitVec.not_lt.mp early)
  have order : (headerWord hdr 2).toNat ≤ (headerWord hdr 4).toNat := BitVec.not_lt.mp early
  by_cases late : BitVec.ofNat 16 (bytes.toNat - exeHdrsize) ≤ headerWord hdr 4 - headerWord hdr 2
  · rw [if_pos late]
    refine .inr ⟨fun accepted => ?_, _, rfl⟩
    have last := accepted.last
    rw [BitVec.le_def, count, offset] at late
    omega
  rw [if_neg late]
  refine .inl ⟨⟨not_not.mp magic, not_not.mp flags, ?_, ?_, BitVec.not_lt.mp early, ?_⟩, rfl⟩
  · rw [BitVec.lt_def, BitVec.toNat_ofNat, Nat.mod_eq_of_lt ram] at low
    omega
  · rw [BitVec.lt_def, sum] at high
    change ¬0xF000 < _ at high
    omega
  · rw [BitVec.le_def, count, offset] at late
    omega

theorem exHeader_stored {fuel : Nat} {hdr : List Byte} (length : hdr.length = exeHdrsize)
    (stored : m.mem = store (BitVec.ofNat 16 l.hdrBuf) hdr mem) :
    m.exHeader g l fuel i = m.exCheck g l fuel i (headerWord hdr 0) (headerWord hdr 2)
      (headerWord hdr 4) (headerWord hdr 6) := by
  have words (offset : Nat) (inside : offset + 1 < exeHdrsize) :=
    @headerWord_store l mem hdr length offset inside
  rw [← words 0 (by decide), ← words 2 (by decide), ← words 4 (by decide), ← words 6 (by decide),
    exHeader, stored]
  rfl

end Machine

/-! What a call leaves. -/

/-- The file opens as slot `i`, and its first bytes are these. -/
structure Header (g : Geometry) (find : Lookup) (m : Machine) (i : Fin nslots) (m₁ : Machine)
    (hdr : List Byte) (s : Open) : Prop where
  opened : m.dosOpen find = (.ok i, m₁)
  read : gets g exeHdrsize (m₁.files.current i) = (none, hdr, s)

/-- The file opens and has a header that B_EXEC takes. -/
def Loadable (g : Geometry) (l : Layout) (find : Lookup) (m : Machine) : Prop :=
  ∃ i m₁ hdr s, Header g find m i m₁ hdr s ∧ Accepted l hdr s.slot.size

/-- What a call that returns leaves of its caller. -/
structure Returned (l : Layout) (m m' : Machine) : Prop where
  sp : m'.sp = m.sp
  mem : ∀ c, Outside l c → m'.mem c = m.mem c
  files : ∀ j, (m.files.slots j).inuse → m'.files.slots j = m.files.slots j ∧ m'.dirent j = m.dirent j
  closed : ∀ j, (m.files.slots j).inuse = false → (m'.files.slots j).inuse = false

/-- A program's body has been read, and is where it asked to go. -/
structure Started (g : Geometry) (l : Layout) (find : Lookup) (m m' : Machine) (exEntry : Word) :
    Prop where
  loaded : ∃ i m₁ hdr s body s', Header g find m i m₁ hdr s ∧ Accepted l hdr s.slot.size ∧
    exEntry = headerWord hdr 4 ∧ gets g (s.slot.size.toNat - exeHdrsize) s = (none, body, s') ∧
    ∀ k (inside : k < body.length), m'.mem (headerWord hdr 2 + BitVec.ofNat 16 k) = body[k]

/-- Loading is safe. -/
structure SafeExec (g : Geometry) (l : Layout) (find : Lookup) (m : Machine) (outcome : Outcome)
    (m' : Machine) : Prop where
  writes : ∀ c, Outside l c → m'.mem c ≠ m.mem c → ∃ i m₁ hdr s, Header g find m i m₁ hdr s ∧
    Accepted l hdr s.slot.size ∧ (headerWord hdr 2).toNat ≤ c.toNat ∧
    c.toNat < (headerWord hdr 2).toNat + (s.slot.size.toNat - exeHdrsize)
  starts : ∀ exEntry, outcome = .starts exEntry → Started g l find m m' exEntry
  returns : ∀ a, outcome = .returns a → Returned l m m' ∧ dosArgs l m'.mem = dosArgs l m.mem

theorem gets_fits {n : Nat} {s : Open} (reads : s.slot.Reads) (whole : (gets g n s).1 = none)
    (some : 0 < n) : s.slot.pos.toNat + n ≤ s.slot.size.toNat := by
  induction n generalizing s with
  | zero => exact absurd some (Nat.lt_irrefl 0)
  | succ n ih =>
      rw [gets] at whole
      by_cases more : s.slot.pos < s.slot.size
      · rw [fileGetbyte_eq reads more] at whole
        have below := BitVec.lt_def.mp more
        rcases ran : selRead g (shr9 s.slot.pos) s with ⟨a | _, s'⟩
        · rw [ran] at whole
          cases whole
        · rw [ran] at whole
          have same := Keeps.selRead.ran ran
          have bound := s.slot.size.isLt
          have next : (s'.slot.advance 1).pos.toNat = s.slot.pos.toNat + 1 := by
            rw [← same.pos]
            refine toNat_advance ?_
            rw [same.pos]
            change _ + 1 < _
            omega
          have rest := @ih { s' with slot := s'.slot.advance 1 } (same.reads reads) whole
          dsimp only at rest
          rw [next, show (s'.slot.advance 1).size = s.slot.size from same.size] at rest
          omega
      · rw [fileGetbyte_end reads (BitVec.not_lt.mp more)] at whole
        cases whole

namespace Machine

variable {m m₁ : Machine} {i : Fin nslots} {hdr : List Byte} {s : Open} {fuel : Nat}

theorem Opened.reads (opened : Opened m i m₁) : (m₁.files.current i).slot.Reads := .inl opened.mode

/-- The slot is given back, whatever was read of the file. -/
theorem exFail_returned {a : Byte} {m₂ : Machine} (opened : Opened m i m₁)
    (same : SameSlot (m₁.files.slots i) s.slot) (files : m₂.files = m₁.files.put i s)
    (dirent : m₂.dirent = m₁.dirent) (sp : m₂.sp = m₁.sp)
    (mem : ∀ c, Outside l c → m₂.mem c = m.mem c) :
    ∃ m', m₂.exFail g i a = some (.returns a, m') ∧ Returned l m m' ∧ m'.mem = m₂.mem := by
  have read : (m₂.files.slots i).mode = fopenRead := by
    rw [files, Files.slots_put, same.mode, opened.mode]
  refine ⟨_, rfl, ⟨?_, fun c outside => ?_, fun j used => ?_, fun j unused => ?_⟩, ?_⟩
  all_goals rw [dosClose_read read]
  · exact sp.trans opened.rest.sp
  · exact mem c outside
  · have other : j ≠ i := by
      rintro rfl
      rw [opened.free] at used
      cases used
    have kept := opened.others j other
    dsimp only
    rw [Function.update_of_ne other, files, Files.put, dirent]
    dsimp only
    rw [Function.update_of_ne other]
    exact kept
  · dsimp only
    by_cases here : j = i
    · rw [here, Function.update_self]
    · rw [Function.update_of_ne here, files, Files.put]
      dsimp only
      rw [Function.update_of_ne here, (opened.others j here).1]
      exact unused

/-- With a header it takes, the body goes where the header says, and nowhere else. -/
theorem exBody_safe {m₂ : Machine} (enough : 0x10000 ≤ fuel) (header : Header g find m i m₁ hdr s)
    (accepted : Accepted l hdr s.slot.size) (mode : s.slot.mode = fopenRead)
    (files : m₂.files = m₁.files.put i s) (mem : ∀ c, Outside l c → m₂.mem c = m.mem c) :
    ∃ outcome m', m₂.exBody g fuel i (headerWord hdr 2) (headerWord hdr 4)
      (BitVec.ofNat 16 (s.slot.size.toNat - exeHdrsize)) = some (outcome, m') ∧
      SafeExec g l find m outcome m' := by
  have below := accepted.below
  have exLen : (BitVec.ofNat 16 (s.slot.size.toNat - exeHdrsize)).toNat =
      s.slot.size.toNat - exeHdrsize := by
    rw [BitVec.toNat_ofNat, Nat.mod_eq_of_lt (by omega)]
  have current : m₂.files.current i = s := by rw [files, Files.current_put]
  obtain ⟨result, bytes, s', ran, short, same, counts, stored, left⟩ :=
    @fileRead_counts g _ fuel s (.inl mode) (Nat.lt_of_lt_of_le (BitVec.isLt _) enough)
  rw [exLen] at short counts stored left
  have read : ((m₂.files.put i s').slots i).mode = fopenRead := by
    rw [Files.slots_put, same.mode, mode]
  have writes (m' : Machine) (loaded : m'.mem = store (headerWord hdr 2) bytes m₂.mem) (c : Word)
      (outside : Outside l c) (changed : m'.mem c ≠ m.mem c) :
      (headerWord hdr 2).toNat ≤ c.toNat ∧
        c.toNat < (headerWord hdr 2).toNat + (s.slot.size.toNat - exeHdrsize) := by
    by_contra away
    refine changed ?_
    rw [loaded, store_frame fun k inside here => away ?_, mem c outside]
    rw [here, BitVec.toNat_add, BitVec.toNat_ofNat]
    omega
  have close (m' : Machine) (files' : m'.files = m₂.files.put i s') :
      (m'.dosClose g i).2.mem = m'.mem := by
    rw [dosClose_read (by rw [files', read])]
  rw [exBody]
  dsimp only
  rw [current, ran]
  dsimp only
  have stopped (m' : Machine) (loaded : m'.mem = store (headerWord hdr 2) bytes m₂.mem) :
      SafeExec g l find m .restarts m' :=
    ⟨fun c outside changed => ⟨i, m₁, hdr, s, header, accepted, writes m' loaded c outside changed⟩,
      nofun, nofun⟩
  rcases result with a | ioCnt
  · exact ⟨_, _, rfl, stopped _ (close _ rfl)⟩
  · dsimp only
    by_cases all : ioCnt = BitVec.ofNat 16 (s.slot.size.toNat - exeHdrsize)
    · rw [if_neg (not_not.mpr all)]
      have whole := counts.mp (congrArg Except.ok all)
      refine ⟨_, _, rfl, ?_, ?_, nofun⟩
      · exact fun c outside changed =>
          ⟨i, m₁, hdr, s, header, accepted, writes _ (close _ rfl) c outside changed⟩
      · intro exEntry starts
        cases starts
        refine ⟨i, m₁, hdr, s, bytes, s', header, accepted, rfl, ?_, fun k inside => ?_⟩
        · exact Prod.ext whole (Prod.ext stored.symm left.symm)
        · rw [close _ rfl]
          exact store_at (by omega) inside
    · rw [if_pos all]
      exact ⟨_, _, rfl, stopped _ (close _ rfl)⟩

end Machine

/-- A call that returns is safe if it has left what B_ARGS gives. -/
theorem safe_returned {m m' : Machine} {a : Byte} (returned : Returned l m m') :
    SafeExec g l find m (.returns a) m' ↔ dosArgs l m'.mem = dosArgs l m.mem := by
  refine ⟨fun safe => (safe.returns a rfl).2, fun same => ⟨?_, nofun, fun _ _ => ⟨returned, same⟩⟩⟩
  exact fun c outside changed => absurd (returned.mem c outside) changed

/-- A file that can be loaded is loaded safely; with any other the call returns, and B_ARGS gives
the tail it was passed. -/
theorem dosExec_cases {m : Machine} {fuel : Nat} {y : Word} (enough : 0x10000 ≤ fuel)
    (apart : ∀ k, 0 < k → k < argmax → y + BitVec.ofNat 16 k ≠ BitVec.ofNat 16 l.argBuf) :
    (Loadable g l find m ∧ ∃ outcome m', m.dosExec g l find fuel y = some (outcome, m') ∧
      SafeExec g l find m outcome m') ∨
    ¬Loadable g l find m ∧ ∃ a m', m.dosExec g l find fuel y = some (.returns a, m') ∧
      Returned l m m' ∧ dosArgs l m'.mem = tail m.mem y := by
  have copied := @dosArgs_exArgs l m.mem y apart
  have kept (c : Word) (outside : Outside l c) := @exArgs_frame l m.mem c y outside apart
  rw [Machine.dosExec]
  dsimp only
  rw [Machine.dosOpen_mem]
  rcases Machine.dosOpen_cases find m with ⟨a, m₁, ran, slots, dirent, rest⟩ | ⟨i, m₁, ran, opened⟩
  · rw [ran]
    refine .inr ⟨fun ⟨_, _, _, _, header, _⟩ => ?_, a, _, rfl, ⟨rest.sp, kept, ?_, ?_⟩, copied⟩
    · rw [header.opened] at ran
      cases ran
    · exact fun j _ => ⟨congrFun slots j, congrFun dirent j⟩
    · intro j unused
      dsimp only
      rw [slots]
      exact unused
  · rw [ran]
    dsimp only
    obtain ⟨result, hdr, s, read, short, same, counts, stored, left⟩ :=
      @fileRead_counts g (BitVec.ofNat 16 exeHdrsize) fuel (m₁.files.current i) opened.reads
        (Nat.lt_of_lt_of_le (BitVec.isLt _) enough)
    rw [show (BitVec.ofNat 16 exeHdrsize).toNat = exeHdrsize from rfl] at short counts stored left
    have mode : s.slot.mode = fopenRead := same.mode.trans opened.mode
    let m₂ : Machine := { m₁ with
      files := m₁.files.put i s
      mem := store (BitVec.ofNat 16 l.hdrBuf) hdr (exArgs l y m.mem) }
    have mem (c : Word) (outside : Outside l c) : m₂.mem c = m.mem c :=
      (store_hdr_frame outside short).trans (kept c outside)
    have fails (code : Byte) : ∃ a m', m₂.exFail g i code = some (.returns a, m') ∧
        Returned l m m' ∧ dosArgs l m'.mem = tail m.mem y := by
      obtain ⟨m', ran, returned, still⟩ :=
        @Machine.exFail_returned g l m m₁ i s code m₂ opened same rfl rfl rfl mem
      refine ⟨code, m', ran, returned, ?_⟩
      rw [still, ← copied]
      exact dosArgs_hdr short
    have loads : Loadable g l find m ↔
        result = .ok (BitVec.ofNat 16 exeHdrsize) ∧ Accepted l hdr s.slot.size := by
      refine ⟨?_, fun ⟨whole, accepted⟩ => ⟨i, m₁, hdr, s, ⟨ran, ?_⟩, accepted⟩⟩
      · rintro ⟨i', m', hdr', s', header, accepted⟩
        have same := header.opened
        rw [ran] at same
        cases same
        have bytes := header.read
        rw [counts, stored, left, bytes]
        exact ⟨rfl, accepted⟩
      · exact Prod.ext (counts.mp whole) (Prod.ext stored.symm left.symm)
    rw [read]
    dsimp only
    rcases result with a | ioCnt
    · exact .inr ⟨fun loadable => absurd (loads.mp loadable).1 nofun, fails a⟩
    · dsimp only
      by_cases all : ioCnt = BitVec.ofNat 16 exeHdrsize
      · have whole := counts.mp (congrArg Except.ok all)
        have length : hdr.length = exeHdrsize := by
          rcases gets_length (g := g) exeHdrsize (m₁.files.current i) with ⟨-, whole⟩ | ⟨stopped, -⟩
          · rw [stored, whole]
          · exact absurd whole stopped
        have slot : m₂.files.slots i = s.slot := Files.slots_put
        have size : exeHdrsize ≤ (m₂.files.slots i).size.toNat := by
          have fits := gets_fits opened.reads whole (by decide)
          rw [slot, same.size]
          omega
        have header : gets g exeHdrsize (m₁.files.current i) = (none, hdr, s) :=
          Prod.ext whole (Prod.ext stored.symm left.symm)
        rw [if_neg (not_not.mpr all)]
        change (_ ∧ ∃ outcome m', m₂.exHeader g l fuel i = _ ∧ _) ∨
          _ ∧ ∃ a m', m₂.exHeader g l fuel i = _ ∧ _
        rw [Machine.exHeader_stored length rfl]
        rcases @Machine.exCheck_cases g l m₂ i fuel hdr size with
          ⟨accepted, body⟩ | ⟨refused, a, failed⟩
        · rw [slot] at accepted body
          rw [body]
          exact .inl ⟨loads.mpr ⟨congrArg Except.ok all, accepted⟩,
            Machine.exBody_safe enough ⟨ran, header⟩ accepted mode rfl mem⟩
        · rw [failed]
          refine .inr ⟨fun loadable => refused ?_, fails a⟩
          rw [slot]
          exact (loads.mp loadable).2
      · rw [if_pos all]
        exact .inr ⟨fun loadable => all (Except.ok.inj (loads.mp loadable).1), fails errBadexe⟩

/-- A call that fails leaves what it has copied to ARGBUF. -/
theorem exec_safe_iff (g : Geometry) (l : Layout) (find : Lookup) (m : Machine) {fuel : Nat}
    {y : Word} (enough : 0x10000 ≤ fuel)
    (apart : ∀ k, 0 < k → k < argmax → y + BitVec.ofNat 16 k ≠ BitVec.ofNat 16 l.argBuf) :
    (∃ outcome m', m.dosExec g l find fuel y = some (outcome, m') ∧ SafeExec g l find m outcome m') ↔
      Loadable g l find m ∨ tail m.mem y = dosArgs l m.mem := by
  rcases @dosExec_cases g l find m fuel y enough apart with
    ⟨loadable, safe⟩ | ⟨refused, a, m', ran, returned, args⟩
  · exact iff_of_true safe (.inl loadable)
  · rw [or_iff_right refused, ← args, ← @safe_returned g l find m m' a returned, ran]
    refine ⟨fun ⟨outcome, m'', same, safe⟩ => ?_, fun safe => ⟨_, m', rfl, safe⟩⟩
    cases same
    exact safe

/-- DOS in the first 16K. -/
def lowMemory : Layout where
  argBuf := 0x2000
  hdrBuf := 0x2080
  dosLoad := 0x0600
  dosEnd := 0x4000
  args := by decide
  hdr := by decide
  rest := by decide
  ram := by decide

/-- The path names no file. -/
def missing : Lookup where
  resolvePath v := (.ok 1, v)
  findDirent v := (.error errNotfound, v)

/-- Nothing is open, and at $5000 is the string "x". -/
def idle : Machine where
  files := {
    vars := {
      disk := fun _ _ => 0
      fatBuf := fun _ => 0
      fatBufSec := 0xFFFF
      fatDirty := false
      allocHint := 2
      io := []
      written := [] }
    slots := fun _ => {
      inuse := false
      mode := 0
      startclus := 0
      size := 0
      pos := 0
      bufsec := 0
      dirty := false
      cacheidx := 0
      cacheclus := 0
      buf := fun _ => 0 } }
  dirent _ := (0, 0)
  mem := Function.update (fun _ => 0) 0x5000 0x78
  sp := 0x7F00
  bootSp := 0x7FF0

theorem exec_safe_iff_no_tail : ∃ outcome m',
    idle.dosExec (dosStart fun _ => 0) lowMemory missing 0x10000 0 = some (outcome, m') ∧
      SafeExec (dosStart fun _ => 0) lowMemory missing idle outcome m' := by
  refine (exec_safe_iff _ _ _ idle (Nat.le_refl _) ?_).mpr (.inr ?_)
  · intro k _ small same
    unfold argmax at small
    have value := congrArg BitVec.toNat same
    change (0 + k % 65536) % 65536 = 0x2000 at value
    omega
  · decide

/-- The file is not there, and B_ARGS gives what it was to be passed. -/
theorem exec_loses_tail : ¬∃ outcome m',
    idle.dosExec (dosStart fun _ => 0) lowMemory missing 0x10000 0x5000 = some (outcome, m') ∧
      SafeExec (dosStart fun _ => 0) lowMemory missing idle outcome m' := by
  rintro ⟨outcome, m', ran, safe⟩
  have fails : (idle.dosExec (dosStart fun _ => 0) lowMemory missing 0x10000 0x5000).map
      (fun r => (r.1, dosArgs lowMemory r.2.mem)) = some (.returns errNotfound, [0x78]) :=
    rfl
  rw [ran, Option.map_some] at fails
  obtain ⟨rfl, args⟩ := Prod.mk.inj (Option.some.inj fails)
  have same := (safe.returns _ rfl).2
  rw [args] at same
  revert same
  decide

end Pugputer.Dos

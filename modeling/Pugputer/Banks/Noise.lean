import Mathlib.Data.Set.Basic
import Pugputer.Banks.PageCopy

namespace Pugputer.Banks

/-! What ticks can change, and what is certain in spite of them. -/

/-- V_NMI's variables. -/
def rtcCells : Set Cell := fun c => c.1 = 0 ∧ rtcTicks ≤ c.2 ∧ c.2 ≤ rtcSet

/-- Where an address is, by the banks' pages. -/
def cellOf (bank : Nat → Nat) (a : Nat) : Cell := (bank (a / bankSize), a % bankSize)

/-- The bytes from one address up to another. -/
def cellsOf (bank : Nat → Nat) (first last : Nat) : Set Cell :=
  fun c => ∃ a, first ≤ a ∧ a < last ∧ c = cellOf bank a

/-- The machine is in the state given but for the noise. -/
structure Seen (N : Set Cell) (ram : Ram) (bank : Nat → Nat) (m : Machine) : Prop where
  bank : m.bank = bank
  ram : ∀ c, c ∉ N → m.ram c = ram c

/-- Frames pushed at `s` are noise, and so is what V_NMI counts. -/
structure Room (N : Set Cell) (bank : Nat → Nat) (s : Nat) : Prop where
  low : 14 ≤ s
  rtc : ∀ c ∈ rtcCells, c ∈ N
  frame : ∀ a, s - 14 ≤ a → a < s → a < ramTop ∧ cellOf bank a ∈ N

variable {N : Set Cell} {ram : Ram} {bank : Nat → Nat} {m : Machine} {s : Nat}

theorem Seen.cell (seen : Seen N ram bank m) (a : Nat) : m.cell a = cellOf bank a := by
  rw [Machine.cell, seen.bank, cellOf]

theorem Seen.congr {ram' : Ram} (seen : Seen N ram bank m) (same : ∀ c, c ∉ N → ram c = ram' c) :
    Seen N ram' bank m :=
  ⟨seen.bank, fun c outside => (seen.ram c outside).trans (same c outside)⟩

theorem Seen.weaken {M : Set Cell} (seen : Seen N ram bank m) (more : ∀ c ∈ N, c ∈ M) :
    Seen M ram bank m :=
  ⟨seen.bank, fun c outside => seen.ram c fun inside => outside (more c inside)⟩

theorem Seen.load (seen : Seen N ram bank m) {a : Nat} (certain : cellOf bank a ∉ N) :
    m.load a = ram (cellOf bank a) := by
  rw [Machine.load, seen.cell, seen.ram _ certain]

theorem Seen.store (seen : Seen N ram bank m) {a : Nat} (inRam : a < ramTop) (v : Byte) :
    Seen N (Function.update ram (cellOf bank a) v) bank (m.store a v) := by
  rw [Machine.store, if_pos inRam, seen.cell]
  refine ⟨seen.bank, fun c outside => ?_⟩
  dsimp only
  by_cases here : c = cellOf bank a
  · rw [here, Function.update_self, Function.update_self]
  · rw [Function.update_of_ne here, Function.update_of_ne here, seen.ram c outside]

/-- What has been stored is certain. -/
theorem Seen.store_known (seen : Seen N ram bank m) {a : Nat} (inRam : a < ramTop) (v : Byte) :
    Seen (fun c => c ∈ N ∧ c ≠ cellOf bank a) (Function.update ram (cellOf bank a) v) bank
      (m.store a v) := by
  have stored := seen.store inRam v
  refine ⟨stored.bank, fun c outside => ?_⟩
  by_cases here : c = cellOf bank a
  · rw [Machine.store, if_pos inRam, seen.cell, here]
    dsimp only
    rw [Function.update_self, Function.update_self]
  · exact stored.ram c fun inside => outside ⟨inside, here⟩

/-- A store into the noise is not seen. -/
theorem Seen.store_noise (seen : Seen N ram bank m) {a : Nat} (inRam : a < ramTop)
    (noise : cellOf bank a ∈ N) (v : Byte) : Seen N ram bank (m.store a v) := by
  refine (seen.store inRam v).congr fun c outside => ?_
  have other : c ≠ cellOf bank a := by
    rintro rfl
    exact outside noise
  exact Function.update_of_ne other _ _

theorem Seen.store_bank (seen : Seen N ram bank m) {i : Nat} (isBank : i < 4) (v : Byte) :
    Seen N ram (Function.update bank i v.toNat) (m.store (bankBase + i) v) := by
  have high : ¬bankBase + i < ramTop := by
    have base : bankBase = 0xFFEC := rfl
    have top : ramTop = 0xF000 := rfl
    omega
  rw [Machine.store, if_neg high, if_pos ⟨Nat.le_add_right _ _, by omega⟩,
    Nat.add_sub_cancel_left, seen.bank]
  exact ⟨rfl, seen.ram⟩

theorem withRtc_outside (ram : Ram) (rtc : Time.Rtc) {c : Cell} (outside : c ∉ rtcCells) :
    Machine.withRtc ram rtc c = ram c := by
  rw [Machine.withRtc]
  split
  · next page =>
    have apart : ¬(rtcTicks ≤ c.2 ∧ c.2 ≤ rtcSet) := fun inside => outside ⟨page, inside⟩
    have ticks : rtcTicks = 0x04 := rfl
    have priv : rtcTicksPriv = 0x0C := rfl
    have mtx : rtcMtx = 0x14 := rfl
    have set : rtcSet = 0x15 := rfl
    rw [dif_neg (by omega), dif_neg (by omega), if_neg (by omega), if_neg (by omega)]
  · rfl

theorem Seen.pushFrame (seen : Seen N ram bank m) (room : Room N bank s) (f : Frame) :
    Seen N ram bank (m.pushFrame s f) := by
  have each (l : List (Fin 14)) (m : Machine) (seen : Seen N ram bank m) :
      Seen N ram bank (l.foldl (fun m i => m.store (s - 14 + i.val) (f i)) m) := by
    induction l generalizing m with
    | nil => exact seen
    | cons i rest ih =>
        have low := room.low
        have small := i.isLt
        obtain ⟨inRam, noise⟩ := room.frame (s - 14 + i.val) (by omega) (by omega)
        exact ih _ (seen.store_noise inRam noise (f i))
  exact each _ m seen

/-- A tick changes nothing that is seen. -/
theorem Seen.nmi (seen : Seen N ram bank m) (room : Room N bank s) (f : Frame) :
    Seen N ram bank (m.nmi s f) := by
  have pushed := seen.pushFrame room f
  refine ⟨pushed.bank, fun c outside => ?_⟩
  exact (withRtc_outside _ _ fun inside => outside (room.rtc c inside)).trans
    (pushed.ram c outside)

theorem Seen.tick (seen : Seen N ram bank m) (room : Room N bank s) :
    Seen N ram bank (m.tick s) := by
  have each (frames : List Frame) (m : Machine) (seen : Seen N ram bank m) :
      Seen N ram bank (frames.foldl (fun m f => m.nmi s f) m) := by
    induction frames generalizing m with
    | nil => exact seen
    | cons f rest ih => exact ih _ (seen.nmi room f)
  have ticked := each (m.ticks.headD []) m seen
  exact ⟨ticked.bank, ticked.ram⟩

/-! One lemma for each instruction. -/

theorem Seen.ldb (seen : Seen N ram bank m) (room : Room N bank s) {a : Nat}
    (certain : cellOf bank a ∉ N) :
    (m.ldb s a).1 = ram (cellOf bank a) ∧ Seen N ram bank (m.ldb s a).2 :=
  ⟨(seen.tick room).load certain, seen.tick room⟩

theorem Seen.ldd (seen : Seen N ram bank m) (room : Room N bank s) {a : Nat}
    (first : cellOf bank a ∉ N) (second : cellOf bank (a + 1) ∉ N) :
    (m.ldd s a).1 = word (ram (cellOf bank a)) (ram (cellOf bank (a + 1))) ∧
      Seen N ram bank (m.ldd s a).2 := by
  have ticked := seen.tick room
  refine ⟨?_, ticked⟩
  rw [Machine.ldd, ticked.load first, ticked.load second]

theorem Seen.stb (seen : Seen N ram bank m) (room : Room N bank s) {a : Nat}
    (inRam : a < ramTop) (v : Byte) :
    Seen N (Function.update ram (cellOf bank a) v) bank (m.stb s a v) :=
  (seen.tick room).store inRam v

theorem Seen.stb_bank (seen : Seen N ram bank m) (room : Room N bank s) {i : Nat}
    (isBank : i < 4) (v : Byte) :
    Seen N ram (Function.update bank i v.toNat) (m.stb s (bankBase + i) v) :=
  (seen.tick room).store_bank isBank v

/-- A word stored at two cells. -/
def setWord (ram : Ram) (hi lo : Cell) (v : Word) : Ram :=
  Function.update (Function.update ram hi (hiByte v)) lo (loByte v)

theorem Seen.std (seen : Seen N ram bank m) (room : Room N bank s) {a : Nat}
    (inRam : a + 1 < ramTop) (v : Word) :
    Seen N (setWord ram (cellOf bank a) (cellOf bank (a + 1)) v) bank (m.std s a v) :=
  ((seen.tick room).store (by omega) _).store inRam _

/-- Bytes copied from one place of a page to one of another. -/
def copyBytes (ram : Ram) (src dst : Cell) (count : Nat) : Ram := fun c =>
  if c.1 = dst.1 ∧ dst.2 ≤ c.2 ∧ c.2 < dst.2 + count then ram (src.1, src.2 + (c.2 - dst.2))
  else ram c

/-- The two places have no byte in common. -/
def Apart (src dst : Cell) (count : Nat) : Prop :=
  src.1 ≠ dst.1 ∨ src.2 + count ≤ dst.2 ∨ dst.2 + count ≤ src.2

theorem copyBytes_succ (ram : Ram) {src dst : Cell} {count : Nat}
    (apart : Apart src dst (count + 1)) :
    copyBytes (Function.update ram dst (ram src)) (src.1, src.2 + 1) (dst.1, dst.2 + 1) count =
      copyBytes ram src dst (count + 1) := by
  funext c
  rw [copyBytes, copyBytes]
  dsimp only
  by_cases later : c.1 = dst.1 ∧ dst.2 + 1 ≤ c.2 ∧ c.2 < dst.2 + 1 + count
  · have same : src.2 + 1 + (c.2 - (dst.2 + 1)) = src.2 + (c.2 - dst.2) := by omega
    have other : (src.1, src.2 + (c.2 - dst.2)) ≠ dst := by
      intro meets
      have page := congrArg Prod.fst meets
      have offset := congrArg Prod.snd meets
      rcases apart with pages | below | above
      · exact pages page
      · dsimp only at offset
        omega
      · dsimp only at offset
        omega
    rw [if_pos later, if_pos (by omega), same, Function.update_of_ne other]
  · rw [if_neg later]
    by_cases here : c = dst
    · rw [here, if_pos (by omega), Function.update_self, Nat.sub_self, Nat.add_zero]
    · rw [Function.update_of_ne here, if_neg]
      rintro ⟨page, first, last⟩
      have offset : c.2 = dst.2 := by
        by_contra other
        exact later ⟨page, by omega, by omega⟩
      exact here (Prod.ext page offset)

theorem Apart.next {src dst : Cell} {count : Nat} (apart : Apart src dst (count + 1)) :
    Apart (src.1, src.2 + 1) (dst.1, dst.2 + 1) count := by
  rcases apart with pages | below | above
  · exact .inl pages
  · exact .inr (.inl (by dsimp only; omega))
  · exact .inr (.inr (by dsimp only; omega))

/-- TFM copies, whatever ticks arrive. -/
theorem Seen.tfm {src dst count : Nat} {p q : Cell} (seen : Seen N ram bank m)
    (room : Room N bank s) (srcAt : ∀ i < count, cellOf bank (src + i) = (p.1, p.2 + i))
    (dstAt : ∀ i < count, cellOf bank (dst + i) = (q.1, q.2 + i))
    (inRam : ∀ i < count, dst + i < ramTop) (certain : ∀ i < count, (p.1, p.2 + i) ∉ N)
    (apart : Apart p q count) :
    Seen N (copyBytes ram p q count) bank (m.tfm s src dst count) := by
  induction count generalizing src dst p q ram m with
  | zero =>
      refine (seen.tick room).congr fun c _ => (if_neg ?_).symm
      omega
  | succ count ih =>
      have ticked := seen.tick room
      have srcFirst : cellOf bank src = p := srcAt 0 (Nat.succ_pos _)
      have dstFirst : cellOf bank dst = q := dstAt 0 (Nat.succ_pos _)
      have sure : cellOf bank src ∉ N := by
        rw [srcFirst]
        exact certain 0 (Nat.succ_pos _)
      have stored := ticked.store (inRam 0 (Nat.succ_pos _)) ((m.tick s).load src)
      rw [ticked.load sure, Nat.add_zero, srcFirst, dstFirst] at stored
      rw [← copyBytes_succ ram apart, Machine.tfm, ticked.load sure, srcFirst]
      refine ih (p := (p.1, p.2 + 1)) (q := (q.1, q.2 + 1)) stored ?_ ?_ ?_ ?_ apart.next
      · intro i inside
        have shift := srcAt (i + 1) (Nat.succ_lt_succ inside)
        rw [Nat.add_right_comm src 1 i]
        rw [← Nat.add_assoc] at shift
        rw [shift]
        exact Prod.ext rfl (by dsimp only; omega)
      · intro i inside
        have shift := dstAt (i + 1) (Nat.succ_lt_succ inside)
        rw [Nat.add_right_comm dst 1 i]
        rw [← Nat.add_assoc] at shift
        rw [shift]
        exact Prod.ext rfl (by dsimp only; omega)
      · intro i inside
        have bound := inRam (i + 1) (Nat.succ_lt_succ inside)
        omega
      · intro i inside
        have sureNext := certain (i + 1) (Nat.succ_lt_succ inside)
        have same : (p.1, p.2 + 1 + i) = (p.1, p.2 + (i + 1)) := Prod.ext rfl (by dsimp only; omega)
        rw [same]
        exact sureNext

end Pugputer.Banks

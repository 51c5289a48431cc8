import Pugputer.Banks.Noise

namespace Pugputer.Banks

/-! One way of a chunk, through the temporary mapping. -/

/-- The bytes that frames pushed between two addresses land on, and V_NMI's variables. -/
def noise (bank : Nat → Nat) (first last : Nat) : Set Cell := fun c =>
  c ∈ cellsOf bank first last ∨ c ∈ rtcCells

/-- The BIOS's variables. -/
def Layout.cells (l : Layout) : Set Cell := fun c =>
  c.1 = 0 ∧ (rtcTicks ≤ c.2 ∧ c.2 < sbank1 + 3 ∨ l.pagemap ≤ c.2 ∧ c.2 < l.pagemap + 172)

/-- A caller's stack and mapping: the stack is in RAM and clear of the BIOS's variables, and
what is pushed below it does not reach the bank for the temporary mapping. -/
structure Setting (l : Layout) (bank : Nat → Nat) (s : Nat) : Prop where
  bank0 : bank 0 = 0
  low : 16 ≤ s
  high : s + 14 ≤ ramTop
  clear : ∀ a, s - 16 ≤ a → a < s + 14 → cellOf bank a ∉ l.cells
  window : ∀ a, s - 16 ≤ a → a < s → a / bankSize ≠ Machine.tempBank s

theorem near_inj {bank : Nat → Nat} {a b : Nat} (below : a ≤ b) (near : b < a + bankSize)
    (same : cellOf bank a = cellOf bank b) : a = b := by
  have offset : a % 0x4000 = b % 0x4000 := congrArg Prod.snd same
  change b < a + 0x4000 at near
  omega

theorem tempBank_values (s : Nat) : Machine.tempBank s = 1 ∨ Machine.tempBank s = 2 := by
  rw [Machine.tempBank]
  split
  · exact .inr rfl
  · exact .inl rfl

variable {l : Layout} {bank : Nat → Nat} {s : Nat}

namespace Setting

variable (setting : Setting l bank s)

include setting

theorem cellOf_stack {a : Nat} (low : s - 16 ≤ a) (high : a < s) (page : Nat) :
    cellOf (Function.update bank (Machine.tempBank s) page) a = cellOf bank a := by
  rw [cellOf, Function.update_of_ne (setting.window a low high), cellOf]

/-- A bank's mapping that differs from the caller's in the temporary bank alone. -/
theorem room {bank' : Nat → Nat} {first last : Nat} (top : last ≤ s) (low : 14 ≤ last)
    (first_le : first ≤ last - 14) (stack : s - 16 ≤ last - 14)
    (same : ∀ a, s - 16 ≤ a → a < s → cellOf bank' a = cellOf bank a) :
    Room (noise bank first last) bank' last := by
  have high := setting.high
  refine ⟨low, fun c inside => .inr inside, fun a after before => ⟨by omega, .inl ?_⟩⟩
  exact ⟨a, by omega, before, same a (by omega) (by omega)⟩

theorem room_stack (page : Nat) :
    Room (noise bank (s - 16) s) (Function.update bank (Machine.tempBank s) page) s := by
  have low := setting.low
  exact setting.room (Nat.le_refl s) (by omega) (by omega) (by omega)
    fun a after before => setting.cellOf_stack after before page

theorem room_pushed (page : Nat) :
    Room (noise bank (s - 16) (s - 2)) (Function.update bank (Machine.tempBank s) page)
      (s - 2) := by
  have low := setting.low
  exact setting.room (by omega) (by omega) (by omega) (by omega)
    fun a after before => setting.cellOf_stack after before page

theorem room_caller : Room (noise bank (s - 16) s) bank s := by
  have low := setting.low
  exact setting.room (Nat.le_refl s) (by omega) (by omega) (by omega) fun _ _ _ => rfl

/-- What is above the frames, and in them or the caller's, is certain. -/
theorem above_certain {last a : Nat} (above : last ≤ a) (bottom : s - 16 ≤ a) (high : a < s + 14) :
    cellOf bank a ∉ noise bank (s - 16) last := by
  rintro (⟨b, after, before, same⟩ | rtc)
  · have size : bankSize = 0x4000 := rfl
    have equal := near_inj (by omega) (by omega) same.symm
    omega
  · obtain ⟨page, low, up⟩ := rtc
    have set : rtcSet = 0x15 := rfl
    have shadow : sbank1 = 0x16 := rfl
    exact setting.clear a bottom high ⟨page, .inl ⟨low, by omega⟩⟩

end Setting

theorem noise_split {c : Cell} (inside : c ∈ noise bank (s - 16) s)
    (first : c ≠ cellOf bank (s - 2)) (second : c ≠ cellOf bank (s - 1)) :
    c ∈ noise bank (s - 16) (s - 2) := by
  rcases inside with ⟨a, after, before, rfl⟩ | rtc
  · refine .inl ⟨a, after, ?_, rfl⟩
    by_contra high
    rcases (by omega : a = s - 2 ∨ a = s - 1) with rfl | rfl
    · exact first rfl
    · exact second rfl
  · exact .inr rtc

theorem noise_mono {c : Cell} (inside : c ∈ noise bank (s - 16) (s - 2)) :
    c ∈ noise bank (s - 16) s := by
  rcases inside with ⟨a, after, before, same⟩ | rtc
  · exact .inl ⟨a, after, by omega, same⟩
  · exact .inr rtc

theorem copyBytes_congr {N : Set Cell} {ram ram' : Ram} {p q : Cell} {count : Nat}
    (same : ∀ c, c ∉ N → ram c = ram' c) (certain : ∀ i < count, (p.1, p.2 + i) ∉ N) :
    ∀ c, c ∉ N → copyBytes ram p q count c = copyBytes ram' p q count c := by
  intro c outside
  rw [copyBytes, copyBytes]
  split
  · exact same _ (certain _ (by omega))
  · exact same c outside

theorem copyBytes_outside {ram : Ram} {p q c : Cell} {count : Nat}
    (outside : ∀ i < count, c ≠ (q.1, q.2 + i)) : copyBytes ram p q count c = ram c := by
  refine if_neg ?_
  rintro ⟨page, low, high⟩
  exact outside (c.2 - q.2) (by omega) (Prod.ext page (by dsimp only; omega))

/-- The word comes back as it was, and the bytes are copied. -/
theorem Seen.half {m : Machine} {ram : Ram} {bank' : Nat → Nat} {page : Byte} {kept d : Word}
    {src dst : Nat} {p q : Cell} (setting : Setting l bank s)
    (seen : Seen (noise bank (s - 16) s) ram bank' m)
    (room : Room (noise bank (s - 16) s) bank' s)
    (mapped : Function.update bank' (Machine.tempBank s) page.toNat =
      Function.update bank (Machine.tempBank s) page.toNat)
    (chunk : ∀ bank', bank' 0 = 0 → (cellOf bank' l.pcChunk ∉ noise bank (s - 16) s ∧
      cellOf bank' (l.pcChunk + 1) ∉ noise bank (s - 16) s ∧
      word (ram (cellOf bank' l.pcChunk)) (ram (cellOf bank' (l.pcChunk + 1))) = d))
    (srcAt : ∀ i < d.toNat, cellOf (Function.update bank (Machine.tempBank s) page.toNat)
      (src + i) = (p.1, p.2 + i))
    (dstAt : ∀ i < d.toNat, cellOf (Function.update bank (Machine.tempBank s) page.toNat)
      (dst + i) = (q.1, q.2 + i))
    (inRam : ∀ i < d.toNat, dst + i < ramTop)
    (srcCertain : ∀ i < d.toNat, (p.1, p.2 + i) ∉ noise bank (s - 16) s)
    (dstCertain : ∀ i < d.toNat, (q.1, q.2 + i) ∉ noise bank (s - 16) s)
    (apart : Apart p q d.toNat) :
    (m.half l s (Machine.tempBank s) page kept src dst).1 = d ∧
      (m.half l s (Machine.tempBank s) page kept src dst).2.1 = kept ∧
      Seen (noise bank (s - 16) s) (copyBytes ram p q d.toNat)
        (Function.update bank (Machine.tempBank s) page.toNat)
        (m.half l s (Machine.tempBank s) page kept src dst).2.2 := by
  have low := setting.low
  have high := setting.high
  have isBank : Machine.tempBank s < 4 := by
    rcases tempBank_values s with one | two <;> omega
  have zero : Function.update bank (Machine.tempBank s) page.toNat 0 = 0 := by
    rw [Function.update_of_ne, setting.bank0]
    rcases tempBank_values s with one | two <;> omega
  obtain ⟨first, second, value⟩ := chunk _ zero
  have mappedSeen := seen.stb_bank room isBank page
  rw [mapped] at mappedSeen
  obtain ⟨w, loaded⟩ := mappedSeen.ldd (setting.room_stack page.toNat) first second
  rw [value] at w
  -- the word on the stack is certain while frames can only be pushed below it
  have firstIs := setting.cellOf_stack (a := s - 2) (by omega) (by omega) page.toNat
  have next : s - 2 + 1 = s - 1 := by omega
  have secondIs : cellOf (Function.update bank (Machine.tempBank s) page.toNat) (s - 2 + 1) =
      cellOf bank (s - 1) := by
    rw [next]
    exact setting.cellOf_stack (by omega) (by omega) page.toNat
  have ticked := loaded.tick (setting.room_stack page.toNat)
  have stored := (ticked.store_known (a := s - 2) (by omega) (hiByte kept)).store_known
    (a := s - 2 + 1) (by omega) (loByte kept)
  rw [firstIs, secondIs] at stored
  have pushed := stored.weaken (M := noise bank (s - 16) (s - 2)) fun c inside =>
    noise_split inside.1.1 inside.1.2 inside.2
  have copied := pushed.tfm (setting.room_pushed page.toNat) srcAt dstAt inRam
    (fun i inside noisy => srcCertain i inside (noise_mono noisy)) apart
  have outsideCopy (a : Nat) (after : s - 2 ≤ a) (before : a < s) :
      ∀ i < d.toNat, cellOf bank a ≠ (q.1, q.2 + i) := by
    intro i inside same
    exact dstCertain i inside (same ▸ .inl ⟨a, by omega, before, rfl⟩)
  have apartStack : cellOf bank (s - 2) ≠ cellOf bank (s - 1) := by
    intro same
    have equal := near_inj (by omega) (by rw [bankSize]; omega) same
    omega
  obtain ⟨back, pulled⟩ := copied.ldd (setting.room_pushed page.toNat) (a := s - 2)
    (by rw [firstIs]; exact setting.above_certain (by omega) (by omega) (by omega))
    (by rw [secondIs]; exact setting.above_certain (by omega) (by omega) (by omega))
  rw [firstIs, secondIs, copyBytes_outside (outsideCopy (s - 2) (by omega) (by omega)),
    copyBytes_outside (outsideCopy (s - 1) (by omega) (by omega)), Function.update_self,
    Function.update_of_ne apartStack, Function.update_self, word_hiByte_loByte] at back
  have result : m.half l s (Machine.tempBank s) page kept src dst =
      (d, ((((m.stb s (bankBase + Machine.tempBank s) page).ldd s l.pcChunk).2.pshs s kept).tfm
        (s - 2) src dst d.toNat).puls (s - 2)) := by
    rw [Machine.half]
    dsimp only
    rw [w]
  rw [result]
  refine ⟨rfl, back, ?_⟩
  refine (pulled.weaken fun c => noise_mono).congr fun c outside => ?_
  refine copyBytes_congr (fun c outside => ?_) srcCertain c outside
  have other (a : Nat) (after : s - 2 ≤ a) (before : a < s) : c ≠ cellOf bank a := by
    rintro rfl
    exact outside (.inl ⟨a, by omega, before, rfl⟩)
  rw [Function.update_of_ne (other (s - 1) (by omega) (by omega)),
    Function.update_of_ne (other (s - 2) (by omega) (by omega))]

end Pugputer.Banks

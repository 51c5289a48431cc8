import Pugputer.Image.Filling
import Pugputer.Image.Reader

namespace Pugputer.Image

/-! The reader undoes each part of what the builder writes. -/

theorem shortName_length (name : Name) : (shortName name).length = 11 := by
  rw [shortName, List.length_append, rightpad_length, rightpad_length]
  · rw [List.length_map]
    exact List.length_take_le _ _
  · rw [List.length_map]
    exact List.length_take_le _ _

/-- The eleven bytes of an entry's name. -/
def diskName (name : Name) : Name :=
  if name = [dot] then [dot].rightpad 11 space
  else if name = [dot, dot] then [dot, dot].rightpad 11 space
  else shortName name

theorem diskName_length (name : Name) : (diskName name).length = 11 := by
  rw [diskName]
  split
  · rfl
  · split
    · rfl
    · exact shortName_length name

theorem entry_bytes (name : Name) (attr : Byte) (cluster : Word) (size : BitVec 32) :
    entry name attr cluster size =
      diskName name ++ (attr :: List.replicate 14 0 ++ le16 cluster ++ le32 size) := by
  rw [entry, diskName]
  simp only [List.append_assoc, List.cons_append, List.nil_append]

theorem entry_length (name : Name) (attr : Byte) (cluster : Word) (size : BitVec 32) :
    (entry name attr cluster size).length = 32 := by
  rw [entry_bytes, List.length_append, diskName_length]
  rfl

theorem word_halves (size : BitVec 32) :
    size.extractLsb' 16 16 ++ size.extractLsb' 0 16 = size := by
  calc
    size.extractLsb' 16 16 ++ size.extractLsb' 0 16 = size.extractLsb' 0 32 :=
      BitVec.extractLsb'_append_extractLsb'_eq_extractLsb' (x := size) rfl
    _ = size := BitVec.extractLsb'_eq_self

theorem read_entry (name : Name) (attr : Byte) (cluster : Word) (size : BitVec 32) :
    Reader.entry (entry name attr cluster size) =
      ⟨diskName name, attr, cluster.toNat, size.toNat⟩ := by
  have names := diskName_length name
  rw [entry_bytes]
  generalize diskName name = disk at names
  match disk, names with
  | [_, _, _, _, _, _, _, _, _, _, _], _ =>
      have low := word_hiByte_loByte cluster
      have sizeLow := word_hiByte_loByte (size.extractLsb' 0 16)
      have sizeHigh := word_hiByte_loByte (size.extractLsb' 16 16)
      have halves := word_halves size
      rw [← sizeLow, ← sizeHigh] at halves
      simp only [Reader.entry, Entry.mk.injEq]
      refine ⟨rfl, rfl, ?_, ?_⟩
      · exact congrArg BitVec.toNat low
      · exact congrArg BitVec.toNat halves

/-- The first byte of a name that is neither the end of a directory nor a deleted entry. -/
def Live (bytes : List Byte) : Prop := bytes.getD 0 0 ≠ 0 ∧ bytes.getD 0 0 ≠ 0xE5#8

theorem read_prefix {bytes : List Byte} (length : bytes.length = 32) (rest : List Byte) :
    Reader.entry (bytes ++ rest) = Reader.entry bytes := by
  have byte (i : Nat) (small : i < 32) : (bytes ++ rest).getD i 0 = bytes.getD i 0 :=
    List.getD_append _ _ _ _ (by rw [length]; exact small)
  rw [Reader.entry, Reader.entry, List.take_append_of_le_length (by rw [length]; decide),
    byte 11 (by decide), byte 26 (by decide), byte 27 (by decide), byte 28 (by decide),
    byte 29 (by decide), byte 30 (by decide), byte 31 (by decide)]

/-- Whole entries followed by zeros read back. -/
theorem read_entries (list : List (List Byte)) (zeros count : Nat)
    (whole : ∀ bytes ∈ list, bytes.length = 32 ∧ Live bytes) (room : list.length ≤ count) :
    Reader.entries count (list.flatten ++ List.replicate zeros 0) = list.map Reader.entry := by
  induction list generalizing count with
  | nil =>
      rw [List.flatten_nil, List.nil_append, List.map_nil]
      cases count with
      | zero => rfl
      | succ count =>
          have ended : (List.replicate zeros (0 : Byte)).getD 0 0 = 0 := by
            cases zeros with
            | zero => rfl
            | succ zeros => rfl
          rw [Reader.entries, if_pos ended]
  | cons bytes list ih =>
      obtain ⟨length, alive, kept⟩ := whole bytes List.mem_cons_self
      obtain ⟨count, rfl⟩ : ∃ c, count = c + 1 :=
        Nat.exists_eq_succ_of_ne_zero fun zero => by
          rw [zero] at room
          exact absurd room (Nat.not_succ_le_zero _)
      have head : (bytes ++ (list.flatten ++ List.replicate zeros 0)).getD 0 0 = bytes.getD 0 0 :=
        List.getD_append _ _ _ _ (by rw [length]; decide)
      have rest : (bytes ++ (list.flatten ++ List.replicate zeros 0)).drop 32 =
          list.flatten ++ List.replicate zeros 0 := by
        rw [← length, List.drop_left]
      rw [List.flatten_cons, List.append_assoc, Reader.entries, head, if_neg alive, if_neg kept,
        rest, read_prefix length, List.map_cons,
        ih _ (fun b member => whole b (List.mem_cons_of_mem _ member)) (Nat.le_of_succ_le_succ room)]

/-! Bytes and chains. -/

theorem bytesAt_length (image : Bytes) (off n : Nat) : (Reader.bytesAt image off n).length = n := by
  rw [Reader.bytesAt, List.length_map, List.length_range]

/-- What is stored, then zeros. -/
theorem bytesAt_stored {image : Bytes} {off n : Nat} {data : List Byte}
    (stored : ∀ i < n, image (off + i) = data.getD i 0) (room : data.length ≤ n) :
    Reader.bytesAt image off n = data ++ List.replicate (n - data.length) 0 := by
  apply List.ext_getElem
  · rw [bytesAt_length, List.length_append, List.length_replicate]
    omega
  · intro i inside inside'
    rw [bytesAt_length] at inside
    simp only [Reader.bytesAt, List.getElem_map, List.getElem_range]
    rw [stored i inside, List.getElem_append]
    split
    · rename_i inData
      exact List.getD_eq_getElem _ _ inData
    · rename_i past
      rw [List.getElem_replicate]
      exact List.getD_eq_default _ _ (Nat.le_of_not_lt past)

theorem bytesAt_add (image : Bytes) (off m n : Nat) :
    Reader.bytesAt image off (m + n) =
      Reader.bytesAt image off m ++ Reader.bytesAt image (off + m) n := by
  rw [Reader.bytesAt, List.range_add, List.map_append, List.map_map]
  congr 1
  apply List.map_congr_left
  intro i _
  rw [Function.comp_apply, Nat.add_assoc]

/-- A run of clusters is a stretch of the image. -/
theorem run_bytes (image : Bytes) {first : Nat} (real : 2 ≤ first) (n : Nat) :
    (List.range' first n).flatMap (Reader.clusterBytes image) =
      Reader.bytesAt image
        ((Reader.dataLba image + (first - 2) * Reader.spc image) * 512)
        (n * (Reader.spc image * 512)) := by
  induction n generalizing first with
  | zero =>
      rw [List.range'_zero, List.flatMap_nil, Nat.zero_mul]
      rfl
  | succ n ih =>
      have offset : first + 1 - 2 = first - 2 + 1 := by omega
      rw [List.range'_succ, List.flatMap_cons, ih (Nat.le_succ_of_le real), Nat.succ_mul,
        Nat.add_comm (n * _), bytesAt_add, Reader.clusterBytes, offset, Nat.add_mul (first - 2),
        Nat.one_mul, ← Nat.add_assoc, Nat.add_mul _ (Reader.spc image) 512]

/-- A run of clusters chained one to the next reads as a chain. -/
theorem run_chain {image : Bytes} {copy first n fuel : Nat} (real : 2 ≤ first) (some : 0 < n)
    (top : first + n ≤ 0xFFF8) (enough : n ≤ fuel)
    (chained : ∀ k, first ≤ k → k < first + n →
      Reader.next image copy k = if k + 1 = first + n then 0xFFFF else k + 1) :
    Reader.chain image copy fuel first = .some (List.range' first n) := by
  induction n generalizing first fuel with
  | zero => exact absurd some (Nat.lt_irrefl 0)
  | succ n ih =>
      obtain ⟨fuel, rfl⟩ : ∃ c, fuel = c + 1 := Nat.exists_eq_succ_of_ne_zero (by omega)
      have here := chained first (Nat.le_refl _) (by omega)
      rw [Reader.chain, if_neg (by omega), here, List.range'_succ]
      by_cases last : n = 0
      · subst last
        rw [if_pos rfl, if_pos (by decide), List.range'_zero]
      · have next : ¬first + 1 = first + (n + 1) := by omega
        rw [if_neg next, if_neg (by omega), ih (by omega) (by omega) (by omega) (by omega)]
        · rfl
        · intro k low high
          rw [chained k (by omega) (by omega)]
          congr 1
          rw [eq_iff_iff]
          omega

/-! Pieces of an image put in one after the other. -/

theorem puts_miss {α : Type} (off : α → Nat) (bytes : α → List Byte) (list : List α) (buf : Bytes)
    {i : Nat} (miss : ∀ x ∈ list, ¬(off x ≤ i ∧ i < off x + (bytes x).length)) :
    list.foldl (fun image x => put image (off x) (bytes x)) buf i = buf i := by
  induction list generalizing buf with
  | nil => rfl
  | cons x list ih =>
      rw [List.foldl_cons, ih _ fun y member => miss y (List.mem_cons_of_mem _ member)]
      exact if_neg (miss x List.mem_cons_self)

theorem puts_hit {α : Type} (off : α → Nat) (bytes : α → List Byte) (list : List α) (buf : Bytes)
    {i : Nat} {x : α} (member : x ∈ list) (hit : off x ≤ i ∧ i < off x + (bytes x).length)
    (only : ∀ y ∈ list, off y ≤ i ∧ i < off y + (bytes y).length → y = x) :
    list.foldl (fun image x => put image (off x) (bytes x)) buf i = (bytes x).getD (i - off x) 0 := by
  induction list generalizing buf with
  | nil => cases member
  | cons y list ih =>
      rw [List.foldl_cons]
      by_cases later : x ∈ list
      · exact ih _ later fun z inList => only z (List.mem_cons_of_mem _ inList)
      · obtain rfl : x = y := (List.mem_cons.mp member).resolve_right later
        rw [puts_miss]
        · exact if_pos hit
        · intro z inList again
          exact later (only z (List.mem_cons_of_mem _ inList) again ▸ inList)

end Pugputer.Image

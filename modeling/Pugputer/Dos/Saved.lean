import Pugputer.Dos.Lines

namespace Pugputer.Dos

open Lib

/-! A file that is closed, and opened again. -/

/-- FD_MATCH: the entry of a directory's sector at an offset. -/
def foundAt (disk : Lba → Sector) (lba : Lba) (ofs : Word) : Found where
  lba
  ofs
  cluster := word (disk lba (ofs.toNat + 27)) (disk lba (ofs.toNat + 26))
  size := disk lba (ofs.toNat + 31) ++ disk lba (ofs.toNat + 30) ++ disk lba (ofs.toNat + 29) ++
    disk lba (ofs.toNat + 28)
  attr := disk lba (ofs.toNat + 11)

/-- The file's bytes are all on the disk. -/
structure Saved (g : Geometry) (v : Vars) (startclus : Word) (clusters : List Word)
    (content : List Byte) : Prop where
  kept : Kept g v
  quiet : v.io = []
  hint : 2 ≤ v.allocHint
  within : v.Within g
  own : Clusters g v startclus clusters
  room : content.length ≤ clusters.length * g.secPerClus.toNat * 512
  disk : ∀ n lba, g.sectorLba clusters n = some lba → Agrees content n (v.disk lba)

variable {g : Geometry} {v v' : Vars} {startclus : Word} {clusters : List Word}
  {content : List Byte} {s : Open} {lba : Lba}

theorem Holds.saved (holds : Holds g clusters content s) (clean : s.slot.dirty = false) :
    Saved g s.vars s.slot.startclus clusters content :=
  ⟨holds.kept, holds.quiet, holds.hint, holds.within, holds.own, holds.room,
    fun n lba there => holds.disk n lba there fun both =>
      absurd (clean.symm.trans both.1) Bool.false_ne_true⟩

namespace Saved

theorem unmoved (saved : Saved g v startclus clusters content) (volume : Volume g)
    (unmoved : Unmoved g v v') : Saved g v' startclus clusters content where
  kept := unmoved.kept
  quiet := unmoved.quiet
  hint := unmoved.hint ▸ saved.hint
  within := unmoved.within saved.within
  own := saved.own.congr unmoved.links
  room := saved.room
  disk n lba there := by
    rw [unmoved.disk lba (saved.own.sectorLba_apart volume there)]
    exact saved.disk n lba there

/-- A sector that is none of the file's is written. -/
theorem write (saved : Saved g v startclus clusters content) (apart : ¬InCopies g lba)
    (other : ∀ n, g.sectorLba clusters n ≠ some lba) (sector : Sector)
    (written : List (Lba × Sector)) :
    Saved g { v with disk := Function.update v.disk lba sector, written } startclus clusters
      content := by
  obtain ⟨kept, links⟩ := saved.kept.write saved.within apart sector written
  refine ⟨kept, saved.quiet, saved.hint, saved.within, saved.own.congr links, saved.room, ?_⟩
  intro n lba' there
  have elsewhere : lba' ≠ lba := fun same => other n (same ▸ there)
  dsimp only
  rw [Function.update_of_ne elsewhere]
  exact saved.disk n lba' there

/-- A slot that has nothing of the file yet. -/
theorem opened (saved : Saved g v startclus clusters content) {slot : Slot}
    (start : slot.startclus = startclus) (size : slot.size.toNat = content.length)
    (empty : 0x800000 ≤ slot.bufsec.toNat) (clean : slot.dirty = false)
    (uncached : slot.cacheclus = 0) : Holds g clusters content ⟨v, slot⟩ := by
  have fits := slot.size.isLt
  rw [size] at fits
  have past := Nat.le_trans (Nat.le_of_lt fits) (Nat.mul_le_mul_right 512 empty)
  refine ⟨saved.kept, saved.quiet, saved.hint, saved.within, start ▸ saved.own, size, saved.room,
    fun cached => absurd uncached cached, .inr empty, fun pending => ?_, .past past,
    fun n lba there _ => saved.disk n lba there⟩
  exact absurd (clean.symm.trans pending) Bool.false_ne_true

end Saved

theorem commit_found (kept : Kept g v) (quiet : v.io = []) (within : v.Within g) :
    ∃ v', v.fatCommit g = (.ok (), v') ∧ Unmoved g v v' := by
  obtain ⟨ok, still, -⟩ := fatCommit_quiet (g := g) quiet
  obtain ⟨-, committed⟩ := kept.cached.commit kept.coherent
  have committed := committed ok
  refine ⟨_, Prod.ext ok rfl, ⟨⟨fun _ loaded => ?_, fun pending => ?_⟩, still,
    link_congr fun sec inside => committed.fatSector inside,
    fun lba apart => fatCommit_disk kept.cached apart⟩, fatCommit_hint, fun _ => ?_⟩
  · rw [committed.fatBufSec] at loaded ⊢
    rw [committed.fatBuf, committed.disk _ (within.resolve_left loaded), Vars.fatSector, if_pos rfl]
  · exact absurd (committed.fatDirty.symm.trans pending) Bool.false_ne_true
  · rw [Vars.Within, committed.fatBufSec]
    exact within

/-! The directory's entry. -/

theorem direntSector_bytes (slot : Slot) (ofs : Nat) (sector : Sector) :
    let stored := Machine.direntSector slot ofs sector
    stored (ofs + 26) = loByte slot.startclus ∧ stored (ofs + 27) = hiByte slot.startclus ∧
      stored (ofs + 28) = slot.size.extractLsb' 0 8 ∧
      stored (ofs + 29) = slot.size.extractLsb' 8 8 ∧
      stored (ofs + 30) = slot.size.extractLsb' 16 8 ∧
      stored (ofs + 31) = slot.size.extractLsb' 24 8 := by
  refine ⟨if_pos rfl, ?_, ?_, ?_, ?_, ?_⟩
  · rw [Machine.direntSector, if_neg (by omega), if_pos rfl]
  · rw [Machine.direntSector, if_neg (by omega), if_neg (by omega), if_pos rfl]
  · rw [Machine.direntSector, if_neg (by omega), if_neg (by omega), if_neg (by omega), if_pos rfl]
  · rw [Machine.direntSector, if_neg (by omega), if_neg (by omega), if_neg (by omega),
      if_neg (by omega), if_pos rfl]
  · rw [Machine.direntSector, if_neg (by omega), if_neg (by omega), if_neg (by omega),
      if_neg (by omega), if_neg (by omega), if_pos rfl]

/-- What SYNC_SLOT stores in an entry is what FIND_DIRENT finds there. -/
theorem foundAt_direntSector (disk : Lba → Sector) (lba : Lba) (ofs : Word) (slot : Slot)
    (sector : Sector) :
    let found := foundAt
      (Function.update disk lba (Machine.direntSector slot ofs.toNat sector)) lba ofs
    found.cluster = slot.startclus ∧ found.size = slot.size := by
  obtain ⟨lo, hi, size₀, size₁, size₂, size₃⟩ := direntSector_bytes slot ofs.toNat sector
  dsimp only [foundAt]
  rw [Function.update_self, lo, hi, size₀, size₁, size₂, size₃]
  refine ⟨word_hiByte_loByte _, ?_⟩
  calc
    slot.size.extractLsb' 24 8 ++ slot.size.extractLsb' 16 8 ++ slot.size.extractLsb' 8 8 ++
        slot.size.extractLsb' 0 8 = slot.size.extractLsb' 0 32 := by
      rw [BitVec.extractLsb'_append_extractLsb'_eq_extractLsb' (by decide),
        BitVec.extractLsb'_append_extractLsb'_eq_extractLsb' (by decide),
        BitVec.extractLsb'_append_extractLsb'_eq_extractLsb' (by decide)]
    _ = slot.size := BitVec.extractLsb'_eq_self

/-- DOS_CLOSE leaves the file on the disk, and its entry in the directory. -/
theorem close_saved (volume : Volume g) {m : Machine} {i : Fin nslots}
    (holds : Holds g clusters content (m.files.current i)) (writes : (m.files.slots i).Writes)
    (apart : ¬InCopies g (m.dirent i).1)
    (other : ∀ n, g.sectorLba clusters n ≠ some (m.dirent i).1) :
    ∃ m' startclus, m.dosClose g i = (none, m') ∧
      Saved g m'.files.vars startclus clusters content ∧
      (foundAt m'.files.vars.disk (m.dirent i).1 (m.dirent i).2).cluster = startclus ∧
      (foundAt m'.files.vars.disk (m.dirent i).1 (m.dirent i).2).size.toNat = content.length := by
  obtain ⟨s₁, flushed, holds₁, clean, -⟩ := flush_found volume holds
  have saved := holds₁.saved clean
  obtain ⟨v₂, commit, unmoved⟩ := commit_found holds₁.kept holds₁.quiet holds₁.within
  have saved₂ := saved.unmoved volume unmoved
  rw [Machine.dosClose, if_neg writes, Machine.syncSlot, flushed]
  dsimp only [Files.put]
  rw [commit]
  dsimp only [Machine.onVars]
  rw [unmoved.quiet]
  dsimp only [List.headD_nil, Vars.writeSector, List.tail_nil]
  let entry := Machine.direntSector s₁.slot (m.dirent i).2.toNat (v₂.disk (m.dirent i).1)
  obtain ⟨cluster, size⟩ := foundAt_direntSector v₂.disk (m.dirent i).1 (m.dirent i).2 s₁.slot
    (v₂.disk (m.dirent i).1)
  have written := saved₂.write apart other entry (((m.dirent i).1, entry) :: v₂.written)
  rw [unmoved.quiet] at written
  exact ⟨_, _, rfl, written, cluster, (congrArg BitVec.toNat size).trans holds₁.size⟩

/-- DOS_OPEN, from where FIND_DIRENT has found the entry. -/
theorem openInit_left {m : Machine} {found : Found} (j : Fin nslots)
    (saved : Saved g m.files.vars found.cluster clusters content)
    (size : found.size.toNat = content.length) :
    Left g clusters content ((m.openInit j found).files.current j) content := by
  have slot : (m.openInit j found).files.current j = ⟨m.files.vars, { m.files.slots j with
      inuse := true
      mode := fopenRead
      startclus := found.cluster
      size := found.size
      pos := 0
      bufsec := 0xFF#8 ++ (m.files.slots j).bufsec.setWidth 16
      dirty := false
      cacheidx := 0
      cacheclus := 0 }⟩ := by
    rw [Files.current, Machine.openInit]
    dsimp only
    rw [Function.update_self]
  rw [slot]
  exact ⟨saved.opened rfl size (bad_bufsec _) rfl rfl, .inl rfl, rfl, Nat.zero_le _, rfl⟩

/-! The round trip. -/

/-- A file that has been opened to be written, with nothing in it. -/
structure Created (g : Geometry) (m : Machine) (i : Fin nslots) : Prop where
  kept : Kept g m.files.vars
  quiet : m.files.vars.io = []
  hint : 2 ≤ m.files.vars.allocHint
  within : m.files.vars.Within g
  writes : (m.files.slots i).Writes
  startclus : (m.files.slots i).startclus = 0
  size : (m.files.slots i).size = 0
  pos : (m.files.slots i).pos = 0
  bufsec : 0x800000 ≤ (m.files.slots i).bufsec.toNat
  clean : (m.files.slots i).dirty = false
  cacheclus : (m.files.slots i).cacheclus = 0
  /-- Its entry is in a directory: that is not in the FAT, nor where no file is. -/
  entry : ¬InCopies g (m.dirent i).1
  apart : ∀ c sic : Word, 2 ≤ c → c < g.maxClus → sic.toNat < g.secPerClus.toNat →
    m.files.vars.link g c = 0 → g.clusSicToLba c sic ≠ (m.dirent i).1

namespace Created

variable {m : Machine} {i : Fin nslots}

theorem ends (created : Created g m i) (inuse : (m.files.slots i).inuse = true) :
    Ends g [] [] (m.files.current i) := by
  have saved : Saved g m.files.vars 0 [] [] :=
    ⟨created.kept, created.quiet, created.hint, created.within,
      ⟨.inl ⟨rfl, rfl⟩, List.nodup_nil, fun _ member => absurd member List.not_mem_nil⟩,
      Nat.zero_le _, fun _ _ there => by cases there⟩
  refine ⟨saved.opened created.startclus ?_ created.bufsec created.clean created.cacheclus,
    created.writes, inuse, ?_⟩
  · rw [created.size]
    rfl
  · change (m.files.slots i).pos.toNat = 0
    rw [created.pos]
    rfl

/-- The clusters it grows by have none of its directory's sectors. -/
theorem other (created : Created g m i) (volume : Volume g)
    (grown : Grown g m.files.vars [] v clusters) (own : Clusters g v startclus clusters) (n : Nat) :
    g.sectorLba clusters n ≠ some (m.dirent i).1 := by
  intro there
  obtain ⟨c, at_, here⟩ := Option.map_eq_some_iff.mp there
  obtain ⟨more, whole, free⟩ := grown.taken
  rw [List.nil_append] at whole
  have member := List.mem_of_getElem? at_
  obtain ⟨low, high⟩ := own.range c member
  exact created.apart c _ low high (volume.sic_lt n).2 (free c (whole ▸ member)) here

end Created

/-- Plain lines that are written, in a file that is then closed, are read when it is opened again;
and what is read of any file is its content, split at each CR LF, CR and LF. -/
theorem lines_round_trip {boot : Sector} (formatted : Formatted boot) :
    (∀ (m : Machine) (b : Byte) (i : Fin nslots) (lines : List (List Byte)) (rlMax : Word)
        (f : Files), m.files.slotCheck b = some i → Created (dosStart boot) m i →
      (∀ line ∈ lines, Lines.Plain cr lf line ∧ line.length < rlMax.toNat) →
      m.files.writeLines (dosStart boot) b lines = (.ok (), f) →
      ∃ m', Machine.dosClose (dosStart boot) i { m with files := f } = (none, m') ∧
        Kept (dosStart boot) m'.files.vars ∧ m'.files.vars.io = [] ∧ ∀ vars, Unmoved (dosStart boot) m'.files.vars vars → ∀ (j : Fin nslots) (b' : Byte),
          b'.toNat = j →
          let found := foundAt vars.disk (m.dirent i).1 (m.dirent i).2
          let read := ((m'.onVars vars).openInit j found).files.readLines (dosStart boot) b' rlMax
            lines.length
          read.1 = lines.map .ok ∧ (read.2.slots j).pos = (read.2.slots j).size) ∧
    ∀ (f : Files) (b : Byte) (i : Fin nslots) (clusters : List Word) (content : List Byte)
        (rlMax : Word), f.slotCheck b = some i → (f.slots i).Reads →
      Holds (dosStart boot) clusters content (f.current i) →
      (f.slots i).pos.toNat ≤ content.length →
      ∀ rest, content.drop (f.slots i).pos.toNat = rest →
      (∀ line ∈ Lines.split cr lf rest, line.length < rlMax.toNat) →
      ∀ n ≤ (Lines.split cr lf rest).length,
        (f.readLines (dosStart boot) b rlMax n).1 = ((Lines.split cr lf rest).take n).map .ok ∧
        ((f.readLines (dosStart boot) b rlMax n).2.slots i).pos.toNat =
          content.length - (Lines.after cr lf n rest).length := by
  have volume := formatted.volume
  constructor
  · intro m b i lines rlMax f check created plain ran
    obtain ⟨-, inuse⟩ := Files.slotCheck_some.mp check
    obtain ⟨clusters, ends, grown⟩ := writeLines_ends volume check (created.ends inuse) ran
    rw [List.nil_append] at ends
    obtain ⟨m', startclus, closed, saved, cluster, size⟩ :=
      close_saved (m := { m with files := f }) volume ends.holds ends.writes created.entry
        (created.other volume grown ends.holds.own)
    refine ⟨m', closed, saved.kept, saved.quiet, fun vars unmoved j b' handle => ?_⟩
    have same : foundAt vars.disk (m.dirent i).1 (m.dirent i).2 =
        foundAt m'.files.vars.disk (m.dirent i).1 (m.dirent i).2 := by
      rw [foundAt, foundAt, unmoved.disk _ created.entry]
    dsimp only
    rw [same]
    have left := openInit_left (m := m'.onVars vars) j
      (cluster.symm ▸ saved.unmoved volume unmoved) size
    have split : Lines.split cr lf (lines.flatMap (· ++ [cr])) = lines :=
      Lines.split_written (by decide) fun line member => (plain line member).1
    obtain ⟨read, last⟩ := readLines_left (n := lines.length) (b := b') volume
      (Files.slotCheck_some.mpr ⟨handle, left.inuse⟩) left
      (by rw [split]; exact fun line member => (plain line member).2) (by rw [split])
    rw [Lines.after_length (by decide) (congrArg List.length split)] at last
    refine ⟨?_, BitVec.eq_of_toNat_eq (last.pos.trans last.holds.size.symm)⟩
    rw [read, split, List.take_length]
  · intro f b i clusters content rlMax check reads holds within rest here short n many
    obtain ⟨-, inuse⟩ := Files.slotCheck_some.mp check
    obtain ⟨read, left⟩ := readLines_left volume check ⟨holds, reads, inuse, within, here⟩ short many
    exact ⟨read, left.pos⟩

/-- A FAT at sector 1, the root's sector after it, and clusters of one sector from sector 3 on. -/
def plainBoot : Sector := fun offset =>
  if offset = 13 then 1
  else if offset = 14 then 1
  else if offset = 16 then 1
  else if offset = 17 then 16
  else if offset = 19 then 20
  else if offset = 22 then 1
  else 0

theorem plainBoot_formatted : Formatted plainBoot := ⟨⟨0, by decide, rfl⟩, by decide⟩

/-- A disk whose cluster 2 is free, or the only one of a file. -/
def textVars (entry : Byte) (text : List Byte) : Vars where
  disk lba offset :=
    if lba = 1 then if offset = 4 ∨ offset = 5 then entry else 0
    else if lba = 3 then text.getD offset 0
    else 0
  fatBuf _ := 0
  fatBufSec := 0xFFFF
  fatDirty := false
  allocHint := 2
  io := []
  written := []

/-- The slot of a file that has just been opened. -/
def openSlot (mode : Byte) (startclus : Word) (size : BitVec 32) : Slot where
  inuse := true
  mode
  startclus
  size
  pos := 0
  bufsec := 0xFF0000
  dirty := false
  cacheidx := 0
  cacheclus := 0
  buf _ := 0

/-- A new file, whose entry is the first of the root. -/
def writer : Machine where
  files := { vars := textVars 0 [], slots := fun _ => openSlot 1 0 0 }
  dirent _ := (2, 0)
  mem _ := 0
  sp := 0
  bootSp := 0

def firstSlot : Fin nslots := ⟨0, Nat.succ_pos 7⟩

theorem textVars_kept (g : Geometry) (entry : Byte) (text : List Byte) :
    Kept g (textVars entry text) :=
  ⟨fun _ loaded => absurd rfl loaded, fun pending => absurd pending Bool.false_ne_true⟩

theorem writer_created : Created (dosStart plainBoot) writer firstSlot where
  kept := textVars_kept _ _ _
  quiet := rfl
  hint := by decide
  within := .inl rfl
  writes := by decide
  startclus := rfl
  size := rfl
  pos := rfl
  bufsec := by decide
  clean := rfl
  cacheclus := rfl
  entry := by
    unfold InCopies
    decide
  apart c sic low high inside _ same := by
    have value := congrArg BitVec.toNat same
    rw [plainBoot_formatted.volume.lba c sic low inside] at value
    change _ + 3 + _ = 2 at value
    omega

/-- A text in the one sector of cluster 2. -/
theorem textVars_saved {text : List Byte}
    (chain : Chain ((textVars 0xFF text).link (dosStart plainBoot)) 2 [2])
    (room : text.length ≤ 512) :
    Saved (dosStart plainBoot) (textVars 0xFF text) 2 [2] text := by
  have bounds : (2 : Word) ≤ 2 ∧ (2 : Word) < (dosStart plainBoot).maxClus := by decide
  have one : [(2 : Word)].length * (dosStart plainBoot).secPerClus.toNat * 512 = 512 := by decide
  have own : Clusters (dosStart plainBoot) (textVars 0xFF text) 2 [2] :=
    ⟨.inr chain, List.nodup_singleton 2, List.forall_mem_singleton.mpr bounds⟩
  refine ⟨textVars_kept _ _ _, rfl, bounds.1, .inl rfl, own, one.symm ▸ room, fun n lba there => ?_⟩
  obtain ⟨c, at_, rfl⟩ := Option.map_eq_some_iff.mp there
  obtain ⟨inside, -⟩ := List.getElem?_eq_some_iff.mp at_
  obtain rfl : n = 0 := by
    change n / 1 < 1 at inside
    omega
  obtain rfl : 2 = c := Option.some.inj at_
  intro i _ b at'
  rw [Nat.zero_mul, Nat.zero_add] at at'
  change text.getD i 0 = b
  rw [List.getD_eq_getElem?_getD, at']
  rfl

/-- "A" CR LF, "B" CR and "C". -/
def text : List Byte := [0x41, 0x0D, 0x0A, 0x42, 0x0D, 0x43]

def reader : Files where
  vars := textVars 0xFF text
  slots _ := openSlot fopenRead 2 6

theorem reader_holds : Holds (dosStart plainBoot) [2] text (reader.current firstSlot) := by
  have saved : Saved (dosStart plainBoot) (textVars 0xFF text) 2 [2] text :=
    textVars_saved (.last (by decide) (by decide)) (by decide)
  exact saved.opened rfl rfl (by decide) rfl rfl

theorem lines_round_trip_text :
    (∃ f m', writer.files.writeLines (dosStart plainBoot) 0 [[0x41], []] = (.ok (), f) ∧
      Machine.dosClose (dosStart plainBoot) firstSlot { writer with files := f } = (none, m') ∧
      (((m'.onVars m'.files.vars).openInit firstSlot
        (foundAt m'.files.vars.disk 2 0)).files.readLines (dosStart plainBoot) 0 80 2).1 =
          [.ok [0x41], .ok []]) ∧
    (reader.readLines (dosStart plainBoot) 0 80 3).1 = [.ok [0x41], .ok [0x42], .ok [0x43]] := by
  obtain ⟨written, read⟩ := lines_round_trip plainBoot_formatted
  constructor
  · have plain : ∀ line ∈ [[0x41], []], Lines.Plain cr lf line ∧ line.length < (80 : Word).toNat := by
      unfold Lines.Plain
      decide
    have outcome : (writer.files.writeLines (dosStart plainBoot) 0 [[0x41], []]).1 = .ok () := rfl
    have ran : writer.files.writeLines (dosStart plainBoot) 0 [[0x41], []] =
        (.ok (), (writer.files.writeLines (dosStart plainBoot) 0 [[0x41], []]).2) := by
      rw [← outcome]
    obtain ⟨m', closed, kept, quiet, reopened⟩ :=
      written writer 0 firstSlot [[0x41], []] 80 _ rfl writer_created plain ran
    exact ⟨_, m', ran, closed, (reopened m'.files.vars (.refl kept quiet) firstSlot 0 rfl).1⟩
  · exact (read reader 0 firstSlot [2] text 80 rfl (.inl rfl) reader_holds (Nat.zero_le _) text rfl
      (by decide) 3 (by decide)).1

end Pugputer.Dos

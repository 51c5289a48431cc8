import Mathlib.Data.List.Perm.Subperm
import Pugputer.Dos.Chains

namespace Pugputer.Dos

/-! What an open file holds. -/

/-- Where a chain of clusters has its sector `n`. -/
def Geometry.sectorLba (g : Geometry) (clusters : List Word) (n : Nat) : Option Lba :=
  clusters[n / g.secPerClus.toNat]?.map fun c =>
    g.clusSicToLba c (BitVec.ofNat 16 (n % g.secPerClus.toNat))

/-- A sector has those bytes of the content that fall in it. -/
def Agrees (content : List Byte) (n : Nat) (sector : Sector) : Prop :=
  ∀ i < 512, ∀ b, content[n * 512 + i]? = some b → sector i = b

/-- The clusters of a file. -/
structure Clusters (g : Geometry) (v : Vars) (startclus : Word) (clusters : List Word) : Prop where
  chain : startclus = 0 ∧ clusters = [] ∨ Chain (v.link g) startclus clusters
  distinct : clusters.Nodup
  range : ∀ c ∈ clusters, 2 ≤ c ∧ c < g.maxClus

/-- The file's bytes are in its sectors on the disk, but for those of the sector in the buffer if
that has been changed. -/
structure Holds (g : Geometry) (clusters : List Word) (content : List Byte) (s : Open) : Prop where
  kept : Kept g s.vars
  quiet : s.vars.io = []
  hint : 2 ≤ s.vars.allocHint
  within : s.vars.Within g
  own : Clusters g s.vars s.slot.startclus clusters
  size : s.slot.size.toNat = content.length
  room : content.length ≤ clusters.length * g.secPerClus.toNat * 512
  cache : s.slot.cacheclus ≠ 0 → clusters[s.slot.cacheidx.toNat]? = some s.slot.cacheclus
  /-- The buffer has a sector of the file, or is no good. -/
  bufsec : s.slot.bufsec.toNat * 512 < content.length ∨ 0x800000 ≤ s.slot.bufsec.toNat
  dirty : s.slot.dirty = true → s.slot.bufsec.toNat < 0x800000
  buffer : Agrees content s.slot.bufsec.toNat s.slot.buf
  disk : ∀ n lba, g.sectorLba clusters n = some lba →
    ¬(s.slot.dirty = true ∧ n = s.slot.bufsec.toNat) → Agrees content n (s.vars.disk lba)

section

variable {g : Geometry} {v : Vars} {c c' sic sic' startclus : Word} {clusters : List Word}
  {n n' : Nat} {lba : Lba}

theorem row_inj {a b i j spc : Nat} (inside : i < spc) (inside' : j < spc)
    (same : a * spc + i = b * spc + j) : a = b ∧ i = j := by
  have rest : (a * spc + i) % spc = (b * spc + j) % spc := by rw [same]
  rw [Nat.mul_add_mod_of_lt inside, Nat.mul_add_mod_of_lt inside'] at rest
  exact ⟨Nat.eq_of_mul_eq_mul_right (Nat.zero_lt_of_lt inside) (by omega), rest⟩

/-- No sector is in two clusters. -/
theorem Volume.lba_inj (volume : Volume g) (low : 2 ≤ c) (low' : 2 ≤ c')
    (inside : sic.toNat < g.secPerClus.toNat) (inside' : sic'.toNat < g.secPerClus.toNat)
    (same : g.clusSicToLba c sic = g.clusSicToLba c' sic') : c = c' ∧ sic = sic' := by
  have value := congrArg BitVec.toNat same
  rw [volume.lba c sic low inside, volume.lba c' sic' low' inside'] at value
  obtain ⟨row, rest⟩ := row_inj (a := c.toNat - 2) (b := c'.toNat - 2) inside inside' (by omega)
  rw [BitVec.le_def] at low low'
  change 2 ≤ _ at low low'
  exact ⟨BitVec.eq_of_toNat_eq (by omega), BitVec.eq_of_toNat_eq rest⟩

theorem Volume.sic_lt (volume : Volume g) (n : Nat) :
    (BitVec.ofNat 16 (n % g.secPerClus.toNat)).toNat = n % g.secPerClus.toNat ∧
      (BitVec.ofNat 16 (n % g.secPerClus.toNat)).toNat < g.secPerClus.toNat := by
  have inside := Nat.mod_lt n volume.spc
  have bound := g.secPerClus.isLt
  rw [BitVec.toNat_ofNat, Nat.mod_eq_of_lt (by omega)]
  exact ⟨rfl, inside⟩

namespace Clusters

theorem length_lt (own : Clusters g v startclus clusters) : clusters.length < 65536 := by
  have distinct : (0 :: clusters.map BitVec.toNat).Nodup := by
    refine List.nodup_cons.mpr ⟨fun member => ?_, ?_⟩
    · obtain ⟨c, member, zero⟩ := List.mem_map.mp member
      have low := BitVec.le_def.mp (own.range c member).1
      change 2 ≤ c.toNat at low
      omega
    · exact own.distinct.map fun a b same => BitVec.eq_of_toNat_eq same
  have within : 0 :: clusters.map BitVec.toNat ⊆ List.range 65536 := by
    intro i member
    rcases List.mem_cons.mp member with rfl | member
    · exact List.mem_range.mpr (by decide)
    · obtain ⟨c, -, rfl⟩ := List.mem_map.mp member
      exact List.mem_range.mpr c.isLt
  have shorter := (List.subperm_of_subset distinct within).length_le
  rwa [List.length_cons, List.length_map, List.length_range] at shorter

theorem inFat (own : Clusters g v startclus clusters) (volume : Volume g) :
    ∀ x ∈ clusters, InFat g x := fun x member => volume.inFat x (own.range x member).2

/-- A sector of the file is in one place, and no other sector of it is there. -/
theorem sectorLba_inj (own : Clusters g v startclus clusters) (volume : Volume g)
    (here : g.sectorLba clusters n = some lba) (there : g.sectorLba clusters n' = some lba) :
    n = n' := by
  obtain ⟨c, at_, rfl⟩ := Option.map_eq_some_iff.mp here
  obtain ⟨c', at', same⟩ := Option.map_eq_some_iff.mp there
  have low := (own.range c (List.mem_of_getElem? at_)).1
  have low' := (own.range c' (List.mem_of_getElem? at')).1
  obtain ⟨sic, inside⟩ := volume.sic_lt n
  obtain ⟨sic', inside'⟩ := volume.sic_lt n'
  obtain ⟨rfl, rest⟩ := volume.lba_inj low' low inside' inside same
  have rest := congrArg BitVec.toNat rest
  rw [sic, sic'] at rest
  obtain ⟨within, -⟩ := List.getElem?_eq_some_iff.mp at_
  have row := (List.getElem?_inj within own.distinct).mp (at_.trans at'.symm)
  rw [← Nat.div_add_mod n g.secPerClus.toNat, ← Nat.div_add_mod n' g.secPerClus.toNat, row, rest]

theorem sectorLba_apart (own : Clusters g v startclus clusters) (volume : Volume g)
    (here : g.sectorLba clusters n = some lba) : ¬InCopies g lba := by
  obtain ⟨c, at_, rfl⟩ := Option.map_eq_some_iff.mp here
  obtain ⟨-, inside⟩ := volume.sic_lt n
  intro copy
  have below := volume.below _ copy
  rw [volume.lba c _ (own.range c (List.mem_of_getElem? at_)).1 inside] at below
  omega

/-- What reading does to the FAT's cache does nothing to a file's clusters. -/
theorem congr {v' : Vars} (own : Clusters g v startclus clusters) (same : v'.link g = v.link g) :
    Clusters g v' startclus clusters :=
  ⟨same.symm ▸ own.chain, own.distinct, own.range⟩

end Clusters

/-- A sector with bytes of the file is there. -/
theorem Holds.sector {content : List Byte} {s : Open} (holds : Holds g clusters content s)
    (volume : Volume g) (inside : n * 512 < content.length) :
    ∃ lba, g.sectorLba clusters n = some lba := by
  have room := holds.room
  have row : n / g.secPerClus.toNat < clusters.length := by
    rw [Nat.div_lt_iff_lt_mul volume.spc]
    omega
  exact ⟨_, congrArg (Option.map _) (List.getElem?_eq_getElem row)⟩

end

/-! A sector is located. -/

section

variable {g : Geometry} {ext : Bool} {clusters : List Word} {content : List Byte} {s s' : Open}
  {n : BitVec 24} {lba : Lba}

theorem locateSector_eq (volume : Volume g) (small : n.toNat / g.secPerClus.toNat < 65536) :
    locateSector g ext n s =
      let k := BitVec.ofNat 16 (n.toNat / g.secPerClus.toNat)
      let sic := BitVec.ofNat 16 (n.toNat % g.secPerClus.toNat)
      if s.slot.cacheclus ≠ 0 ∧ s.slot.cacheidx ≤ k then
        lsWalk g ext k sic (k.toNat - s.slot.cacheidx.toNat) s.slot.cacheclus s
      else if s.slot.startclus ≠ 0 then lsWalk g ext k sic k.toNat s.slot.startclus s
      else if ext then
        (do
          let startclus ← onVars fun v => v.allocCluster g
          modifySlot fun slot => { slot with startclus }
          lsWalk g ext k sic k.toNat startclus) s
      else (.error errIoerr, s) := by
  have row := volume.cluster n
  have high : ((n >>> g.spcShift).extractLsb' 16 8 : Byte) = 0 := by
    apply BitVec.eq_of_toNat_eq
    rw [BitVec.extractLsb'_toNat, row, Nat.shiftRight_eq_div_pow]
    change _ % 256 = 0
    omega
  have k : ((n >>> g.spcShift).setWidth 16 : Word) =
      BitVec.ofNat 16 (n.toNat / g.secPerClus.toNat) := by
    apply BitVec.eq_of_toNat_eq
    rw [BitVec.toNat_setWidth, row, BitVec.toNat_ofNat]
  have sic : ((n.setWidth 8 &&& g.spcMask).setWidth 16 : Word) =
      BitVec.ofNat 16 (n.toNat % g.secPerClus.toNat) := by
    apply BitVec.eq_of_toNat_eq
    rw [BitVec.toNat_setWidth, volume.sic, BitVec.toNat_ofNat]
  rw [locateSector]
  dsimp only
  rw [if_neg (not_not.mpr high), k, sic, bind_ok (show getSlot s = (.ok s.slot, s) from rfl)]
  split
  · rfl
  · split
    · rfl
    · split
      · rfl
      · rfl

theorem locate_found (volume : Volume g) (ext : Bool) (holds : Holds g clusters content s)
    (there : g.sectorLba clusters n.toNat = some lba) :
    ∃ vars cacheidx cacheclus, locateSector g ext n s =
      (.ok lba, ⟨vars, { s.slot with cacheidx, cacheclus }⟩) ∧ Unmoved g s.vars vars ∧
      clusters[cacheidx.toNat]? = some cacheclus := by
  obtain ⟨d, at_, rfl⟩ := Option.map_eq_some_iff.mp there
  have short := holds.own.length_lt
  obtain ⟨inside, -⟩ := List.getElem?_eq_some_iff.mp at_
  have inFat := holds.own.inFat volume
  rw [locateSector_eq volume (by omega)]
  have k : (BitVec.ofNat 16 (n.toNat / g.secPerClus.toNat)).toNat =
      n.toNat / g.secPerClus.toNat := by
    rw [BitVec.toNat_ofNat]
    exact Nat.mod_eq_of_lt (by omega)
  dsimp only
  have chain : Chain (s.vars.link g) s.slot.startclus clusters := by
    refine holds.own.chain.resolve_left fun empty => ?_
    rw [empty.2] at inside
    exact Nat.not_lt_zero _ inside
  by_cases cached : s.slot.cacheclus ≠ 0 ∧
      s.slot.cacheidx ≤ BitVec.ofNat 16 (n.toNat / g.secPerClus.toNat)
  · rw [if_pos cached]
    have before := BitVec.le_def.mp cached.2
    rw [k] at before ⊢
    obtain ⟨vars, ran, unmoved⟩ := lsWalk_found holds.kept holds.quiet chain inFat
      (holds.cache cached.1) (by rwa [Nat.add_sub_cancel' before])
    refine ⟨vars, _, d, ran, unmoved, ?_⟩
    rw [k]
    exact at_
  · have live : s.slot.startclus ≠ 0 := by
      intro none
      rw [none] at chain
      cases chain with
      | last live ends => exact not_live_zero live
      | more live chain => exact not_live_zero live
    rw [if_neg cached, if_pos live, k]
    have first : clusters[0]? = some s.slot.startclus := by
      obtain ⟨more, rfl⟩ := chain.head
      rfl
    have there' : clusters[0 + n.toNat / g.secPerClus.toNat]? = some d := by
      rw [Nat.zero_add]
      exact at_
    obtain ⟨vars, ran, unmoved⟩ := lsWalk_found holds.kept holds.quiet chain inFat first there'
    refine ⟨vars, _, d, ran, unmoved, ?_⟩
    rw [k]
    exact at_

/-- What reading the FAT changes is no matter. -/
theorem Holds.unmoved (holds : Holds g clusters content s) (volume : Volume g) {vars : Vars}
    {cacheidx cacheclus : Word} (unmoved : Unmoved g s.vars vars)
    (cache : clusters[cacheidx.toNat]? = some cacheclus) :
    Holds g clusters content ⟨vars, { s.slot with cacheidx, cacheclus }⟩ where
  kept := unmoved.kept
  quiet := unmoved.quiet
  hint := unmoved.hint ▸ holds.hint
  within := unmoved.within holds.within
  own := holds.own.congr unmoved.links
  size := holds.size
  room := holds.room
  cache _ := cache
  bufsec := holds.bufsec
  dirty := holds.dirty
  buffer := holds.buffer
  disk n lba there other := by
    rw [unmoved.disk lba (holds.own.sectorLba_apart volume there)]
    exact holds.disk n lba there other

/-! A sector is selected. -/

theorem Agrees.same {sector sector' : Sector} {n : Nat} (agrees : Agrees content n sector)
    (same : ∀ i < 512, n * 512 + i < content.length → sector' i = sector i) :
    Agrees content n sector' := by
  intro i small b there
  obtain ⟨inside, -⟩ := List.getElem?_eq_some_iff.mp there
  rw [same i small inside]
  exact agrees i small b there

/-- FLUSH_SLOT leaves the file on the disk. -/
theorem flush_found (volume : Volume g) (holds : Holds g clusters content s) :
    ∃ s', flushSlot g s = (.ok (), s') ∧ Holds g clusters content s' ∧ s'.slot.dirty = false ∧
      s'.slot.bufsec = s.slot.bufsec ∧ s'.slot.startclus = s.slot.startclus ∧
      s'.vars.link g = s.vars.link g := by
  rw [flushSlot, bind_ok (show getSlot s = (.ok s.slot, s) from rfl)]
  by_cases dirty : s.slot.dirty = true
  · rw [if_pos dirty]
    have inside := holds.bufsec.resolve_right (Nat.not_le.mpr (holds.dirty dirty))
    obtain ⟨lba, there⟩ := holds.sector volume inside
    obtain ⟨vars, cacheidx, cacheclus, located, unmoved, cache⟩ :=
      locate_found volume false holds there
    have moved := holds.unmoved volume unmoved cache
    have apart := holds.own.sectorLba_apart volume there
    rw [bind_ok located]
    have written : slotWrite lba ⟨vars, { s.slot with cacheidx, cacheclus }⟩ = (.ok false,
        ⟨{ vars with
            disk := Function.update vars.disk lba s.slot.buf
            written := (lba, s.slot.buf) :: vars.written },
          { s.slot with cacheidx, cacheclus }⟩) := by
      rw [slotWrite, unmoved.quiet]
      rfl
    obtain ⟨kept, links⟩ := moved.kept.write moved.within apart s.slot.buf
      ((lba, s.slot.buf) :: vars.written)
    rw [bind_ok written]
    refine ⟨_, rfl, ⟨kept, unmoved.quiet, moved.hint, moved.within, moved.own.congr links,
      holds.size, holds.room, moved.cache, holds.bufsec, fun pending => absurd pending Bool.false_ne_true,
      holds.buffer, ?_⟩, rfl, rfl, rfl,
      links.trans unmoved.links⟩
    intro n lba' there' _
    change Agrees content n (Function.update vars.disk lba s.slot.buf lba')
    by_cases same : n = s.slot.bufsec.toNat
    · rw [same] at there' ⊢
      obtain rfl := Option.some.inj (there.symm.trans there')
      rw [Function.update_self]
      exact holds.buffer
    · have other : lba' ≠ lba := by
        rintro rfl
        exact same (holds.own.sectorLba_inj volume there' there)
      rw [Function.update_of_ne other]
      exact moved.disk n lba' there' fun both => same both.2
  · rw [if_neg dirty]
    exact ⟨s, rfl, holds, Bool.eq_false_of_not_eq_true dirty, rfl, rfl, rfl⟩

theorem toNat_lt (pos : BitVec 32) : (shr9 pos).toNat < 0x800000 := by
  have small := pos.isLt
  rw [toNat_shr9]
  omega

/-- A sector of the file is loaded. -/
theorem load_sector (volume : Volume g) (holds : Holds g clusters content s)
    (clean : s.slot.dirty = false) (inside : n.toNat * 512 < content.length) :
    ∃ s', loadSector g n s = (.ok (), s') ∧ Holds g clusters content s' ∧
      s'.slot.dirty = false ∧ s'.slot.startclus = s.slot.startclus ∧
      s'.vars.link g = s.vars.link g := by
  obtain ⟨lba, there⟩ := holds.sector volume inside
  obtain ⟨vars, cacheidx, cacheclus, located, unmoved, cache⟩ :=
    locate_found volume false holds there
  have moved := holds.unmoved volume unmoved cache
  have onDisk := moved.disk n.toNat lba there fun both =>
    absurd (clean.symm.trans both.1) Bool.false_ne_true
  have read : slotRead lba ⟨vars, { s.slot with cacheidx, cacheclus }⟩ = (.ok false,
      ⟨{ vars with io := [] }, { s.slot with cacheidx, cacheclus, buf := vars.disk lba }⟩) := by
    rw [slotRead, unmoved.quiet]
    rfl
  have quiet : { vars with io := [] } = vars := by rw [← unmoved.quiet]
  rw [loadSector, bind_ok located, bind_ok read, quiet]
  let loaded : Open := ⟨vars, { s.slot with cacheidx, cacheclus, buf := vars.disk lba, bufsec := n }⟩
  change ∃ s', zeroTail n loaded = (.ok (), s') ∧ _
  have size := holds.size
  have settled {n' n'' : Nat} : ¬(s.slot.dirty = true ∧ n' = n'') := fun both =>
    absurd (clean.symm.trans both.1) Bool.false_ne_true
  have tail (buf : Sector) (agrees : Agrees content n.toNat buf) :
      Holds g clusters content { loaded with slot := { loaded.slot with buf } } :=
    ⟨moved.kept, moved.quiet, moved.hint, moved.within, moved.own, size, moved.room, moved.cache,
      .inl inside, fun pending => absurd (clean.symm.trans pending) Bool.false_ne_true, agrees,
      fun n' lba' there' _ => moved.disk n' lba' there' settled⟩
  rw [zeroTail, bind_ok (show getSlot loaded = (.ok loaded.slot, loaded) from rfl)]
  split
  · next last =>
      refine ⟨_, rfl, tail _ (onDisk.same fun i small within => ?_), clean, rfl, unmoved.links⟩
      have before : ¬((sectorOffset loaded.slot.size).toNat ≤ i ∧ i < 512) := by
        have sec := congrArg BitVec.toNat last.1
        rw [toNat_shr9] at sec
        rw [toNat_sectorOffset]
        have size : loaded.slot.size.toNat = content.length := size
        omega
      exact if_neg before
  · exact ⟨_, rfl, tail _ onDisk, clean, rfl, unmoved.links⟩

theorem select_found (volume : Volume g) (holds : Holds g clusters content s)
    (inside : n.toNat * 512 < content.length) :
    ∃ s', selRead g n s = (.ok (), s') ∧ Holds g clusters content s' := by
  by_cases here : s.slot.bufsec = n
  · exact ⟨s, selRead_same here, holds⟩
  · rw [selRead, bind_ok (show getSlot s = (.ok s.slot, s) from rfl), if_neg here]
    obtain ⟨s₁, flushed, holds, clean, -⟩ := flush_found volume holds
    obtain ⟨s₂, loaded, holds, -⟩ := load_sector volume holds clean inside
    rw [bind_ok flushed, loaded]
    exact ⟨s₂, rfl, holds⟩

/-- FILE_GETBYTE gives the byte at the position. -/
theorem getbyte_found (volume : Volume g) (holds : Holds g clusters content s)
    (reads : s.slot.Reads) {b : Byte} (there : content[s.slot.pos.toNat]? = some b) :
    ∃ s', fileGetbyte g s = (.ok b, s') ∧ Holds g clusters content s' ∧
      s'.slot.pos.toNat = s.slot.pos.toNat + 1 ∧ s'.slot.bufsec = shr9 s.slot.pos ∧
      s'.slot.mode = s.slot.mode ∧ s'.slot.inuse = s.slot.inuse := by
  obtain ⟨inside, -⟩ := List.getElem?_eq_some_iff.mp there
  have more : s.slot.pos < s.slot.size := by
    rw [BitVec.lt_def, holds.size]
    exact inside
  have sector : (shr9 s.slot.pos).toNat * 512 < content.length := by
    rw [toNat_shr9]
    omega
  obtain ⟨s', selected, holds'⟩ := select_found volume holds sector
  have same := Keeps.selRead.ran selected
  have here := selRead_selects selected
  rw [fileGetbyte_eq reads more, selected]
  dsimp only
  refine ⟨_, Prod.ext (congrArg Except.ok ?_) rfl, ?_, ?_, here, same.mode, same.inuse⟩
  · refine holds'.buffer _ ?_ b ?_
    · rw [toNat_sectorOffset]
      exact Nat.mod_lt _ (by decide)
    · rw [here, same.pos, toNat_shr9, toNat_sectorOffset, Nat.div_add_mod']
      exact there
  · exact ⟨holds'.kept, holds'.quiet, holds'.hint, holds'.within, holds'.own, holds'.size,
      holds'.room, holds'.cache, holds'.bufsec, holds'.dirty, holds'.buffer, holds'.disk⟩
  · have small := s.slot.size.isLt
    rw [holds.size] at small
    rw [← same.pos] at inside ⊢
    refine toNat_advance ?_
    change _ + 1 < _
    omega

theorem getbyte_end (holds : Holds g clusters content s) (reads : s.slot.Reads)
    (done : content.length ≤ s.slot.pos.toNat) : fileGetbyte g s = (.error errEof, s) :=
  fileGetbyte_end reads (by rw [BitVec.le_def, holds.size]; exact done)

end

end Pugputer.Dos

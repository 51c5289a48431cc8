import Pugputer.Dos.Contents

namespace Pugputer.Dos

/-! A file that is written at its end. -/

/-- The clusters a file has grown by were free, and no others are now. -/
structure Grown (g : Geometry) (v : Vars) (clusters : List Word) (v' : Vars)
    (clusters' : List Word) : Prop where
  taken : ∃ more, clusters' = clusters ++ more ∧ ∀ c ∈ more, v.link g c = 0
  free : ∀ c, v'.link g c = 0 → v.link g c = 0

theorem Grown.none {g : Geometry} {v v' : Vars} (clusters : List Word)
    (links : v'.link g = v.link g) : Grown g v clusters v' clusters :=
  ⟨⟨[], (List.append_nil _).symm, fun _ member => absurd member List.not_mem_nil⟩,
    fun _ free => links ▸ free⟩

theorem Grown.trans {g : Geometry} {v v' v'' : Vars} {clusters clusters' clusters'' : List Word}
    (first : Grown g v clusters v' clusters') (second : Grown g v' clusters' v'' clusters'') :
    Grown g v clusters v'' clusters'' := by
  obtain ⟨more, rfl, free⟩ := first.taken
  obtain ⟨more', rfl, free'⟩ := second.taken
  refine ⟨⟨more ++ more', List.append_assoc _ _ _, fun c member => ?_⟩,
    fun c isFree => first.free c (second.free c isFree)⟩
  rcases List.mem_append.mp member with before | after
  · exact free c before
  · exact first.free c (free' c after)

section

variable {g : Geometry} {clusters : List Word} {content : List Byte} {s s' : Open}
  {n : BitVec 24} {lba : Lba} {b : Byte}

theorem Agrees.past {n : Nat} {sector : Sector} (past : content.length ≤ n * 512) :
    Agrees content n sector := by
  intro i _ b there
  obtain ⟨inside, -⟩ := List.getElem?_eq_some_iff.mp there
  omega

/-! A cluster is taken. -/

theorem Clusters.ne_of_free {v : Vars} {startclus new : Word}
    (own : Clusters g v startclus clusters) (free : v.link g new = 0) : ∀ x ∈ clusters, x ≠ new := by
  rintro x member rfl
  rcases own.chain with ⟨-, rfl⟩ | chain
  · cases member
  · exact chain.link_ne_zero member free

theorem Clusters.snoc {v v' : Vars} {startclus last new : Word} (volume : Volume g)
    (own : Clusters g v startclus clusters) (ends : clusters.getLast? = some last)
    (extended : Extended g v last new v') : Clusters g v' startclus (clusters ++ [new]) := by
  have fresh := own.ne_of_free extended.free
  have lastIn := List.mem_of_getLast? ends
  have chain : Chain (v.link g) startclus clusters := by
    refine own.chain.resolve_left fun empty => ?_
    rw [empty.2] at lastIn
    cases lastIn
  have high := BitVec.lt_def.mp extended.high
  have few := BitVec.le_def.mp volume.few
  change _ ≤ 65526 at few
  have live : Live new := by
    refine ⟨extended.low, ?_⟩
    rw [BitVec.lt_def]
    change _ < 65528
    omega
  refine ⟨.inr ?_, ?_, ?_⟩
  · refine chain.snoc own.distinct ends live (fun x member other => ?_) ?_ ?_
    · rw [extended.links, Function.update_of_ne other, Function.update_of_ne (fresh x member)]
    · rw [extended.links, Function.update_self]
    · rw [extended.links, Function.update_of_ne (fresh last lastIn).symm, Function.update_self]
      decide
  · refine List.nodup_append.mpr ⟨own.distinct, List.nodup_singleton new, ?_⟩
    intro x member y single
    rw [List.mem_singleton.mp single]
    exact fresh x member
  · intro x member
    rcases List.mem_append.mp member with before | single
    · exact own.range x before
    · rw [List.mem_singleton.mp single]
      exact ⟨extended.low, extended.high⟩

theorem Extended.grown {v v' : Vars} {last new : Word} (extended : Extended g v last new v') :
    Grown g v clusters v' (clusters ++ [new]) := by
  refine ⟨⟨[new], rfl, fun c member => ?_⟩, fun c free => ?_⟩
  · rw [List.mem_singleton.mp member]
    exact extended.free
  · rw [extended.links] at free
    by_cases here : c = last
    · rw [here, Function.update_self] at free
      have low := extended.low
      rw [free] at low
      exact absurd low (by decide)
    · rw [Function.update_of_ne here] at free
      by_cases same : c = new
      · rw [same]
        exact extended.free
      · rwa [Function.update_of_ne same] at free

theorem Allocated.first {v v' : Vars} {new : Word} (allocated : Allocated g v new v')
    (volume : Volume g) : Clusters g v' new ([] ++ [new]) := by
  have high := BitVec.lt_def.mp allocated.high
  have few := BitVec.le_def.mp volume.few
  change _ ≤ 65526 at few
  refine ⟨.inr (.last ⟨allocated.low, ?_⟩ ?_), List.nodup_singleton new, fun x member => ?_⟩
  · rw [BitVec.lt_def]
    change _ < 65528
    omega
  · rw [allocated.links, Function.update_self]
    decide
  · rw [List.mem_singleton.mp member]
    exact ⟨allocated.low, allocated.high⟩

theorem Allocated.grown {v v' : Vars} {new : Word} (allocated : Allocated g v new v') :
    Grown g v clusters v' (clusters ++ [new]) := by
  refine ⟨⟨[new], rfl, fun c member => ?_⟩, fun c free => ?_⟩
  · rw [List.mem_singleton.mp member]
    exact allocated.free
  · by_cases same : c = new
    · rw [same]
      exact allocated.free
    · rwa [allocated.links, Function.update_of_ne same] at free

/-- A file with one more cluster holds what it held. -/
theorem Holds.taken (holds : Holds g clusters content s) (volume : Volume g) {vars : Vars}
    {startclus new : Word} (kept : Kept g vars) (quiet : vars.io = []) (hint : 2 ≤ vars.allocHint)
    (within : vars.Within g) (own : Clusters g vars startclus (clusters ++ [new]))
    (disk : ∀ lba, ¬InCopies g lba → vars.disk lba = s.vars.disk lba) :
    Holds g (clusters ++ [new]) content ⟨vars, { s.slot with
      startclus, cacheidx := BitVec.ofNat 16 clusters.length, cacheclus := new }⟩ := by
  have room := holds.room
  have longer : (clusters ++ [new]).length = clusters.length + 1 := List.length_append
  have few := own.length_lt
  refine ⟨kept, quiet, hint, within, own, holds.size, ?_, fun _ => ?_, holds.bufsec, holds.dirty,
    holds.buffer, fun n lba there other => ?_⟩
  · rw [longer]
    exact Nat.le_trans room
      (Nat.mul_le_mul_right 512 (Nat.mul_le_mul_right _ (Nat.le_succ clusters.length)))
  · change (clusters ++ [new])[(BitVec.ofNat 16 clusters.length).toNat]? = some new
    rw [BitVec.toNat_ofNat, Nat.mod_eq_of_lt (by omega), List.getElem?_concat_length]
  · change Agrees content n (vars.disk lba)
    rw [disk lba (own.sectorLba_apart volume there)]
    by_cases before : n / g.secPerClus.toNat < clusters.length
    · rw [Geometry.sectorLba, List.getElem?_append_left before] at there
      exact holds.disk n lba there other
    · refine .past ?_
      have past := (Nat.le_div_iff_mul_le volume.spc).mp (Nat.not_lt.mp before)
      exact Nat.le_trans room (Nat.mul_le_mul_right 512 past)

/-- The sector after the last one is located: it may be in a new cluster. -/
theorem locate_extends (volume : Volume g) (holds : Holds g clusters content s)
    (whole : n.toNat * 512 = content.length)
    (ran : locateSector g true n s = (.ok lba, s')) :
    ∃ clusters', Holds g clusters' content s' ∧ Grown g s.vars clusters s'.vars clusters' ∧
      (∃ lba, g.sectorLba clusters' n.toNat = some lba) ∧
      s'.slot = { s.slot with
        startclus := s'.slot.startclus
        cacheidx := s'.slot.cacheidx
        cacheclus := s'.slot.cacheclus } := by
  have room := holds.room
  have most : n.toNat / g.secPerClus.toNat ≤ clusters.length := by
    have within : n.toNat ≤ clusters.length * g.secPerClus.toNat := by
      rw [← whole] at room
      exact Nat.le_of_mul_le_mul_right room (by decide)
    exact Nat.div_le_of_le_mul (by rwa [Nat.mul_comm])
  have short := holds.own.length_lt
  rcases Nat.lt_or_eq_of_le most with before | next
  · have there : g.sectorLba clusters n.toNat = some _ :=
      congrArg (Option.map _) (List.getElem?_eq_getElem before)
    obtain ⟨vars, cacheidx, cacheclus, located, unmoved, cache⟩ :=
      locate_found volume true holds there
    rw [located] at ran
    cases ran
    exact ⟨clusters, holds.unmoved volume unmoved cache, .none clusters unmoved.links,
      ⟨_, there⟩, rfl⟩
  · have row : (BitVec.ofNat 16 clusters.length).toNat = clusters.length := by
      rw [BitVec.toNat_ofNat]
      exact Nat.mod_eq_of_lt (by omega)
    have there (new : Word) : ∃ lba, g.sectorLba (clusters ++ [new]) n.toNat = some lba := by
      refine ⟨_, congrArg (Option.map _) (show _ = some new from ?_)⟩
      rw [next, List.getElem?_concat_length]
    have inFat := holds.own.inFat volume
    rw [locateSector_eq volume (by omega), next] at ran
    dsimp only at ran
    rw [row] at ran
    have walked {j left : Nat} {c : Word} (chain : Chain (s.vars.link g) s.slot.startclus clusters)
        (here : clusters[j]? = some c) (past : j + left = clusters.length)
        (ran : lsWalk g true (BitVec.ofNat 16 clusters.length)
          (BitVec.ofNat 16 (n.toNat % g.secPerClus.toNat)) left c s = (.ok lba, s')) :
        ∃ clusters', Holds g clusters' content s' ∧ Grown g s.vars clusters s'.vars clusters' ∧
          (∃ lba, g.sectorLba clusters' n.toNat = some lba) ∧ s'.slot = { s.slot with
            startclus := s'.slot.startclus
            cacheidx := s'.slot.cacheidx
            cacheclus := s'.slot.cacheclus } := by
      obtain ⟨inside, -⟩ := List.getElem?_eq_some_iff.mp here
      obtain ⟨left, rfl⟩ := Nat.exists_eq_add_one.mpr (show 0 < left by omega)
      have ends : clusters.getLast? = some (clusters.getLast (List.ne_nil_of_length_pos (by omega))) :=
        List.getLast?_eq_some_getLast _
      obtain ⟨new, extended, slot⟩ := lsWalk_extends volume holds.kept holds.quiet holds.hint chain
        inFat ends here past ran
      have own := holds.own.snoc volume ends extended
      have taken := holds.taken volume extended.kept extended.quiet extended.hint extended.within
        own extended.disk
      obtain ⟨vars, slot'⟩ := s'
      obtain rfl := slot
      exact ⟨_, taken, extended.grown, there new, rfl⟩
    split at ran
    · next cached =>
        have atCache := holds.cache cached.1
        obtain ⟨inside, -⟩ := List.getElem?_eq_some_iff.mp atCache
        rcases holds.own.chain with ⟨-, rfl⟩ | chain
        · exact absurd inside (Nat.not_lt_zero _)
        · exact walked chain atCache (by omega) ran
    · split at ran
      · next some =>
          have chain := holds.own.chain.resolve_left fun empty => some empty.1
          obtain ⟨more, head⟩ := chain.head
          exact walked chain (j := 0) (by rw [head]; rfl) (Nat.zero_add _) ran
      · next none =>
          have empty : clusters = [] := by
            rcases holds.own.chain with ⟨-, rfl⟩ | chain
            · rfl
            · rw [not_not.mp none] at chain
              cases chain with
              | last live ends => exact absurd live not_live_zero
              | more live chain => exact absurd live not_live_zero
          subst empty
          rw [if_pos rfl] at ran
          rcases found : s.vars.allocCluster g with ⟨a | new, vars⟩
          · rw [bind_error (show onVars (fun v => v.allocCluster g) s =
              (.error a, { s with vars }) by rw [onVars, found])] at ran
            cases ran
          · have allocated := allocCluster_found volume holds.kept holds.quiet holds.hint found
            rw [bind_ok (show onVars (fun v => v.allocCluster g) s =
                (.ok new, { s with vars }) by rw [onVars, found]),
              bind_ok (show modifySlot (fun slot => { slot with startclus := new })
                { s with vars } = (.ok (), _) from rfl), List.length_nil, lsWalk_zero] at ran
            cases ran
            exact ⟨_, holds.taken volume allocated.kept allocated.quiet allocated.hint
              allocated.within (allocated.first volume) allocated.disk, allocated.grown,
              there new, rfl⟩

/-! A byte is put at the end. -/

/-- The sector for the next byte is in the buffer. -/
structure Ready (g : Geometry) (clusters : List Word) (content : List Byte) (n : BitVec 24)
    (s : Open) : Prop where
  holds : ∃ bufsec, Holds g clusters content { s with slot := { s.slot with bufsec } } ∧
    (s.slot.dirty = true → bufsec = n)
  bufsec : s.slot.bufsec = n
  buffer : Agrees content n.toNat s.slot.buf
  sector : ∃ lba, g.sectorLba clusters n.toNat = some lba

theorem toNat_dataSectors (size : BitVec 32) :
    (dataSectors size).toNat = (size.toNat + 511) / 512 := by
  have small := size.isLt
  have whole : sectorOffset size = 0 ↔ size.toNat % 512 = 0 := by
    rw [← BitVec.toNat_inj, toNat_sectorOffset]
    rfl
  rw [dataSectors]
  split
  · next even =>
      rw [whole] at even
      rw [toNat_shr9]
      omega
  · next odd =>
      rw [whole] at odd
      rw [BitVec.toNat_add, toNat_shr9]
      change (_ + 1) % 16777216 = _
      omega

theorem Holds.ready (holds : Holds g clusters content s) (volume : Volume g)
    (here : s.slot.bufsec = n) (inside : n.toNat * 512 < content.length) :
    Ready g clusters content n s :=
  ⟨⟨s.slot.bufsec, holds, fun _ => here⟩, here, here ▸ holds.buffer, holds.sector volume inside⟩

theorem bad_bufsec (bufsec : BitVec 24) :
    0x800000 ≤ (0xFF#8 ++ bufsec.setWidth 16 : BitVec 24).toNat := by
  rw [BitVec.toNat_append, ← Nat.shiftLeft_add_eq_or_of_lt (BitVec.isLt _)]
  change _ ≤ 255 <<< 16 + _
  omega

/-- SEW_BEYOND: the buffer is no good, and zero. -/
theorem Holds.marked (holds : Holds g clusters content s) (clean : s.slot.dirty = false) :
    Holds g clusters content { s with slot := Slot.zeroFrom 0 { s.slot with
      bufsec := 0xFF#8 ++ s.slot.bufsec.setWidth 16 } } := by
  have fits : content.length < 0x100000000 := by
    rw [← holds.size]
    exact s.slot.size.isLt
  have bad := bad_bufsec s.slot.bufsec
  have past := Nat.le_trans (Nat.le_of_lt fits) (Nat.mul_le_mul_right 512 bad)
  refine ⟨holds.kept, holds.quiet, holds.hint, holds.within, holds.own, holds.size, holds.room,
    holds.cache, .inr bad, fun pending => ?_, .past past, fun n lba there _ => ?_⟩
  · exact absurd (clean.symm.trans pending) Bool.false_ne_true
  · exact holds.disk n lba there fun both => absurd (clean.symm.trans both.1) Bool.false_ne_true

theorem selWrite_ready (volume : Volume g) (holds : Holds g clusters content s)
    (place : n.toNat = content.length / 512) (ran : selWrite g n s = (.ok (), s')) :
    ∃ clusters', Ready g clusters' content n s' ∧ Grown g s.vars clusters s'.vars clusters' := by
  have fits : content.length < 0x100000000 := by
    rw [← holds.size]
    exact s.slot.size.isLt
  by_cases here : s.slot.bufsec = n
  · rw [selWrite_same here] at ran
    cases ran
    have inside : n.toNat * 512 < content.length := by
      rw [← here]
      exact holds.bufsec.resolve_right (by rw [here]; omega)
    exact ⟨clusters, holds.ready volume here inside, .none clusters rfl⟩
  · obtain ⟨s₁, flushed, holds₁, clean, bad, -, links⟩ := flush_found volume holds
    rw [selWrite, bind_ok (show getSlot s = (.ok s.slot, s) from rfl), if_neg here,
      bind_ok flushed, bind_ok (show getSlot s₁ = (.ok s₁.slot, s₁) from rfl)] at ran
    have count := toNat_dataSectors s₁.slot.size
    rw [holds₁.size] at count
    split at ran
    · next part =>
        rw [BitVec.lt_def] at part
        obtain ⟨s₂, loaded, holds₂, -, -, links'⟩ := load_sector volume holds₁ clean
          (n := n) (by omega)
        have selected := Selects.loadSector (g := g) s₁ () s₂ loaded
        rw [loaded] at ran
        cases ran
        exact ⟨clusters, holds₂.ready volume selected (by omega), .none clusters (links'.trans links)⟩
    · next whole =>
        rw [BitVec.lt_def] at whole
        have length : n.toNat * 512 = content.length := by omega
        let s₂ : Open := { s₁ with slot := Slot.zeroFrom 0 { s₁.slot with
          bufsec := 0xFF#8 ++ s₁.slot.bufsec.setWidth 16 } }
        have gap : n.toNat - (dataSectors s₁.slot.size).toNat = 0 := by omega
        rw [bind_ok (show modifySlot _ s₁ = (.ok (), _) from rfl),
          bind_ok (show zeroSlotbuf _ = (.ok (), s₂) from rfl), gap,
          bind_ok (show sewGap g 0 _ s₂ = (.ok (), s₂) from rfl)] at ran
        rcases located : locateSector g true n s₂ with ⟨a | lba, s₃⟩
        · rw [bind_error located] at ran
          cases ran
        · obtain ⟨clusters', holds₃, grown, sector, slot⟩ :=
            locate_extends volume (holds₁.marked clean) length located
          rw [bind_ok located] at ran
          cases ran
          have unchanged : s₃.slot.dirty = false := by
            rw [slot]
            exact clean
          refine ⟨clusters', ⟨⟨s₃.slot.bufsec, holds₃, fun pending => ?_⟩, rfl, ?_, sector⟩, ?_⟩
          · exact absurd (unchanged.symm.trans pending) Bool.false_ne_true
          · exact .past (by omega)
          · exact (Grown.none clusters links).trans grown

theorem Ready.put (ready : Ready g clusters content n s) (volume : Volume g)
    (place : n.toNat = content.length / 512) {size : BitVec 32}
    (longer : size.toNat = content.length + 1) (pos : BitVec 32) (b : Byte) :
    Holds g clusters (content ++ [b]) { s with slot := { s.slot with
      buf := Function.update s.slot.buf (content.length % 512) b
      dirty := true
      size
      pos } } := by
  obtain ⟨bufsec, holds, only⟩ := ready.holds
  obtain ⟨lba, there⟩ := ready.sector
  have fits := size.isLt
  have total : (content ++ [b]).length = content.length + 1 := List.length_append
  have room : content.length + 1 ≤ clusters.length * g.secPerClus.toNat * 512 := by
    obtain ⟨c, at_, -⟩ := Option.map_eq_some_iff.mp there
    obtain ⟨inside, -⟩ := List.getElem?_eq_some_iff.mp at_
    have row := (Nat.div_lt_iff_lt_mul volume.spc).mp inside
    have := Nat.mul_le_mul_right 512 (Nat.succ_le_of_lt row)
    omega
  refine ⟨holds.kept, holds.quiet, holds.hint, holds.within, holds.own, longer.trans total.symm,
    total ▸ room, holds.cache, .inl ?_, fun _ => ?_, ?_, fun n' lba' there' other => ?_⟩
  · change s.slot.bufsec.toNat * 512 < _
    rw [ready.bufsec, total]
    omega
  · change s.slot.bufsec.toNat < _
    rw [ready.bufsec]
    omega
  · intro i small c at_
    change (content ++ [b])[s.slot.bufsec.toNat * 512 + i]? = some c at at_
    change Function.update s.slot.buf (content.length % 512) b i = c
    rw [ready.bufsec] at at_
    rcases Nat.lt_or_ge (n.toNat * 512 + i) content.length with before | after
    · rw [List.getElem?_append_left before] at at_
      rw [Function.update_of_ne (by omega)]
      exact ready.buffer i small c at_
    · obtain ⟨inside, -⟩ := List.getElem?_eq_some_iff.mp at_
      rw [show n.toNat * 512 + i = content.length by omega, List.getElem?_concat_length] at at_
      rw [show i = content.length % 512 by omega, Function.update_self]
      exact Option.some.inj at_
  · have elsewhere : n' ≠ n.toNat := by
      rintro rfl
      exact other ⟨rfl, congrArg BitVec.toNat ready.bufsec.symm⟩
    intro i small c at_
    obtain ⟨inside, -⟩ := List.getElem?_eq_some_iff.mp at_
    rw [List.getElem?_append_left (by omega)] at at_
    refine holds.disk n' lba' there' (fun both => elsewhere ?_) i small c at_
    rw [both.2]
    exact congrArg BitVec.toNat (only both.1)

theorem putbyte_appends (volume : Volume g) (holds : Holds g clusters content s)
    (writes : s.slot.Writes) (atEnd : s.slot.pos.toNat = content.length)
    (ran : filePutbyte g b s = (.ok (), s')) :
    ∃ clusters', Holds g clusters' (content ++ [b]) s' ∧
      Grown g s.vars clusters s'.vars clusters' ∧ s'.slot.pos.toNat = content.length + 1 ∧
      s'.slot.mode = s.slot.mode ∧ s'.slot.inuse = s.slot.inuse := by
  have fits : s.slot.pos.toNat + 1 < 0x100000000 := by
    by_contra large
    rw [filePutbyte, bind_ok (show getSlot s = (.ok s.slot, s) from rfl), if_neg writes,
      if_pos (show carries s.slot.pos 1 from Nat.not_lt.mp large)] at ran
    cases ran
  rw [filePutbyte_eq writes fits] at ran
  rcases selected : selWrite g (shr9 s.slot.pos) s with ⟨a | _, s₁⟩
  · rw [selected] at ran
    cases ran
  · have place : (shr9 s.slot.pos).toNat = content.length / 512 := by rw [toNat_shr9, atEnd]
    obtain ⟨clusters', ready, grew⟩ := selWrite_ready volume holds place selected
    have same := Keeps.selWrite.ran selected
    rw [selected] at ran
    cases ran
    have offset : (sectorOffset s₁.slot.pos).toNat = content.length % 512 := by
      rw [toNat_sectorOffset, same.pos, atEnd]
    have pos : (s₁.slot.advance 1).pos.toNat = content.length + 1 := by
      rw [← atEnd, ← same.pos]
      refine toNat_advance ?_
      rw [same.pos]
      exact fits
    have size : (grown s₁.slot.size (s₁.slot.advance 1).pos).toNat = content.length + 1 := by
      rw [grown, if_neg, pos]
      rw [BitVec.lt_def, pos, same.size, holds.size]
      omega
    have put := ready.put volume place size (s₁.slot.advance 1).pos b
    rw [← offset] at put
    exact ⟨clusters', put, grew, pos, same.mode, same.inuse⟩

/-- Bytes are put at the end, one after the other. -/
theorem puts_appends (volume : Volume g) {bytes : List Byte} (holds : Holds g clusters content s)
    (writes : s.slot.Writes) (atEnd : s.slot.pos.toNat = content.length)
    (ran : puts g bytes s = (none, s')) :
    ∃ clusters', Holds g clusters' (content ++ bytes) s' ∧
      Grown g s.vars clusters s'.vars clusters' ∧
      s'.slot.pos.toNat = (content ++ bytes).length ∧
      s'.slot.mode = s.slot.mode ∧ s'.slot.inuse = s.slot.inuse := by
  induction bytes generalizing content clusters s with
  | nil =>
      cases ran
      rw [List.append_nil]
      exact ⟨clusters, holds, .none clusters rfl, atEnd, rfl, rfl⟩
  | cons b rest ih =>
      rw [puts] at ran
      rcases put : filePutbyte g b s with ⟨a | _, s₁⟩
      · rw [put] at ran
        cases ran
      · rw [put] at ran
        obtain ⟨clusters₁, holds₁, grown, pos, mode, inuse⟩ :=
          putbyte_appends volume holds writes atEnd put
        have writes₁ : s₁.slot.Writes := by
          rw [Slot.Writes, mode]
          exact writes
        obtain ⟨clusters', holds', grown', pos', mode', inuse'⟩ :=
          ih holds₁ writes₁ (by rw [pos, List.length_append, List.length_singleton]) ran
        rw [List.append_assoc, List.singleton_append] at holds' pos'
        exact ⟨clusters', holds', grown.trans grown', pos', mode'.trans mode, inuse'.trans inuse⟩

end

end Pugputer.Dos

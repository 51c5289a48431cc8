import Pugputer.Dos.Scan

namespace Pugputer.Dos

variable {g : Geometry} {v v' v'' : Vars} {c : Word}

/-! What a scan reads it leaves as it is. -/

theorem blkWrite_disk {lba lba' : Lba} (other : lba' ≠ lba) :
    (v.blkWrite lba).2.disk lba' = v.disk lba' := by
  rw [Vars.blkWrite]
  split
  · exact Function.update_of_ne other _ _
  · exact Function.update_of_ne other _ _

/-- FATBUF goes to the FAT's sectors only. -/
theorem fatCommit_disk (cached : v.Cached g) {lba : Lba} (apart : ¬InCopies g lba) :
    (v.fatCommit g).2.disk lba = v.disk lba := by
  rw [Vars.fatCommit]
  split
  · next dirty =>
      have good {place : Lba} (spot : place = g.fatSec v.fatBufSec ∨
          ¬g.numFats < 2 ∧ place = g.secondSec v.fatBufSec) : lba ≠ place := by
        rintro rfl
        exact apart (fatBuf_good (cached dirty) spot).inCopies
      rw [Vars.fcmWrite]
      have first := blkWrite_disk (v := { v with fatDirty := false }) (good (.inl rfl))
      dsimp only
      generalize Vars.blkWrite { v with fatDirty := false } (g.fatSec v.fatBufSec) = wrote at first ⊢
      obtain ⟨failed, v₁⟩ := wrote
      cases failed with
      | true => exact first
      | false =>
          dsimp only
          split
          · exact first
          · next two =>
              have second := blkWrite_disk (v := v₁) (good (.inr ⟨two, rfl⟩))
              rw [Geometry.secondSec] at second
              generalize v₁.blkWrite (g.fatSec v.fatBufSec + g.secPerFat.setWidth 32) = wrote
                at second ⊢
              obtain ⟨failed, v₂⟩ := wrote
              cases failed with
              | true => exact second.trans first
              | false => exact second.trans first
  · rfl

theorem load_disk (cached : v.Cached g) {lba : Lba} (apart : ¬InCopies g lba) (c : Word) :
    (v.loadFatEntry g c).2.disk lba = v.disk lba := by
  have committed := fatCommit_disk cached apart
  rw [Vars.loadFatEntry]
  split
  · rfl
  · generalize v.fatCommit g = commit at committed ⊢
    obtain ⟨outcome, v₁⟩ := commit
    cases outcome with
    | error a => exact committed
    | ok _ =>
        dsimp only at committed ⊢
        rw [Vars.blkRead]
        cases v₁.io.headD .done with
        | failed left => exact committed
        | done => exact committed

/-- With no block call that fails, what reading leaves as it was. -/
structure Undisturbed (g : Geometry) (v v' : Vars) : Prop where
  kept : Kept g v'
  quiet : v'.io = []
  links : v'.link g = v.link g
  disk : ∀ lba, ¬InCopies g lba → v'.disk lba = v.disk lba

theorem Undisturbed.refl (kept : Kept g v) (quiet : v.io = []) : Undisturbed g v v :=
  ⟨kept, quiet, rfl, fun _ _ => rfl⟩

theorem Undisturbed.trans (first : Undisturbed g v v') (second : Undisturbed g v' v'') :
    Undisturbed g v v'' :=
  ⟨second.kept, second.quiet, second.links.trans first.links,
    fun lba apart => (second.disk lba apart).trans (first.disk lba apart)⟩

/-- The next cluster of a chain. -/
theorem nextCluster_link (kept : Kept g v) (quiet : v.io = []) (inFat : InFat g c) :
    (v.nextCluster g c).1 = some (v.link g c) ∧ Undisturbed g v (v.nextCluster g c).2 := by
  obtain ⟨ok, still, sector, -⟩ := load_quiet (g := g) quiet c
  obtain ⟨-, loaded⟩ := kept.cached.load kept.coherent c
  obtain ⟨-, loaded⟩ := loaded _ ok
  have disk (lba : Lba) (apart : ¬InCopies g lba) := load_disk kept.cached apart c
  have word := loaded.word inFat
  rw [Vars.nextCluster]
  generalize v.loadFatEntry g c = load at *
  obtain ⟨outcome, v₁⟩ := load
  obtain rfl : outcome = .ok (Vars.lfeHave c) := ok
  refine ⟨congrArg some word, ⟨loaded.coherent, fun _ => ?_⟩, still, loaded.links, disk⟩
  have here : v₁.fatBufSec = c >>> 8 := sector
  rw [here]
  exact inFat

/-! Where a scan is. -/

namespace Chain

variable {link : Word → Word} {x : Word} {before rest : List Word}

theorem suffix (chain : Chain link c (before ++ x :: rest)) : Chain link x (x :: rest) := by
  induction before generalizing c with
  | nil =>
      rw [List.nil_append] at chain
      cases chain with
      | last live ends => exact .last live ends
      | more live chain => exact .more live chain
  | cons y before ih =>
      rw [List.cons_append] at chain
      generalize tail : before ++ x :: rest = clusters at chain
      cases chain with
      | last live ends => exact absurd tail (by simp)
      | more live chain => exact ih (tail ▸ chain)

theorem head (chain : Chain link c rest) : ∃ more, rest = c :: more := by
  cases chain with
  | last live ends => exact ⟨[], rfl⟩
  | more live chain => exact ⟨_, rfl⟩

theorem link_last (chain : Chain link c [c]) : 0xFFF8 ≤ link c := by
  cases chain with
  | last live ends => exact ends
  | more live chain => cases chain

theorem link_more (chain : Chain link c (c :: x :: rest)) : link c = x ∧ x < 0xFFF8 := by
  cases chain with
  | more live chain =>
      cases chain with
      | last live ends => exact ⟨rfl, live.2⟩
      | more live chain => exact ⟨rfl, live.2⟩

theorem inFat (chain : Chain (v.link g) c (c :: rest)) : InFat g c := by
  by_contra outside
  have none : v.link g c = 0 := if_neg outside
  cases chain with
  | last live ends =>
      rw [none] at ends
      exact absurd ends (by decide)
  | more live chain =>
      rw [none] at chain
      cases chain with
      | last live ends => exact not_live_zero live
      | more live chain => exact not_live_zero live

end Chain

/-- The sectors of its directory that come after the one a scan is in. -/
inductive At (g : Geometry) (clusters : List Word) : Ds → List Lba → Prop
  | root {ds : Ds} {k n : Nat} (zero : ds.dir = 0) (here : ds.lba = g.rootLba + BitVec.ofNat 32 k)
      (left : ds.left.toNat = n + 1) (count : k + (n + 1) = g.rootDirSec.toNat) :
      At g clusters ds ((List.range' (k + 1) n).map fun i => g.rootLba + BitVec.ofNat 32 i)
  | cluster {ds : Ds} {before rest : List Word} {n : Nat} (sub : ds.dir ≠ 0)
      (split : clusters = before ++ ds.cur :: rest)
      (here : ds.lba = g.clusSicToLba ds.cur (ds.sic.setWidth 16))
      (left : ds.sic.toNat + (n + 1) = g.secPerClus.toNat) :
      At g clusters ds ((List.range' (ds.sic.toNat + 1) n).map
        (fun sic => g.clusSicToLba ds.cur (BitVec.ofNat 16 sic)) ++ rest.flatMap g.clusterLbas)

theorem byte_wide (b : Byte) : b.setWidth 16 = BitVec.ofNat 16 b.toNat := by
  apply BitVec.eq_of_toNat_eq
  rw [BitVec.toNat_setWidth, BitVec.toNat_ofNat]

theorem range_split {k n count : Nat} (total : k + (n + 1) = count) :
    List.range count = List.range k ++ k :: List.range' (k + 1) n := by
  rw [← total, List.range_eq_range', List.range_eq_range', ← List.range'_append_1, Nat.zero_add,
    List.range'_succ]

/-- They end the directory. -/
theorem At.suffix {clusters : List Word} {ds : Ds} {more : List Lba} (pos : At g clusters ds more) :
    ∃ passed, g.dirLbas ds.dir clusters = passed ++ ds.lba :: more := by
  cases pos with
  | @root k n zero here left count =>
      refine ⟨(List.range k).map fun i => g.rootLba + BitVec.ofNat 32 i, ?_⟩
      rw [Geometry.dirLbas, if_pos zero, range_split count, List.map_append, List.map_cons, here]
  | @cluster before rest n sub split here left =>
      refine ⟨before.flatMap g.clusterLbas ++ (List.range ds.sic.toNat).map
        (fun sic => g.clusSicToLba ds.cur (BitVec.ofNat 16 sic)), ?_⟩
      rw [Geometry.dirLbas, if_neg sub, split, List.flatMap_append, List.flatMap_cons,
        Geometry.clusterLbas, range_split left, List.map_append, List.map_cons, here, byte_wide]
      simp only [List.append_assoc, List.cons_append]

theorem At.apart {clusters : List Word} {ds : Ds} {more : List Lba} (pos : At g clusters ds more)
    (directory : Directory g v ds.dir clusters) : ∀ lba ∈ ds.lba :: more, ¬InCopies g lba := by
  obtain ⟨passed, whole⟩ := pos.suffix
  intro lba member
  refine directory.apart lba ?_
  rw [whole]
  exact List.mem_append_right _ member

theorem Directory.undisturbed {dir : Word} {clusters : List Word}
    (directory : Directory g v dir clusters) (undisturbed : Undisturbed g v v') :
    Directory g v' dir clusters :=
  ⟨undisturbed.links ▸ directory.chain, directory.nonempty, directory.apart⟩

/-! What is left to read. -/

theorem entries_congr {disk disk' : Lba → Sector} {lbas : List Lba}
    (same : ∀ lba ∈ lbas, disk' lba = disk lba) : entries disk' lbas = entries disk lbas := by
  induction lbas with
  | nil => rfl
  | cons lba rest ih =>
      rw [entries, List.flatMap_cons, same lba List.mem_cons_self]
      exact congrArg _ (ih fun lba member => same lba (List.mem_cons_of_mem _ member))

theorem entries_at (disk : Lba → Sector) (lba : Lba) (more : List Lba) {idx : Nat}
    (inside : idx < 16) : (entries disk (lba :: more)).drop idx =
      (fun i => disk lba (idx * 32 + i)) :: (entries disk (lba :: more)).drop (idx + 1) := by
  have within : idx < (entries disk (lba :: more)).length := by
    rw [entries, List.flatMap_cons, List.length_append, List.length_map, List.length_range]
    omega
  rw [List.drop_eq_getElem_cons within]
  congr 1
  simp only [entries, List.flatMap_cons]
  rw [List.getElem_append_left (by rw [List.length_map, List.length_range]; exact inside),
    List.getElem_map, List.getElem_range]

theorem entries_past (disk : Lba → Sector) (lba : Lba) (more : List Lba) :
    (entries disk (lba :: more)).drop 16 = entries disk more := by
  rw [entries, List.flatMap_cons, List.drop_append, List.length_map, List.length_range,
    List.drop_of_length_le (by rw [List.length_map, List.length_range])]
  rfl

section

variable {entry : Nat → Byte} (rest : List (Nat → Byte))

theorem live_never (never : entry 0 = 0) : live (entry :: rest) = [] := by
  rw [live, List.takeWhile_cons_of_neg (by simpa using never)]
  rfl

theorem live_skip (used : entry 0 ≠ 0)
    (skipped : ¬(entry 0 ≠ 0xE5 ∧ (entry 11).getLsbD 3 = false)) :
    live (entry :: rest) = live rest := by
  rw [live, List.takeWhile_cons_of_pos (by simpa using used),
    List.filter_cons_of_neg (by simpa using skipped), live]

theorem live_given (used : entry 0 ≠ 0) (notDeleted : entry 0 ≠ 0xE5)
    (notLabel : (entry 11).getLsbD 3 = false) :
    live (entry :: rest) = Scans.entryBytes entry :: live rest := by
  rw [live, List.takeWhile_cons_of_pos (by simpa using used),
    List.filter_cons_of_pos (by simpa using ⟨notDeleted, notLabel⟩), List.map_cons, live]

end

/-- A scan at this entry of this sector has `rest` to give yet. -/
def Gives (g : Geometry) (v : Vars) (clusters : List Word) (ds : Ds) (idx : Byte)
    (rest : List (List Byte)) : Prop :=
  ∃ more, At g clusters ds more ∧ idx.toNat ≤ 16 ∧
    live ((entries v.disk (ds.lba :: more)).drop idx.toNat) = rest

theorem Gives.same {clusters : List Word} {ds : Ds} {idx : Byte} {rest : List (List Byte)}
    (gives : Gives g v clusters ds idx rest)
    (disk : ∀ lba ∈ g.dirLbas ds.dir clusters, v'.disk lba = v.disk lba) :
    Gives g v' clusters ds idx rest := by
  obtain ⟨more, pos, inside, left⟩ := gives
  refine ⟨more, pos, inside, ?_⟩
  obtain ⟨passed, whole⟩ := pos.suffix
  rw [entries_congr fun lba member => disk lba ?_, left]
  rw [whole]
  exact List.mem_append_right _ member

namespace Scans

variable {s s' : Scans}

theorem dsLoad_quiet (quiet : s.vars.io = []) :
    s.dsLoad = (.ok (), { s with dosBuf := s.vars.disk s.ds.lba }) := by
  obtain ⟨⟨disk, fatBuf, fatBufSec, fatDirty, allocHint, io, written⟩, dosBuf, ds, idx, handles⟩ := s
  obtain rfl : io = [] := quiet
  rfl

/-- DS_START goes to the directory's first sector. -/
theorem dsStart_at {clusters : List Word} {d : Word} (quiet : s.vars.io = [])
    (directory : Directory g s.vars d clusters) :
    ∃ ds more, ds.dir = d ∧ At g clusters ds more ∧ g.dirLbas d clusters = ds.lba :: more ∧
      s.dsStart g d = (.ok (), { s with ds, dosBuf := s.vars.disk ds.lba }) := by
  have nonempty := directory.nonempty
  by_cases zero : d = 0
  · obtain ⟨n, size⟩ : ∃ n, g.rootDirSec.toNat = n + 1 := by
      refine Nat.exists_eq_succ_of_ne_zero fun none => nonempty ?_
      rw [Geometry.dirLbas, if_pos zero, none]
      rfl
    have here : g.rootLba = g.rootLba + BitVec.ofNat 32 0 := (BitVec.add_zero _).symm
    let ds := { s.ds with dir := d, cur := d, sic := 0, lba := g.rootLba, left := g.rootDirSec }
    have count : 0 + (n + 1) = g.rootDirSec.toNat := by rw [size, Nat.zero_add]
    refine ⟨ds, _, rfl, .root zero here size count, ?_, ?_⟩
    · rw [Geometry.dirLbas, if_pos zero, range_split count, List.range_zero, List.nil_append,
        List.map_cons, ← here]
    · rw [dsStart, if_neg (not_not_intro zero)]
      exact dsLoad_quiet quiet
  · obtain ⟨rest, split⟩ := (directory.chain zero).head
    obtain ⟨n, size⟩ : ∃ n, g.secPerClus.toNat = n + 1 := by
      refine Nat.exists_eq_succ_of_ne_zero fun none => nonempty ?_
      have empty : g.clusterLbas = fun _ => [] := by
        funext c
        rw [Geometry.clusterLbas, none]
        rfl
      rw [Geometry.dirLbas, if_neg zero, empty]
      exact List.flatMap_eq_nil_iff.mpr fun _ _ => rfl
    let ds := { s.ds with dir := d, cur := d, sic := 0, lba := g.clusSicToLba d 0 }
    have left : ds.sic.toNat + (n + 1) = g.secPerClus.toNat := by
      rw [size]
      exact Nat.zero_add _
    have whole : clusters = [] ++ ds.cur :: rest := split
    have pos : At g clusters ds _ := .cluster zero whole rfl left
    refine ⟨ds, _, rfl, pos, ?_, ?_⟩
    · rw [Geometry.dirLbas, if_neg zero, split, List.flatMap_cons, Geometry.clusterLbas, size,
        range_split (Nat.zero_add (n + 1))]
      rfl
    · rw [dsStart, if_pos zero]
      exact dsLoad_quiet quiet

/-- DS_NEXT goes to the next sector, or says there is none. -/
theorem dsNext_at {clusters : List Word} {more : List Lba} (kept : Kept g s.vars)
    (quiet : s.vars.io = []) (directory : Directory g s.vars s.ds.dir clusters)
    (pos : At g clusters s.ds more) :
    ∃ s', Undisturbed g s.vars s'.vars ∧ s'.dHandles = s.dHandles ∧
      (more = [] ∧ s.dsNext g = (.error errEof, s') ∨
        ∃ rest, more = s'.ds.lba :: rest ∧ s.dsNext g = (.ok (), s') ∧ s'.ds.dir = s.ds.dir ∧
          At g clusters s'.ds rest ∧ s'.dosBuf = s'.vars.disk s'.ds.lba) := by
  generalize dsIs : s.ds = ds at directory pos ⊢
  cases pos with
  | @root k n zero here left count =>
      have start (a : Lba) : a + BitVec.ofNat 32 (k + 1) = a + BitVec.ofNat 32 k + 1 := by
        rw [BitVec.ofNat_add, BitVec.add_assoc]
        rfl
      cases n with
      | zero =>
          have last : ds.left - 1 = 0 := by
            apply BitVec.eq_of_toNat_eq
            rw [BitVec.toNat_sub, left]
            rfl
          refine ⟨{ s with ds := { ds with left := ds.left - 1 } }, .refl kept quiet, rfl,
            .inl ⟨rfl, ?_⟩⟩
          rw [dsNext, dsIs, if_pos zero, if_pos last]
      | succ m =>
          have less : (ds.left - 1).toNat = m + 1 := by
            have bound := ds.left.isLt
            rw [BitVec.toNat_sub]
            change (2 ^ 16 - 1 + _) % 2 ^ 16 = _
            omega
          have notLast : ds.left - 1 ≠ 0 := by
            intro none
            rw [none] at less
            exact absurd less (by simp)
          let ds' := { ds with left := ds.left - 1, lba := ds.lba + 1 }
          have here' : ds'.lba = g.rootLba + BitVec.ofNat 32 (k + 1) := by
            rw [start, ← here]
          refine ⟨{ s with ds := ds', dosBuf := s.vars.disk ds'.lba }, .refl kept quiet, rfl,
            .inr ⟨_, ?_, ?_, rfl, .root zero here' less (by omega), rfl⟩⟩
          · rw [List.range'_succ, List.map_cons, ← here']
          · rw [dsNext, dsIs, if_pos zero]
            exact (if_neg notLast).trans (dsLoad_quiet quiet)
  | @cluster before rest n sub split here left =>
      have bound := g.secPerClus.isLt
      cases n with
      | succ m =>
          have step : (ds.sic + 1).toNat = ds.sic.toNat + 1 := by
            rw [BitVec.toNat_add]
            change (_ + 1) % 2 ^ 8 = _
            omega
          have inside : ds.sic + 1 < g.secPerClus := by
            rw [BitVec.lt_def, step]
            omega
          let ds' := { ds with
            sic := ds.sic + 1, lba := g.clusSicToLba ds.cur ((ds.sic + 1).setWidth 16) }
          have here' : ds'.lba = g.clusSicToLba ds.cur (BitVec.ofNat 16 (ds.sic.toNat + 1)) := by
            rw [← step, ← byte_wide]
          have left' : ds'.sic.toNat + (m + 1) = g.secPerClus.toNat := by
            rw [step]
            omega
          refine ⟨{ s with ds := ds', dosBuf := s.vars.disk ds'.lba }, .refl kept quiet, rfl,
            .inr ⟨_, ?_, ?_, rfl, .cluster sub split rfl left', rfl⟩⟩
          · rw [List.range'_succ, List.map_cons, List.cons_append, ← here', ← step]
          · rw [dsNext, dsIs, if_neg sub, if_pos inside]
            exact dsLoad_quiet quiet
      | zero =>
          have outside : ¬ds.sic + 1 < g.secPerClus := by
            rw [BitVec.lt_def, BitVec.toNat_add]
            change ¬(_ + 1) % 2 ^ 8 < _
            omega
          have chain : Chain (s.vars.link g) ds.cur (ds.cur :: rest) :=
            (split ▸ directory.chain sub).suffix
          obtain ⟨link, undisturbed⟩ := nextCluster_link kept quiet chain.inFat
          generalize vars' : (s.vars.nextCluster g ds.cur).2 = vars at undisturbed
          have next : s.vars.nextCluster g ds.cur = (some (s.vars.link g ds.cur), vars) :=
            Prod.ext link vars'
          cases rest with
          | nil =>
              refine ⟨{ s with vars }, undisturbed, rfl, .inl ⟨rfl, ?_⟩⟩
              rw [dsNext, dsIs, if_neg sub, if_neg outside, next]
              exact if_pos chain.link_last
          | cons c rest =>
              obtain ⟨linked, low⟩ := chain.link_more
              let ds' := { ds with cur := c, sic := 0, lba := g.clusSicToLba c 0 }
              have left' : ds'.sic.toNat + (g.secPerClus.toNat - 1 + 1) = g.secPerClus.toNat := by
                change 0 + _ = _
                omega
              have split' : clusters = before ++ [ds.cur] ++ ds'.cur :: rest := by
                rw [split, List.append_assoc]
                rfl
              refine ⟨{ s with vars, ds := ds', dosBuf := vars.disk ds'.lba }, undisturbed, rfl,
                .inr ⟨_, ?_, ?_, rfl, .cluster sub split' rfl left', rfl⟩⟩
              · have size : 0 + (g.secPerClus.toNat - 1 + 1) = g.secPerClus.toNat := left'
                rw [List.range'_zero, List.map_nil, List.nil_append, List.flatMap_cons,
                  Geometry.clusterLbas, range_split size]
                rfl
              · rw [dsNext, dsIs, if_neg sub, if_neg outside, next, linked]
                exact (if_neg (BitVec.not_le.mpr low)).trans (dsLoad_quiet undisturbed.quiet)

/-- What B_READDIR does at a place where there is `given` to give. -/
inductive Answered (g : Geometry) (clusters : List Word) (b : Byte) (s : Scans) :
    List (List Byte) → Except Byte (List Byte) → Scans → Prop
  | eof {s' : Scans} (handles : s'.dHandles = s.dHandles) :
      Answered g clusters b s [] (.error errEof) s'
  | entry {s' : Scans} {bytes : List Byte} {rest : List (List Byte)}
      (handles : s'.dHandles = Function.update s.dHandles b
        { s.dHandles b with toDs := s'.ds, idx := s'.dirEntIdx })
      (dir : s'.ds.dir = s.ds.dir) (gives : Gives g s'.vars clusters s'.ds s'.dirEntIdx rest) :
      Answered g clusters b s (bytes :: rest) (.ok bytes) s'

theorem Answered.of_same {clusters : List Word} {b : Byte} {t : Scans} {given : List (List Byte)}
    {answer : Except Byte (List Byte)} (answered : Answered g clusters b t given answer s')
    (handles : t.dHandles = s.dHandles) (dir : t.ds.dir = s.ds.dir) :
    Answered g clusters b s given answer s' := by
  cases answered with
  | eof same => exact .eof (same.trans handles)
  | entry saved kept gives => exact .entry (handles ▸ saved) (kept.trans dir) gives

/-- By induction on the turns: an entry, or the next sector, is one. -/
theorem rdrLoop_answers {clusters : List Word} {b : Byte} {more : List Lba} (fuel : Nat)
    (kept : Kept g s.vars) (quiet : s.vars.io = [])
    (directory : Directory g s.vars s.ds.dir clusters) (pos : At g clusters s.ds more)
    (loaded : s.dosBuf = s.vars.disk s.ds.lba) (inside : s.dirEntIdx.toNat ≤ 16)
    (enough : 17 * (more.length + 1) ≤ fuel + s.dirEntIdx.toNat) :
    ∃ answer s', s.rdrLoop g b fuel = some (answer, s') ∧ Undisturbed g s.vars s'.vars ∧
      Answered g clusters b s (live ((entries s.vars.disk (s.ds.lba :: more)).drop
        s.dirEntIdx.toNat)) answer s' := by
  induction fuel generalizing s more with
  | zero => omega
  | succ fuel ih =>
      by_cases within : s.dirEntIdx < 16
      · have low : s.dirEntIdx.toNat < 16 := within
        have step : (s.dirEntIdx + 1).toNat = s.dirEntIdx.toNat + 1 := by
          rw [BitVec.toNat_add]
          change (_ + 1) % 2 ^ 8 = _
          omega
        have found := entries_at s.vars.disk s.ds.lba more low
        rw [← loaded] at found
        have goesOn := ih (s := { s with dirEntIdx := s.dirEntIdx + 1 }) kept quiet directory pos
          loaded (by rw [step]; exact low) (by rw [step]; omega)
        rw [found, rdrLoop, if_pos within]
        dsimp only at goesOn ⊢
        rw [step] at goesOn
        by_cases never : s.dosBuf (s.dirEntIdx.toNat * 32) = 0
        · rw [if_pos never, live_never _ never]
          exact ⟨_, _, rfl, .refl kept quiet, .eof rfl⟩
        · rw [if_neg never]
          by_cases deleted : s.dosBuf (s.dirEntIdx.toNat * 32) = 0xE5
          · rw [if_pos deleted, live_skip _ never fun given => given.1 deleted]
            obtain ⟨answer, s', ran, undisturbed, answered⟩ := goesOn
            exact ⟨answer, s', ran, undisturbed, answered.of_same rfl rfl⟩
          · rw [if_neg deleted]
            by_cases label : (s.dosBuf (s.dirEntIdx.toNat * 32 + 11)).getLsbD 3 = true
            · rw [if_pos label, live_skip _ never fun given => absurd (label.symm.trans given.2) (by decide)]
              obtain ⟨answer, s', ran, undisturbed, answered⟩ := goesOn
              exact ⟨answer, s', ran, undisturbed, answered.of_same rfl rfl⟩
            · rw [if_neg label, live_given _ never deleted (Bool.eq_false_of_not_eq_true label)]
              refine ⟨_, _, rfl, .refl kept quiet, .entry rfl rfl ⟨more, pos, ?_, ?_⟩⟩
              · dsimp only [dhSave]
                rw [step]
                exact low
              · dsimp only [dhSave]
                rw [step]
      · have last : s.dirEntIdx.toNat = 16 := by
          rw [BitVec.lt_def] at within
          change ¬_ < 16 at within
          omega
        obtain ⟨s', undisturbed, handles, next⟩ := dsNext_at kept quiet directory pos
        rw [last, entries_past, rdrLoop, if_neg within]
        rcases next with ⟨none, ends⟩ | ⟨rest, split, goes, dir, pos', loaded'⟩
        · rw [ends, none]
          exact ⟨_, _, rfl, undisturbed, .eof handles⟩
        · have whole := pos.apart directory
          rw [split] at whole enough
          have directory' : Directory g s'.vars s'.ds.dir clusters :=
            dir ▸ directory.undisturbed undisturbed
          obtain ⟨answer, s'', ran, undisturbed', answered⟩ := ih
            (s := { s' with dirEntIdx := 0 }) undisturbed.kept undisturbed.quiet directory' pos'
            loaded' (Nat.zero_le _) (by rw [List.length_cons] at enough; omega)
          have same : entries s'.vars.disk (s'.ds.lba :: rest) =
              entries s.vars.disk (s'.ds.lba :: rest) :=
            entries_congr fun lba member =>
              undisturbed.disk lba (whole lba (List.mem_cons_of_mem _ member))
          rw [goes, split, ← same]
          exact ⟨answer, s'', ran, undisturbed.trans undisturbed', answered.of_same handles dir⟩

/-- The scan of a handle, in the sector it was in. -/
def resumed (s : Scans) (b : Byte) : Scans :=
  { s with
    ds := (s.dHandles b).toDs
    dirEntIdx := (s.dHandles b).idx
    dosBuf := s.vars.disk (s.dHandles b).lba }

theorem dosReaddir_resumed {b : Byte} {fuel : Nat} (quiet : s.vars.io = [])
    (handle : s.dhCheck b = true) :
    s.dosReaddir g fuel b = (s.resumed b).rdrLoop g b fuel := by
  have load := dsLoad_quiet
    (s := { s with ds := (s.dHandles b).toDs, dirEntIdx := (s.dHandles b).idx }) quiet
  rw [dosReaddir, if_pos handle, load]
  rfl

theorem rdrLoop_more {b : Byte} {fuel : Nat} {result : Except Byte (List Byte) × Scans} (more : Nat)
    (ran : s.rdrLoop g b fuel = some result) : s.rdrLoop g b (fuel + more) = some result := by
  induction fuel generalizing s with
  | zero => cases ran
  | succ fuel ih =>
      rw [Nat.add_right_comm, rdrLoop]
      rw [rdrLoop] at ran
      dsimp only at ran ⊢
      split at ran
      · next within =>
          rw [if_pos within]
          split at ran
          · next never => rw [if_pos never, ran]
          · next used =>
              rw [if_neg used]
              split at ran
              · next deleted => rw [if_pos deleted, ih ran]
              · next notDeleted =>
                  rw [if_neg notDeleted]
                  split at ran
                  · next label => rw [if_pos label, ih ran]
                  · next notLabel => rw [if_neg notLabel, ran]
      · next past =>
          rw [if_neg past]
          generalize s.dsNext g = next at ran ⊢
          obtain ⟨outcome, s'⟩ := next
          cases outcome with
          | error a => exact ran
          | ok _ => exact ih ran

theorem rdrLoop_unique {b : Byte} {fuel fuel' : Nat} {result result' : Except Byte (List Byte) × Scans}
    (ran : s.rdrLoop g b fuel = some result) (ran' : s.rdrLoop g b fuel' = some result') :
    result = result' := by
  have first := rdrLoop_more fuel' ran
  rw [Nat.add_comm, rdrLoop_more fuel ran'] at first
  exact (Option.some.inj first).symm

end Scans

/-! Any number of scans, with each other and with other calls. -/

/-- What else DOS does changes no directory that is being scanned, and no handle but to close
it. -/
structure Elsewhere (g : Geometry) (s s' : Scans) : Prop where
  kept : Kept g s'.vars
  quiet : s'.vars.io = []
  handles : ∀ b, (s'.dHandles b).inuse = true → s'.dHandles b = s.dHandles b
  directory : ∀ b clusters, (s.dHandles b).inuse = true →
    Directory g s.vars (s.dHandles b).dir clusters →
    Directory g s'.vars (s.dHandles b).dir clusters ∧
      ∀ lba ∈ g.dirLbas (s.dHandles b).dir clusters, s'.vars.disk lba = s.vars.disk lba

/-- The scans with the directory each handle was opened on, and what B_READDIR has answered since. -/
structure Watched where
  scans : Scans
  opened : Byte → Word
  answers : Byte → List (Except Byte (List Byte))

inductive Step (g : Geometry) : Watched → Watched → Prop
  | readdir {w : Watched} (fuel : Nat) {b : Byte} {answer : Except Byte (List Byte)} {s' : Scans}
      (ran : w.scans.dosReaddir g fuel b = some (answer, s')) :
      Step g w ⟨s', w.opened, Function.update w.answers b (w.answers b ++ [answer])⟩
  | opendir {w : Watched} {d : Word} {clusters : List Word} {b : Byte} {s' : Scans}
      (directory : Directory g w.scans.vars d clusters)
      (ran : w.scans.dosOpendir g d = (.ok b, s')) :
      Step g w ⟨s', Function.update w.opened b d, Function.update w.answers b []⟩
  | refused {w : Watched} {d : Word} {clusters : List Word} {a : Byte} {s' : Scans}
      (directory : Directory g w.scans.vars d clusters)
      (ran : w.scans.dosOpendir g d = (.error a, s')) : Step g w ⟨s', w.opened, w.answers⟩
  | closedir {w : Watched} {b : Byte} :
      Step g w ⟨(w.scans.dosClosedir b).2, w.opened, w.answers⟩
  | elsewhere {w : Watched} {s' : Scans} (elsewhere : Elsewhere g w.scans s') :
      Step g w ⟨s', w.opened, w.answers⟩

/-- What a scan has answered is the beginning of its directory. -/
structure Reading (g : Geometry) (v : Vars) (h : Dhandle) (opened : Word)
    (answers : List (Except Byte (List Byte))) : Prop where
  dir : h.dir = opened
  place : ∃ clusters given rest, Directory g v h.dir clusters ∧ Gives g v clusters h.toDs h.idx rest ∧
    given ++ rest = live (entries v.disk (g.dirLbas h.dir clusters)) ∧
    ∃ ends, answers = given.map .ok ++ List.replicate ends (.error errEof) ∧ (ends ≠ 0 → rest = [])

namespace Reading

variable {s s' : Scans} {h : Dhandle} {opened : Word} {answers : List (Except Byte (List Byte))}

/-- A change that its directory has no part in. -/
theorem same (reading : Reading g v h opened answers)
    (keeps : ∀ clusters, Directory g v h.dir clusters → Directory g v' h.dir clusters ∧
      ∀ lba ∈ g.dirLbas h.dir clusters, v'.disk lba = v.disk lba) :
    Reading g v' h opened answers := by
  obtain ⟨dir, clusters, given, rest, directory, gives, whole, ends⟩ := reading
  obtain ⟨directory', disk⟩ := keeps clusters directory
  refine ⟨dir, clusters, given, rest, directory', gives.same disk, ?_, ends⟩
  rw [entries_congr disk, whole]

theorem undisturbed (reading : Reading g v h opened answers) (undisturbed : Undisturbed g v v') :
    Reading g v' h opened answers :=
  reading.same fun _ directory => ⟨directory.undisturbed undisturbed,
    fun lba member => undisturbed.disk lba (directory.apart lba member)⟩

/-- B_READDIR gives the next entry. -/
theorem readdir {b : Byte} (kept : Kept g s.vars) (quiet : s.vars.io = [])
    (handle : s.dhCheck b = true) (reading : Reading g s.vars (s.dHandles b) opened answers) :
    ∃ fuel answer s', s.dosReaddir g fuel b = some (answer, s') ∧ Undisturbed g s.vars s'.vars ∧
      (∀ b', b' ≠ b → s'.dHandles b' = s.dHandles b') ∧
      Reading g s'.vars (s'.dHandles b) opened (answers ++ [answer]) := by
  obtain ⟨dir, clusters, given, rest, directory, gives, whole, ends, answered, none⟩ := reading
  obtain ⟨more, pos, inside, left⟩ := gives
  obtain ⟨answer, s', ran, undisturbed, outcome⟩ := Scans.rdrLoop_answers (s := s.resumed b)
    (17 * (more.length + 1)) kept quiet directory pos rfl inside (Nat.le_add_right _ _)
  replace outcome : Scans.Answered g clusters b (s.resumed b) rest answer s' := left ▸ outcome
  have disk : ∀ lba ∈ g.dirLbas (s.dHandles b).dir clusters, s'.vars.disk lba = s.vars.disk lba :=
    fun lba member => undisturbed.disk lba (directory.apart lba member)
  have directory' := directory.undisturbed undisturbed
  have gives' := Gives.same ⟨more, pos, inside, left⟩ disk
  rw [← entries_congr disk] at whole
  refine ⟨17 * (more.length + 1), answer, s', ?_, undisturbed, ?_⟩
  · rw [Scans.dosReaddir_resumed quiet handle, ran]
  · cases outcome with
    | eof handles =>
        refine ⟨fun b' _ => congrFun handles b', ?_⟩
        have still : s'.dHandles b = s.dHandles b := congrFun handles b
        rw [still]
        refine ⟨dir, clusters, given, [], directory', gives', whole, ends + 1, ?_, fun _ => rfl⟩
        rw [answered, List.append_assoc, ← List.replicate_succ']
    | @entry _ bytes rest handles dir' gives' =>
        obtain rfl : ends = 0 := by
          by_contra some
          cases none some
        have saved : s'.dHandles b = { s.dHandles b with toDs := s'.ds, idx := s'.dirEntIdx } := by
          rw [handles, Function.update_self]
          rfl
        have sameDir : s'.ds.dir = (s.dHandles b).dir := dir'
        refine ⟨fun b' other => ?_, ?_⟩
        · rw [handles, Function.update_of_ne other]
          rfl
        · rw [saved]
          refine ⟨sameDir.trans dir, clusters, given ++ [bytes], rest, ?_, gives', ?_, 0, ?_,
            fun some => absurd rfl some⟩
          · exact sameDir.symm ▸ directory'
          · dsimp only
            rw [List.append_assoc, sameDir]
            exact whole
          · rw [answered, List.map_append]
            simp only [List.replicate_zero, List.append_nil, List.map_cons, List.map_nil]

/-- B_OPENDIR starts at the directory's first entry. -/
theorem opendir {b : Byte} {d : Word} {clusters : List Word} (quiet : s.vars.io = [])
    (directory : Directory g s.vars d clusters) (ran : s.dosOpendir g d = (.ok b, s')) :
    s'.vars = s.vars ∧ b < ndirh ∧ (∀ b', b' ≠ b → s'.dHandles b' = s.dHandles b') ∧
      Reading g s'.vars (s'.dHandles b) d [] := by
  rw [Scans.dosOpendir] at ran
  split at ran
  · cases ran
  · next b' found =>
      obtain ⟨ds, more, dir, pos, whole, started⟩ := Scans.dsStart_at quiet directory
      rw [started] at ran
      obtain ⟨same, rfl⟩ := Prod.mk.inj ran
      obtain rfl := Except.ok.inj same
      have listed : ∀ b ∈ [0#8, 1#8, 2#8, 3#8], b < ndirh := by decide
      refine ⟨rfl, listed b' (List.mem_of_find?_eq_some found), fun b other => ?_, ?_⟩
      · exact Function.update_of_ne other _ _
      · dsimp only
        rw [Function.update_self]
        refine ⟨dir, clusters, [], _, dir.symm ▸ directory, ⟨more, pos, Nat.zero_le _, rfl⟩, ?_, 0,
          rfl, fun some => absurd rfl some⟩
        dsimp only
        rw [dir, whole]
        rfl

end Reading

namespace Watched

variable {w w' : Watched}

structure Faithful (g : Geometry) (w : Watched) : Prop where
  kept : Kept g w.scans.vars
  quiet : w.scans.vars.io = []
  scans : ∀ b, (w.scans.dHandles b).inuse = true → b < ndirh ∧
    Reading g w.scans.vars (w.scans.dHandles b) (w.opened b) (w.answers b)

namespace Faithful

theorem dhCheck (faithful : w.Faithful g) {b : Byte}
    (opened : (w.scans.dHandles b).inuse = true) : w.scans.dhCheck b = true := by
  rw [Scans.dhCheck, opened, Bool.and_true]
  exact decide_eq_true (faithful.scans b opened).1

theorem step (faithful : w.Faithful g) (step : Step g w w') : w'.Faithful g := by
  obtain ⟨kept, quiet, scans⟩ := faithful
  cases step with
  | @readdir fuel b answer s' ran =>
      by_cases handle : w.scans.dhCheck b = true
      · have inuse : (w.scans.dHandles b).inuse = true := (Bool.and_eq_true_iff.mp handle).2
        obtain ⟨low, reading⟩ := scans b inuse
        obtain ⟨fuel', answer', t, ran', undisturbed, others, reading'⟩ :=
          reading.readdir kept quiet handle
        rw [Scans.dosReaddir_resumed quiet handle] at ran ran'
        obtain ⟨rfl, rfl⟩ := Prod.mk.inj (Scans.rdrLoop_unique ran' ran)
        refine ⟨undisturbed.kept, undisturbed.quiet, fun b' opened => ?_⟩
        by_cases this : b' = b
        · subst this
          dsimp only
          rw [Function.update_self]
          exact ⟨low, reading'⟩
        · dsimp only at opened ⊢
          rw [others b' this] at opened ⊢
          rw [Function.update_of_ne this]
          obtain ⟨low', other⟩ := scans b' opened
          exact ⟨low', other.undisturbed undisturbed⟩
      · rw [Scans.dosReaddir, if_neg handle] at ran
        obtain ⟨-, rfl⟩ := Prod.mk.inj (Option.some.inj ran)
        refine ⟨kept, quiet, fun b' opened => ?_⟩
        have other : b' ≠ b := by
          rintro rfl
          exact handle (Faithful.dhCheck ⟨kept, quiet, scans⟩ opened)
        dsimp only
        rw [Function.update_of_ne other]
        exact scans b' opened
  | @opendir d clusters b s' directory ran =>
      obtain ⟨same, low, others, reading⟩ := Reading.opendir quiet directory ran
      refine ⟨same ▸ kept, same ▸ quiet, fun b' opened => ?_⟩
      by_cases this : b' = b
      · subst this
        dsimp only
        rw [Function.update_self, Function.update_self]
        exact ⟨low, reading⟩
      · dsimp only at opened ⊢
        rw [others b' this] at opened ⊢
        rw [Function.update_of_ne this, Function.update_of_ne this, same]
        exact scans b' opened
  | @refused d clusters a s' directory ran =>
      have same : s' = w.scans := by
        rw [Scans.dosOpendir] at ran
        split at ran
        · exact (Prod.mk.inj ran).2.symm
        · obtain ⟨ds, more, -, -, -, started⟩ := Scans.dsStart_at quiet directory
          rw [started] at ran
          cases ran
      rw [same]
      exact ⟨kept, quiet, scans⟩
  | @closedir b =>
      rw [Scans.dosClosedir]
      split
      · refine ⟨kept, quiet, fun b' opened => ?_⟩
        dsimp only at opened ⊢
        by_cases this : b' = b
        · rw [this, Function.update_self] at opened
          cases opened
        · rw [Function.update_of_ne this] at opened ⊢
          exact scans b' opened
      · exact ⟨kept, quiet, scans⟩
  | @elsewhere s' elsewhere =>
      refine ⟨elsewhere.kept, elsewhere.quiet, fun b opened => ?_⟩
      have same := elsewhere.handles b opened
      dsimp only at opened ⊢
      rw [same] at opened ⊢
      obtain ⟨low, reading⟩ := scans b opened
      exact ⟨low, reading.same fun clusters => elsewhere.directory b clusters opened⟩

end Faithful

/-- As DOS_START leaves the handles and the FAT's buffer, with a disk that works. -/
structure Booted (w : Watched) : Prop where
  closed : ∀ b, (w.scans.dHandles b).inuse = false
  fatBufSec : w.scans.vars.fatBufSec = 0xFFFF
  clean : w.scans.vars.fatDirty = false
  quiet : w.scans.vars.io = []

theorem Booted.faithful (booted : w.Booted) : w.Faithful g where
  kept := ⟨fun _ some => absurd booted.fatBufSec some,
    fun dirty => absurd (booted.clean.symm.trans dirty) (by decide)⟩
  quiet := booted.quiet
  scans b opened := absurd ((booted.closed b).symm.trans opened) (by decide)

theorem run_faithful (booted : w.Booted) (ran : Relation.ReflTransGen (Step g) w w') :
    w'.Faithful g := by
  induction ran with
  | refl => exact booted.faithful
  | tail _ step ih => exact ih.step step

end Watched

/-- However its calls come between others', a scan gives its directory's entries, each once and in
order, and after them that there are no more. -/
theorem scans_independent {w w' : Watched} (booted : w.Booted)
    (ran : Relation.ReflTransGen (Step g) w w') {b : Byte}
    (opened : (w'.scans.dHandles b).inuse = true) :
    (∃ clusters, Directory g w'.scans.vars (w'.opened b) clusters ∧
      ∀ i, (inside : i < (w'.answers b).length) → (w'.answers b)[i] =
        ((live (entries w'.scans.vars.disk (g.dirLbas (w'.opened b) clusters)))[i]?).elim
          (.error errEof) .ok) ∧
    ∃ fuel answer s', w'.scans.dosReaddir g fuel b = some (answer, s') := by
  have faithful := Watched.run_faithful booted ran
  obtain ⟨low, reading⟩ := faithful.scans b opened
  obtain ⟨fuel, answer, s', ends, -⟩ :=
    reading.readdir faithful.kept faithful.quiet (faithful.dhCheck opened)
  refine ⟨?_, fuel, answer, s', ends⟩
  obtain ⟨dir, clusters, given, rest, directory, -, whole, count, answered, none⟩ := reading
  rw [dir] at directory whole
  refine ⟨clusters, directory, fun i inside => ?_⟩
  rw [← whole]
  simp only [answered]
  by_cases early : i < given.length
  · rw [List.getElem_append_left (by rw [List.length_map]; exact early), List.getElem_map,
      List.getElem?_append_left early, List.getElem?_eq_getElem early]
    rfl
  · have past : count ≠ 0 := by
      rw [answered, List.length_append, List.length_map, List.length_replicate] at inside
      omega
    rw [none past, List.append_nil, List.getElem?_eq_none (Nat.le_of_not_lt early),
      List.getElem_append_right (by rw [List.length_map]; exact Nat.le_of_not_lt early),
      List.getElem_replicate]
    rfl

/-- A root directory of one entry, and nothing open. -/
def oneEntry : Watched where
  scans :=
    { vars := { linking 0 with disk := fun lba offset => if lba = 3 ∧ offset = 0 then 0x41 else 0 }
      dosBuf := fun _ => 0
      ds := { dir := 0, cur := 0, sic := 0, lba := 0, left := 0 }
      dirEntIdx := 0
      dHandles := fun _ =>
        { dir := 0, cur := 0, sic := 0, lba := 0, left := 0, inuse := false, idx := 0 } }
  opened _ := 0
  answers _ := []

theorem oneEntry_directory : Directory oneSector oneEntry.scans.vars 0 [] := by
  have lbas : oneSector.dirLbas 0 [] = [3] := by decide
  refine ⟨fun sub => absurd rfl sub, ?_, fun lba member copy => ?_⟩
  · rw [lbas]
    exact List.cons_ne_nil _ _
  · rw [lbas] at member
    obtain rfl := List.mem_singleton.mp member
    exact absurd copy.2 (by decide)

theorem scans_independent_root : ∃ w' : Watched, w'.answers 0 = [.ok (0x41 :: List.replicate 15 0)] ∧
    (∃ clusters, Directory oneSector w'.scans.vars (w'.opened 0) clusters ∧
      ∀ i, (inside : i < (w'.answers 0).length) → (w'.answers 0)[i] =
        ((live (entries w'.scans.vars.disk (oneSector.dirLbas (w'.opened 0) clusters)))[i]?).elim
          (.error errEof) .ok) ∧
    ∃ fuel answer s', w'.scans.dosReaddir oneSector fuel 0 = some (answer, s') := by
  have booted : oneEntry.Booted := ⟨fun _ => rfl, rfl, rfl, rfl⟩
  have opens : Step oneSector oneEntry _ := .opendir oneEntry_directory (b := 0) rfl
  refine ⟨_, ?_, scans_independent booted ((Relation.ReflTransGen.single opens).tail
    (.readdir 1 (b := 0) rfl)) rfl⟩
  rfl

end Pugputer.Dos

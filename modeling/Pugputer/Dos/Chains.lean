import Pugputer.Dos.Readdir
import Pugputer.Dos.Volume

namespace Pugputer.Dos

variable {g : Geometry} {v v' v'' : Vars} {c : Word}

/-! One entry of the FAT is changed. -/

theorem blkWrite_hint (lba : Lba) : (v.blkWrite lba).2.allocHint = v.allocHint := by
  rw [Vars.blkWrite]
  split
  · rfl
  · rfl

theorem fatCommit_hint : (v.fatCommit g).2.allocHint = v.allocHint := by
  rw [Vars.fatCommit]
  split
  · rw [Vars.fcmWrite]
    have first := blkWrite_hint (v := { v with fatDirty := false }) (g.fatSec v.fatBufSec)
    dsimp only
    generalize Vars.blkWrite { v with fatDirty := false } (g.fatSec v.fatBufSec) = wrote at first ⊢
    obtain ⟨failed, v₁⟩ := wrote
    cases failed with
    | true => exact first
    | false =>
        dsimp only
        split
        · exact first
        · have second := blkWrite_hint (v := v₁) (g.fatSec v.fatBufSec + g.secPerFat.setWidth 32)
          generalize v₁.blkWrite (g.fatSec v.fatBufSec + g.secPerFat.setWidth 32) = wrote
            at second ⊢
          obtain ⟨failed, v₂⟩ := wrote
          cases failed with
          | true => exact second.trans first
          | false => exact second.trans first
  · rfl

theorem load_hint (c : Word) : (v.loadFatEntry g c).2.allocHint = v.allocHint := by
  have committed := fatCommit_hint (g := g) (v := v)
  rw [Vars.loadFatEntry]
  split
  · rfl
  · generalize v.fatCommit g = commit at committed ⊢
    obtain ⟨outcome, v₁⟩ := commit
    cases outcome with
    | error a => exact committed
    | ok _ =>
        dsimp only at committed ⊢
        rw [Vars.blkRead]
        cases v₁.io.headD .done with
        | failed left => exact committed
        | done => exact committed

/-- FATBUF is empty, or has a sector of the FAT. -/
def Vars.Within (g : Geometry) (v : Vars) : Prop :=
  v.fatBufSec = 0xFFFF ∨ v.fatBufSec < g.secPerFat

/-- What reading leaves as it was, and ALLOC_CLUSTER's hint. -/
structure Unmoved (g : Geometry) (v v' : Vars) : Prop extends Undisturbed g v v' where
  hint : v'.allocHint = v.allocHint
  within : v.Within g → v'.Within g

theorem Unmoved.refl (kept : Kept g v) (quiet : v.io = []) : Unmoved g v v :=
  ⟨.refl kept quiet, rfl, id⟩

theorem Unmoved.trans (first : Unmoved g v v') (second : Unmoved g v' v'') : Unmoved g v v'' :=
  ⟨first.toUndisturbed.trans second.toUndisturbed, second.hint.trans first.hint,
    second.within ∘ first.within⟩

/-- A sector of the file data is written. -/
theorem Kept.write (kept : Kept g v) (within : v.Within g) {lba : Lba} (apart : ¬InCopies g lba)
    (sector : Sector) (written : List (Lba × Sector)) :
    let v' := { v with disk := Function.update v.disk lba sector, written }
    Kept g v' ∧ v'.link g = v.link g := by
  have other {sec : Word} (inside : sec < g.secPerFat) : g.fatSec sec ≠ lba := by
    rintro rfl
    refine apart ?_
    rw [BitVec.lt_def] at inside
    rw [InCopies, toNat_fatSec]
    split
    · omega
    · omega
  refine ⟨⟨fun clean loaded => ?_, kept.cached⟩, link_congr fun sec inside => ?_⟩
  · rw [kept.coherent clean loaded]
    exact (Function.update_of_ne (other (within.resolve_left loaded)) _ _).symm
  · rw [Vars.fatSector, Vars.fatSector]
    split
    · rfl
    · exact Function.update_of_ne (other inside) _ _

theorem load_found (kept : Kept g v) (quiet : v.io = []) (inFat : InFat g c) :
    ∃ v', v.loadFatEntry g c = (.ok (Vars.lfeHave c), v') ∧ Loaded g v c v' ∧ Unmoved g v v' := by
  obtain ⟨ok, still, sector, -⟩ := load_quiet (g := g) quiet c
  obtain ⟨-, loaded⟩ := kept.cached.load kept.coherent c
  obtain ⟨-, loaded⟩ := loaded _ ok
  have within : (v.loadFatEntry g c).2.fatBufSec < g.secPerFat := by
    rw [sector]
    exact inFat
  exact ⟨_, Prod.ext ok rfl, loaded, ⟨⟨loaded.coherent, fun _ => within⟩, still, loaded.links,
    fun lba apart => load_disk kept.cached apart c⟩, load_hint c, fun _ => .inr within⟩

theorem nextCluster_found (kept : Kept g v) (quiet : v.io = []) (inFat : InFat g c) :
    ∃ v', v.nextCluster g c = (some (v.link g c), v') ∧ Unmoved g v v' := by
  obtain ⟨v', load, loaded, unmoved⟩ := load_found kept quiet inFat
  refine ⟨v', ?_, unmoved⟩
  rw [Vars.nextCluster, load]
  exact Prod.ext (congrArg some (loaded.word inFat)) rfl

/-- One entry of the FAT has a value, and nothing else has changed. -/
structure Relinked (g : Geometry) (v : Vars) (c value : Word) (v' : Vars) : Prop where
  kept : Kept g v'
  quiet : v'.io = []
  links : v'.link g = Function.update (v.link g) c value
  disk : ∀ lba, ¬InCopies g lba → v'.disk lba = v.disk lba
  within : v'.Within g

theorem Unmoved.relinked {value : Word} (unmoved : Unmoved g v v')
    (relinked : Relinked g v' c value v'') : Relinked g v c value v'' :=
  ⟨relinked.kept, relinked.quiet, unmoved.links ▸ relinked.links,
    fun lba apart => (relinked.disk lba apart).trans (unmoved.disk lba apart), relinked.within⟩

theorem Loaded.relinked (loaded : Loaded g v c v') (unmoved : Unmoved g v v') (inFat : InFat g c)
    (value : Word) : Relinked g v c value (v'.setEntry (Vars.lfeHave c) value) :=
  ⟨loaded.kept_setEntry inFat value, unmoved.quiet, loaded.link_setEntry inFat value,
    unmoved.disk, .inr ((loaded.kept_setEntry inFat value).cached rfl)⟩

theorem setFatEntry_found (kept : Kept g v) (quiet : v.io = []) (inFat : InFat g c) (value : Word) :
    ∃ v', v.setFatEntry g c value = (.ok (), v') ∧ Relinked g v c value v' ∧
      v'.allocHint = v.allocHint := by
  obtain ⟨v', load, loaded, unmoved⟩ := load_found kept quiet inFat
  refine ⟨v'.setEntry (Vars.lfeHave c) value, ?_, loaded.relinked unmoved inFat value, unmoved.hint⟩
  rw [Vars.setFatEntry, load]
  rfl

/-! A free cluster is claimed. -/

/-- What ALLOC_CLUSTER leaves that finds one. -/
structure Allocated (g : Geometry) (v : Vars) (new : Word) (v' : Vars) : Prop
    extends Relinked g v new 0xFFFF v' where
  free : v.link g new = 0
  low : 2 ≤ new
  high : new < g.maxClus
  hint : 2 ≤ v'.allocHint

theorem Unmoved.allocated {new : Word} (unmoved : Unmoved g v v')
    (allocated : Allocated g v' new v'') : Allocated g v new v'' :=
  ⟨unmoved.relinked allocated.toRelinked, unmoved.links ▸ allocated.free, allocated.low,
    allocated.high, allocated.hint⟩

theorem acLap_found (volume : Volume g) {left : Nat} {acClus : Word} {result : Except Byte (Option Word)}
    (kept : Kept g v) (quiet : v.io = []) (low : 2 ≤ acClus)
    (high : ∀ i < left, acClus.toNat + i < g.maxClus.toNat)
    (ran : v.acLap g left acClus = (result, v')) :
    (∃ new, result = .ok (some new) ∧ Allocated g v new v') ∨
      result = .ok none ∧ Unmoved g v v' := by
  induction left generalizing acClus v with
  | zero =>
      cases ran
      exact .inr ⟨rfl, .refl kept quiet⟩
  | succ left ih =>
      have below : acClus < g.maxClus := high 0 (Nat.succ_pos left)
      have inFat := volume.inFat acClus below
      obtain ⟨v₁, load, loaded, unmoved⟩ := load_found kept quiet inFat
      have few := BitVec.le_def.mp volume.few
      have next : (acClus + 1).toNat = acClus.toNat + 1 := by
        rw [BitVec.toNat_add]
        have := BitVec.lt_def.mp below
        change (_ + 1) % 65536 = _
        change _ ≤ 65526 at few
        omega
      have low' : 2 ≤ acClus + 1 := by
        rw [BitVec.le_def] at low ⊢
        omega
      rw [Vars.acLap, load] at ran
      dsimp only at ran
      rw [loaded.word inFat] at ran
      split at ran
      · next free =>
          cases ran
          have relinked := loaded.relinked unmoved inFat 0xFFFF
          exact .inl ⟨acClus, rfl, ⟨⟨relinked.kept.coherent, relinked.kept.cached⟩, relinked.quiet,
            relinked.links, relinked.disk, relinked.within⟩, free, low, below, low'⟩
      · have high' (i : Nat) (small : i < left) : (acClus + 1).toNat + i < g.maxClus.toNat := by
          have := high (i + 1) (by omega)
          omega
        rcases ih unmoved.kept unmoved.quiet low' high' ran with
          ⟨new, found, allocated⟩ | ⟨none, rest⟩
        · exact .inl ⟨new, found, unmoved.allocated allocated⟩
        · exact .inr ⟨none, unmoved.trans rest⟩

theorem allocCluster_found (volume : Volume g) {new : Word} (kept : Kept g v) (quiet : v.io = [])
    (hint : 2 ≤ v.allocHint) (ran : v.allocCluster g = (.ok new, v')) : Allocated g v new v' := by
  rw [Vars.allocCluster] at ran
  have low : 2 ≤ if v.allocHint < g.maxClus then v.allocHint else 2 := by
    split
    · exact hint
    · exact BitVec.le_refl 2
  generalize (if v.allocHint < g.maxClus then v.allocHint else 2) = acStart at low ran
  have two : (2 : Word).toNat = 2 := rfl
  rcases first : v.acLap g (g.maxClus.toNat - acStart.toNat) acStart with ⟨result, v₁⟩
  rw [first] at ran
  rcases acLap_found volume kept quiet low (fun i small => by omega) first with
    ⟨found, rfl, allocated⟩ | ⟨rfl, unmoved⟩
  · cases ran
    exact allocated
  · dsimp only at ran
    rcases second : v₁.acLap g (min acStart.toNat g.maxClus.toNat - 2) 2 with ⟨result, v₂⟩
    rw [second] at ran
    rcases acLap_found volume unmoved.kept unmoved.quiet (BitVec.le_refl 2)
      (fun i small => by omega) second with ⟨found, rfl, allocated⟩ | ⟨rfl, -⟩
    · cases ran
      exact unmoved.allocated allocated
    · cases ran

/-! Along a chain. -/

namespace Chain

variable {link link' : Word → Word} {start last new : Word} {clusters : List Word} {j : Nat}

theorem link_at (chain : Chain link start clusters) (here : clusters[j]? = some c) :
    (∀ d, clusters[j + 1]? = some d → link c = d ∧ d < 0xFFF8) ∧
      (clusters.length = j + 1 → 0xFFF8 ≤ link c) := by
  obtain ⟨inside, rfl⟩ := List.getElem?_eq_some_iff.mp here
  have whole : Chain link start (clusters.take j ++ clusters[j] :: clusters.drop (j + 1)) := by
    rw [← List.drop_eq_getElem_cons inside, List.take_append_drop]
    exact chain
  have suffix := whole.suffix
  refine ⟨fun d next => ?_, fun ends => ?_⟩
  · obtain ⟨inside', rfl⟩ := List.getElem?_eq_some_iff.mp next
    rw [List.drop_eq_getElem_cons inside'] at suffix
    exact suffix.link_more
  · rw [List.drop_eq_nil_of_le (Nat.le_of_eq ends)] at suffix
    exact suffix.link_last

theorem link_ne_zero (chain : Chain link start clusters) (member : c ∈ clusters) : link c ≠ 0 := by
  induction chain with
  | @last a live ends =>
      obtain rfl := List.mem_singleton.mp member
      intro none
      rw [none] at ends
      exact absurd ends (by decide)
  | @more a rest live chain ih =>
      rcases List.mem_cons.mp member with rfl | later
      · intro none
        rw [none] at chain
        cases chain with
        | last live ends => exact not_live_zero live
        | more live chain => exact not_live_zero live
      · exact ih later

/-- A cluster is linked to the last one. -/
theorem snoc (chain : Chain link start clusters) (distinct : clusters.Nodup)
    (ends : clusters.getLast? = some last) (live : Live new)
    (same : ∀ x ∈ clusters, x ≠ last → link' x = link x) (linked : link' last = new)
    (newEnds : 0xFFF8 ≤ link' new) : Chain link' start (clusters ++ [new]) := by
  induction chain with
  | @last a live' ends' =>
      obtain rfl : a = last := Option.some.inj ends
      refine .more live' ?_
      rw [linked]
      exact .last live newEnds
  | @more a rest live' chain ih =>
      obtain ⟨more, head⟩ := chain.head
      obtain ⟨fresh, distinct⟩ := List.nodup_cons.mp distinct
      rw [head, List.getLast?_cons_cons, ← head] at ends
      have other : a ≠ last := fun here => fresh (here ▸ List.mem_of_getLast? ends)
      refine .more live' ?_
      rw [same a List.mem_cons_self other]
      exact ih distinct ends fun x member => same x (List.mem_cons_of_mem a member)

end Chain

variable {ext : Bool} {k sic : Word} {left j : Nat} {start d : Word} {clusters : List Word} {s s' : Open}

theorem onVars_next (next : s.vars.nextCluster g c = (some d, v')) :
    onVars (fun v => let (next, v) := v.nextCluster g c; (.ok next, v)) s =
      (.ok (some d), { s with vars := v' }) := by
  rw [onVars, next]

theorem lsWalk_zero : lsWalk g ext k sic 0 c s =
    (.ok (g.clusSicToLba c sic), { s with slot := { s.slot with cacheidx := k, cacheclus := c } }) :=
  rfl

/-- LS_WALK as far as the chain goes. -/
theorem lsWalk_found (kept : Kept g s.vars) (quiet : s.vars.io = [])
    (chain : Chain (s.vars.link g) start clusters) (inFat : ∀ x ∈ clusters, InFat g x)
    (here : clusters[j]? = some c) (there : clusters[j + left]? = some d) :
    ∃ vars, lsWalk g ext k sic left c s = (.ok (g.clusSicToLba d sic),
      ⟨vars, { s.slot with cacheidx := k, cacheclus := d }⟩) ∧ Unmoved g s.vars vars := by
  induction left generalizing j c s with
  | zero =>
      obtain rfl : c = d := Option.some.inj (here.symm.trans there)
      exact ⟨_, lsWalk_zero, .refl kept quiet⟩
  | succ left ih =>
      have further : j + 1 < clusters.length := by
        obtain ⟨inside, -⟩ := List.getElem?_eq_some_iff.mp there
        omega
      obtain ⟨linked, live⟩ := (chain.link_at here).1 _ (List.getElem?_eq_getElem further)
      obtain ⟨v', next, unmoved⟩ :=
        nextCluster_found kept quiet (inFat c (List.mem_of_getElem? here))
      rw [linked] at next
      have there' : clusters[j + 1 + left]? = some d := by
        rw [Nat.add_right_comm]
        exact there
      obtain ⟨vars, ran, rest⟩ := @ih clusters[j + 1] (j + 1) { s with vars := v' }
        unmoved.kept unmoved.quiet (unmoved.links ▸ chain) (List.getElem?_eq_getElem further) there'
      refine ⟨vars, ?_, unmoved.trans rest⟩
      rw [lsWalk, bind_ok (onVars_next next)]
      dsimp only
      rw [if_pos live, ran]

/-- What LS_WALK leaves that has linked a new cluster to the last one. -/
structure Extended (g : Geometry) (v : Vars) (last new : Word) (v' : Vars) : Prop where
  kept : Kept g v'
  quiet : v'.io = []
  hint : 2 ≤ v'.allocHint
  free : v.link g new = 0
  low : 2 ≤ new
  high : new < g.maxClus
  links : v'.link g = Function.update (Function.update (v.link g) new 0xFFFF) last new
  disk : ∀ lba, ¬InCopies g lba → v'.disk lba = v.disk lba
  within : v'.Within g

theorem Unmoved.extended {last new : Word} (unmoved : Unmoved g v v')
    (extended : Extended g v' last new v'') : Extended g v last new v'' :=
  ⟨extended.kept, extended.quiet, extended.hint, unmoved.links ▸ extended.free, extended.low,
    extended.high, unmoved.links ▸ extended.links,
    fun lba apart => (extended.disk lba apart).trans (unmoved.disk lba apart), extended.within⟩

theorem lsWalk_extends (volume : Volume g) {lba : Lba} {last : Word} (kept : Kept g s.vars)
    (quiet : s.vars.io = []) (hint : 2 ≤ s.vars.allocHint)
    (chain : Chain (s.vars.link g) start clusters) (inFat : ∀ x ∈ clusters, InFat g x)
    (ends : clusters.getLast? = some last) (here : clusters[j]? = some c)
    (past : j + (left + 1) = clusters.length)
    (ran : lsWalk g true k sic (left + 1) c s = (.ok lba, s')) :
    ∃ new, Extended g s.vars last new s'.vars ∧
      s'.slot = { s.slot with cacheidx := k, cacheclus := new } := by
  induction left generalizing j c s with
  | zero =>
      have atEnd : c = last := by
        rw [List.getLast?_eq_getElem?, ← past, Nat.zero_add, Nat.add_sub_cancel, here] at ends
        exact Option.some.inj ends
      subst atEnd
      have stops := (chain.link_at here).2 past.symm
      obtain ⟨v₁, next, unmoved⟩ :=
        nextCluster_found kept quiet (inFat c (List.mem_of_getElem? here))
      rw [lsWalk, bind_ok (onVars_next next)] at ran
      dsimp only at ran
      rw [if_neg (BitVec.not_lt.mpr stops), if_pos rfl] at ran
      rcases found : v₁.allocCluster g with ⟨a | new, v₂⟩
      · rw [bind_error (show onVars (fun v => v.allocCluster g) { s with vars := v₁ } =
          (.error a, { s with vars := v₂ }) by rw [onVars, found])] at ran
        cases ran
      · have allocated := allocCluster_found volume unmoved.kept unmoved.quiet
          (unmoved.hint ▸ hint) found
        obtain ⟨v₃, set, relinked, same⟩ := setFatEntry_found allocated.kept allocated.quiet
          (inFat c (List.mem_of_getElem? here)) new
        rw [bind_ok (show onVars (fun v => v.allocCluster g) { s with vars := v₁ } =
            (.ok new, { s with vars := v₂ }) by rw [onVars, found]),
          bind_ok (show onVars (fun v => v.setFatEntry g c new) { s with vars := v₂ } =
            (.ok (), { s with vars := v₃ }) by rw [onVars, set]), lsWalk_zero] at ran
        cases ran
        have allocated := unmoved.allocated allocated
        refine ⟨new, ⟨relinked.kept, relinked.quiet, same ▸ allocated.hint, allocated.free,
          allocated.low, allocated.high, allocated.links ▸ relinked.links, fun lba apart => ?_,
          relinked.within⟩, rfl⟩
        exact (relinked.disk lba apart).trans (allocated.disk lba apart)
  | succ left ih =>
      have further : j + 1 < clusters.length := by omega
      obtain ⟨linked, live⟩ := (chain.link_at here).1 _ (List.getElem?_eq_getElem further)
      obtain ⟨v', next, unmoved⟩ :=
        nextCluster_found kept quiet (inFat c (List.mem_of_getElem? here))
      rw [linked] at next
      rw [lsWalk, bind_ok (onVars_next next)] at ran
      dsimp only at ran
      rw [if_pos live] at ran
      obtain ⟨new, extended, slot⟩ := @ih clusters[j + 1] (j + 1) { s with vars := v' } unmoved.kept
        unmoved.quiet (unmoved.hint ▸ hint) (unmoved.links ▸ chain)
        (List.getElem?_eq_getElem further) (by omega) ran
      exact ⟨new, unmoved.extended extended, slot⟩

end Pugputer.Dos

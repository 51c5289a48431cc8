import Pugputer.Dos.FatCache
import Pugputer.Lib.Links

namespace Pugputer.Dos

open Lib.Links

/-! FREE_CHAIN: it ends, and what it writes. -/

/-- A cluster that a chain can be at: not free, nor an end of chain. -/
def Live (c : Word) : Prop := 2 ≤ c ∧ c < 0xFFF8

instance (c : Word) : Decidable (Live c) := inferInstanceAs (Decidable (_ ∧ _))

theorem not_live_zero : ¬Live 0 := fun live => absurd live.1 (by decide)

variable {g : Geometry} {v v' : Vars} {c : Word}

/-! One entry. -/

theorem Vars.Cached.commit (cached : v.Cached g) (coherent : v.Coherent g) :
    Wrote g (v.link g) (fun _ => False) v (v.fatCommit g).2 ∧
      ((v.fatCommit g).1 = .ok () → Committed g v (v.fatCommit g).2) := by
  rw [Vars.fatCommit]
  split
  · next dirty => exact fcmWrite_spec (cached dirty)
  · next clean =>
      have fatDirty := Bool.eq_false_of_not_eq_true clean
      refine ⟨.none rfl rfl, fun _ => ⟨fatDirty, rfl, rfl, fun sec inside => ?_⟩⟩
      rw [Vars.fatSector]
      split
      · next here =>
          have some : v.fatBufSec ≠ 0xFFFF := by
            rintro empty
            have most := g.secPerFat.isLt
            rw [here, empty, BitVec.lt_def] at inside
            change 0xFFFF < _ at inside
            omega
          rw [coherent fatDirty some, here]
      · rfl

theorem Committed.fatSector (committed : Committed g v v') {sec : Word}
    (inside : sec < g.secPerFat) : v'.fatSector g sec = v.fatSector g sec := by
  rw [Vars.fatSector, Vars.fatSector, committed.fatBufSec, committed.fatBuf]
  split
  · rfl
  · next other =>
      have disk := committed.disk sec inside
      rw [Vars.fatSector, if_neg other] at disk
      exact disk

theorem link_congr (same : ∀ sec, sec < g.secPerFat → v'.fatSector g sec = v.fatSector g sec) :
    v'.link g = v.link g := by
  funext c
  rw [Vars.link, Vars.link]
  split
  · next inFat => rw [same _ inFat]
  · rfl

/-- What LOAD_FAT_ENTRY leaves that succeeds. -/
structure Loaded (g : Geometry) (v : Vars) (c : Word) (v' : Vars) : Prop where
  fatBufSec : v'.fatBufSec = c >>> 8
  links : v'.link g = v.link g
  coherent : v'.Coherent g

theorem Vars.Cached.load (cached : v.Cached g) (coherent : v.Coherent g) (c : Word) :
    Wrote g (v.link g) (fun _ => False) v (v.loadFatEntry g c).2 ∧
      ∀ x, (v.loadFatEntry g c).1 = .ok x →
        x = Vars.lfeHave c ∧ Loaded g v c (v.loadFatEntry g c).2 := by
  rw [Vars.loadFatEntry]
  split
  · next here =>
      refine ⟨.none rfl rfl, fun x found => ⟨(Except.ok.inj found).symm, here.symm, rfl, coherent⟩⟩
  · obtain ⟨wrote, committed⟩ := cached.commit coherent
    generalize v.fatCommit g = commit at wrote committed ⊢
    obtain ⟨outcome, v₁⟩ := commit
    cases outcome with
    | error a => exact ⟨wrote, fun x found => by cases found⟩
    | ok _ =>
        have committed := committed rfl
        dsimp only at wrote committed ⊢
        rw [Vars.blkRead]
        cases v₁.io.headD .done with
        | failed left => exact ⟨wrote.trans (.none rfl rfl), fun x found => by cases found⟩
        | done =>
            dsimp only
            refine ⟨wrote.trans (.none rfl rfl), fun x found => ⟨(Except.ok.inj found).symm, rfl, ?_, ?_⟩⟩
            · refine link_congr fun sec inside => ?_
              have disk := committed.disk sec inside
              rw [Vars.fatSector]
              split
              · next here =>
                  have same : sec = c >>> 8 := here
                  rw [same] at disk ⊢
                  exact disk
              · exact disk
            · exact fun _ _ => rfl

/-! Its link is set to 0. -/

theorem toNat_loByte (c : Word) : (loByte c).toNat = c.toNat % 256 := by
  rw [loByte, BitVec.extractLsb'_toNat, Nat.shiftRight_zero]

theorem toNat_sector (c : Word) : (c >>> 8).toNat = c.toNat / 256 := by
  rw [BitVec.toNat_ushiftRight, Nat.shiftRight_eq_div_pow]

/-- Two entries of a sector. -/
theorem lfeHave_ne {c' : Word} (sec : c' >>> 8 = c >>> 8) (other : c' ≠ c) :
    Vars.lfeHave c' ≠ Vars.lfeHave c := by
  intro same
  have row := congrArg BitVec.toNat sec
  rw [toNat_sector, toNat_sector] at row
  rw [Vars.lfeHave, Vars.lfeHave, toNat_loByte, toNat_loByte] at same
  exact other (BitVec.eq_of_toNat_eq (by omega))

/-- An entry of the sector in FATBUF is given a value. -/
def Vars.setEntry (v : Vars) (x : Nat) (value : Word) : Vars :=
  { v with
    fatBuf := Function.update (Function.update v.fatBuf x (loByte value)) (x + 1) (hiByte value)
    fatDirty := true }

theorem Loaded.link_setEntry (loaded : Loaded g v c v') (inFat : InFat g c) (value : Word) :
    (v'.setEntry (Vars.lfeHave c) value).link g = Function.update (v.link g) c value := by
  rw [← loaded.links]
  funext c'
  have buf (sec : Word) : (v'.setEntry (Vars.lfeHave c) value).fatSector g sec =
      if sec = v'.fatBufSec then (v'.setEntry (Vars.lfeHave c) value).fatBuf
      else v'.disk (g.fatSec sec) := rfl
  have fatBuf : (v'.setEntry (Vars.lfeHave c) value).fatBuf =
      Function.update (Function.update v'.fatBuf (Vars.lfeHave c) (loByte value))
        (Vars.lfeHave c + 1) (hiByte value) := rfl
  by_cases same : c' = c
  · rw [same, Function.update_self, Vars.link, if_pos inFat, buf, if_pos loaded.fatBufSec.symm,
      fatBuf, Sector.word]
    have first : Vars.lfeHave c ≠ Vars.lfeHave c + 1 := Nat.ne_of_lt (Nat.lt_succ_self _)
    rw [Function.update_self, Function.update_of_ne first, Function.update_self,
      word_hiByte_loByte]
  · rw [Function.update_of_ne same, Vars.link, Vars.link]
    split
    · rw [buf, Vars.fatSector]
      split
      · next here =>
          have apart := lfeHave_ne (here.trans loaded.fatBufSec) same
          have even : Vars.lfeHave c' % 2 = 0 ∧ Vars.lfeHave c % 2 = 0 :=
            ⟨Nat.mul_mod_left _ 2, Nat.mul_mod_left _ 2⟩
          rw [fatBuf, Sector.word, Sector.word, Function.update_of_ne (by omega),
            Function.update_of_ne (by omega), Function.update_of_ne (by omega),
            Function.update_of_ne (by omega)]
      · rfl
    · rfl

theorem Loaded.link_freeEntry (loaded : Loaded g v c v') (inFat : InFat g c) :
    (v'.freeEntry (Vars.lfeHave c)).link g = Function.update (v.link g) c 0 :=
  loaded.link_setEntry inFat 0

/-- The link that is followed. -/
theorem Loaded.word (loaded : Loaded g v c v') (inFat : InFat g c) :
    v'.fatBuf.word (Vars.lfeHave c) = v.link g c := by
  rw [← loaded.links, Vars.link, if_pos inFat, Vars.fatSector, if_pos loaded.fatBufSec.symm]

/-! The whole chain. -/

/-- Two bounds on a cluster, as FC_LOOP checks them. -/
theorem freeChain_dead {fuel : Nat} (dead : ¬Live c) :
    v.freeChain g (fuel + 1) c = some (v.fatCommit g) := by
  rw [Vars.freeChain]
  split
  · rfl
  split
  · rfl
  · next low high =>
      exact absurd ⟨BitVec.not_lt.mp high, BitVec.not_le.mp low⟩ dead

def Vars.hint (v : Vars) (c : Word) : Vars :=
  if v.allocHint ≤ c then v else { v with allocHint := c }

theorem freeChain_live (fuel : Nat) (live : Live c) :
    v.freeChain g (fuel + 1) c = match (v.hint c).loadFatEntry g c with
      | (.error a, v) => some (.error a, v)
      | (.ok x, v) => Vars.freeChain g fuel (v.freeEntry x) (v.fatBuf.word x) := by
  rw [Vars.freeChain, if_neg (BitVec.not_le.mpr live.2), if_neg (BitVec.not_lt.mpr live.1)]
  rfl

/-- The invariant of FC_LOOP. -/
structure Kept (g : Geometry) (v : Vars) : Prop where
  coherent : v.Coherent g
  cached : v.Cached g

theorem Kept.hint (kept : Kept g v) (c : Word) :
    Kept g (v.hint c) ∧ (v.hint c).link g = v.link g ∧
      ∀ f freed, Wrote g f freed v (v.hint c) := by
  rw [Vars.hint]
  split
  · exact ⟨kept, rfl, fun _ _ => .none rfl rfl⟩
  · exact ⟨⟨kept.coherent, kept.cached⟩, rfl, fun _ _ => .none rfl rfl⟩

theorem Loaded.kept_setEntry (loaded : Loaded g v c v') (inFat : InFat g c) (value : Word) :
    Kept g (v'.setEntry (Vars.lfeHave c) value) := by
  refine ⟨fun clean => absurd (show true = false from clean) (by decide), fun _ => ?_⟩
  have sec : (v'.setEntry (Vars.lfeHave c) value).fatBufSec = c >>> 8 := loaded.fatBufSec
  rw [sec]
  exact inFat

theorem Loaded.kept (loaded : Loaded g v c v') (inFat : InFat g c) :
    Kept g (v'.freeEntry (Vars.lfeHave c)) := loaded.kept_setEntry inFat 0

/-- What FREE_CHAIN leaves. -/
structure Freed (g : Geometry) (v : Vars) (start : Word) (outcome : Except Byte Unit)
    (v' : Vars) : Prop where
  wrote : Wrote g (v.link g) (Followed Live (v.link g) start) v v'
  links : outcome = .ok () → ∀ c,
    (Followed Live (v.link g) start c → v'.link g c = 0) ∧
    (¬Followed Live (v.link g) start c → v'.link g c = v.link g c)
  onDisk : outcome = .ok () → ∀ sec, sec < g.secPerFat → v'.disk (g.fatSec sec) = v'.fatSector g sec

/-- By induction on the walk that clears the links. -/
theorem freeChain_walk {f f' : Word → Word} (walk : Walk Live 0 f c f') (kept : Kept g v)
    (links : v.link g = f) (within : ∀ x, Followed Live f c x → InFat g x) :
    ∃ fuel outcome v', v.freeChain g fuel c = some (outcome, v') ∧
      Wrote g f (Followed Live f c) v v' ∧
      (outcome = .ok () → v'.link g = f' ∧
        ∀ sec, sec < g.secPerFat → v'.disk (g.fatSec sec) = v'.fatSector g sec) := by
  induction walk generalizing v with
  | @ends f c dead =>
      obtain ⟨wrote, committed⟩ := kept.cached.commit kept.coherent
      refine ⟨1, (v.fatCommit g).1, (v.fatCommit g).2, freeChain_dead dead, ?_, fun ok => ⟨?_, fun sec inside => ?_⟩⟩
      · rw [links] at wrote
        exact wrote.weaken fun c x same => .inl (same.resolve_right fun none => none.2)
      · rw [link_congr fun sec inside => (committed ok).fatSector inside, links]
      · rw [(committed ok).disk sec inside, (committed ok).fatSector inside]
  | @step f f' c live rest ih =>
      obtain ⟨hinted, hintLinks, hintWrote⟩ := kept.hint c
      have inFat := within c (.here live)
      obtain ⟨wrote, loaded⟩ := hinted.cached.load hinted.coherent c
      rw [hintLinks, links] at wrote
      have turn (fuel : Nat) := freeChain_live (g := g) (v := v) fuel live
      generalize (v.hint c).loadFatEntry g c = load at wrote loaded turn
      obtain ⟨outcome, v₁⟩ := load
      have begun : Wrote g f (Followed Live f c) v v₁ :=
        (hintWrote _ _).trans (wrote.weaken fun c x same => .inl (same.resolve_right fun none => none.2))
      cases outcome with
      | error a => exact ⟨1, _, _, turn 0, begun, fun ok => by cases ok⟩
      | ok x =>
          obtain ⟨rfl, loaded⟩ := loaded x rfl
          have linked := loaded.link_freeEntry inFat
          have next := loaded.word inFat
          rw [hintLinks, links] at linked next
          have split {x : Word} := followed_update (x := x) (f := f) not_live_zero live
          obtain ⟨fuel, outcome, v', run, more, result⟩ := ih (loaded.kept inFat) linked
            fun x followed => within x (split.mpr (.inr followed))
          refine ⟨fuel + 1, outcome, v', ?_, ?_, result⟩
          · rw [turn fuel]
            dsimp only
            rw [next, run]
          · have freed : Wrote g f (Followed Live f c) v₁ (v₁.freeEntry (Vars.lfeHave c)) :=
              .none rfl rfl
            refine (begun.trans freed).trans (more.weaken fun y x data => ?_)
            rcases data with same | ⟨zero, followed⟩
            · by_cases here : y = c
              · rw [here, Function.update_self] at same
                refine .inr ⟨same, ?_⟩
                rw [here]
                exact .here live
              · rw [Function.update_of_ne here] at same
                exact .inl same
            · exact .inr ⟨zero, split.mpr (.inr followed)⟩

instance : Finite Word :=
  Finite.of_injective BitVec.toFin fun _ _ same => BitVec.eq_of_toNat_eq (congrArg Fin.val same)

/-- What waits to be written is of the FAT, and so is each cluster that is followed. -/
structure Within (g : Geometry) (v : Vars) (start : Word) : Prop where
  cached : v.Cached g
  inFat : ∀ c, Followed Live (v.link g) start c → InFat g c

theorem freeChain_frees {start : Word} (coherent : v.Coherent g) (within : Within g v start) :
    ∃ fuel outcome v', v.freeChain g fuel start = some (outcome, v') ∧
      Freed g v start outcome v' := by
  obtain ⟨f', walk⟩ := walk_exists not_live_zero (v.link g) start
  obtain ⟨fuel, outcome, v', run, wrote, result⟩ :=
    freeChain_walk walk ⟨coherent, within.cached⟩ rfl within.inFat
  refine ⟨fuel, outcome, v', run, wrote, fun ok c => ?_, fun ok => (result ok).2⟩
  rw [(result ok).1]
  exact walk.result not_live_zero c

/-! Past the FAT. -/

/-- A sector of the FAT's copies: of the two, or of the one there is. -/
def InCopies (g : Geometry) (lba : Lba) : Prop :=
  g.fatLba.toNat ≤ lba.toNat ∧
    lba.toNat < g.fatLba.toNat + (if g.numFats < 2 then 1 else 2) * g.secPerFat.toNat

theorem Good.inCopies {f : Word → Word} {freed : Word → Prop} {w : Lba × Sector}
    (good : Good g f freed w) : InCopies g w.1 := by
  obtain ⟨sec, inside, place, -⟩ := good
  rw [BitVec.lt_def] at inside
  rw [InCopies]
  rcases place with first | ⟨two, second⟩
  · rw [first, toNat_fatSec]
    split
    · omega
    · omega
  · rw [second, toNat_secondSec, if_neg two]
    omega

/-- The log only grows. -/
theorem blkWrite_more (lba : Lba) : ∀ w ∈ v.written, w ∈ (v.blkWrite lba).2.written := by
  intro w member
  rw [Vars.blkWrite]
  split
  · exact List.mem_cons_of_mem _ member
  · exact List.mem_cons_of_mem _ member

theorem fatCommit_more : ∀ w ∈ v.written, w ∈ (v.fatCommit g).2.written := by
  intro w member
  rw [Vars.fatCommit]
  split
  · rw [Vars.fcmWrite]
    have first := blkWrite_more (v := { v with fatDirty := false }) (g.fatSec v.fatBufSec) w member
    dsimp only
    generalize Vars.blkWrite { v with fatDirty := false } (g.fatSec v.fatBufSec) = wrote at first ⊢
    obtain ⟨failed, v₁⟩ := wrote
    cases failed with
    | true => exact first
    | false =>
        dsimp only
        split
        · exact first
        · have second := blkWrite_more (v := v₁)
            (g.fatSec v.fatBufSec + g.secPerFat.setWidth 32) w first
          generalize v₁.blkWrite (g.fatSec v.fatBufSec + g.secPerFat.setWidth 32) = wrote
            at second ⊢
          obtain ⟨failed, v₂⟩ := wrote
          cases failed with
          | true => exact second
          | false => exact second
  · exact member

/-- A sector past the FAT has been written, or is going to be. -/
def Astray (g : Geometry) (v : Vars) : Prop :=
  (∃ w ∈ v.written, ¬InCopies g w.1) ∨ v.fatDirty = true ∧ ¬v.fatBufSec < g.secPerFat

/-- With no call that fails a commit succeeds, and writes past the FAT what is past it. -/
theorem fatCommit_quiet (quiet : v.io = []) :
    (v.fatCommit g).1 = .ok () ∧ (v.fatCommit g).2.io = [] ∧
      (Astray g v → ∃ w ∈ (v.fatCommit g).2.written, ¬InCopies g w.1) := by
  have more := fatCommit_more (g := g) (v := v)
  have before (written : ∃ w ∈ v.written, ¬InCopies g w.1) :
      ∃ w ∈ (v.fatCommit g).2.written, ¬InCopies g w.1 := by
    obtain ⟨w, member, bad⟩ := written
    exact ⟨w, more w member, bad⟩
  by_cases dirty : v.fatDirty = true
  · have commit : v.fatCommit g = if g.numFats < 2 then (.ok (), { v with
          fatDirty := false
          disk := Function.update v.disk (g.fatSec v.fatBufSec) v.fatBuf
          io := []
          written := (g.fatSec v.fatBufSec, v.fatBuf) :: v.written })
        else (.ok (), { v with
          fatDirty := false
          disk := Function.update (Function.update v.disk (g.fatSec v.fatBufSec) v.fatBuf)
            (g.secondSec v.fatBufSec) v.fatBuf
          io := []
          written := (g.secondSec v.fatBufSec, v.fatBuf) :: (g.fatSec v.fatBufSec, v.fatBuf) ::
            v.written }) := by
      rw [Vars.fatCommit, if_pos dirty, Vars.fcmWrite]
      dsimp only [Vars.blkWrite]
      rw [quiet]
      rfl
    have far (outside : ¬v.fatBufSec < g.secPerFat) {lba : Lba}
        (place : lba = if g.numFats < 2 then g.fatSec v.fatBufSec else g.secondSec v.fatBufSec) :
        ¬InCopies g lba := by
      rw [BitVec.lt_def] at outside
      rw [place, InCopies]
      split
      · rw [toNat_fatSec]
        omega
      · rw [toNat_secondSec]
        omega
    split at commit
    · next one =>
        rw [commit]
        refine ⟨rfl, rfl, fun astray => ?_⟩
        rcases astray with written | ⟨-, outside⟩
        · rw [commit] at before
          exact before written
        · exact ⟨_, List.mem_cons_self, far outside (if_pos one).symm⟩
    · next two =>
        rw [commit]
        refine ⟨rfl, rfl, fun astray => ?_⟩
        rcases astray with written | ⟨-, outside⟩
        · rw [commit] at before
          exact before written
        · exact ⟨_, List.mem_cons_self, far outside (if_neg two).symm⟩
  · have commit : v.fatCommit g = (.ok (), v) := if_neg dirty
    refine ⟨by rw [commit], by rw [commit, quiet], fun astray => ?_⟩
    exact before (astray.resolve_right fun pending => dirty pending.1)

theorem load_quiet (quiet : v.io = []) (c : Word) :
    (v.loadFatEntry g c).1 = .ok (Vars.lfeHave c) ∧ (v.loadFatEntry g c).2.io = [] ∧
      (v.loadFatEntry g c).2.fatBufSec = c >>> 8 ∧
      (Astray g v → Astray g ((v.loadFatEntry g c).2.freeEntry (Vars.lfeHave c))) := by
  obtain ⟨ok, still, written⟩ := fatCommit_quiet (g := g) quiet
  rw [Vars.loadFatEntry]
  split
  · next here =>
      refine ⟨rfl, quiet, here.symm, fun astray => astray.imp_right fun pending => ⟨rfl, pending.2⟩⟩
  · generalize v.fatCommit g = commit at ok still written ⊢
    obtain ⟨outcome, v₁⟩ := commit
    obtain rfl : outcome = .ok () := ok
    dsimp only at still written ⊢
    rw [Vars.blkRead, still]
    exact ⟨rfl, rfl, rfl, fun astray => .inl (written astray)⟩

/-- By induction on the turns: at a cluster that the FAT does not have FATBUF is marked, and when
it is left, or at the end, it is written. -/
theorem freeChain_astray {fuel : Nat} {outcome : Except Byte Unit} (quiet : v.io = [])
    (leads : Astray g v ∨ Kept g v ∧ ∃ x, Followed Live (v.link g) c x ∧ ¬InFat g x)
    (run : v.freeChain g fuel c = some (outcome, v')) :
    ∃ w ∈ v'.written, ¬InCopies g w.1 := by
  induction fuel generalizing v c with
  | zero => cases run
  | succ fuel ih =>
      by_cases live : Live c
      · have hinted : (v.hint c).io = [] ∧ (Astray g v → Astray g (v.hint c)) := by
          rw [Vars.hint]
          split
          · exact ⟨quiet, id⟩
          · exact ⟨quiet, id⟩
        obtain ⟨ok, still, sec, astray⟩ := load_quiet (g := g) hinted.1 c
        have loads : (v.hint c).loadFatEntry g c =
            (.ok (Vars.lfeHave c), ((v.hint c).loadFatEntry g c).2) := Prod.ext ok rfl
        rw [freeChain_live _ live, loads] at run
        have quiet' : (((v.hint c).loadFatEntry g c).2.freeEntry (Vars.lfeHave c)).io = [] := still
        refine ih quiet' ?_ run
        rcases leads with before | ⟨kept, x, followed, outside⟩
        · exact .inl (astray (hinted.2 before))
        by_cases inFat : InFat g c
        · obtain ⟨kept, links, -⟩ := kept.hint c
          obtain ⟨-, loaded⟩ := kept.cached.load kept.coherent c
          obtain ⟨-, loaded⟩ := loaded _ ok
          have linked := loaded.link_freeEntry inFat
          have next := loaded.word inFat
          have further := (followed_update not_live_zero live).mp followed
          rw [links] at linked next
          rw [next]
          refine .inr ⟨loaded.kept inFat, x, ?_, outside⟩
          rw [linked]
          exact further.resolve_left fun same => outside (same ▸ inFat)
        · exact .inl (.inr ⟨rfl, sec ▸ inFat⟩)
      · rw [freeChain_dead live] at run
        have same := Option.some.inj run
        obtain ⟨-, -, written⟩ := fatCommit_quiet (g := g) quiet
        rw [same] at written
        refine written (leads.resolve_right ?_)
        rintro ⟨-, x, followed, -⟩
        exact Followed.of_dead live followed

/-- From a state with no sector written yet, whatever becomes of the block calls. -/
def Vars.begun (v : Vars) (io : List Io) : Vars := { v with io := io, written := [] }

/-- What is claimed: FREE_CHAIN ends, writes no sector but those of the FAT's copies, and in them
changes only links that are followed from the start, to 0. -/
def Safe (g : Geometry) (v : Vars) (start : Word) : Prop :=
  ∀ io, ∃ fuel outcome v', (v.begun io).freeChain g fuel start = some (outcome, v') ∧
    (∀ w ∈ v'.written, InCopies g w.1) ∧ Freed g (v.begun io) start outcome v'

theorem freeChain_safe_iff (g : Geometry) (v : Vars) (start : Word) (coherent : v.Coherent g) :
    Safe g v start ↔ Within g v start := by
  constructor
  · intro safe
    obtain ⟨fuel, outcome, v', run, inside, -⟩ := safe []
    have leads (leads : Astray g (v.begun []) ∨ Kept g (v.begun []) ∧
        ∃ x, Followed Live ((v.begun []).link g) start x ∧ ¬InFat g x) : False := by
      obtain ⟨w, member, bad⟩ := freeChain_astray rfl leads run
      exact bad (inside w member)
    have cached : v.Cached g := fun dirty => by
      by_contra outside
      exact leads (.inl (.inr ⟨dirty, outside⟩))
    refine ⟨cached, fun c followed => ?_⟩
    by_contra outside
    exact leads (.inr ⟨⟨coherent, cached⟩, c, followed, outside⟩)
  · intro within io
    obtain ⟨fuel, outcome, v', run, freed⟩ :=
      freeChain_frees (v := v.begun io) coherent ⟨within.cached, within.inFat⟩
    refine ⟨fuel, outcome, v', run, fun w member => ?_, freed⟩
    rcases freed.wrote.good w member with before | good
    · cases before
    · exact good.inCopies

/-- Two FATs of one sector, from sector 1 on. -/
def oneSector : Geometry := dosStart fun offset =>
  if offset = 13 then 1
  else if offset = 14 then 1
  else if offset = 16 then 2
  else if offset = 17 then 16
  else if offset = 22 then 1
  else 0

/-- Nothing cached, and in each sector the third entry the one that is not 0. -/
def linking (entry : Byte) : Vars where
  disk _ offset := if offset = 5 then entry else 0
  fatBuf _ := 0
  fatBufSec := 0xFFFF
  fatDirty := false
  allocHint := 2
  io := []
  written := []

theorem linking_coherent (entry : Byte) : (linking entry).Coherent oneSector :=
  fun _ some => absurd rfl some

theorem freeChain_safe_iff_linking :
    (linking 0).Coherent oneSector ∧ (Safe oneSector (linking 0) 2 ↔ Within oneSector (linking 0) 2) :=
  ⟨linking_coherent 0, freeChain_safe_iff oneSector (linking 0) 2 (linking_coherent 0)⟩

/-- Cluster 2 links to $100: what is taken for its sector of the FAT, and written back, is the
second FAT, and as the second FAT's the root directory. -/
theorem freeChain_overwrites : (linking 1).Coherent oneSector ∧ oneSector.rootLba = 3 ∧
    ((linking 1).freeChain oneSector 3 2).map (fun done => done.2.written.map Prod.fst) =
      some [3, 2, 2, 1] ∧ ¬Safe oneSector (linking 1) 2 := by
  refine ⟨linking_coherent 1, by decide, by decide, fun safe => ?_⟩
  obtain ⟨fuel, outcome, v', run, inside, -⟩ := safe []
  have linked : (linking 1).link oneSector 2 = 0x100 := by decide
  have followed : Followed Live ((linking 1).link oneSector) 2 0x100 := by
    have next := Followed.next (.here (f := (linking 1).link oneSector) (show Live 2 by decide))
      (linked.symm ▸ (show Live 0x100 by decide))
    rw [linked] at next
    exact next
  obtain ⟨w, member, bad⟩ := freeChain_astray rfl
    (.inr ⟨⟨linking_coherent 1, fun dirty => by cases dirty⟩, 0x100, followed, by decide⟩) run
  exact bad (inside w member)

end Pugputer.Dos

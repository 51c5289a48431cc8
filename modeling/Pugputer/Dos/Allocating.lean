import Pugputer.Dos.Chains

namespace Pugputer.Dos

/-! ALLOC_CLUSTER's search, from any FAT. -/

namespace Vars

/-- AC_LOOP, `none` if it is still going after `fuel` turns. -/
def acLoop (g : Geometry) (acStart : Word) : (fuel : Nat) → (acWrap : Bool) → (acClus : Word) →
    Vars → Option (Except Byte Word × Vars)
  | 0, _, _, _ => none
  | fuel + 1, acWrap, acClus, v =>
      -- the second lap stops where the first one started
      if acWrap ∧ acStart ≤ acClus then some (.error errNospace, v)
      else if acClus < g.maxClus then
        match v.loadFatEntry g acClus with
        | (.error a, v) => some (.error a, v)
        | (.ok x, v) =>
            if v.fatBuf.word x = 0 then
              some (.ok acClus, { v with
                fatBuf := Function.update (Function.update v.fatBuf x 0xFF) (x + 1) 0xFF
                fatDirty := true
                allocHint := acClus + 1 })
            else acLoop g acStart fuel acWrap (acClus + 1) v
      else if acWrap then some (.error errNospace, v)
      else acLoop g acStart fuel true 2 v

/-- ALLOC_CLUSTER, with its loop. -/
def acStarted (g : Geometry) (fuel : Nat) (v : Vars) : Option (Except Byte Word × Vars) :=
  let acStart := if v.allocHint < g.maxClus then v.allocHint else 2
  acLoop g acStart fuel false acStart v

end Vars

section

variable {g : Geometry} {v v' : Vars} {c : Word}

/-! The loop is the two laps. -/

/-- What a lap's outcome is for the whole search, `last` if the lap finds nothing. -/
def lapped (outcome : Except Byte (Option Word) × Vars)
    (last : Vars → Option (Except Byte Word × Vars)) : Option (Except Byte Word × Vars) :=
  match outcome with
  | (.error a, v) => some (.error a, v)
  | (.ok (some c), v) => some (.ok c, v)
  | (.ok none, v) => last v

theorem toNat_next (below : c < g.maxClus) : (c + 1).toNat = c.toNat + 1 := by
  have high := g.maxClus.isLt
  rw [BitVec.lt_def] at below
  rw [BitVec.toNat_add]
  change (_ + 1) % 65536 = _
  omega

theorem acLoop_second {acStart : Word} {fuel left : Nat} (enough : left < fuel)
    (laps : left = min acStart.toNat g.maxClus.toNat - c.toNat) :
    v.acLoop g acStart fuel true c =
      lapped (v.acLap g left c) fun v => some (.error errNospace, v) := by
  induction left generalizing v c fuel with
  | zero =>
      obtain ⟨fuel, rfl⟩ := Nat.exists_eq_succ_of_ne_zero (Nat.ne_of_gt enough)
      rw [Vars.acLoop, Vars.acLap]
      by_cases full : acStart ≤ c
      · rw [if_pos ⟨rfl, full⟩]
        rfl
      · have ended : ¬c < g.maxClus := by
          rw [BitVec.le_def] at full
          rw [BitVec.lt_def]
          omega
        rw [if_neg fun both => full both.2, if_neg ended, if_pos rfl]
        rfl
  | succ left ih =>
      obtain ⟨fuel, rfl⟩ := Nat.exists_eq_succ_of_ne_zero (Nat.ne_of_gt (Nat.zero_lt_of_lt enough))
      have goes : ¬acStart ≤ c := by
        rw [BitVec.le_def]
        omega
      have below : c < g.maxClus := by
        rw [BitVec.lt_def]
        omega
      have next := toNat_next below
      rw [Vars.acLoop, Vars.acLap, if_neg fun both => goes both.2, if_pos below]
      rcases v.loadFatEntry g c with ⟨outcome, v₁⟩
      cases outcome with
      | error a => rfl
      | ok x =>
          dsimp only
          split
          · rfl
          · exact ih (Nat.lt_of_succ_lt_succ enough) (by omega)

theorem acLoop_first {acStart : Word} {left : Nat} (more : Nat)
    (laps : left = g.maxClus.toNat - c.toNat) :
    v.acLoop g acStart (left + 1 + more) false c =
      lapped (v.acLap g left c) fun v => v.acLoop g acStart more true 2 := by
  induction left generalizing v c with
  | zero =>
      have ended : ¬c < g.maxClus := by
        rw [BitVec.lt_def]
        omega
      rw [Nat.zero_add, Nat.add_comm, Vars.acLoop, Vars.acLap, if_neg fun both => Bool.false_ne_true both.1,
        if_neg ended, if_neg Bool.false_ne_true]
      rfl
  | succ left ih =>
      have below : c < g.maxClus := by
        rw [BitVec.lt_def]
        omega
      have next := toNat_next below
      have fuel : left + 1 + 1 + more = (left + 1 + more) + 1 := Nat.add_right_comm _ _ _
      rw [fuel, Vars.acLoop, Vars.acLap, if_neg fun both => Bool.false_ne_true both.1, if_pos below]
      rcases v.loadFatEntry g c with ⟨outcome, v₁⟩
      cases outcome with
      | error a => rfl
      | ok x =>
          dsimp only
          split
          · rfl
          · exact ih (by omega)

/-- It ends, whatever becomes of the block calls. -/
theorem acStarted_eq {fuel : Nat} (enough : 2 * g.maxClus.toNat + 2 ≤ fuel) :
    v.acStarted g fuel = some (v.allocCluster g) := by
  rw [Vars.acStarted, Vars.allocCluster]
  generalize (if v.allocHint < g.maxClus then v.allocHint else 2) = acStart
  obtain ⟨more, rfl⟩ : ∃ more, fuel = (g.maxClus.toNat - acStart.toNat) + 1 + more :=
    Nat.exists_eq_add_of_le (by omega)
  have two : (2 : Word).toNat = 2 := rfl
  rw [acLoop_first more rfl]
  rcases v.acLap g (g.maxClus.toNat - acStart.toNat) acStart with ⟨outcome, v₁⟩
  rcases outcome with a | found
  · rfl
  cases found with
  | some c => rfl
  | none =>
      have second := @acLoop_second g v₁ 2 acStart more (min acStart.toNat g.maxClus.toNat - 2)
        (by omega) (by rw [two])
      rw [lapped, second]
      dsimp only
      rcases v₁.acLap g (min acStart.toNat g.maxClus.toNat - 2) 2 with ⟨outcome, v₂⟩
      rcases outcome with a | found
      · rfl
      cases found with
      | some c => rfl
      | none => rfl

/-! What any run of the routines on the FAT leaves. -/

/-- FATBUF is as the disk unless it is to be written, and the search starts at a cluster. -/
structure Search (g : Geometry) (v : Vars) : Prop where
  current : v.fatDirty = false → v.fatBufSec < g.secPerFat →
    v.fatBuf = v.disk (g.fatSec v.fatBufSec)
  hint : 2 ≤ v.allocHint

/-- No sector of a FAT is what FATBUFSEC is for an empty FATBUF. -/
theorem not_inside_empty : ¬(0xFFFF : Word) < g.secPerFat := by
  have most := g.secPerFat.isLt
  rw [BitVec.lt_def]
  change ¬65535 < _
  omega

namespace Search

theorem commit (search : Search g v) : Search g (v.fatCommit g).2 := by
  have hint := (fatCommit_hint (g := g) (v := v)).symm ▸ search.hint
  refine ⟨?_, hint⟩
  rw [Vars.fatCommit]
  split
  · rw [Vars.fcmWrite]
    dsimp only
    generalize outcome : Vars.blkWrite { v with fatDirty := false } (g.fatSec v.fatBufSec) = wrote
    obtain ⟨failed, v₁⟩ := wrote
    cases failed with
    | true => exact fun _ inside => absurd inside not_inside_empty
    | false =>
        have v₁Is := blkWrite_done (congrArg Prod.fst outcome)
        rw [outcome] at v₁Is
        dsimp only at v₁Is ⊢
        split
        · have written : v.fatBuf = Function.update v.disk (g.fatSec v.fatBufSec) v.fatBuf
              (g.fatSec v.fatBufSec) := by
            rw [Function.update_self]
          rw [v₁Is]
          exact fun _ _ => written
        · generalize outcome₂ : v₁.blkWrite (g.fatSec v.fatBufSec + g.secPerFat.setWidth 32) = wrote
          obtain ⟨failed, v₂⟩ := wrote
          cases failed with
          | true => exact fun _ inside => absurd inside not_inside_empty
          | false =>
              have v₂Is := blkWrite_done (congrArg Prod.fst outcome₂)
              rw [outcome₂, v₁Is] at v₂Is
              dsimp only at v₂Is ⊢
              rw [v₂Is]
              intro _ inside
              have apart : g.fatSec v.fatBufSec ≠ g.secondSec v.fatBufSec := fatSec_ne_second inside
              have written : v.fatBuf = Function.update
                  (Function.update v.disk (g.fatSec v.fatBufSec) v.fatBuf) (g.secondSec v.fatBufSec)
                  v.fatBuf (g.fatSec v.fatBufSec) := by
                rw [Function.update_of_ne apart, Function.update_self]
              exact written
  · exact search.current

theorem load (search : Search g v) (c : Word) : Search g (v.loadFatEntry g c).2 := by
  have hint := (load_hint (g := g) (v := v) c).symm ▸ search.hint
  have committed := search.commit
  refine ⟨?_, hint⟩
  rw [Vars.loadFatEntry]
  split
  · exact search.current
  · generalize v.fatCommit g = commit at committed ⊢
    obtain ⟨outcome, v₁⟩ := commit
    cases outcome with
    | error a => exact committed.current
    | ok _ =>
        dsimp only at committed ⊢
        rw [Vars.blkRead]
        cases v₁.io.headD .done with
        | failed left => exact fun _ inside => absurd inside not_inside_empty
        | done => exact fun _ _ => rfl

theorem setEntry (search : Search g v) (x : Nat) (value : Word) : Search g (v.setEntry x value) :=
  ⟨fun clean => absurd clean.symm Bool.false_ne_true, search.hint⟩

theorem nextCluster (search : Search g v) (d : Word) : Search g (v.nextCluster g d).2 := by
  have loaded := search.load d
  rw [Vars.nextCluster]
  generalize v.loadFatEntry g d = load at loaded ⊢
  obtain ⟨outcome, v₁⟩ := load
  cases outcome with
  | error a => exact loaded
  | ok x => exact loaded

theorem setFatEntry (search : Search g v) (d value : Word) : Search g (v.setFatEntry g d value).2 := by
  have loaded := search.load d
  rw [Vars.setFatEntry]
  generalize v.loadFatEntry g d = load at loaded ⊢
  obtain ⟨outcome, v₁⟩ := load
  cases outcome with
  | error a => exact loaded
  | ok x => exact loaded.setEntry x value

theorem acLap (search : Search g v) {left : Nat} (low : 2 ≤ c)
    (high : c.toNat + left ≤ g.maxClus.toNat) : Search g (v.acLap g left c).2 := by
  induction left generalizing v c with
  | zero => exact search
  | succ left ih =>
      have below : c < g.maxClus := by
        rw [BitVec.lt_def]
        omega
      have next := toNat_next below
      have low' : 2 ≤ c + 1 := by
        rw [BitVec.le_def] at low ⊢
        omega
      have loaded := search.load c
      rw [Vars.acLap]
      generalize v.loadFatEntry g c = load at loaded ⊢
      obtain ⟨outcome, v₁⟩ := load
      cases outcome with
      | error a => exact loaded
      | ok x =>
          dsimp only
          split
          · exact ⟨fun clean => absurd clean.symm Bool.false_ne_true, low'⟩
          · exact ih loaded low' (by omega)

theorem allocCluster (search : Search g v) : Search g (v.allocCluster g).2 := by
  have low : 2 ≤ if v.allocHint < g.maxClus then v.allocHint else 2 := by
    split
    · exact search.hint
    · exact BitVec.le_refl 2
  have high : (if v.allocHint < g.maxClus then v.allocHint else 2).toNat ≤ g.maxClus.toNat ∨
      g.maxClus.toNat - (if v.allocHint < g.maxClus then v.allocHint else 2).toNat = 0 := by
    omega
  rw [Vars.allocCluster]
  generalize (if v.allocHint < g.maxClus then v.allocHint else 2) = acStart at low high ⊢
  have two : (2 : Word).toNat = 2 := rfl
  have first : Search g (v.acLap g (g.maxClus.toNat - acStart.toNat) acStart).2 := by
    rcases high with inside | none
    · exact search.acLap low (by omega)
    · rw [none]
      exact search
  generalize v.acLap g (g.maxClus.toNat - acStart.toNat) acStart = lap at first ⊢
  obtain ⟨outcome, v₁⟩ := lap
  rcases outcome with a | found
  · exact first
  cases found with
  | some c => exact first
  | none =>
      dsimp only at first ⊢
      have second : Search g (v₁.acLap g (min acStart.toNat g.maxClus.toNat - 2) 2).2 := by
        by_cases empty : min acStart.toNat g.maxClus.toNat - 2 = 0
        · rw [empty]
          exact first
        · exact first.acLap (BitVec.le_refl 2) (by omega)
      generalize v₁.acLap g (min acStart.toNat g.maxClus.toNat - 2) 2 = lap at second ⊢
      obtain ⟨outcome, v₂⟩ := lap
      rcases outcome with a | found
      · exact second
      cases found with
      | some c => exact second
      | none => exact second

theorem freeChain (search : Search g v) {fuel : Nat} {outcome : Except Byte Unit}
    (ran : v.freeChain g fuel c = some (outcome, v')) : Search g v' := by
  induction fuel generalizing v c with
  | zero => cases ran
  | succ fuel ih =>
      by_cases live : Live c
      · have hinted : Search g (v.hint c) := by
          rw [Vars.hint]
          split
          · exact search
          · exact ⟨search.current, live.1⟩
        have loaded := hinted.load c
        rw [freeChain_live _ live] at ran
        generalize (v.hint c).loadFatEntry g c = load at loaded ran
        obtain ⟨result, v₁⟩ := load
        cases result with
        | error a =>
            obtain rfl := (Prod.mk.inj (Option.some.inj ran)).2
            exact loaded
        | ok x => exact ih (loaded.setEntry x 0) ran
      · rw [freeChain_dead live] at ran
        have same : (v.fatCommit g).2 = v' := congrArg Prod.snd (Option.some.inj ran)
        rw [← same]
        exact search.commit

end Search

/-! With no call that fails. -/

/-- The FAT's sectors on the disk after a commit: those that were there, and FATBUF. -/
theorem Search.commit_quiet (search : Search g v) (quiet : v.io = []) :
    ∃ v', v.fatCommit g = (.ok (), v') ∧ v'.io = [] ∧
      ∀ sec, sec < g.secPerFat → v'.disk (g.fatSec sec) = v.fatSector g sec := by
  obtain ⟨ok, still, -⟩ := fatCommit_quiet (g := g) quiet
  refine ⟨_, Prod.ext ok rfl, still, fun sec inside => ?_⟩
  have fromDisk : sec ≠ v.fatBufSec → v.fatSector g sec = v.disk (g.fatSec sec) := fun other => if_neg other
  by_cases dirty : v.fatDirty = true
  · by_cases cached : v.fatBufSec < g.secPerFat
    · have committed := (fcmWrite_spec cached).2
      rw [Vars.fatCommit, if_pos dirty] at ok ⊢
      exact (committed ok).disk sec inside
    · -- what is written is past the first FAT
      have other : sec ≠ v.fatBufSec := fun same => cached (same ▸ inside)
      have first : g.fatSec sec ≠ g.fatSec v.fatBufSec := fun same => other (fatSec_inj same)
      have second : g.fatSec sec ≠ g.secondSec v.fatBufSec := fatSec_ne_second inside
      rw [fromDisk other, Vars.fatCommit, if_pos dirty, Vars.fcmWrite]
      dsimp only [Vars.blkWrite]
      rw [quiet]
      dsimp only [List.headD_nil, List.tail_nil]
      split
      · exact Function.update_of_ne first _ _
      · exact (Function.update_of_ne second _ _).trans (Function.update_of_ne first _ _)
  · rw [Vars.fatCommit, if_neg dirty]
    by_cases here : sec = v.fatBufSec
    · have same := search.current (Bool.eq_false_of_not_eq_true dirty) (here ▸ inside)
      rw [Vars.fatSector, if_pos here, same, here]
    · exact (fromDisk here).symm

theorem Search.load_found (search : Search g v) (quiet : v.io = []) (inFat : InFat g c) :
    ∃ v', v.loadFatEntry g c = (.ok (Vars.lfeHave c), v') ∧ Loaded g v c v' ∧ v'.io = [] := by
  by_cases here : c >>> 8 = v.fatBufSec
  · have coherent : v.Coherent g := fun clean _ => search.current clean (here ▸ inFat)
    refine ⟨v, ?_, ⟨here.symm, rfl, coherent⟩, quiet⟩
    rw [Vars.loadFatEntry]
    exact if_pos here
  · obtain ⟨v₁, commit, still, disk⟩ := search.commit_quiet quiet
    refine ⟨{ v₁ with fatBuf := v₁.disk (g.fatSec (c >>> 8)), io := [], fatBufSec := c >>> 8 }, ?_,
      ⟨rfl, link_congr fun sec inside => ?_, fun _ _ => rfl⟩, rfl⟩
    · rw [Vars.loadFatEntry, commit]
      dsimp only
      rw [if_neg here, Vars.blkRead, still]
      rfl
    · rw [Vars.fatSector]
      dsimp only
      split
      · next same =>
          rw [← same]
          exact disk sec inside
      · exact disk sec inside

/-- A cluster that was free is at the end of a chain now, and no other entry has changed. -/
structure Claimed (g : Geometry) (v : Vars) (new : Word) (v' : Vars) : Prop where
  low : 2 ≤ new
  high : new < g.maxClus
  free : v.link g new = 0
  links : v'.link g = Function.update (v.link g) new 0xFFFF

/-- Nothing has changed in the FAT, and the search starts where it did. -/
structure Untouched (g : Geometry) (v v' : Vars) : Prop where
  links : v'.link g = v.link g
  hint : v'.allocHint = v.allocHint

theorem Claimed.of_links {v₁ : Vars} (claimed : Claimed g v₁ new v') (same : v₁.link g = v.link g) :
    Claimed g v new v' where
  low := claimed.low
  high := claimed.high
  free := by
    rw [← same]
    exact claimed.free
  links := by
    rw [← same]
    exact claimed.links

theorem Untouched.trans {v₁ : Vars} (first : Untouched g v v₁) (second : Untouched g v₁ v') :
    Untouched g v v' :=
  ⟨second.links.trans first.links, second.hint.trans first.hint⟩

/-- A lap finds the first free cluster there is. -/
theorem acLap_searches (inFat : ∀ c, c < g.maxClus → InFat g c) {left : Nat} (search : Search g v)
    (quiet : v.io = []) (low : 2 ≤ c) (high : c.toNat + left ≤ g.maxClus.toNat) :
    (∃ new v', v.acLap g left c = (.ok (some new), v') ∧ Claimed g v new v') ∨
      ∃ v', v.acLap g left c = (.ok none, v') ∧ Search g v' ∧ v'.io = [] ∧ Untouched g v v' ∧
        ∀ d, c ≤ d → d.toNat < c.toNat + left → v.link g d ≠ 0 := by
  induction left generalizing v c with
  | zero =>
      refine .inr ⟨v, rfl, search, quiet, ⟨rfl, rfl⟩, fun d least most => ?_⟩
      rw [BitVec.le_def] at least
      omega
  | succ left ih =>
      have below : c < g.maxClus := by
        rw [BitVec.lt_def]
        omega
      have next := toNat_next below
      have low' : 2 ≤ c + 1 := by
        rw [BitVec.le_def] at low ⊢
        omega
      have search' := search.load c
      have hint := load_hint (g := g) (v := v) c
      obtain ⟨v₁, load, loaded, still⟩ := search.load_found quiet (inFat c below)
      rw [load] at search' hint
      rw [Vars.acLap, load]
      dsimp only at search' hint ⊢
      rw [loaded.word (inFat c below)]
      by_cases free : v.link g c = 0
      · rw [if_pos free]
        exact .inl ⟨c, _, rfl, low, below, free, loaded.link_setEntry (inFat c below) 0xFFFF⟩
      · rw [if_neg free]
        rcases ih search' still low' (by omega) with
          ⟨new, v', ran, claimed⟩ | ⟨v', ran, search'', still', untouched, taken⟩
        · exact .inl ⟨new, v', ran, claimed.of_links loaded.links⟩
        · have before : Untouched g v v₁ := ⟨loaded.links, hint⟩
          refine .inr ⟨v', ran, search'', still', before.trans untouched, fun d least most => ?_⟩
          by_cases here : d = c
          · rw [here]
            exact free
          · rw [loaded.links] at taken
            refine taken d ?_ (by omega)
            have other : d.toNat ≠ c.toNat := fun same => here (BitVec.eq_of_toNat_eq same)
            rw [BitVec.le_def] at least ⊢
            omega

/-- By the two laps, one of which passes each cluster. -/
theorem allocCluster_searches (inFat : ∀ c, c < g.maxClus → InFat g c) (search : Search g v)
    (quiet : v.io = []) :
    (∃ new v', v.allocCluster g = (.ok new, v') ∧ Claimed g v new v') ∨
      ∃ v', v.allocCluster g = (.error errNospace, v') ∧ Untouched g v v' ∧
        ∀ d, 2 ≤ d → d < g.maxClus → v.link g d ≠ 0 := by
  have two : (2 : Word).toNat = 2 := rfl
  have start : 2 ≤ (if v.allocHint < g.maxClus then v.allocHint else 2) ∧
      ((if v.allocHint < g.maxClus then v.allocHint else 2) < g.maxClus ∨
        (if v.allocHint < g.maxClus then v.allocHint else 2) = 2) := by
    split
    · next inside => exact ⟨search.hint, .inl inside⟩
    · exact ⟨BitVec.le_refl 2, .inr rfl⟩
  rw [Vars.allocCluster]
  generalize (if v.allocHint < g.maxClus then v.allocHint else 2) = acStart at start ⊢
  obtain ⟨low, inside⟩ := start
  have small : g.maxClus.toNat ≤ acStart.toNat → acStart = 2 := by
    intro past
    refine inside.resolve_left fun less => ?_
    rw [BitVec.lt_def] at less
    omega
  -- a FAT of no clusters has no laps
  by_cases empty : g.maxClus.toNat ≤ 2
  · have none : g.maxClus.toNat - acStart.toNat = 0 ∧ min acStart.toNat g.maxClus.toNat - 2 = 0 := by
      rw [BitVec.le_def] at low
      omega
    rw [none.1, none.2]
    refine .inr ⟨v, rfl, ⟨rfl, rfl⟩, fun d least most => ?_⟩
    rw [BitVec.le_def] at least
    rw [BitVec.lt_def] at most
    omega
  · have below : acStart.toNat < g.maxClus.toNat := by
      refine Nat.lt_of_not_le fun past => ?_
      rw [small past] at past
      exact empty past
    rcases @acLap_searches _ _ _ inFat (g.maxClus.toNat - acStart.toNat) search quiet low
        (by omega) with ⟨new, v', ran, claimed⟩ | ⟨v₁, ran, search₁, still, untouched, taken⟩
    · rw [ran]
      exact .inl ⟨new, v', rfl, claimed⟩
    · rw [ran]
      dsimp only
      rw [BitVec.le_def] at low
      rcases @acLap_searches _ _ _ inFat (min acStart.toNat g.maxClus.toNat - 2) search₁ still
          (BitVec.le_refl 2) (by omega) with
        ⟨new, v', ran', claimed⟩ | ⟨v₂, ran', -, -, untouched', taken'⟩
      · rw [ran']
        exact .inl ⟨new, v', rfl, claimed.of_links untouched.links⟩
      · rw [ran']
        refine .inr ⟨v₂, rfl, untouched.trans untouched', fun d least most => ?_⟩
        rw [untouched.links] at taken'
        rw [BitVec.lt_def] at most
        by_cases first : acStart ≤ d
        · exact taken d first (by omega)
        · refine taken' d least ?_
          rw [BitVec.le_def] at first
          omega

/-! Runs. -/

/-- What DOS calls leave, one routine after another: from DOS_START on, with any FAT on the disk and
whatever becomes of the block calls. -/
inductive Reached (boot : Sector) : Vars → Prop
  | started {v : Vars} (empty : v.fatBufSec = 0xFFFF) (clean : v.fatDirty = false)
      (hint : v.allocHint = 2) : Reached boot v
  | nextCluster {v : Vars} (reached : Reached boot v) (d : Word) :
      Reached boot (v.nextCluster (dosStart boot) d).2
  | setFatEntry {v : Vars} (reached : Reached boot v) (d setval : Word) :
      Reached boot (v.setFatEntry (dosStart boot) d setval).2
  | allocCluster {v : Vars} (reached : Reached boot v) :
      Reached boot (v.allocCluster (dosStart boot)).2
  | freeChain {v v' : Vars} {c : Word} {fuel : Nat} {outcome : Except Byte Unit}
      (reached : Reached boot v) (ran : v.freeChain (dosStart boot) fuel c = some (outcome, v')) :
      Reached boot v'
  | fatCommit {v : Vars} (reached : Reached boot v) : Reached boot (v.fatCommit (dosStart boot)).2
  /-- The data and the directories are not in the FAT. -/
  | elsewhere {v : Vars} (reached : Reached boot v) (disk : Lba → Sector) (io : List Io)
      (written : List (Lba × Sector))
      (apart : ∀ sec, sec < (dosStart boot).secPerFat →
        disk ((dosStart boot).fatSec sec) = v.disk ((dosStart boot).fatSec sec)) :
      Reached boot { v with disk, io, written }

theorem Reached.search {boot : Sector} (reached : Reached boot v) : Search (dosStart boot) v := by
  induction reached with
  | started empty clean hint =>
      refine ⟨fun _ inside => ?_, ?_⟩
      · rw [empty] at inside
        exact absurd inside not_inside_empty
      · rw [hint]
        exact BitVec.le_refl 2
  | nextCluster reached d ih => exact ih.nextCluster d
  | setFatEntry reached d setval ih => exact ih.setFatEntry d setval
  | allocCluster reached ih => exact ih.allocCluster
  | freeChain reached ran ih => exact ih.freeChain ran
  | fatCommit reached ih => exact ih.commit
  | elsewhere reached disk io written apart ih =>
      exact ⟨fun clean inside => (ih.current clean inside).trans (apart _ inside).symm, ih.hint⟩

/-- It ends; and with no block call that fails it claims a free cluster if there is one. -/
theorem clusters_found {boot : Sector} (reached : Reached boot v) {fuel : Nat}
    (enough : 2 * (dosStart boot).maxClus.toNat + 2 ≤ fuel) :
    ∃ outcome v', v.acStarted (dosStart boot) fuel = some (outcome, v') ∧ (v.io = [] →
      ((∃ c, 2 ≤ c ∧ c < (dosStart boot).maxClus ∧ v.link (dosStart boot) c = 0) →
        ∃ new, outcome = .ok new ∧ Claimed (dosStart boot) v new v') ∧
      ((¬∃ c, 2 ≤ c ∧ c < (dosStart boot).maxClus ∧ v.link (dosStart boot) c = 0) →
        outcome = .error errNospace ∧ Untouched (dosStart boot) v v')) := by
  refine ⟨(v.allocCluster (dosStart boot)).1, (v.allocCluster (dosStart boot)).2,
    acStarted_eq enough, fun quiet => ?_⟩
  rcases allocCluster_searches (dosStart_maxClus boot).2 reached.search quiet with
    ⟨new, v', ran, claimed⟩ | ⟨v', ran, untouched, taken⟩
  · rw [ran]
    refine ⟨fun _ => ⟨new, rfl, claimed⟩, fun none => ?_⟩
    exact absurd ⟨new, claimed.low, claimed.high, claimed.free⟩ none
  · rw [ran]
    refine ⟨?_, fun _ => ⟨rfl, untouched⟩⟩
    rintro ⟨c, low, high, free⟩
    exact absurd free (taken c low high)

end

/-- One FAT of two sectors, for 508 clusters of a sector. -/
def wideBoot : Sector := fun offset =>
  if offset = 13 then 1
  else if offset = 14 then 1
  else if offset = 16 then 1
  else if offset = 17 then 16
  else if offset = 20 then 2
  else if offset = 22 then 2
  else 0

/-- Every cluster is free. -/
def allFree : Vars where
  disk _ _ := 0
  fatBuf _ := 0
  fatBufSec := 0xFFFF
  fatDirty := false
  allocHint := 2
  io := []
  written := []

theorem clusters_found_allFree : ∃ new v', allFree.acStarted (dosStart wideBoot) 1022 = some (.ok new, v') ∧
    Claimed (dosStart wideBoot) allFree new v' := by
  obtain ⟨outcome, v', ran, found⟩ :=
    @clusters_found allFree wideBoot (.started rfl rfl rfl) 1022 (by decide)
  obtain ⟨new, rfl, claimed⟩ := (found rfl).1 ⟨2, by decide, by decide, by decide⟩
  exact ⟨new, v', ran, claimed⟩

/-- A cluster has been claimed and linked to $100, whose sector of the FAT is still to be written;
the write is going to fail. -/
def unwritable : Vars :=
  { ((allFree.allocCluster (dosStart wideBoot)).2.setFatEntry (dosStart wideBoot) 0x100 2).2 with
    io := [.failed fun _ => 0] }

/-- Cluster 3 is free, and the one block call, a write, fails. -/
theorem unwritable_not_found :
    Reached wideBoot unwritable ∧ 3 < (dosStart wideBoot).maxClus ∧
      unwritable.link (dosStart wideBoot) 3 = 0 ∧
      (unwritable.acStarted (dosStart wideBoot) 1022).map Prod.fst = some (.error errIoerr) ∧
      (unwritable.acStarted (dosStart wideBoot) 1022).map (fun done =>
        (done.2.io.length, done.2.written.length)) = some (0, unwritable.written.length + 1) := by
  have reached : Reached wideBoot unwritable := by
    refine .elsewhere (.setFatEntry (.allocCluster (.started (v := allFree) rfl rfl rfl)) 0x100 2)
      _ _ _ fun _ _ => rfl
  refine ⟨reached, by decide, by decide, ?_, ?_⟩
  · rw [acStarted_eq (by decide)]
    decide
  · rw [acStarted_eq (by decide)]
    decide

end Pugputer.Dos

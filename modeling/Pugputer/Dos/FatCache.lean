import Mathlib.Logic.Function.Basic
import Pugputer.Dos.Geometry

namespace Pugputer.Dos

/-! The sector of the FAT that is cached, and what is written of it. -/

def errIoerr : Byte := 0x04#8

/-- What becomes of a block call: one that fails leaves anything in the buffer, or in the
sector. -/
inductive Io
  | done
  | failed (left : Sector)

structure Vars where
  disk : Lba → Sector
  fatBuf : Sector
  fatBufSec : Word
  fatDirty : Bool
  allocHint : Word
  /-- What becomes of the block calls to come; those after them are done. -/
  io : List Io
  /-- The sectors that have been written, the last one first. -/
  written : List (Lba × Sector)

namespace Geometry

variable (g : Geometry)

/-- A sector of the FAT, in its first copy. -/
def fatSec (sec : Word) : Lba := g.fatLba.setWidth 32 + sec.setWidth 32

/-- The same sector in the second one. -/
def secondSec (sec : Word) : Lba := g.fatSec sec + g.secPerFat.setWidth 32

end Geometry

namespace Vars

/-- BLKREAD into FATBUF; whether the carry is set. -/
def blkRead (v : Vars) (lba : Lba) : Bool × Vars :=
  match v.io.headD .done with
  | .done => (false, { v with fatBuf := v.disk lba, io := v.io.tail })
  | .failed left => (true, { v with fatBuf := left, io := v.io.tail })

/-- BLKWRITE of FATBUF. -/
def blkWrite (v : Vars) (lba : Lba) : Bool × Vars :=
  let written := (lba, v.fatBuf) :: v.written
  match v.io.headD .done with
  | .done => (false, { v with
      disk := Function.update v.disk lba v.fatBuf, io := v.io.tail, written := written })
  | .failed left => (true, { v with
      disk := Function.update v.disk lba left, io := v.io.tail, written := written })

def wfErr (v : Vars) : Except Byte Unit × Vars := (.error errIoerr, { v with fatBufSec := 0xFFFF })

/-- FCM_WRITE. -/
def fcmWrite (g : Geometry) (v : Vars) : Except Byte Unit × Vars :=
  let v := { v with fatDirty := false }
  let wfLba := g.fatSec v.fatBufSec
  match v.blkWrite wfLba with
  | (true, v) => v.wfErr
  | (false, v) =>
      if g.numFats < 2 then (.ok (), v)
      else
        match v.blkWrite (wfLba + g.secPerFat.setWidth 32) with
        | (true, v) => v.wfErr
        | (false, v) => (.ok (), v)

def fatCommit (g : Geometry) (v : Vars) : Except Byte Unit × Vars :=
  if v.fatDirty then v.fcmWrite g else (.ok (), v)

/-- From LFE_HAVE on: the entry's offset in FATBUF. -/
def lfeHave (d : Word) : Nat := (loByte d).toNat * 2

def loadFatEntry (g : Geometry) (v : Vars) (d : Word) : Except Byte Nat × Vars :=
  let lfeSec := d >>> 8
  if lfeSec = v.fatBufSec then (.ok (lfeHave d), v)
  else
    match v.fatCommit g with
    | (.error a, v) => (.error a, v)
    | (.ok _, v) =>
        match v.blkRead (g.fatSec lfeSec) with
        | (true, v) => (.error errIoerr, { v with fatBufSec := 0xFFFF })
        | (false, v) => (.ok (lfeHave d), { v with fatBufSec := lfeSec })

/-- STD ,X of zero, and WRITE_FAT. -/
def freeEntry (v : Vars) (x : Nat) : Vars :=
  { v with
    fatBuf := Function.update (Function.update v.fatBuf x 0) (x + 1) 0
    fatDirty := true }

/-- FC_LOOP, `none` if it is still going after `fuel` turns. -/
def freeChain (g : Geometry) : (fuel : Nat) → Vars → (fcClus : Word) →
    Option (Except Byte Unit × Vars)
  | 0, _, _ => none
  | fuel + 1, v, fcClus =>
      if 0xFFF8 ≤ fcClus then some (v.fatCommit g)
      else if fcClus < 2 then some (v.fatCommit g)
      else
        let v := if v.allocHint ≤ fcClus then v else { v with allocHint := fcClus }
        match v.loadFatEntry g fcClus with
        | (.error a, v) => some (.error a, v)
        | (.ok x, v) => freeChain g fuel (v.freeEntry x) (v.fatBuf.word x)

end Vars

/-! The FAT as it is read. -/

/-- The cluster's entry is in the FAT. -/
def InFat (g : Geometry) (c : Word) : Prop := c >>> 8 < g.secPerFat

instance (g : Geometry) (c : Word) : Decidable (InFat g c) := inferInstanceAs (Decidable (_ < _))

namespace Vars

def fatSector (g : Geometry) (v : Vars) (sec : Word) : Sector :=
  if sec = v.fatBufSec then v.fatBuf else v.disk (g.fatSec sec)

/-- A cluster's link, 0 if the FAT has none for it. -/
def link (g : Geometry) (v : Vars) (c : Word) : Word :=
  if InFat g c then (v.fatSector g (c >>> 8)).word (lfeHave c) else 0

/-- What is in FATBUF is what is on the disk, if it has not been changed since. -/
def Coherent (g : Geometry) (v : Vars) : Prop :=
  v.fatDirty = false → v.fatBufSec ≠ 0xFFFF → v.fatBuf = v.disk (g.fatSec v.fatBufSec)

/-- Changes wait for a sector of the FAT. -/
def Cached (g : Geometry) (v : Vars) : Prop := v.fatDirty = true → v.fatBufSec < g.secPerFat

end Vars

variable {g : Geometry} {v v' : Vars} {sec sec' : Word}

theorem toNat_fatSec (g : Geometry) (sec : Word) :
    (g.fatSec sec).toNat = g.fatLba.toNat + sec.toNat := by
  have base := g.fatLba.isLt
  have offset := sec.isLt
  rw [Geometry.fatSec, BitVec.toNat_add, BitVec.toNat_setWidth, BitVec.toNat_setWidth]
  omega

theorem toNat_secondSec (g : Geometry) (sec : Word) :
    (g.secondSec sec).toNat = g.fatLba.toNat + sec.toNat + g.secPerFat.toNat := by
  have base := g.fatLba.isLt
  have offset := sec.isLt
  have size := g.secPerFat.isLt
  rw [Geometry.secondSec, BitVec.toNat_add, BitVec.toNat_setWidth, toNat_fatSec]
  omega

theorem fatSec_inj (same : g.fatSec sec = g.fatSec sec') : sec = sec' := by
  have value := congrArg BitVec.toNat same
  rw [toNat_fatSec, toNat_fatSec] at value
  exact BitVec.eq_of_toNat_eq (by omega)

/-- The second copy's sectors are past the first's. -/
theorem fatSec_ne_second (inside : sec < g.secPerFat) : g.fatSec sec ≠ g.secondSec sec' := by
  intro same
  have value := congrArg BitVec.toNat same
  rw [toNat_fatSec, toNat_secondSec] at value
  rw [BitVec.lt_def] at inside
  omega

/-- A write of a sector of the FAT that holds the links `f`, but for some that are 0 now. -/
def Good (g : Geometry) (f : Word → Word) (freed : Word → Prop) (w : Lba × Sector) : Prop :=
  ∃ sec, sec < g.secPerFat ∧ (w.1 = g.fatSec sec ∨ ¬g.numFats < 2 ∧ w.1 = g.secondSec sec) ∧
    ∀ c : Word, c >>> 8 = sec →
      w.2.word (Vars.lfeHave c) = f c ∨ w.2.word (Vars.lfeHave c) = 0 ∧ freed c

/-- From one state to another only such writes are made. -/
structure Wrote (g : Geometry) (f : Word → Word) (freed : Word → Prop) (v v' : Vars) : Prop where
  more : ∀ w ∈ v.written, w ∈ v'.written
  good : ∀ w ∈ v'.written, w ∈ v.written ∨ Good g f freed w
  kept : ∀ lba, (∀ w ∈ v'.written, w.1 ≠ lba) → v'.disk lba = v.disk lba

namespace Wrote

variable {f : Word → Word} {freed freed' : Word → Prop} {v'' : Vars}

theorem none (disk : v'.disk = v.disk) (written : v'.written = v.written) :
    Wrote g f freed v v' :=
  ⟨fun _ member => written ▸ member, fun _ member => .inl (written ▸ member),
    fun _ _ => congrFun disk _⟩

theorem trans (first : Wrote g f freed v v') (second : Wrote g f freed v' v'') :
    Wrote g f freed v v'' := by
  refine ⟨fun w member => second.more w (first.more w member), fun w member => ?_,
    fun lba apart => ?_⟩
  · rcases second.good w member with before | good
    · exact first.good w before
    · exact .inr good
  · rw [second.kept lba apart, first.kept lba fun w member => apart w (second.more w member)]

theorem weaken {f' : Word → Word} (wrote : Wrote g f' freed v v')
    (links : ∀ c x, x = f' c ∨ x = 0 ∧ freed c → x = f c ∨ x = 0 ∧ freed' c) :
    Wrote g f freed' v v' := by
  refine ⟨wrote.more, fun w member => (wrote.good w member).imp_right ?_, wrote.kept⟩
  rintro ⟨sec, inside, place, data⟩
  exact ⟨sec, inside, place, fun c here => links c _ (data c here)⟩

end Wrote

/-! FATBUF is written. -/

/-- FATBUF holds a sector of the FAT. -/
theorem fatBuf_good {lba : Lba} (inside : v.fatBufSec < g.secPerFat)
    (place : lba = g.fatSec v.fatBufSec ∨ ¬g.numFats < 2 ∧ lba = g.secondSec v.fatBufSec) :
    Good g (v.link g) (fun _ => False) (lba, v.fatBuf) := by
  refine ⟨v.fatBufSec, inside, place, fun c here => .inl ?_⟩
  have inFat : InFat g c := by
    rw [InFat, here]
    exact inside
  rw [Vars.link, if_pos inFat, Vars.fatSector, if_pos here]

theorem blkWrite_wrote {f : Word → Word} {freed : Word → Prop} {lba : Lba}
    (good : Good g f freed (lba, v.fatBuf)) : Wrote g f freed v (v.blkWrite lba).2 := by
  have log : (v.blkWrite lba).2.written = (lba, v.fatBuf) :: v.written := by
    rw [Vars.blkWrite]
    split
    · rfl
    · rfl
  have disk : ∃ left, (v.blkWrite lba).2.disk = Function.update v.disk lba left := by
    rw [Vars.blkWrite]
    split
    · exact ⟨_, rfl⟩
    · exact ⟨_, rfl⟩
  refine ⟨fun w member => ?_, fun w member => ?_, fun lba' apart => ?_⟩
  · rw [log]
    exact List.mem_cons_of_mem _ member
  · rw [log] at member
    rcases List.mem_cons.mp member with rfl | before
    · exact .inr good
    · exact .inl before
  · obtain ⟨left, disk⟩ := disk
    rw [log] at apart
    rw [disk, Function.update_of_ne (apart _ List.mem_cons_self).symm]

/-- A write that is done. -/
theorem blkWrite_done {lba : Lba} (done : (v.blkWrite lba).1 = false) :
    (v.blkWrite lba).2 = { v with
      disk := Function.update v.disk lba v.fatBuf
      io := v.io.tail
      written := (lba, v.fatBuf) :: v.written } := by
  rw [Vars.blkWrite] at done ⊢
  split at done
  · rfl
  · cases done

/-- What a commit leaves that succeeds. -/
structure Committed (g : Geometry) (v v' : Vars) : Prop where
  fatDirty : v'.fatDirty = false
  fatBuf : v'.fatBuf = v.fatBuf
  fatBufSec : v'.fatBufSec = v.fatBufSec
  disk : ∀ sec, sec < g.secPerFat → v'.disk (g.fatSec sec) = v.fatSector g sec

theorem fcmWrite_spec (inside : v.fatBufSec < g.secPerFat) :
    Wrote g (v.link g) (fun _ => False) v (v.fcmWrite g).2 ∧
      ((v.fcmWrite g).1 = .ok () → Committed g v (v.fcmWrite g).2) := by
  have good : Good g (v.link g) (fun _ => False) (g.fatSec v.fatBufSec, v.fatBuf) :=
    fatBuf_good inside (.inl rfl)
  have begun : Wrote g (v.link g) (fun _ => False) v { v with fatDirty := false } := .none rfl rfl
  have first : Wrote g (v.link g) (fun _ => False) v
      (Vars.blkWrite { v with fatDirty := false } (g.fatSec v.fatBufSec)).2 :=
    begun.trans (blkWrite_wrote good)
  have one {sec : Word} : Function.update v.disk (g.fatSec v.fatBufSec) v.fatBuf (g.fatSec sec) =
      v.fatSector g sec := by
    rw [Vars.fatSector]
    split
    · next same => rw [same, Function.update_self]
    · next other => exact Function.update_of_ne (fun same => other (fatSec_inj same)) _ _
  rw [Vars.fcmWrite]
  dsimp only
  generalize outcome : Vars.blkWrite { v with fatDirty := false } (g.fatSec v.fatBufSec) = wrote
    at first ⊢
  obtain ⟨failed, v₁⟩ := wrote
  cases failed with
  | true => exact ⟨first.trans (.none rfl rfl), fun ok => by cases ok⟩
  | false =>
      dsimp only
      have v₁Is := blkWrite_done (congrArg Prod.fst outcome)
      rw [outcome] at v₁Is
      dsimp only at v₁Is first
      split
      · rw [v₁Is]
        exact ⟨v₁Is ▸ first, fun _ => ⟨rfl, rfl, rfl, fun sec _ => one⟩⟩
      · next two =>
          have second : Wrote g (v.link g) (fun _ => False) v₁ (v₁.blkWrite
              (g.fatSec v.fatBufSec + g.secPerFat.setWidth 32)).2 := by
            refine blkWrite_wrote ?_
            rw [v₁Is]
            exact fatBuf_good inside (.inr ⟨two, rfl⟩)
          generalize outcome₂ : v₁.blkWrite (g.fatSec v.fatBufSec + g.secPerFat.setWidth 32) = wrote
            at second ⊢
          obtain ⟨failed, v₂⟩ := wrote
          cases failed with
          | true => exact ⟨(first.trans second).trans (.none rfl rfl), fun ok => by cases ok⟩
          | false =>
              have v₂Is := blkWrite_done (congrArg Prod.fst outcome₂)
              rw [outcome₂, v₁Is] at v₂Is
              dsimp only at v₂Is second ⊢
              refine ⟨first.trans second, fun _ => ?_⟩
              rw [v₂Is]
              refine ⟨rfl, rfl, rfl, fun sec inFat => ?_⟩
              exact (Function.update_of_ne (fatSec_ne_second inFat) _ _).trans one

end Pugputer.Dos

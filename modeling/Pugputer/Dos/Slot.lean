import Pugputer.Dos.FatCache

namespace Pugputer.Dos

/-! An open file's slot, and the sector of the file in its buffer. -/

def errNospace : Byte := 0x06#8
def errEof : Byte := 0x09#8
def errBadmode : Byte := 0x0B#8
def errToobig : Byte := 0x10#8

namespace Vars

/-- NEXT_CLUSTER; `none` is the carry. -/
def nextCluster (g : Geometry) (v : Vars) (d : Word) : Option Word × Vars :=
  match v.loadFatEntry g d with
  | (.error _, v) => (none, v)
  | (.ok x, v) => (some (v.fatBuf.word x), v)

def setFatEntry (g : Geometry) (v : Vars) (d setval : Word) : Except Byte Unit × Vars :=
  match v.loadFatEntry g d with
  | (.error a, v) => (.error a, v)
  | (.ok x, v) => (.ok (), { v with
      fatBuf := Function.update (Function.update v.fatBuf x (loByte setval)) (x + 1) (hiByte setval)
      fatDirty := true })

/-- AC_LOOP over one lap; `left` is how far ACCLUS is from the lap's end. -/
def acLap (g : Geometry) : (left : Nat) → (acClus : Word) → Vars → Except Byte (Option Word) × Vars
  | 0, _, v => (.ok none, v)
  | left + 1, acClus, v =>
      match v.loadFatEntry g acClus with
      | (.error a, v) => (.error a, v)
      | (.ok x, v) =>
          if v.fatBuf.word x = 0 then
            (.ok (some acClus), { v with
              fatBuf := Function.update (Function.update v.fatBuf x 0xFF) (x + 1) 0xFF
              fatDirty := true
              allocHint := acClus + 1 })
          else acLap g left (acClus + 1) v

/-- The lap to the end of the FAT, and the one back up to ACSTART. -/
def allocCluster (g : Geometry) (v : Vars) : Except Byte Word × Vars :=
  let acStart := if v.allocHint < g.maxClus then v.allocHint else 2
  match acLap g (g.maxClus.toNat - acStart.toNat) acStart v with
  | (.error a, v) => (.error a, v)
  | (.ok (some c), v) => (.ok c, v)
  | (.ok none, v) =>
      match acLap g (min acStart.toNat g.maxClus.toNat - 2) 2 v with
      | (.error a, v) => (.error a, v)
      | (.ok (some c), v) => (.ok c, v)
      | (.ok none, v) => (.error errNospace, v)

end Vars

structure Slot where
  inuse : Bool
  mode : Byte
  startclus : Word
  size : BitVec 32
  pos : BitVec 32
  bufsec : BitVec 24
  dirty : Bool
  cacheidx : Word
  cacheclus : Word
  /-- The bytes at `bufptr`. -/
  buf : Sector

/-- What the file calls work on: DOS's variables, and the slot CUR_SLOT. -/
structure Open where
  vars : Vars
  slot : Slot

/-- A routine that returns with the carry set and a code in A, or does not. -/
abbrev FileM := ExceptT Byte (StateM Open)

def getSlot : FileM Slot := fun s => (.ok s.slot, s)

def modifySlot (change : Slot → Slot) : FileM Unit :=
  fun s => (.ok (), { s with slot := change s.slot })

/-- A routine on DOS's variables alone. -/
def onVars {α : Type} (routine : Vars → Except Byte α × Vars) : FileM α := fun s =>
  let (result, vars) := routine s.vars
  (result, { s with vars })

/-- BLKREAD into the slot's buffer; whether the carry is set. -/
def slotRead (lba : Lba) : FileM Bool := fun s =>
  let vars := { s.vars with io := s.vars.io.tail }
  match s.vars.io.headD .done with
  | .done => (.ok false, ⟨vars, { s.slot with buf := s.vars.disk lba }⟩)
  | .failed left => (.ok true, ⟨vars, { s.slot with buf := left }⟩)

/-- BLKWRITE of the slot's buffer. -/
def slotWrite (lba : Lba) : FileM Bool := fun s =>
  let written := (lba, s.slot.buf) :: s.vars.written
  let io := s.vars.io.tail
  match s.vars.io.headD .done with
  | .done => (.ok false, { s with
      vars := { s.vars with disk := Function.update s.vars.disk lba s.slot.buf, io, written } })
  | .failed left => (.ok true, { s with
      vars := { s.vars with disk := Function.update s.vars.disk lba left, io, written } })

/-- SHR9: the upper three bytes, shifted once. -/
def shr9 (value : BitVec 32) : BitVec 24 := value.extractLsb' 8 24 >>> 1

/-- Where in its sector a position falls. -/
def sectorOffset (value : BitVec 32) : Word := value.setWidth 16 &&& 0x01FF

/-- LS_WALK; `left` is how far LOC_J is from LOC_K. -/
def lsWalk (g : Geometry) (ext : Bool) (k sic : Word) : (left : Nat) → (c : Word) → FileM Lba
  | 0, c => do
      modifySlot fun slot => { slot with cacheidx := k, cacheclus := c }
      return g.clusSicToLba c sic
  | left + 1, c => do
      match ← onVars fun v => let (next, v) := v.nextCluster g c; (.ok next, v) with
      | none => throw errIoerr
      | some d =>
          if d < 0xFFF8 then lsWalk g ext k sic left d
          else if ext then do
            let new ← onVars fun v => v.allocCluster g
            onVars fun v => v.setFatEntry g c new
            lsWalk g ext k sic left new
          else throw errIoerr

def locateSector (g : Geometry) (ext : Bool) (n : BitVec 24) : FileM Lba := do
  let k3 := n >>> g.spcShift
  let k : Word := k3.setWidth 16
  let sic : Word := (n.setWidth 8 &&& g.spcMask).setWidth 16
  if k3.extractLsb' 16 8 ≠ 0 then throw errToobig
  else
    let slot ← getSlot
    if slot.cacheclus ≠ 0 ∧ slot.cacheidx ≤ k then
      lsWalk g ext k sic (k.toNat - slot.cacheidx.toNat) slot.cacheclus
    else if slot.startclus ≠ 0 then lsWalk g ext k sic k.toNat slot.startclus
    else if ext then do
      let startclus ← onVars fun v => v.allocCluster g
      modifySlot fun slot => { slot with startclus }
      lsWalk g ext k sic k.toNat startclus
    else throw errIoerr

def flushSlot (g : Geometry) : FileM Unit := do
  let slot ← getSlot
  if slot.dirty then do
    let lba ← locateSector g false slot.bufsec
    if ← slotWrite lba then throw errIoerr
    else modifySlot fun slot => { slot with dirty := false }
  else return ()

/-- Zeros from an offset on. -/
def Slot.zeroFrom (offset : Nat) (slot : Slot) : Slot :=
  { slot with buf := fun i => if offset ≤ i ∧ i < 512 then 0 else slot.buf i }

def zeroSlotbuf : FileM Unit := modifySlot (Slot.zeroFrom 0)

def zeroTail (n : BitVec 24) : FileM Unit := do
  let slot ← getSlot
  let ofs := sectorOffset slot.size
  if shr9 slot.size = n ∧ ofs ≠ 0 then modifySlot (Slot.zeroFrom ofs.toNat) else return ()

/-- The first byte of `bufsec` marks the buffer as no good. -/
def selIoerr : FileM Unit := do
  modifySlot fun slot => { slot with bufsec := 0xFF#8 ++ slot.bufsec.setWidth 16 }
  throw errIoerr

/-- A sector of the file is loaded into the buffer. -/
def loadSector (g : Geometry) (n : BitVec 24) : FileM Unit := do
  let lba ← locateSector g false n
  if ← slotRead lba then selIoerr
  else do
    modifySlot fun slot => { slot with bufsec := n }
    zeroTail n

def selRead (g : Geometry) (n : BitVec 24) : FileM Unit := do
  let slot ← getSlot
  if slot.bufsec = n then return ()
  else do
    flushSlot g
    loadSector g n

/-- SEW_GAP; `left` is how far SEW_S is from SEL_N. -/
def sewGap (g : Geometry) : (left : Nat) → BitVec 24 → FileM Unit
  | 0, _ => return ()
  | left + 1, s => do
      let lba ← locateSector g true s
      if ← slotWrite lba then selIoerr else sewGap g left (s + 1)

/-- SEW_AS: how many sectors hold data. -/
def dataSectors (size : BitVec 32) : BitVec 24 :=
  if sectorOffset size = 0 then shr9 size else shr9 size + 1

def selWrite (g : Geometry) (n : BitVec 24) : FileM Unit := do
  let slot ← getSlot
  if slot.bufsec = n then return ()
  else do
    flushSlot g
    let as := dataSectors (← getSlot).size
    if n < as then loadSector g n
    else do
      modifySlot fun slot => { slot with bufsec := 0xFF#8 ++ slot.bufsec.setWidth 16 }
      zeroSlotbuf
      sewGap g (n.toNat - as.toNat) as
      let _ ← locateSector g true n
      modifySlot fun slot => { slot with bufsec := n }

/-! What the sector routines leave alone. -/

section

variable {α β : Type} {act : FileM α} {next : α → FileM β} {s s' : Open}

theorem bind_ok {x : α} (ran : act s = (.ok x, s')) : (act >>= next) s = next x s' := by
  change (match act s with | (result, s') => ExceptT.bindCont next result s') = _
  rw [ran]
  rfl

theorem bind_error {a : Byte} (ran : act s = (.error a, s')) :
    (act >>= next) s = (.error a, s') := by
  change (match act s with | (result, s') => ExceptT.bindCont next result s') = _
  rw [ran]
  rfl

/-- What the sector routines leave of a slot. -/
structure SameFile (slot slot' : Slot) : Prop where
  inuse : slot'.inuse = slot.inuse
  mode : slot'.mode = slot.mode
  size : slot'.size = slot.size
  pos : slot'.pos = slot.pos

/-- A routine that keeps so much, and whose codes are not that of the end of the file. -/
structure Keeps (act : FileM α) : Prop where
  kept : ∀ s, SameFile s.slot (act s).2.slot
  code : ∀ s a, (act s).1 = .error a → a ≠ errEof

theorem SameFile.refl (slot : Slot) : SameFile slot slot := ⟨rfl, rfl, rfl, rfl⟩

theorem SameFile.trans {slot slot' slot'' : Slot} (first : SameFile slot slot')
    (second : SameFile slot' slot'') : SameFile slot slot'' :=
  ⟨second.inuse.trans first.inuse, second.mode.trans first.mode, second.size.trans first.size,
    second.pos.trans first.pos⟩

namespace Keeps

theorem ran {result : Except Byte α} (keeps : Keeps act) (ran : act s = (result, s')) :
    SameFile s.slot s'.slot := by
  have kept := keeps.kept s
  rwa [ran] at kept

theorem failed {a : Byte} (keeps : Keeps act) (ran : act s = (.error a, s')) : a ≠ errEof :=
  keeps.code s a (by rw [ran])

theorem bind (first : Keeps act) (rest : ∀ x, Keeps (next x)) : Keeps (act >>= next) := by
  refine ⟨fun s => ?_, fun s a failed => ?_⟩
  · rcases ran : act s with ⟨a | x, s'⟩
    · rw [bind_error ran]
      exact first.ran ran
    · rw [bind_ok ran]
      exact (first.ran ran).trans ((rest x).kept s')
  · rcases ran : act s with ⟨b | x, s'⟩
    · rw [bind_error ran] at failed
      cases failed
      exact first.failed ran
    · rw [bind_ok ran] at failed
      exact (rest x).code s' a failed

theorem ite {condition : Prop} [Decidable condition] {yes no : FileM α} (first : Keeps yes)
    (second : Keeps no) : Keeps (if condition then yes else no) := by
  split
  · exact first
  · exact second

theorem of_ok (ran : ∀ s, ∃ x s', act s = (.ok x, s') ∧ SameFile s.slot s'.slot) : Keeps act := by
  refine ⟨fun s => ?_, fun s a failed => ?_⟩
  all_goals obtain ⟨x, s', ran, kept⟩ := ran s
  · rw [ran]
    exact kept
  · rw [ran] at failed
    cases failed

theorem pure (x : α) : Keeps (Pure.pure x : FileM α) := .of_ok fun s => ⟨x, s, rfl, .refl _⟩

theorem throw {a : Byte} (other : a ≠ errEof) : Keeps (throw a : FileM α) :=
  ⟨fun s => .refl s.slot, fun _ _ failed => Except.error.inj failed ▸ other⟩

theorem getSlot : Keeps Dos.getSlot := .of_ok fun s => ⟨_, s, rfl, .refl _⟩

theorem modifySlot {change : Slot → Slot} (kept : ∀ slot, SameFile slot (change slot)) :
    Keeps (Dos.modifySlot change) := .of_ok fun s => ⟨_, _, rfl, kept s.slot⟩

theorem onVars {routine : Vars → Except Byte α × Vars}
    (code : ∀ v a, (routine v).1 = .error a → a ≠ errEof) : Keeps (Dos.onVars routine) :=
  ⟨fun s => .refl s.slot, fun s a failed => code s.vars a failed⟩

theorem slotRead (lba : Lba) : Keeps (Dos.slotRead lba) := by
  refine .of_ok fun s => ?_
  rw [Dos.slotRead]
  split
  · exact ⟨_, _, rfl, rfl, rfl, rfl, rfl⟩
  · exact ⟨_, _, rfl, rfl, rfl, rfl, rfl⟩

theorem slotWrite (lba : Lba) : Keeps (Dos.slotWrite lba) := by
  refine .of_ok fun s => ?_
  rw [Dos.slotWrite]
  dsimp only
  split
  · exact ⟨_, _, rfl, rfl, rfl, rfl, rfl⟩
  · exact ⟨_, _, rfl, rfl, rfl, rfl, rfl⟩

end Keeps

end

/-! The codes of the FAT's routines. -/

section

variable {g : Geometry} {v : Vars} {a : Byte}

theorem fcmWrite_code (failed : (v.fcmWrite g).1 = .error a) : a = errIoerr := by
  rw [Vars.fcmWrite] at failed
  dsimp only at failed
  split at failed
  · exact (Except.error.inj failed).symm
  · split at failed
    · cases failed
    · split at failed
      · exact (Except.error.inj failed).symm
      · cases failed

theorem fatCommit_code (failed : (v.fatCommit g).1 = .error a) : a = errIoerr := by
  rw [Vars.fatCommit] at failed
  split at failed
  · exact fcmWrite_code failed
  · cases failed

theorem loadFatEntry_code {d : Word} (failed : (v.loadFatEntry g d).1 = .error a) :
    a = errIoerr := by
  rw [Vars.loadFatEntry] at failed
  split at failed
  · cases failed
  · split at failed
    · next commit =>
        exact fatCommit_code (by rw [commit, Except.error.inj failed])
    · split at failed
      · exact (Except.error.inj failed).symm
      · cases failed

theorem setFatEntry_code {d setval : Word} (failed : (v.setFatEntry g d setval).1 = .error a) :
    a = errIoerr := by
  rw [Vars.setFatEntry] at failed
  split at failed
  · next load => exact loadFatEntry_code (by rw [load, Except.error.inj failed])
  · cases failed

theorem acLap_code {left : Nat} {acClus : Word} (failed : (v.acLap g left acClus).1 = .error a) :
    a = errIoerr := by
  induction left generalizing acClus v with
  | zero => cases failed
  | succ left ih =>
      rw [Vars.acLap] at failed
      split at failed
      · next load => exact loadFatEntry_code (by rw [load, Except.error.inj failed])
      · split at failed
        · cases failed
        · exact ih failed

theorem allocCluster_code (failed : (v.allocCluster g).1 = .error a) :
    a = errIoerr ∨ a = errNospace := by
  rw [Vars.allocCluster] at failed
  split at failed
  · next lap => exact .inl (acLap_code (by rw [lap, Except.error.inj failed]))
  · cases failed
  · split at failed
    · next lap => exact .inl (acLap_code (by rw [lap, Except.error.inj failed]))
    · cases failed
    · exact .inr (Except.error.inj failed).symm

end

/-! The sector routines. -/

section

variable {g : Geometry}

theorem Keeps.alloc : Keeps (Dos.onVars fun v => v.allocCluster g) := by
  refine .onVars fun v a failed => ?_
  rcases allocCluster_code failed with rfl | rfl
  · decide
  · decide

theorem Keeps.lsWalk {ext : Bool} {k sic c : Word} {left : Nat} :
    Keeps (Dos.lsWalk g ext k sic left c) := by
  induction left generalizing c with
  | zero =>
      refine Keeps.bind ?_ fun _ => .pure _
      exact .modifySlot fun _ => ⟨rfl, rfl, rfl, rfl⟩
  | succ left ih =>
      refine Keeps.bind (.onVars fun _ _ failed => by cases failed) fun next => ?_
      cases next with
      | none => exact .throw (by decide)
      | some d =>
          refine .ite ih (.ite (Keeps.alloc.bind fun new => Keeps.bind ?_ fun _ => ih)
            (.throw (by decide)))
          refine .onVars fun v a failed => ?_
          rw [setFatEntry_code failed]
          decide

theorem Keeps.locateSector {ext : Bool} {n : BitVec 24} : Keeps (Dos.locateSector g ext n) := by
  refine .ite (.throw (by decide)) (Keeps.getSlot.bind fun slot => .ite .lsWalk (.ite .lsWalk
    (.ite (Keeps.alloc.bind fun _ => Keeps.bind ?_ fun _ => .lsWalk) (.throw (by decide)))))
  exact .modifySlot fun _ => ⟨rfl, rfl, rfl, rfl⟩

theorem Keeps.flushSlot : Keeps (Dos.flushSlot g) := by
  refine Keeps.getSlot.bind fun slot => .ite (Keeps.locateSector.bind fun lba =>
    (Keeps.slotWrite lba).bind fun _ => .ite (.throw (by decide)) ?_) (.pure ())
  exact .modifySlot fun _ => ⟨rfl, rfl, rfl, rfl⟩

theorem Keeps.selIoerr : Keeps Dos.selIoerr := by
  refine Keeps.bind ?_ fun _ => .throw (by decide)
  exact .modifySlot fun _ => ⟨rfl, rfl, rfl, rfl⟩

theorem Keeps.zeroTail {n : BitVec 24} : Keeps (Dos.zeroTail n) :=
  Keeps.getSlot.bind fun _ =>
    .ite (.modifySlot fun _ => ⟨rfl, rfl, rfl, rfl⟩) (.pure ())

theorem Keeps.loadSector {n : BitVec 24} : Keeps (Dos.loadSector g n) := by
  refine Keeps.locateSector.bind fun lba => (Keeps.slotRead lba).bind fun _ => .ite .selIoerr ?_
  refine Keeps.bind ?_ fun _ => .zeroTail
  exact .modifySlot fun _ => ⟨rfl, rfl, rfl, rfl⟩

theorem Keeps.selRead {n : BitVec 24} : Keeps (Dos.selRead g n) :=
  Keeps.getSlot.bind fun _ => .ite (.pure ()) (Keeps.flushSlot.bind fun _ => .loadSector)

theorem Keeps.sewGap {left : Nat} {s : BitVec 24} : Keeps (Dos.sewGap g left s) := by
  induction left generalizing s with
  | zero => exact .pure ()
  | succ left ih =>
      exact Keeps.locateSector.bind fun lba => (Keeps.slotWrite lba).bind fun _ => .ite .selIoerr ih

theorem Keeps.selWrite {n : BitVec 24} : Keeps (Dos.selWrite g n) := by
  refine Keeps.getSlot.bind fun _ => .ite (.pure ()) (Keeps.flushSlot.bind fun _ =>
    Keeps.getSlot.bind fun _ => .ite .loadSector ?_)
  refine Keeps.bind ?_ fun _ => Keeps.bind ?_ fun _ =>
    Keeps.sewGap.bind fun _ => Keeps.locateSector.bind fun _ => ?_
  all_goals exact .modifySlot fun _ => ⟨rfl, rfl, rfl, rfl⟩

end

/-- When the routine succeeds, sector `n` of the file is in the buffer. -/
def Selects {α : Type} (n : BitVec 24) (act : FileM α) : Prop :=
  ∀ s x s', act s = (.ok x, s') → s'.slot.bufsec = n

namespace Selects

variable {α β : Type} {n : BitVec 24} {g : Geometry}

theorem after {act : FileM α} {next : α → FileM β} (rest : ∀ x, Selects n (next x)) :
    Selects n (act >>= next) := by
  intro s y s' ran
  rcases first : act s with ⟨a | x, middle⟩
  · rw [bind_error first] at ran
    cases ran
  · rw [bind_ok first] at ran
    exact rest x middle y s' ran

theorem ite {condition : Prop} [Decidable condition] {yes no : FileM α} (first : Selects n yes)
    (second : Selects n no) : Selects n (if condition then yes else no) := by
  split
  · exact first
  · exact second

theorem selIoerr : Selects n Dos.selIoerr := fun _ _ _ ran => by cases ran

theorem loadSector : Selects n (Dos.loadSector g n) := by
  refine after fun lba => after fun _ => ite selIoerr ?_
  intro s x s' ran
  rw [bind_ok (show modifySlot _ s = (.ok (), _) from rfl), zeroTail,
    bind_ok (show getSlot _ = (.ok _, _) from rfl)] at ran
  dsimp only at ran
  split at ran
  · cases ran
    rfl
  · cases ran
    rfl

end Selects

section

variable {g : Geometry} {n : BitVec 24} {s s' : Open}

theorem selRead_same (here : s.slot.bufsec = n) : selRead g n s = (.ok (), s) := by
  rw [selRead, bind_ok (show getSlot s = (.ok s.slot, s) from rfl), if_pos here]
  rfl

theorem selWrite_same (here : s.slot.bufsec = n) : selWrite g n s = (.ok (), s) := by
  rw [selWrite, bind_ok (show getSlot s = (.ok s.slot, s) from rfl), if_pos here]
  rfl

theorem selRead_selects (ran : selRead g n s = (.ok (), s')) : s'.slot.bufsec = n := by
  by_cases here : s.slot.bufsec = n
  · rw [selRead_same here] at ran
    cases ran
    exact here
  · rw [selRead, bind_ok (show getSlot s = (.ok s.slot, s) from rfl), if_neg here] at ran
    exact Selects.after (fun _ => .loadSector) _ _ _ ran

theorem selWrite_selects (ran : selWrite g n s = (.ok (), s')) : s'.slot.bufsec = n := by
  by_cases here : s.slot.bufsec = n
  · rw [selWrite_same here] at ran
    cases ran
    exact here
  · rw [selWrite, bind_ok (show getSlot s = (.ok s.slot, s) from rfl), if_neg here] at ran
    refine Selects.after (fun _ => .after fun _ => .ite .loadSector ?_) _ _ _ ran
    refine .after fun _ => .after fun _ => .after fun _ => .after fun _ => ?_
    intro s x s' ran
    cases ran
    rfl

end

end Pugputer.Dos

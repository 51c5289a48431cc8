import Pugputer.Lib.Run
import Pugputer.Sd.Transfer

namespace Pugputer.Sd

open Hd6309 (Ram)

/-! The driver and the card together are an array of blocks. -/

namespace Image

theorem block_write (image : Image) (b : BitVec 32) (data : Block) :
    (image.write (b.toNat * 512) data).block (b.toNat * 512) = data := by
  funext i
  rw [block, write]
  dsimp only
  rw [dif_pos (by omega)]
  congr 1
  exact Fin.ext (Nat.add_sub_cancel_left ..)

theorem block_write_other (image : Image) {b other : BitVec 32} (data : Block) (apart : other ≠ b)
    (inside : other.toNat * 512 + 512 ≤ image.size) :
    (image.write (b.toNat * 512) data).block (other.toNat * 512) =
      image.block (other.toNat * 512) := by
  have blocks : other.toNat ≠ b.toNat := fun same => apart (BitVec.eq_of_toNat_eq same)
  funext i
  rw [block, write, block]
  dsimp only
  rw [dif_neg (by omega), if_pos (by omega)]

theorem size_write (image : Image) {b : BitVec 32} (data : Block)
    (inside : b.toNat * 512 + 512 ≤ image.size) :
    (image.write (b.toNat * 512) data).size = image.size :=
  Nat.max_eq_left inside

end Image

namespace Sys

variable {s : Sys} {image : Image}

/-- What the tries at a read come to, whatever the card did before. -/
theorem readTries_result (y : Word) (tries : Nat) (file : s.sd.file = some image)
    (inside : s.sd.pos + 512 ≤ image.size) :
    (readTries y tries s).2.sd.file = some image ∧
      ((readTries y tries s).1 = .ok () →
        (readTries y tries s).2.ram = deliver s.ram y (image.block s.sd.pos)) := by
  induction tries generalizing s with
  | zero => exact ⟨file, fun ok => by cases ok⟩
  | succ tries ih =>
      have reads := SdCard.reads file inside
      rw [readTries, store, SdCard.write_command]
      cases stuck : s.sd.stuckBusy with
      | true =>
          rw [wait_stuck _ (reads.keeps.stuckBusy.trans stuck)]
          exact ⟨reads.file, fun ok => by cases ok⟩
      | false =>
          rw [sdTimeout, wait_idle _ (reads.keeps.stuckBusy.trans stuck)]
          dsimp only
          split
          · exact ⟨reads.file, fun ok => by cases ok⟩
          · split
            · rename_i quiet
              rw [SdCard.status_error] at quiet
              obtain ⟨⟨cursor, sd⟩, ram⟩ := receive_block
                { s with sd := s.sd.doCommand cmdRead } y reads.cursor
              refine ⟨by rw [sd]; exact reads.file, fun _ => ?_⟩
              rw [ram]
              exact congrArg (deliver s.ram y) (reads.buffer quiet)
            · have rest := ih (s := { s with sd := s.sd.doCommand cmdRead }) reads.file
                (by rw [reads.keeps.pos]; exact inside)
              rwa [reads.keeps.pos] at rest

/-- With fewer failures to come than tries, a read succeeds. -/
theorem readTries_succeeds (y : Word) (tries : Nat) (file : s.sd.file = some image)
    (inside : s.sd.pos + 512 ≤ image.size) (present : s.sd.cardPresent = true)
    (idle : s.sd.stuckBusy = false) (lives : s.sd.Lives)
    (failures : s.sd.failReads < tries) :
    0 < tries → (readTries y tries s).1 = .ok () := by
  induction tries generalizing s with
  | zero => exact fun none => absurd none (by decide)
  | succ tries ih =>
      intro _
      have reads := SdCard.reads file inside
      have card : ¬(s.sd.doCommand cmdRead).status &&& staCard = 0 := by
        rw [SdCard.status_card, reads.file, reads.keeps.cardPresent, present]
        simp
      rw [readTries, store, SdCard.write_command, sdTimeout,
        wait_idle _ (reads.keeps.stuckBusy.trans idle)]
      dsimp only
      rw [if_neg card]
      have command := SdCard.doCommand_read file present
      have alive : ¬(0 ≤ s.sd.failReadsAfter ∧ s.sd.failReadsAfter < s.sd.commands + 1) := by
        rcases lives with off | later
        · omega
        · omega
      rw [if_neg alive] at command
      by_cases fails : 0 < s.sd.failReads
      · rw [if_pos fails] at command
        have error : ¬(s.sd.doCommand cmdRead).status &&& staError = 0 := by
          rw [SdCard.status_error, command]
          simp [SdCard.failed]
        rw [if_neg error]
        apply ih reads.file (by rw [reads.keeps.pos]; exact inside)
          (reads.keeps.cardPresent.trans present) (reads.keeps.stuckBusy.trans idle)
        · rw [command]
          rcases lives with off | later
          · exact .inl off
          · right
            simp only [SdCard.failed, SdCard.begun]
            omega
        · rw [command]
          simp only [SdCard.failed, SdCard.begun]
          omega
        · omega
      · rw [if_neg fails] at command
        have quiet : (s.sd.doCommand cmdRead).status &&& staError = 0 := by
          rw [SdCard.status_error, command, SdCard.transfer, if_pos rfl, if_pos (by exact inside)]
          rfl
        rw [if_pos quiet]

/-- The card with the data of a try streamed in and its command carried out. -/
theorem write_try (s : Sys) (y : Word) (start : s.sd.cursor = 0) (file : s.sd.file = some image) :
    ∃ sd : SdCard, (send 512 y s).store 3 cmdWrite = { s with sd := sd.doCommand cmdWrite } ∧
      sd.file = some image ∧ sd.buffer = source s.ram y ∧ s.sd.Keeps sd ∧
      sd.failWrites = s.sd.failWrites := by
  obtain ⟨cursor, sent⟩ := send_block s y start
  refine ⟨{ s.sd with cursor, buffer := source s.ram y }, ?_, file, rfl, ?_, rfl⟩
  · rw [sent]
    rfl
  · exact ⟨rfl, rfl, rfl, rfl⟩

theorem writeTries_result (y : Word) (tries : Nat) (start : s.sd.cursor = 0)
    (file : s.sd.file = some image) (present : s.sd.cardPresent = true) :
    (writeTries y tries s).2.ram = s.ram ∧
      ((writeTries y tries s).1 = .ok () ∨
          (0 < tries ∧ s.sd.stuckBusy = true ∧ s.sd.failWrites ≤ 0) →
        (writeTries y tries s).2.sd.file =
          some (image.write s.sd.pos (source s.ram y))) ∧
      (¬((writeTries y tries s).1 = .ok () ∨
          (0 < tries ∧ s.sd.stuckBusy = true ∧ s.sd.failWrites ≤ 0)) →
        (writeTries y tries s).2.sd.file = some image) := by
  induction tries generalizing s with
  | zero =>
      refine ⟨rfl, fun stores => ?_, fun _ => file⟩
      rcases stores with ok | hung
      · cases ok
      · exact absurd hung.1 (by decide)
  | succ tries ih =>
      obtain ⟨sd, sent, sdFile, data, before, same⟩ := write_try s y start file
      have writes := SdCard.writes sdFile
      have keeps := before.trans writes.keeps
      have command := SdCard.doCommand_write sdFile (before.cardPresent.trans present)
      rw [writeTries, sent]
      cases stuck : s.sd.stuckBusy with
      | true =>
          rw [wait_stuck _ (keeps.stuckBusy.trans stuck)]
          refine ⟨rfl, fun stores => ?_, fun fails => ?_⟩
          · rcases stores with ok | ⟨-, -, works⟩
            · cases ok
            · rw [if_neg (by omega)] at command
              dsimp only
              rw [command, data, before.pos]
          · have refused : 0 < sd.failWrites := by
              rw [same]
              by_contra none
              exact fails (.inr ⟨by omega, rfl, by omega⟩)
            rw [if_pos refused] at command
            dsimp only
            rw [command]
            exact sdFile
      | false =>
          rw [sdTimeout, wait_idle _ (keeps.stuckBusy.trans stuck)]
          dsimp only
          have stored := writes.file
          split
          · rename_i quiet
            rw [SdCard.status_error] at quiet
            rw [if_pos quiet, data, before.pos] at stored
            exact ⟨rfl, fun _ => stored, fun fails => absurd (.inl rfl) fails⟩
          · rename_i error
            rw [SdCard.status_error] at error
            rw [if_neg error] at stored
            have rest := ih (s := { s with sd := sd.doCommand cmdWrite }) writes.cursor stored
              (keeps.cardPresent.trans present)
            simp only [keeps.stuckBusy, stuck, keeps.pos, Bool.false_eq_true, false_and,
              and_false, or_false] at rest ⊢
            exact rest

theorem writeTries_stuck (y : Word) (tries : Nat) (start : s.sd.cursor = 0)
    (file : s.sd.file = some image) (stuck : s.sd.stuckBusy = true) :
    (writeTries y (tries + 1) s).1 = .error errTimeout := by
  obtain ⟨sd, sent, sdFile, -, before, -⟩ := write_try s y start file
  have keeps := before.trans (SdCard.writes sdFile).keeps
  rw [writeTries, sent, wait_stuck _ (keeps.stuckBusy.trans stuck)]

theorem writeTries_succeeds (y : Word) (tries : Nat) (start : s.sd.cursor = 0)
    (file : s.sd.file = some image) (present : s.sd.cardPresent = true)
    (idle : s.sd.stuckBusy = false) (failures : s.sd.failWrites < tries) :
    0 < tries → (writeTries y tries s).1 = .ok () := by
  induction tries generalizing s with
  | zero => exact fun none => absurd none (by decide)
  | succ tries ih =>
      intro _
      obtain ⟨sd, sent, sdFile, data, before, same⟩ := write_try s y start file
      have writes := SdCard.writes sdFile
      have keeps := before.trans writes.keeps
      have command := SdCard.doCommand_write sdFile (before.cardPresent.trans present)
      rw [writeTries, sent, sdTimeout, wait_idle _ (keeps.stuckBusy.trans idle)]
      dsimp only
      by_cases fails : 0 < sd.failWrites
      · rw [if_pos fails] at command
        have error : (sd.doCommand cmdWrite).lastError ≠ false := by
          rw [command]
          simp [SdCard.failed]
        have stored := writes.file
        rw [if_neg error] at stored
        rw [if_neg (mt (SdCard.status_error _).mp error)]
        apply ih writes.cursor stored (keeps.cardPresent.trans present)
          (keeps.stuckBusy.trans idle)
        · rw [command]
          simp only [SdCard.failed, SdCard.begun]
          omega
        · omega
      · rw [if_neg fails] at command
        have quiet : (sd.doCommand cmdWrite).status &&& staError = 0 := by
          rw [SdCard.status_error, command]
          rfl
        rw [if_pos quiet]

end Sys

namespace Call

/-- The 32-bit block number; the 16-bit calls have high word 0. -/
def lba : Call → BitVec 32
  | .blkRead x _ | .blkWrite x _ => (0 : Word) ++ x
  | .blkRead32 w x _ | .blkWrite32 w x _ => w ++ x

def buffer : Call → Word
  | .blkRead _ y | .blkWrite _ y | .blkRead32 _ _ y | .blkWrite32 _ _ y => y

def writes : Call → Bool
  | .blkWrite .. | .blkWrite32 .. => true
  | .blkRead .. | .blkRead32 .. => false

def Inside (c : Call) (size : Nat) : Prop := c.lba.toNat * 512 + 512 ≤ size

instance (c : Call) (size : Nat) : Decidable (c.Inside size) := by
  unfold Inside
  infer_instance

/-- A card in its slot that answers, at most two failures ahead of the next success. -/
structure Ready (c : Call) (s : Sys) : Prop where
  buffer : blkChkbuf c.buffer = true
  present : s.sd.cardPresent = true
  idle : s.sd.stuckBusy = false
  lives : c.writes = false → s.sd.Lives
  failReads : c.writes = false → s.sd.failReads ≤ 2
  failWrites : c.writes = true → s.sd.failWrites ≤ 2

/-- A write the card carries out and never reports, BUSY as it stays. -/
structure Hung (c : Call) (s : Sys) : Prop where
  writes : c.writes = true
  buffer : blkChkbuf c.buffer = true
  present : s.sd.cardPresent = true
  stuck : s.sd.stuckBusy = true
  failWrites : s.sd.failWrites ≤ 0

instance (c : Call) (s : Sys) : Decidable (c.Hung s) :=
  decidable_of_iff (c.writes = true ∧ blkChkbuf c.buffer = true ∧ s.sd.cardPresent = true ∧
      s.sd.stuckBusy = true ∧ s.sd.failWrites ≤ 0)
    ⟨fun ⟨writes, buffer, present, stuck, works⟩ => ⟨writes, buffer, present, stuck, works⟩,
      fun hung => ⟨hung.writes, hung.buffer, hung.present, hung.stuck, hung.failWrites⟩⟩

instance (outcome : Except Byte Unit) : Decidable (outcome = .ok ()) :=
  match outcome with
  | .ok () => isTrue rfl
  | .error _ => isFalse nofun

variable {s : Sys} {image : Image}

private theorem perform_read (c : Call) (reads : c.writes = false) (s : Sys) :
    ∃ hi lo : Word, c.lba = hi ++ lo ∧
      c.perform s = blk (Sys.sdReadBlock32 hi lo c.buffer) c.buffer s := by
  cases c with
  | blkRead x y => exact ⟨0, x, rfl, rfl⟩
  | blkRead32 w x y => exact ⟨w, x, rfl, rfl⟩
  | blkWrite x y => cases reads
  | blkWrite32 w x y => cases reads

private theorem perform_write (c : Call) (writes : c.writes = true) (s : Sys) :
    ∃ hi lo : Word, c.lba = hi ++ lo ∧
      c.perform s = blk (Sys.sdWriteBlock32 hi lo c.buffer) c.buffer s := by
  cases c with
  | blkWrite x y => exact ⟨0, x, rfl, rfl⟩
  | blkWrite32 w x y => exact ⟨w, x, rfl, rfl⟩
  | blkRead x y => cases writes
  | blkRead32 w x y => cases writes

theorem read_result (c : Call) (reads : c.writes = false) (file : s.sd.file = some image)
    (inside : c.Inside image.size) :
    (c.perform s).2.sd.file = some image ∧
      ((c.perform s).1 = .ok () →
        (c.perform s).2.ram = Sys.deliver s.ram c.buffer (image.block (c.lba.toNat * 512))) := by
  obtain ⟨hi, lo, number, same⟩ := c.perform_read reads s
  rw [same, blk]
  rw [Inside, number] at inside
  split
  · rw [Sys.sdReadBlock32, Sys.address_sd, number]
    exact Sys.readTries_result c.buffer sdTries (s := { s with sd := { s.sd with
      lba := lo, lbaHi := hi, cursor := 0, lastError := false } }) file inside
  · exact ⟨file, nofun⟩

theorem read_succeeds (c : Call) (reads : c.writes = false) (file : s.sd.file = some image)
    (inside : c.Inside image.size) (ready : c.Ready s) : (c.perform s).1 = .ok () := by
  obtain ⟨hi, lo, number, same⟩ := c.perform_read reads s
  rw [Inside, number] at inside
  rw [same, blk, if_pos ready.buffer, Sys.sdReadBlock32, Sys.address_sd]
  have few : s.sd.failReads < (sdTries : Int) := by
    have two := ready.failReads reads
    rw [sdTries]
    omega
  exact Sys.readTries_succeeds c.buffer sdTries (s := { s with sd := { s.sd with
      lba := lo, lbaHi := hi, cursor := 0, lastError := false } })
    file inside ready.present ready.idle (ready.lives reads) few (by decide)

theorem write_result (c : Call) (writes : c.writes = true) (file : s.sd.file = some image) :
    (c.perform s).2.ram = s.ram ∧
      ((c.perform s).1 = .ok () ∨ c.Hung s →
        (c.perform s).2.sd.file =
          some (image.write (c.lba.toNat * 512) (Sys.source s.ram c.buffer))) ∧
      (¬((c.perform s).1 = .ok () ∨ c.Hung s) → (c.perform s).2.sd.file = some image) := by
  obtain ⟨hi, lo, number, same⟩ := c.perform_write writes s
  rw [same, blk]
  split
  · rename_i fits
    rw [Sys.sdWriteBlock32, SdCard.read_status]
    dsimp only
    split
    · rename_i missing
      rw [SdCard.status_card, file] at missing
      have absent : s.sd.cardPresent = false := by simpa using missing
      refine ⟨rfl, fun stores => ?_, fun _ => file⟩
      rcases stores with ok | hung
      · cases ok
      · exact absurd hung.present (by simp [absent])
    · rename_i card
      rw [SdCard.status_card, file] at card
      have present : s.sd.cardPresent = true := by simpa using card
      have hungIff : c.Hung s ↔
          0 < sdTries ∧ s.sd.stuckBusy = true ∧ s.sd.failWrites ≤ 0 :=
        ⟨fun hung => ⟨by decide, hung.stuck, hung.failWrites⟩,
          fun ⟨_, stuck, works⟩ => ⟨writes, fits, present, stuck, works⟩⟩
      rw [hungIff, Sys.address_sd, number]
      exact Sys.writeTries_result c.buffer sdTries (s := { s with sd := { s.sd with
        lba := lo, lbaHi := hi, cursor := 0, lastError := false } }) rfl file present
  · rename_i bad
    refine ⟨rfl, fun stores => ?_, fun _ => file⟩
    rcases stores with ok | hung
    · cases ok
    · exact absurd hung.buffer bad

theorem write_succeeds (c : Call) (writes : c.writes = true) (file : s.sd.file = some image)
    (ready : c.Ready s) : (c.perform s).1 = .ok () := by
  obtain ⟨hi, lo, number, same⟩ := c.perform_write writes s
  have card : ¬s.sd.status &&& staCard = 0 := by
    rw [SdCard.status_card, file, ready.present]
    simp
  have few : s.sd.failWrites < (sdTries : Int) := by
    have two := ready.failWrites writes
    rw [sdTries]
    omega
  rw [same, blk, if_pos ready.buffer, Sys.sdWriteBlock32, SdCard.read_status]
  dsimp only
  rw [if_neg card, Sys.address_sd]
  exact Sys.writeTries_succeeds c.buffer sdTries (s := { s with sd := { s.sd with
      lba := lo, lbaHi := hi, cursor := 0, lastError := false } })
    rfl file ready.present ready.idle few (by decide)

theorem write_stuck (c : Call) (writes : c.writes = true) (file : s.sd.file = some image)
    (hung : c.Hung s) : (c.perform s).1 = .error errTimeout := by
  obtain ⟨hi, lo, -, same⟩ := c.perform_write writes s
  have card : ¬s.sd.status &&& staCard = 0 := by
    rw [SdCard.status_card, file, hung.present]
    simp
  rw [same, blk, if_pos hung.buffer, Sys.sdWriteBlock32, SdCard.read_status]
  dsimp only
  rw [if_neg card, Sys.address_sd]
  exact Sys.writeTries_stuck c.buffer 2 (s := { s with sd := { s.sd with
      lba := lo, lbaHi := hi, cursor := 0, lastError := false } }) rfl file hung.stuck

end Call

/-! Sequences of calls. -/

/-- A call, or what may happen between two: the program changes its memory, other
accesses leave any values in the card's registers, or the host sets up failures. -/
inductive Event
  | call (c : Call)
  | memory (ram : Ram)
  | registers (lba lbaHi : Word) (buffer : Block) (cursor : Fin 512) (lastError : Bool)
  | host (cardPresent stuckBusy : Bool) (failReads failWrites failReadsAfter : Int)

/-- A system with the blocks written so far, newest first. -/
structure Session where
  sys : Sys
  written : List (BitVec 32 × Block) := []

/-- The log after a call: a write that stores its block adds an entry. -/
def Call.log (c : Call) (session : Session) : List (BitVec 32 × Block) :=
  if c.writes = true ∧ ((c.perform session.sys).1 = .ok () ∨ c.Hung session.sys) then
    (c.lba, Sys.source session.sys.ram c.buffer) :: session.written
  else session.written

/-- Calls are made inside an image of `size` bytes. -/
def Session.next (size : Nat) (session : Session) : Event → Option Session
  | .call c =>
      if c.Inside size then
        some { sys := (c.perform session.sys).2, written := c.log session }
      else none
  | .memory ram => some { session with sys.ram := ram }
  | .registers lba lbaHi buffer cursor lastError =>
      some { session with sys.sd :=
        { session.sys.sd with lba, lbaHi, buffer, cursor, lastError } }
  | .host cardPresent stuckBusy failReads failWrites failReadsAfter =>
      some { session with sys.sd :=
        { session.sys.sd with
          cardPresent, stuckBusy, failReads, failWrites, failReadsAfter } }

/-- The bytes most recently written to a block, or the image's own. -/
def latest (image : Image) : List (BitVec 32 × Block) → BitVec 32 → Block
  | [], b => image.block (b.toNat * 512)
  | (number, data) :: earlier, b => if b = number then data else latest image earlier b

/-- The file holds, block by block, what was written last. -/
structure Session.Holds (image : Image) (session : Session) (now : Image) : Prop where
  file : session.sys.sd.file = some now
  size : now.size = image.size
  blocks : ∀ b : BitVec 32, b.toNat * 512 + 512 ≤ image.size →
    now.block (b.toNat * 512) = latest image session.written b

theorem Session.Holds.call {image now : Image} {session : Session} (holds : session.Holds image now)
    (c : Call) (inside : c.Inside image.size) :
    ∃ now', Session.Holds image
      { sys := (c.perform session.sys).2, written := c.log session } now' := by
  have insideNow : c.Inside now.size := by rw [holds.size]; exact inside
  cases writes : c.writes with
  | false =>
      have unlogged : c.log session = session.written :=
        if_neg fun stores => absurd stores.1 (by simp [writes])
      rw [unlogged]
      exact ⟨now, (c.read_result writes holds.file insideNow).1, holds.size, holds.blocks⟩
  | true =>
      obtain ⟨-, stored, kept⟩ := c.write_result writes holds.file
      by_cases stores : (c.perform session.sys).1 = .ok () ∨ c.Hung session.sys
      · have logged : c.log session =
            (c.lba, Sys.source session.sys.ram c.buffer) :: session.written :=
          if_pos ⟨writes, stores⟩
        rw [logged]
        refine ⟨_, stored stores, ?_, fun b bInside => ?_⟩
        · rw [Image.size_write now _ insideNow, holds.size]
        · rw [latest]
          split
          · rename_i same
            rw [same, Image.block_write]
          · rename_i apart
            rw [Image.block_write_other now _ apart (by rw [holds.size]; exact bInside),
              holds.blocks b bInside]
      · have unlogged : c.log session = session.written :=
          if_neg fun both => stores both.2
        rw [unlogged]
        exact ⟨now, kept stores, holds.size, holds.blocks⟩

theorem Session.Holds.next {image : Image} (session : Session) (event : Event)
    (session' : Session) (holds : ∃ now, session.Holds image now)
    (step : session.next image.size event = some session') :
    ∃ now, session'.Holds image now := by
  obtain ⟨now, holds⟩ := holds
  cases event with
  | call c =>
      simp only [Session.next, Option.ite_none_right_eq_some, Option.some.injEq] at step
      obtain ⟨inside, rfl⟩ := step
      exact holds.call c inside
  | memory ram =>
      cases step
      exact ⟨now, holds.file, holds.size, holds.blocks⟩
  | registers lba lbaHi buffer cursor lastError =>
      cases step
      exact ⟨now, holds.file, holds.size, holds.blocks⟩
  | host cardPresent stuckBusy failReads failWrites failReadsAfter =>
      cases step
      exact ⟨now, holds.file, holds.size, holds.blocks⟩

theorem Session.Holds.start (image : Image) (sys : Sys) (file : sys.sd.file = some image) :
    Session.Holds image { sys } image :=
  ⟨file, rfl, fun _ _ => rfl⟩

end Pugputer.Sd

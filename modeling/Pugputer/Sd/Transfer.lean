import Pugputer.Sd.Driver
import Mathlib.Tactic.SplitIfs

namespace Pugputer.Sd

open Hd6309 (Ram)

/-! What one command does to the card. -/

namespace SdCard

variable {d : SdCard} {image : Image}

@[simp] theorem status_busy (d : SdCard) : (d.status &&& staBusy = 0) ↔ d.stuckBusy = false := by
  cases busy : d.stuckBusy <;> cases card : (d.file.isSome && d.cardPresent) <;>
    cases error : d.lastError <;> simp [status, busy, card, error] <;> decide

@[simp] theorem status_card (d : SdCard) :
    (d.status &&& staCard = 0) ↔ (d.file.isSome && d.cardPresent) = false := by
  cases busy : d.stuckBusy <;> cases card : (d.file.isSome && d.cardPresent) <;>
    cases error : d.lastError <;> simp only [status, busy, card, error] <;> decide

@[simp] theorem status_error (d : SdCard) :
    (d.status &&& staError = 0) ↔ d.lastError = false := by
  cases busy : d.stuckBusy <;> cases card : (d.file.isSome && d.cardPresent) <;>
    cases error : d.lastError <;> simp only [status, busy, card, error] <;> decide

@[simp] theorem read_status (d : SdCard) : d.read 3 = (d.status, d) := rfl

@[simp] theorem read_data (d : SdCard) : d.read 2 = (d.buffer d.cursor, d.advance) := rfl

@[simp] theorem write_command (d : SdCard) (cmd : Byte) : d.write 3 cmd = d.doCommand cmd := rfl

theorem write_data (d : SdCard) (value : Byte) :
    d.write 2 value = { d with buffer := Function.update d.buffer d.cursor value }.advance := rfl

/-- No read command is refused before `failReads` of them have been. -/
def Lives (d : SdCard) : Prop :=
  d.failReadsAfter < 0 ∨ (d.commands + d.failReads.toNat : Int) < d.failReadsAfter

/-- The card as a command that starts a transfer finds it. -/
def begun (d : SdCard) : SdCard := { d with lastError := false, commands := d.commands + 1 }

theorem doCommand_absent (absent : (d.file.isSome && d.cardPresent) = false) {cmd : Byte}
    (transfers : cmd ≠ cmdSethi) :
    d.doCommand cmd = { d with lastError := true, cursor := 0 } := by
  rw [doCommand, if_neg transfers]
  cases file : d.file with
  | none => rfl
  | some image =>
      cases present : d.cardPresent with
      | false => rfl
      | true => simp [file, present] at absent

theorem doCommand_read (file : d.file = some image) (present : d.cardPresent = true) :
    d.doCommand cmdRead =
      if 0 ≤ d.failReadsAfter ∧ d.failReadsAfter < d.commands + 1 then d.begun.failed
      else if 0 < d.failReads then { d.begun with failReads := d.failReads - 1 }.failed
      else d.begun.transfer image cmdRead := by
  have notWrite : cmdRead ≠ cmdWrite := by decide
  cases d
  cases file
  cases present
  simp [doCommand, begun, notWrite, show cmdRead ≠ cmdSethi by decide]

theorem doCommand_write (file : d.file = some image) (present : d.cardPresent = true) :
    d.doCommand cmdWrite =
      if 0 < d.failWrites then { d.begun with failWrites := d.failWrites - 1 }.failed
      else { d.begun with file := some (image.write d.pos d.buffer), cursor := 0 } := by
  have notRead : cmdWrite ≠ cmdRead := by decide
  cases d
  cases file
  cases present
  simp [doCommand, begun, transfer, pos, notRead, show cmdWrite ≠ cmdSethi by decide]

/-- What a command leaves alone: the address and the state of the slot. -/
structure Keeps (d d' : SdCard) : Prop where
  lba : d'.lba = d.lba
  lbaHi : d'.lbaHi = d.lbaHi
  cardPresent : d'.cardPresent = d.cardPresent
  stuckBusy : d'.stuckBusy = d.stuckBusy

theorem Keeps.pos {d d' : SdCard} (keeps : d.Keeps d') : d'.pos = d.pos := by
  rw [SdCard.pos, SdCard.pos, keeps.lba, keeps.lbaHi]

theorem Keeps.trans {d e f : SdCard} (first : d.Keeps e) (second : e.Keeps f) : d.Keeps f where
  lba := second.lba.trans first.lba
  lbaHi := second.lbaHi.trans first.lbaHi
  cardPresent := second.cardPresent.trans first.cardPresent
  stuckBusy := second.stuckBusy.trans first.stuckBusy

/-- A read command that reports no error has filled the buffer. -/
structure Reads (d d' : SdCard) (image : Image) : Prop where
  keeps : d.Keeps d'
  file : d'.file = some image
  cursor : d'.cursor = 0
  buffer : d'.lastError = false → d'.buffer = image.block d.pos

theorem reads (file : d.file = some image) (inside : d.pos + 512 ≤ image.size) :
    d.Reads (d.doCommand cmdRead) image := by
  cases present : d.cardPresent with
  | false =>
      rw [doCommand_absent (by simp [present]) (by decide)]
      exact ⟨⟨rfl, rfl, rfl, rfl⟩, file, rfl, nofun⟩
  | true =>
      rw [doCommand_read file present]
      split
      · exact ⟨⟨rfl, rfl, rfl, rfl⟩, file, rfl, nofun⟩
      · split
        · exact ⟨⟨rfl, rfl, rfl, rfl⟩, file, rfl, nofun⟩
        · rw [transfer, if_pos rfl, if_pos (by exact inside)]
          exact ⟨⟨rfl, rfl, rfl, rfl⟩, file, rfl, fun _ => rfl⟩

/-- A write command that reports no error has stored the buffer, any other has not. -/
structure Writes (d d' : SdCard) (image : Image) : Prop where
  keeps : d.Keeps d'
  cursor : d'.cursor = 0
  file : d'.file =
    some (if d'.lastError = false then image.write d.pos d.buffer else image)

theorem writes (file : d.file = some image) :
    d.Writes (d.doCommand cmdWrite) image := by
  cases present : d.cardPresent with
  | false =>
      rw [doCommand_absent (by simp [present]) (by decide)]
      exact ⟨⟨rfl, rfl, rfl, rfl⟩, rfl, by simpa using file⟩
  | true =>
      rw [doCommand_write file present]
      split
      · exact ⟨⟨rfl, rfl, rfl, rfl⟩, rfl, by simpa [failed, begun] using file⟩
      · exact ⟨⟨rfl, rfl, rfl, rfl⟩, rfl, rfl⟩

end SdCard

namespace Sys

variable (s : Sys)

/-- The card with a block address latched. -/
theorem address_sd (hi lo : Word) :
    s.address hi lo =
      { s with sd := { s.sd with lba := lo, lbaHi := hi, cursor := 0, lastError := false } } := by
  simp [address, storeLba, store, SdCard.write, SdCard.doCommand]

theorem wait_idle (idle : s.sd.stuckBusy = false) (polls : Nat) :
    wait (polls + 1) s = (some s.sd.status, s) := by
  rw [wait, SdCard.read_status]
  exact if_pos ((SdCard.status_busy s.sd).mpr idle)

theorem wait_stuck (stuck : s.sd.stuckBusy = true) (polls : Nat) :
    wait polls s = (none, s) := by
  induction polls with
  | zero => rfl
  | succ polls ih =>
      have busy : ¬s.sd.status &&& staBusy = 0 := by
        rw [SdCard.status_busy, stuck]
        decide
      rw [wait, SdCard.read_status]
      exact (if_neg busy).trans ih

/-- Memory with a block stored from `y` on. -/
def deliver (ram : Ram) (y : Word) (data : Block) : Ram :=
  fun a => if inside : (a - y).toNat < 512 then data ⟨(a - y).toNat, inside⟩ else ram a

/-- The block that starts at `y`. -/
def source (ram : Ram) (y : Word) : Block := fun i => ram (y + BitVec.ofNat 16 i)

theorem advance_cursor (d : SdCard) {k count : Nat} (at_ : d.cursor.val = k)
    (total : k + (count + 1) = 512) : count = 0 ∨ d.advance.cursor.val = k + 1 := by
  rcases Nat.eq_zero_or_pos count with zero | positive
  · exact .inl zero
  · right
    rw [SdCard.advance, dif_pos (by omega)]
    exact congrArg (· + 1) at_

theorem advance_eq (d : SdCard) : ∃ cursor, d.advance = { d with cursor } := by
  rw [SdCard.advance]
  split
  · exact ⟨_, rfl⟩
  · exact ⟨_, rfl⟩

theorem receive_from (y : Word) (count : Nat) (s : Sys) {k : Nat} (total : k + count = 512)
    (at_ : count = 0 ∨ s.sd.cursor.val = k) :
    (∃ cursor, (receive count (y + BitVec.ofNat 16 k) s).sd = { s.sd with cursor }) ∧
      (receive count (y + BitVec.ofNat 16 k) s).ram = fun a =>
        if inside : k ≤ (a - y).toNat ∧ (a - y).toNat < 512 then
          s.sd.buffer ⟨(a - y).toNat, inside.2⟩
        else s.ram a := by
  induction count generalizing k s with
  | zero =>
      refine ⟨⟨s.sd.cursor, rfl⟩, funext fun a => ?_⟩
      rw [dif_neg (by omega)]
      rfl
  | succ count ih =>
      have here : s.sd.cursor.val = k := by simpa using at_
      have next := advance_cursor s.sd here total
      obtain ⟨cursor, moved⟩ := advance_eq s.sd
      obtain ⟨⟨last, sd⟩, ram⟩ := ih
        { sd := s.sd.advance, ram := s.ram.set (y + BitVec.ofNat 16 k) (s.sd.buffer s.sd.cursor) }
        (k := k + 1) (by omega) next
      have step : receive (count + 1) (y + BitVec.ofNat 16 k) s =
          receive count (y + BitVec.ofNat 16 (k + 1))
            { sd := s.sd.advance,
              ram := s.ram.set (y + BitVec.ofNat 16 k) (s.sd.buffer s.sd.cursor) } := by
        rw [receive, SdCard.read_data, BitVec.ofNat_add, ← BitVec.add_assoc]
        rfl
      rw [step]
      refine ⟨⟨last, sd.trans (by rw [moved])⟩, ram.trans (funext fun a => ?_)⟩
      have kept : s.sd.advance.buffer = s.sd.buffer := by rw [moved]
      have offset : a = y + BitVec.ofNat 16 k ↔ (a - y).toNat = k := by
        have small : k < 65536 := by omega
        constructor
        · rintro rfl
          rw [BitVec.add_comm, BitVec.add_sub_cancel]
          exact Nat.mod_eq_of_lt small
        · rintro rfl
          rw [BitVec.ofNat_toNat, BitVec.setWidth_eq, BitVec.add_comm, BitVec.sub_add_cancel]
      simp only [kept]
      by_cases first : (a - y).toNat = k
      · have stored : s.ram.set (y + BitVec.ofNat 16 k) (s.sd.buffer s.sd.cursor) a =
            s.sd.buffer s.sd.cursor := by
          rw [offset.mpr first]
          exact Ram.set_self ..
        rw [dif_neg (by omega), dif_pos (by omega), stored]
        exact congrArg s.sd.buffer (Fin.ext (here.trans first.symm))
      · by_cases inside : k + 1 ≤ (a - y).toNat ∧ (a - y).toNat < 512
        · rw [dif_pos inside, dif_pos ⟨by omega, inside.2⟩]
        · rw [dif_neg inside, dif_neg (by omega), Ram.set_other _ _ (mt offset.mp first)]

/-- The whole of SDRD_LOOP. -/
theorem receive_block (y : Word) (start : s.sd.cursor = 0) :
    (∃ cursor, (receive 512 y s).sd = { s.sd with cursor }) ∧
      (receive 512 y s).ram = deliver s.ram y s.sd.buffer := by
  have loop := receive_from y 512 s (k := 0) rfl (.inr (by rw [start]; rfl))
  simp only [BitVec.add_zero, Nat.zero_le, true_and] at loop
  exact loop

theorem send_from (y : Word) (count : Nat) (s : Sys) {k : Nat} (total : k + count = 512)
    (at_ : count = 0 ∨ s.sd.cursor.val = k) :
    ∃ cursor, send count (y + BitVec.ofNat 16 k) s =
      { s with sd := { s.sd with
          cursor
          buffer := fun i => if k ≤ i.val then source s.ram y i else s.sd.buffer i } } := by
  induction count generalizing k s with
  | zero =>
      refine ⟨s.sd.cursor, ?_⟩
      have kept : (fun i : Fin 512 => if k ≤ i.val then source s.ram y i else s.sd.buffer i) =
          s.sd.buffer := by
        funext i
        exact if_neg (by omega)
      rw [kept]
      rfl
  | succ count ih =>
      have here : s.sd.cursor.val = k := by simpa using at_
      have next := advance_cursor { s.sd with
        buffer := Function.update s.sd.buffer s.sd.cursor (s.ram (y + BitVec.ofNat 16 k)) }
        here total
      obtain ⟨cursor, moved⟩ := advance_eq { s.sd with
        buffer := Function.update s.sd.buffer s.sd.cursor (s.ram (y + BitVec.ofNat 16 k)) }
      obtain ⟨last, rest⟩ := ih (s.store 2 (s.ram (y + BitVec.ofNat 16 k)))
        (k := k + 1) (by omega) next
      refine ⟨last, ?_⟩
      have step : send (count + 1) (y + BitVec.ofNat 16 k) s =
          send count (y + BitVec.ofNat 16 (k + 1))
            (s.store 2 (s.ram (y + BitVec.ofNat 16 k))) := by
        rw [send, BitVec.ofNat_add, ← BitVec.add_assoc]
        rfl
      have buffers : (fun i : Fin 512 => if k + 1 ≤ i.val then source s.ram y i else
            Function.update s.sd.buffer s.sd.cursor (s.ram (y + BitVec.ofNat 16 k)) i) =
          fun i => if k ≤ i.val then source s.ram y i else s.sd.buffer i := by
        funext i
        by_cases first : i.val = k
        · have same : i = s.sd.cursor := Fin.ext (first.trans here.symm)
          rw [if_neg (by omega), if_pos (by omega), same, Function.update_self, source, here]
        · rw [Function.update_of_ne fun same => first (by rw [same, here])]
          split_ifs <;> first | rfl | omega
      rw [step, rest]
      simp only [store, SdCard.write_data, moved]
      exact congrArg (fun buffer => ({ s with sd := { s.sd with cursor := last, buffer } } : Sys))
        buffers

/-- The whole of SDWR_LOOP. -/
theorem send_block (y : Word) (start : s.sd.cursor = 0) :
    ∃ cursor, send 512 y s =
      { s with sd := { s.sd with cursor, buffer := source s.ram y } } := by
  have loop := send_from y 512 s (k := 0) rfl (.inr (by rw [start]; rfl))
  simpa using loop

end Sys

end Pugputer.Sd

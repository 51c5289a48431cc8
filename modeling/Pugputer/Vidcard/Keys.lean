import Mathlib.Tactic.IntervalCases
import Pugputer.Lib.Ring
import Pugputer.Vidcard.Framing

namespace Pugputer.Vidcard

/-! What the events so far say about the keyboard. -/

/-- Whether the last event of a key was a press. -/
def held (events : List Event) (usage : Byte) : Bool :=
  events.foldl (fun was event =>
    match event with
    | .key u down => if u = usage then down else was
    | _ => was) false

/-- The modifier keys that are held, as KEYMODS has them. -/
def heldMods (events : List Event) : Byte :=
  BitVec.ofBoolListLE [held events 0xE0, held events 0xE1, held events 0xE2, held events 0xE3,
    held events 0xE4, held events 0xE5, held events 0xE6, held events 0xE7]

/-- Caps Lock, by the presses of its key. -/
def capsOn (events : List Event) : Bool :=
  events.foldl (fun was event =>
    match event with
    | .key u down => if u = 0x39#8 ∧ down then !was else was
    | _ => was) false

theorem held_snoc (events : List Event) (event : Event) (usage : Byte) :
    held (events ++ [event]) usage =
      match event with
      | .key u down => if u = usage then down else held events usage
      | _ => held events usage := by
  rw [held, List.foldl_append]
  rfl

theorem capsOn_snoc (events : List Event) (event : Event) :
    capsOn (events ++ [event]) =
      match event with
      | .key u down => if u = 0x39#8 ∧ down then !capsOn events else capsOn events
      | _ => capsOn events := by
  rw [capsOn, List.foldl_append]
  rfl

theorem heldMods_bit (events : List Event) {i : Nat} (inside : i < 8) :
    (heldMods events).getLsbD i = held events (BitVec.ofNat 8 (0xE0 + i)) := by
  rw [heldMods, BitVec.getLsbD_ofBoolListLE]
  interval_cases i <;> rfl

/-- The character of a key event: the key's, with the modifiers and Caps Lock as they are with
it, and bit 7 if it is a release. -/
def character (before : List Event) (usage : Byte) (down : Bool) : Byte :=
  let events := before ++ [.key usage down]
  keyChar (heldMods events) (capsOn events) usage ||| if down then 0 else 0x80#8

/-- The read of KEY. -/
def Event.TakesKey : Event → Prop
  | .read reg => (reg &&& 0x1F#8).toNat = 0x1B
  | _ => False

/-- A flush of the queue. -/
def Event.Flushes : Event → Prop
  | .write reg v => (reg &&& 0x1F#8).toNat = 0x14 ∧ v.getLsbD 7 = true
  | _ => False

instance : DecidablePred Event.TakesKey
  | .read reg => inferInstanceAs (Decidable ((reg &&& 0x1F#8).toNat = 0x1B))
  | .write .. | .mouseTo .. | .mouseBy .. | .mouseWheel _ | .key .. | .beginLine _ =>
      inferInstanceAs (Decidable False)

instance : DecidablePred Event.Resets
  | .write reg v =>
      inferInstanceAs (Decidable ((reg &&& 0x1F#8).toNat = 0x0C ∧ v.getLsbD 7 = true))
  | .read _ | .mouseTo .. | .mouseBy .. | .mouseWheel _ | .key .. | .beginLine _ =>
      inferInstanceAs (Decidable False)

instance : DecidablePred Event.Flushes
  | .write reg v =>
      inferInstanceAs (Decidable ((reg &&& 0x1F#8).toNat = 0x14 ∧ v.getLsbD 7 = true))
  | .read _ | .mouseTo .. | .mouseBy .. | .mouseWheel _ | .key .. | .beginLine _ =>
      inferInstanceAs (Decidable False)

/-- A queue of keys as its reader and the keyboard know it. -/
structure Keyboard where
  /-- the events that found room since the queue was last emptied, with their characters -/
  accepted : List (Byte × Byte) := []
  /-- what KEY gave since then -/
  taken : List Byte := []
  last : Byte := 0

namespace Keyboard

def waiting (k : Keyboard) : Nat := k.accepted.length - k.taken.length

/-- An event and what it answered. -/
def note (k : Keyboard) (before : List Event) (event : Event) (answer : Byte) : Keyboard :=
  match event with
  | .key usage down =>
      if usage ≠ 0 ∧ k.waiting < vcKeyQueue then
        { k with accepted := k.accepted ++ [(usage, character before usage down)] }
      else k
  | event =>
      if event.TakesKey then
        if answer = 0 then { k with last := 0 }
        else
          { k with
            taken := k.taken ++ [answer]
            last := (k.accepted.getD k.taken.length (0, 0)).2 }
      else if event.Resets then {}
      else if event.Flushes then { k with accepted := [], taken := [] }
      else k

theorem note_write (k : Keyboard) (before : List Event) (reg v answer : Byte) :
    k.note before (.write reg v) answer =
      if (Event.write reg v).Resets then {}
      else if (Event.write reg v).Flushes then { k with accepted := [], taken := [] }
      else k := by
  unfold note
  exact if_neg id

end Keyboard

namespace VcCard

/-- What a read gives. -/
def answer (c : VcCard) : Event → Byte
  | .read reg => (c.read reg).1
  | _ => 0

/-- The card when it gets power: zeroed and reset. -/
def powerOn (font8x16 : Bytes) (psram : Option Bytes) : VcCard :=
  reset font8x16 { card := { vram := fun _ => 0, cfg := fun _ => 0, psram } }

end VcCard

/-- A card with what happened to it. -/
structure Watched where
  card : VcCard
  past : List Event := []
  keyboard : Keyboard := {}

def Watched.next (font8x16 : Bytes) (w : Watched) (event : Event) : Option Watched :=
  (w.card.next font8x16 event).map fun card =>
    { card
      past := w.past ++ [event]
      keyboard := w.keyboard.note w.past event (w.card.answer event) }

namespace VcCard

variable {font8x16 : Bytes} {c c' : VcCard}

/-- The registers the keyboard is made from are the same. -/
structure SameKeys (c c' : VcCard) : Prop where
  keyq : c'.keyq = c.keyq
  keyqHead : c'.keyqHead = c.keyqHead
  keyqLen : c'.keyqLen = c.keyqLen
  keyChar : c'.keyChar = c.keyChar
  mods : c'.mods = c.mods
  capsLock : c'.capsLock = c.capsLock

theorem SameKeys.refl (c : VcCard) : SameKeys c c := ⟨rfl, rfl, rfl, rfl, rfl, rfl⟩

theorem commandByte_sameKeys {v : Byte} (ran : c.commandByte v = some c') : SameKeys c c' := by
  unfold commandByte runCommand at ran
  dsimp only at ran
  split at ran
  · obtain ⟨d, executed, rfl⟩ := Option.map_eq_some_iff.mp ran
    obtain ⟨card, -, rfl⟩ := Option.map_eq_some_iff.mp executed
    exact ⟨rfl, rfl, rfl, rfl, rfl, rfl⟩
  · obtain rfl := Option.some.inj ran
    exact ⟨rfl, rfl, rfl, rfl, rfl, rfl⟩

theorem read_sameKeys {reg : Byte} (other : (reg &&& 0x1F#8).toNat ≠ 0x1B) :
    SameKeys c (c.read reg).2 := by
  unfold read
  dsimp only
  split
  all_goals first | exact ⟨rfl, rfl, rfl, rfl, rfl, rfl⟩ | contradiction

theorem write_sameKeys {reg v : Byte} (ran : c.write font8x16 reg v = some c')
    (notReset : ¬(Event.write reg v).Resets) (notFlush : ¬(Event.write reg v).Flushes) :
    SameKeys c c' := by
  unfold Event.Resets at notReset
  unfold Event.Flushes at notFlush
  unfold write at ran
  dsimp only at ran
  split at ran
  all_goals try first
    | exact commandByte_sameKeys ran
    | (obtain rfl := Option.some.inj ran
       exact ⟨rfl, rfl, rfl, rfl, rfl, rfl⟩)
  · rename_i control
    rw [if_neg fun bit => notReset ⟨control, bit⟩] at ran
    obtain rfl := Option.some.inj ran
    exact .refl c
  · rename_i control
    rw [if_neg fun bit => notFlush ⟨control, bit⟩] at ran
    obtain rfl := Option.some.inj ran
    exact ⟨rfl, rfl, rfl, rfl, rfl, rfl⟩

theorem beginLine_sameKeys (line : Word) : SameKeys c (c.beginLine line) := by
  have vblank (d : VcCard) : SameKeys d d.startVblank := by
    unfold startVblank
    dsimp only
    split <;> exact ⟨rfl, rfl, rfl, rfl, rfl, rfl⟩
  have reach (d : VcCard) : SameKeys d d.reachLine := by
    unfold reachLine
    split <;> exact ⟨rfl, rfl, rfl, rfl, rfl, rfl⟩
  unfold beginLine
  dsimp only
  split
  · obtain ⟨q, h, l, k, m, s⟩ := vblank { c with line }
    obtain ⟨q', h', l', k', m', s'⟩ := reach (startVblank { c with line })
    exact ⟨q'.trans q, h'.trans h, l'.trans l, k'.trans k, m'.trans m, s'.trans s⟩
  · obtain ⟨q, h, l, k, m, s⟩ := reach { c with line }
    exact ⟨q, h, l, k, m, s⟩

theorem mouseWheel_sameKeys (clicks : Int) : SameKeys c (c.mouseWheel clicks) := by
  unfold mouseWheel
  split <;> exact ⟨rfl, rfl, rfl, rfl, rfl, rfl⟩

/-! A key event. -/

theorem modifier_bit {usage : Byte} (inside : 0xE0 ≤ usage.toNat ∧ usage.toNat ≤ 0xE7) {i : Nat}
    (small : i < 8) :
    (1#8 <<< (usage.toNat - 0xE0)).getLsbD i = decide (usage = BitVec.ofNat 8 (0xE0 + i)) := by
  have spot : usage = BitVec.ofNat 8 (0xE0 + i) ↔ usage.toNat = 0xE0 + i := by
    rw [← BitVec.toNat_inj, BitVec.toNat_ofNat, Nat.mod_eq_of_lt (by omega)]
  rw [BitVec.getLsbD_shiftLeft, BitVec.getLsbD_one]
  simp only [spot, small, decide_true, Bool.true_and, Nat.zero_lt_succ]
  by_cases before : i < usage.toNat - 0xE0
  · have apart : usage.toNat ≠ 0xE0 + i := by omega
    rw [decide_eq_true before, decide_eq_false apart]
    rfl
  · rw [decide_eq_false before, Bool.not_false, Bool.true_and]
    exact decide_eq_decide.mpr (by omega)

theorem modifier_mods {past : List Event} (mods : c.mods = heldMods past) (usage : Byte)
    (down : Bool) : (c.modifier usage down).mods = heldMods (past ++ [.key usage down]) := by
  apply BitVec.eq_of_getLsbD_eq
  intro i small
  have was : c.mods.getLsbD i = held past (BitVec.ofNat 8 (0xE0 + i)) := by
    rw [mods, heldMods_bit past small]
  rw [heldMods_bit _ small, held_snoc]
  dsimp only
  unfold modifier
  by_cases inside : 0xE0 ≤ usage.toNat ∧ usage.toNat ≤ 0xE7
  · rw [if_pos inside]
    have bit := modifier_bit inside small
    dsimp only
    cases down with
    | true =>
        rw [if_pos rfl, BitVec.getLsbD_or, was, bit]
        by_cases this : usage = BitVec.ofNat 8 (0xE0 + i)
        · rw [if_pos this, decide_eq_true this, Bool.or_true]
        · rw [if_neg this, decide_eq_false this, Bool.or_false]
    | false =>
        rw [if_neg Bool.false_ne_true, BitVec.getLsbD_and, BitVec.getLsbD_not, was, bit,
          decide_eq_true small, Bool.true_and]
        by_cases this : usage = BitVec.ofNat 8 (0xE0 + i)
        · rw [if_pos this, decide_eq_true this, Bool.not_true, Bool.and_false]
        · rw [if_neg this, decide_eq_false this, Bool.not_false, Bool.and_true]
  · have other : usage ≠ BitVec.ofNat 8 (0xE0 + i) := by
      rintro rfl
      rw [BitVec.toNat_ofNat, Nat.mod_eq_of_lt (by omega)] at inside
      omega
    rw [if_neg inside, if_neg other, ← was]
    split <;> rfl

theorem modifier_capsLock {past : List Event} (caps : c.capsLock = capsOn past) (usage : Byte)
    (down : Bool) : (c.modifier usage down).capsLock = capsOn (past ++ [.key usage down]) := by
  rw [capsOn_snoc]
  dsimp only
  unfold modifier
  by_cases inside : 0xE0 ≤ usage.toNat ∧ usage.toNat ≤ 0xE7
  · have notCaps : ¬(usage = 0x39#8 ∧ down) := by
      rintro ⟨rfl, -⟩
      exact absurd inside (by decide)
    rw [if_pos inside, if_neg notCaps]
    exact caps
  · rw [if_neg inside]
    by_cases pressed : usage = 0x39#8 ∧ down
    · rw [if_pos pressed, if_pos pressed]
      exact congrArg not caps
    · rw [if_neg pressed, if_neg pressed]
      exact caps

/-- What a modifier leaves alone. -/
theorem modifier_queue (c : VcCard) (usage : Byte) (down : Bool) :
    (c.modifier usage down).keyq = c.keyq ∧ (c.modifier usage down).keyqHead = c.keyqHead ∧
      (c.modifier usage down).keyqLen = c.keyqLen ∧ (c.modifier usage down).keyChar = c.keyChar := by
  unfold modifier
  split
  · exact ⟨rfl, rfl, rfl, rfl⟩
  · split <;> exact ⟨rfl, rfl, rfl, rfl⟩

theorem key_eq (c : VcCard) (usage : Byte) (down : Bool) :
    c.key usage down =
      if usage = 0 ∨ c.keyqLen = vcKeyQueue then c.modifier usage down
      else
        { c.modifier usage down with
          keyq := Function.update c.keyq ((c.keyqHead + c.keyqLen) % vcKeyQueue)
            (usage, Vidcard.keyChar (c.modifier usage down).mods
              (c.modifier usage down).capsLock usage ||| if down then 0 else 0x80#8)
          keyqLen := c.keyqLen + 1
          isr := (c.modifier usage down).isr ||| vcIrqInput } := by
  obtain ⟨queue, head, len, -⟩ := c.modifier_queue usage down
  unfold key
  dsimp only
  rw [queue, head, len]

theorem read_takes (c : VcCard) {reg : Byte} (key : (reg &&& 0x1F#8).toNat = 0x1B) :
    c.read reg =
      if c.keyqLen = 0 then (0, { c with keyChar := 0 })
      else
        ((c.keyq c.keyqHead).1,
          { c with
            keyChar := (c.keyq c.keyqHead).2
            keyqHead := (c.keyqHead + 1) % vcKeyQueue
            keyqLen := c.keyqLen - 1 }) := by
  unfold read
  rw [key]
  rfl

theorem write_flushes (c : VcCard) {reg v : Byte} (control : (reg &&& 0x1F#8).toNat = 0x14)
    (bit : v.getLsbD 7 = true) : c.write font8x16 reg v =
      some { c with inCtrl := v &&& 0x03#8, keyqHead := 0, keyqLen := 0 } := by
  unfold write
  rw [control]
  exact congrArg some (if_pos bit)

end VcCard

theorem heldMods_snoc {event : Event} (other : ∀ u down, event ≠ .key u down)
    (events : List Event) : heldMods (events ++ [event]) = heldMods events := by
  have same (usage : Byte) : held (events ++ [event]) usage = held events usage := by
    rw [held_snoc]
    cases event with
    | key u down => exact absurd rfl (other u down)
    | _ => rfl
  apply BitVec.eq_of_getLsbD_eq
  intro i small
  rw [heldMods_bit _ small, heldMods_bit _ small, same]

theorem capsOn_snoc_other {event : Event} (other : ∀ u down, event ≠ .key u down)
    (events : List Event) : capsOn (events ++ [event]) = capsOn events := by
  rw [capsOn_snoc]
  cases event with
  | key u down => exact absurd rfl (other u down)
  | _ => rfl

namespace Watched

variable {font8x16 : Bytes} {w w' : Watched}

/-- The card's registers are what happened to it. -/
structure Faithful (w : Watched) : Prop where
  queue : ∃ free, Ring.Holds vcKeyQueue w.card.keyq free w.card.keyqHead w.card.keyqLen
    (w.keyboard.accepted.drop w.keyboard.taken.length)
  taken : w.keyboard.taken = (w.keyboard.accepted.map (·.1)).take w.keyboard.taken.length
  keys : ∀ key ∈ w.keyboard.accepted, key.1 ≠ 0
  last : w.card.keyChar = w.keyboard.last
  mods : w.card.mods = heldMods w.past
  capsLock : w.card.capsLock = capsOn w.past

namespace Faithful

theorem waiting (faithful : w.Faithful) : w.card.keyqLen = w.keyboard.waiting := by
  obtain ⟨free, holds⟩ := faithful.queue
  rw [holds.length, List.length_drop, Keyboard.waiting]

theorem waiting_le (faithful : w.Faithful) : w.card.keyqLen ≤ vcKeyQueue := by
  obtain ⟨free, holds⟩ := faithful.queue
  rw [holds.length]
  exact holds.fits

theorem taken_le (faithful : w.Faithful) :
    w.keyboard.taken.length ≤ w.keyboard.accepted.length := by
  rw [faithful.taken, List.length_take, List.length_map]
  exact Nat.min_le_right _ _

theorem none_waiting (faithful : w.Faithful) (none : w.card.keyqLen = 0) :
    w.keyboard.accepted.length ≤ w.keyboard.taken.length := by
  have waiting := faithful.waiting
  rw [none, Keyboard.waiting] at waiting
  omega

/-- The oldest event that waits is where the card takes it from. -/
theorem oldest (faithful : w.Faithful) (some : w.card.keyqLen ≠ 0) :
    ∃ key, w.keyboard.accepted[w.keyboard.taken.length]? = .some key ∧
      w.card.keyq w.card.keyqHead = key ∧
      ∃ free, Ring.Holds vcKeyQueue w.card.keyq free ((w.card.keyqHead + 1) % vcKeyQueue)
        (w.card.keyqLen - 1) (w.keyboard.accepted.drop (w.keyboard.taken.length + 1)) := by
  obtain ⟨free, holds⟩ := faithful.queue
  have rest : w.keyboard.accepted.drop (w.keyboard.taken.length + 1) =
      (w.keyboard.accepted.drop w.keyboard.taken.length).tail := List.tail_drop.symm
  rw [rest, ← List.head?_drop]
  have length := holds.length
  match w.keyboard.accepted.drop w.keyboard.taken.length, holds with
  | [], holds => exact absurd holds.length some
  | key :: rest, holds =>
      obtain ⟨found, held⟩ := holds.take
      rw [Ring.advance_eq_mod holds.tail_lt] at held
      exact ⟨key, rfl, found, free, held⟩

/-- KEY gives the oldest event that waits. -/
theorem read_key (faithful : w.Faithful) {reg : Byte} (key : (reg &&& 0x1F#8).toNat = 0x1B) :
    (w.card.read reg).1 = (w.keyboard.accepted.map (·.1)).getD w.keyboard.taken.length 0 := by
  rw [w.card.read_takes key]
  by_cases none : w.card.keyqLen = 0
  · rw [if_pos none, List.getD_eq_default]
    rw [List.length_map]
    exact faithful.none_waiting none
  · obtain ⟨oldest, found, stored, -⟩ := faithful.oldest none
    rw [if_neg none, stored, List.getD_eq_getElem?_getD, List.getElem?_map, found]
    rfl

/-- A read of KEY. -/
theorem take_key (faithful : w.Faithful) {reg : Byte} (key : (reg &&& 0x1F#8).toNat = 0x1B) :
    Faithful ⟨(w.card.read reg).2, w.past ++ [.read reg],
      w.keyboard.note w.past (.read reg) (w.card.read reg).1⟩ := by
  have other : ∀ u down, Event.read reg ≠ .key u down := nofun
  have mods := faithful.mods.trans (heldMods_snoc other _).symm
  have capsLock := faithful.capsLock.trans (capsOn_snoc_other other _).symm
  have noted (answer : Byte) : w.keyboard.note w.past (.read reg) answer =
      if answer = 0 then { w.keyboard with last := 0 }
      else
        { w.keyboard with
          taken := w.keyboard.taken ++ [answer]
          last := (w.keyboard.accepted.getD w.keyboard.taken.length (0, 0)).2 } := if_pos key
  rw [w.card.read_takes key, noted]
  by_cases none : w.card.keyqLen = 0
  · rw [if_pos none, if_pos rfl]
    exact ⟨faithful.queue, faithful.taken, faithful.keys, rfl, mods, capsLock⟩
  · obtain ⟨oldest, found, stored, held⟩ := faithful.oldest none
    have nonzero : oldest.1 ≠ 0 := faithful.keys oldest (List.mem_of_getElem? found)
    rw [if_neg none, stored, if_neg nonzero, List.getD_eq_getElem?_getD, found]
    refine ⟨?_, ?_, faithful.keys, rfl, mods, capsLock⟩
    · rw [List.length_append]
      exact held
    · dsimp only
      rw [List.length_append, List.length_singleton, List.take_add_one, ← faithful.taken,
        List.getElem?_map, found]
      rfl

/-- A key pressed or released. -/
theorem press (faithful : w.Faithful) (usage : Byte) (down : Bool) :
    Faithful ⟨w.card.key usage down, w.past ++ [.key usage down],
      w.keyboard.note w.past (.key usage down) 0⟩ := by
  have mods := VcCard.modifier_mods faithful.mods usage down
  have capsLock := VcCard.modifier_capsLock faithful.capsLock usage down
  obtain ⟨queue, head, len, char⟩ := w.card.modifier_queue usage down
  have noted : w.keyboard.note w.past (.key usage down) 0 =
      if usage ≠ 0 ∧ w.keyboard.waiting < vcKeyQueue then
        { w.keyboard with
          accepted := w.keyboard.accepted ++ [(usage, character w.past usage down)] }
      else w.keyboard := rfl
  have most := faithful.waiting_le
  rw [VcCard.key_eq, noted, ← faithful.waiting]
  by_cases lost : usage = 0 ∨ w.card.keyqLen = vcKeyQueue
  · have notAccepted : ¬(usage ≠ 0 ∧ w.card.keyqLen < vcKeyQueue) :=
      fun ⟨nonzero, room⟩ => lost.elim nonzero room.ne
    rw [if_pos lost, if_neg notAccepted]
    refine ⟨?_, faithful.taken, faithful.keys, char.trans faithful.last, mods, capsLock⟩
    rw [queue, head, len]
    exact faithful.queue
  · obtain ⟨nonzero, room⟩ := not_or.mp lost
    obtain ⟨free, holds⟩ := faithful.queue
    have within := faithful.taken_le
    have accepted : usage ≠ 0 ∧ w.card.keyqLen < vcKeyQueue := ⟨nonzero, by omega⟩
    have slot : (w.card.keyqHead + w.card.keyqLen) % vcKeyQueue = free := by
      rw [holds.head_eq, Ring.slot_eq_mod holds.tail_lt accepted.2]
    have char' : Vidcard.keyChar (w.card.modifier usage down).mods
        (w.card.modifier usage down).capsLock usage ||| (if down then 0 else 0x80#8) =
        character w.past usage down := by
      rw [mods, capsLock]
      rfl
    rw [if_neg lost, if_pos accepted, slot, char']
    refine ⟨⟨Ring.advance vcKeyQueue free, ?_⟩, ?_, ?_, char.trans faithful.last, mods, capsLock⟩
    · rw [head, List.drop_append_of_le_length within]
      refine holds.put _ _ (by rw [← holds.length]; exact accepted.2) (Function.update_self ..) ?_
      intro i _ apart
      exact Function.update_of_ne apart ..
    · dsimp only
      rw [List.map_append, List.take_append_of_le_length (by rw [List.length_map]; exact within)]
      exact faithful.taken
    · intro key member
      rcases List.mem_append.mp member with old | new
      · exact faithful.keys key old
      · obtain rfl := List.mem_singleton.mp new
        exact nonzero

/-- A flush. -/
theorem flush (faithful : w.Faithful) (reg v : Byte) :
    Faithful ⟨{ w.card with inCtrl := v &&& 0x03#8, keyqHead := 0, keyqLen := 0 },
      w.past ++ [.write reg v], { w.keyboard with accepted := [], taken := [] }⟩ := by
  have other : ∀ u down, Event.write reg v ≠ .key u down := nofun
  exact ⟨⟨0, Ring.Holds.empty (by decide)⟩, rfl, nofun, faithful.last,
    faithful.mods.trans (heldMods_snoc other _).symm,
    faithful.capsLock.trans (capsOn_snoc_other other _).symm⟩

theorem reset (faithful : w.Faithful) (reg v : Byte) :
    Faithful ⟨w.card.reset font8x16, w.past ++ [.write reg v], {}⟩ := by
  have other : ∀ u down, Event.write reg v ≠ .key u down := nofun
  exact ⟨⟨0, Ring.Holds.empty (by decide)⟩, rfl, nofun, rfl,
    faithful.mods.trans (heldMods_snoc other _).symm,
    faithful.capsLock.trans (capsOn_snoc_other other _).symm⟩

/-- Something that changes none of these registers. -/
theorem same (faithful : w.Faithful) {card : VcCard} (sameKeys : w.card.SameKeys card)
    {event : Event} (other : ∀ u down, event ≠ .key u down) :
    Faithful ⟨card, w.past ++ [event], w.keyboard⟩ where
  queue := by
    rw [sameKeys.keyq, sameKeys.keyqHead, sameKeys.keyqLen]
    exact faithful.queue
  taken := faithful.taken
  keys := faithful.keys
  last := sameKeys.keyChar.trans faithful.last
  mods := (sameKeys.mods.trans faithful.mods).trans (heldMods_snoc other _).symm
  capsLock := (sameKeys.capsLock.trans faithful.capsLock).trans (capsOn_snoc_other other _).symm

end Faithful

theorem Faithful.next_faithful (faithful : w.Faithful) {event : Event}
    (ran : w.next font8x16 event = some w') : w'.Faithful := by
  obtain ⟨card, step, rfl⟩ := Option.map_eq_some_iff.mp ran
  cases event with
  | key usage down =>
      obtain rfl := Option.some.inj step
      exact faithful.press usage down
  | read reg =>
      obtain rfl := Option.some.inj step
      by_cases key : (reg &&& 0x1F#8).toNat = 0x1B
      · exact faithful.take_key key
      · have noted : w.keyboard.note w.past (.read reg) (w.card.read reg).1 = w.keyboard :=
          if_neg key
        change Faithful ⟨_, _, w.keyboard.note w.past (.read reg) (w.card.read reg).1⟩
        rw [noted]
        exact faithful.same (VcCard.read_sameKeys key) (by rintro _ _ ⟨⟩)
  | write reg v =>
      change Faithful ⟨card, _, w.keyboard.note w.past (.write reg v) 0⟩
      rw [w.keyboard.note_write]
      by_cases resets : (Event.write reg v).Resets
      · rw [VcCard.next, w.card.write_reset font8x16 resets.1 resets.2] at step
        obtain rfl := Option.some.inj step
        rw [if_pos resets]
        exact faithful.reset reg v
      · rw [if_neg resets]
        by_cases flushes : (Event.write reg v).Flushes
        · rw [VcCard.next, w.card.write_flushes flushes.1 flushes.2] at step
          obtain rfl := Option.some.inj step
          rw [if_pos flushes]
          exact faithful.flush reg v
        · rw [if_neg flushes]
          exact faithful.same (VcCard.write_sameKeys step resets flushes) (by rintro _ _ ⟨⟩)
  | mouseTo x y buttons =>
      obtain rfl := Option.some.inj step
      have same : w.card.SameKeys (w.card.mouseTo x y buttons) := ⟨rfl, rfl, rfl, rfl, rfl, rfl⟩
      exact faithful.same same (by rintro _ _ ⟨⟩)
  | mouseBy dx dy buttons =>
      obtain rfl := Option.some.inj step
      have same : w.card.SameKeys (w.card.mouseBy dx dy buttons) := ⟨rfl, rfl, rfl, rfl, rfl, rfl⟩
      exact faithful.same same (by rintro _ _ ⟨⟩)
  | mouseWheel clicks =>
      obtain rfl := Option.some.inj step
      exact faithful.same (VcCard.mouseWheel_sameKeys clicks) (by rintro _ _ ⟨⟩)
  | beginLine line =>
      obtain rfl := Option.some.inj step
      exact faithful.same (VcCard.beginLine_sameKeys line) (by rintro _ _ ⟨⟩)

theorem run_past (font8x16 : Bytes) (events : List Event) (w : Watched) :
    ∃ w', Run.run (next font8x16) w events = some w' ∧ w'.past = w.past ++ events := by
  induction events generalizing w with
  | nil => exact ⟨w, rfl, (List.append_nil _).symm⟩
  | cons event rest ih =>
      obtain ⟨card, step⟩ := w.card.next_total font8x16 event
      obtain ⟨last, ran, past⟩ := ih ⟨card, w.past ++ [event],
        w.keyboard.note w.past event (w.card.answer event)⟩
      refine ⟨last, Run.run_cons.mpr ⟨_, ?_, ran⟩, ?_⟩
      · rw [next, step]
        rfl
      · rw [past, List.append_assoc, List.singleton_append]

theorem powerOn_faithful (psram : Option Bytes) :
    Faithful { card := VcCard.powerOn font8x16 psram } := by
  have mods : (0 : Byte) = heldMods [] := by decide
  exact ⟨⟨0, Ring.Holds.empty (by decide)⟩, rfl, nofun, rfl, mods, rfl⟩

end Watched

/-- KEY gives the events that found room since the queue was last emptied, oldest first, KEYCHAR
the character of the last one taken, and KEYMODS the modifier keys that are held. -/
theorem keyboard_queue (font8x16 : Bytes) (psram : Option Bytes) (events : List Event) :
    ∃ w, Run.run (Watched.next font8x16) { card := VcCard.powerOn font8x16 psram } events = some w ∧
      w.past = events ∧
      w.keyboard.taken = (w.keyboard.accepted.map (·.1)).take w.keyboard.taken.length ∧
      (∀ reg : Byte, (reg &&& 0x1F#8).toNat = 0x1B → (w.card.read reg).1 =
        (w.keyboard.accepted.map (·.1)).getD w.keyboard.taken.length 0) ∧
      (∀ reg : Byte, (reg &&& 0x1F#8).toNat = 0x1C → (w.card.read reg).1 = w.keyboard.last) ∧
      (w.card.keyqHead < 32 ∧ w.card.keyqLen ≤ 32 ∧ w.card.keyqLen = w.keyboard.waiting) ∧
      ∀ reg : Byte, (reg &&& 0x1F#8).toNat = 0x1D → ∀ i < 8,
        (w.card.read reg).1.getLsbD i = held events (BitVec.ofNat 8 (0xE0 + i)) := by
  obtain ⟨w, ran, past⟩ :=
    Watched.run_past font8x16 events { card := VcCard.powerOn font8x16 psram }
  have faithful : w.Faithful :=
    Run.run_invariant Watched.Faithful (fun _ _ _ faithful => faithful.next_faithful)
      (Watched.powerOn_faithful psram) ran
  obtain ⟨free, holds⟩ := faithful.queue
  refine ⟨w, ran, past, faithful.taken, fun reg key => faithful.read_key key, ?_,
    ⟨holds.tail_lt, faithful.waiting_le, faithful.waiting⟩, ?_⟩
  · intro reg char
    have found : (w.card.read reg).1 = w.card.keyChar := by
      unfold VcCard.read
      rw [char]
      rfl
    rw [found, faithful.last]
  · intro reg mods i small
    have found : (w.card.read reg).1 = w.card.mods := by
      unfold VcCard.read
      rw [mods]
      rfl
    rw [found, faithful.mods, heldMods_bit _ small, past]
    rfl

/-- A key event without a usage code is lost with nothing in the queue, and after a KEY that
found nothing KEYCHAR is not the character of the event last taken. -/
theorem key_none : (∃ w, Run.run (Watched.next fun _ => 0)
      { card := VcCard.powerOn (fun _ => 0) none } [.key 0 true] = some w ∧
        w.card.keyqLen = 0) ∧
    ∃ w, Run.run (Watched.next fun _ => 0) { card := VcCard.powerOn (fun _ => 0) none }
        [.key 0x04 true, .read 0x1B, .read 0x1B] = some w ∧
      w.keyboard.taken = [0x04] ∧ w.keyboard.accepted = [(0x04, 0x61)] ∧
      (w.card.read 0x1C).1 = 0 := by
  refine ⟨⟨_, rfl, rfl⟩, _, rfl, ?_, ?_, ?_⟩
  · rfl
  · rfl
  · rfl

end Pugputer.Vidcard

import Pugputer.Lib.Run
import Pugputer.Time.Ticks

namespace Pugputer.Time

/-! Readers and setters that wait for RTC_MTX to be clear do not disturb each other. -/

/-! V_NMI, one lemma for each way through it. -/

namespace Rtc

variable {rtc : Rtc}

theorem vNmi_clear (mtx : rtc.mtx = 0) :
    rtc.vNmi = { rtc with
      ticksPriv := rtc.ticksPriv.increment, ticks := rtc.ticksPriv.increment } :=
  if_pos mtx

theorem vNmi_held (mtx : rtc.mtx ≠ 0) (set : rtc.set = 0) :
    rtc.vNmi = { rtc with ticksPriv := rtc.ticksPriv.increment } :=
  (if_neg mtx).trans (if_pos set)

theorem vNmi_taken (mtx : rtc.mtx ≠ 0) (set : rtc.set ≠ 0) :
    rtc.vNmi = { rtc with ticksPriv := rtc.ticks, set := 0, mtx := 0 } :=
  (if_neg mtx).trans (if_neg set)

end Rtc

namespace Count

theorem setWord_hi (count : Count) (k : Fin 4) (value : Word) {b : Fin 8}
    (first : b.val = 2 * k.val) : (count.setWord k value) b = hiByte value := by
  have same : b = ⟨2 * k.val, by omega⟩ := Fin.ext first
  rw [setWord, Function.update_of_ne (by rw [ne_eq, Fin.ext_iff]; dsimp only; omega), same,
    Function.update_self]

theorem setWord_lo (count : Count) (k : Fin 4) (value : Word) {b : Fin 8}
    (second : b.val = 2 * k.val + 1) : (count.setWord k value) b = loByte value := by
  have same : b = ⟨2 * k.val + 1, by omega⟩ := Fin.ext second
  rw [setWord, same, Function.update_self]

theorem setWord_below (count : Count) (k : Fin 4) (value : Word) {b : Fin 8}
    (below : b.val < 2 * k.val) : (count.setWord k value) b = count b := by
  rw [setWord, Function.update_of_ne (by rw [ne_eq, Fin.ext_iff]; dsimp only; omega),
    Function.update_of_ne (by rw [ne_eq, Fin.ext_iff]; dsimp only; omega)]

/-- The bytes read so far, one word further. -/
theorem setWord_agrees {count out : Count} {k : Fin 4}
    (agrees : ∀ b : Fin 8, b.val < 2 * k.val → out b = count b) (b : Fin 8)
    (below : b.val < 2 * (k.val + 1)) : (out.setWord k (count.word k)) b = count b := by
  by_cases earlier : b.val < 2 * k.val
  · rw [setWord_below _ _ _ earlier, agrees b earlier]
  · by_cases even : b.val = 2 * k.val
    · have same : b = ⟨2 * k.val, by omega⟩ := Fin.ext even
      rw [setWord_hi _ _ _ even, same, word, hiByte_word]
    · have same : b = ⟨2 * k.val + 1, by omega⟩ := Fin.ext (by dsimp only; omega)
      rw [setWord_lo _ _ _ (by rw [same]), same, word, loByte_word]

end Count

namespace Thread

/-- Between the store of RTC_MTX and the instruction that ends a section. -/
def inside : Thread → Bool
  | .gettix (.ldd _) .. | .gettix (.std _) .. | .gettix .clr .. => true
  | .setter (.write _) _ => true
  | _ => false

def writes : Thread → Bool
  | .setter (.write _) _ => true
  | _ => false

theorem inside_of_writes {thread : Thread} (writes : thread.writes = true) :
    thread.inside = true := by
  unfold Thread.writes at writes
  split at writes
  · rfl
  · cases writes

/-- What a thread has to show for the instructions behind it. -/
def Good (ticks : Count) (held : List Count) : Thread → Prop
  | .gettix (.ldd k) _ out => ∀ b : Fin 8, b.val < 2 * k.val → out b = ticks b
  | .gettix (.std k) d out =>
      (∀ b : Fin 8, b.val < 2 * k.val → out b = ticks b) ∧ d = ticks.word k
  | .gettix .clr _ out => out = ticks
  | .gettix .puls _ out | .gettix .rts _ out => out ∈ held
  | .setter (.mtx order) _ => ∀ b, b ∈ order
  | .setter (.write left) value => ∀ b, b ∉ left → ticks b = value b
  | _ => True

/-- Outside its section a thread does not look at the counter. -/
theorem Good.outside {ticks ticks' : Count} {held held' : List Count} {thread : Thread}
    (good : thread.Good ticks held) (out : thread.inside = false)
    (grows : ∀ count ∈ held, count ∈ held') : thread.Good ticks' held' := by
  cases thread with
  | idle => trivial
  | gettix pc d out' => cases pc <;> first | trivial | exact grows _ good
  | setter pc value =>
      cases pc with
      | mtx order => exact good
      | write left => cases out

theorem Good.grows {ticks : Count} {held held' : List Count} {thread : Thread}
    (good : thread.Good ticks held) (grows : ∀ count ∈ held, count ∈ held') :
    thread.Good ticks held' := by
  cases thread with
  | idle => trivial
  | gettix pc d out => cases pc <;> first | exact good | exact grows _ good
  | setter pc value => cases pc <;> exact good

end Thread

namespace Sys

variable {ι : Type} [DecidableEq ι]

/-- A section starts with RTC_MTX clear. -/
def Waits (s : Sys ι) : Event ι → Prop
  | .run i =>
      match s.thread i with
      | .gettix .sta .. | .setter (.mtx _) _ => s.rtc.mtx = 0
      | _ => True
  | _ => True

structure Inv (s : Sys ι) : Prop where
  alone : ∀ i j, (s.thread i).inside = true → (s.thread j).inside = true → i = j
  locked : ∀ i, (s.thread i).inside = true → s.rtc.mtx ≠ 0
  quiet : s.announced = none → s.rtc.set = 0
  pending : ∀ value, s.announced = some value →
    s.rtc.mtx ≠ 0 ∧ s.rtc.set ≠ 0 ∧ s.rtc.ticks = value ∧ ∀ i, (s.thread i).inside = false
  good : ∀ i, (s.thread i).Good s.rtc.ticks s.held
  whole : (∀ i, (s.thread i).writes = false) → s.rtc.ticks ∈ s.held
  returned : ∀ count ∈ s.returned, count ∈ s.held

namespace Inv

variable {s s' : Sys ι}

omit [DecidableEq ι] in
/-- A thread at work in its section is the only one, and nothing waits to be taken. -/
theorem others_outside (inv : s.Inv) {i : ι} (here : (s.thread i).inside = true) (j : ι)
    (other : j ≠ i) : (s.thread j).inside = false := by
  cases there : (s.thread j).inside with
  | false => rfl
  | true => exact absurd (inv.alone j i there here) other

omit [DecidableEq ι] in
theorem none_announced (inv : s.Inv) {i : ι} (here : (s.thread i).inside = true) :
    s.announced = none := by
  cases announced : s.announced with
  | none => rfl
  | some value =>
      obtain ⟨-, -, -, outside⟩ := inv.pending value announced
      rw [outside i] at here
      cases here

omit [DecidableEq ι] in
/-- With RTC_MTX clear no section is open and nothing waits to be taken. -/
theorem clear (inv : s.Inv) (mtx : s.rtc.mtx = 0) :
    (∀ i, (s.thread i).inside = false) ∧ s.announced = none := by
  constructor
  · intro i
    cases inside : (s.thread i).inside with
    | false => rfl
    | true => exact absurd mtx (inv.locked i inside)
  · cases announced : s.announced with
    | none => rfl
    | some value => exact absurd mtx (inv.pending value announced).1

/-- The invariant after a step of one thread, from what the step does. -/
theorem step (inv : s.Inv) {i : ι} {t : Thread} (threads : s'.thread = Function.update s.thread i t)
    (grows : ∀ count ∈ s.held, count ∈ s'.held)
    (ticks : s'.rtc.ticks = s.rtc.ticks ∨ (s.thread i).inside = true)
    (good : t.Good s'.rtc.ticks s'.held)
    (only : t.inside = true → ∀ j, j ≠ i → (s.thread j).inside = false)
    (lockedHere : t.inside = true → s'.rtc.mtx ≠ 0)
    (locked : ∀ j, j ≠ i → (s.thread j).inside = true → s'.rtc.mtx ≠ 0)
    (quiet : s'.announced = none → s'.rtc.set = 0)
    (pending : ∀ value, s'.announced = some value →
      s'.rtc.mtx ≠ 0 ∧ s'.rtc.set ≠ 0 ∧ s'.rtc.ticks = value ∧
        t.inside = false ∧ ∀ j, j ≠ i → (s.thread j).inside = false)
    (whole : t.writes = false → (∀ j, j ≠ i → (s.thread j).writes = false) →
      s'.rtc.ticks ∈ s'.held)
    (returned : ∀ count ∈ s'.returned, count ∈ s'.held) : s'.Inv where
  alone j k first second := by
    rw [threads] at first second
    by_cases jHere : j = i
    · by_cases kHere : k = i
      · rw [jHere, kHere]
      · rw [jHere, Function.update_self] at first
        rw [Function.update_of_ne kHere, only first k kHere] at second
        cases second
    · rw [Function.update_of_ne jHere] at first
      by_cases kHere : k = i
      · rw [kHere, Function.update_self] at second
        rw [only second j jHere] at first
        cases first
      · rw [Function.update_of_ne kHere] at second
        exact inv.alone j k first second
  locked j inside := by
    rw [threads] at inside
    by_cases here : j = i
    · rw [here, Function.update_self] at inside
      exact lockedHere inside
    · rw [Function.update_of_ne here] at inside
      exact locked j here inside
  quiet := quiet
  pending value announced := by
    obtain ⟨mtx, set, same, tOutside, outside⟩ := pending value announced
    refine ⟨mtx, set, same, fun j => ?_⟩
    rw [threads]
    by_cases here : j = i
    · rw [here, Function.update_self]
      exact tOutside
    · rw [Function.update_of_ne here]
      exact outside j here
  good j := by
    rw [threads]
    by_cases here : j = i
    · rw [here, Function.update_self]
      exact good
    · rw [Function.update_of_ne here]
      rcases ticks with same | inside
      · rw [same]
        exact (inv.good j).grows grows
      · exact (inv.good j).outside (inv.others_outside inside j here) grows
  whole quietThreads := by
    rw [threads] at quietThreads
    apply whole
    · simpa using quietThreads i
    · intro j other
      simpa [Function.update_of_ne other] using quietThreads j
  returned := returned

theorem outside (inv : s.Inv) {i : ι} {t : Thread} (before : (s.thread i).inside = false)
    (after : t.inside = false) (good : t.Good s.rtc.ticks s.held) (returned : List Count)
    (whole : ∀ count ∈ returned, count ∈ s.held) :
    ({ s with returned }.goto i t : Sys ι).Inv := by
  have idle : (s.thread i).writes = false := by
    cases writes : (s.thread i).writes with
    | false => rfl
    | true => exact absurd (Thread.inside_of_writes writes) (by simp [before])
  refine inv.step rfl (fun _ member => member) (.inl rfl) good (fun inside => ?_)
    (fun inside => ?_) (fun j _ inside => inv.locked j inside) inv.quiet
    (fun value announced => ?_) (fun _ others => ?_) whole
  · exact absurd inside (by simp [after])
  · exact absurd inside (by simp [after])
  · obtain ⟨mtx, set, same, outside⟩ := inv.pending value announced
    exact ⟨mtx, set, same, after, fun j _ => outside j⟩
  · apply inv.whole
    intro j
    by_cases here : j = i
    · rw [here]
      exact idle
    · exact others j here

theorem enter (inv : s.Inv) {i : ι} {t : Thread} (mtx : s.rtc.mtx = 0)
    (good : t.Good s.rtc.ticks s.held) :
    ({ s with rtc.mtx := 1 }.goto i t : Sys ι).Inv := by
  obtain ⟨outside, unannounced⟩ := inv.clear mtx
  refine inv.step rfl (fun _ member => member) (.inl rfl) good (fun _ j _ => outside j)
    (fun _ => by simp [goto]) (fun _ _ _ => by simp [goto]) inv.quiet
    (fun value announced => ?_) (fun _ _ => ?_) inv.returned
  · exact absurd (unannounced.symm.trans announced) (by simp)
  · apply inv.whole
    intro j
    cases writes : (s.thread j).writes with
    | false => rfl
    | true => exact absurd (Thread.inside_of_writes writes) (by simp [outside j])

/-- A step inside a section, which a setter may use to store a byte. -/
theorem within (inv : s.Inv) {i : ι} {t : Thread} (ticks : Count)
    (before : (s.thread i).inside = true)
    (good : t.Good ticks s.held) (stores : t.writes = false → ticks = s.rtc.ticks)
    (reads : t.writes = false → (s.thread i).writes = false) :
    ({ s with rtc.ticks := ticks }.goto i t : Sys ι).Inv := by
  have unannounced := inv.none_announced before
  refine inv.step rfl (fun _ member => member) (.inr before) good
    (fun _ j other => inv.others_outside before j other)
    (fun _ => inv.locked i before) (fun j _ inside => inv.locked j inside) inv.quiet
    (fun value announced => ?_) (fun quiet others => ?_) inv.returned
  · exact absurd (unannounced.symm.trans announced) (by simp)
  · change ticks ∈ s.held
    rw [stores quiet]
    apply inv.whole
    intro j
    by_cases here : j = i
    · rw [here]
      exact reads quiet
    · exact others j here

theorem leave (inv : s.Inv) {i : ι} {t : Thread} (before : (s.thread i).inside = true)
    (reads : (s.thread i).writes = false) (after : t.inside = false)
    (good : s.rtc.ticks ∈ s.held → t.Good s.rtc.ticks s.held) :
    ({ s with rtc.mtx := 0 }.goto i t : Sys ι).Inv := by
  have unannounced := inv.none_announced before
  have others := inv.others_outside before
  have ticks : s.rtc.ticks ∈ s.held := by
    apply inv.whole
    intro j
    by_cases here : j = i
    · rw [here]
      exact reads
    · cases writes : (s.thread j).writes with
      | false => rfl
      | true => exact absurd (Thread.inside_of_writes writes) (by simp [others j here])
  refine inv.step rfl (fun _ member => member) (.inl rfl) (good ticks)
    (fun inside => ?_) (fun inside => ?_) (fun j other inside => ?_) inv.quiet
    (fun value announced => ?_) (fun _ _ => ticks) inv.returned
  · exact absurd inside (by simp [after])
  · exact absurd inside (by simp [after])
  · exact absurd inside (by simp [others j other])
  · exact absurd (unannounced.symm.trans announced) (by simp)

theorem announce (inv : s.Inv) {i : ι} (value : Count) (before : (s.thread i).inside = true)
    (stored : s.rtc.ticks = value) :
    ({ s with
        rtc.set := 1
        held := s.held ++ [value]
        announced := some value }.goto i .idle : Sys ι).Inv := by
  have others := inv.others_outside before
  refine inv.step rfl (fun _ member => List.mem_append_left _ member) (.inl rfl) trivial
    nofun nofun (fun j _ inside => inv.locked j inside) nofun
    (fun announced same => ?_) (fun _ _ => ?_)
    (fun count member => List.mem_append_left _ (inv.returned count member))
  · cases same
    exact ⟨inv.locked i before, by simp [goto], stored, rfl, others⟩
  · change s.rtc.ticks ∈ s.held ++ [value]
    simp [stored]

theorem stepGettix (inv : s.Inv) {i : ι} {pc : GettixPc} {d : Word} {out : Count}
    (at_ : s.thread i = .gettix pc d out) (waits : s.Waits (.run i)) :
    (s.stepGettix i pc d out).Inv := by
  have good := inv.good i
  rw [at_] at good
  cases pc with
  | pshs =>
      exact inv.outside (t := .gettix .clra d out) (by rw [at_]; rfl) rfl trivial s.returned
        inv.returned
  | clra =>
      exact inv.outside (t := .gettix .tfr d out) (by rw [at_]; rfl) rfl trivial s.returned
        inv.returned
  | tfr =>
      exact inv.outside (t := .gettix .lda d out) (by rw [at_]; rfl) rfl trivial s.returned
        inv.returned
  | lda =>
      exact inv.outside (t := .gettix .sta d out) (by rw [at_]; rfl) rfl trivial s.returned
        inv.returned
  | sta =>
      have mtx : s.rtc.mtx = 0 := by simpa [Waits, at_] using waits
      exact inv.enter mtx fun b below => absurd below (Nat.not_lt_zero _)
  | ldd k =>
      exact inv.within s.rtc.ticks (by rw [at_]; rfl) ⟨good, rfl⟩ (fun _ => rfl)
        (fun _ => by rw [at_]; rfl)
  | std k =>
      obtain ⟨agrees, rfl⟩ := good
      have further := fun b => Count.setWord_agrees agrees b
      rw [Sys.stepGettix]
      split
      · rename_i last
        apply inv.within s.rtc.ticks (by rw [at_]; rfl) _ (fun _ => rfl)
          (fun _ => by rw [at_]; rfl)
        funext b
        exact further b (by omega)
      · exact inv.within s.rtc.ticks (by rw [at_]; rfl) further (fun _ => rfl)
          (fun _ => by rw [at_]; rfl)
  | clr =>
      have read : out = s.rtc.ticks := good
      exact inv.leave (by rw [at_]; rfl) (by rw [at_]; rfl) rfl fun held => by
        rw [read]
        exact held
  | puls =>
      exact inv.outside (t := .gettix .rts d out) (by rw [at_]; rfl) rfl good s.returned
        inv.returned
  | rts =>
      apply inv.outside (t := .idle) (by rw [at_]; rfl) rfl trivial (s.returned ++ [out])
      intro count member
      rcases List.mem_append.mp member with earlier | new
      · exact inv.returned count earlier
      · rw [List.mem_singleton.mp new]
        exact good

theorem stepSetter (inv : s.Inv) {i : ι} {pc : SetterPc} {value : Count}
    (at_ : s.thread i = .setter pc value) (waits : s.Waits (.run i)) :
    (s.stepSetter i pc value).Inv := by
  have good := inv.good i
  rw [at_] at good
  cases pc with
  | mtx order =>
      have mtx : s.rtc.mtx = 0 := by simpa [Waits, at_] using waits
      exact inv.enter mtx fun b unwritten => absurd (good b) unwritten
  | write left =>
      have here : (s.thread i).inside = true := by rw [at_]; rfl
      cases left with
      | nil => exact inv.announce value here (funext fun b => good b (by simp))
      | cons b left =>
          apply inv.within (t := .setter (.write left) value) _ here _
            (fun quiet => by cases quiet) (fun quiet => by cases quiet)
          intro c unwritten
          by_cases now : c = b
          · rw [now, Function.update_self]
          · rw [Function.update_of_ne now]
            exact good c (by simp [now, unwritten])

omit [DecidableEq ι] in
/-- V_NMI, with RTC_MTX clear: a new public count. -/
theorem tick_clear (inv : s.Inv) (mtx : s.rtc.mtx = 0) : s.tick.Inv := by
  obtain ⟨outside, unannounced⟩ := inv.clear mtx
  have ticked : s.tick = { s with
      rtc := { s.rtc with
        ticksPriv := s.rtc.ticksPriv.increment
        ticks := s.rtc.ticksPriv.increment }
      held := s.held ++ [s.rtc.ticksPriv.increment]
      announced := none } := by
    rw [Sys.tick, Rtc.vNmi_clear mtx, if_pos mtx]
  rw [ticked]
  exact {
    alone := inv.alone
    locked := inv.locked
    quiet := fun _ => inv.quiet unannounced
    pending := nofun
    good := fun i => (inv.good i).outside (outside i) fun _ => List.mem_append_left _
    whole := fun _ => List.mem_append_right _ (List.mem_singleton.mpr rfl)
    returned := fun count member => List.mem_append_left _ (inv.returned count member) }

omit [DecidableEq ι] in
/-- With RTC_MTX set the public count stays; an announced one is taken. -/
theorem tick_set (inv : s.Inv) (mtx : s.rtc.mtx ≠ 0) : s.tick.Inv := by
  by_cases set : s.rtc.set = 0
  · have ticked : s.tick = { s with
        rtc := { s.rtc with ticksPriv := s.rtc.ticksPriv.increment }
        announced := none } := by
      rw [Sys.tick, Rtc.vNmi_held mtx set, if_neg mtx]
    rw [ticked]
    exact {
      alone := inv.alone
      locked := inv.locked
      quiet := fun _ => set
      pending := nofun
      good := inv.good
      whole := inv.whole
      returned := inv.returned }
  · have ticked : s.tick = { s with
        rtc := { s.rtc with ticksPriv := s.rtc.ticks, mtx := 0, set := 0 }
        announced := none } := by
      rw [Sys.tick, Rtc.vNmi_taken mtx set, if_neg mtx]
    have outside : ∀ i, (s.thread i).inside = false := by
      cases announced : s.announced with
      | none => exact absurd (inv.quiet announced) set
      | some value => exact (inv.pending value announced).2.2.2
    rw [ticked]
    exact {
      alone := inv.alone
      locked := fun i inside => absurd inside (by simp [outside i])
      quiet := fun _ => rfl
      pending := nofun
      good := inv.good
      whole := inv.whole
      returned := inv.returned }

theorem next {event : Event ι} (inv : s.Inv) (waits : s.Waits event)
    (step : s.next event = some s') : s'.Inv := by
  cases event with
  | tick =>
      simp only [Sys.next, Option.some.injEq] at step
      subst step
      by_cases mtx : s.rtc.mtx = 0
      · exact inv.tick_clear mtx
      · exact inv.tick_set mtx
  | gettix i =>
      rw [Sys.next] at step
      split at step
      · rename_i idle
        cases step
        exact inv.outside (t := .gettix .pshs 0 fun _ => 0) (by rw [idle]; rfl) rfl trivial
          s.returned inv.returned
      · cases step
  | setTicks i value order =>
      rw [Sys.next] at step
      split at step
      · rename_i idle
        simp only [Option.ite_none_right_eq_some, Option.some.injEq] at step
        obtain ⟨all, rfl⟩ := step
        exact inv.outside (t := .setter (.mtx order) value) (by rw [idle]; rfl) rfl all
          s.returned inv.returned
      · cases step
  | run i =>
      rw [Sys.next] at step
      split at step
      · cases step
      · rename_i pc d out at_
        cases step
        exact inv.stepGettix at_ waits
      · rename_i pc value at_
        cases step
        exact inv.stepSetter at_ waits

omit [DecidableEq ι] in
/-- Flags clear and every thread outside, as the reset leaves them. -/
theorem start (ticks ticksPriv : Count) :
    ({ rtc := { ticks, ticksPriv }, held := [ticks] } : Sys ι).Inv where
  alone _ _ first := by cases first
  locked _ inside := by cases inside
  quiet _ := rfl
  pending := nofun
  good _ := trivial
  whole _ := List.mem_singleton.mpr rfl
  returned := nofun

end Inv

/-- What the protocol is for: reads are whole, and an announced count stands until the
next tick, which takes it. -/
structure Kept (s : Sys ι) : Prop where
  returned : ∀ count ∈ s.returned, count ∈ s.held
  announced : ∀ value, s.announced = some value →
    s.rtc.ticks = value ∧ s.rtc.vNmi.ticksPriv = value

omit [DecidableEq ι] in
theorem Inv.kept {s : Sys ι} (inv : s.Inv) : s.Kept where
  returned := inv.returned
  announced value announced := by
    obtain ⟨mtx, set, same, -⟩ := inv.pending value announced
    refine ⟨same, ?_⟩
    rw [Rtc.vNmi_taken mtx set]
    exact same

/-- Reads are whole and sets are taken in every run whose sections start with RTC_MTX
clear. -/
theorem protocol_kept (ticks ticksPriv : Count) (events : List (Event ι)) (last : Sys ι)
    (waits : Run.Throughout next Waits
      ({ rtc := { ticks, ticksPriv }, held := [ticks] } : Sys ι) events)
    (ran : Run.run next ({ rtc := { ticks, ticksPriv }, held := [ticks] } : Sys ι) events =
      some last) : last.Kept :=
  (Run.run_invariant_throughout Inv (fun _ _ _ inv meets step => inv.next meets step)
    (Inv.start ticks ticksPriv) waits ran).kept

/-- A setter that starts on a clear RTC_MTX, interrupted by a tick before its stores. -/
theorem protocol_kept_setter :
    ∃ last : Sys Unit, Run.run next
        { rtc := { ticks := fun _ => 0, ticksPriv := fun _ => 0 }, held := [fun _ => 0] }
        [.setTicks () (fun _ => 7) [0, 1, 2, 3, 4, 5, 6, 7], .run (), .tick] = some last ∧
      last.Kept := by
  refine ⟨_, rfl, protocol_kept (fun _ => 0) (fun _ => 0)
    [.setTicks () (fun _ => 7) [0, 1, 2, 3, 4, 5, 6, 7], .run (), .tick] _ ⟨trivial, ?_⟩ rfl⟩
  intro started step
  cases step
  exact ⟨rfl, fun _ _ => ⟨trivial, fun _ _ => trivial⟩⟩

/-- One program: it sets the count, then reads it before the next tick. -/
def setThenRead : List (Event Unit) :=
  .setTicks () (fun _ => 7) [0, 1, 2, 3, 4, 5, 6, 7] :: List.replicate 10 (.run ()) ++
    .gettix () :: List.replicate 15 (.run ())

theorem set_lost :
    ¬∀ (events : List (Event Unit)) (last : Sys Unit),
      Run.run next
        { rtc := { ticks := fun _ => 0, ticksPriv := fun _ => 0 }, held := [fun _ => 0] }
        events = some last → last.Kept := by
  intro kept
  have lost := (kept setThenRead _ rfl).announced (fun _ => 7) rfl
  exact absurd (congrFun lost.2 7) (by decide)

end Sys

end Pugputer.Time

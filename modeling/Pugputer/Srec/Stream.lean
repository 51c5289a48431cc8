import Pugputer.Srec.Agreement

namespace Pugputer.Srec

/-! Whatever is received: the lines of a stream, one after the other. -/

namespace Loader

/-- The character is not part of any line. -/
def Ends (c : Byte) : Prop := c = escape ∨ c = chr '\r' ∨ c = chr '.'

instance (c : Byte) : Decidable (Ends c) := inferInstanceAs (Decidable (_ ∨ _ ∨ _))

variable {program : Loader → Loader} {s : Loader}

theorem key_cr : s.key program (chr '\r') = s.gotcr := by
  rw [key, if_neg (by decide), if_pos rfl]

/-- Any state with room in the buffer is one in which some line has been received. -/
theorem filled_of_x (fits : s.x ≤ 95) : Filled s ((List.range s.x).map s.linbuf) := by
  have size : ((List.range s.x).map s.linbuf).length = s.x := by
    rw [List.length_map, List.length_range]
  refine ⟨size.symm, size.trans_le fits, fun i inside => ?_⟩
  rw [size] at inside
  rw [List.getD_eq_getElem _ _ (size.symm ▸ inside), List.getElem_map, List.getElem_range]

theorem gotcr_inside {k : List Byte} (filled : Filled s k) : s.gotcr.All Effect.Inside := by
  by_cases takes : Takes (s.ended (k.takeWhile (· ≠ 0)).length).linbuf
      (k.takeWhile (· ≠ 0)).length s.userRam
  · exact (gotcr_taken filled takes).1
  · exact (gotcr_left filled takes).inside

/-- What every received character preserves. -/
theorem key_step (program : Loader → Loader) (fits : s.x ≤ 95) (c : Byte) :
    (s.key program c).All Effect.Inside ∧ (s.key program c).value.x ≤ 95 ∧
      (Ends c → (s.key program c).value.x = 0) := by
  have reset {x : Acting Loader} (inside : x.All Effect.Inside) (zero : x.value.x = 0) :
      x.All Effect.Inside ∧ x.value.x ≤ 95 ∧ (Ends c → x.value.x = 0) :=
    ⟨inside, zero.trans_le (Nat.zero_le 95), fun _ => zero⟩
  by_cases ends : Ends c
  · rcases ends with rfl | rfl | rfl
    · exact reset ((quiet_say _ _).bind (quiet_endparse _)).inside rfl
    · rw [key_cr]
      exact reset (gotcr_inside (filled_of_x fits)) (gotcr_x (filled_of_x fits))
    · exact reset ((quiet_say _ _).bind (quiet_endparse _)).inside rfl
  · obtain ⟨notEscape, notCr, notDot⟩ : c ≠ escape ∧ c ≠ chr '\r' ∧ c ≠ chr '.' :=
      ⟨fun same => ends (.inl same), fun same => ends (.inr (.inl same)),
        fun same => ends (.inr (.inr same))⟩
    rw [key, if_neg notEscape, if_neg notCr, if_neg notDot]
    split
    · exact ⟨(Logged.all_pure s).mpr trivial, fits, fun ended => absurd ended ends⟩
    · refine ⟨((quiet_storeLin (by omega) c s).bind (.pure _)).inside, ?_,
        fun ended => absurd ended ends⟩
      change s.x + 1 ≤ 95
      omega

/-- A whole stream stays inside the buffers and programs' memory. -/
theorem keys_inside (program : Loader → Loader) (fits : s.x ≤ 95) (stream : List Byte) :
    (s.keys program stream).All Effect.Inside ∧ (s.keys program stream).value.x ≤ 95 := by
  induction stream generalizing s with
  | nil => exact ⟨(Logged.all_pure s).mpr trivial, fits⟩
  | cons c rest ih =>
      obtain ⟨inside, next, -⟩ := key_step program fits c
      obtain ⟨later, last⟩ := ih next
      rw [keys, List.foldlM_cons]
      exact ⟨(Logged.all_bind _ _).mpr ⟨inside, later⟩, last⟩

theorem keys_append (program : Loader → Loader) (front rest : List Byte) (s : Loader) :
    s.keys program (front ++ rest) = s.keys program front >>= fun s => s.keys program rest :=
  List.foldlM_append

/-- One more character of a line. -/
theorem key_plain {before : List Byte} {c : Byte} (plain : ¬Ends c)
    (filled : Filled s (before.take 95)) :
    Quiet (s.key program c) ∧ Filled (s.key program c).value ((before ++ [c]).take 95) ∧
      (s.key program c).value.userRam = s.userRam := by
  obtain ⟨notEscape, notCr, notDot⟩ : c ≠ escape ∧ c ≠ chr '\r' ∧ c ≠ chr '.' :=
    ⟨fun same => plain (.inl same), fun same => plain (.inr (.inl same)),
      fun same => plain (.inr (.inr same))⟩
  have x := filled.x
  rw [List.length_take] at x
  rw [key, if_neg notEscape, if_neg notCr, if_neg notDot]
  by_cases full : 95 ≤ s.x
  · have kept : (before ++ [c]).take 95 = before.take 95 :=
      List.take_append_of_le_length (by omega)
    rw [if_pos full, kept]
    exact ⟨.pure s, filled, rfl⟩
  · have whole : before.take 95 = before := List.take_of_length_le (by omega)
    have longer : (before ++ [c]).take 95 = before ++ [c] := by
      apply List.take_of_length_le
      rw [List.length_append, List.length_singleton]
      omega
    have atEnd : s.x = before.length := by omega
    rw [if_neg full, longer]
    refine ⟨(quiet_storeLin (by omega) c s).bind (.pure _), ⟨?_, ?_, fun i inside => ?_⟩, rfl⟩
    · rw [List.length_append, ← atEnd]
      rfl
    · rw [List.length_append, List.length_singleton]
      omega
    · rw [List.length_append, List.length_singleton] at inside
      change Function.update s.linbuf s.x c i = _
      by_cases last : i = before.length
      · rw [last, atEnd, Function.update_self, List.getD_append_right _ _ _ _ (Nat.le_refl _),
          Nat.sub_self]
        rfl
      · rw [Function.update_of_ne (by omega), List.getD_append _ _ _ _ (by omega)]
        have old := filled.linbuf i
        rw [whole] at old
        exact old (by omega)

/-- The characters of a line are kept, as many as there is room for. -/
theorem keys_plain {before line : List Byte} (plain : ∀ c ∈ line, ¬Ends c)
    (filled : Filled s (before.take 95)) :
    Quiet (s.keys program line) ∧
      Filled (s.keys program line).value ((before ++ line).take 95) ∧
      (s.keys program line).value.userRam = s.userRam := by
  induction line generalizing s before with
  | nil =>
      rw [List.append_nil]
      exact ⟨.pure s, filled, rfl⟩
  | cons c rest ih =>
      obtain ⟨here, later⟩ := List.forall_mem_cons.mp plain
      obtain ⟨quiet, filled', user⟩ :=
        @key_plain program _ _ _ here filled
      obtain ⟨quiet', filled'', user'⟩ := ih later filled'
      rw [keys, List.foldlM_cons]
      rw [List.append_assoc] at filled''
      exact ⟨quiet.bind quiet', filled'', user'.trans user⟩

/-- What is stored for a line, from its start to the CR. -/
theorem line_stores (program : Loader → Loader) (start : s.x = 0) {line : List Byte}
    (plain : ∀ c ∈ line, ¬Ends c) :
    (∀ r, line.getD 0 0 = chr 'S' → Acceptable s.userRam (zeroed (seen line)) r →
      stores (s.keys program (line ++ [chr '\r'])).log = r.carried) ∧
    ((¬∃ r, line.getD 0 0 = chr 'S' ∧ Acceptable s.userRam (zeroed (seen line)) r) →
      stores (s.keys program (line ++ [chr '\r'])).log = []) := by
  have empty : Filled s (List.take 95 ([] : List Byte)) :=
    ⟨start, Nat.zero_le 95, fun _ inside => absurd inside (Nat.not_lt_zero _)⟩
  obtain ⟨quiet, filled, user⟩ := @keys_plain program _ _ _ plain empty
  rw [List.nil_append] at filled
  have whole : stores (s.keys program (line ++ [chr '\r'])).log =
      stores (s.keys program line).value.gotcr.log := by
    rw [keys_append, quiet.stores_bind, keys, List.foldlM_cons]
    simp only [List.foldlM_nil, bind_pure, key_cr]
  rw [whole]
  generalize (s.keys program line).value = t at filled user
  have same : ∀ i < (seen line).length,
      (t.ended (seen line).length).linbuf i = (seen line).getD i 0 :=
    fun i inside => ended_linbuf filled inside _
  have first (long : 0 < (seen line).length) : (seen line).getD 0 0 = line.getD 0 0 := by
    rw [List.getD_eq_getElem?_getD, List.getD_eq_getElem?_getD, seen_getElem? long]
  constructor
  · intro r starts acceptable
    have long := acceptable.length
    rw [zeroed_length] at long
    obtain ⟨takes, rfl⟩ := takes_of_acceptable ((first (by omega)).trans starts) acceptable
    obtain ⟨takes', made'⟩ := takes.congr fun i inside => (same i inside).symm
    rw [made']
    exact (gotcr_taken filled (user ▸ takes')).2
  · intro none
    refine (gotcr_left filled fun takes => none ?_).stores
    obtain ⟨takes', -⟩ := Takes.congr takes same
    have some := takes'.some
    have whole : 2 * count ((seen line).getD · 0) + 4 ≤ (seen line).length := takes'.whole
    refine ⟨_, ?_, user ▸ acceptable_of_takes takes'⟩
    rw [← first (by omega)]
    exact takes'.starts.1

/-- Received from `s` on, a line is complete, and `s'` is the state it starts in. -/
def Completed (program : Loader → Loader) (stream : List Byte) (s s' : Loader)
    (line : List Byte) : Prop :=
  ∃ before after, stream = before ++ line ++ chr '\r' :: after ∧
    (∀ c ∈ before.getLast?, Ends c) ∧ (∀ c ∈ line, ¬Ends c) ∧
    s' = (s.loaderStart program before).value

/-- The loader's stores are inside its buffers and programs' memory, and each line completed
does to programs' memory what the host's loader would. -/
structure Contract (program : Loader → Loader) (stream : List Byte) (s : Loader) : Prop where
  inside : ∀ e ∈ (s.loaderStart program stream).log, e.Inside
  lines : ∀ s' line, Completed program stream s s' line →
    StoresRight s'.userRam line (stores (s'.keys program (line ++ [chr '\r'])).log)

theorem keys_fresh (program : Loader → Loader) (start : s.x = 0) {stream : List Byte}
    (last : ∀ c ∈ stream.getLast?, Ends c) : (s.keys program stream).value.x = 0 := by
  cases stream using List.reverseRecOn with
  | nil => exact start
  | append_singleton stream c =>
      have ends : Ends c := last c (by rw [List.getLast?_concat]; rfl)
      rw [keys_append, Logged.value_bind, keys, List.foldlM_cons]
      simp only [List.foldlM_nil, bind_pure]
      have fits := (keys_inside program (start.trans_le (Nat.zero_le 95)) stream).2
      exact (key_step program fits c).2.2 ends

theorem completed_right {stream line : List Byte} {s' : Loader}
    (completed : Completed program stream s s' line) :
    StoresRight s'.userRam line (stores (s'.keys program (line ++ [chr '\r'])).log) ↔
      ¬LowerCase s'.userRam line ∧ ¬ZeroRead s'.userRam line := by
  obtain ⟨before, after, -, last, plain, rfl⟩ := completed
  have fresh : (s.loaderStart program before).value.x = 0 :=
    @keys_fresh _ program rfl before last
  obtain ⟨taken, left⟩ := line_stores program fresh plain
  exact storesRight_iff taken left

/-- The loader keeps its contract on every stream but for lines with lower-case letters the
host takes for digits, and lines whose other characters it reads as 0. -/
theorem loaderStart_contract (program : Loader → Loader) (stream : List Byte) (s : Loader) :
    Contract program stream s ↔
      ∀ s' line, Completed program stream s s' line →
        ¬LowerCase s'.userRam line ∧ ¬ZeroRead s'.userRam line := by
  constructor
  · intro contract s' line completed
    exact (completed_right completed).mp (contract.lines s' line completed)
  · intro never
    refine ⟨?_, fun s' line completed =>
      (completed_right completed).mpr (never s' line completed)⟩
    have stream := (@keys_inside { s with x := 0 } program (Nat.zero_le 95) stream).1
    exact (Logged.all_bind _ _).mpr ⟨(quiet_say _ _).inside,
      (Logged.all_bind _ _).mpr ⟨(quiet_endparse _).inside, stream⟩⟩

/-- A data byte that is not hex: `S104`, the address $2000, `GG` and the checksum for 0. -/
def strayDigits : List Byte :=
  ['S', '1', '0', '4', '2', '0', '0', '0', 'G', 'G', 'D', 'B'].map chr

/-- A BIOS with its RAM below $0600. -/
def bios : Loader where
  linbuf := fun _ => 0
  srecbuf := fun _ => 0
  srecchk := 0
  srecbc := 0
  hextmp := 0
  sreclen := 0
  userRam := 0x0600
  ram := fun _ => 0xFF
  x := 0

theorem stray_digits_stored :
    ¬Contract id (strayDigits ++ [chr '\r']) bios := by
  intro contract
  have completed : Completed id (strayDigits ++ [chr '\r']) bios
      (bios.loaderStart id []).value strayDigits :=
    ⟨[], [], rfl, nofun, by decide, rfl⟩
  have read : Acceptable 0x0600 (zeroed (seen strayDigits)) ⟨chr '1', 0x2000, [0]⟩ :=
    ⟨rfl, rfl, by decide, by decide, by decide, by decide⟩
  refine ((completed_right completed).mp (contract.lines _ _ completed)).2 ⟨rfl, _, read, ?_⟩
  exact ⟨chr 'G', by decide, by decide⟩

end Loader

end Pugputer.Srec

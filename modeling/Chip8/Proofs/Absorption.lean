import Chip8.Proofs.Determinism
import Chip8.Proofs.Sessions
import Chip8.Proofs.Waiting

/-!
Waiting within a session. Nothing in a session touches the keys once it has started, so a machine
that waits for one waits for ever: its session goes on to its limit, if it has one, and nothing more
happens to it than that the sound ends. The session says that it waits when this begins, and only
then.
-/

namespace Chip8

namespace Machine

variable {σ : Type} [ByteSource σ]

theorem keypad_after (m : Machine σ) (n : Nat) : (m.after n).state.keypad = m.state.keypad := by
  induction n generalizing m with
  | zero => rfl
  | succ n ih => rw [after_succ, ih, keypad_cycle]

end Machine

namespace Host.Session

variable {σ : Type} {options : Options}

/-- The keys that are held are those that were held before and those that the characters stand
for. -/
theorem mem_heldKeys_holdKeys (m : Machine σ) (cs : List Char) (j : Nibble) :
    j ∈ (holdKeys m cs).1.state.keypad.heldKeys ↔
      (∃ c ∈ cs, Keypad.keyOf? c = some j) ∨ j ∈ m.state.keypad.heldKeys := by
  induction cs generalizing m with
  | nil => simp [holdKeys]
  | cons c rest ih =>
    cases hc : Keypad.keyOf? c with
    | none => simp [holdKeys, hc, ih]
    | some key =>
      have hkey : (UInt8.ofNat key.val).toNat = j.val ↔ key = j := by
        rw [UInt8.toNat_ofNat_of_lt' (by have := key.isLt; show _ < 256; omega), Fin.ext_iff]
      have hpress : j ∈ (m.press (UInt8.ofNat key.val)).state.keypad.heldKeys ↔
          key = j ∨ j ∈ m.state.keypad.heldKeys :=
        (Keypad.mem_heldKeys_press ..).trans (or_congr_left hkey)
      simp only [holdKeys, hc, ih, hpress, List.mem_cons, exists_eq_or_imp, Option.some.injEq]
      rw [or_left_comm, or_assoc]

theorem count_cycle {e : Entry} (he : ∀ notice, e ≠ .machine notice) (notices : List Notice)
    (remarks : List Entry) : (notices.map Entry.machine ++ remarks).count e = remarks.count e := by
  rw [List.count_append, List.count_eq_zero.mpr (machine_not_mem he notices), Nat.zero_add]

theorem count_waiting_remarks (s : Session σ) (r : Report) :
    (s.remarks r).count .waiting = (r.awaitingKey && !s.waiting).toNat := by
  simp only [remarks]
  cases r.beep <;> cases r.awaitingKey <;> cases s.waiting <;> rfl

theorem count_beep_remarks (s : Session σ) (r : Report) :
    (s.remarks r).count .beep = r.beep.toNat := by
  simp only [remarks]
  cases r.beep <;> cases r.awaitingKey <;> cases s.waiting <;> rfl

variable [ByteSource σ]

/-- The next cycle of the session, if there is one, waits for a key. -/
def Waits (s : Session σ) : Prop := ∃ r, s.machine.cycle.answer = .ok r ∧ r.awaitingKey = true

theorem waits_iff_waitsFor (s : Session σ) : s.Waits ↔ ∃ x, s.machine.WaitsFor x :=
  Machine.waits_iff

section Log

variable {s t : Session σ} {n : Nat} {log : List Entry}

/-- The session says that it waits when it begins to, and as it never ceases to, its flag and its
log tell the same. -/
theorem Reaches.count_waiting (h : Reaches options s n t log) (hs : s.waiting = true → s.Waits) :
    s.waiting.toNat + log.count .waiting = t.waiting.toNat := by
  induction h with
  | refl s => rfl
  | @next s u t n first rest hl hstep hrest ih =>
    obtain ⟨r, hr, rfl, rfl⟩ := step_eq_ok_iff.mp hstep
    have hu : (s.reported r).waiting = true → (s.reported r).Waits := by
      intro hw
      obtain ⟨x, hx⟩ := s.waits_iff_waitsFor.mp ⟨r, hr, hw⟩
      exact (waits_iff_waitsFor _).mpr ⟨x, hx.after 1⟩
    have hkept : s.waiting = true → r.awaitingKey = true := by
      intro hw
      obtain ⟨r', hr', ha⟩ := hs hw
      cases hr.symm.trans hr'
      exact ha
    rw [← ih hu, List.count_append, count_cycle (fun _ h => by cases h), count_waiting_remarks]
    change _ = r.awaitingKey.toNat + _
    cases hw : s.waiting with
    | true => simp [hkept hw]
    | false => simp

theorem Reaches.waiting_iff (h : Reaches options s n t log) :
    t.waiting = true ↔ s.waiting = true ∧ n = 0 ∨
      ∃ k < n, ∃ x, (s.machine.after k).WaitsFor x := by
  induction h with
  | refl s => simp
  | @next s u t n first rest hl hstep hrest ih =>
    obtain ⟨r, hr, rfl, rfl⟩ := step_eq_ok_iff.mp hstep
    have hw : r.awaitingKey = true ↔ ∃ x, s.machine.WaitsFor x := by
      refine Iff.trans ?_ Machine.waits_iff
      constructor
      · exact fun ha => ⟨r, hr, ha⟩
      · rintro ⟨r', hr', ha⟩
        cases hr.symm.trans hr'
        exact ha
    rw [ih]
    constructor
    · rintro (⟨ha, rfl⟩ | ⟨k, hk, hx⟩)
      · exact Or.inr ⟨0, Nat.zero_lt_one, hw.mp ha⟩
      · exact Or.inr ⟨k + 1, Nat.succ_lt_succ hk, hx⟩
    · rintro (⟨-, h0⟩ | ⟨k, hk, x, hx⟩)
      · cases h0
      · cases k with
        | succ k => exact Or.inr ⟨k, Nat.lt_of_succ_lt_succ hk, x, hx⟩
        | zero =>
          cases n with
          | zero => exact Or.inl ⟨hw.mpr ⟨x, hx⟩, rfl⟩
          | succ n => exact Or.inr ⟨0, Nat.zero_lt_succ n, x, hx.after 1⟩

/-- While a session waits, the end of the sound is all that can be heard. -/
theorem Reaches.count_beep {x : Nibble} (h : Reaches options s n t log)
    (hs : s.machine.WaitsFor x) :
    log.count .beep =
      if 0 < s.machine.state.timers.sound.toNat ∧ s.machine.state.timers.sound.toNat ≤ n
      then 1 else 0 := by
  induction h with
  | refl s =>
    rw [if_neg (by omega)]
    rfl
  | @next s u t n first rest hl hstep hrest ih =>
    obtain ⟨r, hr, rfl, rfl⟩ := step_eq_ok_iff.mp hstep
    have hbeep : r.beep.toNat = if s.machine.state.timers.sound.toNat = 1 then 1 else 0 := by
      have ha := Machine.answer_after_of_waits hs 0
      rw [Machine.after_zero] at ha
      cases hr.symm.trans ha
      rw [Nat.zero_add]
      split
      · rename_i hone
        rw [decide_eq_true hone]
        rfl
      · rename_i hone
        rw [decide_eq_false hone]
        rfl
    have hsound : (s.reported r).machine.state.timers.sound.toNat =
        s.machine.state.timers.sound.toNat - 1 := by
      change s.machine.cycle.machine.state.timers.sound.toNat = _
      rw [(Machine.cycle_of_waits hs).1]
      exact Timers.toNat_ofNat_sub _ 1
    rw [List.count_append, count_cycle (fun _ h => by cases h), count_beep_remarks, hbeep,
      ih (hs.after 1), hsound]
    generalize s.machine.state.timers.sound.toNat = sound
    rcases sound with _ | _ | sound
    · simp
    · simp
    · simp

end Log

section Execution

variable {opened : Except String Reader} {source : σ} {k n : Nat} {s t : Session σ}
  {before log : List Entry}

/-- Cycle number `k + 1` of the execution of a session is run and waits. -/
def WaitsAt (options : Options) (opened : Except String Reader) (source : σ) (k : Nat) : Prop :=
  ∃ s log, Reached options opened source k s log ∧ s.atLimit options = false ∧ s.Waits

theorem Reached.frozen (hs : Reached options opened source k s before) (hw : s.Waits)
    (ht : Reached options opened source n t log) (hk : k ≤ n) :
    t.Waits ∧ t.machine.state.registers = s.machine.state.registers ∧
      t.machine.state.memory = s.machine.state.memory ∧
      t.machine.state.screen.rows = s.machine.state.screen.rows := by
  obtain ⟨rest, hr, -⟩ := hs.reaches ht hk
  obtain ⟨x, hx⟩ := s.waits_iff_waitsFor.mp hw
  have hm := hr.machine_eq
  refine ⟨t.waits_iff_waitsFor.mpr ⟨x, ?_⟩, ?_⟩
  · rw [hm]
    exact hx.after _
  · rw [hm]
    exact Machine.frozen_after_of_waits hx _

/-- After its first cycle of waiting a session logs at most the end of the sound. -/
theorem Reached.count_beep_after (hs : Reached options opened source k s before) (hw : s.Waits)
    (ht : Reached options opened source n t log) (hk : k < n) :
    ∃ u first rest, Reached options opened source (k + 1) u first ∧ log = first ++ rest ∧
      rest.count .beep ≤ 1 := by
  obtain ⟨u, first, rest, hu, hr, hlog⟩ := ht.split (Nat.succ_le_of_lt hk)
  obtain ⟨x, hx⟩ := u.waits_iff_waitsFor.mp (hs.frozen hw hu (Nat.le_succ k)).1
  refine ⟨u, first, rest, hu, hlog, ?_⟩
  rw [hr.count_beep hx]
  split
  · exact Nat.le_refl 1
  · exact Nat.zero_le 1

theorem Reached.log_waiting (h : Reached options opened source n t log) :
    log.count .waiting ≤ 1 ∧ (Entry.waiting ∈ log ↔ ∃ k < n, WaitsAt options opened source k) := by
  obtain ⟨reader, start, more, hs, hstart, hr, hlog⟩ := h.of_ready
  have hquiet : Entry.waiting ∉ start := fun he => hstart _ he
  have hcount := hr.count_waiting fun hw => by cases hw
  have hiff := hr.waiting_iff
  simp only [Bool.false_eq_true, false_and, false_or] at hiff
  rw [Bool.toNat_false, Nat.zero_add] at hcount
  constructor
  · rw [hlog, List.count_append, List.count_eq_zero.mpr hquiet, Nat.zero_add, hcount]
    exact Bool.toNat_le t.waiting
  · have hmem : Entry.waiting ∈ log ↔ t.waiting = true := by
      rw [hlog, List.mem_append, or_iff_right hquiet, ← List.count_pos_iff, hcount]
      cases t.waiting <;> simp
    rw [hmem, hiff]
    refine exists_congr fun k => and_congr_right fun hk => ?_
    obtain ⟨u, first, rest, hu, -, -⟩ := h.split (Nat.le_of_lt hk)
    obtain ⟨_, _, _, hs', hr', -⟩ := id hu
    cases hs.symm.trans hs'
    rw [← hr'.machine_eq, ← u.waits_iff_waitsFor]
    constructor
    · exact fun hw => ⟨u, first, hu, (hu.goes_on h hk).1, hw⟩
    · rintro ⟨v, _, hv, -, hw⟩
      rw [(hu.unique hv).1]
      exact hw

/-- A session that waits ends at its limit or not at all. -/
theorem ends_at_limit {fuel : Nat} {o : Outcome} (h : run options opened source fuel = some o)
    (hs : Reached options opened source k s before) (hw : s.Waits) :
    ∃ N t log, options.cycles = some N ∧ Reached options opened source N.toNat t log ∧
      o = ⟨.ok (t.printed options), log ++ [t.summary]⟩ := by
  rcases run_cases h with ⟨failure, hf, -⟩ | ⟨n, t, log, ht, ⟨hl, ho⟩ | ⟨-, f, hf, -⟩⟩
  · obtain ⟨_, _, _, hstart, -⟩ := hs
    cases hf.symm.trans hstart
  · obtain ⟨N, hN, rfl⟩ := ht.eq_limit hl
    exact ⟨N, t, log, hN, ht, ho⟩
  · -- a fault is met neither from the wait on nor before it
    rcases Nat.lt_or_ge n k with hlt | hge
    · have hok := (ht.goes_on hs hlt).2
      rw [hf] at hok
      cases hok
    · obtain ⟨r, hr, -⟩ := (hs.frozen hw ht hge).1
      cases hf.symm.trans hr

theorem log_waiting_of_run {fuel : Nat} {o : Outcome}
    (h : run options opened source fuel = some o) :
    o.log.count .waiting ≤ 1 ∧ (.waiting ∈ o.log ↔ ∃ k, WaitsAt options opened source k) := by
  rcases run_cases h with ⟨failure, hf, rfl⟩ | ⟨n, t, log, ht, hend⟩
  · refine ⟨Nat.zero_le 1, iff_of_false (List.not_mem_nil) ?_⟩
    rintro ⟨k, s, _, ⟨_, _, _, hstart, -⟩, -⟩
    cases hf.symm.trans hstart
  · obtain ⟨hcount, hiff⟩ := ht.log_waiting
    -- the session ends where it is, so that a cycle which waits came before
    have hbefore : (∃ k, WaitsAt options opened source k) ↔
        ∃ k < n, WaitsAt options opened source k := by
      refine ⟨?_, fun ⟨k, _, hk⟩ => ⟨k, hk⟩⟩
      rintro ⟨k, s, first, hs, hl, hw⟩
      refine ⟨k, Nat.lt_of_not_le fun hge => ?_, s, first, hs, hl, hw⟩
      have hgo : t.atLimit options = false ∧ t.machine.cycle.answer.isOk = true := by
        rcases Nat.lt_or_eq_of_le hge with hlt | rfl
        · exact ht.goes_on hs hlt
        · obtain ⟨rfl, -⟩ := hs.unique ht
          obtain ⟨r, hr, -⟩ := hw
          exact ⟨hl, by rw [hr]; rfl⟩
      rcases hend with ⟨hlt, -⟩ | ⟨-, f, hf, -⟩
      · cases hgo.1.symm.trans hlt
      · have hok := hgo.2
        rw [hf] at hok
        cases hok
    have hquiet : ∃ more, o.log = log ++ more ∧ Entry.waiting ∉ more := by
      rcases hend with ⟨-, rfl⟩ | ⟨-, f, -, rfl⟩
      · exact ⟨_, rfl, fun he => by cases List.mem_singleton.mp he⟩
      · exact ⟨_, rfl, machine_not_mem (fun _ he => by cases he) _⟩
    obtain ⟨more, ho, hmore⟩ := hquiet
    rw [ho, List.count_append, List.count_eq_zero.mpr hmore, List.mem_append, or_iff_left hmore,
      hbefore]
    exact ⟨hcount, hiff⟩

theorem not_waits_of_mapped {c : Char} (hc : c ∈ options.keys.toList)
    (hkey : (Keypad.keyOf? c).isSome = true) (h : Reached options opened source n s log) :
    ¬ s.Waits := by
  intro hw
  obtain ⟨x, hx⟩ := s.waits_iff_waitsFor.mp hw
  obtain ⟨reader, start, more, -, -, hr, -⟩ := h.of_ready
  obtain ⟨j, hj⟩ := Option.isSome_iff_exists.mp hkey
  have hheld : j ∈ s.machine.state.keypad.heldKeys := by
    rw [hr.machine_eq, Machine.keypad_after]
    exact (mem_heldKeys_holdKeys ..).mpr (Or.inl ⟨c, hc, hj⟩)
  rw [hx.free] at hheld
  cases hheld

end Execution

/-- In the execution of a session waiting is for good. Once a cycle waits, every later one succeeds
and waits as well; registers, memory and picture stay as they are; no more than one beep follows;
and if the session ends, it is at its limit and not with a fault. So the session says at most once
that it waits, and says it just if some cycle of it does. With a key held from the start none
does. -/
theorem waiting_absorbs (options : Options) (opened : Except String Reader) (source : σ) :
    (∀ k s before, Reached options opened source k s before → s.Waits →
      (∀ n t log, k ≤ n → Reached options opened source n t log →
        t.Waits ∧ t.machine.state.registers = s.machine.state.registers ∧
          t.machine.state.memory = s.machine.state.memory ∧
          t.machine.state.screen.rows = s.machine.state.screen.rows) ∧
      (∀ n t log, k < n → Reached options opened source n t log →
        ∃ u first rest, Reached options opened source (k + 1) u first ∧ log = first ++ rest ∧
          rest.count .beep ≤ 1) ∧
      (∀ fuel o, run options opened source fuel = some o →
        ∃ N t log, options.cycles = some N ∧ Reached options opened source N.toNat t log ∧
          o = ⟨.ok (t.printed options), log ++ [t.summary]⟩)) ∧
    (∀ n t log, Reached options opened source n t log → log.count .waiting ≤ 1 ∧
      (.waiting ∈ log ↔ ∃ k < n, WaitsAt options opened source k)) ∧
    (∀ fuel o, run options opened source fuel = some o → o.log.count .waiting ≤ 1 ∧
      (.waiting ∈ o.log ↔ ∃ k, WaitsAt options opened source k)) ∧
    ((∃ c ∈ options.keys.toList, (Keypad.keyOf? c).isSome = true) →
      ∀ n s log, Reached options opened source n s log → ¬ s.Waits) := by
  refine ⟨?_, fun n t log h => h.log_waiting, fun fuel o h => log_waiting_of_run h, ?_⟩
  · intro k s before hs hw
    refine ⟨fun n t log hk ht => hs.frozen hw ht hk,
      fun n t log hk ht => hs.count_beep_after hw ht hk, fun fuel o h => ends_at_limit h hs hw⟩
  · rintro ⟨c, hc, hkey⟩ n s log h
    exact not_waits_of_mapped hc hkey h

end Host.Session

end Chip8

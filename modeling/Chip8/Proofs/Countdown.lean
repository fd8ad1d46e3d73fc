import Chip8.Proofs.Faults

/-!
The timers over whole runs. Of all events only the cycles that succeed reach them: the instruction
may set one, and then both count. So a timer shows what was written to it last, less one for each
cycle since then (`Machine.shows_atCycle`), and the cycle that beeps is known from the last write to
the sound timer.
-/

namespace Chip8

inductive Timer where
  | delay
  | sound
  deriving DecidableEq, Repr

namespace Timer

/-- The last digit of the opcodes that set the timer. -/
def digit : Timer → Nibble
  | .delay => 5
  | .sound => 8

/-- The instruction that sets the timer to what is in `x`. -/
def setter (x : Nibble) : Timer → Instruction
  | .delay => .setDelay x
  | .sound => .setSound x

theorem table_setter (k : Timer) (x : Nibble) : Instruction.Table 0xF x 1 k.digit (k.setter x) := by
  cases k with
  | delay => exact .setDelay x
  | sound => exact .setSound x

theorem digits_of_table_setter {k : Timer} {x a b c d : Nibble}
    (h : Instruction.Table a b c d (k.setter x)) : (a, b, c, d) = (0xF, x, 1, k.digit) := by
  cases k with
  | delay =>
    cases h
    rfl
  | sound =>
    cases h
    rfl

end Timer

namespace Timers

def read (t : Timers) : Timer → UInt8
  | .delay => t.delay
  | .sound => t.sound

theorem read_tick (t : Timers) (k : Timer) : t.tick.read k = countDown (t.read k) := by
  cases k <;> rfl

theorem toNat_read_tick (t : Timers) (k : Timer) :
    (t.tick.read k).toNat = (t.read k).toNat - 1 := by
  rw [read_tick, toNat_countDown]

theorem beeps_iff (t : Timers) : t.beeps = true ↔ (t.read .sound).toNat = 1 := by
  rw [beeps, decide_eq_true_eq, ← UInt8.toNat_inj]
  rfl

end Timers

namespace State

@[simp] theorem timers_setRegisters (s : State) (r : RegisterFile) :
    (s.setRegisters r).timers = s.timers := rfl

/-- The timers after an instruction that is executed in `s`, before they count. -/
def timersAfter (s : State) : Instruction → Timers
  | .setDelay x => { s.timers with delay := s.registers.get x }
  | .setSound x => { s.timers with sound := s.registers.get x }
  | _ => s.timers

theorem Executes.timers {s t : State} {b : UInt8} {i : Instruction} {e : Ending}
    (h : s.Executes b i e t) : t.timers = s.timersAfter i := by
  cases h with
  -- not by `rfl`, which compares all the registers
  | restore => exact timers_setRegisters _ _
  | _ => rfl

theorem timersAfter_advance (s : State) (i : Instruction) :
    s.advance.timersAfter i = s.timersAfter i := by
  cases i <;> rfl

theorem read_timersAfter_setter (s : State) (k : Timer) (x : Nibble) :
    (s.timersAfter (k.setter x)).read k = s.registers.get x := by
  cases k <;> rfl

theorem read_timersAfter_of_ne {s : State} {k : Timer} {i : Instruction}
    (h : ∀ x, i ≠ k.setter x) : (s.timersAfter i).read k = s.timers.read k := by
  cases i with
  | setDelay x =>
    cases k with
    | delay => exact absurd rfl (h x)
    | sound => rfl
  | setSound x =>
    cases k with
    | delay => rfl
    | sound => exact absurd rfl (h x)
  | _ => rfl

end State

namespace Machine

variable {σ : Type}

/-- The instruction that `m` meets sets timer `k` to `b`. -/
def Sets (m : Machine σ) (k : Timer) (b : UInt8) : Prop :=
  ∃ x, m.state.Meets 0xF x 1 k.digit ∧ m.state.registers.get x = b

theorem sets_iff {m : Machine σ} {op : Opcode} (hop : m.state.fetch = .ok op) (k : Timer)
    (b : UInt8) :
    m.Sets k b ↔ ∃ x, Instruction.decode op = k.setter x ∧ m.state.registers.get x = b := by
  refine exists_congr fun x => and_congr_left' ?_
  exact State.meets_iff_decode hop (k.table_setter x) Timer.digits_of_table_setter

variable [ByteSource σ]

/-- A cycle that succeeds lets the timers count once its instruction has been executed. -/
theorem timers_of_ok {m : Machine σ} {r : Report} (h : m.cycle.answer = .ok r) :
    ∃ t : Timers, m.cycle.machine.state.timers = t.tick ∧ r.beep = t.beeps ∧
      ∀ k, (∀ b, m.Sets k b → t.read k = b) ∧
        ((∀ b, ¬ m.Sets k b) → t.read k = m.state.timers.read k) := by
  obtain ⟨op, ending, w, -, hop, hx, rfl, hc⟩ := cycle_of_ok h
  have ht : w.state.timers = m.state.timersAfter (.decode op) :=
    (Work.executes_of_run_execute hx).timers.trans (m.state.timersAfter_advance _)
  refine ⟨w.state.timers, by rw [hc]; rfl, rfl, fun k => ⟨fun b hb => ?_, fun hn => ?_⟩⟩
  · obtain ⟨x, hi, hb⟩ := (sets_iff hop k b).mp hb
    rw [ht, hi, State.read_timersAfter_setter, hb]
  · rw [ht]
    refine State.read_timersAfter_of_ne fun x hi => hn (m.state.registers.get x) ?_
    exact (sets_iff hop k _).mpr ⟨x, hi, rfl⟩

theorem timers_of_error {m : Machine σ} {f : Fault} (h : m.cycle.answer = .error f) :
    m.cycle.machine.state.timers = m.state.timers := by
  have hok : m.cycle.answer.isOk ≠ true := by
    rw [h]
    exact Bool.false_ne_true
  rcases state_of_not_isOk hok with ⟨op, -, hs⟩ | ⟨-, hs⟩
  · rw [hs]
    rfl
  · rw [hs]

/-- The machine of a step that is a cycle which succeeds. -/
def success? (step : Machine σ × Event) : Option (Machine σ) :=
  match step.2 with
  | .cycle => if step.1.cycle.answer.isOk then some step.1 else none
  | _ => none

/-- The machines that the successful cycles of a run meet, in order. -/
def successes (m : Machine σ) (events : List Event) : List (Machine σ) :=
  (m.steps events).filterMap success?

/-- The machine that successful cycle number `c` of a run meets; the first one is number one. -/
def atCycle? (m : Machine σ) (events : List Event) : Nat → Option (Machine σ)
  | 0 => none
  | c + 1 => (m.successes events)[c]?

/-- An event is a cycle that succeeds, or none of the successes. -/
theorem successes_cons_cases (m : Machine σ) (e : Event) (rest : List Event) :
    e = .cycle ∧ m.cycle.answer.isOk = true ∧
      m.successes (e :: rest) = m :: m.cycle.machine.successes rest ∨
    (e = .cycle → m.cycle.answer.isOk ≠ true) ∧
      m.successes (e :: rest) = (m.apply e).machine.successes rest := by
  by_cases he : e = .cycle
  · subst he
    cases hc : m.cycle.answer with
    | ok r =>
      refine Or.inl ⟨rfl, rfl, List.filterMap_cons_some ?_⟩
      simp only [success?, hc]
      rfl
    | error f =>
      refine Or.inr ⟨fun _ => Bool.false_ne_true, List.filterMap_cons_none ?_⟩
      simp only [success?, hc]
      rfl
  · refine Or.inr ⟨fun h => absurd h he, List.filterMap_cons_none ?_⟩
    cases e with
    | cycle => exact absurd rfl he
    | _ => rfl

/-- What is not a success is no matter to the timers. -/
theorem timers_of_no_success {m : Machine σ} {e : Event}
    (h : e = .cycle → m.cycle.answer.isOk ≠ true) :
    (m.apply e).machine.state.timers = m.state.timers := by
  by_cases he : e = .cycle
  · subst he
    obtain ⟨f, hf⟩ := error_of_not_isOk (h rfl)
    exact timers_of_error hf
  · obtain ⟨memory, keypad, hm⟩ := m.host_event e he
    rw [hm]

theorem timers_first_success {m n : Machine σ} {events : List Event}
    (h : (m.successes events)[0]? = some n) : n.state.timers = m.state.timers := by
  induction events generalizing m with
  | nil => cases h
  | cons e rest ih =>
    rcases m.successes_cons_cases e rest with ⟨-, -, hs⟩ | ⟨hno, hs⟩
    · rw [hs] at h
      cases h
      rfl
    · rw [hs] at h
      rw [ih h, timers_of_no_success hno]

/-- The timers that a successful cycle meets are those that the one before it left behind. -/
theorem timers_next_success {m n : Machine σ} {events : List Event} {c : Nat}
    (h : (m.successes events)[c + 1]? = some n) :
    ∃ p, (m.successes events)[c]? = some p ∧
      n.state.timers = p.cycle.machine.state.timers := by
  induction events generalizing m c with
  | nil => cases h
  | cons e rest ih =>
    rcases m.successes_cons_cases e rest with ⟨-, -, hs⟩ | ⟨-, hs⟩
    · rw [hs] at h ⊢
      cases c with
      | zero => exact ⟨m, rfl, timers_first_success h⟩
      | succ c => exact ih h
    · rw [hs] at h ⊢
      exact ih h

theorem mem_successes_iff {m n : Machine σ} {events : List Event} :
    n ∈ m.successes events ↔ (n, .cycle) ∈ m.steps events ∧ n.cycle.answer.isOk = true := by
  constructor
  · intro h
    obtain ⟨⟨p, e⟩, hp, hn⟩ := List.mem_filterMap.mp h
    cases e with
    | cycle =>
      obtain ⟨hok, he⟩ := Option.ite_none_right_eq_some.mp hn
      cases he
      exact ⟨hp, hok⟩
    | _ => cases hn
  · rintro ⟨hn, hok⟩
    exact List.mem_filterMap.mpr ⟨_, hn, if_pos hok⟩

theorem answer_of_success {m n : Machine σ} {events : List Event}
    (h : n ∈ m.successes events) : ∃ r, n.cycle.answer = .ok r :=
  ok_of_isOk (mem_successes_iff.mp h).2

theorem answer_of_atCycle {m n : Machine σ} {events : List Event} {c : Nat}
    (h : m.atCycle? events c = some n) : ∃ r, n.cycle.answer = .ok r := by
  cases c with
  | zero => cases h
  | succ c => exact answer_of_success (List.mem_of_getElem? h)

/-- Successful cycle number `c` of a run sets timer `k` to `b`. -/
def SetAt (m : Machine σ) (events : List Event) (k : Timer) (c : Nat) (b : UInt8) : Prop :=
  ∃ n, m.atCycle? events c = some n ∧ n.Sets k b

/-- Of the first `c` successful cycles of a run number `t` is the last to set timer `k`, and sets it
to `b`. -/
structure LastSet (m : Machine σ) (events : List Event) (k : Timer) (c t : Nat) (b : UInt8) :
    Prop where
  le : t ≤ c
  sets : m.SetAt events k t b
  last : ∀ u, t < u → u ≤ c → ∀ b', ¬ m.SetAt events k u b'

/-- None of the first `c` successful cycles of a run sets timer `k`. -/
def NeverSet (m : Machine σ) (events : List Event) (k : Timer) (c : Nat) : Prop :=
  ∀ u ≤ c, ∀ b, ¬ m.SetAt events k u b

/-- Successful cycle number `c` of a run reports a beep. -/
def BeepsAt (m : Machine σ) (events : List Event) (c : Nat) : Prop :=
  ∃ n r, m.atCycle? events c = some n ∧ n.cycle.answer = .ok r ∧ r.beep = true

/-- `v` is what timer `k` should show after the first `c` successful cycles of a run. -/
structure Shows (m : Machine σ) (events : List Event) (k : Timer) (c v : Nat) : Prop where
  set : ∀ t b, m.LastSet events k c t b → v = b.toNat - (c + 1 - t)
  unset : m.NeverSet events k c → v = (m.state.timers.read k).toNat - c

variable {m n : Machine σ} {events : List Event} {k : Timer} {c : Nat}

theorem setAt_iff (hn : m.atCycle? events c = some n) (b : UInt8) :
    m.SetAt events k c b ↔ n.Sets k b := by
  constructor
  · rintro ⟨p, hp, hb⟩
    cases hp.symm.trans hn
    exact hb
  · exact fun hb => ⟨n, hn, hb⟩

theorem shows_zero : m.Shows events k 0 (m.state.timers.read k).toNat where
  set := by
    intro t b h
    obtain ⟨n, hn, -⟩ := h.sets
    cases Nat.le_zero.mp h.le
    cases hn
  unset _ := rfl

namespace Shows

/-- What a timer shows in cycle number `c + 1`, once the instruction is executed and before the
timers count: what the cycle itself writes counts already. -/
theorem level {t : Timers} (h : m.Shows events k c (n.state.timers.read k).toNat)
    (hn : m.atCycle? events (c + 1) = some n) (hset : ∀ b, n.Sets k b → t.read k = b)
    (hkeep : (∀ b, ¬ n.Sets k b) → t.read k = n.state.timers.read k) :
    (∀ u b, m.LastSet events k (c + 1) u b → (t.read k).toNat = b.toNat - (c + 1 - u)) ∧
    (m.NeverSet events k (c + 1) →
      (t.read k).toNat = (m.state.timers.read k).toNat - c) := by
  constructor
  · intro u b hl
    have hu := hl.le
    rcases Nat.lt_or_eq_of_le hu with hlt | rfl
    · have hno : ∀ b', ¬ n.Sets k b' := by
        intro b' hb
        exact hl.last (c + 1) hlt (Nat.le_refl _) b' ((setAt_iff hn b').mpr hb)
      rw [hkeep hno]
      refine h.set u b ⟨Nat.le_of_lt_succ hlt, hl.sets, fun v hv hc => ?_⟩
      exact hl.last v hv (Nat.le_succ_of_le hc)
    · have hb := (setAt_iff hn b).mp hl.sets
      rw [hset b hb, Nat.sub_self, Nat.sub_zero]
  · intro hno
    rw [hkeep fun b hb => hno (c + 1) (Nat.le_refl _) b ((setAt_iff hn b).mpr hb)]
    exact h.unset fun u hu => hno u (Nat.le_succ_of_le hu)

theorem next (h : m.Shows events k c (n.state.timers.read k).toNat)
    (hn : m.atCycle? events (c + 1) = some n) :
    m.Shows events k (c + 1) (n.cycle.machine.state.timers.read k).toNat := by
  obtain ⟨r, hr⟩ := answer_of_atCycle hn
  obtain ⟨t, htick, -, hread⟩ := timers_of_ok hr
  obtain ⟨hset, hunset⟩ := h.level hn (hread k).1 (hread k).2
  rw [htick, Timers.toNat_read_tick]
  constructor
  · intro u b hl
    have hu := hl.le
    have := hset u b hl
    omega
  · intro hno
    have := hunset hno
    omega

end Shows

/-- A successful cycle finds the timers as the cycles before it tell. -/
theorem shows_atCycle (hn : m.atCycle? events (c + 1) = some n) :
    m.Shows events k c (n.state.timers.read k).toNat := by
  induction c generalizing n with
  | zero =>
    rw [timers_first_success hn]
    exact shows_zero
  | succ c ih =>
    obtain ⟨p, hp, ht⟩ := timers_next_success hn
    rw [ht]
    exact (ih hp).next hp

theorem beep_iff {r : Report} (hn : m.atCycle? events c = some n) (hr : n.cycle.answer = .ok r) :
    (∀ t s, m.LastSet events .sound c t s → (r.beep = true ↔ s.toNat = c - t + 1)) ∧
    (m.NeverSet events .sound c → (r.beep = true ↔ m.state.timers.sound.toNat = c)) := by
  cases c with
  | zero => cases hn
  | succ c =>
    obtain ⟨t, -, hbeep, hread⟩ := timers_of_ok hr
    obtain ⟨hset, hunset⟩ := (shows_atCycle hn).level hn (hread .sound).1 (hread .sound).2
    rw [hbeep, t.beeps_iff]
    constructor
    · intro u s hl
      have hu := hl.le
      rw [hset u s hl]
      omega
    · intro hno
      rw [hunset hno]
      change m.state.timers.sound.toNat - c = 1 ↔ _
      omega

/-- The one cycle in which a write to the sound timer can be heard. -/
theorem beep_of_last {t : Nat} {s : UInt8} (hl : m.LastSet events .sound c t s)
    (hb : m.BeepsAt events c) : c + 1 = t + s.toNat := by
  obtain ⟨n, r, hn, hr, hbeep⟩ := hb
  have hs := ((beep_iff hn hr).1 t s hl).mp hbeep
  have ht := hl.le
  omega

theorem registers_getDelay {n : Machine σ} {r : Report} {x : Nibble}
    (hr : n.cycle.answer = .ok r) (hx : n.state.Meets 0xF x 0 7) :
    n.cycle.machine.state.registers.get x = n.state.timers.delay := by
  obtain ⟨ending, t, he, hs⟩ := executes_of_table (by rw [hr]; rfl) hx (.getDelay x)
  rw [hs]
  cases he
  exact (RegisterFile.get_set ..).trans (if_pos rfl)

/-- Over every run the timers tell of the last write to them, or of the start if there was none, and
of the successful cycles since, waiting or not. A cycle beeps just if the last write to the sound
timer, which may be its own, is as many cycles ago as the value written, less one. So a write is
heard at most once, not at all if it is overwritten before, and at once if it writes one. A cycle
that reads the delay timer finds the last value less the cycles since its write. A cycle that faults
lets no timer count. -/
theorem timers_tell_last_write (m : Machine σ) (events : List Event) :
    (∀ c n r, m.atCycle? events c = some n → n.cycle.answer = .ok r →
      (∀ t s, m.LastSet events .sound c t s → (r.beep = true ↔ s.toNat = c - t + 1)) ∧
      (m.NeverSet events .sound c → (r.beep = true ↔ m.state.timers.sound.toNat = c))) ∧
    (∀ t s c c', m.LastSet events .sound c t s → m.LastSet events .sound c' t s →
      m.BeepsAt events c → m.BeepsAt events c' → c = c') ∧
    (∀ t s u b, m.SetAt events .sound u b → t < u → u < t + s.toNat →
      ∀ c, m.LastSet events .sound c t s → ¬ m.BeepsAt events c) ∧
    (∀ t, m.SetAt events .sound t 1 → m.BeepsAt events t) ∧
    (∀ c n x, m.atCycle? events c = some n → n.state.Meets 0xF x 0 7 →
      (∀ t d, m.LastSet events .delay (c - 1) t d →
        (n.cycle.machine.state.registers.get x).toNat = d.toNat - (c - t)) ∧
      (m.NeverSet events .delay (c - 1) →
        (n.cycle.machine.state.registers.get x).toNat =
          m.state.timers.delay.toNat - (c - 1))) ∧
    (∀ n r, (n, .cycle) ∈ m.steps events → n.cycle.answer = .ok r → r.awaitingKey = true →
      ∃ c, m.atCycle? events c = some n) ∧
    (∀ (n : Machine σ) f, n.cycle.answer = .error f →
      n.cycle.machine.state.timers = n.state.timers) := by
  refine ⟨fun c n r hn hr => beep_iff hn hr, ?_, ?_, ?_, ?_, ?_, fun n f => timers_of_error⟩
  · intro t s c c' hl hl' hb hb'
    have h := beep_of_last hl hb
    have h' := beep_of_last hl' hb'
    omega
  · intro t s u b hu htu hus c hl hb
    have h := beep_of_last hl hb
    exact hl.last u htu (by omega) b hu
  · rintro t ⟨n, hn, hs⟩
    obtain ⟨r, hr⟩ := answer_of_atCycle hn
    have hl : m.LastSet events .sound t t 1 :=
      ⟨Nat.le_refl t, ⟨n, hn, hs⟩, fun u htu hut => absurd htu (Nat.not_lt_of_le hut)⟩
    refine ⟨n, r, hn, hr, ((beep_iff hn hr).1 t 1 hl).mpr ?_⟩
    rw [Nat.sub_self]
    rfl
  · intro c n x hn hx
    cases c with
    | zero => cases hn
    | succ c =>
      obtain ⟨r, hr⟩ := answer_of_atCycle hn
      have h := shows_atCycle (k := .delay) hn
      rw [registers_getDelay hr hx]
      exact ⟨h.set, h.unset⟩
  · intro n r hn hr _
    have hs : n ∈ m.successes events := by
      refine List.mem_filterMap.mpr ⟨(n, .cycle), hn, ?_⟩
      simp only [success?, hr]
      rfl
    obtain ⟨c, hc⟩ := List.mem_iff_getElem?.mp hs
    exact ⟨c + 1, hc⟩

end Machine

end Chip8

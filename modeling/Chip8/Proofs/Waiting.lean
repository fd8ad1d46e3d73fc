import Chip8.Proofs.Faults
import Chip8.Proofs.HeldKeys

/-!
Waiting for a key. A machine that meets the instruction for it while no key is held goes round in
one place: the timers count and a request for a redraw is dropped, and nothing else changes however
many cycles go by (`Machine.after_of_waits`). A key ends it, with the timers the only trace of how
long it took.
-/

namespace Chip8

namespace Timers

/-- Both timers `n` lower, but not below zero. -/
def lowered (t : Timers) (n : Nat) : Timers :=
  ⟨UInt8.ofNat (t.delay.toNat - n), UInt8.ofNat (t.sound.toNat - n)⟩

theorem toNat_ofNat_sub (b : UInt8) (n : Nat) :
    (UInt8.ofNat (b.toNat - n)).toNat = b.toNat - n := by
  have hb := b.toNat_lt
  exact UInt8.toNat_ofNat_of_lt' (by show _ < 256; omega)

theorem countDown_sub (b : UInt8) (n : Nat) :
    countDown (UInt8.ofNat (b.toNat - n)) = UInt8.ofNat (b.toNat - (n + 1)) := by
  apply UInt8.toNat_inj.mp
  rw [toNat_countDown, toNat_ofNat_sub, toNat_ofNat_sub]
  omega

theorem tick_lowered (t : Timers) (n : Nat) : (t.lowered n).tick = t.lowered (n + 1) := by
  simp only [lowered, tick, countDown_sub]

theorem lowered_zero (t : Timers) : t.lowered 0 = t := by
  simp [lowered]

theorem tick_eq_lowered (t : Timers) : t.tick = t.lowered 1 := by
  rw [← tick_lowered, lowered_zero]

theorem lowered_lowered (t : Timers) (a b : Nat) : (t.lowered a).lowered b = t.lowered (a + b) := by
  induction b with
  | zero => rw [lowered_zero, Nat.add_zero]
  | succ b ih => rw [← tick_lowered, ih, tick_lowered, Nat.add_assoc]

theorem beeps_lowered (t : Timers) (n : Nat) :
    (t.lowered n).beeps = decide (t.sound.toNat = n + 1) := by
  have h : UInt8.ofNat (t.sound.toNat - n) = 1 ↔ t.sound.toNat = n + 1 := by
    rw [← UInt8.toNat_inj, toNat_ofNat_sub]
    change _ = 1 ↔ _
    omega
  simp only [beeps, lowered, h]

end Timers

namespace State

/-- The state after `n` cycles of waiting, if there is any. -/
def waited (s : State) (n : Nat) : State :=
  { s with screen.redraw := false, timers := s.timers.lowered n }

theorem waited_waited (s : State) (a b : Nat) : (s.waited a).waited b = s.waited (a + b) := by
  simp only [waited, Timers.lowered_lowered]

/-- An instruction that is passed and rewound leaves the state as it was but for the redraw flag. -/
theorem rewind_advance (s : State) :
    s.advance.setRegisters s.advance.registers.rewind = { s with screen := s.screen.shown } := by
  have hc : s.registers.counter + 2 - 2 = s.registers.counter := UInt16.add_sub_cancel _ _
  simp only [advance, setRegisters, RegisterFile.skip, RegisterFile.rewind, hc]

theorem Executes.waits {s t : State} {b : UInt8} {i : Instruction}
    (h : s.Executes b i .awaitingKey t) : ∃ x, i = .awaitKey x ∧ s.keypad.lowest? = none := by
  cases h with
  | wait x hk => exact ⟨x, rfl, hk⟩

def pressed (s : State) (keys : List UInt8) : State :=
  { s with keypad := keys.foldl Keypad.press s.keypad }

/-- The state after register `x` has been given the lowest key in one cycle. -/
def keyTaken (s : State) (x : Nibble) (key : UInt8) : State :=
  { s with
    registers := { s.registers.set x key with counter := s.registers.counter + 2 }
    screen.redraw := false
    timers := s.timers.lowered 1 }

theorem keyTaken_eq (s : State) (x : Nibble) (key : UInt8) :
    (s.advance.setRegister x key).tick = s.keyTaken x key := by
  simp only [tick, Timers.tick_eq_lowered]
  rfl

end State

namespace Machine

variable {σ : Type}

/-- The next cycle waits: it meets the instruction for it, and no key is held. -/
structure WaitsFor (m : Machine σ) (x : Nibble) : Prop where
  running : m.fault = none
  meets : m.state.Meets 0xF x 0 0xA
  free : m.state.keypad.heldKeys = []

variable {m : Machine σ} {x : Nibble}

theorem WaitsFor.waited (h : m.WaitsFor x) (n : Nat) :
    (m.setState (m.state.waited n)).WaitsFor x := ⟨h.running, h.meets, h.free⟩

variable [ByteSource σ]

theorem cycle_of_waits (h : m.WaitsFor x) :
    m.cycle.machine = m.setState (m.state.waited 1) ∧
    m.cycle.answer = .ok ⟨true, m.state.timers.beeps⟩ := by
  have hk : m.state.keypad.lowest? = none := (Keypad.lowest?_eq_none_iff _).mpr h.free
  have hc := cycle_of_table h.running h.meets (.awaitKey x)
    (Work.run_awaitKey_of_none (m.workspace _) hk x)
  have hs : (m.state.advance.setRegisters m.state.advance.registers.rewind).tick =
      m.state.waited 1 := by
    rw [State.rewind_advance]
    simp only [State.tick, Timers.tick_eq_lowered]
    rfl
  rw [hc]
  constructor
  · rw [setState, h.running, ← hs]
    rfl
  · rfl

theorem waits_iff : (∃ r, m.cycle.answer = .ok r ∧ r.awaitingKey = true) ↔ ∃ x, m.WaitsFor x := by
  constructor
  · rintro ⟨r, hr, hw⟩
    obtain ⟨op, ending, w, hm, hop, hx, rfl, -⟩ := cycle_of_ok hr
    rw [decide_eq_true_eq.mp hw] at hx
    obtain ⟨x, hi, hk⟩ := (Work.executes_of_run_execute hx).waits
    refine ⟨x, hm, ?_, (Keypad.lowest?_eq_none_iff _).mp hk⟩
    exact (State.meets_iff_decode hop (.awaitKey x) fun | .awaitKey _ => rfl).mpr hi
  · rintro ⟨x, h⟩
    exact ⟨_, (cycle_of_waits h).2, rfl⟩

/-- Any number of cycles of waiting is like one with the timers as much lower. -/
theorem after_of_waits (h : m.WaitsFor x) (n : Nat) :
    m.after (n + 1) = m.setState (m.state.waited (n + 1)) := by
  induction n with
  | zero => exact (cycle_of_waits h).1
  | succ n ih =>
    rw [← cycle_after, ih, (cycle_of_waits (h.waited _)).1]
    simp only [state_setState, State.waited_waited]
    rfl

theorem WaitsFor.after (h : m.WaitsFor x) (n : Nat) : (m.after n).WaitsFor x := by
  cases n with
  | zero => exact h
  | succ n =>
    rw [after_of_waits h]
    exact h.waited _

theorem timers_after_of_waits (h : m.WaitsFor x) (n : Nat) :
    (m.after n).state.timers = m.state.timers.lowered n := by
  cases n with
  | zero => exact (Timers.lowered_zero _).symm
  | succ n =>
    rw [after_of_waits h]
    rfl

/-- Of what a program can tell, all but the timers stays as it is. -/
theorem frozen_after_of_waits (h : m.WaitsFor x) (n : Nat) :
    (m.after n).state.registers = m.state.registers ∧
    (m.after n).state.memory = m.state.memory ∧
    (m.after n).state.screen.rows = m.state.screen.rows := by
  cases n with
  | zero => exact ⟨rfl, rfl, rfl⟩
  | succ n =>
    rw [after_of_waits h]
    exact ⟨rfl, rfl, rfl⟩

theorem answer_after_of_waits (h : m.WaitsFor x) (n : Nat) :
    (m.after n).cycle.answer = .ok ⟨true, decide (m.state.timers.sound.toNat = n + 1)⟩ := by
  rw [(cycle_of_waits (h.after n)).2, timers_after_of_waits h, Timers.beeps_lowered]

theorem cycle_of_key {key : Nibble} (hm : m.fault = none) (hx : m.state.Meets 0xF x 0 0xA)
    (hk : m.state.keypad.lowest? = some key) :
    m.cycle.machine = m.setState (m.state.keyTaken x (UInt8.ofNat key.val)) ∧
    m.cycle.answer = .ok ⟨false, m.state.timers.beeps⟩ := by
  have hc := cycle_of_table hm hx (.awaitKey x)
    (Work.run_awaitKey_of_held (m.workspace _) hk x)
  rw [hc]
  constructor
  · rw [setState, hm, ← State.keyTaken_eq]
    rfl
  · rfl

/-- The cycle that follows when keys are pressed. -/
def pressAndCycle (m : Machine σ) (keys : List UInt8) : Transition σ (Except Fault Report) :=
  (m.run (keys.map .press)).cycle

theorem run_press (m : Machine σ) (keys : List UInt8) :
    m.run (keys.map .press) = m.setState (m.state.pressed keys) := by
  induction keys generalizing m with
  | nil => rfl
  | cons key rest ih =>
    rw [List.map_cons, run_cons, ih]
    rfl

theorem setState_after_of_waits (h : m.WaitsFor x) (n : Nat) (s : State) :
    (m.after n).setState s = m.setState s := by
  cases n with
  | zero => rfl
  | succ n =>
    rw [after_of_waits h]
    rfl

theorem keyTaken_after_of_waits (h : m.WaitsFor x) (n : Nat) (keys : List UInt8) (key : UInt8) :
    ((m.after n).state.pressed keys).keyTaken x key =
      { (m.state.pressed keys).keyTaken x key with timers := m.state.timers.lowered (n + 1) } := by
  have ht : (m.after n).state.timers.lowered 1 = m.state.timers.lowered (n + 1) := by
    rw [timers_after_of_waits h, Timers.lowered_lowered]
  simp only [State.keyTaken, State.pressed, ht]
  cases n with
  | zero => rfl
  | succ n =>
    rw [after_of_waits h]
    rfl

/-- Keys that are pressed after some waiting are taken as they would have been at once, with the
timers that much lower. -/
theorem cycle_of_keys_after (h : m.WaitsFor x) (n : Nat) {keys : List UInt8} {j : Nibble}
    (hj : (m.state.pressed keys).keypad.lowest? = some j) :
    ((m.after n).pressAndCycle keys).answer = .ok ⟨false, (m.after n).state.timers.beeps⟩ ∧
    ((m.after n).pressAndCycle keys).machine = m.setState
      { (m.state.pressed keys).keyTaken x (UInt8.ofNat j.val) with
        timers := m.state.timers.lowered (n + 1) } := by
  have hn := h.after n
  have hk : ((m.after n).state.pressed keys).keypad = (m.state.pressed keys).keypad := by
    cases n with
    | zero => rfl
    | succ n =>
      rw [after_of_waits h]
      rfl
  rw [← hk] at hj
  obtain ⟨hc, ha⟩ :=
    cycle_of_key (m := (m.after n).setState ((m.after n).state.pressed keys)) hn.running hn.meets hj
  rw [pressAndCycle, run_press, hc, ha]
  refine ⟨rfl, ?_⟩
  rw [← keyTaken_after_of_waits h]
  exact setState_after_of_waits h n _

/-- A machine that waits does nothing else however long it does so: every cycle succeeds and reports
the wait, the timers go down and the redraw flag with them, and nothing more happens, except that
the sound may end on the way. As soon as keys are pressed, the next cycle takes the lowest of them
and goes on, as it would have done without the wait. Nothing else is reported as waiting. -/
theorem waiting_stutters (h : m.WaitsFor x) {n : Nat} (hn : 0 < n) :
    (∀ k < n, (m.after k).cycle.answer =
      .ok ⟨true, decide (m.state.timers.sound.toNat = k + 1)⟩) ∧
    m.after n = m.setState
      { m.state with screen.redraw := false, timers := m.state.timers.lowered n } ∧
    (∀ keys : List UInt8, (∃ key ∈ keys, key < 16) →
      ∃ key ∈ keys, (∀ other ∈ keys, key ≤ other) ∧
        (∃ beep, ((m.after n).pressAndCycle keys).answer = .ok ⟨false, beep⟩) ∧
        ((m.after n).pressAndCycle keys).machine.state.registers.get x = key ∧
        ((m.after n).pressAndCycle keys).machine.state.registers.counter.toNat =
          m.state.registers.counter.toNat + 2 ∧
        (∃ beep, (m.pressAndCycle keys).answer = .ok ⟨false, beep⟩) ∧
        ((m.after n).pressAndCycle keys).machine = (m.pressAndCycle keys).machine.setState
          { (m.pressAndCycle keys).machine.state with
            timers := (m.pressAndCycle keys).machine.state.timers.lowered n }) ∧
    (∀ p : Machine σ, (∃ r, p.cycle.answer = .ok r ∧ r.awaitingKey = true) ↔
      ∃ y, p.WaitsFor y) := by
  refine ⟨fun k _ => answer_after_of_waits h k, ?_, ?_, fun p => waits_iff⟩
  · cases n with
    | zero => exact absurd hn (Nat.lt_irrefl 0)
    | succ n => exact after_of_waits h n
  · intro keys hkeys
    obtain ⟨key, hmem, hleast, j, hj, rfl⟩ := Keypad.lowest?_foldl_press h.free hkeys
    obtain ⟨hlate, hlm⟩ := cycle_of_keys_after h n hj
    obtain ⟨hsoon, hsm⟩ := cycle_of_keys_after h 0 hj
    refine ⟨_, hmem, hleast, ⟨_, hlate⟩, ?_, ?_, ⟨_, hsoon⟩, ?_⟩
    · rw [hlm]
      exact (RegisterFile.get_set ..).trans (if_pos rfl)
    · rw [hlm]
      exact State.toNat_counter_advance ((m.state.meets_iff_fetch ..).mp h.meets)
    · rw [after_zero] at hsm
      rw [hlm, hsm]
      simp only [state_setState, Timers.lowered_lowered, Nat.zero_add, Nat.add_comm 1 n]
      rfl

/-- A program that waits first of all, for register 3. -/
theorem waitsFor_loaded : (loaded [0xF3, 0x0A]).WaitsFor 3 :=
  ⟨rfl, meets_loaded 0xF 3 0 0xA (Nat.zero_le _), by decide +kernel⟩

/-- It waits for two cycles, and then for one more. -/
theorem waiting_stutters_loaded :
    (loaded [0xF3, 0x0A]).WaitsFor 3 ∧
    ((loaded [0xF3, 0x0A]).after 1).cycle.answer = .ok ⟨true, false⟩ ∧
    (loaded [0xF3, 0x0A]).after 2 = (loaded [0xF3, 0x0A]).setState
      { (loaded [0xF3, 0x0A]).state with
        screen.redraw := false
        timers := (loaded [0xF3, 0x0A]).state.timers.lowered 2 } := by
  have h := waiting_stutters waitsFor_loaded (n := 2) (by decide)
  exact ⟨waitsFor_loaded, h.1 1 (by decide), h.2.1⟩

end Machine

end Chip8

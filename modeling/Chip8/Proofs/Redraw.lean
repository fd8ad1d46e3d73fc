import Chip8.Proofs.Faults

/-!
The redraw flag and the picture. Only two instructions change the picture, and both request a
redraw (`Machine.screen_cases`). So a host that takes a frame whenever a cycle offers one always has
the picture that is on the screen. The request is gone after the next cycle, except where that cycle
does not get as far as an opcode.
-/

namespace Chip8

/-- Which pixels are lit. -/
abbrev Picture := Fin 64 → Fin 32 → Bool

def Picture.dark : Picture := fun _ _ => false

/-- The instructions that draw on the screen or clear it. -/
def Instruction.draws : Instruction → Bool
  | .clear | .draw _ _ _ => true
  | _ => false

namespace State

theorem Executes.redraw_of_draws {s t : State} {b : UInt8} {i : Instruction} {e : Ending}
    (h : s.Executes b i e t) (hi : i.draws = true) : t.screen.redraw = true := by
  cases h with
  | clear => exact Screen.redraw_clear s.screen
  | draw => exact Screen.redraw_draw s.screen _ _ _
  | _ => cases hi

theorem Executes.screen_eq {s t : State} {b : UInt8} {i : Instruction} {e : Ending}
    (h : s.Executes b i e t) (hi : i.draws = false) : t.screen = s.screen := by
  cases h with
  | clear => cases hi
  | draw => cases hi
  -- not by `rfl`, which compares all the registers
  | restore => exact screen_setRegisters _ _
  | _ => rfl

/-- The opcode at the program counter is one that draws. -/
def MeetsDrawing (s : State) : Prop := s.Meets 0 0 0xE 0 ∨ ∃ x y n, s.Meets 0xD x y n

theorem meetsDrawing_iff {s : State} {op : Opcode} (hop : s.fetch = .ok op) :
    s.MeetsDrawing ↔ (Instruction.decode op).draws = true := by
  have hclear : s.Meets 0 0 0xE 0 ↔ Instruction.decode op = .clear :=
    meets_iff_decode hop .clear fun | .clear => rfl
  have hdraw (x y n : Nibble) : s.Meets 0xD x y n ↔ Instruction.decode op = .draw x y n :=
    meets_iff_decode hop (.draw x y n) fun | .draw _ _ _ => rfl
  simp only [MeetsDrawing, hclear, hdraw]
  constructor
  · rintro (h | ⟨x, y, n, h⟩)
    · rw [h]
      rfl
    · rw [h]
      rfl
  · intro h
    cases hi : Instruction.decode op with
    | clear => exact Or.inl rfl
    | draw x y n => exact Or.inr ⟨x, y, n, rfl⟩
    | _ =>
      rw [hi] at h
      cases h

end State

namespace Machine

variable {σ : Type} [ByteSource σ] {m : Machine σ}

/-- The next cycle succeeds in executing an instruction that draws. -/
def Draws (m : Machine σ) : Prop := m.cycle.answer.isOk = true ∧ m.state.MeetsDrawing

/-- A cycle draws and requests a redraw, or keeps the picture and drops a request, or does not get
as far as an opcode and keeps both. -/
theorem screen_cases (m : Machine σ) :
    m.Draws ∧ m.cycle.machine.state.screen.redraw = true ∨
    ¬ m.Draws ∧ m.state.registers.counter.toNat ≤ 0xFFE ∧
      m.cycle.machine.state.screen = m.state.screen.shown ∨
    ¬ m.Draws ∧ (m.fault = none → 0xFFE < m.state.registers.counter.toNat) ∧
      m.cycle.machine.state.screen = m.state.screen := by
  by_cases hok : m.cycle.answer.isOk = true
  · obtain ⟨op, ending, w, -, hop, hx, hc⟩ := cycle_of_isOk hok
    have hs : m.cycle.machine.state.screen = w.state.screen := by rw [hc]; rfl
    have he := Work.executes_of_run_execute hx
    cases hd : (Instruction.decode op).draws with
    | true =>
      refine Or.inl ⟨⟨hok, (State.meetsDrawing_iff hop).mpr hd⟩, ?_⟩
      rw [hs, he.redraw_of_draws hd]
    | false =>
      refine Or.inr (Or.inl ⟨fun h => ?_, State.counter_le_of_fetch hop, ?_⟩)
      · cases hd.symm.trans ((State.meetsDrawing_iff hop).mp h.2)
      · rw [hs, he.screen_eq hd]
        rfl
  · have idle : ¬ m.Draws := fun hd => hok hd.1
    rcases state_of_not_isOk hok with ⟨op, hop, h⟩ | ⟨hf, h⟩
    · refine Or.inr (Or.inl ⟨idle, State.counter_le_of_fetch hop, ?_⟩)
      rw [h]
      rfl
    · refine Or.inr (Or.inr ⟨idle, fun hm => ?_, by rw [h]⟩)
      obtain ⟨f, hop⟩ := hf hm
      exact ((m.state.fetch_eq_error_iff f).mp hop).1

/-- What a host shows after an event, having shown `copy`: it looks for a frame after each cycle. -/
def refresh (copy : Picture) (step : Machine σ × Event) : Picture :=
  match step.2 with
  | .cycle =>
    match step.1.cycle.machine.frame? with
    | some screen => screen.pixel
    | none => copy
  | _ => copy

/-- What a host shows after a run from a new machine, having begun with a dark picture. -/
def shownPicture (source : σ) (events : List Event) : Picture :=
  ((new source).steps events).foldl refresh .dark

/-- A host that shows what is on the screen still does so after an event. -/
theorem refresh_pixel (m : Machine σ) (e : Event) :
    refresh m.state.screen.pixel (m, e) = (m.apply e).machine.state.screen.pixel := by
  by_cases he : e = .cycle
  · subst he
    change (match m.cycle.machine.frame? with
      | some screen => screen.pixel
      | none => m.state.screen.pixel) = m.cycle.machine.state.screen.pixel
    rw [frame?]
    rcases m.screen_cases with ⟨-, h⟩ | ⟨-, -, h⟩ | ⟨-, -, h⟩
    · rw [if_pos h]
    · rw [h, Screen.redraw_shown, if_neg Bool.false_ne_true]
      rfl
    · rw [h]
      cases m.state.screen.redraw <;> rfl
  · obtain ⟨memory, keypad, h⟩ := m.host_event e he
    rw [h]
    cases e with
    | cycle => exact absurd rfl he
    | _ => rfl

theorem foldl_refresh (m : Machine σ) (events : List Event) :
    (m.steps events).foldl refresh m.state.screen.pixel = (m.run events).state.screen.pixel := by
  induction events generalizing m with
  | nil => rfl
  | cons e rest ih =>
    rw [steps, List.foldl_cons, refresh_pixel, ih, run_cons]

/-- After every run from a new machine, whatever it is made of, the picture that a host shows is the
one on the screen. -/
theorem shownPicture_eq_pixel (source : σ) (events : List Event) :
    shownPicture source events = ((new source).run events).state.screen.pixel := by
  have hdark : (new source).state.screen.pixel = Picture.dark := by
    funext x y
    exact Screen.pixel_dark x y
  rw [← foldl_refresh, hdark, shownPicture]

theorem counter_le_of_draws (h : m.Draws) : m.state.registers.counter.toNat ≤ 0xFFE := by
  obtain ⟨op, -, -, -, hop, -⟩ := cycle_of_isOk h.1
  exact State.counter_le_of_fetch hop

theorem redraw_cycle_iff (hm : m.fault = none) :
    m.cycle.machine.state.screen.redraw = true ↔
      m.Draws ∨ 0xFFE < m.state.registers.counter.toNat ∧ m.state.screen.redraw = true := by
  rcases m.screen_cases with ⟨hd, h⟩ | ⟨hd, hc, h⟩ | ⟨hd, hc, h⟩
  · exact iff_of_true h (Or.inl hd)
  · rw [h, Screen.redraw_shown]
    refine iff_of_false Bool.false_ne_true ?_
    rintro (hd' | ⟨hlt, -⟩)
    · exact hd hd'
    · omega
  · rw [h]
    exact ⟨fun hr => Or.inr ⟨hc hm, hr⟩, fun ho => (ho.resolve_left hd).2⟩

/-- After a cycle of a machine that has not halted a redraw is requested just if this cycle drew, or
if it found no opcode and there was a request before. So the request is always this cycle's own,
unless the program counter has left memory while an earlier one stands. -/
theorem redraw_is_own_iff (hm : m.fault = none) :
    (m.cycle.machine.state.screen.redraw = true ↔
      m.Draws ∨ 0xFFE < m.state.registers.counter.toNat ∧ m.state.screen.redraw = true) ∧
    ((m.cycle.machine.state.screen.redraw = true ↔ m.Draws) ↔
      m.state.registers.counter.toNat ≤ 0xFFE ∨ m.state.screen.redraw = false) := by
  refine ⟨redraw_cycle_iff hm, ?_⟩
  rw [redraw_cycle_iff hm]
  constructor
  · intro h
    by_cases hr : m.state.screen.redraw = true
    · refine Or.inl (Nat.le_of_not_lt fun hlt => ?_)
      have hd := h.mp (Or.inr ⟨hlt, hr⟩)
      exact absurd hlt (Nat.not_lt_of_le (counter_le_of_draws hd))
    · exact Or.inr (Bool.eq_false_iff.mpr hr)
  · intro h
    refine ⟨?_, Or.inl⟩
    rintro (hd | ⟨hlt, hr⟩)
    · exact hd
    · rcases h with hle | hf
      · exact absurd hlt (Nat.not_lt_of_le hle)
      · cases hf.symm.trans hr

/-- A cycle that clears the screen requests a redraw. -/
theorem redraw_is_own_clear :
    (loaded [0x00, 0xE0]).fault = none ∧
    (loaded [0x00, 0xE0]).cycle.machine.state.screen.redraw = true ∧
    (loaded [0x00, 0xE0]).Draws := by
  have hr : (loaded [0x00, 0xE0]).cycle.machine.state.screen.redraw = true := by decide +kernel
  exact ⟨rfl, hr, ((redraw_is_own_iff rfl).2.mpr (Or.inr rfl)).mp hr⟩

/-- A machine that has put an opcode into the last two bytes of memory and cleared the screen by
executing it there. -/
def clearedAtTop : Machine Scripted :=
  (loaded [0x61, 0xE0, 0xAF, 0xFE, 0xF2, 0x55, 0x1F, 0xFE]).run
    [.cycle, .cycle, .cycle, .cycle, .cycle]

/-- Where a cycle finds no opcode, an earlier request for a redraw outlives it. -/
theorem redraw_outlives_cycle :
    clearedAtTop.fault = none ∧
    clearedAtTop.cycle.answer = .error (.counterOutOfRange 0x1000) ∧
    clearedAtTop.cycle.machine.state.screen.redraw = true ∧ ¬ clearedAtTop.Draws := by
  have hrun : clearedAtTop.fault = none ∧
      clearedAtTop.state.registers.counter = 0x1000 ∧
      clearedAtTop.state.screen.redraw = true := by decide +kernel
  obtain ⟨hm, hc, hr⟩ := hrun
  have hlt : 0xFFE < clearedAtTop.state.registers.counter.toNat := by
    rw [hc]
    decide
  refine ⟨hm, ?_, (redraw_cycle_iff hm).mpr (Or.inr ⟨hlt, hr⟩), fun hd => ?_⟩
  · refine (answer_eq_error_iff hm _).mpr (Or.inl ?_)
    exact (State.fetch_eq_error_iff _ _).mpr ⟨hlt, by rw [hc]⟩
  · exact absurd hlt (Nat.not_lt_of_le (counter_le_of_draws hd))

end Machine

end Chip8

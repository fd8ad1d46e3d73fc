import Chip8.Proofs.Accounting
import Chip8.Proofs.Countdown
import Chip8.Proofs.Halting
import Chip8.Proofs.HeldKeys
import Chip8.Proofs.KeyEvents
import Chip8.Proofs.Loading
import Chip8.Proofs.Subroutines

/-!
Execution in a straight line. What is no jump, no call, no return and no wait moves the program
counter on by two or four, and never around the top of memory (`Machine.counter_of_straight`). So
a machine that meets nothing else soon runs out of memory, and a session without a limit ends.
-/

namespace Chip8

/-- The instructions that lead elsewhere than ahead, with the keys held as given. -/
def Instruction.diverts (k : Keypad) : Instruction → Bool
  | .jump _ | .jumpFrom _ | .call _ | .ret => true
  | .awaitKey _ => k.lowest?.isNone
  | _ => false

theorem Instruction.diverts_awaitKey (k : Keypad) (x : Nibble) :
    (awaitKey x).diverts k = true ↔ k.lowest? = none :=
  Option.isNone_iff_eq_none

namespace State

theorem Leads.forward {s t : State} {i : Instruction} (h : s.Leads t i)
    (hi : i.diverts s.keypad = false) :
    t.registers.counter = s.registers.counter ∨
      t.registers.counter = s.registers.counter + 2 := by
  cases i with
  | jump target => cases hi
  | jumpFrom base => cases hi
  | call target => cases hi
  | ret => cases hi
  | skipIf c =>
    obtain ⟨⟨holds, -, hc⟩, -⟩ := h
    cases holds with
    | true => exact Or.inr hc
    | false => exact Or.inl (hc.trans (UInt16.add_zero _))
  | awaitKey x =>
    have hk : s.keypad.lowest? ≠ none := fun hk =>
      Bool.eq_false_iff.mp hi ((Instruction.diverts_awaitKey ..).mpr hk)
    have hc := h.1
    rw [if_neg hk] at hc
    exact Or.inl (hc.trans (UInt16.sub_zero _))
  | _ => exact Or.inl h.1

/-- The opcode at the program counter is a return, a jump or a call, or it waits for a key while
none is held. -/
def Diverts (s : State) : Prop :=
  s.Meets 0 0 0xE 0xE ∨
  (∃ a b c, s.Meets 1 a b c ∨ s.Meets 2 a b c ∨ s.Meets 0xB a b c) ∨
  (∃ x, s.Meets 0xF x 0 0xA) ∧ s.keypad.heldKeys = []

theorem diverts_of_table {s : State} {a b c d : Nibble} {i : Instruction} (h : s.Meets a b c d)
    (ht : Instruction.Table a b c d i) (hi : i.diverts s.keypad = true) : s.Diverts := by
  cases ht with
  | ret => exact Or.inl h
  | jump => exact Or.inr (Or.inl ⟨_, _, _, Or.inl h⟩)
  | call => exact Or.inr (Or.inl ⟨_, _, _, Or.inr (Or.inl h)⟩)
  | jumpFrom => exact Or.inr (Or.inl ⟨_, _, _, Or.inr (Or.inr h)⟩)
  | awaitKey =>
    have hk := (Instruction.diverts_awaitKey ..).mp hi
    exact Or.inr (Or.inr ⟨⟨_, h⟩, (Keypad.lowest?_eq_none_iff _).mp hk⟩)
  | _ => cases hi

theorem exists_table_of_diverts {s : State} (h : s.Diverts) :
    ∃ a b c d i, s.Meets a b c d ∧ Instruction.Table a b c d i ∧
      i.diverts s.keypad = true := by
  rcases h with h | ⟨a, b, c, h | h | h⟩ | ⟨⟨x, h⟩, hk⟩
  · exact ⟨_, _, _, _, _, h, .ret, rfl⟩
  · exact ⟨_, _, _, _, _, h, .jump a b c, rfl⟩
  · exact ⟨_, _, _, _, _, h, .call a b c, rfl⟩
  · exact ⟨_, _, _, _, _, h, .jumpFrom a b c, rfl⟩
  · have hnone := (Keypad.lowest?_eq_none_iff _).mpr hk
    exact ⟨_, _, _, _, _, h, .awaitKey x, (Instruction.diverts_awaitKey ..).mpr hnone⟩

theorem diverts_iff (s : State) : s.Diverts ↔
    ∃ op, s.fetch = .ok op ∧ (Instruction.decode op).diverts s.keypad = true := by
  constructor
  · intro h
    obtain ⟨a, b, c, d, i, hm, ht, hi⟩ := exists_table_of_diverts h
    refine ⟨_, (s.meets_iff_fetch ..).mp hm, ?_⟩
    rw [Instruction.decode_of_table ht]
    exact hi
  · rintro ⟨op, hop, hi⟩
    rcases Instruction.table_or_unknown op with ht | hu
    · exact diverts_of_table (meets_of_fetch hop) ht hi
    · rw [hu] at hi
      cases hi

end State

namespace Machine

variable {σ : Type} [ByteSource σ] {m : Machine σ} {events : List Event}

/-- The next cycle succeeds, and it executes a jump, a call or a return or waits for a key. -/
def Diverts (m : Machine σ) : Prop := m.cycle.answer.isOk = true ∧ m.state.Diverts

theorem diverts_iff : m.Diverts ↔ m.cycle.answer.isOk = true ∧
    m.opcode?.any (fun op => (Instruction.decode op).diverts m.state.keypad) = true := by
  refine and_congr_right fun hok => ?_
  obtain ⟨-, -, -, hm, -⟩ := cycle_of_isOk hok
  rw [m.state.diverts_iff, any_opcode?_iff, and_iff_right hm]

instance (m : Machine σ) : Decidable m.Diverts := decidable_of_iff _ diverts_iff.symm

theorem counter_of_straight (hok : m.cycle.answer.isOk = true) (hd : ¬ m.Diverts) :
    m.state.registers.counter.toNat ≤ 0xFFE ∧
    (m.cycle.machine.state.registers.counter.toNat = m.state.registers.counter.toNat + 2 ∨
      m.cycle.machine.state.registers.counter.toNat = m.state.registers.counter.toNat + 4) := by
  obtain ⟨op, hop, hl⟩ := leads_of_isOk hok
  have hle := State.counter_le_of_fetch hop
  have hadvance := State.toNat_counter_advance hop
  have hi : (Instruction.decode op).diverts m.state.advance.keypad = false :=
    Bool.eq_false_iff.mpr fun hi => hd ⟨hok, m.state.diverts_iff.mpr ⟨op, hop, hi⟩⟩
  refine ⟨hle, ?_⟩
  rcases hl.forward hi with h | h
  · exact Or.inl ((congrArg UInt16.toNat h).trans hadvance)
  -- the fetch left room for this step too
  · have hskip : (m.state.advance.registers.counter + 2).toNat =
        (m.state.advance.registers.counter.toNat + 2) % 65536 := UInt16.toNat_add ..
    rw [h]
    exact Or.inr (by omega)

/-- What is not a success does not move the program counter back. -/
theorem counter_of_no_success {e : Event} (h : e = .cycle → m.cycle.answer.isOk ≠ true) :
    m.state.registers.counter.toNat ≤ (m.apply e).machine.state.registers.counter.toNat := by
  by_cases he : e = .cycle
  · subst he
    change _ ≤ m.cycle.machine.state.registers.counter.toNat
    rcases state_of_not_isOk (h rfl) with ⟨op, hop, hs⟩ | ⟨-, hs⟩
    · rw [hs, State.toNat_counter_advance hop]
      omega
    · exact Nat.le_of_eq (by rw [hs])
  · refine Nat.le_of_eq ?_
    rw [m.apply_of_ne_cycle he, state_setState, State.registers_receive]

/-- No cycle of the run diverts. -/
def GoesStraight (m : Machine σ) (events : List Event) : Prop :=
  ∀ s ∈ m.steps events, s.2 = .cycle → ¬ s.1.Diverts

instance (m : Machine σ) (events : List Event) : Decidable (m.GoesStraight events) :=
  inferInstanceAs (Decidable (∀ s ∈ m.steps events, s.2 = .cycle → ¬ s.1.Diverts))

theorem goesStraight_cons {e : Event} {rest : List Event} :
    m.GoesStraight (e :: rest) ↔
      (e = .cycle → ¬ m.Diverts) ∧ (m.apply e).machine.GoesStraight rest :=
  List.forall_mem_cons

theorem counter_of_success {n : Machine σ} (h : m.GoesStraight events)
    (hn : n ∈ m.successes events) :
    n.state.registers.counter.toNat ≤ 0xFFE ∧
    (n.cycle.machine.state.registers.counter.toNat = n.state.registers.counter.toNat + 2 ∨
      n.cycle.machine.state.registers.counter.toNat = n.state.registers.counter.toNat + 4) := by
  obtain ⟨hs, hok⟩ := mem_successes_iff.mp hn
  exact counter_of_straight hok (h _ hs rfl)

/-- Each success takes two bytes or more of what there is from the program counter to the top. -/
theorem length_successes_le (h : m.GoesStraight events) :
    (m.successes events).length ≤ (0xFFF - m.state.registers.counter.toNat + 1) / 2 := by
  induction events generalizing m with
  | nil => exact Nat.zero_le _
  | cons e rest ih =>
    obtain ⟨hd, hrest⟩ := goesStraight_cons.mp h
    have hle := ih hrest
    rcases m.successes_cons_cases e rest with ⟨rfl, hok, hs⟩ | ⟨hno, hs⟩
    · obtain ⟨hc, hmove⟩ := counter_of_straight hok (hd rfl)
      rw [hs, List.length_cons]
      change (m.cycle.machine.successes rest).length ≤
        (0xFFF - m.cycle.machine.state.registers.counter.toNat + 1) / 2 at hle
      omega
    · have hc := counter_of_no_success hno
      rw [hs]
      omega

/-- The fault that comes if none comes before is met not far above the top of memory. -/
theorem counter_of_halting {f : Fault} {a : UInt16} (hm : m.fault = none)
    (hf : m.cycle.answer = .error f) (ha : f = .counterOutOfRange a) :
    a = m.state.registers.counter ∧ 0xFFF ≤ a.toNat := by
  subst ha
  rcases halting_cases hm hf with ⟨h, -⟩ | ⟨op, -, hr, -⟩
  · obtain ⟨hc, he⟩ := (m.state.fetch_eq_error_iff _).mp h
    cases he
    exact ⟨rfl, hc⟩
  · exact absurd hr (State.not_refuses_counterOutOfRange _ a _)

/-- A run in a straight line has only successful cycles, or it ends in a fault. -/
theorem succeeds_or_halts (h : m.GoesStraight events) (hm : m.fault = none)
    (hc : m.state.registers.counter.toNat ≤ 0x1002) :
    (m.successes events).length = events.countP Event.isCycle ∨
    ∃ f, (m.run events).fault = some f ∧
      ∀ a, f = .counterOutOfRange a → 0xFFF ≤ a.toNat ∧ a.toNat ≤ 0x1002 := by
  induction events generalizing m with
  | nil => exact Or.inl rfl
  | cons e rest ih =>
    obtain ⟨hd, hrest⟩ := goesStraight_cons.mp h
    rcases m.successes_cons_cases e rest with ⟨rfl, hok, hs⟩ | ⟨hno, hs⟩
    · obtain ⟨hle, hmove⟩ := counter_of_straight hok (hd rfl)
      have hnext : m.cycle.machine.fault = none := by
        obtain ⟨op, ending, w, -, -, -, hcycle⟩ := cycle_of_isOk hok
        rw [hcycle]
      rw [hs, List.length_cons, List.countP_cons_of_pos rfl, Nat.add_right_cancel_iff]
      -- a success starts from at most 0xFFE and so stops at 0x1002 at the latest
      exact ih hrest hnext (by omega)
    · by_cases he : e = .cycle
      · subst he
        obtain ⟨f, hf⟩ := error_of_not_isOk (hno rfl)
        refine Or.inr ⟨f, ?_, fun a ha => ?_⟩
        · have hhalted := (halted_of_answer hf).1
          rw [run_cons, apply, run_of_halted hhalted, fault_setState, hhalted]
        · obtain ⟨rfl, hlow⟩ := counter_of_halting hm hf ha
          exact ⟨hlow, hc⟩
      · have hcycle : ¬ e.isCycle = true := fun h => he (Event.isCycle_iff.mp h)
        rw [hs, List.countP_cons_of_neg hcycle, run_cons]
        refine ih hrest ?_ ?_
        · rw [m.apply_of_ne_cycle he, fault_setState, hm]
        · rw [m.apply_of_ne_cycle he, state_setState, State.registers_receive]
          exact hc

/-- Cycles that never divert are followed by a fault before the program counter could go on. -/
theorem exists_faultsAfter {d : Nat} (hd : 0x1000 ≤ m.state.registers.counter.toNat + 2 * d)
    (h : ∀ n, ¬ (m.after n).Diverts) : ∃ k ≤ d, ∃ f, m.FaultsAfter k f := by
  induction d generalizing m with
  | zero =>
    have hno : m.cycle.answer.isOk ≠ true := by
      intro hok
      have := (counter_of_straight hok (h 0)).1
      omega
    obtain ⟨f, hf⟩ := error_of_not_isOk hno
    exact ⟨0, Nat.le_refl 0, f, faultsAfter_zero.mpr hf⟩
  | succ d ih =>
    by_cases hok : m.cycle.answer.isOk = true
    · have hmove := (counter_of_straight hok (h 0)).2
      obtain ⟨k, hk, f, hlast⟩ := ih (m := m.cycle.machine) (by omega) fun n => h (n + 1)
      exact ⟨k + 1, Nat.succ_le_succ hk, f, faultsAfter_succ.mpr ⟨hok, hlast⟩⟩
    · obtain ⟨f, hf⟩ := error_of_not_isOk hok
      exact ⟨0, Nat.zero_le _, f, faultsAfter_zero.mpr hf⟩

/-- A machine that has nothing but zeros ahead of it. -/
structure Blank (m : Machine σ) : Prop where
  running : m.fault = none
  zeros : ∀ a, m.state.registers.counter.toNat ≤ a → a < 0x1000 →
    m.state.memory.byte? a = some 0

/-- Zeros are passed over. -/
theorem Blank.cycle (h : m.Blank) (hc : m.state.registers.counter.toNat + 2 ≤ 0x1000) :
    m.cycle.answer.isOk = true ∧ m.cycle.machine.Blank ∧
    m.cycle.machine.state.registers.counter.toNat = m.state.registers.counter.toNat + 2 := by
  have hmeets : m.state.Meets 0 0 0 0 :=
    ⟨h.zeros _ (Nat.le_refl _) (by omega), h.zeros _ (Nat.le_succ _) (by omega)⟩
  have hop := (m.state.meets_iff_fetch ..).mp hmeets
  have hcycle := cycle_of_executes h.running hop (.unknown (.ofDigits 0 0 0 0))
  have hnext : m.cycle.machine.state.registers.counter.toNat =
      m.state.registers.counter.toNat + 2 := by
    rw [hcycle]
    exact State.toNat_counter_advance hop
  refine ⟨by rw [hcycle]; rfl, ⟨by rw [hcycle], fun a ha => ?_⟩, hnext⟩
  rw [hnext] at ha
  rw [hcycle]
  exact h.zeros a (by omega)

theorem Blank.faultsAfter (h : m.Blank) {n : Nat}
    (hn : m.state.registers.counter.toNat + 2 * n = 0x1000) :
    m.FaultsAfter n (.counterOutOfRange 0x1000) := by
  induction n generalizing m with
  | zero =>
    have hc : m.state.registers.counter = 0x1000 := UInt16.toNat_inj.mp hn
    have hf := (m.state.fetch_eq_error_iff (.counterOutOfRange 0x1000)).mpr
      ⟨by omega, by rw [hc]⟩
    refine faultsAfter_zero.mpr ?_
    rw [cycle_of_unfetched h.running hf]
  | succ n ih =>
    obtain ⟨hok, hblank, hnext⟩ := h.cycle (by omega)
    exact faultsAfter_succ.mpr ⟨hok, ih hblank (by omega)⟩

end Machine

namespace Host.Session

variable {σ : Type} {options : Options} {reader : Reader} {source : σ}

theorem holdKeys_eq_withKeys (m : Machine σ) (cs : List Char) :
    ∃ k, (holdKeys m cs).1 = m.withKeys k := by
  induction cs generalizing m with
  | nil => exact ⟨_, rfl⟩
  | cons c rest ih =>
    cases hc : Keypad.keyOf? c with
    | none =>
      obtain ⟨k, hk⟩ := ih m
      exact ⟨k, by simp only [holdKeys, hc, hk]⟩
    | some key =>
      obtain ⟨k, hk⟩ := ih (m.press (UInt8.ofNat key.val))
      exact ⟨k, by simp only [holdKeys, hc, hk]; rfl⟩

/-- A session starts where programs start. -/
theorem counter_ready (options : Options) (reader : Reader) (source : σ) :
    (ready options reader source).state.registers.counter.toNat = 0x200 := by
  obtain ⟨k, hk⟩ := holdKeys_eq_withKeys
    ((Machine.new source).loadFrom reader).machine options.keys.toList
  rw [ready, hk]
  rcases (Machine.new source).loadFrom_cases reader with ⟨_, _, -, -, hl⟩ | ⟨_, hl⟩
  · rw [hl]
    rfl
  · rw [hl]
    rfl

/-- An empty program is followed by zeros up to the top of memory. -/
theorem blank_ready (hr : reader.Delivers []) : (ready options reader source).Blank := by
  have hl : (Machine.new source).state.memory.loadFrom reader =
      .ok (0, (Machine.new source).state.memory) :=
    Memory.loadFrom_of_delivers _ hr (Nat.zero_le _)
  have hload : ((Machine.new source).loadFrom reader).machine = Machine.new source := by
    simp only [Machine.loadFrom, hl]
    rfl
  obtain ⟨k, hk⟩ := holdKeys_eq_withKeys (Machine.new source) options.keys.toList
  rw [ready, hload, hk]
  refine ⟨rfl, fun a ha htop => ?_⟩
  have hbyte := Memory.byte?_initial ⟨a, htop⟩
  have hglyphs : glyphs.length ≤ a := Nat.le_trans (show glyphs.length ≤ 0x200 by decide) ha
  rw [List.getElem?_eq_none hglyphs] at hbyte
  exact hbyte

variable [ByteSource σ]

/-- A session without a limit whose machine never diverts ends. -/
theorem run_of_straight {opened : Except String Reader} (hN : options.cycles = none)
    (h : ∀ reader, opened = .ok reader → ((Machine.new source).loadFrom reader).answer = .ok () →
      ∀ n, ¬ ((ready options reader source).after n).Diverts) :
    ∃ failure log, ∀ fuel, 1792 < fuel →
      run options opened source fuel = some ⟨.error failure, log⟩ := by
  cases opened with
  | error cause => exact ⟨.cannotOpen options.rom cause, [], fun fuel _ => rfl⟩
  | ok reader =>
    cases hload : ((Machine.new source).loadFrom reader).answer with
    | error e =>
      refine ⟨.cannotLoad options.rom e, [], fun fuel _ => ?_⟩
      simp only [run, start_of_refused hload]
    | ok _ =>
      have hcounter := counter_ready options reader source
      obtain ⟨k, hk, f, hf⟩ := Machine.exists_faultsAfter (d := 1792) (by omega)
        (h reader rfl hload)
      obtain ⟨log, -, hrun⟩ := run_of_faultsAfter hload hf fun N h' =>
        absurd (h'.symm.trans hN) (Option.some_ne_none N)
      refine ⟨.halted k f, log, fun fuel hfuel => ?_⟩
      rw [hrun, if_pos (Nat.lt_of_le_of_lt hk hfuel)]

/-- With an empty program a session passes over the zeros up to the top of memory. -/
theorem run_of_empty (hN : options.cycles = none) (hr : reader.Delivers []) :
    ∃ log, ∀ fuel, run options (.ok reader) source fuel =
      if 1792 < fuel then some ⟨.error (.halted 1792 (.counterOutOfRange 0x1000)), log⟩
      else none := by
  have hcounter := counter_ready options reader source
  have hblank : (ready options reader source).Blank := blank_ready hr
  have hf := hblank.faultsAfter (n := 1792) (by omega)
  have hload : ((Machine.new source).loadFrom reader).answer = .ok () := by
    rw [Machine.loadFrom, Memory.loadFrom_of_delivers _ hr (Nat.zero_le _)]
  obtain ⟨log, -, hrun⟩ := run_of_faultsAfter hload hf fun N h' =>
    absurd (h'.symm.trans hN) (Option.some_ne_none N)
  exact ⟨log, hrun⟩

end Host.Session

namespace Machine

variable {σ : Type} [ByteSource σ] {m : Machine σ} {events : List Event}

/-- Where nothing diverts, execution ends. Whatever memory and registers hold and whatever a host
does between the cycles, each cycle that succeeds moves the program counter on by two or four, so
there are no more of them than half of the bytes ahead, rounded up. If the run has more cycles than
that, it ends in a fault, and if no other comes first, the program counter is then just above the
last place for an instruction. So a session without a limit ends if its program never diverts; an
empty one takes it to the top of memory. -/
theorem straight_line_ends (h : m.GoesStraight events) :
    (∀ n ∈ m.successes events,
      n.state.registers.counter.toNat ≤ 0xFFE ∧
      (n.cycle.machine.state.registers.counter.toNat = n.state.registers.counter.toNat + 2 ∨
        n.cycle.machine.state.registers.counter.toNat =
          n.state.registers.counter.toNat + 4)) ∧
    (m.successes events).length ≤ (0xFFF - m.state.registers.counter.toNat + 1) / 2 ∧
    (m.state.registers.counter.toNat ≤ 0xFFE →
      (0xFFF - m.state.registers.counter.toNat + 1) / 2 < events.countP Event.isCycle →
      ∃ f, (m.run events).fault = some f ∧ (m.fault = none →
        ∀ a, f = .counterOutOfRange a → 0xFFF ≤ a.toNat ∧ a.toNat ≤ 0x1002)) ∧
    (∀ (options : Host.Options) (opened : Except String Reader) (source : σ),
      options.cycles = none →
      (∀ reader, opened = .ok reader → ((new source).loadFrom reader).answer = .ok () →
        ∀ n, ¬ ((Host.Session.ready options reader source).after n).Diverts) →
      ∃ failure log, ∀ fuel, 1792 < fuel →
        Host.Session.run options opened source fuel = some ⟨.error failure, log⟩) ∧
    (∀ (options : Host.Options) (reader : Reader) (source : σ),
      options.cycles = none → reader.Delivers [] →
      ∃ log, ∀ fuel, Host.Session.run options (.ok reader) source fuel =
        if 1792 < fuel then some ⟨.error (.halted 1792 (.counterOutOfRange 0x1000)), log⟩
        else none) := by
  refine ⟨fun n hn => counter_of_success h hn, length_successes_le h, fun hc hmany => ?_,
    fun options opened source hN hd => Host.Session.run_of_straight hN hd,
    fun options reader source hN hr => Host.Session.run_of_empty hN hr⟩
  cases hm : m.fault with
  | some f => exact ⟨f, by rw [run_of_halted hm, fault_setState, hm], nofun⟩
  | none =>
    rcases succeeds_or_halts h hm (by omega) with hall | ⟨f, hf, ha⟩
    · have hle := length_successes_le h
      omega
    · exact ⟨f, hf, fun _ => ha⟩

/-- A machine with room for one more instruction and nothing but zeros in memory. -/
def nearTop : Machine Scripted :=
  (new ⟨[]⟩).setState { State.initial.jump 0xFFE with memory := ⟨Vector.replicate 0x1000 0⟩ }

/-- Of two cycles, with a key pressed between them, it does not outlast the second. -/
theorem straight_line_ends_nearTop :
    nearTop.GoesStraight [.cycle, .press 3, .cycle] ∧
    (nearTop.successes [.cycle, .press 3, .cycle]).length ≤ 1 ∧
    ∃ f, (nearTop.run [.cycle, .press 3, .cycle]).fault = some f := by
  have hs : nearTop.GoesStraight [.cycle, .press 3, .cycle] := by decide +kernel
  have h := straight_line_ends hs
  obtain ⟨f, hf, -⟩ := h.2.2.1 (by decide) (by decide)
  exact ⟨hs, h.2.1, f, hf⟩

end Machine

end Chip8

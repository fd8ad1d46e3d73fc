import Chip8.Proofs.Delivery
import Chip8.Proofs.Faults

/-!
Who writes to memory. A write puts bytes at an address and those after it (`Write`); only loads and
two instructions make one (`Machine.Writes`). Over a whole run each byte of memory is the one that
was written to its address last, or the initial one if none was.
-/

namespace Chip8

structure Write where
  start : Nat
  data : List UInt8

/-- The byte that a write puts at `a`, if it covers that address. -/
def Write.at? (w : Write) (a : Nat) : Option UInt8 :=
  if w.start ≤ a then w.data[a - w.start]? else none

theorem Write.at?_or (w : Write) (a : Nat) (o : Option UInt8) :
    (w.at? a).or o =
      if w.start ≤ a ∧ a < w.start + w.data.length then w.data[a - w.start]? else o := by
  unfold at?
  by_cases h : w.start ≤ a
  · by_cases hlt : a < w.start + w.data.length
    · rw [if_pos h, if_pos ⟨h, hlt⟩, List.getElem?_eq_getElem (by omega)]
      rfl
    · rw [if_pos h, if_neg (fun hc => hlt hc.2), List.getElem?_eq_none (by omega)]
      rfl
  · rw [if_neg h, if_neg (fun hc => h hc.1)]
    rfl

namespace Memory

theorem byte?_of_writeRange {m n : Memory} {a : Nat} {data : List UInt8}
    (h : m.writeRange a data = .ok n) (b : Nat) :
    n.byte? b = ((Write.mk a data).at? b).or (m.byte? b) := by
  rw [Write.at?_or]
  exact byte?_writeRange h b

theorem byte?_of_load {m n : Memory} {program : List UInt8} (h : m.load program = .ok n)
    (b : Nat) : n.byte? b = ((Write.mk 0x200 program).at? b).or (m.byte? b) := by
  simp only [load] at h
  split at h
  · rename_i hlen
    cases h
    have hfit : 0x200 + program.length ≤ 0x1000 := by
      simp only [programCapacity, size, programStart] at hlen
      omega
    have hcovers : 0x200 ≤ b ∧ b < 0x200 + program.length ∧ b < 0x1000 ↔
        0x200 ≤ b ∧ b < 0x200 + program.length := by omega
    rw [Write.at?_or, byte?_put]
    simp only [programStart, size, hcovers]
  · cases h

/-- A program that is loaded from a reader is all that the reader delivers. -/
theorem loadFrom_eq_ok {m : Memory} {r : Reader} {loaded : Nat × Memory}
    (h : m.loadFrom r = .ok loaded) :
    ∃ program, r.Delivers program ∧ loaded.1 = program.length ∧
      m.load program = .ok loaded.2 := by
  simp only [loadFrom] at h
  split at h
  · cases h
  · rename_i program hr
    cases hl : m.load program with
    | error e =>
      rw [hl] at h
      cases h
    | ok memory =>
      rw [hl] at h
      cases h
      refine ⟨program, Reader.deliversFrom_of_readFrom hr ?_, rfl, hl⟩
      simp only [load] at hl
      split at hl
      · rename_i hlen
        exact Nat.lt_succ_of_le hlen
      · cases hl

theorem byte?_initial (a : Address) : initial.byte? a = some (glyphs[a.val]?.getD 0) := by
  have hzero : (Memory.mk (Vector.replicate 0x1000 0)).byte? a = some 0 := by
    rw [byte?, Vector.getElem?_eq_getElem a.isLt, Vector.getElem_replicate]
  rw [initial, byte?_put, hzero]
  by_cases h : a.val < glyphs.length
  · rw [if_pos ⟨Nat.zero_le _, by omega, a.isLt⟩, Nat.sub_zero, List.getElem?_eq_getElem h]
    rfl
  · rw [if_neg (by omega), List.getElem?_eq_none (by omega)]
    rfl

end Memory

theorem eq_decimalDigits_iff {b h t u : UInt8} :
    [h, t, u] = decimalDigits b ↔ h.toNat ≤ 9 ∧ t.toNat ≤ 9 ∧ u.toNat ≤ 9 ∧
      100 * h.toNat + 10 * t.toNat + u.toNat = b.toNat := by
  have hb := b.toNat_lt
  simp only [decimalDigits, List.cons.injEq, and_true, ← UInt8.toNat_inj, UInt8.toNat_div,
    UInt8.toNat_mod, UInt8.reduceToNat]
  omega

/-- The write that an instruction makes. -/
def State.stored? (s : State) : Instruction → Option Write
  | .digits x => some ⟨s.registers.index.toNat, decimalDigits (s.registers.get x)⟩
  | .save x => some ⟨s.registers.index.toNat, s.registers.before x⟩
  | _ => none

theorem State.Executes.memory {s t : State} {b : UInt8} {i : Instruction} {e : Ending}
    (h : s.Executes b i e t) :
    (∃ w, s.stored? i = some w ∧
      ∀ a, t.memory.byte? a = (w.at? a).or (s.memory.byte? a)) ∨
    s.stored? i = none ∧ t.memory = s.memory := by
  cases h with
  | digits x hw => exact Or.inl ⟨_, rfl, Memory.byte?_of_writeRange hw⟩
  | save x hw => exact Or.inl ⟨_, rfl, Memory.byte?_of_writeRange hw⟩
  -- not by `rfl`, which compares all the registers
  | restore => exact Or.inr ⟨rfl, State.memory_setRegisters _ _⟩
  | _ => exact Or.inr ⟨rfl, rfl⟩

namespace Machine

variable {σ : Type}

theorem load_cases (m : Machine σ) (program : List UInt8) :
    (∃ memory, m.state.memory.load program = .ok memory ∧ m.load program =
      ⟨m.setState { m.state with memory }, .ok (), [.loaded program.length]⟩) ∨
    ∃ f, m.load program = ⟨m, .error f, []⟩ := by
  cases hl : m.state.memory.load program with
  | ok memory => exact Or.inl ⟨memory, rfl, by simp only [Machine.load, hl]⟩
  | error f => exact Or.inr ⟨f, by simp only [Machine.load, hl]⟩

theorem loadFrom_cases (m : Machine σ) (reader : Reader) :
    (∃ program memory, reader.Delivers program ∧ m.state.memory.load program = .ok memory ∧
      m.loadFrom reader =
        ⟨m.setState { m.state with memory }, .ok (), [.loaded program.length]⟩) ∨
    ∃ f, m.loadFrom reader = ⟨m, .error f, []⟩ := by
  cases hl : m.state.memory.loadFrom reader with
  | ok loaded =>
    obtain ⟨program, hd, hs, hp⟩ := Memory.loadFrom_eq_ok hl
    exact Or.inl ⟨program, loaded.2, hd, hp, by simp only [Machine.loadFrom, hl, hs]⟩
  | error f => exact Or.inr ⟨f, by simp only [Machine.loadFrom, hl]⟩

theorem byte?_load_of_lt {m : Machine σ} {program : List UInt8} {k : Nat}
    (h : (m.load program).answer = .ok ()) (hk : k < program.length) :
    (m.load program).machine.state.memory.byte? (0x200 + k) = program[k]? := by
  rcases m.load_cases program with ⟨memory, hl, ha⟩ | ⟨f, ha⟩
  · rw [ha]
    refine (Memory.byte?_of_load hl _).trans ?_
    rw [Write.at?_or, if_pos ⟨Nat.le_add_right _ _, Nat.add_lt_add_left hk _⟩,
      Nat.add_sub_cancel_left]
  · rw [ha] at h
    cases h

theorem byte?_load_of_le (m : Machine σ) {program : List UInt8} {k : Nat}
    (hk : program.length ≤ k) : (m.load program).machine.state.memory.byte? (0x200 + k) =
      m.state.memory.byte? (0x200 + k) := by
  rcases m.load_cases program with ⟨memory, hl, ha⟩ | ⟨f, ha⟩
  · rw [ha]
    refine (Memory.byte?_of_load hl _).trans ?_
    rw [Write.at?_or]
    exact if_neg (show ¬ (0x200 ≤ 0x200 + k ∧ 0x200 + k < 0x200 + program.length) by omega)
  · rw [ha]

variable [ByteSource σ]

/-- What an event writes to the memory of the machine that it meets. -/
inductive Writes (m : Machine σ) : Event → Write → Prop where
  | load {program} : (m.load program).answer = .ok () → m.Writes (.load program) ⟨0x200, program⟩
  | loadFrom {reader program} : (m.loadFrom reader).answer = .ok () → reader.Delivers program →
      m.Writes (.loadFrom reader) ⟨0x200, program⟩
  | digits {x h t u} : m.cycle.answer.isOk = true → m.state.Meets 0xF x 3 3 →
      h.toNat ≤ 9 → t.toNat ≤ 9 → u.toNat ≤ 9 →
      100 * h.toNat + 10 * t.toNat + u.toNat = (m.state.registers.get x).toNat →
      m.Writes .cycle ⟨m.state.registers.index.toNat, [h, t, u]⟩
  | save {x} : m.cycle.answer.isOk = true → m.state.Meets 0xF x 5 5 →
      m.Writes .cycle ⟨m.state.registers.index.toNat, m.state.registers.before x⟩

theorem isOk_of_writes {m : Machine σ} {w : Write} (h : m.Writes .cycle w) :
    m.cycle.answer.isOk = true := by
  cases h with
  | digits hok => exact hok
  | save hok => exact hok

theorem writes_cycle_iff {m : Machine σ} {op : Opcode} {w : Write}
    (hok : m.cycle.answer.isOk = true) (hop : m.state.fetch = .ok op) :
    m.Writes .cycle w ↔ m.state.stored? (.decode op) = some w := by
  have hdigits (x : Nibble) : m.state.Meets 0xF x 3 3 ↔ Instruction.decode op = .digits x :=
    State.meets_iff_decode hop (.digits x) fun | .digits _ => rfl
  have hsave (x : Nibble) : m.state.Meets 0xF x 5 5 ↔ Instruction.decode op = .save x :=
    State.meets_iff_decode hop (.save x) fun | .save _ => rfl
  constructor
  · intro h
    cases h with
    | digits _ hm hh ht hu hsum =>
      rw [(hdigits _).mp hm, eq_decimalDigits_iff.mpr ⟨hh, ht, hu, hsum⟩]
      rfl
    | save _ hm =>
      rw [(hsave _).mp hm]
      rfl
  · intro h
    cases hi : Instruction.decode op with
    | digits x =>
      rw [hi] at h
      cases h
      obtain ⟨hh, ht, hu, hsum⟩ := eq_decimalDigits_iff.mp (Eq.refl (decimalDigits _))
      exact .digits hok ((hdigits x).mpr hi) hh ht hu hsum
    | save x =>
      rw [hi] at h
      cases h
      exact .save hok ((hsave x).mpr hi)
    | _ =>
      rw [hi] at h
      cases h

theorem writes_cycle_cases (m : Machine σ) :
    (∃ w, (∀ v, m.Writes .cycle v ↔ v = w) ∧
      ∀ a, m.cycle.machine.state.memory.byte? a = (w.at? a).or (m.state.memory.byte? a)) ∨
    (∀ w, ¬ m.Writes .cycle w) ∧ m.cycle.machine.state.memory = m.state.memory := by
  by_cases hok : m.cycle.answer.isOk = true
  · obtain ⟨op, ending, w, -, hop, hx, h⟩ := cycle_of_isOk hok
    have hm : m.cycle.machine.state.memory = w.state.memory := by rw [h]; rfl
    rw [hm]
    rcases (Work.executes_of_run_execute hx).memory with ⟨v, hv, hb⟩ | ⟨hn, hb⟩
    · refine Or.inl ⟨v, fun u => ?_, hb⟩
      rw [writes_cycle_iff hok hop]
      exact ⟨fun hu => Option.some.inj (hu.symm.trans hv), fun hu => hu ▸ hv⟩
    · refine Or.inr ⟨fun u hu => ?_, hb⟩
      cases hn.symm.trans ((writes_cycle_iff hok hop).mp hu)
  · refine Or.inr ⟨fun w h => hok (isOk_of_writes h), ?_⟩
    rcases state_of_not_isOk hok with ⟨op, -, h⟩ | ⟨-, h⟩
    · rw [h]
      rfl
    · rw [h]

/-- An event makes one write, or none and leaves memory alone. -/
theorem writes_cases (m : Machine σ) (e : Event) :
    (∃ w, (∀ v, m.Writes e v ↔ v = w) ∧
      ∀ a, (m.apply e).machine.state.memory.byte? a =
        (w.at? a).or (m.state.memory.byte? a)) ∨
    (∀ w, ¬ m.Writes e w) ∧ (m.apply e).machine.state.memory = m.state.memory := by
  cases e with
  | load program =>
    rcases m.load_cases program with ⟨memory, hl, ha⟩ | ⟨f, ha⟩
    · refine Or.inl ⟨⟨0x200, program⟩, fun v => ⟨fun h => ?_, fun h => ?_⟩, fun a => ?_⟩
      · cases h
        rfl
      · rw [h]
        exact .load (by rw [ha])
      · rw [apply, ha]
        exact Memory.byte?_of_load hl a
    · refine Or.inr ⟨fun w h => ?_, by rw [apply, ha]⟩
      cases h with
      | load hok =>
        rw [ha] at hok
        cases hok
  | loadFrom reader =>
    rcases m.loadFrom_cases reader with ⟨program, memory, hd, hl, ha⟩ | ⟨f, ha⟩
    · refine Or.inl ⟨⟨0x200, program⟩, fun v => ⟨fun h => ?_, fun h => ?_⟩, fun a => ?_⟩
      · cases h with
        | loadFrom _ hd' => rw [hd.unique hd']
      · rw [h]
        exact .loadFrom (by rw [ha]) hd
      · rw [apply, ha]
        exact Memory.byte?_of_load hl a
    · refine Or.inr ⟨fun w h => ?_, by rw [apply, ha]⟩
      cases h with
      | loadFrom hok =>
        rw [ha] at hok
        cases hok
  | cycle => exact m.writes_cycle_cases
  | _ =>
    refine Or.inr ⟨fun w h => ?_, rfl⟩
    cases h

theorem byte?_apply_eq_some_iff (m : Machine σ) (e : Event) (a : Nat) (b : UInt8) :
    (m.apply e).machine.state.memory.byte? a = some b ↔
      (∃ w, m.Writes e w ∧ w.at? a = some b) ∨
      (∀ w, m.Writes e w → w.at? a = none) ∧ m.state.memory.byte? a = some b := by
  rcases m.writes_cases e with ⟨w, hw, hb⟩ | ⟨hn, hm⟩
  · rw [hb a]
    simp only [hw, exists_eq_left, forall_eq]
    cases w.at? a with
    | some c => simp
    | none => simp
  · rw [hm]
    constructor
    · exact fun h => Or.inr ⟨fun w hw => absurd hw (hn w), h⟩
    · rintro (⟨w, hw, -⟩ | ⟨-, h⟩)
      · exact absurd hw (hn w)
      · exact h

/-- No event of a run writes to address `a`; each event is given with the machine that it meets. -/
def Unwritten (steps : List (Machine σ × Event)) (a : Nat) : Prop :=
  ∀ s ∈ steps, ∀ w, s.1.Writes s.2 w → w.at? a = none

/-- The last write to address `a` puts `b` there. -/
def LastWritten (steps : List (Machine σ × Event)) (a : Nat) (b : UInt8) : Prop :=
  ∃ before m e w after, steps = before ++ (m, e) :: after ∧
    m.Writes e w ∧ w.at? a = some b ∧ Unwritten after a

theorem unwritten_cons {m : Machine σ} {e : Event} {rest : List (Machine σ × Event)} {a : Nat} :
    Unwritten ((m, e) :: rest) a ↔
      (∀ w, m.Writes e w → w.at? a = none) ∧ Unwritten rest a :=
  List.forall_mem_cons

theorem lastWritten_cons {m : Machine σ} {e : Event} {rest : List (Machine σ × Event)} {a : Nat}
    {b : UInt8} :
    LastWritten ((m, e) :: rest) a b ↔
      LastWritten rest a b ∨ (∃ w, m.Writes e w ∧ w.at? a = some b) ∧ Unwritten rest a := by
  constructor
  · rintro ⟨before, n, f, w, after, hs, hw, hb, hu⟩
    cases before with
    | nil =>
      cases hs
      exact Or.inr ⟨⟨w, hw, hb⟩, hu⟩
    | cons s before =>
      obtain ⟨-, hs⟩ := List.cons.inj hs
      exact Or.inl ⟨before, n, f, w, after, hs, hw, hb, hu⟩
  · rintro (⟨before, n, f, w, after, hs, hw, hb, hu⟩ | ⟨⟨w, hw, hb⟩, hu⟩)
    · exact ⟨(m, e) :: before, n, f, w, after, congrArg _ hs, hw, hb, hu⟩
    · exact ⟨[], m, e, w, rest, rfl, hw, hb, hu⟩

theorem byte?_run_eq_some_iff (m : Machine σ) (events : List Event) (a : Nat) (b : UInt8) :
    (m.run events).state.memory.byte? a = some b ↔
      LastWritten (m.steps events) a b ∨
      Unwritten (m.steps events) a ∧ m.state.memory.byte? a = some b := by
  induction events generalizing m with
  | nil =>
    refine ⟨fun h => Or.inr ⟨List.forall_mem_nil _, h⟩, ?_⟩
    rintro (⟨before, n, f, w, after, hs, -⟩ | ⟨-, h⟩)
    · exact absurd hs.symm (by simp [steps])
    · exact h
  | cons e rest ih =>
    rw [run_cons, ih, byte?_apply_eq_some_iff, steps, lastWritten_cons, unwritten_cons]
    grind

/-- An event that changes memory is a load that succeeds, or a cycle that executes one of the two
instructions which write to it. -/
theorem writer_of_memory_ne {m : Machine σ} {e : Event}
    (h : (m.apply e).machine.state.memory ≠ m.state.memory) :
    (m.apply e).answer = .loaded (.ok ()) ∨ e = .cycle ∧ m.cycle.answer.isOk = true ∧
      ∃ x, m.state.Meets 0xF x 3 3 ∨ m.state.Meets 0xF x 5 5 := by
  rcases m.writes_cases e with ⟨w, hw, -⟩ | ⟨-, hm⟩
  · cases (hw w).mpr rfl with
    | load hok => exact Or.inl (congrArg _ hok)
    | loadFrom hok => exact Or.inl (congrArg _ hok)
    | digits hok hm => exact Or.inr ⟨rfl, hok, _, Or.inl hm⟩
    | save hok hm => exact Or.inr ⟨rfl, hok, _, Or.inr hm⟩
  · exact absurd hm h

/-- After every run from a new machine each byte of memory is the one written to its address last,
or the initial one if none was. An event that changes memory is a load that succeeds, or a cycle
that succeeds in executing one of two instructions; and a program that is loaded over a longer one
leaves the end of that in memory. -/
theorem last_write_wins (source : σ) (events : List Event) :
    (∀ (a : Address) (b : UInt8),
      ((new source).run events).state.memory.byte? a = some b ↔
        LastWritten ((new source).steps events) a b ∨
        Unwritten ((new source).steps events) a ∧ b = glyphs[a.val]?.getD 0) ∧
    (∀ (m : Machine σ) (e : Event), (m.apply e).machine.state.memory ≠ m.state.memory →
      (m.apply e).answer = .loaded (.ok ()) ∨ e = .cycle ∧ m.cycle.answer.isOk = true ∧
        ∃ x, m.state.Meets 0xF x 3 3 ∨ m.state.Meets 0xF x 5 5) ∧
    (∀ (m : Machine σ) (program other : List UInt8) (k : Nat),
      (m.load program).answer = .ok () → other.length ≤ k → k < program.length →
      (m.run [.load program, .load other]).state.memory.byte? (0x200 + k) = program[k]?) := by
  refine ⟨fun a b => ?_, fun m e => writer_of_memory_ne, fun m program other k h ho hk => ?_⟩
  · have hi : (new source).state.memory.byte? a = some b ↔ b = glyphs[a.val]?.getD 0 := by
      rw [show (new source).state.memory = Memory.initial from rfl, Memory.byte?_initial]
      exact ⟨fun h => (Option.some.inj h).symm, fun h => congrArg some h.symm⟩
    rw [byte?_run_eq_some_iff, hi]
  · exact ((m.load program).machine.byte?_load_of_le ho).trans (byte?_load_of_lt h hk)

end Machine

end Chip8

import Chip8.Proofs.Determinism

/-!
Where random bytes go. One instruction takes them, one byte each time it is executed, and nothing
else reaches the source (`Machine.source_run`). So a run is determined by as many bytes of the
source as it executes that instruction, by the state it starts in and by the fault that has halted
the machine, if one has (`Machine.agrees_of_take`). A fault is no part of the state: a machine that
has halted can be in the state of one that goes on (`Machine.strayReturn`, `Machine.returnBehind`).
-/

namespace Chip8.Machine

variable {σ τ : Type} [ByteSource σ] [ByteSource τ]

/-- The machines that those cycles of a run meet which take a random byte, in order. -/
def rolls (m : Machine σ) (events : List Event) : List (Machine σ) :=
  ((m.steps events).filter fun s => s.1.takesByte s.2).map Prod.fst

/-- An event is a cycle that takes a byte from the source, or leaves the source as it is. -/
theorem rolls_cons_cases (m : Machine σ) (e : Event) (rest : List Event) :
    (m.takesByte e = true ∧ m.rolls (e :: rest) = m :: (m.apply e).machine.rolls rest ∧
      (m.apply e).machine.source = (ByteSource.next m.source).2) ∨
    (m.takesByte e = false ∧ m.rolls (e :: rest) = (m.apply e).machine.rolls rest ∧
      (m.apply e).machine.source = m.source) := by
  have hsource := m.source_apply e
  cases ht : m.takesByte e with
  | true =>
    rw [if_pos ht] at hsource
    exact Or.inl ⟨rfl, congrArg (List.map Prod.fst) (List.filter_cons_of_pos ht), hsource⟩
  | false =>
    rw [if_neg (Bool.eq_false_iff.mp ht)] at hsource
    exact Or.inr ⟨rfl,
      congrArg (List.map Prod.fst) (List.filter_cons_of_neg (Bool.eq_false_iff.mp ht)), hsource⟩

theorem rolls_append (m : Machine σ) (a b : List Event) :
    m.rolls (a ++ b) = m.rolls a ++ (m.run a).rolls b := by
  rw [rolls, steps_append, List.filter_append, List.map_append]
  rfl

theorem rolls_of_not_meetsRandom {m : Machine σ} (h : m.meetsRandom = false) :
    m.rolls [.cycle] = [] :=
  congrArg (List.map Prod.fst) (List.filter_cons_of_neg (Bool.eq_false_iff.mp h))

/-- A run takes as many bytes from the source as it has cycles that take one. -/
theorem source_run (m : Machine σ) (events : List Event) :
    (m.run events).source = ByteSource.drop (m.rolls events).length m.source := by
  induction events generalizing m with
  | nil => rfl
  | cons e rest ih =>
    rw [run_cons, ih]
    rcases m.rolls_cons_cases e rest with ⟨-, hr, hs⟩ | ⟨-, hr, hs⟩
    · rw [hr, hs]
      rfl
    · rw [hr, hs]

/-- The cycle that takes byte number `j` meets the source with all bytes before it gone. -/
theorem of_getElem?_rolls {m n : Machine σ} {events : List Event} {j : Nat}
    (h : (m.rolls events)[j]? = some n) :
    n.meetsRandom = true ∧ n.source = ByteSource.drop j m.source := by
  induction events generalizing m j with
  | nil => cases h
  | cons e rest ih =>
    rcases m.rolls_cons_cases e rest with ⟨ht, hr, hs⟩ | ⟨-, hr, hs⟩
    · rw [hr] at h
      cases j with
      | zero =>
        cases h
        cases e with
        | cycle => exact ⟨ht, rfl⟩
        | _ => cases ht
      | succ j =>
        obtain ⟨hn, hj⟩ := ih h
        rw [hs] at hj
        exact ⟨hn, hj⟩
    · rw [hr] at h
      obtain ⟨hn, hj⟩ := ih h
      rw [hs] at hj
      exact ⟨hn, hj⟩

/-- A cycle that takes a random byte succeeds and leaves the byte in its register, masked. -/
theorem register_of_meetsRandom {m : Machine σ} (h : m.meetsRandom = true) :
    m.cycle.answer.isOk = true ∧ ∃ x k l, m.state.Meets 0xC x k l ∧
      m.cycle.machine.state.registers.get x =
        (ByteSource.next m.source).1 &&& byteOfDigits k l := by
  obtain ⟨hm, op, hop, hk⟩ := any_opcode?_iff.mp h
  have hmeets := State.meets_of_fetch hop
  rw [beq_iff_eq.mp hk] at hmeets
  have hc := cycle_of_table hm hmeets (.random op.x op.y op.n) rfl
  rw [hc]
  refine ⟨rfl, op.x, op.y, op.n, hmeets, ?_⟩
  exact (RegisterFile.get_set ..).trans (if_pos rfl)

/-- An event does the same to two machines in one state if it takes no byte that differs. -/
theorem apply_congr {m : Machine σ} {m' : Machine τ} {e : Event} (hs : m'.state = m.state)
    (hf : m'.fault = m.fault) (hb : m.takesByte e = true →
      (ByteSource.next m'.source).1 = (ByteSource.next m.source).1) :
    (m'.apply e).reply e = (m.apply e).reply e ∧
      (m'.apply e).machine.state = (m.apply e).machine.state ∧
      (m'.apply e).machine.fault = (m.apply e).machine.fault := by
  have htwins : m.Twins m' := .of_eq hs hf
  obtain ⟨hafter, hreply⟩ := htwins.apply (fun _ _ => congrArg State.keypad hs) hb
  have hkeypad : (m'.apply e).machine.state.keypad = (m.apply e).machine.state.keypad := by
    rw [keypad_apply, keypad_apply, hs]
  have hstate := hafter.state
  rw [hkeypad] at hstate
  exact ⟨hreply, hstate, hafter.fault⟩

theorem answer_of_replies {m : Machine σ} {m' : Machine τ}
    (h : m'.replies [.cycle] = m.replies [.cycle]) : m'.cycle.answer = m.cycle.answer :=
  Answer.cycled.inj (congrArg Reply.answer (List.cons.inj h).1)

/-- Two machines in one state go the same way over a run that takes no more bytes than their sources
agree on. -/
theorem agrees_of_take {m : Machine σ} {m' : Machine τ} {k : Nat} {events : List Event}
    (hs : m'.state = m.state) (hf : m'.fault = m.fault)
    (hb : ByteSource.take k m'.source = ByteSource.take k m.source)
    (hk : (m.rolls events).length ≤ k) :
    m'.replies events = m.replies events ∧ (m'.run events).state = (m.run events).state ∧
      (m'.run events).fault = (m.run events).fault := by
  induction events generalizing m m' k with
  | nil => exact ⟨rfl, hs, hf⟩
  | cons e rest ih =>
    have ht' := (Twins.of_eq hs hf).takesByte_eq e
    have hsource' := m'.source_apply e
    rw [ht'] at hsource'
    rw [replies_cons, replies_cons, run_cons, run_cons]
    rcases m.rolls_cons_cases e rest with ⟨ht, hr, hsource⟩ | ⟨ht, hr, hsource⟩
    · rw [hr, List.length_cons] at hk
      rw [if_pos ht] at hsource'
      -- a byte is taken, so the sources agree on one at least
      cases k with
      | zero => omega
      | succ k =>
        obtain ⟨hbyte, hrest⟩ := List.cons.inj hb
        obtain ⟨hreply, hs', hf'⟩ := apply_congr (e := e) hs hf fun _ => hbyte
        rw [← hsource, ← hsource'] at hrest
        obtain ⟨hreplies, hend⟩ := ih hs' hf' hrest (Nat.le_of_succ_le_succ hk)
        rw [hreply, hreplies]
        exact ⟨rfl, hend⟩
    · rw [hr] at hk
      rw [if_neg (Bool.eq_false_iff.mp ht)] at hsource'
      obtain ⟨hreply, hs', hf'⟩ := apply_congr (e := e) hs hf fun h => by
        cases ht.symm.trans h
      rw [← hsource, ← hsource'] at hb
      obtain ⟨hreplies, hend⟩ := ih hs' hf' hb hk
      rw [hreply, hreplies]
      exact ⟨rfl, hend⟩

/-- Randomness enters a run by the instruction for it alone. After any run the source has handed out
as many bytes as cycles have executed that instruction, each of which succeeded and put the byte
that is its turn into its register, masked. So a second machine that starts in the same state,
halted by the same fault if at all, gives the same replies and is in the same state throughout, as
long as the two sources agree on as many bytes as the first machine takes. -/
theorem randomness_enters_by_rolls (m : Machine σ) (events : List Event) :
    (m.run events).source = ByteSource.drop (m.rolls events).length m.source ∧
    (∀ j n, (m.rolls events)[j]? = some n →
      n.cycle.answer.isOk = true ∧ ∃ x k l, n.state.Meets 0xC x k l ∧
        n.cycle.machine.state.registers.get x = ByteSource.get m.source j &&& byteOfDigits k l) ∧
    ∀ (τ : Type) [ByteSource τ] (m' : Machine τ) (k : Nat),
      m'.state = m.state → m'.fault = m.fault →
      ByteSource.take k m'.source = ByteSource.take k m.source →
      (m.rolls events).length ≤ k →
      m'.replies events = m.replies events ∧
        ∀ before, before <+: events → (m'.run before).state = (m.run before).state ∧
          (m'.run before).fault = (m.run before).fault := by
  refine ⟨m.source_run events, ?_, ?_⟩
  · intro j n h
    obtain ⟨hn, hsource⟩ := of_getElem?_rolls h
    obtain ⟨hok, x, k, l, hmeets, hget⟩ := register_of_meetsRandom hn
    refine ⟨hok, x, k, l, hmeets, ?_⟩
    rw [hget, hsource]
    rfl
  · intro τ _ m' k hs hf hb hk
    refine ⟨(agrees_of_take hs hf hb hk).1, ?_⟩
    rintro before ⟨rest, rfl⟩
    rw [rolls_append, List.length_append] at hk
    exact (agrees_of_take hs hf hb (by omega)).2

/-- A machine halted by a return that no call precedes. -/
def strayReturn : Machine Scripted := (loaded [0x00, 0xEE]).cycle.machine

/-- A machine past an instruction that the same return has been loaded over. -/
def returnBehind : Machine Scripted :=
  ((loaded [0x60, 0x00]).cycle.machine.load [0x00, 0xEE]).machine

theorem strayReturn_eq :
    strayReturn = ⟨(loaded [0x00, 0xEE]).state.advance, ⟨[]⟩, some .stackUnderflow⟩ := by
  obtain ⟨op, hop, hr⟩ :=
    State.refuses_of_table (f := .stackUnderflow) meets_return .ret ⟨rfl, rfl⟩
  rw [strayReturn, cycle_of_refused rfl hop hr]
  rfl

theorem returnBehind_eq :
    returnBehind = ⟨(loaded [0x00, 0xEE]).state.advance, ⟨[]⟩, none⟩ := by
  have hmeets : (loaded [0x60, 0x00]).state.Meets 6 0 0 0 := meets_loaded 6 0 0 0 (Nat.zero_le _)
  have hcycle : (loaded [0x60, 0x00]).cycle.machine =
      ⟨(loaded [0x60, 0x00]).state.advance, ⟨[]⟩, none⟩ := by
    rw [cycle_of_table rfl hmeets (.setByte 0 0 0) rfl, state_loaded (by decide)]
    rfl
  -- nothing but the program tells the two machines apart, and the second load writes over it
  have hload : (Memory.initial.put programStart [0x60, 0x00]).load [0x00, 0xEE] =
      .ok (Memory.initial.put programStart [0x00, 0xEE]) :=
    congrArg Except.ok (Memory.put_put _ _ rfl)
  rw [returnBehind, hcycle, state_loaded (by decide), state_loaded (by decide)]
  simp only [load, State.advance, hload]
  rfl

/-- The state alone does not determine a run: of two machines in one state and with one source one
is halted and the other goes on, and neither takes a random byte. -/
theorem equal_states_may_part :
    returnBehind.state = strayReturn.state ∧ returnBehind.source = strayReturn.source ∧
    strayReturn.rolls [.cycle] = [] ∧ returnBehind.rolls [.cycle] = [] ∧
    strayReturn.cycle.answer = .error .stackUnderflow ∧
    returnBehind.cycle.answer.isOk = true ∧
    returnBehind.replies [.cycle] ≠ strayReturn.replies [.cycle] := by
  have hhalted : strayReturn.cycle.answer = .error .stackUnderflow := by
    rw [strayReturn_eq]
    rfl
  have hgoes : returnBehind.cycle.answer.isOk = true := by decide +kernel
  have hsame : returnBehind.state = strayReturn.state ∧
      returnBehind.source = strayReturn.source := by
    rw [returnBehind_eq, strayReturn_eq]
    exact ⟨rfl, rfl⟩
  refine ⟨hsame.1, hsame.2, ?_, ?_, hhalted, hgoes, ?_⟩
  · rw [strayReturn_eq]
    rfl
  · exact rolls_of_not_meetsRandom (by decide +kernel)
  · intro h
    rw [answer_of_replies h, hhalted] at hgoes
    cases hgoes

end Chip8.Machine

import Chip8.Proofs.Bounds
import Chip8.Proofs.HeldKeys
import Chip8.Proofs.Subroutines

/-!
Where a cycle leads. The opcode under the program counter tells where the next one is fetched from
(`State.GoesTo`); an opcode that says nothing about that leads just past itself
(`Machine.counter_after_cycle`).
-/

namespace Chip8

namespace State

/-- What the condition asks is so. -/
def Holds (s : State) : Condition → Prop
  | .isByte x kk => s.registers.get x = kk
  | .isNotByte x kk => s.registers.get x ≠ kk
  | .same x y => s.registers.get x = s.registers.get y
  | .differ x y => s.registers.get x ≠ s.registers.get y
  | .keyHeld x => ∃ key ∈ s.keypad.heldKeys, key.val = (s.registers.get x).toNat
  | .keyFree x => ∀ key ∈ s.keypad.heldKeys, key.val ≠ (s.registers.get x).toNat

theorem holds_iff_of_test {s : State} {c : Condition} {holds : Bool}
    (h : s.test c = .ok holds) : s.Holds c ↔ holds = true := by
  cases c with
  | isByte x kk =>
    cases h
    exact beq_iff_eq.symm
  | isNotByte x kk =>
    cases h
    exact bne_iff_ne.symm
  | same x y =>
    cases h
    exact beq_iff_eq.symm
  | differ x y =>
    cases h
    exact bne_iff_ne.symm
  | keyHeld x => exact (Keypad.exists_heldKeys_iff h)
  | keyFree x =>
    obtain ⟨down, hd, rfl⟩ := map_eq_ok_iff.mp h
    have he := not_congr (Keypad.exists_heldKeys_iff hd)
    rw [Bool.not_eq_true', ← Bool.not_eq_true, ← he]
    simp [Holds]

/-- Where the opcode at the program counter leads, if it does not lead just past itself. -/
inductive GoesTo (s : State) : Nat → Prop where
  | jump (a b c) : s.Meets 1 a b c → s.GoesTo (Address.ofDigits a b c)
  | call (a b c) : s.Meets 2 a b c → s.GoesTo (Address.ofDigits a b c)
  | ret {a} : s.Meets 0 0 0xE 0xE → s.registers.calls.toList.getLast? = some a → s.GoesTo a.toNat
  | jumpFrom (a b c) : s.Meets 0xB a b c →
      s.GoesTo (Address.ofDigits a b c + (s.registers.get 0).toNat)
  | isByte (x k l) : s.Meets 3 x k l → s.Holds (.isByte x (byteOfDigits k l)) →
      s.GoesTo (s.registers.counter.toNat + 4)
  | isNotByte (x k l) : s.Meets 4 x k l → s.Holds (.isNotByte x (byteOfDigits k l)) →
      s.GoesTo (s.registers.counter.toNat + 4)
  | same (x y) : s.Meets 5 x y 0 → s.Holds (.same x y) → s.GoesTo (s.registers.counter.toNat + 4)
  | differ (x y) : s.Meets 9 x y 0 → s.Holds (.differ x y) →
      s.GoesTo (s.registers.counter.toNat + 4)
  | keyHeld (x) : s.Meets 0xE x 9 0xE → s.Holds (.keyHeld x) →
      s.GoesTo (s.registers.counter.toNat + 4)
  | keyFree (x) : s.Meets 0xE x 0xA 1 → s.Holds (.keyFree x) →
      s.GoesTo (s.registers.counter.toNat + 4)
  | wait (x) : s.Meets 0xF x 0 0xA → s.keypad.heldKeys = [] → s.GoesTo s.registers.counter.toNat

variable {s t : State} {op : Opcode}

/-- A skip goes two bytes further if its condition holds. -/
theorem counter_of_skipIf {c : Condition} (hop : s.fetch = .ok op)
    (h : s.advance.Leads t (.skipIf c)) :
    (s.Holds c → t.registers.counter.toNat = s.registers.counter.toNat + 4) ∧
    (¬ s.Holds c → t.registers.counter.toNat = s.registers.counter.toNat + 2) := by
  obtain ⟨⟨holds, htest, hcounter⟩, -⟩ := h
  have hle := counter_le_of_fetch hop
  have hadvance := toNat_counter_advance hop
  have hiff : s.Holds c ↔ holds = true := holds_iff_of_test (s := s.advance) htest
  rw [hcounter, UInt16.toNat_add]
  cases holds with
  | true =>
    refine ⟨fun _ => ?_, fun hn => absurd (hiff.mpr rfl) hn⟩
    change (_ + 2) % 65536 = _
    omega
  | false =>
    refine ⟨fun hc => absurd (hiff.mp hc) Bool.false_ne_true, fun _ => ?_⟩
    change (_ + 0) % 65536 = _
    omega

/-- A wait goes nowhere as long as no key is held. -/
theorem counter_of_awaitKey {x : Nibble} (hop : s.fetch = .ok op)
    (h : s.advance.Leads t (.awaitKey x)) :
    (s.keypad.heldKeys = [] → t.registers.counter.toNat = s.registers.counter.toNat) ∧
    (s.keypad.heldKeys ≠ [] → t.registers.counter.toNat = s.registers.counter.toNat + 2) := by
  have hiff : s.advance.keypad.lowest? = none ↔ s.keypad.heldKeys = [] :=
    Keypad.lowest?_eq_none_iff _
  rw [h.1]
  constructor
  · intro hk
    rw [if_pos (hiff.mpr hk)]
    exact congrArg UInt16.toNat (UInt16.add_sub_cancel s.registers.counter 2)
  · intro hk
    rw [if_neg (mt hiff.mp hk), UInt16.sub_zero]
    exact toNat_counter_advance hop

theorem counter_of_jumpFrom {base : Address} (h : s.advance.Leads t (.jumpFrom base)) :
    t.registers.counter.toNat = base.val + (s.registers.get 0).toNat := by
  rw [h.1]
  exact toNat_jumpFrom s.advance base

/-- The rule for a cycle, once the opcode it meets is known from the table. -/
theorem leads_of_table {a b c d : Nibble} {i : Instruction} (hop : s.fetch = .ok op)
    (hl : s.advance.Leads t (.decode op)) (h : s.Meets a b c d)
    (ht : Instruction.Table a b c d i) : s.advance.Leads t i := by
  cases hop.symm.trans ((s.meets_iff_fetch ..).mp h)
  rwa [Instruction.decode_of_table ht] at hl

theorem counter_of_goesTo {n : Nat} (hop : s.fetch = .ok op)
    (hl : s.advance.Leads t (.decode op)) (h : s.GoesTo n) : t.registers.counter.toNat = n := by
  cases h with
  | jump a b c h =>
    have hj := leads_of_table hop hl h (.jump a b c)
    rw [hj.1, Address.toNat_word]
  | call a b c h =>
    have hc := leads_of_table hop hl h (.call a b c)
    rw [hc.2, Address.toNat_word]
  | ret h ha =>
    have hr := CallStack.toList_pop (leads_of_table hop hl h .ret)
    have hnew : s.registers.calls.toList.getLast? = some t.registers.counter :=
      (congrArg List.getLast? hr).trans List.getLast?_concat
    rw [ha] at hnew
    rw [Option.some.inj hnew]
  | jumpFrom a b c h => exact counter_of_jumpFrom (leads_of_table hop hl h (.jumpFrom a b c))
  | isByte x k l h hc => exact (counter_of_skipIf hop (leads_of_table hop hl h (.isByte x k l))).1 hc
  | isNotByte x k l h hc =>
    exact (counter_of_skipIf hop (leads_of_table hop hl h (.isNotByte x k l))).1 hc
  | same x y h hc => exact (counter_of_skipIf hop (leads_of_table hop hl h (.same x y))).1 hc
  | differ x y h hc => exact (counter_of_skipIf hop (leads_of_table hop hl h (.differ x y))).1 hc
  | keyHeld x h hc => exact (counter_of_skipIf hop (leads_of_table hop hl h (.keyHeld x))).1 hc
  | keyFree x h hc => exact (counter_of_skipIf hop (leads_of_table hop hl h (.keyFree x))).1 hc
  | wait x h hk => exact (counter_of_awaitKey hop (leads_of_table hop hl h (.awaitKey x))).1 hk

/-- An instruction in the table leads to a place that is told, or on to the next opcode. -/
theorem goesTo_or_next {a b c d : Nibble} {i : Instruction} (hop : s.fetch = .ok op)
    (h : s.Meets a b c d) (ht : Instruction.Table a b c d i) (hl : s.advance.Leads t i) :
    s.GoesTo t.registers.counter.toNat ∨
      t.registers.counter.toNat = s.registers.counter.toNat + 2 := by
  have skip {cond : Condition} (hl : s.advance.Leads t (.skipIf cond))
      (hg : s.Holds cond → s.GoesTo (s.registers.counter.toNat + 4)) :
      s.GoesTo t.registers.counter.toNat ∨
        t.registers.counter.toNat = s.registers.counter.toNat + 2 := by
    obtain ⟨hyes, hno⟩ := counter_of_skipIf hop hl
    by_cases hc : s.Holds cond
    · rw [hyes hc]
      exact Or.inl (hg hc)
    · exact Or.inr (hno hc)
  cases ht with
  | ret =>
    refine Or.inl (.ret h ?_)
    exact (congrArg List.getLast? (CallStack.toList_pop hl)).trans List.getLast?_concat
  | jump =>
    rw [hl.1, Address.toNat_word]
    exact Or.inl (.jump _ _ _ h)
  | call =>
    rw [hl.2, Address.toNat_word]
    exact Or.inl (.call _ _ _ h)
  | jumpFrom =>
    rw [counter_of_jumpFrom hl]
    exact Or.inl (.jumpFrom _ _ _ h)
  | isByte => exact skip hl (.isByte _ _ _ h)
  | isNotByte => exact skip hl (.isNotByte _ _ _ h)
  | same => exact skip hl (.same _ _ h)
  | differ => exact skip hl (.differ _ _ h)
  | keyHeld => exact skip hl (.keyHeld _ h)
  | keyFree => exact skip hl (.keyFree _ h)
  | awaitKey =>
    obtain ⟨hnone, hsome⟩ := counter_of_awaitKey hop hl
    by_cases hk : s.keypad.heldKeys = []
    · rw [hnone hk]
      exact Or.inl (.wait _ h hk)
    · exact Or.inr (hsome hk)
  | _ =>
    rw [hl.1]
    exact Or.inr (toNat_counter_advance hop)

end State

namespace Machine

variable {σ : Type} [ByteSource σ] {m : Machine σ}

/-- Where the program counter is after a cycle that succeeds. -/
theorem counter_after_cycle (hok : m.cycle.answer.isOk = true) :
    (∀ n, m.state.GoesTo n → m.cycle.machine.state.registers.counter.toNat = n) ∧
    ((∀ n, ¬ m.state.GoesTo n) →
      m.cycle.machine.state.registers.counter.toNat = m.state.registers.counter.toNat + 2) := by
  obtain ⟨op, hop, hl⟩ := leads_of_isOk hok
  refine ⟨fun n => State.counter_of_goesTo hop hl, fun hn => ?_⟩
  rcases Instruction.table_or_unknown op with ht | hu
  · exact (State.goesTo_or_next hop (State.meets_of_fetch hop) ht hl).resolve_left (hn _)
  · rw [hu] at hl
    rw [hl.1]
    exact State.toNat_counter_advance hop

/-- A machine that jumps from the highest base by the greatest offset. -/
def leaping : Machine Scripted :=
  (loaded [0xBF, 0xFF]).setState ((loaded [0xBF, 0xFF]).state.setRegister 0 0xFF)

/-- It ends beyond memory: the sum is not cut off at the size of an address. -/
theorem counter_after_cycle_leaping : leaping.cycle.answer.isOk = true ∧
    leaping.cycle.machine.state.registers.counter.toNat = 0x10FE := by
  obtain ⟨hhigh, hlow⟩ : (loaded [0xBF, 0xFF]).state.Meets 0xB 0xF 0xF 0xF :=
    meets_loaded 0xB 0xF 0xF 0xF (Nat.zero_le _)
  have hm : leaping.state.Meets 0xB 0xF 0xF 0xF := ⟨hhigh, hlow⟩
  have hok : leaping.cycle.answer.isOk = true := by
    obtain ⟨r, hr⟩ := succeeds_of_table rfl hm (.jumpFrom 0xF 0xF 0xF) fun _ hr => hr
    rw [hr]
    rfl
  have hv : (leaping.state.registers.get 0).toNat = 0xFF := by decide +kernel
  refine ⟨hok, ?_⟩
  rw [(counter_after_cycle hok).1 _ (.jumpFrom 0xF 0xF 0xF hm), hv]
  rfl

end Machine

end Chip8

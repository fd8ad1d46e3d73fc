import Chip8.Proofs.ControlFlow

/-!
How far the program counter and the call stack can get (`RegisterFile.Bounded`). The program counter
can leave memory, by a skip or by a jump with an offset, but not beyond `0x10FE`: a return goes to
an address that a call stored, and a call stores the address just past an opcode that was fetched.
-/

namespace Chip8

/-- The bounds on the program counter and on the addresses that calls have stored. -/
structure RegisterFile.Bounded (r : RegisterFile) : Prop where
  counter_le : r.counter.toNat ≤ 0x10FE
  bottom_eq : r.calls.slots[0]? = some 0
  returns : ∀ a ∈ r.calls.toList, 2 ≤ a.toNat ∧ a.toNat ≤ 0x1000

theorem RegisterFile.bounded_initial : RegisterFile.initial.Bounded where
  counter_le := by decide
  bottom_eq := rfl
  returns := by
    intro a ha
    exact absurd ha List.not_mem_nil

/-- The addresses held are in the slots from 1 to the depth. -/
theorem CallStack.getElem_slots_mem_toList (s : CallStack) (k : Fin 16) (hk : 1 ≤ k.val)
    (hd : k ≤ s.depth) : s.slots.get k ∈ s.toList := by
  have hlt : k.val - 1 < s.depth.val := by
    have : k.val ≤ s.depth.val := hd
    omega
  refine List.mem_of_getElem? (i := k.val - 1) ?_
  rw [getElem?_toList, if_pos hlt, Nat.sub_add_cancel hk]
  exact Vector.getElem?_eq_getElem k.isLt

theorem Address.toNat_word (a : Address) : a.word.toNat = a.val := by
  have := a.isLt
  exact UInt16.toNat_ofNat_of_lt' (by show _ < 65536; omega)

/-- A jump with an offset goes at most 255 bytes beyond the addresses that an opcode can name. -/
theorem toNat_jumpFrom (s : State) (base : Address) :
    (s.jumpFrom base.word).registers.counter.toNat = base.val + (s.registers.get 0).toNat := by
  have hb := base.isLt
  have hv := (s.registers.get 0).toNat_lt
  change (base.word + (s.registers.get 0).toUInt16).toNat = _
  rw [UInt16.toNat_add, Address.toNat_word, UInt8.toNat_toUInt16]
  omega

/-- An instruction that starts just past a fetched opcode ends within the bounds. -/
theorem State.Leads.bounded {s t : State} {i : Instruction} (h : s.Leads t i)
    (hc : 2 ≤ s.registers.counter.toNat ∧ s.registers.counter.toNat ≤ 0x1000)
    (hs : s.registers.Bounded) : t.registers.Bounded := by
  have stay (hcounter : t.registers.counter.toNat ≤ 0x10FE)
      (hcalls : t.registers.calls = s.registers.calls) : t.registers.Bounded :=
    ⟨hcounter, by rw [hcalls]; exact hs.bottom_eq, by rw [hcalls]; exact hs.returns⟩
  cases i with
  | ret =>
    have hl := CallStack.toList_pop h
    have ha := hs.returns t.registers.counter (by rw [hl]; exact List.mem_append_right _ (by simp))
    refine ⟨by omega, ?_, fun a hm => hs.returns a ?_⟩
    · rw [CallStack.slots_pop h]
      exact hs.bottom_eq
    · rw [hl]
      exact List.mem_append_left _ hm
  | call target =>
    obtain ⟨hp, ht⟩ := h
    refine ⟨?_, (CallStack.bottom_push hp).trans hs.bottom_eq, fun a hm => ?_⟩
    · have := target.isLt
      rw [ht, Address.toNat_word]
      omega
    · rw [CallStack.toList_push hp, List.mem_append, List.mem_singleton] at hm
      rcases hm with hm | rfl
      · exact hs.returns a hm
      · exact hc
  | jump target =>
    have := target.isLt
    exact stay (by rw [h.1, Address.toNat_word]; omega) h.2
  | jumpFrom base =>
    have hb := base.isLt
    have hv := (s.registers.get 0).toNat_lt
    have hj := toNat_jumpFrom s base
    refine stay ?_ h.2
    rw [h.1]
    change (s.jumpFrom base.word).registers.counter.toNat ≤ _
    omega
  | skipIf c =>
    obtain ⟨⟨holds, -, ht⟩, hcalls⟩ := h
    refine stay ?_ hcalls
    rw [ht, UInt16.toNat_add]
    cases holds
    · change (_ + 0) % 65536 ≤ _
      omega
    · change (_ + 2) % 65536 ≤ _
      omega
  | awaitKey x =>
    have h2 : (2 : UInt16) ≤ s.registers.counter := UInt16.le_iff_toNat_le.mpr hc.1
    refine stay ?_ h.2
    rw [h.1]
    split
    · rw [UInt16.toNat_sub_of_le _ _ h2]
      omega
    · rw [UInt16.sub_zero]
      omega
  | _ => exact stay (by rw [h.1]; omega) h.2

namespace Machine

variable {σ : Type}

theorem bounded_advance {m : Machine σ} {op : Opcode} (h : m.state.fetch = .ok op)
    (hb : m.state.registers.Bounded) : m.state.advance.registers.Bounded where
  counter_le := by
    have := State.counter_le_of_fetch h
    rw [State.toNat_counter_advance h]
    omega
  bottom_eq := hb.bottom_eq
  returns := hb.returns

theorem bounded_cycle [ByteSource σ] {m : Machine σ} (hb : m.state.registers.Bounded) :
    m.cycle.machine.state.registers.Bounded := by
  rcases m.cycle_cases with ⟨f, -, hc⟩ | ⟨f, -, -, hc⟩ | ⟨op, f, -, hop, -, hc⟩ |
    ⟨op, ending, w, -, hop, hx, hc⟩
  · rw [hc]
    exact hb
  · rw [hc]
    exact hb
  · rw [hc]
    exact bounded_advance hop hb
  · rw [hc]
    have := State.counter_le_of_fetch hop
    have hl := Work.leads_of_run_execute hx
    exact hl.bounded (by rw [workspace, State.toNat_counter_advance hop]; omega)
      (bounded_advance hop hb)

theorem bounded_apply [ByteSource σ] {m : Machine σ} (e : Event)
    (hb : m.state.registers.Bounded) : (m.apply e).machine.state.registers.Bounded := by
  by_cases he : e = .cycle
  · subst he
    exact bounded_cycle hb
  · obtain ⟨memory, keypad, h⟩ := m.host_event e he
    rw [h]
    exact hb

theorem bounded_run [ByteSource σ] (source : σ) (events : List Event) :
    ((new source).run events).state.registers.Bounded :=
  run_induction (P := fun m => m.state.registers.Bounded) RegisterFile.bounded_initial
    (fun _ e hb => bounded_apply e hb) events

end Machine

end Chip8

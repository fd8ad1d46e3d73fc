import Chip8.Proofs.Cycle
import Chip8.Proofs.Decoding

/-!
Registers to memory and back. Two instructions move the registers before the one that they name,
and each undoes the other: what was saved is restored, and what was restored and is then saved
leaves memory as it was (`Workspace.save_restore`).
-/

namespace Chip8

namespace Memory

/-- A range of `len` bytes at `a` can be accessed: it is empty or within memory. -/
def Fits (a len : Nat) : Prop := len = 0 ∨ a + len ≤ 0x1000

theorem readRange_of_fits (m : Memory) {a len : Nat} (h : Fits a len) :
    ∃ data, m.readRange a len = .ok data := by
  cases hr : m.readRange a len with
  | ok data => exact ⟨data, rfl⟩
  | error f =>
    obtain ⟨hpos, hout, -⟩ := (m.readRange_eq_error_iff a len f).mp hr
    rcases h with hz | hle
    · omega
    · exact absurd hle (Nat.not_le_of_lt hout)

theorem writeRange_of_fits (m : Memory) {a : Nat} {data : List UInt8} (h : Fits a data.length) :
    ∃ n, m.writeRange a data = .ok n := by
  cases hw : m.writeRange a data with
  | ok n => exact ⟨n, rfl⟩
  | error f =>
    obtain ⟨hne, hout, -⟩ := (m.writeRange_eq_error_iff a data f).mp hw
    rcases h with hz | hle
    · exact absurd (List.length_eq_zero_iff.mp hz) hne
    · exact absurd hle (Nat.not_le_of_lt hout)

/-- What was read can be written back, which changes nothing. -/
theorem writeRange_of_readRange {m n : Memory} {a len : Nat} {data : List UInt8}
    (hr : m.readRange a len = .ok data) (hw : m.writeRange a data = .ok n) : n = m := by
  refine eq_of_byte? fun b => ?_
  rw [byte?_writeRange hw, length_readRange hr]
  by_cases hb : a ≤ b ∧ b < a + len
  · rw [if_pos hb, getElem?_readRange hr, if_pos (by omega), Nat.add_sub_cancel' hb.1]
  · rw [if_neg hb]

end Memory

namespace RegisterFile

theorem getElem?_before (r : RegisterFile) (x z : Nibble) :
    (r.before x)[z.val]? = if z.val < x.val then some (r.get z) else none := by
  rw [before, List.getElem?_take, Vector.getElem?_toList, Vector.getElem?_eq_getElem z.isLt]
  rfl

theorem get_setFirst_of_some {r : RegisterFile} {data : List UInt8} {z : Nibble} {b : UInt8}
    (h : data[z.val]? = some b) : (r.setFirst data).get z = b := by
  rw [get_setFirst, h]
  rfl

theorem get_setFirst_of_le {r : RegisterFile} {data : List UInt8} {z : Nibble}
    (h : data.length ≤ z.val) : (r.setFirst data).get z = r.get z := by
  rw [get_setFirst, List.getElem?_eq_none h]
  rfl

/-- The registers that were set are the data that they were set to. -/
theorem before_setFirst {r : RegisterFile} {x : Nibble} {data : List UInt8}
    (h : data.length = x) : (r.setFirst data).before x = data := by
  apply List.ext_getElem?
  intro k
  by_cases hk : k < x.val
  · have hlt : k < data.length := by rwa [h]
    rw [getElem?_before _ x ⟨k, Nat.lt_trans hk x.isLt⟩, if_pos hk,
      List.getElem?_eq_getElem hlt]
    exact congrArg some (get_setFirst_of_some (List.getElem?_eq_getElem hlt))
  · rw [List.getElem?_eq_none (by rw [length_before]; omega),
      List.getElem?_eq_none (by omega)]

section

variable {r v : RegisterFile} {m n : Memory} {a : Nat} {x y z : Nibble} {data : List UInt8}

/-- The first bytes where registers were saved are these registers. -/
theorem get_restored_of_lt (hw : m.writeRange a (r.before x) = .ok n)
    (hr : n.readRange a y = .ok data) (hx : z.val < x.val) (hy : z.val < y.val) :
    (v.setFirst data).get z = r.get z := by
  have hin : a + z.val < a + x.val := Nat.add_lt_add_left hx a
  refine get_setFirst_of_some ?_
  rw [Memory.getElem?_readRange hr, if_pos hy, Memory.byte?_writeRange hw, r.length_before,
    if_pos ⟨Nat.le_add_right _ _, hin⟩, Nat.add_sub_cancel_left, r.getElem?_before, if_pos hx]

/-- The bytes behind these are still those that were in memory. -/
theorem get_restored_of_le (hw : m.writeRange a (r.before x) = .ok n)
    (hr : n.readRange a y = .ok data) (hx : x.val ≤ z.val) (hy : z.val < y.val) :
    m.byte? (a + z.val) = some ((v.setFirst data).get z) := by
  have hout : ¬ (a ≤ a + z.val ∧ a + z.val < a + x.val) := by omega
  have hdata : data[z.val]? = m.byte? (a + z.val) := by
    rw [Memory.getElem?_readRange hr, if_pos hy, Memory.byte?_writeRange hw, r.length_before,
      if_neg hout]
  have hlen : z.val < data.length := by
    rwa [Memory.length_readRange hr]
  rw [← hdata, List.getElem?_eq_getElem hlen]
  exact congrArg some (get_setFirst_of_some (List.getElem?_eq_getElem hlen)).symm

end

end RegisterFile

namespace Workspace

open Work (execute)

variable {σ : Type} [ByteSource σ]

/-- Saving, within memory. -/
theorem run_save_of_fits (w : Workspace σ) {x : Nibble}
    (h : Memory.Fits w.state.registers.index.toNat x) :
    ∃ saved, (execute (.decode (.ofDigits 0xF x 5 5))).run w = .ok .done saved ∧
      w.state.memory.writeRange w.state.registers.index.toNat (w.state.registers.before x) =
        .ok saved.state.memory ∧
      saved.state.registers = w.state.registers := by
  rw [← w.state.registers.length_before x] at h
  obtain ⟨memory, hm⟩ := w.state.memory.writeRange_of_fits h
  refine ⟨{ w with state := { w.state with memory } }, ?_, hm, rfl⟩
  rw [Instruction.decode_of_table (.save x), Work.run_save, Work.run_writeAtIndex, hm]
  rfl

/-- Restoring, within memory. -/
theorem run_restore_of_fits (w : Workspace σ) {x : Nibble}
    (h : Memory.Fits w.state.registers.index.toNat x) :
    ∃ restored data, (execute (.decode (.ofDigits 0xF x 6 5))).run w = .ok .done restored ∧
      w.state.memory.readRange w.state.registers.index.toNat x = .ok data ∧
      restored.state.registers = w.state.registers.setFirst data ∧
      restored.state.memory = w.state.memory := by
  obtain ⟨data, hd⟩ := w.state.memory.readRange_of_fits h
  refine ⟨{ w with state := w.state.setRegisters (w.state.registers.setFirst data) }, data, ?_, hd,
    State.registers_setRegisters .., State.memory_setRegisters ..⟩
  rw [Instruction.decode_of_table (.restore x), execute, Work.run_restore, hd]
  rfl

/-- Saving and restoring undo each other. The registers before `x` are saved; then, whatever is done
to the registers while memory and the index are kept, restoring those before `y` gives them back, as
far as they were saved, and else the bytes that were in memory, and it leaves the registers from `y`
on alone. Memory differs from before in the bytes saved and in no others. The other way round,
saving what was just restored changes nothing in memory. -/
theorem save_restore (w : Workspace σ) {x y : Nibble}
    (hx : Memory.Fits w.state.registers.index.toNat x)
    (hy : Memory.Fits w.state.registers.index.toNat y) :
    (∃ saved, (execute (.decode (.ofDigits 0xF x 5 5))).run w = .ok .done saved ∧
      ∀ v : Workspace σ, v.state.memory = saved.state.memory →
        v.state.registers.index = saved.state.registers.index →
        ∃ restored, (execute (.decode (.ofDigits 0xF y 6 5))).run v = .ok .done restored ∧
          (∀ z, z < x → z < y → restored.state.registers.get z = w.state.registers.get z) ∧
          (∀ z, x ≤ z → z < y →
            w.state.memory.byte? (w.state.registers.index.toNat + z.val) =
              some (restored.state.registers.get z)) ∧
          (∀ z, y ≤ z → restored.state.registers.get z = v.state.registers.get z) ∧
          restored.state.registers.index = w.state.registers.index ∧
          ∀ a, a < w.state.registers.index.toNat ∨ w.state.registers.index.toNat + x.val ≤ a →
            restored.state.memory.byte? a = w.state.memory.byte? a) ∧
    ∃ restored saved, (execute (.decode (.ofDigits 0xF x 6 5))).run w = .ok .done restored ∧
      (execute (.decode (.ofDigits 0xF x 5 5))).run restored = .ok .done saved ∧
      saved.state.memory = w.state.memory := by
  constructor
  · obtain ⟨saved, hsave, hw, hregisters⟩ := w.run_save_of_fits hx
    refine ⟨saved, hsave, fun v hmemory hindex => ?_⟩
    rw [hregisters] at hindex
    rw [← hindex] at hy
    obtain ⟨restored, data, hrestore, hr, hset, hkept⟩ := v.run_restore_of_fits hy
    rw [hmemory, hindex] at hr
    rw [hmemory] at hkept
    refine ⟨restored, hrestore, fun z hzx hzy => ?_, fun z hzx hzy => ?_, fun z hz => ?_, ?_,
      fun a ha => ?_⟩
    · rw [hset]
      exact RegisterFile.get_restored_of_lt hw hr hzx hzy
    · rw [hset]
      exact RegisterFile.get_restored_of_le hw hr hzx hzy
    · rw [hset]
      exact RegisterFile.get_setFirst_of_le (by rwa [Memory.length_readRange hr])
    · rw [hset, RegisterFile.index_setFirst, hindex]
    · have hout : ¬ (w.state.registers.index.toNat ≤ a ∧
          a < w.state.registers.index.toNat + (w.state.registers.before x).length) := by
        rw [RegisterFile.length_before]
        omega
      rw [hkept, Memory.byte?_writeRange hw, if_neg hout]
  · obtain ⟨restored, data, hrestore, hr, hset, hkept⟩ := w.run_restore_of_fits hx
    have hindex : restored.state.registers.index = w.state.registers.index := by
      rw [hset, RegisterFile.index_setFirst]
    rw [← hindex] at hx
    obtain ⟨saved, hsave, hw, -⟩ := restored.run_save_of_fits hx
    refine ⟨restored, saved, hrestore, hsave, ?_⟩
    rw [hkept, hindex, hset, RegisterFile.before_setFirst (Memory.length_readRange hr)] at hw
    exact Memory.writeRange_of_readRange hr hw

/-- A workspace with its index fifteen bytes below the top of memory. -/
def nearTop : Workspace Scripted := ⟨State.initial.setIndex 0xFF1, ⟨[]⟩, []⟩

/-- There is room for all the registers that can be moved there, and for no more. -/
theorem save_restore_nearTop :
    Memory.Fits nearTop.state.registers.index.toNat 0xA ∧
    Memory.Fits nearTop.state.registers.index.toNat 0xF ∧
    ∃ saved, (execute (.decode (.ofDigits 0xF 0xA 5 5))).run nearTop = .ok .done saved ∧
      ∃ restored, (execute (.decode (.ofDigits 0xF 0xF 6 5))).run saved = .ok .done restored ∧
        (∀ z : Nibble, z < 0xA →
          restored.state.registers.get z = nearTop.state.registers.get z) ∧
        ∀ z : Nibble, 0xA ≤ z → z < 0xF →
          nearTop.state.memory.byte? (nearTop.state.registers.index.toNat + z.val) =
            some (restored.state.registers.get z) := by
  have hx : Memory.Fits nearTop.state.registers.index.toNat 0xA := Or.inr (by decide)
  have hy : Memory.Fits nearTop.state.registers.index.toNat 0xF := Or.inr (by decide)
  obtain ⟨saved, hsave, h⟩ := (nearTop.save_restore (x := 0xA) (y := 0xF) hx hy).1
  obtain ⟨restored, hrestore, hlow, hhigh, -⟩ := h saved rfl rfl
  refine ⟨hx, hy, saved, hsave, restored, hrestore, fun z hz => ?_, hhigh⟩
  exact hlow z hz (Fin.lt_trans hz (by decide))

end Workspace

end Chip8

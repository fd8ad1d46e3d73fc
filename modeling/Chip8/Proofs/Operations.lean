import Chip8.Proofs.Bounds
import Chip8.Proofs.DrawFlag

/-!
Nothing that a cycle computes gets too large. Every sum, difference and product is exact and every
index is inside its array (`Machine.operations_fit`), since an instruction is executed only just
past an opcode that was fetched. Of the pixels none is left out: what a drawing changes it accesses
(`Machine.access_of_pixel_ne`).
-/

namespace Chip8

/-- A computation whose exact result has to be what its type keeps, or an access to an element of
an array. -/
inductive Operation where
  | word (result : Int) (kept : UInt16)
  | byte (result : Int) (kept : UInt8)
  | access (index length : Nat)

def Operation.Fits : Operation → Prop
  | .word result kept => kept.toNat = result
  | .byte result kept => kept.toNat = result
  | .access index length => index < length

/-- The timers count down only if they are not at zero. -/
def Timers.operations (t : Timers) : List Operation :=
  (if t.delay = 0 then [] else [.byte (t.delay.toNat - 1) t.tick.delay]) ++
  (if t.sound = 0 then [] else [.byte (t.sound.toNat - 1) t.tick.sound])

/-- The pixels that a sprite touches, as elements of an array of all pixels row after row. -/
def Screen.touched (column row : UInt8) (height : Nat) : List Operation :=
  (List.range height).flatMap fun r => (List.range 8).map fun b =>
    .access ((rowAt (row.toNat + r)).val * 64 + (column.toNat + b) % 64) (32 * 64)

/-- What the execution of an instruction computes and accesses, other than the registers that its
opcode names. -/
def State.operations (s : State) : Instruction → List Operation
  | .ret =>
    match s.registers.calls.pop with
    | .ok (_, calls) =>
      [.access s.registers.calls.depth 16,
       .byte (s.registers.calls.depth.val - 1) (UInt8.ofNat calls.depth.val)]
    | .error _ => []
  | .call _ =>
    match s.registers.calls.push s.registers.counter with
    | .ok calls =>
      [.byte (s.registers.calls.depth.val + 1) (UInt8.ofNat calls.depth.val),
       .access calls.depth 16]
    | .error _ => []
  | .skipIf c =>
    match s.test c with
    | .ok true => [.word (s.registers.counter.toNat + 2) s.registers.skip.counter]
    | _ => []
  | .combine .add x y =>
    [.word ((s.registers.get x).toNat + (s.registers.get y).toNat)
      ((s.registers.get x).toUInt16 + (s.registers.get y).toUInt16)]
  | .jumpFrom base =>
    [.word (base.val + (s.registers.get 0).toNat) (s.jumpFrom base.word).registers.counter]
  | .draw x y height => Screen.touched (s.registers.get x) (s.registers.get y) height
  | .awaitKey _ =>
    match s.keypad.lowest? with
    | some _ => []
    | none => [.word (s.registers.counter.toNat - 2) s.registers.rewind.counter]
  | .glyph x =>
    [.word ((s.registers.get x).toNat * 5) (s.pointAtGlyph (s.registers.get x)).registers.index]
  | .unknown _ => [.word (s.registers.counter.toNat - 2) s.registers.rewind.counter]
  | _ => []

/-- What the next cycle computes and accesses; the content of the call stack can be read at any
time, up to the slot that the depth names. -/
def Machine.operations {σ : Type} [ByteSource σ] (m : Machine σ) : List Operation :=
  .access m.state.registers.calls.depth 16 ::
  match m.opcode? with
  | none => []
  | some op =>
    [.word (m.state.registers.counter.toNat + 2) m.state.advance.registers.counter,
     .access op.x 16, .access op.y 16] ++
    m.state.advance.operations (.decode op) ++
    match (Work.execute (.decode op)).run (m.workspace op) with
    | .ok _ w => w.state.timers.operations
    | .error _ _ => []

theorem Timers.fits_countDown (t : UInt8) :
    ∀ o ∈ if t = 0 then [] else [Operation.byte (t.toNat - 1) (countDown t)], o.Fits := by
  split
  · exact List.forall_mem_nil _
  · rename_i h
    have hne : t.toNat ≠ 0 := fun e => h (UInt8.toNat_inj.mp e)
    have hd := toNat_countDown t
    refine List.forall_mem_singleton.mpr ?_
    change ((countDown t).toNat : Int) = _
    omega

theorem Timers.operations_fit (t : Timers) : ∀ o ∈ t.operations, o.Fits :=
  List.forall_mem_append.mpr ⟨fits_countDown t.delay, fits_countDown t.sound⟩

theorem Screen.touched_fit (column row : UInt8) (height : Nat) :
    ∀ o ∈ touched column row height, o.Fits := by
  intro o ho
  obtain ⟨r, -, ho⟩ := List.mem_flatMap.mp ho
  obtain ⟨b, -, rfl⟩ := List.mem_map.mp ho
  have hr := (rowAt (row.toNat + r)).isLt
  have hb := Nat.mod_lt (column.toNat + b) (show 0 < 64 by decide)
  change _ < 32 * 64
  omega

/-- A pixel that drawing changes is one of the eight of some row of the sprite. -/
theorem Screen.drawn_of_ne {s : Screen} {column row : UInt8} {sprite : List UInt8} {x : Fin 64}
    {y : Fin 32} (h : (s.draw column row sprite).pixel x y ≠ s.pixel x y) :
    ∃ r < sprite.length, ∃ b < 8,
      rowAt (row.toNat + r) = y ∧ (column.toNat + b) % 64 = x := by
  have hi : inverts column row.toNat sprite x y = true := by
    refine Bool.of_not_eq_false fun hi => h ?_
    rw [pixel_draw, hi, Bool.xor_false]
  obtain ⟨hd, hs⟩ := Bool.and_eq_true_iff.mp hi
  obtain ⟨r, hr, hy⟩ : ∃ r < sprite.length, (row.toNat + r) % 32 = y := by
    refine Classical.byContradiction fun hno => ?_
    rw [strikes_eq_zero _ fun k hk hy => hno ⟨k, hk, hy⟩] at hs
    cases hs
  refine ⟨r, hr, distance column x, of_decide_eq_true hd, Fin.ext hy, ?_⟩
  rw [distance_eq]
  omega

/-- Every pixel that a sprite changes is among those it touches. -/
theorem Screen.touched_of_pixel_ne {s : Screen} {column row : UInt8} {sprite : List UInt8}
    {x : Fin 64} {y : Fin 32} (h : (s.draw column row sprite).pixel x y ≠ s.pixel x y) :
    .access (y.val * 64 + x.val) (32 * 64) ∈ touched column row sprite.length := by
  obtain ⟨r, hr, b, hb, hy, hx⟩ := drawn_of_ne h
  refine List.mem_flatMap.mpr ⟨r, List.mem_range.mpr hr, ?_⟩
  refine List.mem_map.mpr ⟨b, List.mem_range.mpr hb, ?_⟩
  rw [hy, hx]

theorem Operation.fits_depth {d : Fin 16} {result : Int} (h : (d.val : Int) = result) :
    (Operation.byte result (UInt8.ofNat d.val)).Fits := by
  have hd := d.isLt
  change ((UInt8.ofNat d.val).toNat : Int) = result
  rw [UInt8.toNat_ofNat_of_lt' (by show _ < 256; omega)]
  exact h

theorem RegisterFile.fits_skip {r : RegisterFile} (h : r.counter.toNat ≤ 0x1000) :
    (Operation.word (r.counter.toNat + 2) r.skip.counter).Fits := by
  change ((r.counter + 2).toNat : Int) = _
  rw [UInt16.toNat_add]
  change (((_ + 2) % 65536 : Nat) : Int) = _
  omega

theorem RegisterFile.fits_rewind {r : RegisterFile} (h : 2 ≤ r.counter.toNat) :
    (Operation.word (r.counter.toNat - 2) r.rewind.counter).Fits := by
  have h2 : (2 : UInt16) ≤ r.counter := UInt16.le_iff_toNat_le.mpr h
  change ((r.counter - 2).toNat : Int) = _
  rw [UInt16.toNat_sub_of_le _ _ h2]
  change ((r.counter.toNat - 2 : Nat) : Int) = _
  omega

theorem fits_sum (a b : UInt8) :
    (Operation.word (a.toNat + b.toNat) (a.toUInt16 + b.toUInt16)).Fits := by
  have ha := a.toNat_lt
  have hb := b.toNat_lt
  change ((a.toUInt16 + b.toUInt16).toNat : Int) = _
  rw [UInt16.toNat_add, UInt8.toNat_toUInt16, UInt8.toNat_toUInt16]
  omega

theorem State.fits_jumpFrom (s : State) (base : Address) :
    (Operation.word (base.val + (s.registers.get 0).toNat)
      (s.jumpFrom base.word).registers.counter).Fits := by
  change ((s.jumpFrom base.word).registers.counter.toNat : Int) = _
  rw [toNat_jumpFrom]
  exact Int.natCast_add ..

theorem State.fits_pointAtGlyph (s : State) (digit : UInt8) :
    (Operation.word (digit.toNat * 5) (s.pointAtGlyph digit).registers.index).Fits := by
  have hd := digit.toNat_lt
  change ((digit.toUInt16 * UInt16.ofNat glyphHeight).toNat : Int) = _
  rw [UInt16.toNat_mul, UInt8.toNat_toUInt16]
  change ((_ * 5 % 65536 : Nat) : Int) = _
  omega

theorem State.operations_fit {s : State} (h2 : 2 ≤ s.registers.counter.toNat)
    (hle : s.registers.counter.toNat ≤ 0x1000) (i : Instruction) :
    ∀ o ∈ s.operations i, o.Fits := by
  cases i with
  | ret =>
    simp only [operations]
    split
    · rename_i a calls hp
      have hd := CallStack.depth_pop hp
      have hlt := s.registers.calls.depth.isLt
      refine List.forall_mem_cons.mpr ⟨hlt, List.forall_mem_singleton.mpr ?_⟩
      exact Operation.fits_depth (by omega)
    · exact List.forall_mem_nil _
  | call target =>
    simp only [operations]
    split
    · rename_i calls hp
      have hd := CallStack.depth_push hp
      have hlt := calls.depth.isLt
      refine List.forall_mem_cons.mpr ⟨?_, List.forall_mem_singleton.mpr hlt⟩
      exact Operation.fits_depth (by omega)
    · exact List.forall_mem_nil _
  | skipIf c =>
    simp only [operations]
    split
    · exact List.forall_mem_singleton.mpr (RegisterFile.fits_skip hle)
    · exact List.forall_mem_nil _
  | combine op x y =>
    cases op with
    | add => exact List.forall_mem_singleton.mpr (fits_sum _ _)
    | _ => exact List.forall_mem_nil _
  | jumpFrom base => exact List.forall_mem_singleton.mpr (s.fits_jumpFrom base)
  | draw x y height => exact Screen.touched_fit _ _ _
  | awaitKey x =>
    simp only [operations]
    split
    · exact List.forall_mem_nil _
    · exact List.forall_mem_singleton.mpr (RegisterFile.fits_rewind h2)
  | glyph x => exact List.forall_mem_singleton.mpr (s.fits_pointAtGlyph _)
  | unknown op => exact List.forall_mem_singleton.mpr (RegisterFile.fits_rewind h2)
  | _ => exact List.forall_mem_nil _

theorem Machine.operations_fit {σ : Type} [ByteSource σ] (m : Machine σ) :
    ∀ o ∈ m.operations, o.Fits := by
  refine List.forall_mem_cons.mpr ⟨m.state.registers.calls.depth.isLt, ?_⟩
  split
  · exact List.forall_mem_nil _
  · rename_i op hop
    have hf := (opcode?_eq_some_iff.mp hop).2
    have hle := State.counter_le_of_fetch hf
    have hadv := State.toNat_counter_advance hf
    refine List.forall_mem_append.mpr ⟨List.forall_mem_append.mpr ⟨?_, ?_⟩, ?_⟩
    · refine List.forall_mem_cons.mpr ⟨RegisterFile.fits_skip (by omega), ?_⟩
      exact List.forall_mem_cons.mpr ⟨op.x.isLt, List.forall_mem_singleton.mpr op.y.isLt⟩
    · exact State.operations_fit (by omega) (by omega) _
    · split
      · exact Timers.operations_fit _
      · exact List.forall_mem_nil _

theorem Machine.mem_operations_of_opcode? {σ : Type} [ByteSource σ] {m : Machine σ} {op : Opcode}
    {o : Operation} (hop : m.opcode? = some op)
    (ho : o ∈ m.state.advance.operations (.decode op)) : o ∈ m.operations := by
  simp only [operations, hop]
  exact List.mem_cons_of_mem _ (List.mem_append_left _ (List.mem_append_right _ ho))

/-- A cycle that draws changes no pixel that it does not access; one that faults instead changes
none. -/
theorem Machine.access_of_pixel_ne {σ : Type} [ByteSource σ] {m : Machine σ} {x y n : Nibble}
    (hd : m.state.Meets 0xD x y n) {column : Fin 64} {row : Fin 32}
    (h : m.cycle.machine.state.screen.pixel column row ≠ m.state.screen.pixel column row) :
    .access (row.val * 64 + column.val) (32 * 64) ∈ m.operations := by
  by_cases hok : m.cycle.answer.isOk = true
  · obtain ⟨sprite, hlen, hscreen, -⟩ := m.draw_of_isOk hok hd
    obtain ⟨-, -, -, hm, -⟩ := cycle_of_isOk hok
    have hop := opcode?_eq_some_iff.mpr ⟨hm, (m.state.meets_iff_fetch ..).mp hd⟩
    refine mem_operations_of_opcode? hop ?_
    rw [hscreen] at h
    have ht := Screen.touched_of_pixel_ne h
    rw [hlen] at ht
    rw [Instruction.decode_of_table (.draw x y n)]
    exact ht
  · refine absurd ?_ h
    rcases state_of_not_isOk hok with ⟨op, -, hs⟩ | ⟨-, hs⟩
    · rw [hs]
      rfl
    · rw [hs]

/-- In every reachable state the program counter is at most `0x10FE`, the lowest slot of the call
stack is zero and the slots up to the depth hold addresses from 2 to `0x1000`; and whatever the next
cycle computes or accesses fits, the pixels among it that it changes by drawing. -/
theorem reachable_bounds {σ : Type} [ByteSource σ] (source : σ) (events : List Event) :
    ((Machine.new source).run events).state.registers.counter.toNat ≤ 0x10FE ∧
    ((Machine.new source).run events).state.registers.calls.depth.val ≤ 15 ∧
    ((Machine.new source).run events).state.registers.calls.slots[0]? = some 0 ∧
    (∀ k : Fin 16, 1 ≤ k.val → k ≤ ((Machine.new source).run events).state.registers.calls.depth →
      2 ≤ (((Machine.new source).run events).state.registers.calls.slots.get k).toNat ∧
      (((Machine.new source).run events).state.registers.calls.slots.get k).toNat ≤ 0x1000) ∧
    (∀ o ∈ ((Machine.new source).run events).operations, o.Fits) ∧
    ∀ (x y n : Nibble) (column : Fin 64) (row : Fin 32),
      ((Machine.new source).run events).state.Meets 0xD x y n →
      ((Machine.new source).run events).cycle.machine.state.screen.pixel column row ≠
        ((Machine.new source).run events).state.screen.pixel column row →
      .access (row.val * 64 + column.val) (32 * 64) ∈
        ((Machine.new source).run events).operations := by
  have hb := Machine.bounded_run source events
  refine ⟨hb.counter_le, Nat.le_of_lt_succ (Fin.isLt _), hb.bottom_eq, ?_,
    Machine.operations_fit _, fun x y n column row hd h => Machine.access_of_pixel_ne hd h⟩
  intro k hk hd
  exact hb.returns _ (CallStack.getElem_slots_mem_toList _ k hk hd)

end Chip8

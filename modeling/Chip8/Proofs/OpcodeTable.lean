import Chip8.Proofs.Decoding

/-!
The opcode table as data. Its patterns exclude each other, so that it does not matter in which order
they are tried (`Instruction.decode_eq_decodeBy`). Every instruction has an opcode (`encode`), and
decoding loses nothing of an opcode but the digit that the shifts ignore
(`Instruction.encode_decode`).
-/

namespace Chip8

namespace Opcode

/-- The opcode with the leading digit and the address given. -/
def ofAddress (a : Nibble) (target : Address) : Opcode :=
  ⟨UInt16.ofNat (a.val * 0x1000 + target.val)⟩

/-- The opcode with the first two digits and the byte given. -/
def ofByte (a x : Nibble) (kk : UInt8) : Opcode :=
  ⟨UInt16.ofNat (a.val * 0x1000 + x.val * 0x100 + kk.toNat)⟩

theorem ofAddress_ofDigits (a b c d : Nibble) :
    ofAddress a (.ofDigits b c d) = ofDigits a b c d := by
  refine congrArg (fun n => mk (UInt16.ofNat n)) ?_
  change a.val * 0x1000 + (b.val * 0x100 + c.val * 0x10 + d.val) = _
  omega

theorem ofByte_byteOfDigits (a x k l : Nibble) :
    ofByte a x (byteOfDigits k l) = ofDigits a x k l := by
  refine congrArg (fun n => mk (UInt16.ofNat n)) ?_
  rw [toNat_byteOfDigits, Nat.add_assoc _ (k.val * 0x10)]

end Opcode

namespace Instruction

/-- The digits of an opcode and what they are read as. -/
structure Fields where
  kind : Nibble
  x : Nibble
  y : Nibble
  n : Nibble
  kk : UInt8
  address : Address

/-- The fields of the opcode that two bytes make up. -/
def Fields.ofBytes (high low : UInt8) : Fields where
  kind := ⟨high.toNat / 16, by have := high.toNat_lt; omega⟩
  x := ⟨high.toNat % 16, by omega⟩
  y := ⟨low.toNat / 16, by have := low.toNat_lt; omega⟩
  n := ⟨low.toNat % 16, by omega⟩
  kk := low
  address := ⟨high.toNat % 16 * 256 + low.toNat, by have := low.toNat_lt; omega⟩

/-- What a pattern says of one digit: nothing, or its value. -/
abbrev Slot := Option Nibble

namespace Slot

def accepts : Slot → Nibble → Bool
  | none, _ => true
  | some d, e => d == e

/-- Both slots have values, and different ones. -/
def clashes : Slot → Slot → Bool
  | some d, some e => d != e
  | _, _ => false

theorem not_accepts_of_clashes {s t : Slot} (h : s.clashes t = true) {d : Nibble}
    (hs : s.accepts d = true) : t.accepts d = false := by
  cases s with
  | none => cases t <;> cases h
  | some a =>
    cases t with
    | none => cases h
    | some b =>
      obtain rfl : a = d := beq_iff_eq.mp hs
      exact beq_false_of_ne (Ne.symm (bne_iff_ne.mp h))

end Slot

/-- A line of the opcode table. -/
structure Pattern where
  kind : Slot
  x : Slot
  y : Slot
  n : Slot
  instruction : Fields → Instruction

namespace Pattern

/-- The digits are as the pattern has them. -/
def accepts (p : Pattern) (f : Fields) : Bool :=
  p.kind.accepts f.kind && p.x.accepts f.x && p.y.accepts f.y && p.n.accepts f.n

/-- The two patterns differ in a digit that both of them fix. -/
def clashes (p q : Pattern) : Bool :=
  p.kind.clashes q.kind || p.x.clashes q.x || p.y.clashes q.y || p.n.clashes q.n

theorem not_accepts_of_clashes {p q : Pattern} (h : p.clashes q = true) {f : Fields}
    (hp : p.accepts f = true) : q.accepts f = false := by
  simp only [accepts, clashes, Bool.and_eq_true, Bool.or_eq_true] at *
  obtain ⟨⟨⟨hk, hx⟩, hy⟩, hn⟩ := hp
  rcases h with ((h | h) | h) | h
  · simp [Slot.not_accepts_of_clashes h hk]
  · simp [Slot.not_accepts_of_clashes h hx]
  · simp [Slot.not_accepts_of_clashes h hy]
  · simp [Slot.not_accepts_of_clashes h hn]

end Pattern

/-- The opcode table. -/
def patterns : List Pattern := [
  ⟨some 0x0, some 0x0, some 0xE, some 0x0, fun _ => .clear⟩,
  ⟨some 0x0, some 0x0, some 0xE, some 0xE, fun _ => .ret⟩,
  ⟨some 0x1, none, none, none, fun f => .jump f.address⟩,
  ⟨some 0x2, none, none, none, fun f => .call f.address⟩,
  ⟨some 0x3, none, none, none, fun f => .skipIf (.isByte f.x f.kk)⟩,
  ⟨some 0x4, none, none, none, fun f => .skipIf (.isNotByte f.x f.kk)⟩,
  ⟨some 0x5, none, none, some 0x0, fun f => .skipIf (.same f.x f.y)⟩,
  ⟨some 0x6, none, none, none, fun f => .setByte f.x f.kk⟩,
  ⟨some 0x7, none, none, none, fun f => .addByte f.x f.kk⟩,
  ⟨some 0x8, none, none, some 0x0, fun f => .combine .copy f.x f.y⟩,
  ⟨some 0x8, none, none, some 0x1, fun f => .combine .or f.x f.y⟩,
  ⟨some 0x8, none, none, some 0x2, fun f => .combine .and f.x f.y⟩,
  ⟨some 0x8, none, none, some 0x3, fun f => .combine .xor f.x f.y⟩,
  ⟨some 0x8, none, none, some 0x4, fun f => .combine .add f.x f.y⟩,
  ⟨some 0x8, none, none, some 0x5, fun f => .combine .sub f.x f.y⟩,
  ⟨some 0x8, none, none, some 0x6, fun f => .shiftRight f.x⟩,
  ⟨some 0x8, none, none, some 0x7, fun f => .combine .subFrom f.x f.y⟩,
  ⟨some 0x8, none, none, some 0xE, fun f => .shiftLeft f.x⟩,
  ⟨some 0x9, none, none, some 0x0, fun f => .skipIf (.differ f.x f.y)⟩,
  ⟨some 0xA, none, none, none, fun f => .setIndex f.address⟩,
  ⟨some 0xB, none, none, none, fun f => .jumpFrom f.address⟩,
  ⟨some 0xC, none, none, none, fun f => .random f.x f.kk⟩,
  ⟨some 0xD, none, none, none, fun f => .draw f.x f.y f.n⟩,
  ⟨some 0xE, none, some 0x9, some 0xE, fun f => .skipIf (.keyHeld f.x)⟩,
  ⟨some 0xE, none, some 0xA, some 0x1, fun f => .skipIf (.keyFree f.x)⟩,
  ⟨some 0xF, none, some 0x0, some 0x7, fun f => .getDelay f.x⟩,
  ⟨some 0xF, none, some 0x0, some 0xA, fun f => .awaitKey f.x⟩,
  ⟨some 0xF, none, some 0x1, some 0x5, fun f => .setDelay f.x⟩,
  ⟨some 0xF, none, some 0x1, some 0x8, fun f => .setSound f.x⟩,
  ⟨some 0xF, none, some 0x1, some 0xE, fun f => .addIndex f.x⟩,
  ⟨some 0xF, none, some 0x2, some 0x9, fun f => .glyph f.x⟩,
  ⟨some 0xF, none, some 0x3, some 0x3, fun f => .digits f.x⟩,
  ⟨some 0xF, none, some 0x5, some 0x5, fun f => .save f.x⟩,
  ⟨some 0xF, none, some 0x6, some 0x5, fun f => .restore f.x⟩]

theorem pairwise_clashes : patterns.Pairwise fun p q => p.clashes q = true := by decide +kernel

/-- The fields of an opcode with the digits given. -/
def Fields.ofDigits (a b c d : Nibble) : Fields :=
  ⟨a, b, c, d, byteOfDigits c d, .ofDigits b c d⟩

theorem Fields.ofBytes_eq (high low : UInt8) :
    Fields.ofBytes high low = .ofDigits (Opcode.ofBytes high low).kind
      (Opcode.ofBytes high low).x (Opcode.ofBytes high low).y (Opcode.ofBytes high low).n := by
  have hword := Opcode.toNat_ofBytes high low
  have hhigh := high.toNat_lt
  have hlow := low.toNat_lt
  generalize Opcode.ofBytes high low = op at hword
  rw [Fields.ofDigits, ← op.kk_eq, ← op.address_eq, Fields.ofBytes, Fields.mk.injEq]
  refine ⟨Fin.ext ?_, Fin.ext ?_, Fin.ext ?_, Fin.ext ?_, UInt8.toNat_inj.mp ?_, Fin.ext ?_⟩
  · change high.toNat / 16 = op.word.toNat / 0x1000 % 16
    omega
  · change high.toNat % 16 = op.word.toNat / 0x100 % 16
    omega
  · change low.toNat / 16 = op.word.toNat / 0x10 % 16
    omega
  · change low.toNat % 16 = op.word.toNat % 16
    omega
  · change low.toNat = op.word.toNat % 256
    omega
  · change high.toNat % 16 * 256 + low.toNat = op.word.toNat % 0x1000
    omega

/-- Whatever has the digits of a pattern is in the table as the instruction of the pattern. -/
theorem table_of_accepts {p : Pattern} (hp : p ∈ patterns) {a b c d : Nibble}
    (h : p.accepts (.ofDigits a b c d) = true) :
    Table a b c d (p.instruction (.ofDigits a b c d)) := by
  revert p
  simp only [patterns, List.forall_mem_cons, Pattern.accepts, Slot.accepts, Fields.ofDigits,
    Bool.and_eq_true, beq_iff_eq, and_imp, true_implies, List.not_mem_nil, false_implies,
    implies_true, and_true]
  repeat' apply And.intro
  all_goals
  · intros
    subst_vars
    constructor

/-- Whatever is in the table has the digits of a pattern. -/
theorem exists_accepts_of_table {a b c d : Nibble} {i : Instruction} (h : Table a b c d i) :
    ∃ p ∈ patterns, p.accepts (.ofDigits a b c d) = true := by
  refine List.any_eq_true.mp ?_
  cases h <;> rfl

section Bytes

variable {high low : UInt8}

theorem decode_of_accepts {p : Pattern} (hp : p ∈ patterns)
    (h : p.accepts (.ofBytes high low) = true) :
    decode (.ofBytes high low) = p.instruction (.ofBytes high low) := by
  rw [Fields.ofBytes_eq] at h ⊢
  exact (table_iff.mp (table_of_accepts hp h)).1

theorem decode_of_not_accepts (h : ∀ p ∈ patterns, p.accepts (.ofBytes high low) = false) :
    decode (.ofBytes high low) = .unknown (.ofBytes high low) := by
  refine (table_or_unknown _).resolve_left fun ht => ?_
  obtain ⟨p, hp, ha⟩ := exists_accepts_of_table ht
  rw [← Fields.ofBytes_eq, h p hp] at ha
  cases ha

theorem decode_eq_unknown_iff {op : Opcode} :
    decode (.ofBytes high low) = .unknown op ↔
      op = .ofBytes high low ∧ ∀ p ∈ patterns, p.accepts (.ofBytes high low) = false := by
  constructor
  · intro h
    have hnone : ∀ p ∈ patterns, p.accepts (.ofBytes high low) = false := by
      refine fun p hp => Bool.eq_false_iff.mpr fun ha => ?_
      rw [Fields.ofBytes_eq] at ha
      have htable := table_of_accepts hp ha
      exact htable.ne_unknown op ((table_iff.mp htable).1.symm.trans h)
    rw [decode_of_not_accepts hnone] at h
    exact ⟨(Instruction.unknown.inj h).symm, hnone⟩
  · rintro ⟨rfl, h⟩
    exact decode_of_not_accepts h

/-- Tries patterns one after another. -/
def decodeBy (arms : List Pattern) (high low : UInt8) : Instruction :=
  match arms.find? (·.accepts (.ofBytes high low)) with
  | some p => p.instruction (.ofBytes high low)
  | none => .unknown (.ofBytes high low)

/-- It does not matter in which order the patterns are tried. -/
theorem decode_eq_decodeBy {arms : List Pattern} (h : arms.Perm patterns) (high low : UInt8) :
    decode (.ofBytes high low) = decodeBy arms high low := by
  unfold decodeBy
  cases hf : arms.find? (·.accepts (.ofBytes high low)) with
  | some p =>
    have haccepts := List.find?_some hf
    exact decode_of_accepts (h.mem_iff.mp (List.mem_of_find?_eq_some hf)) haccepts
  | none =>
    refine decode_of_not_accepts fun p hp => ?_
    simpa using List.find?_eq_none.mp hf p (h.mem_iff.mpr hp)

end Bytes

/-- The opcode of an instruction. A shift has several, and gets the one in which the digit that it
ignores is 0. -/
def encode : Instruction → Opcode
  | .clear => .ofDigits 0 0 0xE 0
  | .ret => .ofDigits 0 0 0xE 0xE
  | .jump target => .ofAddress 1 target
  | .call target => .ofAddress 2 target
  | .skipIf (.isByte x kk) => .ofByte 3 x kk
  | .skipIf (.isNotByte x kk) => .ofByte 4 x kk
  | .skipIf (.same x y) => .ofDigits 5 x y 0
  | .setByte x kk => .ofByte 6 x kk
  | .addByte x kk => .ofByte 7 x kk
  | .combine .copy x y => .ofDigits 8 x y 0
  | .combine .or x y => .ofDigits 8 x y 1
  | .combine .and x y => .ofDigits 8 x y 2
  | .combine .xor x y => .ofDigits 8 x y 3
  | .combine .add x y => .ofDigits 8 x y 4
  | .combine .sub x y => .ofDigits 8 x y 5
  | .shiftRight x => .ofDigits 8 x 0 6
  | .combine .subFrom x y => .ofDigits 8 x y 7
  | .shiftLeft x => .ofDigits 8 x 0 0xE
  | .skipIf (.differ x y) => .ofDigits 9 x y 0
  | .setIndex target => .ofAddress 0xA target
  | .jumpFrom base => .ofAddress 0xB base
  | .random x kk => .ofByte 0xC x kk
  | .draw x y height => .ofDigits 0xD x y height
  | .skipIf (.keyHeld x) => .ofDigits 0xE x 9 0xE
  | .skipIf (.keyFree x) => .ofDigits 0xE x 0xA 1
  | .getDelay x => .ofDigits 0xF x 0 7
  | .awaitKey x => .ofDigits 0xF x 0 0xA
  | .setDelay x => .ofDigits 0xF x 1 5
  | .setSound x => .ofDigits 0xF x 1 8
  | .addIndex x => .ofDigits 0xF x 1 0xE
  | .glyph x => .ofDigits 0xF x 2 9
  | .digits x => .ofDigits 0xF x 3 3
  | .save x => .ofDigits 0xF x 5 5
  | .restore x => .ofDigits 0xF x 6 5
  | .unknown op => op

/-- The digits of a shift. -/
def isShift (a d : Nibble) : Bool := a == 8 && (d == 6 || d == 0xE)

theorem encode_of_table {a b c d : Nibble} {i : Instruction} (h : Table a b c d i) :
    encode i = .ofDigits a b (if isShift a d then 0 else c) d := by
  cases h <;> simp only [encode, Opcode.ofAddress_ofDigits, Opcode.ofByte_byteOfDigits] <;> rfl

/-- Shifts are in the table whatever their third digit is. -/
theorem exists_table_of_isShift {a d : Nibble} (h : isShift a d = true) (b : Nibble) :
    ∃ i, ∀ c, Table a b c d i := by
  simp only [isShift, Bool.and_eq_true, Bool.or_eq_true, beq_iff_eq] at h
  obtain ⟨rfl, rfl | rfl⟩ := h
  · exact ⟨_, .shiftRight b⟩
  · exact ⟨_, .shiftLeft b⟩

end Instruction

namespace Opcode

open Instruction (isShift)

/-- The opcode without the digit that a shift ignores. -/
def plain (op : Opcode) : Opcode :=
  if isShift op.kind op.n then .ofDigits op.kind op.x 0 op.n else op

variable {op : Opcode}

theorem plain_of_isShift (h : isShift op.kind op.n = true) :
    op.plain = .ofDigits op.kind op.x 0 op.n :=
  if_pos h

theorem plain_of_not_isShift (h : isShift op.kind op.n = false) : op.plain = op :=
  if_neg (Bool.eq_false_iff.mp h)

/-- The other digits stay as they are. -/
theorem digits_plain (op : Opcode) :
    op.plain.kind = op.kind ∧ op.plain.x = op.x ∧ op.plain.n = op.n := by
  cases h : isShift op.kind op.n with
  | true => simp [plain_of_isShift h]
  | false => simp [plain_of_not_isShift h]

theorem plain_eq_iff (a b : Opcode) :
    a.plain = b.plain ↔
      a = b ∨ isShift a.kind a.n = true ∧ a.kind = b.kind ∧ a.x = b.x ∧ a.n = b.n := by
  obtain ⟨hka, hxa, hna⟩ := a.digits_plain
  obtain ⟨hkb, hxb, hnb⟩ := b.digits_plain
  constructor
  · intro h
    have hk : a.kind = b.kind := by rw [← hka, h, hkb]
    have hx : a.x = b.x := by rw [← hxa, h, hxb]
    have hn : a.n = b.n := by rw [← hna, h, hnb]
    cases hs : isShift a.kind a.n with
    | true => exact Or.inr ⟨rfl, hk, hx, hn⟩
    | false =>
      rw [plain_of_not_isShift hs, plain_of_not_isShift (by rwa [← hk, ← hn])] at h
      exact Or.inl h
  · rintro (rfl | ⟨hs, hk, hx, hn⟩)
    · rfl
    · rw [plain_of_isShift hs, plain_of_isShift (by rwa [← hk, ← hn]), hk, hx, hn]

end Opcode

namespace Instruction

/-- Decoding loses the digit that a shift ignores, and nothing else. -/
theorem encode_decode (op : Opcode) : encode (decode op) = op.plain := by
  cases hs : isShift op.kind op.n with
  | true =>
    obtain ⟨i, hi⟩ := exists_table_of_isShift hs op.x
    rw [(table_iff.mp (hi op.y)).1, encode_of_table (hi op.y), hs, Opcode.plain_of_isShift hs]
    rfl
  | false =>
    rw [Opcode.plain_of_not_isShift hs]
    rcases table_or_unknown op with h | h
    · rw [encode_of_table h, hs]
      exact op.ofDigits_digits
    · rw [h, encode]

theorem decode_plain (op : Opcode) : decode op.plain = decode op := by
  cases hs : isShift op.kind op.n with
  | true =>
    obtain ⟨i, hi⟩ := exists_table_of_isShift hs op.x
    rw [Opcode.plain_of_isShift hs, decode_of_table (hi 0), (table_iff.mp (hi op.y)).1]
  | false => rw [Opcode.plain_of_not_isShift hs]

theorem decode_eq_decode_iff (a b : Opcode) : decode a = decode b ↔ a.plain = b.plain := by
  constructor
  · intro h
    rw [← encode_decode, h, encode_decode]
  · intro h
    rw [← decode_plain, h, decode_plain]

/-- The decoder agrees with the opcode table and loses nothing but a digit of the shifts. No opcode
has the digits of two patterns of the table, so that it does not matter in which order they are
tried. Two bytes that have the digits of a pattern are decoded to its instruction, with the fields
that they have, and just those that have the digits of none are an unknown opcode, which is kept.
Two opcodes are decoded alike just if they are equal or shift the same register in the same
direction. -/
theorem decode_reads_table :
    patterns.Pairwise (fun p q => ∀ f, ¬ (p.accepts f = true ∧ q.accepts f = true)) ∧
    (∀ (high low : UInt8), ∀ p ∈ patterns, p.accepts (.ofBytes high low) = true →
      decode (.ofBytes high low) = p.instruction (.ofBytes high low)) ∧
    (∀ (high low : UInt8) (op : Opcode), decode (.ofBytes high low) = .unknown op ↔
      op = .ofBytes high low ∧ ∀ p ∈ patterns, p.accepts (.ofBytes high low) = false) ∧
    (∀ arms : List Pattern, arms.Perm patterns →
      ∀ high low, decode (.ofBytes high low) = decodeBy arms high low) ∧
    ∀ a b : Opcode, decode a = decode b ↔
      a = b ∨
        a.kind = 8 ∧ b.kind = 8 ∧ a.x = b.x ∧ (a.n = 6 ∧ b.n = 6 ∨ a.n = 0xE ∧ b.n = 0xE) := by
  refine ⟨pairwise_clashes.imp fun h f hf => ?_, fun high low p hp h => decode_of_accepts hp h,
    fun high low op => decode_eq_unknown_iff, fun arms h high low => decode_eq_decodeBy h high low,
    fun a b => ?_⟩
  · have hno := Pattern.not_accepts_of_clashes h hf.1
    rw [hno] at hf
    cases hf.2
  · rw [decode_eq_decode_iff, Opcode.plain_eq_iff]
    refine or_congr_right ?_
    simp only [isShift, Bool.and_eq_true, Bool.or_eq_true, beq_iff_eq]
    grind

end Instruction

end Chip8

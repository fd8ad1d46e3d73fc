import Chip8.Instruction.Decoding

/-!
The opcode table. An opcode is its four hexadecimal digits (`ofDigits_digits`), and the decoder
agrees with the opcode table (`table_iff`), so that what is known of an instruction can be read off
the digits under the program counter.
-/

namespace Chip8

/-- The address with the digits given. -/
def Address.ofDigits (a b c : Nibble) : Address :=
  ⟨a.val * 0x100 + b.val * 0x10 + c.val, by omega⟩

def Opcode.ofDigits (a b c d : Nibble) : Opcode :=
  ⟨UInt16.ofNat (a.val * 0x1000 + b.val * 0x100 + c.val * 0x10 + d.val)⟩

/-- The byte with the digits given. -/
def byteOfDigits (a b : Nibble) : UInt8 := UInt8.ofNat (a.val * 0x10 + b.val)

theorem toNat_byteOfDigits (a b : Nibble) : (byteOfDigits a b).toNat = a.val * 0x10 + b.val :=
  UInt8.toNat_ofNat_of_lt' (by show _ < 256; omega)

namespace Opcode

variable (a b c d : Nibble)

theorem toNat_ofDigits : (ofDigits a b c d).word.toNat =
    a.val * 0x1000 + b.val * 0x100 + c.val * 0x10 + d.val :=
  UInt16.toNat_ofNat_of_lt' (by show _ < 65536; omega)

@[simp] theorem kind_ofDigits : (ofDigits a b c d).kind = a := by
  apply Fin.ext
  change (ofDigits a b c d).word.toNat / 0x1000 % 16 = a.val
  rw [toNat_ofDigits]
  omega

@[simp] theorem x_ofDigits : (ofDigits a b c d).x = b := by
  apply Fin.ext
  change (ofDigits a b c d).word.toNat / 0x100 % 16 = b.val
  rw [toNat_ofDigits]
  omega

@[simp] theorem y_ofDigits : (ofDigits a b c d).y = c := by
  apply Fin.ext
  change (ofDigits a b c d).word.toNat / 0x10 % 16 = c.val
  rw [toNat_ofDigits]
  omega

@[simp] theorem n_ofDigits : (ofDigits a b c d).n = d := by
  apply Fin.ext
  change (ofDigits a b c d).word.toNat % 16 = d.val
  rw [toNat_ofDigits]
  omega

/-- An opcode is made of its digits. -/
theorem ofDigits_digits (op : Opcode) : ofDigits op.kind op.x op.y op.n = op := by
  have hlt := op.word.toNat_lt
  have hw : (ofDigits op.kind op.x op.y op.n).word = op.word := by
    apply UInt16.toNat_inj.mp
    rw [toNat_ofDigits]
    change op.word.toNat / 0x1000 % 16 * 0x1000 + op.word.toNat / 0x100 % 16 * 0x100 +
      op.word.toNat / 0x10 % 16 * 0x10 + op.word.toNat % 16 = op.word.toNat
    omega
  cases op
  exact congrArg mk hw

theorem kk_eq (op : Opcode) : op.kk = byteOfDigits op.y op.n := by
  apply UInt8.toNat_inj.mp
  rw [toNat_byteOfDigits]
  change op.word.toNat % 256 = op.word.toNat / 0x10 % 16 * 0x10 + op.word.toNat % 16
  omega

theorem address_eq (op : Opcode) : op.address = .ofDigits op.x op.y op.n := by
  apply Fin.ext
  change op.word.toNat % 0x1000 = op.word.toNat / 0x100 % 16 * 0x100 +
    op.word.toNat / 0x10 % 16 * 0x10 + op.word.toNat % 16
  omega

@[simp] theorem kk_ofDigits : (ofDigits a b c d).kk = byteOfDigits c d := by
  rw [kk_eq, y_ofDigits, n_ofDigits]

@[simp] theorem address_ofDigits : (ofDigits a b c d).address = .ofDigits b c d := by
  rw [address_eq, x_ofDigits, y_ofDigits, n_ofDigits]

theorem ofBytes_byteOfDigits :
    ofBytes (byteOfDigits a b) (byteOfDigits c d) = ofDigits a b c d := by
  refine congrArg mk (UInt16.toNat_inj.mp ?_)
  refine (toNat_ofBytes _ _).trans (Eq.trans ?_ (toNat_ofDigits a b c d).symm)
  rw [toNat_byteOfDigits, toNat_byteOfDigits]
  omega

end Opcode

namespace Instruction

/-- The instruction that an opcode with the digits given stands for; the opcodes that match no
line stand for none. -/
inductive Table : Nibble → Nibble → Nibble → Nibble → Instruction → Prop where
  | clear : Table 0 0 0xE 0 .clear
  | ret : Table 0 0 0xE 0xE .ret
  | jump (a b c) : Table 1 a b c (.jump (.ofDigits a b c))
  | call (a b c) : Table 2 a b c (.call (.ofDigits a b c))
  | isByte (x k l) : Table 3 x k l (.skipIf (.isByte x (byteOfDigits k l)))
  | isNotByte (x k l) : Table 4 x k l (.skipIf (.isNotByte x (byteOfDigits k l)))
  | same (x y) : Table 5 x y 0 (.skipIf (.same x y))
  | setByte (x k l) : Table 6 x k l (.setByte x (byteOfDigits k l))
  | addByte (x k l) : Table 7 x k l (.addByte x (byteOfDigits k l))
  | copy (x y) : Table 8 x y 0 (.combine .copy x y)
  | or (x y) : Table 8 x y 1 (.combine .or x y)
  | and (x y) : Table 8 x y 2 (.combine .and x y)
  | xor (x y) : Table 8 x y 3 (.combine .xor x y)
  | add (x y) : Table 8 x y 4 (.combine .add x y)
  | sub (x y) : Table 8 x y 5 (.combine .sub x y)
  | shiftRight (x y) : Table 8 x y 6 (.shiftRight x)
  | subFrom (x y) : Table 8 x y 7 (.combine .subFrom x y)
  | shiftLeft (x y) : Table 8 x y 0xE (.shiftLeft x)
  | differ (x y) : Table 9 x y 0 (.skipIf (.differ x y))
  | setIndex (a b c) : Table 0xA a b c (.setIndex (.ofDigits a b c))
  | jumpFrom (a b c) : Table 0xB a b c (.jumpFrom (.ofDigits a b c))
  | random (x k l) : Table 0xC x k l (.random x (byteOfDigits k l))
  | draw (x y n) : Table 0xD x y n (.draw x y n)
  | keyHeld (x) : Table 0xE x 9 0xE (.skipIf (.keyHeld x))
  | keyFree (x) : Table 0xE x 0xA 1 (.skipIf (.keyFree x))
  | getDelay (x) : Table 0xF x 0 7 (.getDelay x)
  | awaitKey (x) : Table 0xF x 0 0xA (.awaitKey x)
  | setDelay (x) : Table 0xF x 1 5 (.setDelay x)
  | setSound (x) : Table 0xF x 1 8 (.setSound x)
  | addIndex (x) : Table 0xF x 1 0xE (.addIndex x)
  | glyph (x) : Table 0xF x 2 9 (.glyph x)
  | digits (x) : Table 0xF x 3 3 (.digits x)
  | save (x) : Table 0xF x 5 5 (.save x)
  | restore (x) : Table 0xF x 6 5 (.restore x)

theorem decode_of_table {a b c d : Nibble} {i : Instruction} (h : Table a b c d i) :
    decode (.ofDigits a b c d) = i := by
  cases h <;>
  · simp only [decode, decodeArithmetic, decodeDevice, Opcode.kind_ofDigits, Opcode.x_ofDigits,
      Opcode.y_ofDigits, Opcode.n_ofDigits, Opcode.kk_ofDigits, Opcode.address_ofDigits]
    rfl

theorem table_or_unknown_arithmetic {op : Opcode} (h : op.kind = 8) :
    Table op.kind op.x op.y op.n (decodeArithmetic op) ∨ decodeArithmetic op = .unknown op := by
  rw [h]
  unfold decodeArithmetic
  split <;> rename_i hn
  · rw [show op.n = 0 from Fin.ext hn]
    exact Or.inl (.copy _ _)
  · rw [show op.n = 1 from Fin.ext hn]
    exact Or.inl (.or _ _)
  · rw [show op.n = 2 from Fin.ext hn]
    exact Or.inl (.and _ _)
  · rw [show op.n = 3 from Fin.ext hn]
    exact Or.inl (.xor _ _)
  · rw [show op.n = 4 from Fin.ext hn]
    exact Or.inl (.add _ _)
  · rw [show op.n = 5 from Fin.ext hn]
    exact Or.inl (.sub _ _)
  · rw [show op.n = 6 from Fin.ext hn]
    exact Or.inl (.shiftRight _ _)
  · rw [show op.n = 7 from Fin.ext hn]
    exact Or.inl (.subFrom _ _)
  · rw [show op.n = 0xE from Fin.ext hn]
    exact Or.inl (.shiftLeft _ _)
  · exact Or.inr rfl

/-- A byte that is known fixes both of its digits. -/
theorem digits_of_kk {op : Opcode} {a b : Nibble} (h : op.kk.toNat = a.val * 0x10 + b.val) :
    op.y = a ∧ op.n = b := by
  rw [op.kk_eq, toNat_byteOfDigits] at h
  exact ⟨Fin.ext (by omega), Fin.ext (by omega)⟩

theorem table_or_unknown_device {op : Opcode} (h : op.kind = 0xF) :
    Table op.kind op.x op.y op.n (decodeDevice op) ∨ decodeDevice op = .unknown op := by
  rw [h]
  unfold decodeDevice
  split <;> rename_i hk
  · obtain ⟨hy, hn⟩ := digits_of_kk (a := 0) (b := 7) hk
    rw [hy, hn]
    exact Or.inl (.getDelay _)
  · obtain ⟨hy, hn⟩ := digits_of_kk (a := 0) (b := 0xA) hk
    rw [hy, hn]
    exact Or.inl (.awaitKey _)
  · obtain ⟨hy, hn⟩ := digits_of_kk (a := 1) (b := 5) hk
    rw [hy, hn]
    exact Or.inl (.setDelay _)
  · obtain ⟨hy, hn⟩ := digits_of_kk (a := 1) (b := 8) hk
    rw [hy, hn]
    exact Or.inl (.setSound _)
  · obtain ⟨hy, hn⟩ := digits_of_kk (a := 1) (b := 0xE) hk
    rw [hy, hn]
    exact Or.inl (.addIndex _)
  · obtain ⟨hy, hn⟩ := digits_of_kk (a := 2) (b := 9) hk
    rw [hy, hn]
    exact Or.inl (.glyph _)
  · obtain ⟨hy, hn⟩ := digits_of_kk (a := 3) (b := 3) hk
    rw [hy, hn]
    exact Or.inl (.digits _)
  · obtain ⟨hy, hn⟩ := digits_of_kk (a := 5) (b := 5) hk
    rw [hy, hn]
    exact Or.inl (.save _)
  · obtain ⟨hy, hn⟩ := digits_of_kk (a := 6) (b := 5) hk
    rw [hy, hn]
    exact Or.inl (.restore _)
  · exact Or.inr rfl

/-- An address that is known fixes its three digits. -/
theorem digits_of_address {op : Opcode} {a b c : Nibble} (h : op.address = .ofDigits a b c) :
    op.x = a ∧ op.y = b ∧ op.n = c := by
  rw [op.address_eq] at h
  have hv : op.x.val * 0x100 + op.y.val * 0x10 + op.n.val =
      a.val * 0x100 + b.val * 0x10 + c.val := congrArg Fin.val h
  exact ⟨Fin.ext (by omega), Fin.ext (by omega), Fin.ext (by omega)⟩

/-- What the decoder says is in the table, or it says that there is no instruction. -/
theorem table_or_unknown (op : Opcode) :
    Table op.kind op.x op.y op.n (decode op) ∨ decode op = .unknown op := by
  unfold decode
  split <;> rename_i hk
  · rw [show op.kind = 0 from Fin.ext hk]
    split
    · rename_i ha
      obtain ⟨hx, hy, hn⟩ := digits_of_address (a := 0) (b := 0xE) (c := 0) ha
      rw [hx, hy, hn]
      exact Or.inl .clear
    · split
      · rename_i ha
        obtain ⟨hx, hy, hn⟩ := digits_of_address (a := 0) (b := 0xE) (c := 0xE) ha
        rw [hx, hy, hn]
        exact Or.inl .ret
      · exact Or.inr rfl
  · rw [show op.kind = 1 from Fin.ext hk, op.address_eq]
    exact Or.inl (.jump _ _ _)
  · rw [show op.kind = 2 from Fin.ext hk, op.address_eq]
    exact Or.inl (.call _ _ _)
  · rw [show op.kind = 3 from Fin.ext hk, op.kk_eq]
    exact Or.inl (.isByte _ _ _)
  · rw [show op.kind = 4 from Fin.ext hk, op.kk_eq]
    exact Or.inl (.isNotByte _ _ _)
  · rw [show op.kind = 5 from Fin.ext hk]
    split
    · rename_i hn
      rw [hn]
      exact Or.inl (.same _ _)
    · exact Or.inr rfl
  · rw [show op.kind = 6 from Fin.ext hk, op.kk_eq]
    exact Or.inl (.setByte _ _ _)
  · rw [show op.kind = 7 from Fin.ext hk, op.kk_eq]
    exact Or.inl (.addByte _ _ _)
  · exact table_or_unknown_arithmetic (Fin.ext hk)
  · rw [show op.kind = 9 from Fin.ext hk]
    split
    · rename_i hn
      rw [hn]
      exact Or.inl (.differ _ _)
    · exact Or.inr rfl
  · rw [show op.kind = 0xA from Fin.ext hk, op.address_eq]
    exact Or.inl (.setIndex _ _ _)
  · rw [show op.kind = 0xB from Fin.ext hk, op.address_eq]
    exact Or.inl (.jumpFrom _ _ _)
  · rw [show op.kind = 0xC from Fin.ext hk, op.kk_eq]
    exact Or.inl (.random _ _ _)
  · rw [show op.kind = 0xD from Fin.ext hk]
    exact Or.inl (.draw _ _ _)
  · rw [show op.kind = 0xE from Fin.ext hk]
    split
    · rename_i hkk
      obtain ⟨hy, hn⟩ := digits_of_kk (a := 9) (b := 0xE) (congrArg UInt8.toNat hkk)
      rw [hy, hn]
      exact Or.inl (.keyHeld _)
    · split
      · rename_i hkk
        obtain ⟨hy, hn⟩ := digits_of_kk (a := 0xA) (b := 1) (congrArg UInt8.toNat hkk)
        rw [hy, hn]
        exact Or.inl (.keyFree _)
      · exact Or.inr rfl
  · have := op.kind.isLt
    exact table_or_unknown_device (Fin.ext (by grind))

theorem Table.ne_unknown {a b c d : Nibble} {i : Instruction} (h : Table a b c d i)
    (op : Opcode) : i ≠ .unknown op := by
  rintro rfl
  cases h

/-- The decoder and the table agree. -/
theorem table_iff {op : Opcode} {i : Instruction} :
    Table op.kind op.x op.y op.n i ↔ decode op = i ∧ i ≠ .unknown op := by
  constructor
  · intro h
    refine ⟨?_, h.ne_unknown op⟩
    rw [← decode_of_table h, op.ofDigits_digits]
  · rintro ⟨rfl, hne⟩
    exact (table_or_unknown op).resolve_right hne

theorem Table.kind_of_call {a b c d : Nibble} {t : Address} (h : Table a b c d (.call t)) :
    a = 2 := by
  cases h
  rfl

theorem Table.digits_of_ret {a b c d : Nibble} (h : Table a b c d .ret) :
    a = 0 ∧ b = 0 ∧ c = 0xE ∧ d = 0xE := by
  cases h
  exact ⟨rfl, rfl, rfl, rfl⟩

theorem decode_eq_call_iff (op : Opcode) : (∃ t, decode op = .call t) ↔ op.kind = 2 := by
  constructor
  · rintro ⟨t, h⟩
    exact (table_iff.mpr ⟨h, nofun⟩).kind_of_call
  · intro h
    refine ⟨.ofDigits op.x op.y op.n, (table_iff.mp ?_).1⟩
    rw [h]
    exact .call _ _ _

theorem Table.kind_of_random {a b c d x : Nibble} {kk : UInt8} (h : Table a b c d (.random x kk)) :
    a = 0xC := by
  cases h
  rfl

theorem decode_eq_random_iff (op : Opcode) :
    (∃ x kk, decode op = .random x kk) ↔ op.kind = 0xC := by
  constructor
  · rintro ⟨x, kk, h⟩
    exact (table_iff.mpr ⟨h, nofun⟩).kind_of_random
  · intro h
    refine ⟨op.x, byteOfDigits op.y op.n, (table_iff.mp ?_).1⟩
    rw [h]
    exact .random _ _ _

theorem decode_eq_ret_iff (op : Opcode) : decode op = .ret ↔ op.word = 0x00EE := by
  constructor
  · intro h
    obtain ⟨ha, hb, hc, hd⟩ := (table_iff.mpr ⟨h, nofun⟩).digits_of_ret
    rw [← op.ofDigits_digits, ha, hb, hc, hd]
    rfl
  · intro h
    have he : op = .ofDigits 0 0 0xE 0xE := congrArg Opcode.mk h
    rw [he]
    exact decode_of_table .ret

end Instruction

end Chip8

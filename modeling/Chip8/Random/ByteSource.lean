/-!
Sources of random bytes. A source is a state that hands out one byte at a time; what it will hand
out is a stream.
-/

namespace Chip8

class ByteSource (σ : Type) where
  next : σ → UInt8 × σ

namespace ByteSource

variable {σ : Type} [ByteSource σ]

/-- The source after it has handed out `n` bytes. -/
def drop : Nat → σ → σ
  | 0, s => s
  | n + 1, s => drop n (next s).2

/-- The byte number `n`, counted from zero, that the source will hand out. -/
def get (s : σ) (n : Nat) : UInt8 := (next (drop n s)).1

/-- The first `n` bytes that the source will hand out. -/
def take : Nat → σ → List UInt8
  | 0, _ => []
  | n + 1, s => (next s).1 :: take n (next s).2

end ByteSource

/-- A source that hands out given bytes and zeros after them. -/
structure Scripted where
  bytes : List UInt8

instance : ByteSource Scripted where
  next s :=
    match s.bytes with
    | [] => (0, s)
    | b :: rest => (b, ⟨rest⟩)

end Chip8

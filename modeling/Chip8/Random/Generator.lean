import Chip8.Random.ByteSource
import Chip8.Random.ChaCha

/-!
The seeded source. A seed is stretched to a key by a linear congruential sequence with a permuted
output, and bytes are taken from the key's stream of words. A byte is the high half of 255 times a
word, so 255 itself is never drawn; the one word that would make the others uneven is passed over.
-/

namespace Chip8

namespace Seed

def step (s : UInt64) : UInt64 := s * 6364136223846793005 + 11634580027462260723

/-- The word that a state gives out: its mixed high part, rotated by its five highest bits. -/
def output (s : UInt64) : UInt32 :=
  let w := (((s >>> 18) ^^^ s) >>> 27).toUInt32
  let k := (s >>> 59).toUInt32
  (w >>> k) ||| (w <<< (32 - k))

def key (seed : UInt64) : ChaCha.Key :=
  Vector.ofFn fun k => output (Nat.repeat step (k.val + 1) seed)

end Seed

structure Generator where
  key : ChaCha.Key
  /-- The number of the block that comes next. -/
  number : UInt64
  /-- Words of the current block that have not been used. -/
  pending : List UInt32

namespace Generator

def ofKey (key : ChaCha.Key) : Generator := ⟨key, 0, []⟩

def ofSeed (seed : UInt64) : Generator := ofKey (Seed.key seed)

def nextWord (g : Generator) : UInt32 × Generator :=
  match g.pending with
  | w :: rest => (w, { g with pending := rest })
  | [] =>
    let words := ChaCha.block g.key g.number
    (words[0], { g with number := g.number + 1, pending := words.toList.tail })

/-- The byte that a word gives, if it gives one. -/
def byteOf? (w : UInt32) : Option UInt8 :=
  let p := w.toNat * 0xFF
  if p % UInt32.size = UInt32.size - 1 then none else some (UInt8.ofNat (p / UInt32.size))

/-- The first byte that the next words give. A stream of which no word gives one has none. -/
def nextByte : Nat → Generator → UInt8 × Generator
  | 0, g => (0, g)
  | words + 1, g =>
    let (w, g) := g.nextWord
    match byteOf? w with
    | some b => (b, g)
    | none => nextByte words g

/-- The number of words after which the stream repeats: sixteen in each of its blocks. -/
def period : Nat := 16 * UInt64.size

instance : ByteSource Generator where
  next g := g.nextByte period

end Generator

end Chip8

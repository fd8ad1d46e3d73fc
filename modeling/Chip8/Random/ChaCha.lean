/-!
The ChaCha stream of 32-bit words with twelve rounds. A block of sixteen words is mixed from four
constants, a key of eight words and the number of the block; the stream is the blocks in order.
-/

namespace Chip8.ChaCha

abbrev Key := Vector UInt32 8

abbrev Block := Vector UInt32 16

def rotateLeft (w k : UInt32) : UInt32 := (w <<< k) ||| (w >>> (32 - k))

/-- Adds word `b` to word `a`, and mixes the sum into word `d`, which it rotates by `k`. -/
def addMix (s : Block) (a b d : Fin 16) (k : UInt32) : Block :=
  let s := s.set a (s[a] + s[b])
  s.set d (rotateLeft (s[d] ^^^ s[a]) k)

def quarterRound (s : Block) (a b c d : Fin 16) : Block :=
  let s := addMix s a b d 16
  let s := addMix s c d b 12
  let s := addMix s a b d 8
  addMix s c d b 7

/-- The place of a word in the four by four square of words. -/
def cell (row column : Fin 4) : Fin 16 := ⟨4 * row.val + column.val, by omega⟩

/-- Four quarter rounds, each on a column of the square in which every row is shifted by `slant`
against the row above it. -/
def round (slant : Fin 4) (s : Block) : Block :=
  (List.finRange 4).foldl (fun s k =>
    quarterRound s (cell 0 k) (cell 1 (k + slant)) (cell 2 (k + slant + slant))
      (cell 3 (k + slant + slant + slant))) s

/-- One round on the columns of the square and one on its diagonals. -/
def doubleRound (s : Block) : Block := round 1 (round 0 s)

/-- The words before mixing. The constants spell "expand 32-byte k". -/
def start (key : Key) (number : UInt64) : Block :=
  #v[0x61707865, 0x3320646E, 0x79622D32, 0x6B206574,
     key[0], key[1], key[2], key[3], key[4], key[5], key[6], key[7],
     number.toUInt32, (number >>> 32).toUInt32, 0, 0]

def block (key : Key) (number : UInt64) : Block :=
  let s := start key number
  Vector.zipWith (· + ·) s (Nat.repeat doubleRound 6 s)

end Chip8.ChaCha

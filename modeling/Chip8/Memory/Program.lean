import Chip8.Memory.Basic

/-!
Programs and how they get into memory. A program goes to address 512 and up and may fill memory to
its top. It is taken from a list of bytes or from a reader, which is asked for at most one byte
more than fits, so that even an endless one is answered. Memory changes only if loading succeeds.
-/

namespace Chip8

/-- Where programs are put in memory and where they start. -/
def programStart : Nat := 0x200

/-- The size of the largest program. -/
def programCapacity : Nat := Memory.size - programStart

inductive LoadError where
  /-- Reading failed, for the reason given. -/
  | unreadable (cause : String)
  /-- The program has at least `size` bytes, and no more than `room` fit. -/
  | tooLarge (size room : Nat)
  deriving DecidableEq, Repr

def LoadError.message : LoadError → String
  | .unreadable _ => "unable to read program image"
  | .tooLarge size room =>
    s!"program of {size} bytes or more does not fit in the {room} bytes available"

/-- What a reader answers when it is asked for more. A piece is never empty. -/
inductive Delivery where
  | piece (first : UInt8) (rest : List UInt8)
  | finished
  | failed (cause : String)
  deriving DecidableEq, Repr

/-- A reader is known by what it delivers the first time it is asked, the second time, and so on. -/
structure Reader where
  delivery : Nat → Delivery

namespace Reader

/-- Delivers the pieces given, passing over empty ones, and then `last` for ever. -/
def ofPieces (pieces : List (List UInt8)) (last : Delivery) : Reader where
  delivery k :=
    match (pieces.filter (!·.isEmpty))[k]? with
    | some (b :: rest) => .piece b rest
    | _ => last

/-- The bytes of the deliveries from number `k` on, no more than `limit` of them. Nothing is asked
for once the limit is reached, so a failure behind it is not seen. -/
def readFrom (r : Reader) (k : Nat) : Nat → Except String (List UInt8)
  | 0 => .ok []
  | limit + 1 =>
    match r.delivery k with
    | .finished => .ok []
    | .failed cause => .error cause
    | .piece b rest =>
      (readFrom r (k + 1) (limit - rest.length)).map fun more => b :: rest.take limit ++ more
termination_by limit => limit

def read (r : Reader) (limit : Nat) : Except String (List UInt8) := r.readFrom 0 limit

end Reader

namespace Memory

def load (m : Memory) (program : List UInt8) : Except LoadError Memory :=
  if program.length ≤ programCapacity then .ok (m.put programStart program)
  else .error (.tooLarge program.length programCapacity)

/-- The memory with the program of a reader, and the program's size. -/
def loadFrom (m : Memory) (r : Reader) : Except LoadError (Nat × Memory) :=
  match r.read (programCapacity + 1) with
  | .error cause => .error (.unreadable cause)
  | .ok program => (m.load program).map fun m => (program.length, m)

end Memory

end Chip8

/-!
What the command line decides about a session.
-/

namespace Chip8.Host

structure Options where
  /-- The path of the program. -/
  rom : String
  /-- Stop after this many cycles. -/
  cycles : Option UInt64
  /-- Cycles per second. -/
  clockHz : UInt64
  seed : Option UInt64
  /-- Characters of the keys that are held for the whole session. -/
  keys : String
  /-- Print the picture at the end. -/
  dump : Bool
  /-- Do not wait for the clock. -/
  fast : Bool
  deriving DecidableEq, Repr

def defaultClockHz : UInt64 := 500

def nanosPerSecond : UInt64 := 1000000000

/-- How many nanoseconds a cycle may take, if the clock goes at all. -/
def Options.period? (o : Options) : Option UInt64 :=
  if o.clockHz = 0 then none else some (nanosPerSecond / o.clockHz)

end Chip8.Host

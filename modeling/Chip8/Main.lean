import Chip8.Host.CommandLine
import Chip8.Host.Session
import Chip8.Random.Generator

/-!
The command: reads its line, opens the rom, keeps time and prints. What a session does is decided
by `Session`; here its log goes to standard error and its picture to standard output.
-/

open Chip8 Chip8.Host

namespace Chip8.Command

def usage : String :=
  "Usage: chip8 [OPTIONS] ROM\n\n" ++
  "  -c, --cycles N     stop after N cycles\n" ++
  "      --clock-hz N   cycles per second (500)\n" ++
  "  -s, --seed N       seed of the random number generator\n" ++
  "  -k, --keys KEYS    keys held down (1234/QWER/ASDF/ZXCV)\n" ++
  "      --dump         print the picture at the end\n" ++
  "      --fast         do not wait for the clock\n" ++
  "  -h, --help         print this text\n" ++
  "  -V, --version      print the version"

def version : String := "chip8 0.1.0"

def Declared.text : Declared → String
  | .slot .rom => "the rom"
  | .slot .cycles => "--cycles"
  | .slot .clockHz => "--clock-hz"
  | .slot .seed => "--seed"
  | .slot .keys => "--keys"
  | .switch .dump => "--dump"
  | .switch .fast => "--fast"
  | .page .help => "--help"
  | .page .version => "--version"

def lineErrorText : LineError → String
  | .asked .help => usage
  | .asked .version => version
  | .unknown word => s!"unexpected argument {word}"
  | .needlessValue text => s!"unexpected value {text}"
  | .repeated d => s!"{Declared.text d} is given twice"
  | .missingValue s => s!"a value is required for {Declared.text (.slot s)}"
  | .badValue s text => s!"invalid value {text} for {Declared.text (.slot s)}"
  | .missingRom => "the rom is missing"

/-- The text of a system error, as a failure's chain quotes it. -/
def reason : IO.Error → String
  | .noFileOrDirectory _ code details => s!"{details} (os error {code})"
  | .inappropriateType _ code details => s!"{details} (os error {code})"
  | .permissionDenied _ code details => s!"{details} (os error {code})"
  | e => toString e

/-- Reads on until `limit` bytes are there or the file ends. -/
def readPieces (handle : IO.FS.Handle) (pieces : List (List UInt8)) :
    Nat → IO (List (List UInt8) × Delivery)
  | 0 => return (pieces, .finished)
  | limit + 1 => do
    match ← (handle.read (USize.ofNat (limit + 1))).toBaseIO with
    | .error e => return (pieces, .failed (reason e))
    | .ok bytes =>
      if bytes.isEmpty then return (pieces, .finished)
      readPieces handle (pieces ++ [bytes.toList]) (limit + 1 - max 1 bytes.size)

/-- A reader for a file, which is read beforehand, but not further than any program goes. -/
def openRom (path : String) : IO (Except String Reader) := do
  match ← (IO.FS.Handle.mk path .read).toBaseIO with
  | .error e => return .error (reason e)
  | .ok handle =>
    let (pieces, last) ← readPieces handle [] (programCapacity + 1)
    return .ok (.ofPieces pieces last)

def log (entries : List Entry) : IO Unit := do
  for r in Threshold.filter (some .info) (entries.map Entry.record) do
    let level := match r.level with
      | .error => "ERROR"
      | .warn => "WARN "
      | .info => "INFO "
      | .debug => "DEBUG"
      | .trace => "TRACE"
    IO.eprintln s!"[{level}] {r.text}"

def fail (failure : Failure) : IO UInt32 := do
  match failure.chain with
  | [] => pure ()
  | first :: causes =>
    IO.eprintln s!"Error: {first}"
    for cause in causes do
      IO.eprintln s!"  caused by: {cause}"
  return 1

/-- Sleeps until `period` nanoseconds have gone by since `before`. -/
def keepTime (period before : Nat) : IO Unit := do
  let elapsed := (← IO.monoNanosNow) - before
  if elapsed < period then
    IO.sleep (UInt32.ofNat ((period - elapsed) / 1000000))

/-- Cycles until the session is over. -/
partial def go (options : Options) (s : Session Generator) : IO UInt32 := do
  if s.atLimit options then
    log [s.summary]
    IO.print (s.printed options)
    return 0
  let before ← IO.monoNanosNow
  let (next, entries) := s.step
  log entries
  match next with
  | .error failure => fail failure
  | .ok s =>
    if let (false, some period) := (options.fast, options.period?) then
      keepTime period.toNat before
    go options s

/-- A seed from the system, for a line that gives none. -/
def systemSeed : IO UInt64 := do
  let bytes ← IO.getRandomBytes 8
  return bytes.toList.foldl (fun n b => n * 256 + b.toUInt64) 0

def runLine (line : List String) : IO UInt32 := do
  match Options.ofLine line with
  | .error (.asked page) =>
    IO.println (lineErrorText (.asked page))
    return 0
  | .error e =>
    IO.eprintln s!"error: {lineErrorText e}"
    return 2
  | .ok options =>
    let seed ← match options.seed with
      | some seed => pure seed
      | none => systemSeed
    let (started, entries) :=
      Session.start options (← openRom options.rom) (Generator.ofSeed seed)
    log entries
    match started with
    | .error failure => fail failure
    | .ok s => go options s

end Chip8.Command

def main (args : List String) : IO UInt32 := Chip8.Command.runLine args

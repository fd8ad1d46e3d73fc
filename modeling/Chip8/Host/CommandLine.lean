import Chip8.Host.Options
import Chip8.Text.Decimal

/-!
Reading a command line. An option is written `--name value`, `--name=value` or, if it has a letter,
`-l value`, `-lvalue` or `-l=value`; the one word that belongs to no option is the rom. After `--`
every word is a rom.

A value that stands apart from its option, and a rom, are *pending* until the next declared option,
the next rom or the end of the line, and only then *settled*: taken, or refused as missing, repeated
or bad, in this order. A word that is wrong by itself (an unknown option, a value for a switch, a
second rom) is reported even if a pending one before it is wrong too.
-/

namespace Chip8.Host

/-- What can be given a value. -/
inductive Slot where
  | rom
  | cycles
  | clockHz
  | seed
  | keys
  deriving DecidableEq, Repr

/-- Options without a value. -/
inductive Switch where
  | dump
  | fast
  deriving DecidableEq, Repr

/-- Texts that are asked for in place of a session. -/
inductive Page where
  | help
  | version
  deriving DecidableEq, Repr

inductive Declared where
  | slot (s : Slot)
  | switch (s : Switch)
  | page (p : Page)
  deriving DecidableEq, Repr

def longNames : List (String × Declared) :=
  [("cycles", .slot .cycles), ("clock-hz", .slot .clockHz), ("seed", .slot .seed),
   ("keys", .slot .keys), ("dump", .switch .dump), ("fast", .switch .fast),
   ("help", .page .help), ("version", .page .version)]

def letters : List (Char × Declared) :=
  [('c', .slot .cycles), ('s', .slot .seed), ('k', .slot .keys),
   ('h', .page .help), ('V', .page .version)]

/-- Why a line opens no session. -/
inductive LineError where
  | asked (p : Page)
  /-- An option that is not declared, or a second rom. -/
  | unknown (word : String)
  | needlessValue (text : String)
  | repeated (d : Declared)
  | missingValue (s : Slot)
  | badValue (s : Slot) (text : String)
  | missingRom
  deriving DecidableEq, Repr

/-- A word of the line by its outer form. -/
inductive Word where
  | divider
  /-- An option as written, what it is if it is declared, and the value attached to it. -/
  | option (word : String) (declared : Option Declared) (attached : Option String)
  | plain (text : String)
  deriving DecidableEq, Repr

namespace Word

/-- The word for `--name` or `--name=value`, whose characters after the dashes are `cs`. -/
def ofLong (word : String) (cs : List Char) : Word :=
  let name := String.ofList (cs.takeWhile (· != '='))
  let attached :=
    match cs.dropWhile (· != '=') with
    | [] => none
    | _ :: value => some (String.ofList value)
  .option word (longNames.lookup name) attached

/-- A letter and what follows it in its word. A letter that takes no value is obeyed before the
characters behind it are looked at. -/
def ofLetter (word : String) (c : Char) (rest : List Char) : Word :=
  let attached :=
    match letters.lookup c, rest with
    | some (.slot _), '=' :: value => some (String.ofList value)
    | some (.slot _), value@(_ :: _) => some (String.ofList value)
    | _, _ => none
  .option word (letters.lookup c) attached

def ofString (word : String) : Word :=
  match word.toList with
  | ['-', '-'] => .divider
  | '-' :: '-' :: cs => ofLong word cs
  | '-' :: c :: rest => ofLetter word c rest
  | _ => .plain word

end Word

/-- What has been settled. -/
structure Draft where
  rom : Option String
  cycles : Option UInt64
  clockHz : Option UInt64
  seed : Option UInt64
  keys : Option String
  dump : Bool
  fast : Bool
  deriving DecidableEq, Repr

namespace Draft

def empty : Draft := ⟨none, none, none, none, none, false, false⟩

def isGiven (d : Draft) : Slot → Bool
  | .rom => d.rom.isSome
  | .cycles => d.cycles.isSome
  | .clockHz => d.clockHz.isSome
  | .seed => d.seed.isSome
  | .keys => d.keys.isSome

def isOn (d : Draft) : Switch → Bool
  | .dump => d.dump
  | .fast => d.fast

/-- The number that a slot's value denotes. -/
def number (s : Slot) (text : String) : Except LineError UInt64 :=
  match Text.Decimal.readUInt64? text with
  | some n => .ok n
  | none => .error (.badValue s text)

def put (d : Draft) (s : Slot) (text : String) : Except LineError Draft :=
  match s with
  | .rom => if text.isEmpty then .error (.missingValue .rom) else .ok { d with rom := some text }
  | .cycles => (number s text).map fun n => { d with cycles := some n }
  | .clockHz =>
    match number s text with
    | .error e => .error e
    | .ok n => if n = 0 then .error (.badValue s text) else .ok { d with clockHz := some n }
  | .seed => (number s text).map fun n => { d with seed := some n }
  | .keys => .ok { d with keys := some text }

/-- Settles a slot with the value given for it. -/
def settle (d : Draft) (s : Slot) : Option String → Except LineError Draft
  | none => .error (.missingValue s)
  | some text => if d.isGiven s then .error (.repeated (.slot s)) else d.put s text

def turnOn (d : Draft) (s : Switch) : Except LineError Draft :=
  if d.isOn s then .error (.repeated (.switch s))
  else .ok (match s with
    | .dump => { d with dump := true }
    | .fast => { d with fast := true })

def finish (d : Draft) : Except LineError Options :=
  match d.rom with
  | none => .error .missingRom
  | some rom =>
    .ok { rom, cycles := d.cycles, clockHz := d.clockHz.getD defaultClockHz, seed := d.seed,
          keys := d.keys.getD "", dump := d.dump, fast := d.fast }

end Draft

/-- How far a line has been read. -/
structure Reading where
  draft : Draft
  /-- The slot that is pending, with its value once that has been met. -/
  pending : Option (Slot × Option String)
  /-- The divider has been met. -/
  divided : Bool
  deriving DecidableEq, Repr

namespace Reading

def start : Reading := ⟨.empty, none, false⟩

def settle (r : Reading) : Except LineError Draft :=
  match r.pending with
  | none => .ok r.draft
  | some (s, text) => r.draft.settle s text

def hasRom (r : Reading) : Bool := r.draft.rom.isSome || r.pending.any (·.1 == .rom)

def positional (r : Reading) (text : String) : Except LineError Reading :=
  if r.hasRom then .error (.unknown text)
  else r.settle.map fun draft => { r with draft, pending := some (.rom, some text) }

/-- A word that is no option is the value of the option before it, or else the rom. -/
def plain (r : Reading) (text : String) : Except LineError Reading :=
  match r.pending, r.divided with
  | some (s, none), false => .ok { r with pending := some (s, some text) }
  | _, _ => r.positional text

def obey (r : Reading) : Declared → Option String → Except LineError Reading
  | .slot s, none => r.settle.map fun draft => { r with draft, pending := some (s, none) }
  | .slot s, some text => do
    let draft ← (← r.settle).settle s (some text)
    return { r with draft, pending := none }
  | .switch s, none => do
    let draft ← (← r.settle).turnOn s
    return { r with draft, pending := none }
  | .page p, none => do
    let _ ← r.settle
    throw (.asked p)
  | .switch _, some text => .error (.needlessValue text)
  | .page _, some text => .error (.needlessValue text)

def word (r : Reading) : Word → Except LineError Reading
  | .divider => .ok { r with divided := true }
  | .plain text => r.plain text
  | .option written none _ => .error (.unknown written)
  | .option _ (some declared) attached => r.obey declared attached

def step (r : Reading) (text : String) : Except LineError Reading :=
  r.word (if r.divided then .plain text else .ofString text)

end Reading

/-- The options that a command line asks for. -/
def Options.ofLine (line : List String) : Except LineError Options := do
  let r ← line.foldlM Reading.step Reading.start
  (← r.settle).finish

end Chip8.Host

import Chip8.Host.Options
import Chip8.Keypad.Layout
import Chip8.Machine.Run
import Chip8.Screen.Text
import Chip8.Text.Quoted

/-!
A session: a rom is loaded, keys are held down, and the machine runs until a fault or the limit of
cycles. Without a limit a session need not end, so it is run with fuel and has no outcome while the
fuel does not suffice.
-/

namespace Chip8.Host

/-- Why a session ends before its time. -/
inductive Failure where
  | cannotOpen (rom : String) (cause : String)
  | cannotLoad (rom : String) (error : LoadError)
  /-- The machine halted after `cycles` cycles, by the count of the session's `Tally`. -/
  | halted (cycles : Nat) (fault : Fault)
  deriving DecidableEq, Repr

/-- The failure in words, followed by its cause, and by the cause of that. -/
def Failure.chain : Failure → List String
  | .cannotOpen rom cause => [s!"unable to open {rom}", cause]
  | .cannotLoad rom (.unreadable cause) =>
    [s!"unable to load {rom}", (LoadError.unreadable cause).message, cause]
  | .cannotLoad rom error => [s!"unable to load {rom}", error.message]
  | .halted cycles fault => [s!"machine halted after {cycles} cycles", fault.message]

/-- What a session logs. -/
inductive Entry where
  | machine (n : Notice)
  /-- A character for a held key stands for no key. -/
  | unmapped (c : Char)
  | beep
  /-- The machine began to wait for a key. -/
  | waiting
  /-- The session ended at its limit. -/
  | summary (cycles redraws : Nat)
  deriving DecidableEq, Repr

namespace Entry

def record : Entry → LogRecord
  | .machine n => n.record
  | .unmapped c => ⟨.warn, s!"{Text.quote c} is not mapped to a key"⟩
  | .beep => ⟨.info, "BEEP!"⟩
  | .waiting => ⟨.info, "waiting for a key press"⟩
  | .summary cycles redraws => ⟨.info, s!"ran {cycles} cycles, {redraws} redraws"⟩

end Entry

structure Session (σ : Type) where
  machine : Machine σ
  tally : Tally
  /-- The last cycle waited for a key. -/
  waiting : Bool

/-- How a session ended: the text it prints or its failure, and its log. -/
structure Outcome where
  result : Except Failure String
  log : List Entry

namespace Session

variable {σ : Type}

/-- Holds down the keys that the characters stand for. -/
def holdKeys (m : Machine σ) : List Char → Machine σ × List Entry
  | [] => (m, [])
  | c :: rest =>
    match Keypad.keyOf? c with
    | some key => holdKeys (m.press (UInt8.ofNat key.val)) rest
    | none =>
      let (m, log) := holdKeys m rest
      (m, .unmapped c :: log)

/-- The session before its first cycle. `opened` is what came of opening the rom. -/
def start (options : Options) (opened : Except String Reader) (source : σ) :
    Except Failure (Session σ) × List Entry :=
  match opened with
  | .error cause => (.error (.cannotOpen options.rom cause), [])
  | .ok reader =>
    let t := (Machine.new source).loadFrom reader
    match t.answer with
    | .error e => (.error (.cannotLoad options.rom e), t.notices.map .machine)
    | .ok () =>
      let (m, log) := holdKeys t.machine options.keys.toList
      (.ok ⟨m, .zero, false⟩, t.notices.map .machine ++ log)

variable [ByteSource σ]

/-- What a session adds to the log of a cycle. -/
def remarks (s : Session σ) (r : Report) : List Entry :=
  (if r.beep then [.beep] else []) ++ (if r.awaitingKey && !s.waiting then [.waiting] else [])

/-- One cycle. -/
def step (s : Session σ) : Except Failure (Session σ) × List Entry :=
  let t := s.machine.cycle
  let log := t.notices.map .machine
  match t.answer with
  | .error f => (.error (.halted s.tally.cycles f), log)
  | .ok r =>
    (.ok ⟨t.machine, s.tally.add r t.machine.state.screen.redraw, r.awaitingKey⟩,
      log ++ s.remarks r)

def atLimit (s : Session σ) (options : Options) : Bool :=
  options.cycles.any (·.toNat ≤ s.tally.cycles)

def summary (s : Session σ) : Entry := .summary s.tally.cycles s.tally.redraws

/-- What is printed at the end. -/
def printed (s : Session σ) (options : Options) : String :=
  if options.dump then s.machine.state.screen.text ++ "\n" else ""

/-- Runs a session on, with at most `fuel` more cycles; `log` is what it logged before. -/
def runFrom (options : Options) (s : Session σ) (log : Array Entry) (fuel : Nat) :
    Option Outcome :=
  if s.atLimit options then
    some ⟨.ok (s.printed options), (log.push s.summary).toList⟩
  else
    match fuel with
    | 0 => none
    | fuel + 1 =>
      match s.step with
      | (.error failure, more) => some ⟨.error failure, (log ++ more).toList⟩
      | (.ok s, more) => runFrom options s (log ++ more) fuel

def run (options : Options) (opened : Except String Reader) (source : σ) (fuel : Nat) :
    Option Outcome :=
  match start options opened source with
  | (.error failure, log) => some ⟨.error failure, log⟩
  | (.ok s, log) => runFrom options s log.toArray fuel

end Session

namespace Outcome

def records (o : Outcome) : List LogRecord := o.log.map Entry.record

/-- A session that fails prints nothing. -/
def printed (o : Outcome) : String :=
  match o.result with
  | .ok text => text
  | .error _ => ""

end Outcome

end Chip8.Host

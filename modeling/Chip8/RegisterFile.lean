import Chip8.CallStack
import Chip8.Instruction.Basic
import Chip8.Memory.Program

/-!
The registers of the processor: sixteen bytes, of which the last is also the flag, the index into
memory, the program counter and the call stack. The arithmetic that stays within the sixteen bytes
is defined here too.
-/

namespace Chip8

structure RegisterFile where
  v : Vector UInt8 16
  index : UInt16
  counter : UInt16
  calls : CallStack
  deriving DecidableEq, Repr

namespace RegisterFile

def initial : RegisterFile := ⟨Vector.replicate 16 0, 0, UInt16.ofNat programStart, .empty⟩

def get (r : RegisterFile) (x : Nibble) : UInt8 := r.v[x]

def set (r : RegisterFile) (x : Nibble) (b : UInt8) : RegisterFile := { r with v := r.v.set x b }

/-- The register that arithmetic and drawing overwrite. -/
def flag (r : RegisterFile) : UInt8 := r.get 0xF

def setFlag (r : RegisterFile) (on : Bool) : RegisterFile := r.set 0xF on.toUInt8

def push (r : RegisterFile) (a : UInt16) : Except Fault RegisterFile :=
  r.calls.push a |>.map fun calls => { r with calls }

/-- The newest return address, and the registers without it. -/
def pop (r : RegisterFile) : Except Fault (UInt16 × RegisterFile) :=
  r.calls.pop |>.map fun (a, calls) => (a, { r with calls })

/-- Moves the program counter past the next instruction. -/
def skip (r : RegisterFile) : RegisterFile := { r with counter := r.counter + 2 }

/-- Moves the program counter back to the instruction before it. -/
def rewind (r : RegisterFile) : RegisterFile := { r with counter := r.counter - 2 }

/-- The flag of a difference lands before the operands are read for it, that of a sum after the
sum is stored: an operand in the flag register is read, or overwritten, accordingly. -/
def combine (r : RegisterFile) (op : Arithmetic) (x y : Nibble) : RegisterFile :=
  match op with
  | .copy => r.set x (r.get y)
  | .or => r.set x (r.get x ||| r.get y)
  | .and => r.set x (r.get x &&& r.get y)
  | .xor => r.set x (r.get x ^^^ r.get y)
  | .add => (r.set x (r.get x + r.get y)).setFlag (0xFF < (r.get x).toNat + (r.get y).toNat)
  | .sub =>
    let r := r.setFlag (r.get y < r.get x)
    r.set x (r.get x - r.get y)
  | .subFrom =>
    let r := r.setFlag (r.get x < r.get y)
    r.set x (r.get y - r.get x)

/-- The lowest bit goes to the flag first. -/
def shiftRight (r : RegisterFile) (x : Nibble) : RegisterFile :=
  let r := r.set 0xF (r.get x &&& 1)
  r.set x (r.get x >>> 1)

/-- The highest bit goes to the flag first. -/
def shiftLeft (r : RegisterFile) (x : Nibble) : RegisterFile :=
  let r := r.set 0xF (r.get x >>> 7)
  r.set x (r.get x <<< 1)

/-- The contents of the registers before `x`. -/
def before (r : RegisterFile) (x : Nibble) : List UInt8 := r.v.toList.take x

/-- Sets register 0 and those after it to `data`; what falls beyond the last one is dropped. -/
def setFirst (r : RegisterFile) (data : List UInt8) : RegisterFile :=
  { r with v := Vector.ofFn fun k => data[k.val]?.getD (r.get k) }

@[simp] theorem get_set (r : RegisterFile) (x y : Nibble) (b : UInt8) :
    (r.set x b).get y = if x = y then b else r.get y := by
  simp only [get, set, Fin.getElem_fin, Vector.getElem_set, Fin.ext_iff]

theorem get_set_self (r : RegisterFile) (x : Nibble) (b : UInt8) : (r.set x b).get x = b := by
  rw [get_set, if_pos rfl]

theorem get_set_of_ne (r : RegisterFile) {x z : Nibble} (h : z ≠ x) (b : UInt8) :
    (r.set x b).get z = r.get z := by
  rw [get_set, if_neg (Ne.symm h)]

theorem get_setFlag (r : RegisterFile) (on : Bool) (x : Nibble) :
    (r.setFlag on).get x = if 0xF = x then on.toUInt8 else r.get x :=
  r.get_set 0xF x _

@[simp] theorem get_setFirst (r : RegisterFile) (data : List UInt8) (x : Nibble) :
    (r.setFirst data).get x = data[x.val]?.getD (r.get x) := by
  simp [get, setFirst]

@[simp] theorem index_setFirst (r : RegisterFile) (data : List UInt8) :
    (r.setFirst data).index = r.index := by
  simp only [setFirst]

@[simp] theorem counter_setFirst (r : RegisterFile) (data : List UInt8) :
    (r.setFirst data).counter = r.counter := by
  simp only [setFirst]

@[simp] theorem calls_setFirst (r : RegisterFile) (data : List UInt8) :
    (r.setFirst data).calls = r.calls := by
  simp only [setFirst]

@[simp] theorem index_combine (r : RegisterFile) (op : Arithmetic) (x y : Nibble) :
    (r.combine op x y).index = r.index := by
  cases op <;> rfl

@[simp] theorem counter_combine (r : RegisterFile) (op : Arithmetic) (x y : Nibble) :
    (r.combine op x y).counter = r.counter := by
  cases op <;> rfl

@[simp] theorem calls_combine (r : RegisterFile) (op : Arithmetic) (x y : Nibble) :
    (r.combine op x y).calls = r.calls := by
  cases op <;> rfl

end RegisterFile

end Chip8

import Chip8.Proofs.Execution

/-!
The call stack as a list. A record of what has been done keeps the addresses held as a list of at
most fifteen, and each address pushed with the depth it was pushed at. The registers agree with the
record after every use (`Record.Of.use`), so they do after any number of uses (`Record.Of.useAll`).
What a pop leaves in its slot is not on the list, but two registers with the same list can differ in
it: they are those of the start again if nothing but zeros was left (`RegisterFile.stack_is_list`).
-/

namespace Chip8

namespace CallStack

/-- A push stores at the depth that it raises the stack to. -/
theorem top_push {s t : CallStack} {a : UInt16} (h : s.push a = .ok t) :
    t.slots[s.depth.val + 1]? = some a := by
  unfold push at h
  split at h
  · cases h
    rw [Vector.getElem?_set, if_pos rfl]
  · cases h

end CallStack

namespace RegisterFile

/-- A use of the call stack, or of the flag beside it. -/
inductive Use where
  | push (a : UInt16)
  | pop
  | setFlag (on : Bool)
  deriving DecidableEq, Repr

/-- An address for a pop, nothing for another use, or the fault. -/
abbrev Answer := Except Fault (Option UInt16)

/-- The answer of a use, and the registers after it. -/
def use (r : RegisterFile) : Use → Answer × RegisterFile
  | .push a =>
    match r.push a with
    | .ok t => (.ok none, t)
    | .error f => (.error f, r)
  | .pop =>
    match r.pop with
    | .ok (a, t) => (.ok (some a), t)
    | .error f => (.error f, r)
  | .setFlag on => (.ok none, r.setFlag on)

section Calls

variable {r : RegisterFile} {s : CallStack} {a : UInt16} {f : Fault}

theorem use_push_of_ok (h : r.calls.push a = .ok s) :
    r.use (.push a) = (.ok none, { r with calls := s }) := by
  simp only [use, push, h]
  rfl

theorem use_push_of_error (h : r.calls.push a = .error f) : r.use (.push a) = (.error f, r) := by
  simp only [use, push, h]
  rfl

theorem use_pop_of_ok (h : r.calls.pop = .ok (a, s)) :
    r.use .pop = (.ok (some a), { r with calls := s }) := by
  simp only [use, pop, h]
  rfl

theorem use_pop_of_error (h : r.calls.pop = .error f) : r.use .pop = (.error f, r) := by
  simp only [use, pop, h]
  rfl

/-- A use that fails changes nothing. -/
theorem use_of_error {u : Use} (h : (r.use u).1 = .error f) : (r.use u).2 = r := by
  cases u with
  | push a =>
    cases hp : r.calls.push a with
    | ok s => cases (use_push_of_ok hp) ▸ h
    | error g => rw [use_push_of_error hp]
  | pop =>
    cases hp : r.calls.pop with
    | ok s => cases (use_pop_of_ok hp) ▸ h
    | error g => rw [use_pop_of_error hp]
  | setFlag on => cases h

end Calls

/-- The answers of uses in their order, and the registers after the last of them. -/
def useAll (r : RegisterFile) : List Use → List Answer × RegisterFile
  | [] => ([], r)
  | u :: us =>
    let (answer, t) := r.use u
    let (answers, last) := t.useAll us
    (answer :: answers, last)

/-- What has been done to the registers. -/
structure Record where
  /-- The addresses held, oldest first. -/
  held : List UInt16
  flag : Bool
  /-- The addresses that have been pushed, newest first, with how many were held then. -/
  pushed : List (Nat × UInt16)
  deriving DecidableEq, Repr

namespace Record

def empty : Record := ⟨[], false, []⟩

def use (c : Record) : Use → Answer × Record
  | .push a =>
    if c.held.length = 15 then (.error .stackOverflow, c)
    else (.ok none,
      { c with held := c.held ++ [a], pushed := (c.held.length + 1, a) :: c.pushed })
  | .pop =>
    match c.held.getLast? with
    | none => (.error .stackUnderflow, c)
    | some a => (.ok (some a), { c with held := c.held.dropLast })
  | .setFlag on => (.ok none, { c with flag := on })

def useAll (c : Record) : List Use → List Answer × Record
  | [] => ([], c)
  | u :: us =>
    let (answer, d) := c.use u
    let (answers, last) := d.useAll us
    (answer :: answers, last)

/-- What was pushed last at a depth, or else the zero that was there from the start. -/
def left (c : Record) (k : Nat) : UInt16 := (c.pushed.lookup k).getD 0

/-- The record tells the registers. -/
structure Of (c : Record) (r : RegisterFile) : Prop where
  held : r.calls.toList = c.held
  slot : ∀ k < 16, r.calls.slots[k]? = some (c.left k)
  /-- Depth 0 is no place for an address. -/
  depths : ∀ k a, c.pushed.lookup k = some a → 0 < k ∧ k < 16
  get : ∀ x, r.get x = if 0xF = x then c.flag.toUInt8 else 0
  index : r.index = 0
  counter : r.counter = 0x200

variable {c : Record} {r : RegisterFile}

theorem Of.depth (h : c.Of r) : r.calls.depth.val = c.held.length := by
  rw [← h.held, CallStack.length_toList]

theorem Of.lookup_zero (h : c.Of r) : c.pushed.lookup 0 = none := by
  cases hz : c.pushed.lookup 0 with
  | none => rfl
  | some a => exact absurd (h.depths 0 a hz).1 (Nat.lt_irrefl 0)

theorem of_initial : empty.Of initial where
  held := rfl
  slot := by decide
  depths := nofun
  get := by decide
  index := rfl
  counter := rfl

theorem use_push_of_full (h : c.held.length = 15) (a : UInt16) :
    c.use (.push a) = (.error .stackOverflow, c) := if_pos h

theorem use_push_of_room (h : c.held.length ≠ 15) (a : UInt16) :
    c.use (.push a) = (.ok none,
      { c with held := c.held ++ [a], pushed := (c.held.length + 1, a) :: c.pushed }) := if_neg h

theorem use_pop_of_nil (h : c.held = []) : c.use .pop = (.error .stackUnderflow, c) := by
  simp only [use, h]
  rfl

theorem use_pop_of_append {older : List UInt16} {a : UInt16} (h : c.held = older ++ [a]) :
    c.use .pop = (.ok (some a), { c with held := older }) := by
  simp only [use, h, List.getLast?_concat, List.dropLast_concat]

theorem lookup_push (k j : Nat) (a : UInt16) :
    ((k, a) :: c.pushed).lookup j = if j = k then some a else c.pushed.lookup j := by
  rw [List.lookup_cons]
  by_cases h : j = k
  · rw [if_pos h, beq_iff_eq.mpr h]
  · rw [if_neg h, beq_false_of_ne h]

/-- The registers answer as the record does, and it still tells them. -/
theorem Of.use (h : c.Of r) (u : Use) :
    (r.use u).1 = (c.use u).1 ∧ (c.use u).2.Of (r.use u).2 := by
  cases u with
  | push a =>
    cases hp : r.calls.push a with
    | error f =>
      obtain ⟨hfull, rfl⟩ := (r.calls.push_eq_error_iff a f).mp hp
      rw [use_push_of_error hp, use_push_of_full (h.held ▸ hfull)]
      exact ⟨rfl, h⟩
    | ok s =>
      have hroom : c.held.length ≠ 15 := by
        intro hfull
        rw [← h.held] at hfull
        cases hp.symm.trans ((r.calls.push_eq_error_iff a .stackOverflow).mpr ⟨hfull, rfl⟩)
      rw [use_push_of_ok hp, use_push_of_room hroom]
      refine ⟨rfl, (CallStack.toList_push hp).trans (congrArg (· ++ [a]) h.held), fun k hk => ?_,
        fun k b hb => ?_, h.get, h.index, h.counter⟩
      · rw [left, lookup_push, ← h.depth]
        by_cases htop : k = r.calls.depth.val + 1
        · rw [if_pos htop, htop]
          exact CallStack.top_push hp
        · rw [if_neg htop]
          exact (CallStack.getElem?_slots_push hp htop).trans (h.slot k hk)
      · rw [lookup_push] at hb
        split at hb
        · have hlt := r.calls.depth.isLt
          have hdepth := h.depth
          omega
        · exact h.depths k b hb
  | pop =>
    cases hp : r.calls.pop with
    | error f =>
      obtain ⟨hnil, rfl⟩ := (r.calls.pop_eq_error_iff f).mp hp
      rw [use_pop_of_error hp, use_pop_of_nil (h.held ▸ hnil)]
      exact ⟨rfl, h⟩
    | ok p =>
      obtain ⟨a, s⟩ := p
      rw [use_pop_of_ok hp, use_pop_of_append (h.held ▸ CallStack.toList_pop hp)]
      refine ⟨rfl, rfl, fun k hk => ?_, h.depths, h.get, h.index, h.counter⟩
      exact (congrArg (·[k]?) (CallStack.slots_pop hp)).trans (h.slot k hk)
  | setFlag on =>
    refine ⟨rfl, h.held, h.slot, h.depths, fun x => ?_, h.index, h.counter⟩
    refine (r.get_setFlag on x).trans ?_
    by_cases hx : 0xF = x
    · rw [if_pos hx, if_pos hx]
      rfl
    · rw [if_neg hx, if_neg hx, h.get x, if_neg hx]

/-- So it is with any number of uses. -/
theorem Of.useAll (h : c.Of r) (us : List Use) :
    (r.useAll us).1 = (c.useAll us).1 ∧ (c.useAll us).2.Of (r.useAll us).2 := by
  induction us generalizing c r with
  | nil => exact ⟨rfl, h⟩
  | cons u us ih =>
    obtain ⟨hanswer, hnext⟩ := h.use u
    obtain ⟨hanswers, hlast⟩ := ih hnext
    exact ⟨List.cons_eq_cons.mpr ⟨hanswer, hanswers⟩, hlast⟩

/-- The record tells everything about the registers. -/
theorem Of.unique {d : Record} {t : RegisterFile} (hr : c.Of r) (ht : d.Of t)
    (hheld : c.held = d.held) (hflag : c.flag = d.flag) (hleft : ∀ k < 16, c.left k = d.left k) :
    r = t := by
  have hv : r.v = t.v := by
    apply Vector.ext
    intro k hk
    have hget := hr.get ⟨k, hk⟩
    rw [hflag, ← ht.get ⟨k, hk⟩] at hget
    exact hget
  have hslots : r.calls.slots = t.calls.slots := by
    apply Vector.ext
    intro k hk
    have hslot := hr.slot k hk
    rw [hleft k hk, ← ht.slot k hk, Vector.getElem?_eq_getElem hk, Vector.getElem?_eq_getElem hk]
      at hslot
    exact Option.some.inj hslot
  have hdepth : r.calls.depth = t.calls.depth := by
    apply Fin.ext
    rw [hr.depth, ht.depth, hheld]
  obtain ⟨v, index, counter, slots, depth⟩ := r
  obtain ⟨v', index', counter', slots', depth'⟩ := t
  cases hv
  cases hslots
  cases hdepth
  cases hr.index.trans ht.index.symm
  cases hr.counter.trans ht.counter.symm
  rfl

/-- The registers are those of the start again if all that was left behind is as it was then. -/
theorem Of.eq_initial_iff (h : c.Of r) :
    r = initial ↔
      c.held = [] ∧ c.flag = false ∧ ∀ k a, c.pushed.lookup k = some a → a = 0 := by
  constructor
  · rintro rfl
    refine ⟨h.held.symm, ?_, fun k a ha => ?_⟩
    · have hflag : (0 : UInt8) = c.flag.toUInt8 := h.get 0xF
      cases hc : c.flag with
      | false => rfl
      | true => cases hc ▸ hflag
    · obtain ⟨-, hk⟩ := h.depths k a ha
      have hslot := h.slot k hk
      rw [left, ha, of_initial.slot k hk] at hslot
      exact (Option.some.inj hslot).symm
  · rintro ⟨hheld, hflag, hzero⟩
    refine h.unique of_initial hheld hflag fun k _ => ?_
    unfold left
    cases hk : c.pushed.lookup k with
    | none => rfl
    | some a => exact hzero k a hk

end Record

/-- After any number of pushes, pops and settings of the flag, the registers of the start have
answered as a list of at most fifteen addresses does: a push is refused if that many are held and a
pop if none is. The stack is that list, and a use that fails changes nothing. Nothing but the flag is
ever changed beside the stack. A slot keeps the address that was pushed last at its depth, whether
that is still held or not, and the one below them is not used. So the registers are those of the
start again just if nothing is held, the flag is down and only zeros were left in the slots. -/
theorem stack_is_list (us : List Use) :
    ∃ answers r c, initial.useAll us = (answers, r) ∧ Record.empty.useAll us = (answers, c) ∧
      r.calls.toList = c.held ∧ r.calls.depth.val = c.held.length ∧ c.held.length ≤ 15 ∧
      (∀ u f, (r.use u).1 = .error f → (r.use u).2 = r) ∧
      (∀ x, r.get x = if 0xF = x then c.flag.toUInt8 else initial.get x) ∧
      r.index = initial.index ∧ r.counter = initial.counter ∧
      r.calls.slots[0]? = some 0 ∧
      (∀ k, 1 ≤ k → k < 16 → r.calls.slots[k]? = some ((c.pushed.lookup k).getD 0)) ∧
      (r = initial ↔
        c.held = [] ∧ c.flag = false ∧ ∀ k a, c.pushed.lookup k = some a → a = 0) := by
  obtain ⟨hanswers, hof⟩ := Record.of_initial.useAll us
  refine ⟨_, _, _, rfl, Prod.ext hanswers.symm rfl, hof.held, hof.depth, ?_,
    fun u f hu => use_of_error hu, fun x => ?_, hof.index, hof.counter, ?_,
    fun k _ hk => hof.slot k hk, hof.eq_initial_iff⟩
  · rw [← hof.depth]
    exact Nat.le_of_lt_succ (Fin.isLt _)
  · rw [hof.get x, Record.of_initial.get x]
    split
    · rfl
    · rfl
  · rw [hof.slot 0 (by decide), Record.left, hof.lookup_zero]
    rfl

example : (initial.useAll [.push 0x202, .pop]).2 ≠ initial ∧
    (initial.useAll [.push 0x202, .pop, .push 0, .pop]).2 = initial := by decide

end RegisterFile

end Chip8

import Chip8.Machine.Basic
import Chip8.Proofs.Delivery

/-!
Loading from a reader is loading the bytes that it delivers. Pieces do not matter: what there is to
read, up to one byte more than fits, decides alone whether a program is too large, cannot be read
or is put into memory (`Machine.loading_ignores_pieces`). A load that fails leaves no trace.
-/

namespace Chip8

namespace Memory

variable (m : Memory) {r : Reader} {data : List UInt8}

theorem load_of_le (h : data.length ≤ 3584) : m.load data = .ok (m.put programStart data) :=
  if_pos h

theorem load_of_lt (h : 3584 < data.length) : m.load data = .error (.tooLarge data.length 3584) :=
  if_neg (Nat.not_le_of_lt h)

theorem loadFrom_eq_gather (r : Reader) :
    m.loadFrom r = match (r.gatherFrom 0 3585).2 with
      | some cause => .error (.unreadable cause)
      | none => (m.load (r.gatherFrom 0 3585).1).map ((r.gatherFrom 0 3585).1.length, ·) := by
  have hread : r.read (programCapacity + 1) = _ := Reader.readFrom_eq_gatherFrom r 0 3585
  rw [loadFrom, hread]
  cases (r.gatherFrom 0 3585).2 <;> rfl

theorem loadFrom_of_begins (h : r.Begins data) (hl : 3585 ≤ data.length) :
    m.loadFrom r = .error (.tooLarge 3585 3584) := by
  have hlen : (data.take 3585).length = 3585 := by
    rw [List.length_take]
    omega
  rw [loadFrom_eq_gather, Reader.gatherFrom_of_begins h hl]
  simp only [m.load_of_lt (show 3584 < (data.take 3585).length by omega), hlen]
  rfl

theorem loadFrom_of_failsAfter {cause : String} (h : r.FailsAfter data cause)
    (hl : data.length ≤ 3584) : m.loadFrom r = .error (.unreadable cause) := by
  obtain ⟨j, hy, hd⟩ := h
  rw [loadFrom_eq_gather, (Reader.gatherFrom_of_stops hy (Nat.lt_succ_of_le hl)).2 cause hd]

theorem loadFrom_of_delivers (h : r.Delivers data) (hl : data.length ≤ 3584) :
    m.loadFrom r = .ok (data.length, m.put programStart data) := by
  obtain ⟨j, hy, hd⟩ := Reader.deliversFrom_iff.mp h
  rw [loadFrom_eq_gather, (Reader.gatherFrom_of_stops hy (Nat.lt_succ_of_le hl)).1 hd]
  simp only [m.load_of_le hl]
  rfl

theorem loadFrom_of_endless (h : r.Endless) : m.loadFrom r = .error (.tooLarge 3585 3584) := by
  obtain ⟨data, hb, hl⟩ := h.begins 3585
  exact m.loadFrom_of_begins hb hl

theorem loadFrom_of_sameBytes {r' : Reader} (h : r.SameBytes r') :
    m.loadFrom r = m.loadFrom r' := by
  rcases r.begins_or_stops 3585 with ⟨data, hb, hl⟩ | ⟨data, cause, hf, hl⟩ | ⟨data, hd, hl⟩
  · have hle := Nat.le_of_eq hl.symm
    rw [m.loadFrom_of_begins hb hle, m.loadFrom_of_begins ((h.begins data).mp hb) hle]
  · have hle := Nat.le_of_lt_succ hl
    rw [m.loadFrom_of_failsAfter hf hle,
      m.loadFrom_of_failsAfter ((h.fails data cause).mp hf) hle]
  · have hle := Nat.le_of_lt_succ hl
    rw [m.loadFrom_of_delivers hd hle, m.loadFrom_of_delivers ((h.delivers data).mp hd) hle]

/-- What comes of a list of pieces is told by their bytes and by what follows them. -/
theorem loadFrom_ofPieces (pieces : List (List UInt8)) (last : Delivery) :
    m.loadFrom (.ofPieces pieces last) =
      if 3584 < pieces.flatten.length then .error (.tooLarge 3585 3584)
      else match last with
        | .finished => .ok (pieces.flatten.length, m.put programStart pieces.flatten)
        | .failed cause => .error (.unreadable cause)
        | .piece _ _ => .error (.tooLarge 3585 3584) := by
  obtain ⟨j, hy, hlast⟩ := Reader.yields_ofPieces pieces last
  by_cases hl : 3584 < pieces.flatten.length
  · rw [if_pos hl]
    exact m.loadFrom_of_begins ⟨j, _, hy, List.prefix_refl _⟩ hl
  · rw [if_neg hl]
    have hle := Nat.le_of_not_lt hl
    cases last with
    | finished => exact m.loadFrom_of_delivers (Reader.deliversFrom_iff.mpr ⟨j, hy, hlast 0⟩) hle
    | failed cause => exact m.loadFrom_of_failsAfter ⟨j, hy, hlast 0⟩ hle
    | piece b rest =>
      -- the last piece is delivered over and over
      obtain ⟨l, more, hmore, hlen⟩ :=
        Reader.yields_of_unending (k := j) (fun i => ⟨b, rest, hlast i⟩) 3585
      refine m.loadFrom_of_begins ⟨l, _, hy.trans hmore, List.prefix_refl _⟩ ?_
      rw [List.length_append]
      omega

end Memory

namespace Machine

variable {σ : Type} (m : Machine σ) {r : Reader}

theorem load_of_lt {program : List UInt8} (h : 3584 < program.length) :
    m.load program = ⟨m, .error (.tooLarge program.length 3584), []⟩ := by
  simp only [load, Memory.load_of_lt _ h]

theorem loadFrom_of_error {e : LoadError} (h : m.state.memory.loadFrom r = .error e) :
    m.loadFrom r = ⟨m, .error e, []⟩ := by
  simp only [loadFrom, h]

/-- Loading from a reader is decided by its bytes alone, however they are cut into pieces. If there
are more than fit, the program is too large, whatever is behind them; if not, a failure of the
reader is the answer; and otherwise the bytes are loaded as a list of them is. At most one byte more
than fits is taken. A load that fails changes nothing and logs nothing. -/
theorem loading_ignores_pieces (m : Machine σ) (r : Reader) :
    (∀ data, r.Begins data → 3585 ≤ data.length →
      m.state.memory.loadFrom r = .error (.tooLarge 3585 3584) ∧
      m.loadFrom r = ⟨m, .error (.tooLarge 3585 3584), []⟩) ∧
    (r.Endless → m.loadFrom r = ⟨m, .error (.tooLarge 3585 3584), []⟩) ∧
    (∀ data cause, r.FailsAfter data cause → data.length ≤ 3584 →
      m.state.memory.loadFrom r = .error (.unreadable cause) ∧
      m.loadFrom r = ⟨m, .error (.unreadable cause), []⟩) ∧
    (∀ data, r.Delivers data → data.length ≤ 3584 → ∃ memory,
      m.state.memory.load data = .ok memory ∧
      m.state.memory.loadFrom r = .ok (data.length, memory) ∧
      m.loadFrom r =
        ⟨m.setState { m.state with memory }, .ok (), [.loaded data.length]⟩ ∧
      m.loadFrom r = m.load data) ∧
    ((∃ data, r.Begins data ∧ data.length = 3585) ∨
      (∃ data cause, r.FailsAfter data cause ∧ data.length ≤ 3584) ∨
      ∃ data, r.Delivers data ∧ data.length ≤ 3584) ∧
    (∀ r' : Reader, r.SameBytes r' → m.state.memory.loadFrom r = m.state.memory.loadFrom r' ∧
      m.loadFrom r = m.loadFrom r') ∧
    (∀ (pieces pieces' : List (List UInt8)) (last : Delivery), pieces.flatten = pieces'.flatten →
      m.loadFrom (.ofPieces pieces last) = m.loadFrom (.ofPieces pieces' last)) ∧
    ((r.taken 3585).length ≤ 3585 ∧ r.Begins (r.taken 3585) ∧
      (r.read 3585 = .ok (r.taken 3585) ∨
        ∃ cause, r.read 3585 = .error cause ∧ r.FailsAfter (r.taken 3585) cause)) ∧
    (∀ program : List UInt8, 3584 < program.length →
      m.load program = ⟨m, .error (.tooLarge program.length 3584), []⟩) ∧
    (LoadError.tooLarge 3585 3584).message =
      "program of 3585 bytes or more does not fit in the 3584 bytes available" := by
  refine ⟨fun data hb hl => ?_, fun he => ?_, fun data cause hf hl => ?_, fun data hd hl => ?_, ?_,
    fun r' hs => ?_, fun pieces pieces' last hp => ?_, r.taken_cases 3585,
    fun program hl => m.load_of_lt hl, rfl⟩
  · have h := m.state.memory.loadFrom_of_begins hb hl
    exact ⟨h, m.loadFrom_of_error h⟩
  · exact m.loadFrom_of_error (m.state.memory.loadFrom_of_endless he)
  · have h := m.state.memory.loadFrom_of_failsAfter hf hl
    exact ⟨h, m.loadFrom_of_error h⟩
  · have h := m.state.memory.loadFrom_of_delivers hd hl
    have hload := m.state.memory.load_of_le hl
    exact ⟨_, hload, h, by simp only [loadFrom, h], by simp only [loadFrom, load, h, hload]⟩
  · rcases r.begins_or_stops 3585 with h | ⟨data, cause, hf, hl⟩ | ⟨data, hd, hl⟩
    · exact Or.inl h
    · exact Or.inr (Or.inl ⟨data, cause, hf, Nat.le_of_lt_succ hl⟩)
    · exact Or.inr (Or.inr ⟨data, hd, Nat.le_of_lt_succ hl⟩)
  · have h := m.state.memory.loadFrom_of_sameBytes hs
    exact ⟨h, by simp only [loadFrom, h]⟩
  · have h : m.state.memory.loadFrom (.ofPieces pieces last) =
        m.state.memory.loadFrom (.ofPieces pieces' last) := by
      rw [Memory.loadFrom_ofPieces, Memory.loadFrom_ofPieces, hp]
    simp only [loadFrom, h]

end Machine

end Chip8

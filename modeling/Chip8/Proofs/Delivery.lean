import Chip8.Memory.Program

/-!
What a reader holds. A reader delivers pieces, and then it ends, fails or goes on for ever
(`Reader.Yields`, `Reader.Delivers`, `Reader.FailsAfter`). Reading with a limit comes to the first
bytes of all, however they are cut into pieces, and no more than the limit is taken
(`Reader.gatherFrom_of_yields`, `Reader.gatherFrom_cases`).
-/

namespace Chip8

namespace Reader

/-- The deliveries from number `k` on are the pieces of `data` and then the end. -/
inductive DeliversFrom (r : Reader) : Nat → List UInt8 → Prop where
  | finished {k} : r.delivery k = .finished → r.DeliversFrom k []
  | piece {k b rest more} : r.delivery k = .piece b rest → r.DeliversFrom (k + 1) more →
      r.DeliversFrom k (b :: rest ++ more)

/-- The reader delivers `data` and ends. -/
def Delivers (r : Reader) (data : List UInt8) : Prop := r.DeliversFrom 0 data

theorem DeliversFrom.unique {r : Reader} {k : Nat} {data other : List UInt8}
    (h : r.DeliversFrom k data) (ho : r.DeliversFrom k other) : data = other := by
  induction h generalizing other with
  | finished hd =>
    cases ho with
    | finished => rfl
    | piece hp => cases hd.symm.trans hp
  | piece hd _ ih =>
    cases ho with
    | finished hf => cases hd.symm.trans hf
    | piece hp hmore =>
      cases hd.symm.trans hp
      rw [ih hmore]

/-- The deliveries from number `k` up to number `j` are the pieces of `data`. -/
inductive Yields (r : Reader) : Nat → Nat → List UInt8 → Prop where
  | nothing {k} : r.Yields k k []
  | piece {k j b rest more} : r.delivery k = .piece b rest → r.Yields (k + 1) j more →
      r.Yields k j (b :: rest ++ more)

/-- The reader delivers `data` and then fails. -/
def FailsAfter (r : Reader) (data : List UInt8) (cause : String) : Prop :=
  ∃ j, r.Yields 0 j data ∧ r.delivery j = .failed cause

/-- The first bytes that the reader delivers are those of `data`; it may have more to deliver. -/
def Begins (r : Reader) (data : List UInt8) : Prop := ∃ j all, r.Yields 0 j all ∧ data <+: all

/-- The reader never ends and never fails. -/
def Endless (r : Reader) : Prop := ∀ k, ∃ b rest, r.delivery k = .piece b rest

/-- Two readers that differ at most in how their bytes are cut into pieces. -/
structure SameBytes (r r' : Reader) : Prop where
  begins : ∀ data, r.Begins data ↔ r'.Begins data
  delivers : ∀ data, r.Delivers data ↔ r'.Delivers data
  fails : ∀ data cause, r.FailsAfter data cause ↔ r'.FailsAfter data cause

/-- What reading takes from the deliveries from number `k` on, and the failure that it meets, if it
meets one. -/
def gatherFrom (r : Reader) (k : Nat) : Nat → List UInt8 × Option String
  | 0 => ([], none)
  | limit + 1 =>
    match r.delivery k with
    | .finished => ([], none)
    | .failed cause => ([], some cause)
    | .piece b rest =>
      let (more, failure) := gatherFrom r (k + 1) (limit - rest.length)
      (b :: rest.take limit ++ more, failure)
termination_by limit => limit

/-- The bytes that a reader is rid of when it has been read up to the limit. -/
def taken (r : Reader) (limit : Nat) : List UInt8 := (r.gatherFrom 0 limit).1

variable {r : Reader} {k : Nat} {data : List UInt8}

/-- What is read is what was taken, unless there was a failure. -/
theorem readFrom_eq_gatherFrom (r : Reader) (k limit : Nat) :
    r.readFrom k limit =
      match (r.gatherFrom k limit).2 with
      | none => .ok (r.gatherFrom k limit).1
      | some cause => .error cause := by
  fun_induction gatherFrom r k limit with
  | case1 k => rw [readFrom]
  | case2 k limit hd => rw [readFrom, hd]
  | case3 k limit cause hd => rw [readFrom, hd]
  | case4 k limit b rest hd more failure hg ih =>
    rw [readFrom, hd]
    simp only [ih, hg]
    cases failure <;> rfl

theorem deliversFrom_iff :
    r.DeliversFrom k data ↔ ∃ j, r.Yields k j data ∧ r.delivery j = .finished := by
  constructor
  · intro h
    induction h with
    | finished hd => exact ⟨_, .nothing, hd⟩
    | piece hd _ ih =>
      obtain ⟨j, hy, hj⟩ := ih
      exact ⟨j, .piece hd hy, hj⟩
  · rintro ⟨j, hy, hj⟩
    induction hy with
    | nothing => exact .finished hj
    | piece hd _ ih => exact .piece hd (ih hj)

/-- Reading across pieces takes as much of their bytes as the limit lets it, and then goes on behind
them with what is left of the limit. -/
theorem gatherFrom_of_yields {j : Nat} (h : r.Yields k j data) (limit : Nat) :
    r.gatherFrom k limit =
      (data.take limit ++ (r.gatherFrom j (limit - data.length)).1,
        (r.gatherFrom j (limit - data.length)).2) := by
  induction h generalizing limit with
  | nothing => simp
  | @piece k j b rest more hd _ ih =>
    cases limit with
    | zero =>
      simp only [Nat.zero_sub, List.take_zero, gatherFrom, List.append_nil]
    | succ limit =>
      have hlen : limit + 1 - (b :: rest ++ more).length = limit - rest.length - more.length := by
        simp only [List.cons_append, List.length_cons, List.length_append]
        omega
      rw [hlen, gatherFrom, hd]
      simp only [ih]
      simp [List.take_append]

/-- Reading stops at the limit, or else where the pieces stop. -/
theorem gatherFrom_cases (r : Reader) (k limit : Nat) :
    ((r.gatherFrom k limit).1.length = limit ∧ (r.gatherFrom k limit).2 = none ∧
      ∃ j all, r.Yields k j all ∧ (r.gatherFrom k limit).1 <+: all) ∨
    ((r.gatherFrom k limit).1.length < limit ∧ ∃ j, r.Yields k j (r.gatherFrom k limit).1 ∧
      ((r.gatherFrom k limit).2 = none ∧ r.delivery j = .finished ∨
        ∃ cause, (r.gatherFrom k limit).2 = some cause ∧ r.delivery j = .failed cause)) := by
  fun_induction gatherFrom r k limit with
  | case1 k => exact Or.inl ⟨rfl, rfl, k, [], .nothing, List.nil_prefix⟩
  | case2 k limit hd => exact Or.inr ⟨Nat.succ_pos _, k, .nothing, Or.inl ⟨rfl, hd⟩⟩
  | case3 k limit cause hd =>
    exact Or.inr ⟨Nat.succ_pos _, k, .nothing, Or.inr ⟨cause, rfl, hd⟩⟩
  | case4 k limit b rest hd more failure hg ih =>
    simp only [hg] at ih
    simp only [List.cons_append, List.length_cons, List.length_append, List.length_take]
    rcases ih with ⟨hlen, hf, j, all, hy, hp⟩ | ⟨hlen, j, hy, hend⟩
    · refine Or.inl ⟨by omega, hf, j, _, .piece hd hy, ?_⟩
      by_cases hle : rest.length ≤ limit
      · rw [List.take_of_length_le hle]
        simpa using hp
      · -- the limit falls within this piece, so nothing is taken behind it
        have hnil : more = [] := List.length_eq_zero_iff.mp (by omega)
        rw [hnil, List.append_nil, List.cons_append]
        refine List.cons_prefix_cons.mpr ⟨rfl, ?_⟩
        exact (List.take_prefix limit rest).trans (List.prefix_append rest all)
    · have hle : rest.length ≤ limit := by omega
      rw [List.take_of_length_le hle]
      exact Or.inr ⟨by omega, j, .piece hd hy, hend⟩

/-- What is read before the limit is reached is all that the reader delivers. -/
theorem deliversFrom_of_readFrom {limit : Nat} (h : r.readFrom k limit = .ok data)
    (hlt : data.length < limit) : r.DeliversFrom k data := by
  rw [readFrom_eq_gatherFrom] at h
  rcases r.gatherFrom_cases k limit with ⟨hlen, hf, -⟩ | ⟨-, j, hy, ⟨hf, hd⟩ | ⟨cause, hf, -⟩⟩
  · rw [hf] at h
    cases h
    exact absurd hlen (Nat.ne_of_lt hlt)
  · rw [hf] at h
    cases h
    exact deliversFrom_iff.mpr ⟨j, hy, hd⟩
  · rw [hf] at h
    cases h

/-- A reader has as many bytes as the limit, or it fails or ends before. -/
theorem begins_or_stops (r : Reader) (limit : Nat) :
    (∃ data, r.Begins data ∧ data.length = limit) ∨
    (∃ data cause, r.FailsAfter data cause ∧ data.length < limit) ∨
    (∃ data, r.Delivers data ∧ data.length < limit) := by
  rcases r.gatherFrom_cases 0 limit with
    ⟨hlen, -, j, all, hy, hp⟩ | ⟨hlt, j, hy, ⟨-, hd⟩ | ⟨cause, -, hd⟩⟩
  · exact Or.inl ⟨_, ⟨j, all, hy, hp⟩, hlen⟩
  · exact Or.inr (Or.inr ⟨_, deliversFrom_iff.mpr ⟨j, hy, hd⟩, hlt⟩)
  · exact Or.inr (Or.inl ⟨_, cause, ⟨j, hy, hd⟩, hlt⟩)

theorem gatherFrom_of_begins {limit : Nat} (h : r.Begins data) (hl : limit ≤ data.length) :
    r.gatherFrom 0 limit = (data.take limit, none) := by
  obtain ⟨j, _, hy, more, rfl⟩ := h
  have hzero : limit - (data ++ more).length = 0 := by
    rw [List.length_append]
    omega
  rw [gatherFrom_of_yields hy, hzero, gatherFrom, List.append_nil,
    List.take_append_of_le_length hl]

/-- A reader that stops before the limit is read to where it stops. -/
theorem gatherFrom_of_stops {j limit : Nat} (hy : r.Yields 0 j data) (hl : data.length < limit) :
    (r.delivery j = .finished → r.gatherFrom 0 limit = (data, none)) ∧
    (∀ cause, r.delivery j = .failed cause → r.gatherFrom 0 limit = (data, some cause)) := by
  obtain ⟨left, hleft⟩ : ∃ left, limit - data.length = left + 1 :=
    ⟨limit - data.length - 1, by omega⟩
  rw [gatherFrom_of_yields hy, List.take_of_length_le (Nat.le_of_lt hl), hleft]
  constructor
  · intro hd
    rw [gatherFrom, hd, List.append_nil]
  · intro cause hd
    rw [gatherFrom, hd, List.append_nil]

theorem Yields.trans {i j : Nat} {more : List UInt8} (h : r.Yields i j data)
    (hmore : r.Yields j k more) : r.Yields i k (data ++ more) := by
  induction h with
  | nothing => exact hmore
  | piece hd _ ih =>
    rw [List.append_assoc]
    exact .piece hd (ih hmore)

/-- Pieces that do not stop come to any number of bytes. -/
theorem yields_of_unending (h : ∀ i, ∃ b rest, r.delivery (k + i) = .piece b rest) (n : Nat) :
    ∃ j data, r.Yields k j data ∧ n ≤ data.length := by
  induction n generalizing k with
  | zero => exact ⟨k, [], .nothing, Nat.le_refl 0⟩
  | succ n ih =>
    obtain ⟨b, rest, hd⟩ := h 0
    obtain ⟨j, more, hy, hn⟩ := ih (k := k + 1) fun i => by
      rw [Nat.add_assoc, Nat.add_comm 1 i]
      exact h (i + 1)
    refine ⟨j, _, .piece hd hy, ?_⟩
    simp only [List.cons_append, List.length_cons, List.length_append]
    omega

theorem Endless.begins (h : r.Endless) (n : Nat) : ∃ data, r.Begins data ∧ n ≤ data.length := by
  obtain ⟨j, data, hy, hn⟩ := yields_of_unending (k := 0) (fun i => h (0 + i)) n
  exact ⟨data, ⟨j, data, hy, List.prefix_refl data⟩, hn⟩

/-- No more is taken than the limit, and what is taken are the first bytes that are delivered. -/
theorem taken_cases (r : Reader) (limit : Nat) :
    (r.taken limit).length ≤ limit ∧ r.Begins (r.taken limit) ∧
    (r.read limit = .ok (r.taken limit) ∨
      ∃ cause, r.read limit = .error cause ∧ r.FailsAfter (r.taken limit) cause) := by
  rw [read, readFrom_eq_gatherFrom, taken]
  rcases r.gatherFrom_cases 0 limit with
    ⟨hlen, hf, j, all, hy, hp⟩ | ⟨hlt, j, hy, ⟨hf, -⟩ | ⟨cause, hf, hd⟩⟩
  · rw [hf]
    exact ⟨Nat.le_of_eq hlen, ⟨j, all, hy, hp⟩, Or.inl rfl⟩
  · rw [hf]
    exact ⟨Nat.le_of_lt hlt, ⟨j, _, hy, List.prefix_refl _⟩, Or.inl rfl⟩
  · rw [hf]
    exact ⟨Nat.le_of_lt hlt, ⟨j, _, hy, List.prefix_refl _⟩, Or.inr ⟨cause, rfl, j, hy, hd⟩⟩

/-- Deliveries that are the pieces of a list, none of them empty. -/
theorem yields_of_pieces {pieces : List (List UInt8)} (hp : ∀ p ∈ pieces, p ≠ [])
    (hd : ∀ i b rest, pieces[i]? = some (b :: rest) → r.delivery (k + i) = .piece b rest) :
    r.Yields k (k + pieces.length) pieces.flatten := by
  induction pieces generalizing k with
  | nil => exact .nothing
  | cons p pieces ih =>
    cases p with
    | nil => exact absurd rfl (hp [] List.mem_cons_self)
    | cons b rest =>
      have hrest : r.Yields (k + 1) (k + 1 + pieces.length) pieces.flatten := by
        refine ih (fun q hq => hp q (List.mem_cons_of_mem _ hq)) fun i c more hi => ?_
        rw [Nat.add_assoc, Nat.add_comm 1 i]
        exact hd (i + 1) c more hi
      rw [List.length_cons, Nat.add_comm pieces.length 1, ← Nat.add_assoc]
      exact .piece (hd 0 b rest rfl) hrest

theorem yields_ofPieces (pieces : List (List UInt8)) (last : Delivery) :
    ∃ j, (ofPieces pieces last).Yields 0 j pieces.flatten ∧
      ∀ i, (ofPieces pieces last).delivery (j + i) = last := by
  have hp : ∀ p ∈ pieces.filter (!·.isEmpty), p ≠ [] := by
    intro p hp
    simpa using (List.mem_filter.mp hp).2
  have hy : (ofPieces pieces last).Yields 0 (0 + (pieces.filter (!·.isEmpty)).length)
      (pieces.filter (!·.isEmpty)).flatten := by
    refine yields_of_pieces hp fun i b rest hi => ?_
    rw [Nat.zero_add]
    simp only [ofPieces, hi]
  rw [List.flatten_filter_not_isEmpty] at hy
  refine ⟨_, hy, fun i => ?_⟩
  have hnone : (pieces.filter (!·.isEmpty))[0 + (pieces.filter (!·.isEmpty)).length + i]? = none :=
    List.getElem?_eq_none (by omega)
  simp only [ofPieces, hnone]

end Reader

end Chip8

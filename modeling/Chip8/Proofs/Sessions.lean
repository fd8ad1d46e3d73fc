import Chip8.Host.Session
import Chip8.Proofs.Writes

/-!
What a session goes through (`Session.Reaches`): from one cycle to the next as long as its limit is
not reached and the machine does not fault. The machine of a session is only ever cycled and the
tally only ever counts, so where a session is after some cycles is known from the machine that it
starts with. Where it ends (`Session.run_cases`) it has reached its limit or a fault.
-/

namespace Chip8

namespace Machine

variable {σ : Type} [ByteSource σ]

/-- The first `n` cycles succeed. -/
def Lasts (m : Machine σ) (n : Nat) : Prop := ∀ k < n, (m.after k).cycle.answer.isOk = true

/-- The number of the first `n` cycles after which a redraw is requested. -/
def redraws (m : Machine σ) (n : Nat) : Nat :=
  (List.range n).countP fun k => (m.after (k + 1)).state.screen.redraw

theorem lasts_succ (m : Machine σ) (n : Nat) :
    m.Lasts (n + 1) ↔ m.cycle.answer.isOk = true ∧ m.cycle.machine.Lasts n := by
  constructor
  · intro h
    exact ⟨h 0 (Nat.zero_lt_succ n), fun k hk => h (k + 1) (Nat.succ_lt_succ hk)⟩
  · rintro ⟨h, hrest⟩ k hk
    cases k with
    | zero => exact h
    | succ k => exact hrest k (Nat.lt_of_succ_lt_succ hk)

theorem redraws_succ (m : Machine σ) (n : Nat) :
    m.redraws (n + 1) = m.cycle.machine.state.screen.redraw.toNat + m.cycle.machine.redraws n := by
  have hshift : (List.range n).countP (fun k => (m.after (k + 1 + 1)).state.screen.redraw) =
      m.cycle.machine.redraws n := rfl
  rw [redraws, List.range_succ_eq_map, List.countP_cons, List.countP_map]
  simp only [Function.comp_def, hshift]
  change _ + (if m.cycle.machine.state.screen.redraw = true then 1 else 0) = _
  cases m.cycle.machine.state.screen.redraw with
  | true => exact Nat.add_comm _ _
  | false => exact Nat.add_comm _ _

end Machine

namespace Host.Session

variable {σ : Type} {options : Options}

theorem atLimit_of_cycles {N : UInt64} {s : Session σ} (h : options.cycles = some N) :
    s.atLimit options = true ↔ N.toNat ≤ s.tally.cycles := by
  simp [atLimit, h]

theorem atLimit_eq_false_iff {s : Session σ} :
    s.atLimit options = false ↔ ∀ N, options.cycles = some N → s.tally.cycles < N.toNat := by
  cases h : options.cycles with
  | none => simp [atLimit, h]
  | some N => simp [atLimit, h]

theorem machine_not_mem {e : Entry} (he : ∀ notice, e ≠ .machine notice) (notices : List Notice) :
    e ∉ notices.map Entry.machine := by
  intro h
  obtain ⟨notice, -, hn⟩ := List.mem_map.mp h
  exact he notice hn.symm

/-- Nothing in the log sums a session up. -/
def Unsummed (log : List Entry) : Prop := ∀ cycles redraws, Entry.summary cycles redraws ∉ log

theorem Unsummed.append {log more : List Entry} (h : Unsummed log) (hmore : Unsummed more) :
    Unsummed (log ++ more) := by
  intro cycles redraws he
  exact (List.mem_append.mp he).elim (h cycles redraws) (hmore cycles redraws)

theorem unsummed_machine (notices : List Notice) : Unsummed (notices.map .machine) :=
  fun _ _ => machine_not_mem (fun _ h => by cases h) notices

theorem unsummed_remarks (s : Session σ) (r : Report) : Unsummed (s.remarks r) := by
  intro cycles redraws he
  rcases List.mem_append.mp he with he | he
  · split at he
    · cases List.mem_singleton.mp he
    · cases he
  · split at he
    · cases List.mem_singleton.mp he
    · cases he

/-- What may be logged before the first cycle: what loading says, and the characters that stand for
no key. -/
def OfStart : Entry → Prop
  | .machine _ => True
  | .unmapped _ => True
  | _ => False

section Start

variable {reader : Reader} {source : σ}

/-- The machine of a session once its rom is loaded and its keys are held. -/
def ready (options : Options) (reader : Reader) (source : σ) : Machine σ :=
  (holdKeys ((Machine.new source).loadFrom reader).machine options.keys.toList).1

theorem start_of_refused {e : LoadError}
    (h : ((Machine.new source).loadFrom reader).answer = .error e) :
    start options (.ok reader) source = (.error (.cannotLoad options.rom e), []) := by
  rcases (Machine.new source).loadFrom_cases reader with ⟨_, _, -, -, hl⟩ | ⟨f, hl⟩
  · rw [hl] at h
    cases h
  · rw [hl] at h
    cases h
    simp only [start, hl, List.map_nil]

theorem ofStart_of_holdKeys {m : Machine σ} {cs : List Char} {e : Entry}
    (h : e ∈ (holdKeys m cs).2) : OfStart e := by
  induction cs generalizing m with
  | nil => cases h
  | cons c rest ih =>
    simp only [holdKeys] at h
    split at h
    · exact ih h
    · rcases List.mem_cons.mp h with rfl | h
      · trivial
      · exact ih h

theorem start_of_loaded (options : Options)
    (h : ((Machine.new source).loadFrom reader).answer = .ok ()) :
    ∃ log, start options (.ok reader) source =
        (.ok ⟨ready options reader source, .zero, false⟩, log) ∧ ∀ e ∈ log, OfStart e := by
  refine ⟨((Machine.new source).loadFrom reader).notices.map .machine ++
    (holdKeys ((Machine.new source).loadFrom reader).machine options.keys.toList).2, ?_, ?_⟩
  · simp only [start, h]
    rfl
  · intro e he
    rcases List.mem_append.mp he with he | he
    · obtain ⟨notice, -, rfl⟩ := List.mem_map.mp he
      trivial
    · exact ofStart_of_holdKeys he

theorem start_cases (options : Options) (opened : Except String Reader) (source : σ) :
    (∃ failure, start options opened source = (.error failure, [])) ∨
    ∃ reader log, opened = .ok reader ∧
      start options opened source = (.ok ⟨ready options reader source, .zero, false⟩, log) ∧
      ∀ e ∈ log, OfStart e := by
  cases opened with
  | error cause => exact Or.inl ⟨_, rfl⟩
  | ok reader =>
    cases h : ((Machine.new source).loadFrom reader).answer with
    | error e => exact Or.inl ⟨_, start_of_refused h⟩
    | ok _ =>
      obtain ⟨log, hs, he⟩ := start_of_loaded options h
      exact Or.inr ⟨reader, log, rfl, hs, he⟩

end Start

variable [ByteSource σ]

/-- `n` cycles take session `s` to session `t`, and it logs `log` on the way. -/
inductive Reaches (options : Options) : Session σ → Nat → Session σ → List Entry → Prop where
  | refl (s) : Reaches options s 0 s []
  | next {s u t n first rest} : s.atLimit options = false → s.step = (.ok u, first) →
      Reaches options u n t rest → Reaches options s (n + 1) t (first ++ rest)

/-- The session after a cycle with the report `r`. -/
def reported (s : Session σ) (r : Report) : Session σ :=
  ⟨s.machine.cycle.machine, s.tally.add r s.machine.cycle.machine.state.screen.redraw,
    r.awaitingKey⟩

theorem step_of_ok {s : Session σ} {r : Report} (h : s.machine.cycle.answer = .ok r) :
    s.step = (.ok (s.reported r), s.machine.cycle.notices.map .machine ++ s.remarks r) := by
  simp only [step, h]
  rfl

theorem step_of_error {s : Session σ} {f : Fault} (h : s.machine.cycle.answer = .error f) :
    s.step = (.error (.halted s.tally.cycles f), s.machine.cycle.notices.map .machine) := by
  simp only [step, h]

theorem step_eq_ok_iff {s u : Session σ} {first : List Entry} :
    s.step = (.ok u, first) ↔ ∃ r, s.machine.cycle.answer = .ok r ∧ u = s.reported r ∧
      first = s.machine.cycle.notices.map .machine ++ s.remarks r := by
  cases h : s.machine.cycle.answer with
  | ok r =>
    rw [step_of_ok h]
    constructor
    · intro he
      cases he
      exact ⟨r, rfl, rfl, rfl⟩
    · rintro ⟨r', hr, rfl, rfl⟩
      cases hr
      rfl
  | error f =>
    rw [step_of_error h]
    constructor
    · intro he
      cases he
    · rintro ⟨r', hr, -⟩
      cases hr

namespace Reaches

variable {s t : Session σ} {n : Nat} {log : List Entry}

theorem machine_eq (h : Reaches options s n t log) : t.machine = s.machine.after n := by
  induction h with
  | refl s => rfl
  | next _ hs _ ih =>
    obtain ⟨r, -, rfl, -⟩ := step_eq_ok_iff.mp hs
    rw [ih, Machine.after_succ]
    rfl

theorem cycles_eq (h : Reaches options s n t log) : t.tally.cycles = s.tally.cycles + n := by
  induction h with
  | refl s => rfl
  | next _ hs _ ih =>
    obtain ⟨r, -, rfl, -⟩ := step_eq_ok_iff.mp hs
    rw [ih]
    simp only [reported, Tally.add]
    omega

theorem redraws_eq (h : Reaches options s n t log) :
    t.tally.redraws = s.tally.redraws + s.machine.redraws n := by
  induction h with
  | refl s => rfl
  | next _ hs _ ih =>
    obtain ⟨r, -, rfl, -⟩ := step_eq_ok_iff.mp hs
    rw [ih, Machine.redraws_succ]
    simp only [reported, Tally.add]
    omega

theorem unique {u : Session σ} {other : List Entry} (h : Reaches options s n t log)
    (h' : Reaches options s n u other) : t = u ∧ log = other := by
  induction h generalizing u other with
  | refl s =>
    cases h' with
    | refl => exact ⟨rfl, rfl⟩
  | next _ hs _ ih =>
    cases h' with
    | next _ hs' h' =>
      cases hs.symm.trans hs'
      obtain ⟨ht, hlog⟩ := ih h'
      exact ⟨ht, congrArg _ hlog⟩

/-- What is reached is reached by way of everything before it. -/
theorem split {a b : Nat} (h : Reaches options s (a + b) t log) :
    ∃ u first rest, Reaches options s a u first ∧ Reaches options u b t rest ∧
      log = first ++ rest := by
  induction a generalizing s log with
  | zero =>
    rw [Nat.zero_add] at h
    exact ⟨s, [], log, .refl s, h, rfl⟩
  | succ a ih =>
    rw [Nat.succ_add] at h
    cases h with
    | next hl hs h =>
      obtain ⟨u, first, rest, hu, ht, rfl⟩ := ih h
      exact ⟨u, _, rest, .next hl hs hu, ht, (List.append_assoc ..).symm⟩

end Reaches

/-- A limit that is kept at the start is never passed. -/
theorem Reaches.cycles_le {s t : Session σ} {n : Nat} {log : List Entry} {N : UInt64}
    (h : Reaches options s n t log) (hN : options.cycles = some N)
    (hs : s.tally.cycles ≤ N.toNat) : t.tally.cycles ≤ N.toNat := by
  induction h with
  | refl s => exact hs
  | next hl hstep _ ih =>
    obtain ⟨r, -, rfl, -⟩ := step_eq_ok_iff.mp hstep
    exact ih (atLimit_eq_false_iff.mp hl N hN)

/-- As many cycles as succeed and the limit allows are gone through. -/
theorem exists_reaches {s : Session σ} {n : Nat} (h : s.machine.Lasts n)
    (hl : ∀ N, options.cycles = some N → s.tally.cycles + n ≤ N.toNat) :
    ∃ t log, Reaches options s n t log := by
  induction n generalizing s with
  | zero => exact ⟨s, [], .refl s⟩
  | succ n ih =>
    obtain ⟨hok, hrest⟩ := (Machine.lasts_succ ..).mp h
    obtain ⟨r, hr⟩ := Machine.ok_of_isOk hok
    have hlimit : s.atLimit options = false := by
      refine atLimit_eq_false_iff.mpr fun N hN => ?_
      have := hl N hN
      omega
    have hnext (N : UInt64) (hN : options.cycles = some N) :
        (s.reported r).tally.cycles + n ≤ N.toNat := by
      have := hl N hN
      simp only [reported, Tally.add]
      omega
    obtain ⟨t, rest, ht⟩ := ih (s := s.reported r) hrest hnext
    exact ⟨t, _, .next hlimit (step_of_ok hr) ht⟩

section Fuel

variable {s t u : Session σ} {n : Nat} {first more : List Entry}

theorem runFrom_of_atLimit (h : s.atLimit options = true) (log : Array Entry) (fuel : Nat) :
    runFrom options s log fuel = some ⟨.ok (s.printed options), log.toList ++ [s.summary]⟩ := by
  unfold runFrom
  rw [if_pos h, Array.toList_push]

theorem runFrom_zero (h : s.atLimit options = false) (log : Array Entry) :
    runFrom options s log 0 = none := by
  unfold runFrom
  rw [if_neg (Bool.eq_false_iff.mp h)]

theorem runFrom_of_fault {f : Fault} (h : s.atLimit options = false)
    (hf : s.machine.cycle.answer = .error f) (log : Array Entry) (fuel : Nat) :
    runFrom options s log (fuel + 1) = some ⟨.error (.halted s.tally.cycles f),
      log.toList ++ s.machine.cycle.notices.map .machine⟩ := by
  unfold runFrom
  simp only [h, Bool.false_eq_true, if_false, step_of_error hf, Array.toList_appendList]

theorem runFrom_of_step (h : s.atLimit options = false) (hs : s.step = (.ok u, first))
    (log : Array Entry) (fuel : Nat) :
    runFrom options s log (fuel + 1) = runFrom options u (log ++ first) fuel := by
  conv => lhs; unfold runFrom
  simp only [h, Bool.false_eq_true, if_false, hs]

theorem append_append_list (log : Array Entry) (first rest : List Entry) :
    log ++ first ++ rest = log ++ (first ++ rest) :=
  Array.ext' (by simp)

/-- A session that goes through some cycles needs fuel for each of them, and then goes on. -/
theorem Reaches.runFrom_add (h : Reaches options s n t more) (log : Array Entry) (fuel : Nat) :
    runFrom options s log (fuel + n) = runFrom options t (log ++ more) fuel := by
  induction h generalizing log with
  | refl s => rw [Array.appendList_nil, Nat.add_zero]
  | next hl hs _ ih =>
    rw [← Nat.add_assoc, runFrom_of_step hl hs, ih, append_append_list]

theorem Reaches.runFrom_of_lt (h : Reaches options s n t more) (log : Array Entry) {fuel : Nat}
    (hf : fuel < n) : runFrom options s log fuel = none := by
  induction h generalizing log fuel with
  | refl s => exact absurd hf (Nat.not_lt_zero fuel)
  | next hl hs _ ih =>
    cases fuel with
    | zero => exact runFrom_zero hl log
    | succ fuel =>
      rw [runFrom_of_step hl hs]
      exact ih _ (Nat.lt_of_succ_lt_succ hf)

/-- A session that ends has gone through some cycles and then reached its limit or met a fault. -/
theorem runFrom_cases {log : Array Entry} {fuel : Nat} {o : Outcome}
    (h : runFrom options s log fuel = some o) :
    ∃ n t more, Reaches options s n t more ∧
      (t.atLimit options = true ∧
        o = ⟨.ok (t.printed options), log.toList ++ more ++ [t.summary]⟩ ∨
      t.atLimit options = false ∧ ∃ f, t.machine.cycle.answer = .error f ∧
        o = ⟨.error (.halted t.tally.cycles f),
          log.toList ++ more ++ t.machine.cycle.notices.map .machine⟩) := by
  fun_induction runFrom options s log fuel with
  | case1 fuel s log hl =>
    cases h
    exact ⟨0, s, [], .refl s, Or.inl ⟨hl, by rw [Array.toList_push, List.append_nil]⟩⟩
  | case2 s log hl => cases h
  | case3 s log hl fuel failure first hs =>
    cases h
    cases hr : s.machine.cycle.answer with
    | error f =>
      cases (step_of_error hr).symm.trans hs
      refine ⟨0, s, [], .refl s, Or.inr ⟨Bool.eq_false_iff.mpr hl, f, hr, ?_⟩⟩
      rw [Array.toList_appendList, List.append_nil]
    | ok r => cases (step_of_ok hr).symm.trans hs
  | case4 s log hl fuel u first hs ih =>
    obtain ⟨n, t, more, ht, hend⟩ := ih h
    refine ⟨n + 1, t, _, .next (Bool.eq_false_iff.mpr hl) hs ht, ?_⟩
    simp only [Array.toList_appendList, List.append_assoc] at hend ⊢
    exact hend

end Fuel

theorem Reaches.unsummed {s t : Session σ} {n : Nat} {log : List Entry}
    (h : Reaches options s n t log) : Unsummed log := by
  induction h with
  | refl s => exact fun _ _ he => by cases he
  | next _ hs _ ih =>
    obtain ⟨r, -, rfl, rfl⟩ := step_eq_ok_iff.mp hs
    exact ((unsummed_machine _).append (unsummed_remarks _ r)).append ih

section Execution

variable {opened : Except String Reader} {source : σ}

/-- The execution of a session has run for `n` cycles, is at `s` and has logged `log`. -/
def Reached (options : Options) (opened : Except String Reader) (source : σ) (n : Nat)
    (s : Session σ) (log : List Entry) : Prop :=
  ∃ first before more, start options opened source = (.ok first, before) ∧
    Reaches options first n s more ∧ log = before ++ more

section Reached

variable {k n : Nat} {s t : Session σ} {before log : List Entry}

theorem Reached.unique (h : Reached options opened source n s before)
    (h' : Reached options opened source n t log) : s = t ∧ before = log := by
  obtain ⟨first, start, more, hs, hr, rfl⟩ := h
  obtain ⟨first', start', more', hs', hr', rfl⟩ := h'
  cases hs.symm.trans hs'
  obtain ⟨rfl, rfl⟩ := hr.unique hr'
  exact ⟨rfl, rfl⟩

theorem Reached.split (h : Reached options opened source n t log) (hk : k ≤ n) :
    ∃ u first rest, Reached options opened source k u first ∧
      Reaches options u (n - k) t rest ∧ log = first ++ rest := by
  obtain ⟨s, start, more, hs, hr, rfl⟩ := h
  obtain ⟨d, rfl⟩ := Nat.exists_eq_add_of_le hk
  obtain ⟨u, first, rest, hu, ht, rfl⟩ := hr.split
  rw [Nat.add_sub_cancel_left]
  exact ⟨u, start ++ first, rest, ⟨s, start, first, hs, hu, rfl⟩, ht,
    (List.append_assoc ..).symm⟩

theorem Reached.reaches (hs : Reached options opened source k s before)
    (ht : Reached options opened source n t log) (hk : k ≤ n) :
    ∃ rest, Reaches options s (n - k) t rest ∧ log = before ++ rest := by
  obtain ⟨u, first, rest, hu, hr, hlog⟩ := ht.split hk
  obtain ⟨rfl, rfl⟩ := hs.unique hu
  exact ⟨rest, hr, hlog⟩

/-- A session that gets further has not reached its limit and does not fault. -/
theorem Reached.goes_on (hs : Reached options opened source k s before)
    (ht : Reached options opened source n t log) (hk : k < n) :
    s.atLimit options = false ∧ s.machine.cycle.answer.isOk = true := by
  obtain ⟨rest, hr, -⟩ := hs.reaches ht (Nat.le_of_lt hk)
  obtain ⟨d, hd⟩ : ∃ d, n - k = d + 1 := ⟨n - k - 1, by omega⟩
  rw [hd] at hr
  cases hr with
  | next hl hstep _ =>
    obtain ⟨r, hanswer, -, -⟩ := step_eq_ok_iff.mp hstep
    exact ⟨hl, by rw [hanswer]; rfl⟩

/-- An execution starts at the machine with its rom and its keys, and has not waited yet. -/
theorem Reached.of_ready (h : Reached options opened source n t log) :
    ∃ reader before more,
      start options opened source = (.ok ⟨ready options reader source, .zero, false⟩, before) ∧
      (∀ e ∈ before, OfStart e) ∧
      Reaches options ⟨ready options reader source, .zero, false⟩ n t more ∧
      log = before ++ more := by
  obtain ⟨s, before, more, hs, hr, hlog⟩ := h
  rcases start_cases options opened source with ⟨failure, hf⟩ | ⟨reader, begun, -, hok, hbegun⟩
  · cases hs.symm.trans hf
  · cases hs.symm.trans hok
    exact ⟨reader, before, more, hs, hbegun, hr, hlog⟩

theorem Reached.cycles_eq (h : Reached options opened source n t log) : t.tally.cycles = n := by
  obtain ⟨reader, before, more, -, -, hr, -⟩ := h.of_ready
  exact hr.cycles_eq.trans (Nat.zero_add n)

/-- A session that reaches its limit has just gone through so many cycles. -/
theorem Reached.eq_limit (h : Reached options opened source n t log)
    (hl : t.atLimit options = true) : ∃ N, options.cycles = some N ∧ n = N.toNat := by
  cases hN : options.cycles with
  | none =>
    simp [atLimit, hN] at hl
  | some N =>
    refine ⟨N, rfl, Nat.le_antisymm ?_ ?_⟩
    · cases n with
      | zero => exact Nat.zero_le _
      | succ n =>
        obtain ⟨u, first, rest, hu, -, -⟩ := h.split (Nat.le_succ n)
        have hlt := atLimit_eq_false_iff.mp (hu.goes_on h (Nat.lt_succ_self n)).1 N hN
        rw [hu.cycles_eq] at hlt
        exact hlt
    · rw [← h.cycles_eq]
      exact (atLimit_of_cycles hN).mp hl

end Reached

/-- A session that ends never started, or it has reached its limit or a fault. -/
theorem run_cases {fuel : Nat} {o : Outcome} (h : run options opened source fuel = some o) :
    (∃ failure, start options opened source = (.error failure, []) ∧ o = ⟨.error failure, []⟩) ∨
    ∃ n t log, Reached options opened source n t log ∧
      (t.atLimit options = true ∧ o = ⟨.ok (t.printed options), log ++ [t.summary]⟩ ∨
      t.atLimit options = false ∧ ∃ f, t.machine.cycle.answer = .error f ∧
        o = ⟨.error (.halted t.tally.cycles f), log ++ t.machine.cycle.notices.map .machine⟩) := by
  rcases start_cases options opened source with ⟨failure, hs⟩ | ⟨reader, before, -, hs, -⟩
  · simp only [run, hs, Option.some.injEq] at h
    exact Or.inl ⟨failure, hs, h.symm⟩
  · simp only [run, hs] at h
    obtain ⟨n, t, more, ht, hend⟩ := runFrom_cases h
    rw [List.toList_toArray] at hend
    exact Or.inr ⟨n, t, before ++ more, ⟨_, before, more, hs, ht, rfl⟩, hend⟩

end Execution

end Host.Session

end Chip8

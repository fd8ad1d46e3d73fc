import Chip8.Proofs.Sessions

/-!
What a session accounts for. It fails at the first fault and reports the cycles before it, unless
its limit comes first; then it runs for just as many cycles, sums them up and prints the picture if
it is asked to. A rom that cannot be opened or loaded ends it before all that.
-/

namespace Chip8

namespace Machine

variable {σ : Type} [ByteSource σ]

/-- The first `n` cycles succeed, and the next one faults with `f`. -/
def FaultsAfter (m : Machine σ) (n : Nat) (f : Fault) : Prop :=
  m.Lasts n ∧ (m.after n).cycle.answer = .error f

theorem faultsAfter_zero {m : Machine σ} {f : Fault} :
    m.FaultsAfter 0 f ↔ m.cycle.answer = .error f :=
  and_iff_right fun _ hk => absurd hk (Nat.not_lt_zero _)

theorem faultsAfter_succ {m : Machine σ} {n : Nat} {f : Fault} :
    m.FaultsAfter (n + 1) f ↔
      m.cycle.answer.isOk = true ∧ m.cycle.machine.FaultsAfter n f := by
  rw [FaultsAfter, lasts_succ, and_assoc]
  rfl

theorem redraws_le (m : Machine σ) (n : Nat) : m.redraws n ≤ n := by
  have h : m.redraws n ≤ (List.range n).length := List.countP_le_length
  rw [List.length_range] at h
  exact h

end Machine

namespace Host.Session

variable {σ : Type} [ByteSource σ] {options : Options}

section Loop

variable {s : Session σ} {k : Nat}

/-- A session whose machine faults before the limit is reached fails at the fault. -/
theorem runFrom_of_faultsAfter {f : Fault} (h : s.machine.FaultsAfter k f)
    (hl : ∀ N, options.cycles = some N → s.tally.cycles + k < N.toNat) :
    ∃ more, Unsummed more ∧ ∀ log fuel, runFrom options s log fuel = if k < fuel then
      some ⟨.error (.halted (s.tally.cycles + k) f), log.toList ++ more⟩ else none := by
  obtain ⟨t, more, ht⟩ : ∃ t more, Reaches options s k t more :=
    exists_reaches h.1 fun N hN => Nat.le_of_lt (hl N hN)
  have hf : t.machine.cycle.answer = .error f := by
    rw [ht.machine_eq]
    exact h.2
  have hlimit : t.atLimit options = false := by
    refine atLimit_eq_false_iff.mpr fun N hN => ?_
    rw [ht.cycles_eq]
    exact hl N hN
  refine ⟨_, ht.unsummed.append (unsummed_machine t.machine.cycle.notices), fun log fuel => ?_⟩
  rcases Nat.lt_trichotomy fuel k with hlt | rfl | hlt
  · rw [if_neg (by omega), ht.runFrom_of_lt log hlt]
  · have hz := ht.runFrom_add log 0
    rw [Nat.zero_add] at hz
    rw [if_neg (Nat.lt_irrefl _), hz, runFrom_zero hlimit]
  · obtain ⟨d, rfl⟩ : ∃ d, fuel = d + 1 + k := ⟨fuel - (k + 1), by omega⟩
    rw [if_pos hlt, ht.runFrom_add, runFrom_of_fault hlimit hf, ht.cycles_eq,
      Array.toList_appendList, List.append_assoc]

/-- A session whose machine lasts until the limit is reached ends there. -/
theorem runFrom_of_lasts {N : UInt64} (h : s.machine.Lasts k) (hN : options.cycles = some N)
    (hk : s.tally.cycles + k = N.toNat) :
    ∃ more, Unsummed more ∧ ∀ log fuel, runFrom options s log fuel = if k ≤ fuel then
      some ⟨.ok (if options.dump then (s.machine.after k).state.screen.text ++ "\n" else ""),
        log.toList ++ more ++ [.summary N.toNat (s.tally.redraws + s.machine.redraws k)]⟩
      else none := by
  obtain ⟨t, more, ht⟩ : ∃ t more, Reaches options s k t more := by
    refine exists_reaches h fun M hM => ?_
    cases hN.symm.trans hM
    exact Nat.le_of_eq hk
  have hlimit : t.atLimit options = true := by
    refine (atLimit_of_cycles hN).mpr (Nat.le_of_eq ?_)
    rw [ht.cycles_eq, hk]
  refine ⟨more, ht.unsummed, fun log fuel => ?_⟩
  rcases Nat.lt_or_ge fuel k with hlt | hle
  · rw [if_neg (by omega), ht.runFrom_of_lt log hlt]
  · obtain ⟨d, rfl⟩ : ∃ d, fuel = d + k := ⟨fuel - k, by omega⟩
    rw [if_pos hle, ht.runFrom_add, runFrom_of_atLimit hlimit, summary, printed, ht.cycles_eq, hk,
      ht.redraws_eq, ht.machine_eq, Array.toList_appendList]

theorem runFrom_of_endless (h : ∀ n, s.machine.Lasts n) (hN : options.cycles = none)
    (log : Array Entry) (fuel : Nat) : runFrom options s log fuel = none := by
  obtain ⟨t, more, ht⟩ : ∃ t more, Reaches options s (fuel + 1) t more := by
    refine exists_reaches (h _) fun N h' => ?_
    cases hN.symm.trans h'
  exact ht.runFrom_of_lt log (Nat.lt_succ_self fuel)

end Loop

section Loaded

variable {reader : Reader} {source : σ}

/-- A session that has its rom runs as its loop does from the first cycle on. -/
theorem run_of_loaded (options : Options)
    (h : ((Machine.new source).loadFrom reader).answer = .ok ()) :
    ∃ before, Unsummed before ∧ ∀ fuel, run options (.ok reader) source fuel =
      runFrom options ⟨ready options reader source, .zero, false⟩ before.toArray fuel := by
  obtain ⟨before, hstart, hbefore⟩ := start_of_loaded options h
  exact ⟨before, fun _ _ he => hbefore _ he, fun fuel => by simp only [run, hstart]⟩

theorem run_of_faultsAfter {k : Nat} {f : Fault}
    (h : ((Machine.new source).loadFrom reader).answer = .ok ())
    (hf : (ready options reader source).FaultsAfter k f)
    (hl : ∀ N, options.cycles = some N → k < N.toNat) :
    ∃ log, Unsummed log ∧ ∀ fuel, run options (.ok reader) source fuel =
      if k < fuel then some ⟨.error (.halted k f), log⟩ else none := by
  obtain ⟨before, hbefore, hrun⟩ := run_of_loaded options h
  have hk : Tally.zero.cycles + k = k := Nat.zero_add k
  obtain ⟨more, hmore, hloop⟩ := runFrom_of_faultsAfter
    (s := ⟨ready options reader source, .zero, false⟩) hf fun N hN => hk.symm ▸ hl N hN
  refine ⟨before ++ more, hbefore.append hmore, fun fuel => ?_⟩
  rw [hrun, hloop, hk, List.toList_toArray]

theorem run_of_lasts {N : UInt64} (h : ((Machine.new source).loadFrom reader).answer = .ok ())
    (hN : options.cycles = some N) (hlasts : (ready options reader source).Lasts N.toNat) :
    ∃ log, Unsummed log ∧ ∀ fuel, run options (.ok reader) source fuel =
      if N.toNat ≤ fuel then some
        ⟨.ok (if options.dump then
            ((ready options reader source).after N.toNat).state.screen.text ++ "\n" else ""),
          log ++ [.summary N.toNat ((ready options reader source).redraws N.toNat)]⟩
      else none := by
  obtain ⟨before, hbefore, hrun⟩ := run_of_loaded options h
  have hr (n : Nat) : Tally.zero.redraws + n = n := Nat.zero_add n
  obtain ⟨more, hmore, hloop⟩ := runFrom_of_lasts
    (s := ⟨ready options reader source, .zero, false⟩) hlasts hN (Nat.zero_add _)
  refine ⟨before ++ more, hbefore.append hmore, fun fuel => ?_⟩
  rw [hrun, hloop, hr, List.toList_toArray]

end Loaded

/-- A session is accounted for by how its rom is opened and loaded, by the machine `m` that it then
has, with the keys held, and by its limit. If the rom cannot be had, no fuel is needed and nothing
is logged. If `m` faults after `k` cycles and the limit is greater, or there is none, the session
needs more fuel than that many cycles and fails with the fault and `k`, printing and summing up
nothing. If `m` lasts for the `N` cycles of the limit, these are run and no more, the last thing
logged is the sum of them and of the redraws among them, and what is printed is the picture after
them, if any. Neither count exceeds the limit on the way. -/
theorem session_accounts (options : Options) (opened : Except String Reader) (source : σ) :
    (∀ cause, opened = .error cause → ∀ fuel, run options opened source fuel =
      some ⟨.error (.cannotOpen options.rom cause), []⟩) ∧
    (∀ reader e, opened = .ok reader → ((Machine.new source).loadFrom reader).answer = .error e →
      ∀ fuel, run options opened source fuel =
        some ⟨.error (.cannotLoad options.rom e), []⟩) ∧
    (∀ reader m, opened = .ok reader → ((Machine.new source).loadFrom reader).answer = .ok () →
      m = ready options reader source →
      (∀ k f, m.FaultsAfter k f → (∀ N, options.cycles = some N → k < N.toNat) →
        ∃ log, Unsummed log ∧ ∀ fuel, run options opened source fuel =
          if k < fuel then some ⟨.error (.halted k f), log⟩ else none) ∧
      (∀ N, options.cycles = some N → m.Lasts N.toNat →
        ∃ log, Unsummed log ∧ ∀ fuel, run options opened source fuel =
          if N.toNat ≤ fuel then some
            ⟨.ok (if options.dump then (m.after N.toNat).state.screen.text ++ "\n" else ""),
              log ++ [.summary N.toNat (m.redraws N.toNat)]⟩
          else none) ∧
      (options.cycles = none → (∀ n, m.Lasts n) → ∀ fuel, run options opened source fuel = none) ∧
      (∀ N n t log, options.cycles = some N → Reaches options ⟨m, .zero, false⟩ n t log →
        t.tally.cycles = n ∧ t.tally.cycles ≤ N.toNat ∧ t.tally.redraws ≤ N.toNat)) ∧
    (∀ k f, (Failure.halted k f).chain = [s!"machine halted after {k} cycles", f.message]) ∧
    (∀ failure log, (Outcome.mk (.error failure) log).printed = "") := by
  refine ⟨?_, ?_, ?_, fun k f => rfl, fun failure log => rfl⟩
  · rintro cause rfl fuel
    rfl
  · rintro reader e rfl he fuel
    simp only [run, start_of_refused he]
  · rintro reader m rfl hload rfl
    refine ⟨fun k f hf hl => run_of_faultsAfter hload hf hl,
      fun N hN hlasts => run_of_lasts hload hN hlasts, ?_, ?_⟩
    · intro hN hendless fuel
      obtain ⟨before, -, hrun⟩ := run_of_loaded options hload
      rw [hrun]
      exact runFrom_of_endless hendless hN _ fuel
    · intro N n t log hN ht
      have hc : t.tally.cycles = n := ht.cycles_eq.trans (Nat.zero_add n)
      have hle := ht.cycles_le hN (Nat.zero_le _)
      have hr : t.tally.redraws = (ready options reader source).redraws n :=
        ht.redraws_eq.trans (Nat.zero_add _)
      refine ⟨hc, hle, ?_⟩
      rw [hr]
      exact Nat.le_trans (Machine.redraws_le _ n) (hc ▸ hle)

end Host.Session

end Chip8

import Chip8.Proofs.Absorption
import Chip8.Proofs.Loading

/-!
The keys that a text of characters holds down. Each key has one character, up to its case
(`Keypad.exists_keyOf?_iff`). Once a session has started, its keypad is the set of the keys that
some character stands for, so neither order nor repetition nor case of the characters matters
(`Session.keypad_eq_of_sameCharacters`), and the characters that stand for none are in its log
(`Session.warnings_of_start`).
-/

namespace Chip8

namespace Keypad

theorem keyOf?_eq_some_iff (c : Char) (j : Nibble) :
    keyOf? c = some j ↔ (c.toLower, j) ∈ layout := by
  have hown : ∀ p ∈ layout, layout.lookup p.1 = some p.2 := by decide
  constructor
  · intro h
    obtain ⟨before, behind, hl, -⟩ := List.lookup_eq_some_iff.mp h
    rw [hl]
    exact List.mem_append_right _ List.mem_cons_self
  · intro h
    exact hown _ h

theorem toNat_of_toLower_lt {c : Char} (h : c.toLower.toNat < 128) : c.toNat < 128 := by
  unfold Char.toLower at h
  split at h
  · rename_i hupper
    have hle : c.toNat ≤ 'Z'.toNat := hupper.2
    exact Nat.lt_of_le_of_lt hle (by decide)
  · exact h

/-- No character beyond ASCII stands for a key. -/
theorem keyOf?_of_not_ascii {c : Char} (h : 128 ≤ c.toNat) : keyOf? c = none := by
  have hascii : ∀ p ∈ layout, p.1.toNat < 128 := by decide
  cases hc : keyOf? c with
  | none => rfl
  | some j =>
    have hlt := hascii _ ((keyOf?_eq_some_iff c j).mp hc)
    exact absurd (toNat_of_toLower_lt hlt) (Nat.not_lt_of_le h)

/-- Each key has its character, in one case or the other, and no second one. -/
theorem exists_keyOf?_iff (j : Nibble) :
    ∃ c, keyOf? c = some j ∧ ∀ d, keyOf? d = some j ↔ d.toLower = c.toLower := by
  have hlower : ∀ p ∈ layout, p.1.toLower = p.1 := by decide
  have hinj : ∀ p ∈ layout, ∀ q ∈ layout, p.2 = q.2 → p.1 = q.1 := by decide
  obtain ⟨⟨c, i⟩, hc, rfl⟩ := List.mem_map.mp (mem_layout j)
  have hself : c.toLower = c := hlower _ hc
  have hkey : keyOf? c = some i := by
    rw [keyOf?_eq_some_iff, hself]
    exact hc
  refine ⟨c, hkey, fun d => ?_⟩
  constructor
  · intro hd
    rw [keyOf?_eq_some_iff] at hd
    rw [hself]
    exact hinj _ hd _ hc rfl
  · intro hd
    rw [keyOf?_eq_some_iff, hd, hself]
    exact hc

/-- Each character of one text is, in one case or the other, a character of the other text. -/
def SameCharacters (a b : List Char) : Prop :=
  ∀ c, c ∈ a.map Char.toLower ↔ c ∈ b.map Char.toLower

theorem exists_keyOf?_congr {a b : List Char} (h : SameCharacters a b) (j : Nibble) :
    (∃ c ∈ a, keyOf? c = some j) ↔ ∃ c ∈ b, keyOf? c = some j := by
  have hmap (cs : List Char) :
      (∃ c ∈ cs, keyOf? c = some j) ↔ ∃ c ∈ cs.map Char.toLower, (c, j) ∈ layout := by
    simp only [keyOf?_eq_some_iff]
    constructor
    · rintro ⟨c, hc, hl⟩
      exact ⟨c.toLower, List.mem_map_of_mem hc, hl⟩
    · rintro ⟨d, hd, hl⟩
      obtain ⟨c, hc, rfl⟩ := List.mem_map.mp hd
      exact ⟨c, hc, hl⟩
  rw [hmap, hmap]
  exact exists_congr fun c => and_congr_left fun _ => h c

end Keypad

variable {σ : Type}

namespace Machine

theorem keypad_loadFrom (m : Machine σ) (reader : Reader) :
    (m.loadFrom reader).machine.state.keypad = m.state.keypad := by
  rcases m.loadFrom_cases reader with ⟨_, _, -, -, hl⟩ | ⟨_, hl⟩
  · rw [hl]
    rfl
  · rw [hl]

theorem meets_press {m : Machine σ} {key : UInt8} {a b c d : Nibble} :
    (m.press key).state.Meets a b c d ↔ m.state.Meets a b c d := Iff.rfl

end Machine

namespace Host.Session

theorem log_holdKeys (m : Machine σ) (cs : List Char) :
    (holdKeys m cs).2 = (cs.filter (Keypad.keyOf? · = none)).map .unmapped := by
  induction cs generalizing m with
  | nil => rfl
  | cons c rest ih =>
    cases hc : Keypad.keyOf? c with
    | none => simp [holdKeys, hc, ih]
    | some key => simp [holdKeys, hc, ih]

section Start

variable {options : Options} {reader : Reader} {source : σ}

/-- The keys that are held when a session starts are those that its characters stand for. -/
theorem mem_heldKeys_ready (j : Nibble) :
    j ∈ (ready options reader source).state.keypad.heldKeys ↔
      ∃ c ∈ options.keys.toList, Keypad.keyOf? c = some j := by
  have hnone : j ∉ Keypad.released.heldKeys := by
    rw [show Keypad.released.heldKeys = [] by decide]
    exact List.not_mem_nil
  rw [ready, mem_heldKeys_holdKeys, Machine.keypad_loadFrom]
  exact or_iff_left hnone

/-- Loading has nothing to warn of. -/
theorem warnings_loadFrom (m : Machine σ) (reader : Reader) :
    (((m.loadFrom reader).notices.map Entry.machine).map Entry.record).filter (·.level = .warn) =
      [] := by
  rcases m.loadFrom_cases reader with ⟨_, _, -, -, hl⟩ | ⟨_, hl⟩
  · rw [hl]
    rfl
  · rw [hl]
    rfl

/-- All else that a start warns of is a character that stands for no key. -/
theorem warnings_of_start (options : Options)
    (hload : ((Machine.new source).loadFrom reader).answer = .ok ()) :
    ∃ log, start options (.ok reader) source =
        (.ok ⟨ready options reader source, .zero, false⟩, log) ∧
      (log.map Entry.record).filter (·.level = .warn) =
        (options.keys.toList.filter (Keypad.keyOf? · = none)).map
          fun c => (Entry.unmapped c).record := by
  refine ⟨((Machine.new source).loadFrom reader).notices.map .machine ++
    (holdKeys ((Machine.new source).loadFrom reader).machine options.keys.toList).2, ?_, ?_⟩
  · simp only [start, hload]
    rfl
  · rw [List.map_append, List.filter_append, warnings_loadFrom, List.nil_append, log_holdKeys,
      List.map_map]
    refine List.filter_eq_self.mpr fun r hr => ?_
    obtain ⟨c, -, rfl⟩ := List.mem_map.mp hr
    rfl

theorem keypad_eq_of_sameCharacters {options' : Options} {reader' : Reader} {source' : σ}
    (h : Keypad.SameCharacters options.keys.toList options'.keys.toList) :
    (ready options reader source).state.keypad =
      (ready options' reader' source').state.keypad := by
  apply Keypad.ext_heldKeys
  intro j
  rw [mem_heldKeys_ready, mem_heldKeys_ready]
  exact Keypad.exists_keyOf?_congr h j

variable [ByteSource σ]

/-- However many cycles go by, the instruction that waits for a key takes the least of the keys that
the characters stand for. -/
theorem takes_least_key {n : Nat} {x j : Nibble}
    (hm : ((ready options reader source).after n).fault = none)
    (hx : ((ready options reader source).after n).state.Meets 0xF x 0 0xA)
    (hj : ∃ c ∈ options.keys.toList, Keypad.keyOf? c = some j)
    (hleast : ∀ i, (∃ c ∈ options.keys.toList, Keypad.keyOf? c = some i) → j ≤ i) :
    (∃ beep, ((ready options reader source).after n).cycle.answer = .ok ⟨false, beep⟩) ∧
    ((ready options reader source).after n).cycle.machine.state.registers.get x =
      UInt8.ofNat j.val := by
  have hlow : ((ready options reader source).after n).state.keypad.lowest? = some j := by
    rw [Machine.keypad_after, Keypad.lowest?_eq_some_iff]
    refine ⟨(mem_heldKeys_ready j).mpr hj, fun i hi => ?_⟩
    exact hleast i ((mem_heldKeys_ready i).mp hi)
  obtain ⟨hmachine, hanswer⟩ := Machine.cycle_of_key hm hx hlow
  refine ⟨⟨_, hanswer⟩, ?_⟩
  rw [hmachine]
  exact (RegisterFile.get_set ..).trans (if_pos rfl)

/-- The keys held for a session are those that the characters given for them stand for, and no
others; a character that stands for none is warned of, as often and in the order as they come. So
another text with the same characters, up to their order, number and case, holds the same keys. No
character beyond ASCII stands for a key, and of the others one for each key, in either case. An
instruction that waits for a key takes the least of those held, after any number of cycles. -/
theorem characters_hold_keys (options : Options)
    (hload : ((Machine.new source).loadFrom reader).answer = .ok ()) :
    ∃ s log, start options (.ok reader) source = (.ok s, log) ∧
    (∀ j, j ∈ s.machine.state.keypad.heldKeys ↔
      ∃ c ∈ options.keys.toList, Keypad.keyOf? c = some j) ∧
    (log.map Entry.record).filter (·.level = .warn) =
      (options.keys.toList.filter (Keypad.keyOf? · = none)).map
        (fun c => (Entry.unmapped c).record) ∧
    (∀ other : Options,
      Keypad.SameCharacters options.keys.toList other.keys.toList →
      ∃ t log', start other (.ok reader) source = (.ok t, log') ∧
        t.machine.state.keypad = s.machine.state.keypad) ∧
    (∀ c : Char, 128 ≤ c.toNat → Keypad.keyOf? c = none) ∧
    (∀ j, ∃ c, Keypad.keyOf? c = some j ∧
      ∀ d, Keypad.keyOf? d = some j ↔ d.toLower = c.toLower) ∧
    (∀ n x j, (s.machine.after n).fault = none → (s.machine.after n).state.Meets 0xF x 0 0xA →
      (∃ c ∈ options.keys.toList, Keypad.keyOf? c = some j) →
      (∀ i, (∃ c ∈ options.keys.toList, Keypad.keyOf? c = some i) → j ≤ i) →
      (∃ beep, (s.machine.after n).cycle.answer = .ok ⟨false, beep⟩) ∧
      (s.machine.after n).cycle.machine.state.registers.get x = UInt8.ofNat j.val) := by
  obtain ⟨log, hstart, hlog⟩ := warnings_of_start options hload
  refine ⟨⟨ready options reader source, .zero, false⟩, log, hstart, mem_heldKeys_ready, hlog, ?_,
    fun c hc => Keypad.keyOf?_of_not_ascii hc, Keypad.exists_keyOf?_iff,
    fun n x j hm hx hj hleast => takes_least_key hm hx hj hleast⟩
  intro other hsame
  obtain ⟨log', hother, -⟩ := warnings_of_start other hload
  exact ⟨⟨ready other reader source, .zero, false⟩, log', hother,
    (keypad_eq_of_sameCharacters hsame).symm⟩

end Start

/-- A rom that waits first of all, for register 3. -/
def waitingRom : Reader := .ofPieces [[0xF3, 0x0A]] .finished

/-- Five, nothing, four and nothing again. -/
def twoKeys : Options := ⟨"a", none, defaultClockHz, none, "W!q?", false, true⟩

theorem loadFrom_waitingRom :
    ((Machine.new (⟨[]⟩ : Scripted)).loadFrom waitingRom).machine =
        Machine.loaded [0xF3, 0x0A] ∧
      ((Machine.new (⟨[]⟩ : Scripted)).loadFrom waitingRom).answer = .ok () := by
  have hl := (Machine.new (⟨[]⟩ : Scripted)).state.memory.loadFrom_ofPieces [[0xF3, 0x0A]] .finished
  rw [if_neg (by decide)] at hl
  have hm := (Machine.new (⟨[]⟩ : Scripted)).state.memory.load_of_le
    (show ([0xF3, 0x0A] : List UInt8).length ≤ 3584 by decide)
  rw [waitingRom, Machine.loadFrom, hl, Machine.loaded, Machine.load, hm]
  exact ⟨rfl, rfl⟩

theorem ready_twoKeys : ready twoKeys waitingRom (⟨[]⟩ : Scripted) =
    ((Machine.loaded [0xF3, 0x0A]).press 5).press 4 := by
  have hkeys : twoKeys.keys.toList = ['W', '!', 'q', '?'] := by decide
  rw [ready, loadFrom_waitingRom.1, hkeys]
  rfl

/-- Of the keys for two letters, register 3 is given the one that comes first on the keypad. -/
theorem characters_hold_keys_waiting :
    ((Machine.new (⟨[]⟩ : Scripted)).loadFrom waitingRom).answer = .ok () ∧
    ∃ s log, start twoKeys (.ok waitingRom) (⟨[]⟩ : Scripted) = (.ok s, log) ∧
      (log.map Entry.record).filter (·.level = .warn) =
        [⟨.warn, "'!' is not mapped to a key"⟩, ⟨.warn, "'?' is not mapped to a key"⟩] ∧
      s.machine.cycle.machine.state.registers.get 3 = 4 := by
  have hload := loadFrom_waitingRom.2
  have hkeys : twoKeys.keys.toList = ['W', '!', 'q', '?'] := by decide
  obtain ⟨s, log, hstart, -, hwarn, -, -, -, hleast⟩ := characters_hold_keys twoKeys hload
  have hs : s.machine = ready twoKeys waitingRom ⟨[]⟩ := by
    obtain ⟨_, hready, -⟩ := start_of_loaded twoKeys hload
    cases hstart.symm.trans hready
    rfl
  refine ⟨hload, s, log, hstart, ?_, ?_⟩
  · rw [hwarn, hkeys]
    decide +kernel
  · have hmeets : s.machine.state.Meets 0xF 3 0 0xA := by
      rw [hs, ready_twoKeys, Machine.meets_press, Machine.meets_press]
      exact Machine.meets_loaded 0xF 3 0 0xA (Nat.zero_le _)
    have hrunning : s.machine.fault = none := by
      rw [hs, ready_twoKeys]
      rfl
    have hnone : ∀ c ∈ ['W', '!', 'q', '?'], ∀ i, Keypad.keyOf? c = some i → 4 ≤ i := by
      simp only [List.forall_mem_cons]
      exact ⟨by decide, by decide, by decide, by decide, nofun⟩
    have hfirst := hleast 0 3 4 hrunning hmeets
    rw [hkeys] at hfirst
    refine (hfirst ⟨'q', by decide, by decide⟩ ?_).2
    rintro i ⟨c, hc, hi⟩
    exact hnone c hc i hi

end Host.Session

end Chip8

import Chip8.Proofs.Determinism

/-!
What the keys can be used for. A cycle that executes no instruction that asks for a key behaves as
with any other keys held (`Machine.apply_withKeys`). So a run without such cycles is, but for the
keypad, the run without its key events (`Machine.run_keyless`), and two runs that differ in their
key events alone cannot be told apart by anything else (`Machine.keys_are_invisible`).
-/

namespace Chip8

/-- A sequence of events without the key events. -/
def keyless (events : List Event) : List Event := events.filter (!·.isKey)

theorem keyless_cons_of_isKey {e : Event} (he : e.isKey = true) (rest : List Event) :
    keyless (e :: rest) = keyless rest :=
  List.filter_cons_of_neg (by rw [he]; exact Bool.false_ne_true)

theorem keyless_cons_of_not_isKey {e : Event} (he : e.isKey = false) (rest : List Event) :
    keyless (e :: rest) = e :: keyless rest :=
  List.filter_cons_of_pos (by rw [he]; rfl)

def Event.isCycle : Event → Bool
  | .cycle => true
  | _ => false

theorem Event.isCycle_iff {e : Event} : e.isCycle = true ↔ e = .cycle := by
  cases e with
  | cycle => exact ⟨fun _ => rfl, fun _ => rfl⟩
  | _ => exact ⟨nofun, nofun⟩

instance (e : Event) : Decidable (e = .cycle) := decidable_of_iff _ Event.isCycle_iff

namespace Machine

variable {σ : Type}

/-- Whether a key is asked for shows in the opcode. -/
theorem asksKeys_iff {m : Machine σ} :
    m.AsksKeys ↔ m.opcode?.any (Instruction.decode · |>.readsKeys) = true := by
  rw [any_opcode?_iff, AsksKeys]
  refine and_congr_right fun _ => ⟨fun h => ?_, ?_⟩
  · obtain ⟨op, hop⟩ : ∃ op, m.state.fetch = .ok op := by
      rcases h with ⟨x, h | h | h⟩
      · exact ⟨_, (State.meets_iff_fetch ..).mp h⟩
      · exact ⟨_, (State.meets_iff_fetch ..).mp h⟩
      · exact ⟨_, (State.meets_iff_fetch ..).mp h⟩
    exact ⟨op, hop, (State.asksKeys_iff hop).mp h⟩
  · rintro ⟨op, hop, h⟩
    exact (State.asksKeys_iff hop).mpr h

instance (m : Machine σ) : Decidable m.AsksKeys := decidable_of_iff _ asksKeys_iff.symm

/-- The same machine with other keys held. -/
def withKeys (m : Machine σ) (k : Keypad) : Machine σ :=
  m.setState { m.state with keypad := k }

@[simp] theorem withKeys_withKeys (m : Machine σ) (k k' : Keypad) :
    (m.withKeys k).withKeys k' = m.withKeys k' := rfl

@[simp] theorem withKeys_self (m : Machine σ) : m.withKeys m.state.keypad = m := rfl

theorem twins_withKeys (m : Machine σ) (k : Keypad) : m.Twins (m.withKeys k) := ⟨rfl, rfl⟩

/-- Two machines with one source that are twins differ in the keys alone. -/
theorem Twins.eq_withKeys {m m' : Machine σ} (h : m.Twins m') (hsource : m'.source = m.source) :
    m' = m.withKeys m'.state.keypad := by
  obtain ⟨state', source', fault'⟩ := m'
  obtain ⟨hstate, hfault⟩ := h
  cases hsource
  cases hfault
  exact congrArg m.setState hstate

variable [ByteSource σ]

theorem apply_of_isKey (m : Machine σ) {e : Event} (he : e.isKey = true) :
    (m.apply e).machine = m.withKeys (m.state.keypad.receive e) := by
  cases e with
  | load | loadFrom | cycle => cases he
  | _ => rfl

/-- An event that neither is a key event nor asks for a key does the same whatever keys are held,
and leaves them as they are. -/
theorem apply_withKeys {m : Machine σ} {e : Event} (he : e.isKey = false)
    (hk : e = .cycle → ¬ m.AsksKeys) (k : Keypad) :
    ((m.withKeys k).apply e).machine = (m.apply e).machine.withKeys k ∧
      ((m.withKeys k).apply e).reply e = (m.apply e).reply e := by
  have htwins := m.twins_withKeys k
  obtain ⟨hafter, hreply⟩ := htwins.apply (fun h ha => absurd ha (hk h)) (fun _ => rfl)
  have hsource : ((m.withKeys k).apply e).machine.source = (m.apply e).machine.source := by
    rw [source_apply, source_apply, htwins.takesByte_eq]
    rfl
  have hkeypad : ((m.withKeys k).apply e).machine.state.keypad = k := by
    rw [keypad_apply]
    exact k.receive_of_not_isKey he
  have hmachine := hafter.eq_withKeys hsource
  rw [hkeypad] at hmachine
  exact ⟨hmachine, hreply⟩

/-- No cycle of the run executes an instruction that asks for a key. -/
def IgnoresKeys (m : Machine σ) (events : List Event) : Prop :=
  ∀ s ∈ m.steps events, s.2 = .cycle → ¬ s.1.AsksKeys

instance (m : Machine σ) (events : List Event) : Decidable (m.IgnoresKeys events) :=
  inferInstanceAs (Decidable (∀ s ∈ m.steps events, s.2 = .cycle → ¬ s.1.AsksKeys))

theorem ignoresKeys_cons {m : Machine σ} {e : Event} {rest : List Event} :
    m.IgnoresKeys (e :: rest) ↔
      (e = .cycle → ¬ m.AsksKeys) ∧ (m.apply e).machine.IgnoresKeys rest :=
  List.forall_mem_cons

theorem IgnoresKeys.of_append {m : Machine σ} {a b : List Event} (h : m.IgnoresKeys (a ++ b)) :
    m.IgnoresKeys a := by
  intro s hs
  refine h s ?_
  rw [steps_append]
  exact List.mem_append_left _ hs

/-- Key events make no difference to whether a run asks for keys. -/
theorem ignoresKeys_keyless {m : Machine σ} {events : List Event} (k : Keypad) :
    (m.withKeys k).IgnoresKeys (keyless events) ↔ m.IgnoresKeys events := by
  induction events generalizing m with
  | nil => exact Iff.rfl
  | cons e rest ih =>
    rw [ignoresKeys_cons]
    cases he : e.isKey with
    | true =>
      have hne : e = .cycle → ¬ m.AsksKeys := by
        rintro rfl
        cases he
      rw [keyless_cons_of_isKey he, m.apply_of_isKey he, ← ih, withKeys_withKeys]
      exact (and_iff_right hne).symm
    | false =>
      rw [keyless_cons_of_not_isKey he, ignoresKeys_cons]
      refine and_congr_right fun hk => ?_
      rw [(apply_withKeys (m := m) he hk k).1]
      exact ih

/-- A run that asks for no keys, its key events left out: the machine at its end is the same but for
the keys, and each of the other events has the same reply. -/
theorem run_keyless {m : Machine σ} {events : List Event} (h : m.IgnoresKeys events) (k : Keypad) :
    (m.withKeys k).run (keyless events) = (m.run events).withKeys k ∧
      (m.withKeys k).replies (keyless events) =
        (m.replies events).filter (!·.event.isKey) := by
  induction events generalizing m with
  | nil => exact ⟨rfl, rfl⟩
  | cons e rest ih =>
    obtain ⟨hk, hrest⟩ := ignoresKeys_cons.mp h
    obtain ⟨hrun, hreplies⟩ := ih hrest
    rw [replies_cons, run_cons]
    cases he : e.isKey with
    | true =>
      rw [m.apply_of_isKey he, withKeys_withKeys] at hrun hreplies
      rw [keyless_cons_of_isKey he, List.filter_cons_of_neg (by simp [Transition.reply, he]),
        m.apply_of_isKey he]
      exact ⟨hrun, hreplies⟩
    | false =>
      obtain ⟨hmachine, hreply⟩ := apply_withKeys he hk k
      rw [keyless_cons_of_not_isKey he, run_cons, replies_cons, hmachine, hreply, hrun, hreplies,
        List.filter_cons_of_pos (by simp [Transition.reply, he])]
      exact ⟨rfl, rfl⟩

/-- The end of a run that asks for no keys is, but for the keys, that of any other with the same
events apart from key events. -/
theorem run_eq_withKeys {m : Machine σ} {a b : List Event} (ha : m.IgnoresKeys a)
    (hb : m.IgnoresKeys b) (hsame : keyless a = keyless b) :
    m.run b = (m.run a).withKeys (m.run b).state.keypad := by
  have h : (m.run b).withKeys m.state.keypad = (m.run a).withKeys m.state.keypad := by
    rw [← (run_keyless ha m.state.keypad).1, ← (run_keyless hb m.state.keypad).1, hsame]
  calc m.run b
    _ = ((m.run b).withKeys m.state.keypad).withKeys (m.run b).state.keypad := by
      rw [withKeys_withKeys, withKeys_self]
    _ = ((m.run a).withKeys m.state.keypad).withKeys (m.run b).state.keypad := by rw [h]
    _ = (m.run a).withKeys (m.run b).state.keypad := withKeys_withKeys ..

/-- Key events are invisible to a run that asks for no keys. Take out some of them, put in others or
move them about: every load and every cycle has the same reply, and at corresponding points the
machines differ in the keypad alone. What the keypad is, no cycle changes. -/
theorem keys_are_invisible {m : Machine σ} {events other : List Event}
    (hk : m.IgnoresKeys events) (hsame : keyless events = keyless other) :
    (m.replies other).filter (!·.event.isKey) = (m.replies events).filter (!·.event.isKey) ∧
    (∀ a b, a <+: events → b <+: other → keyless a = keyless b →
      m.run b = (m.run a).withKeys (m.run b).state.keypad) ∧
    ∀ n : Machine σ, n.cycle.machine.state.keypad = n.state.keypad := by
  have hother : m.IgnoresKeys other := by
    rw [← ignoresKeys_keyless m.state.keypad, ← hsame, ignoresKeys_keyless]
    exact hk
  refine ⟨?_, ?_, keypad_cycle⟩
  · rw [← (run_keyless hk m.state.keypad).2, ← (run_keyless hother m.state.keypad).2, hsame]
  · rintro a b ⟨a', rfl⟩ ⟨b', rfl⟩ hab
    exact run_eq_withKeys hk.of_append hother.of_append hab

/-- Keys that come and go around two cycles, with a load between these, make no difference to the
machine but for those that are held. -/
theorem keys_are_invisible_loaded :
    (loaded [0x60, 0x05]).IgnoresKeys
      [.press 3, .cycle, .load [0x60, 0x05, 0xF0, 0x15], .cycle] ∧
    keyless [.press 3, .cycle, .load [0x60, 0x05, 0xF0, 0x15], .cycle] =
      keyless [.cycle, .load [0x60, 0x05, 0xF0, 0x15], .setKey 200 true, .cycle, .release 3] ∧
    ((loaded [0x60, 0x05]).run
        [.cycle, .load [0x60, 0x05, 0xF0, 0x15], .setKey 200 true, .cycle, .release 3]).withKeys
          .released =
      ((loaded [0x60, 0x05]).run
        [.press 3, .cycle, .load [0x60, 0x05, 0xF0, 0x15], .cycle]).withKeys .released := by
  have hk : (loaded [0x60, 0x05]).IgnoresKeys
      [.press 3, .cycle, .load [0x60, 0x05, 0xF0, 0x15], .cycle] := by decide +kernel
  have hsame : keyless [.press 3, .cycle, .load [0x60, 0x05, 0xF0, 0x15], .cycle] =
      keyless [.cycle, .load [0x60, 0x05, 0xF0, 0x15], .setKey 200 true, .cycle, .release 3] := rfl
  have h := (keys_are_invisible hk hsame).2.1 _ _ (List.prefix_refl _) (List.prefix_refl _) hsame
  refine ⟨hk, hsame, ?_⟩
  rw [h, withKeys_withKeys]

end Machine

end Chip8

import Chip8.Proofs.Settings

/-!
Options whose value is a number. One is accepted exactly if its text denotes a number of 64 bits,
which may be 0 only if it is not the rate of the clock (`ofLine_number`). Whatever else is on a line
that is accepted, its clock goes (`clock_of_ofLine`), so there is a time for each cycle to take.
-/

namespace Chip8.Host

open Text.Decimal (Denotes readUInt64?_eq_some_iff)

/-- The text can be given as the rom. -/
def NamesRom (rom : String) : Prop := rom ≠ "" ∧ StandsAlone rom

/-- What a line with nothing but a rom asks for. -/
def Options.plain (rom : String) : Options :=
  ⟨rom, none, defaultClockHz, none, "", false, false⟩

/-- The slots that take a number. -/
def Slot.isNumeric : Slot → Bool
  | .cycles | .clockHz | .seed => true
  | .rom | .keys => false

/-- The slot can be given the number. -/
def Slot.Admits (s : Slot) (n : UInt64) : Prop := s = .clockHz → n ≠ 0

/-- The options with a number in a slot that takes one. -/
def Options.withNumber (o : Options) (s : Slot) (n : UInt64) : Options :=
  match s with
  | .cycles => { o with cycles := some n }
  | .clockHz => { o with clockHz := n }
  | .seed => { o with seed := some n }
  | .rom | .keys => o

namespace Draft

theorem number_of_error {s : Slot} {text : String} {e : LineError}
    (h : number s text = .error e) : e = .badValue s text := by
  unfold number at h
  split at h
  · cases h
  · cases h
    rfl

/-- A draft in which the rom is all that has been given. -/
def ofRom (rom : String) : Draft := { empty with rom := some rom }

theorem settle_of_number_error {s : Slot} (hs : s.isNumeric = true) {rom text : String}
    {e : LineError} (hn : number s text = .error e) :
    (ofRom rom).settle s (some text) = .error e := by
  cases s with
  | rom | keys => cases hs
  | cycles | clockHz | seed =>
    simp only [settle, put, hn]
    rfl

theorem settle_of_number {s : Slot} (hs : s.isNumeric = true) (rom : String) {text : String}
    {n : UInt64} (hn : number s text = .ok n) (ha : s.Admits n) :
    (ofRom rom).settle s (some text) >>= finish = .ok ((Options.plain rom).withNumber s n) := by
  cases s with
  | rom | keys => cases hs
  | cycles | seed =>
    simp only [settle, put, hn]
    rfl
  | clockHz =>
    simp only [settle, put, hn, if_neg (ha rfl)]
    rfl

theorem settle_of_not_admits {s : Slot} {rom text : String} {n : UInt64}
    (hn : number s text = .ok n) (ha : ¬ s.Admits n) :
    (ofRom rom).settle s (some text) = .error (.badValue s text) := by
  obtain ⟨rfl, hzero⟩ := Classical.not_imp.mp ha
  simp only [settle, put, hn, if_pos (Decidable.not_not.mp hzero)]
  rfl

end Draft

section Line

variable {s : Slot} {name rom : String}

/-- A line with a rom and one value. -/
theorem ofLine_rom_value (hname : s.longName? = some name) (hrom : NamesRom rom) (text : String) :
    Options.ofLine [rom, "--" ++ name ++ "=" ++ text] =
      (Draft.ofRom rom).settle s (some text) >>= Draft.finish := by
  have hother : s ≠ .rom := by
    rintro rfl
    cases hname
  have hrest : (Setting.value s text).isRom = false := beq_eq_false_iff_ne.mpr hother
  have hone : Group.OneRom [⟨.value .rom rom, _, .rom hrom.2⟩, ⟨.value s text, _, .joined hname⟩] :=
    List.pairwise_pair.mpr fun _ => hrest
  have htake : Draft.empty.take (.value .rom rom) = .ok (Draft.ofRom rom) := by
    simp only [Draft.take, Draft.settle, Draft.put, String.isEmpty_eq_false_iff.mpr hrom.1]
    rfl
  have hline := Options.ofLine_line hone
  rw [Group.takeAll_cons, htake] at hline
  refine hline.trans ?_
  change Group.takeAll (Draft.ofRom rom) [_] >>= Draft.finish = _
  rw [Group.takeAll_cons]
  exact congrArg (· >>= Draft.finish) (bind_pure _)

/-- A number in decimal is accepted where the slot can be given it, and nothing else is. -/
theorem ofLine_number (hs : s.isNumeric = true) (hname : s.longName? = some name)
    (hrom : NamesRom rom) (text : String) :
    (∀ o, Options.ofLine [rom, "--" ++ name ++ "=" ++ text] = .ok o ↔
      ∃ n : UInt64, Denotes text n.toNat ∧ s.Admits n ∧ o = (Options.plain rom).withNumber s n) ∧
    ∀ e, Options.ofLine [rom, "--" ++ name ++ "=" ++ text] = .error e → e = .badValue s text := by
  rw [ofLine_rom_value hname hrom]
  cases hn : Draft.number s text with
  | error e =>
    rw [Draft.settle_of_number_error hs hn]
    refine ⟨fun o => ⟨nofun, ?_⟩, ?_⟩
    · rintro ⟨n, hd, -⟩
      cases hn.symm.trans (Draft.number_eq_ok_iff.mpr hd)
    · rintro _ ⟨⟩
      exact Draft.number_of_error hn
  | ok n =>
    have hd := Draft.number_eq_ok_iff.mp hn
    by_cases ha : s.Admits n
    · rw [Draft.settle_of_number hs rom hn ha]
      refine ⟨fun o => ?_, nofun⟩
      constructor
      · rintro ⟨⟩
        exact ⟨n, hd, ha, rfl⟩
      · rintro ⟨m, hm, -, rfl⟩
        cases hn.symm.trans (Draft.number_eq_ok_iff.mpr hm)
        rfl
    · rw [Draft.settle_of_not_admits hn ha]
      refine ⟨fun o => ⟨nofun, ?_⟩, ?_⟩
      · rintro ⟨m, hm, hadm, -⟩
        cases hn.symm.trans (Draft.number_eq_ok_iff.mpr hm)
        exact absurd hadm ha
      · rintro _ ⟨⟩
        rfl

end Line

/-- A property of drafts that no line can break. -/
structure Draft.Kept (P : Draft → Prop) : Prop where
  empty : P .empty
  put {d e : Draft} {s : Slot} {text : String} : P d → d.put s text = .ok e → P e
  turnOn {d e : Draft} {s : Switch} : P d → d.turnOn s = .ok e → P e

namespace Draft.Kept

variable {P : Draft → Prop} {r u : Reading}

theorem settle (hP : Kept P) {d e : Draft} {s : Slot} {text : Option String} (hd : P d)
    (h : d.settle s text = .ok e) : P e := by
  unfold Draft.settle at h
  split at h
  · cases h
  · split at h
    · cases h
    · exact hP.put hd h

theorem settled (hP : Kept P) {d : Draft} (hr : P r.draft) (h : r.settle = .ok d) : P d := by
  unfold Reading.settle at h
  split at h
  · cases h
    exact hr
  · exact hP.settle hr h

theorem plain (hP : Kept P) {text : String} (hr : P r.draft) (h : r.plain text = .ok u) :
    P u.draft := by
  unfold Reading.plain at h
  split at h
  · cases h
    exact hr
  · unfold Reading.positional at h
    split at h
    · cases h
    · obtain ⟨d, hd, rfl⟩ := map_eq_ok_iff.mp h
      exact hP.settled hr hd

theorem obey (hP : Kept P) {d : Declared} {attached : Option String} (hr : P r.draft)
    (h : r.obey d attached = .ok u) : P u.draft := by
  unfold Reading.obey at h
  split at h
  · obtain ⟨d, hd, rfl⟩ := map_eq_ok_iff.mp h
    exact hP.settled hr hd
  · obtain ⟨d, hd, h⟩ := bind_eq_ok_iff.mp h
    obtain ⟨e, he, h⟩ := bind_eq_ok_iff.mp h
    cases h
    exact hP.settle (hP.settled hr hd) he
  · obtain ⟨d, hd, h⟩ := bind_eq_ok_iff.mp h
    obtain ⟨e, he, h⟩ := bind_eq_ok_iff.mp h
    cases h
    exact hP.turnOn (hP.settled hr hd) he
  · obtain ⟨d, -, h⟩ := bind_eq_ok_iff.mp h
    cases h
  · cases h
  · cases h

/-- One word keeps the property. -/
theorem step (hP : Kept P) {w : String} (hr : P r.draft) (h : r.step w = .ok u) : P u.draft := by
  unfold Reading.step at h
  cases hw : (if r.divided then Word.plain w else .ofString w) with
  | divider =>
    cases hw ▸ h
    exact hr
  | plain text => exact hP.plain hr (hw ▸ h)
  | option written declared attached =>
    rw [hw] at h
    cases declared with
    | none => cases h
    | some d => exact hP.obey hr h

/-- So do all the words of a line. -/
theorem words (hP : Kept P) {ws : List String} (hr : P r.draft)
    (h : ws.foldlM Reading.step r = .ok u) : P u.draft := by
  induction ws generalizing r with
  | nil =>
    cases h
    exact hr
  | cons w rest ih =>
    rw [List.foldlM_cons] at h
    obtain ⟨v, hv, h⟩ := bind_eq_ok_iff.mp h
    exact ih (hP.step hr hv) h

theorem ofLine (hP : Kept P) {ws : List String} {o : Options} (h : Options.ofLine ws = .ok o) :
    ∃ d, P d ∧ d.finish = .ok o := by
  obtain ⟨u, hu, h⟩ := bind_eq_ok_iff.mp h
  obtain ⟨d, hd, h⟩ := bind_eq_ok_iff.mp h
  exact ⟨d, hP.settled (hP.words hP.empty hu) hd, h⟩

end Draft.Kept

/-- The rate of the clock is never settled as 0. -/
theorem Draft.kept_clock : Draft.Kept fun d => d.clockHz ≠ some 0 where
  empty := nofun
  put {d e s text} hd h := by
    cases puts_of_put h with
    | rom | cycles | seed | keys => exact hd
    | clockHz _ hne => exact fun hz => hne (Option.some.inj hz)
  turnOn {d e s} hd h := by
    unfold turnOn at h
    split at h
    · cases h
    · cases h
      cases s <;> exact hd

theorem Draft.clockHz_of_finish {d : Draft} {o : Options} (h : d.finish = .ok o) :
    o.clockHz = d.clockHz.getD defaultClockHz := by
  unfold finish at h
  split at h
  · cases h
  · cases h
    rfl

/-- Every line that is accepted has a clock that goes. -/
theorem clock_of_ofLine {ws : List String} {o : Options} (h : Options.ofLine ws = .ok o) :
    o.clockHz ≠ 0 := by
  obtain ⟨d, hd, hfinish⟩ := Draft.kept_clock.ofLine h
  rw [Draft.clockHz_of_finish hfinish]
  cases hc : d.clockHz with
  | none => decide
  | some n =>
    rintro rfl
    exact hd hc

/-- Where the clock goes, there is a time for a cycle to take. -/
theorem Options.period_of_clock {o : Options} (h : o.clockHz ≠ 0) :
    ∃ period, o.period? = some period ∧ period.toNat = 1000000000 / o.clockHz.toNat := by
  refine ⟨nanosPerSecond / o.clockHz, if_neg h, ?_⟩
  rw [UInt64.toNat_div]
  rfl

/-- Options that take a number accept the decimals of 64 bits and nothing else: digits, one or more,
which may begin with zeros and may have a plus sign before them. The rate of the clock may not be 0
then. What is not accepted is refused as a bad value. So whatever a line is, if it is accepted at
all, its clock goes at a rate of 64 bits, and a second can be divided into its cycles. -/
theorem numbers_are_decimal {rom : String} (hrom : NamesRom rom) (text : String) :
    (∀ o, Options.ofLine [rom, "--cycles=" ++ text] = .ok o ↔
      ∃ n : UInt64, Denotes text n.toNat ∧ o = { Options.plain rom with cycles := some n }) ∧
    (∀ o, Options.ofLine [rom, "--seed=" ++ text] = .ok o ↔
      ∃ n : UInt64, Denotes text n.toNat ∧ o = { Options.plain rom with seed := some n }) ∧
    (∀ o, Options.ofLine [rom, "--clock-hz=" ++ text] = .ok o ↔
      ∃ n : UInt64, Denotes text n.toNat ∧ 1 ≤ n.toNat ∧
        o = { Options.plain rom with clockHz := n }) ∧
    (∀ e, Options.ofLine [rom, "--cycles=" ++ text] = .error e → e = .badValue .cycles text) ∧
    (∀ e, Options.ofLine [rom, "--seed=" ++ text] = .error e → e = .badValue .seed text) ∧
    (∀ e, Options.ofLine [rom, "--clock-hz=" ++ text] = .error e →
      e = .badValue .clockHz text) ∧
    ∀ line o, Options.ofLine line = .ok o →
      1 ≤ o.clockHz.toNat ∧ o.clockHz.toNat < UInt64.size ∧
        ∃ period, o.period? = some period ∧ period.toNat = 1000000000 / o.clockHz.toNat := by
  have hpos (n : UInt64) : n ≠ 0 ↔ 1 ≤ n.toNat := by
    rw [Nat.one_le_iff_ne_zero, ne_eq, ne_eq, ← UInt64.toNat_inj]
    exact Iff.rfl
  obtain ⟨hcycles, hcyclesBad⟩ := ofLine_number (s := .cycles) rfl rfl hrom text
  obtain ⟨hseed, hseedBad⟩ := ofLine_number (s := .seed) rfl rfl hrom text
  obtain ⟨hclock, hclockBad⟩ := ofLine_number (s := .clockHz) rfl rfl hrom text
  refine ⟨fun o => ?_, fun o => ?_, fun o => ?_, hcyclesBad, hseedBad, hclockBad, ?_⟩
  · refine (hcycles o).trans (exists_congr fun n => and_congr_right fun _ => ?_)
    exact and_iff_right nofun
  · refine (hseed o).trans (exists_congr fun n => and_congr_right fun _ => ?_)
    exact and_iff_right nofun
  · refine (hclock o).trans (exists_congr fun n => and_congr_right fun _ => ?_)
    exact and_congr_left fun _ => Iff.trans ⟨fun h => h rfl, fun h _ => h⟩ (hpos n)
  · intro line o h
    have hgoes := clock_of_ofLine h
    exact ⟨(hpos _).mp hgoes, o.clockHz.toNat_lt, Options.period_of_clock hgoes⟩

/-- A sign and zeros before a number are no part of it. -/
theorem denotes_signed : Denotes "+007" (7 : UInt64).toNat :=
  (readUInt64?_eq_some_iff "+007" 7).mp (by decide)

/-- Seven cycles a second are a rate, and seven cycles a limit. -/
theorem numbers_are_decimal_signed :
    NamesRom "pong.ch8" ∧ Denotes "+007" (7 : UInt64).toNat ∧
    Options.ofLine ["pong.ch8", "--cycles=+007"] =
      .ok { Options.plain "pong.ch8" with cycles := some 7 } ∧
    Options.ofLine ["pong.ch8", "--clock-hz=+007"] =
      .ok { Options.plain "pong.ch8" with clockHz := 7 } := by
  have hrom : NamesRom "pong.ch8" := ⟨by decide, by decide⟩
  obtain ⟨hcycles, -, hclock, -⟩ := numbers_are_decimal hrom "+007"
  exact ⟨hrom, denotes_signed, (hcycles _).mpr ⟨7, denotes_signed, rfl⟩,
    (hclock _).mpr ⟨7, denotes_signed, by decide, rfl⟩⟩

end Chip8.Host

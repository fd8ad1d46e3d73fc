import Chip8.Proofs.NumericOptions

/-!
Options written out as a line. Its settings are true of the options (`Options.Has`), no two of them
set the same, and what none of them sets is as the defaults have it (`Options.WrittenBy`). However
they are spelled and ordered, taking one more fills in one more of the options (`Options.take_upTo`),
so the line is read as the options it was written for (`Options.WrittenBy.ofLine`). A setting more
than that comes second, or else makes another one come second (`Options.WrittenBy.ofLine_insert`).
-/

namespace Chip8.Host

open Text.Decimal (Denotes exists_denotes readUInt64?_eq_some_iff)

/-- What a group sets. -/
def Group.target (g : Group) : Declared := g.setting.target

theorem Group.takeAll_append (d : Draft) (a b : List Group) :
    Group.takeAll d (a ++ b) = Group.takeAll d a >>= (Group.takeAll · b) :=
  List.foldlM_append

/-- Whether it has been settled. -/
def Draft.has (d : Draft) : Declared → Bool
  | .slot s => d.isGiven s
  | .switch s => d.isOn s
  | .page _ => false

theorem Draft.take_of_has {d : Draft} {g : Setting} (h : d.has g.target = true) :
    d.take g = .error (.repeated g.target) := by
  cases g with
  | value s text => exact if_pos h
  | on s => exact if_pos h

namespace Options

variable {o : Options} {given : List Declared}

/-- The setting is true of the options. -/
def Has (o : Options) : Setting → Prop
  | .value .rom text => o.rom = text ∧ text ≠ ""
  | .value .cycles text => ∃ n, o.cycles = some n ∧ Denotes text n.toNat
  | .value .clockHz text => Denotes text o.clockHz.toNat ∧ o.clockHz ≠ 0
  | .value .seed text => ∃ n, o.seed = some n ∧ Denotes text n.toNat
  | .value .keys text => o.keys = text
  | .on .dump => o.dump = true
  | .on .fast => o.fast = true

/-- No setting is needed: the options have it as a line that does not set it. -/
def Omits (o : Options) : Declared → Prop
  | .slot .rom => False
  | .slot .cycles => o.cycles = none
  | .slot .clockHz => o.clockHz = defaultClockHz
  | .slot .seed => o.seed = none
  | .slot .keys => o.keys = ""
  | .switch .dump => o.dump = false
  | .switch .fast => o.fast = false
  | .page _ => True

/-- The groups write the options out. -/
structure WrittenBy (o : Options) (gs : List Group) : Prop where
  has : ∀ g ∈ gs, o.Has g.setting
  once : (gs.map Group.target).Nodup
  omits : ∀ d, d ∉ gs.map Group.target → o.Omits d

/-- The draft in which just these have been settled as the options have them. -/
def upTo (o : Options) (given : List Declared) : Draft where
  rom := if .slot .rom ∈ given then some o.rom else none
  cycles := if .slot .cycles ∈ given then o.cycles else none
  clockHz := if .slot .clockHz ∈ given then some o.clockHz else none
  seed := if .slot .seed ∈ given then o.seed else none
  keys := if .slot .keys ∈ given then some o.keys else none
  dump := if .switch .dump ∈ given then o.dump else false
  fast := if .switch .fast ∈ given then o.fast else false

theorem has_upTo {g : Setting} (h : o.Has g) :
    (o.upTo given).has g.target = true ↔ g.target ∈ given := by
  cases g with
  | value s text =>
    cases s with
    | rom | clockHz | keys => simp [Draft.has, Setting.target, Draft.isGiven, upTo]
    | cycles | seed =>
      obtain ⟨n, hn, -⟩ := h
      simp [Draft.has, Setting.target, Draft.isGiven, upTo, hn]
  | on s =>
    cases s with
    | dump | fast =>
      simp only [Has] at h
      simp [Draft.has, Setting.target, Draft.isOn, upTo, h]

/-- A setting that is true of the options fills in one more of them. -/
theorem take_upTo {g : Setting} (h : o.Has g) (hnew : g.target ∉ given) :
    (o.upTo given).take g = .ok (o.upTo (g.target :: given)) := by
  have hfree : (o.upTo given).has g.target ≠ true := fun ht => hnew ((has_upTo h).mp ht)
  cases g with
  | value s text =>
    refine (if_neg hfree).trans ?_
    cases s with
    | rom =>
      obtain ⟨rfl, hne⟩ := h
      rw [(Draft.Puts.rom hne).put]
      simp [upTo, Setting.target]
    | cycles =>
      obtain ⟨n, hn, hd⟩ := h
      rw [(Draft.Puts.cycles hd).put]
      simp [upTo, Setting.target, hn]
    | clockHz =>
      obtain ⟨hd, hne⟩ := h
      rw [(Draft.Puts.clockHz hd hne).put]
      simp [upTo, Setting.target]
    | seed =>
      obtain ⟨n, hn, hd⟩ := h
      rw [(Draft.Puts.seed hd).put]
      simp [upTo, Setting.target, hn]
    | keys =>
      cases h
      rw [Draft.Puts.keys.put]
      simp [upTo, Setting.target]
  | on s =>
    refine (if_neg hfree).trans ?_
    cases s with
    | dump | fast =>
      simp only [Has] at h
      simp [upTo, Setting.target, h]

/-- Settings that are true of the options fill in what they set, if it is new and set once. -/
theorem takeAll_upTo {gs : List Group} (hhas : ∀ g ∈ gs, o.Has g.setting)
    (honce : (gs.map Group.target).Nodup) (hnew : ∀ g ∈ gs, g.target ∉ given) :
    Group.takeAll (o.upTo given) gs = .ok (o.upTo ((gs.map Group.target).reverse ++ given)) := by
  induction gs generalizing given with
  | nil => rfl
  | cons g rest ih =>
    obtain ⟨hg, hrest⟩ := List.forall_mem_cons.mp hhas
    obtain ⟨hfresh, honce⟩ := List.nodup_cons.mp honce
    have hnext : ∀ k ∈ rest, k.target ∉ g.target :: given := by
      intro k hk hmem
      rcases List.mem_cons.mp hmem with he | hmem
      · exact hfresh (he ▸ List.mem_map_of_mem hk)
      · exact hnew k (List.mem_cons_of_mem g hk) hmem
    rw [Group.takeAll_cons, take_upTo hg (hnew g List.mem_cons_self), List.map_cons,
      List.reverse_cons, List.append_assoc]
    exact ih hrest honce hnext

theorem takeAll_empty {gs : List Group} (hhas : ∀ g ∈ gs, o.Has g.setting)
    (honce : (gs.map Group.target).Nodup) :
    Group.takeAll .empty gs = .ok (o.upTo (gs.map Group.target).reverse) := by
  have htaken := takeAll_upTo hhas honce fun _ _ => List.not_mem_nil
  rw [List.append_nil] at htaken
  exact htaken

theorem finish_upTo (h : ∀ d, d ∉ given → o.Omits d) : (o.upTo given).finish = .ok o := by
  have hrom : .slot .rom ∈ given := Decidable.not_not.mp (h (.slot .rom))
  have hgiven {α : Type} (d : Declared) {a b : α} (hd : o.Omits d → a = b) :
      (if d ∈ given then a else b) = a := by
    split
    · rfl
    · rename_i hno
      exact (hd (h d hno)).symm
  have hclock : (if .slot .clockHz ∈ given then some o.clockHz else none).getD defaultClockHz =
      o.clockHz := by
    rw [apply_ite (Option.getD · defaultClockHz)]
    exact hgiven _ id
  have hkeys : (if .slot .keys ∈ given then some o.keys else none).getD "" = o.keys := by
    rw [apply_ite (Option.getD · "")]
    exact hgiven _ id
  simp only [Draft.finish, upTo, if_pos hrom, hclock, hkeys, hgiven (.slot .cycles) id,
    hgiven (.slot .seed) id, hgiven (.switch .dump) id, hgiven (.switch .fast) id]

end Options

theorem Setting.isRom_iff (g : Setting) : g.isRom = true ↔ g.target = .slot .rom := by
  cases g with
  | value s text => simp [isRom, target]
  | on s => simp [isRom, target]

namespace Group

variable {gs a b : List Group} {g : Group}

theorem OneRom.of_once (h : (gs.map target).Nodup) : OneRom gs := by
  refine (List.pairwise_map.mp h).imp fun {g k} hne hg => Bool.eq_false_iff.mpr fun hk => hne ?_
  exact ((Setting.isRom_iff _).mp hg).trans ((Setting.isRom_iff _).mp hk).symm

/-- What is no rom may come anywhere. -/
theorem OneRom.insert (h : OneRom (a ++ b)) (hg : g.setting.isRom = false) :
    OneRom (a ++ g :: b) := by
  have hsymm {g k : Group} (hgk : g.setting.isRom = true → k.setting.isRom = false)
      (hk : k.setting.isRom = true) : g.setting.isRom = false := by
    rw [Bool.eq_false_iff]
    intro hg
    cases hk.symm.trans (hgk hg)
  refine (List.pairwise_middle hsymm).mpr (List.pairwise_cons.mpr ⟨fun k _ hg' => ?_, h⟩)
  cases hg.symm.trans hg'

end Group

namespace Options

variable {o : Options} {gs : List Group}

/-- Options are read as they are written. -/
theorem WrittenBy.ofLine (h : o.WrittenBy gs) : Options.ofLine (Group.line gs) = .ok o := by
  rw [Options.ofLine_line (.of_once h.once), takeAll_empty h.has h.once]
  exact finish_upTo fun d hd => h.omits d fun hmem => hd (List.mem_reverse.mpr hmem)

/-- A setting for what has been set is refused, if everything before it can be taken. -/
theorem takeAll_of_repeated {before after : List Group} {g : Group}
    (hhas : ∀ k ∈ before, o.Has k.setting) (honce : (before.map Group.target).Nodup)
    (hg : g.target ∈ before.map Group.target) :
    Group.takeAll .empty (before ++ g :: after) = .error (.repeated g.target) := by
  have hbefore := takeAll_empty hhas honce
  have hgiven : (o.upTo (before.map Group.target).reverse).has g.target = true := by
    obtain ⟨k, hk, he⟩ := List.mem_map.mp hg
    rw [← he] at hg ⊢
    exact (has_upTo (hhas k hk)).mpr (List.mem_reverse.mpr hg)
  rw [Group.takeAll_append, hbefore]
  change Group.takeAll _ (g :: after) = _
  rw [Group.takeAll_cons, Draft.take_of_has hgiven]
  rfl

/-- The options with one thing taken from others. -/
def withFrom (o other : Options) : Declared → Options
  | .slot .rom => { o with rom := other.rom }
  | .slot .cycles => { o with cycles := other.cycles }
  | .slot .clockHz => { o with clockHz := other.clockHz }
  | .slot .seed => { o with seed := other.seed }
  | .slot .keys => { o with keys := other.keys }
  | .switch .dump => { o with dump := other.dump }
  | .switch .fast => { o with fast := other.fast }
  | .page _ => o

variable {other : Options} {g : Setting}

theorem has_withFrom (h : other.Has g) : (o.withFrom other g.target).Has g := by
  cases g with
  | value s text => cases s <;> exact h
  | on s => cases s <;> exact h

theorem has_withFrom_of_ne {d : Declared} (h : o.Has g) (hne : g.target ≠ d) :
    (o.withFrom other d).Has g := by
  cases g with
  | value s text =>
    cases d with
    | slot t => cases t <;> cases s <;> first | exact h | exact absurd rfl hne
    | switch t => cases t <;> cases s <;> exact h
    | page p => exact h
  | on s =>
    cases d with
    | slot t => cases t <;> cases s <;> exact h
    | switch t => cases t <;> cases s <;> first | exact h | exact absurd rfl hne
    | page p => exact h

/-- A new setting is true of the options that take its value, and leaves the others true. -/
theorem has_insert {a b : List Group} {g : Group} (hhas : ∀ k ∈ a ++ b, o.Has k.setting)
    (hfresh : g.target ∉ (a ++ b).map Group.target) (hg : other.Has g.setting) :
    ∀ k ∈ a ++ g :: b, (o.withFrom other g.target).Has k.setting := by
  intro k hk
  rcases List.mem_cons.mp (List.perm_middle.mem_iff.mp hk) with rfl | hk
  · exact has_withFrom hg
  · refine has_withFrom_of_ne (hhas k hk) fun he => hfresh ?_
    exact List.mem_map.mpr ⟨k, hk, he⟩

/-- A setting more than options are written with is refused, or makes a later one refused. -/
theorem WrittenBy.takeAll_insert {a b : List Group} {g : Group} (h : o.WrittenBy (a ++ b))
    (hg : g.target ∈ (a ++ b).map Group.target) (hvalid : other.Has g.setting) :
    Group.takeAll .empty (a ++ g :: b) = .error (.repeated g.target) := by
  have hhas := h.has
  have honce := h.once
  rw [List.map_append, List.mem_append] at hg
  rcases hg with hg | hg
  · rw [List.map_append] at honce
    exact takeAll_of_repeated (fun k hk => hhas k (List.mem_append_left b hk))
      (List.pairwise_append.mp honce).1 hg
  · -- the setting that comes second now is the one that was there
    obtain ⟨k, hk, he⟩ := List.mem_map.mp hg
    obtain ⟨between, after, rfl⟩ := List.append_of_mem hk
    rw [← List.append_assoc] at hhas honce
    rw [(List.perm_middle.map Group.target).nodup_iff, List.map_cons, he, List.nodup_cons,
      List.map_append, List.mem_append] at honce
    obtain ⟨hfresh, honce⟩ := honce
    have hbefore : g.target ∉ (a ++ between).map Group.target := fun hm => hfresh (Or.inl hm)
    have hsplit : a ++ g :: (between ++ k :: after) = (a ++ g :: between) ++ k :: after := by
      rw [List.append_assoc, List.cons_append]
    rw [hsplit, ← he]
    refine takeAll_of_repeated
      (has_insert (fun m hm => hhas m (List.mem_append_left _ hm)) hbefore hvalid) ?_ ?_
    · rw [(List.perm_middle.map Group.target).nodup_iff, List.map_cons, List.nodup_cons]
      exact ⟨hbefore, (List.pairwise_append.mp honce).1⟩
    · rw [he]
      exact List.mem_map_of_mem (List.mem_append_right a List.mem_cons_self)

theorem WrittenBy.ofLine_insert {a b : List Group} {g : Group} (h : o.WrittenBy (a ++ b))
    (hg : g.target ∈ (a ++ b).map Group.target) (hrom : g.setting.isRom = false)
    (hvalid : other.Has g.setting) :
    Options.ofLine (Group.line (a ++ g :: b)) = .error (.repeated g.target) := by
  rw [Options.ofLine_line ((Group.OneRom.of_once h.once).insert hrom), h.takeAll_insert hg hvalid]
  rfl

/-- Everything but pages. -/
def settable : List Declared :=
  [.slot .rom, .slot .cycles, .slot .clockHz, .slot .seed, .slot .keys, .switch .dump,
    .switch .fast]

theorem omits_of_not_settable {d : Declared} (h : d ∉ settable) : o.Omits d := by
  rcases d with s | s | p
  · exact absurd (by cases s <;> decide) h
  · exact absurd (by cases s <;> decide) h
  · exact trivial

/-- What the options do not omit can be set. -/
theorem exists_group (hrom : NamesRom o.rom) (hclock : o.clockHz ≠ 0) (d : Declared) :
    o.Omits d ∨ ∃ g : Group, g.target = d ∧ o.Has g.setting := by
  cases d with
  | slot s =>
    cases s with
    | rom => exact Or.inr ⟨⟨.value .rom o.rom, _, .rom hrom.2⟩, rfl, rfl, hrom.1⟩
    | cycles =>
      cases hc : o.cycles with
      | none => exact Or.inl hc
      | some n =>
        obtain ⟨text, hd⟩ := exists_denotes n.toNat
        exact Or.inr ⟨⟨.value .cycles text, _, .joined rfl⟩, rfl, n, hc, hd⟩
    | clockHz =>
      obtain ⟨text, hd⟩ := exists_denotes o.clockHz.toNat
      exact Or.inr ⟨⟨.value .clockHz text, _, .joined rfl⟩, rfl, hd, hclock⟩
    | seed =>
      cases hs : o.seed with
      | none => exact Or.inl hs
      | some n =>
        obtain ⟨text, hd⟩ := exists_denotes n.toNat
        exact Or.inr ⟨⟨.value .seed text, _, .joined rfl⟩, rfl, n, hs, hd⟩
    | keys => exact Or.inr ⟨⟨.value .keys o.keys, _, .joined rfl⟩, rfl, rfl⟩
  | switch s =>
    cases s with
    | dump =>
      cases hd : o.dump with
      | false => exact Or.inl hd
      | true => exact Or.inr ⟨⟨.on .dump, _, .on⟩, rfl, hd⟩
    | fast =>
      cases hf : o.fast with
      | false => exact Or.inl hf
      | true => exact Or.inr ⟨⟨.on .fast, _, .on⟩, rfl, hf⟩
  | page p => exact Or.inl trivial

/-- As much as is listed can be written out. -/
theorem exists_groups (hrom : NamesRom o.rom) (hclock : o.clockHz ≠ 0) {ds : List Declared}
    (hds : ds.Nodup) :
    ∃ gs : List Group, (∀ g ∈ gs, o.Has g.setting) ∧ (gs.map Group.target).Nodup ∧
      (∀ d ∈ gs.map Group.target, d ∈ ds) ∧ ∀ d ∈ ds, d ∉ gs.map Group.target → o.Omits d := by
  induction ds with
  | nil => exact ⟨[], nofun, List.nodup_nil, nofun, nofun⟩
  | cons d rest ih =>
    obtain ⟨hd, hrest⟩ := List.nodup_cons.mp hds
    obtain ⟨gs, hhas, honce, hin, homits⟩ := ih hrest
    rcases exists_group hrom hclock d with homit | ⟨g, rfl, hg⟩
    · refine ⟨gs, hhas, honce, fun c hc => List.mem_cons_of_mem d (hin c hc), ?_⟩
      exact List.forall_mem_cons.mpr ⟨fun _ => homit, homits⟩
    · refine ⟨g :: gs, List.forall_mem_cons.mpr ⟨hg, hhas⟩, ?_, ?_, ?_⟩
      · exact List.nodup_cons.mpr ⟨fun hm => hd (hin _ hm), honce⟩
      · exact List.forall_mem_cons.mpr
          ⟨List.mem_cons_self, fun c hc => List.mem_cons_of_mem _ (hin c hc)⟩
      · refine List.forall_mem_cons.mpr ⟨fun hno => absurd List.mem_cons_self hno, ?_⟩
        exact fun c hc hno => homits c hc fun hm => hno (List.mem_cons_of_mem _ hm)

/-- Options can be written out if the rom can be given and the clock goes. -/
theorem exists_writtenBy (hrom : NamesRom o.rom) (hclock : o.clockHz ≠ 0) :
    ∃ gs, o.WrittenBy gs := by
  obtain ⟨gs, hhas, honce, -, homits⟩ :=
    exists_groups hrom hclock (show settable.Nodup by decide)
  refine ⟨gs, hhas, honce, fun d hno => ?_⟩
  by_cases hd : d ∈ settable
  · exact homits d hd hno
  · exact omits_of_not_settable hd

/-- Options whose rom can be given and whose clock goes can be written out as a line. Read again, any
such line gives the same options, whatever the spelling of its groups and in whatever order they are.
With another group for what has been set, wherever it stands and however it is spelled, the line is
refused as setting that twice, if the value is one that could be given. -/
theorem written_lines_read_back (hrom : NamesRom o.rom) (hclock : o.clockHz ≠ 0) :
    (∃ gs, o.WrittenBy gs) ∧
    ∀ gs, o.WrittenBy gs →
      Options.ofLine (Group.line gs) = .ok o ∧
      ∀ (a b : List Group) (g : Group), gs = a ++ b → g.target ∈ gs.map Group.target →
        g.setting.isRom = false → (∃ other : Options, other.Has g.setting) →
        Options.ofLine (Group.line (a ++ g :: b)) = .error (.repeated g.target) := by
  refine ⟨exists_writtenBy hrom hclock, fun gs h => ⟨h.ofLine, ?_⟩⟩
  rintro a b g rfl hg hother ⟨other, hvalid⟩
  exact h.ofLine_insert hg hother hvalid

/-- Options for the witness below. -/
def pong : Options := ⟨"pong.ch8", some 7, 500, some 3, "", false, true⟩

/-- A line for them. -/
def pongGroups : List Group :=
  [⟨.value .cycles "07", ["-c=07"], @Setting.Spelled.letterEquals .cycles 'c' "07" rfl⟩,
   ⟨.value .rom "pong.ch8", ["pong.ch8"], .rom (by decide)⟩,
   ⟨.value .keys "", ["--keys", ""], @Setting.Spelled.apart .keys "keys" "" rfl (by decide)⟩,
   ⟨.on .fast, ["--fast"], .on⟩,
   ⟨.value .seed "+3", ["--seed=+3"], @Setting.Spelled.joined .seed "seed" "+3" rfl⟩]

theorem pong_writtenBy : pong.WrittenBy pongGroups where
  has := by
    have hcycles := (readUInt64?_eq_some_iff "07" 7).mp (by decide)
    have hseed := (readUInt64?_eq_some_iff "+3" 3).mp (by decide)
    simp only [pongGroups, List.forall_mem_cons]
    exact ⟨⟨7, rfl, hcycles⟩, ⟨rfl, by decide⟩, rfl, rfl, ⟨3, rfl, hseed⟩, nofun⟩
  once := by decide
  omits := by
    rintro (s | s | p) h
    · cases s <;> first | rfl | exact absurd (by decide) h
    · cases s <;> first | rfl | exact absurd (by decide) h
    · exact trivial

/-- Five groups are read whatever their spelling, and a limit that comes second is refused. -/
theorem written_lines_read_back_pong :
    NamesRom pong.rom ∧ pong.clockHz ≠ 0 ∧
    Options.ofLine ["-c=07", "pong.ch8", "--keys", "", "--fast", "--seed=+3"] = .ok pong ∧
    Options.ofLine ["-c=07", "pong.ch8", "-c7", "--keys", "", "--fast", "--seed=+3"] =
      .error (.repeated (.slot .cycles)) := by
  have hrom : NamesRom pong.rom := ⟨by decide, by decide⟩
  have hclock : pong.clockHz ≠ 0 := by decide
  have hseven := (readUInt64?_eq_some_iff "7" 7).mp (by decide)
  obtain ⟨hread, hrepeated⟩ := (written_lines_read_back hrom hclock).2 pongGroups pong_writtenBy
  refine ⟨hrom, hclock, hread, ?_⟩
  exact hrepeated (pongGroups.take 2) (pongGroups.drop 2)
    ⟨.value .cycles "7", ["-c7"], @Setting.Spelled.letterJoined .cycles 'c' "7" rfl (by decide)
      (by decide)⟩ rfl (by decide) rfl
    ⟨pong, 7, rfl, hseven⟩

end Options

end Chip8.Host

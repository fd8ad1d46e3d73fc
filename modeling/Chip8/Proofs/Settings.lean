import Chip8.Host.CommandLine
import Chip8.Proofs.Numerals
import Chip8.Proofs.Outcomes

/-!
Command lines by what they say. Groups of words make settings, each in one of several spellings
(`Setting.Spelled`). A value that stands apart is settled only when something follows, so reading
lags behind; but between two groups it has come to what their settings, taken one after another,
come to (`Comes.group`). So that is what the whole line comes to (`Options.ofLine_line`).
-/

namespace Chip8.Host

open Text.Decimal (Denotes readUInt64? readUInt64?_eq_some_iff)

/-- What a group of words says. -/
inductive Setting where
  | value (s : Slot) (text : String)
  | on (s : Switch)
  deriving DecidableEq, Repr

namespace Setting

def target : Setting → Declared
  | .value s _ => .slot s
  | .on s => .switch s

def isRom : Setting → Bool
  | .value s _ => s == .rom
  | .on _ => false

end Setting

def Slot.longName? : Slot → Option String
  | .rom => none
  | .cycles => some "cycles"
  | .clockHz => some "clock-hz"
  | .seed => some "seed"
  | .keys => some "keys"

def Slot.letter? : Slot → Option Char
  | .cycles => some 'c'
  | .seed => some 's'
  | .keys => some 'k'
  | .rom | .clockHz => none

def Switch.longName : Switch → String
  | .dump => "dump"
  | .fast => "fast"

/-- The text can be a word of its own: no dash begins it, unless that is all of it. -/
def StandsAlone (text : String) : Prop := text.toList.head? = some '-' → text = "-"

instance (text : String) : Decidable (StandsAlone text) :=
  inferInstanceAs (Decidable (text.toList.head? = some '-' → text = "-"))

/-- The words that make a setting. -/
inductive Setting.Spelled : Setting → List String → Prop where
  | rom {text} : StandsAlone text → Spelled (.value .rom text) [text]
  | apart {s name text} : s.longName? = some name → StandsAlone text →
      Spelled (.value s text) ["--" ++ name, text]
  | joined {s name text} : s.longName? = some name →
      Spelled (.value s text) ["--" ++ name ++ "=" ++ text]
  | letterApart {s c text} : s.letter? = some c → StandsAlone text →
      Spelled (.value s text) ["-" ++ String.singleton c, text]
  | letterJoined {s c text} : s.letter? = some c → text ≠ "" → text.toList.head? ≠ some '=' →
      Spelled (.value s text) ["-" ++ String.singleton c ++ text]
  | letterEquals {s c text} : s.letter? = some c →
      Spelled (.value s text) ["-" ++ String.singleton c ++ "=" ++ text]
  | on {s} : Spelled (.on s) ["--" ++ s.longName]

namespace Word

theorem ofString_of_standsAlone {text : String} (h : StandsAlone text) :
    ofString text = .plain text := by
  have hdash (c : Char) (cs : List Char) : text.toList ≠ '-' :: c :: cs := by
    intro hl
    rw [h (by rw [hl]; rfl)] at hl
    cases hl
  unfold ofString
  split
  · rename_i hl
    exact absurd hl (hdash _ _)
  · rename_i hl
    exact absurd hl (hdash _ _)
  · rename_i hl
    exact absurd hl (hdash _ _)
  · rfl

section Long

variable {name : String}

/-- A name ends before the first equals sign, if there is one. -/
theorem splits_name (heq : '=' ∉ name.toList) {rest : List Char}
    (hrest : rest = [] ∨ ∃ value, rest = '=' :: value) :
    (name.toList ++ rest).takeWhile (· != '=') = name.toList ∧
      (name.toList ++ rest).dropWhile (· != '=') = rest := by
  have hall : ∀ c ∈ name.toList, (c != '=') = true := fun c hc =>
    bne_iff_ne.mpr fun h => heq (h ▸ hc)
  rw [List.takeWhile_append_of_pos hall, List.dropWhile_append_of_pos hall]
  rcases hrest with rfl | ⟨value, rfl⟩
  · exact ⟨List.append_nil _, rfl⟩
  · exact ⟨List.append_nil _, rfl⟩

theorem ofString_of_dashes {word : String} {cs : List Char} (h : word.toList = '-' :: '-' :: cs)
    (hne : cs ≠ []) : ofString word = ofLong word cs := by
  unfold ofString
  rw [h]
  cases cs with
  | nil => exact absurd rfl hne
  | cons c rest => rfl

theorem ofString_long (hne : name ≠ "") (heq : '=' ∉ name.toList) :
    ofString ("--" ++ name) = .option ("--" ++ name) (longNames.lookup name) none := by
  have hl : ("--" ++ name).toList = '-' :: '-' :: name.toList := by
    rw [String.toList_append]
    rfl
  have hsplit := splits_name heq (Or.inl rfl)
  rw [List.append_nil] at hsplit
  rw [ofString_of_dashes hl fun h => hne (String.toList_eq_nil_iff.mp h)]
  unfold ofLong
  rw [hsplit.1, hsplit.2, String.ofList_toList]

theorem ofString_long_value (heq : '=' ∉ name.toList) (text : String) :
    ofString ("--" ++ name ++ "=" ++ text) =
      .option ("--" ++ name ++ "=" ++ text) (longNames.lookup name) (some text) := by
  have hl : ("--" ++ name ++ "=" ++ text).toList =
      '-' :: '-' :: (name.toList ++ '=' :: text.toList) := by
    simp only [String.toList_append, List.append_assoc]
    rfl
  have hsplit := splits_name heq (Or.inr ⟨text.toList, rfl⟩)
  rw [ofString_of_dashes hl (List.append_ne_nil_of_right_ne_nil _ (List.cons_ne_nil _ _))]
  unfold ofLong
  rw [hsplit.1, hsplit.2, String.ofList_toList]
  exact congrArg (Word.option _ _ ∘ some) String.ofList_toList

end Long

section Letter

variable {c : Char} {s : Slot}

theorem ofString_of_dash {word : String} {rest : List Char} (h : word.toList = '-' :: c :: rest)
    (hc : c ≠ '-') : ofString word = ofLetter word c rest := by
  unfold ofString
  rw [h]
  split
  · rename_i he
    cases he
    exact absurd rfl hc
  · rename_i he
    cases he
    exact absurd rfl hc
  · rename_i he
    cases he
    rfl
  · rename_i hother
    exact absurd rfl (hother c rest)

theorem ofString_letter (hc : c ≠ '-') :
    ofString ("-" ++ String.singleton c) =
      .option ("-" ++ String.singleton c) (letters.lookup c) none := by
  have hl : ("-" ++ String.singleton c).toList = ['-', c] := by
    rw [String.toList_append, String.toList_singleton]
    rfl
  rw [ofString_of_dash hl hc]
  unfold ofLetter
  cases letters.lookup c with
  | none => rfl
  | some d => cases d <;> rfl

theorem ofString_letter_joined (hc : c ≠ '-') (hs : letters.lookup c = some (.slot s))
    {text : String} (hne : text ≠ "") (heq : text.toList.head? ≠ some '=') :
    ofString ("-" ++ String.singleton c ++ text) =
      .option ("-" ++ String.singleton c ++ text) (some (.slot s)) (some text) := by
  have hl : ("-" ++ String.singleton c ++ text).toList = '-' :: c :: text.toList := by
    simp only [String.toList_append, String.toList_singleton]
    rfl
  rw [ofString_of_dash hl hc]
  unfold ofLetter
  rw [hs]
  split
  · rename_i he
    exact absurd (congrArg List.head? he) heq
  · rename_i he
    rw [← he, String.ofList_toList]
  · rename_i hother
    cases ht : text.toList with
    | nil => exact absurd (String.toList_eq_nil_iff.mp ht) hne
    | cons t rest => exact absurd ht (hother s t rest rfl)

theorem ofString_letter_equals (hc : c ≠ '-') (hs : letters.lookup c = some (.slot s))
    (text : String) :
    ofString ("-" ++ String.singleton c ++ "=" ++ text) =
      .option ("-" ++ String.singleton c ++ "=" ++ text) (some (.slot s)) (some text) := by
  have hl : ("-" ++ String.singleton c ++ "=" ++ text).toList = '-' :: c :: '=' :: text.toList := by
    simp only [String.toList_append, String.toList_singleton, List.append_assoc]
    rfl
  rw [ofString_of_dash hl hc]
  unfold ofLetter
  rw [hs]
  exact congrArg (Word.option _ _ ∘ some) String.ofList_toList

end Letter

end Word

theorem Slot.lookup_longName {s : Slot} {name : String} (h : s.longName? = some name) :
    longNames.lookup name = some (.slot s) ∧ name ≠ "" ∧ '=' ∉ name.toList := by
  cases s with
  | rom => cases h
  | cycles | clockHz | seed | keys =>
    cases h
    decide

theorem Switch.lookup_longName (s : Switch) :
    longNames.lookup s.longName = some (.switch s) ∧ s.longName ≠ "" ∧
      '=' ∉ s.longName.toList := by
  cases s <;> decide

theorem Slot.lookup_letter {s : Slot} {c : Char} (h : s.letter? = some c) :
    letters.lookup c = some (.slot s) ∧ c ≠ '-' := by
  cases s with
  | rom | clockHz => cases h
  | cycles | seed | keys =>
    cases h
    decide

namespace Setting

/-- The words of a setting by their outer form. Four are left of the spellings. -/
inductive Shaped : Setting → List String → Prop where
  | rom {w text} : Word.ofString w = .plain text → Shaped (.value .rom text) [w]
  | apart {w v written s text} : Word.ofString w = .option written (some (.slot s)) none →
      Word.ofString v = .plain text → Shaped (.value s text) [w, v]
  | attached {w written s text} :
      Word.ofString w = .option written (some (.slot s)) (some text) → Shaped (.value s text) [w]
  | on {w written s} : Word.ofString w = .option written (some (.switch s)) none →
      Shaped (.on s) [w]

theorem Spelled.shaped {g : Setting} {ws : List String} (h : Spelled g ws) : Shaped g ws := by
  cases h with
  | rom ht => exact .rom (Word.ofString_of_standsAlone ht)
  | apart hn ht =>
    obtain ⟨hl, hne, heq⟩ := Slot.lookup_longName hn
    exact .apart (hl ▸ Word.ofString_long hne heq) (Word.ofString_of_standsAlone ht)
  | joined hn =>
    obtain ⟨hl, -, heq⟩ := Slot.lookup_longName hn
    exact .attached (hl ▸ Word.ofString_long_value heq _)
  | letterApart hc ht =>
    obtain ⟨hl, hdash⟩ := Slot.lookup_letter hc
    exact .apart (hl ▸ Word.ofString_letter hdash) (Word.ofString_of_standsAlone ht)
  | letterJoined hc hne heq =>
    obtain ⟨hl, hdash⟩ := Slot.lookup_letter hc
    exact .attached (Word.ofString_letter_joined hdash hl hne heq)
  | letterEquals hc =>
    obtain ⟨hl, hdash⟩ := Slot.lookup_letter hc
    exact .attached (Word.ofString_letter_equals hdash hl _)
  | @on s =>
    obtain ⟨hl, hne, heq⟩ := s.lookup_longName
    exact .on (hl ▸ Word.ofString_long hne heq)

end Setting

namespace Draft

variable {d e : Draft} {s : Slot} {text : String}

theorem number_eq_ok_iff {n : UInt64} : number s text = .ok n ↔ Denotes text n.toNat := by
  rw [← readUInt64?_eq_some_iff, number]
  cases readUInt64? text with
  | none => exact ⟨nofun, nofun⟩
  | some m =>
    constructor
    · rintro ⟨⟩
      rfl
    · rintro ⟨⟩
      rfl

/-- What a value may do to a draft: it goes to its slot, if it is fit for it. -/
inductive Puts (d : Draft) (text : String) : Slot → Draft → Prop where
  | rom : text ≠ "" → Puts d text .rom { d with rom := some text }
  | cycles {n : UInt64} : Denotes text n.toNat → Puts d text .cycles { d with cycles := some n }
  | clockHz {n : UInt64} : Denotes text n.toNat → n ≠ 0 →
      Puts d text .clockHz { d with clockHz := some n }
  | seed {n : UInt64} : Denotes text n.toNat → Puts d text .seed { d with seed := some n }
  | keys : Puts d text .keys { d with keys := some text }

theorem puts_of_put (h : d.put s text = .ok e) : Puts d text s e := by
  cases s with
  | rom =>
    simp only [put] at h
    split at h
    · cases h
    · rename_i hne
      cases h
      exact .rom fun ht => hne (String.isEmpty_iff.mpr ht)
  | cycles =>
    obtain ⟨n, hn, rfl⟩ := map_eq_ok_iff.mp h
    exact .cycles (number_eq_ok_iff.mp hn)
  | clockHz =>
    simp only [put] at h
    split at h
    · cases h
    · rename_i n hn
      split at h
      · cases h
      · rename_i hne
        cases h
        exact .clockHz (number_eq_ok_iff.mp hn) hne
  | seed =>
    obtain ⟨n, hn, rfl⟩ := map_eq_ok_iff.mp h
    exact .seed (number_eq_ok_iff.mp hn)
  | keys =>
    cases h
    exact .keys

theorem Puts.put (h : Puts d text s e) : d.put s text = .ok e := by
  cases h with
  | rom hne => exact if_neg fun ht => hne (String.isEmpty_iff.mp ht)
  | cycles hd | seed hd => exact map_eq_ok_iff.mpr ⟨_, number_eq_ok_iff.mpr hd, rfl⟩
  | clockHz hd hne => simp only [Draft.put, number_eq_ok_iff.mpr hd, if_neg hne]
  | keys => rfl

/-- Takes one setting: settles a value or turns a switch on. -/
def take (d : Draft) : Setting → Except LineError Draft
  | .value s text => d.settle s (some text)
  | .on s => d.turnOn s

theorem rom_settle (h : d.settle s (some text) = .ok e) :
    e.rom.isSome = (d.rom.isSome || s == .rom) := by
  simp only [settle] at h
  split at h
  · cases h
  · cases puts_of_put h with
    | rom => exact (Bool.or_true _).symm
    | cycles | clockHz | seed | keys => exact (Bool.or_false _).symm

theorem rom_turnOn {s : Switch} (h : d.turnOn s = .ok e) : e.rom = d.rom := by
  unfold turnOn at h
  split at h
  · cases h
  · cases h
    cases s <;> rfl

end Draft

namespace Reading

/-- Between two groups of words: no option waits for its value. -/
structure AtRest (r : Reading) : Prop where
  undivided : r.divided = false
  complete : ∀ s, r.pending ≠ some (s, none)

variable {r : Reading}

theorem AtRest.rom_settle (h : r.AtRest) {d : Draft} (hd : r.settle = .ok d) :
    d.rom.isSome = r.hasRom := by
  unfold settle at hd
  split at hd
  · rename_i hp
    cases hd
    rw [hasRom, hp]
    exact (Bool.or_false _).symm
  · rename_i s text hp
    cases text with
    | none => exact absurd hp (h.complete s)
    | some text =>
      rw [hasRom, hp]
      exact Draft.rom_settle hd

theorem AtRest.step (h : r.AtRest) (w : String) : r.step w = r.word (.ofString w) := by
  rw [Reading.step, h.undivided]
  rfl

theorem AtRest.plain (h : r.AtRest) (text : String) : r.plain text = r.positional text := by
  unfold Reading.plain
  split
  · rename_i hp _
    exact absurd hp (h.complete _)
  · rfl

/-- What reading some groups comes to, given what their settings come to: the same error, or a place
of rest where just that is settled. It is known whether there is a rom by then. -/
inductive Comes (rom : Bool) : Except LineError Reading → Except LineError Draft → Prop where
  | fails (e) : Comes rom (.error e) (.error e)
  | rests {r : Reading} : r.AtRest → r.hasRom = rom → Comes rom (.ok r) r.settle

theorem Comes.of_error {rom : Bool} {e : LineError} {x : Except LineError Draft}
    (h : Comes rom (.error e) x) : x = .error e := by
  cases h
  rfl

theorem Comes.of_ok {rom : Bool} {u : Reading} {x : Except LineError Draft}
    (h : Comes rom (.ok u) x) : u.AtRest ∧ u.hasRom = rom ∧ x = u.settle := by
  cases h with
  | rests hu hrom => exact ⟨hu, hrom, rfl⟩

theorem Comes.pending (d : Draft) (s : Slot) (text : String) :
    Comes (d.rom.isSome || s == .rom) (.ok ⟨d, some (s, some text), false⟩)
      (d.settle s (some text)) :=
  .rests ⟨rfl, nofun⟩ rfl

theorem Comes.settled {rom : Bool} {x : Except LineError Draft}
    (h : ∀ d, x = .ok d → d.rom.isSome = rom) :
    Comes rom (x.map fun draft => ⟨draft, none, false⟩) x := by
  cases x with
  | error e => exact .fails e
  | ok d =>
    refine .rests ⟨rfl, nofun⟩ ?_
    rw [← h d rfl]
    exact Bool.or_false _

/-- A group of words comes to its setting. -/
theorem Comes.group {g : Setting} {ws : List String} (hg : g.Spelled ws) (hr : r.AtRest)
    (hrom : r.hasRom = true → g.isRom = false) :
    Comes (r.hasRom || g.isRom) (ws.foldlM Reading.step r) (r.settle >>= (·.take g)) := by
  have hstart (w : String) : [w].foldlM Reading.step r = r.word (.ofString w) := by
    rw [List.foldlM_cons, hr.step]
    exact bind_pure _
  have hdivided := hr.undivided
  cases hg.shaped with
  | @rom w text hw =>
    have hfree : r.hasRom = false := Bool.eq_false_iff.mpr fun h => by cases hrom h
    rw [hstart, hw, Reading.word, hr.plain, Reading.positional, if_neg (by rw [hfree]; nofun)]
    cases hs : r.settle with
    | error e => exact .fails e
    | ok d =>
      rw [← hr.rom_settle hs, hdivided]
      exact .pending d .rom text
  | @apart w v written s text hw hv =>
    rw [List.foldlM_cons, hr.step, hw, Reading.word, Reading.obey]
    cases hs : r.settle with
    | error e => exact .fails e
    | ok d =>
      have hvalue : [v].foldlM Reading.step ⟨d, some (s, none), false⟩ =
          .ok ⟨d, some (s, some text), false⟩ := by
        rw [List.foldlM_cons, Reading.step]
        simp only [Bool.false_eq_true, if_false, hv]
        rfl
      rw [← hr.rom_settle hs, hdivided]
      change Comes _ ([v].foldlM Reading.step ⟨d, some (s, none), false⟩) _
      rw [hvalue]
      exact .pending d s text
  | @attached w written s text hw =>
    rw [hstart, hw, Reading.word, Reading.obey]
    cases hs : r.settle with
    | error e => exact .fails e
    | ok d =>
      rw [← hr.rom_settle hs, hdivided]
      exact .settled fun e he => Draft.rom_settle he
  | @on w written s hw =>
    rw [hstart, hw, Reading.word, Reading.obey]
    cases hs : r.settle with
    | error e => exact .fails e
    | ok d =>
      rw [← hr.rom_settle hs, hdivided]
      refine .settled fun e he => ?_
      rw [Draft.rom_turnOn he]
      exact (Bool.or_false _).symm

end Reading

/-- A group of words with the setting that it makes. -/
structure Group where
  setting : Setting
  words : List String
  spelled : setting.Spelled words

namespace Group

/-- The line that groups make. -/
def line (gs : List Group) : List String := gs.flatMap words

/-- Takes the settings of groups, one after another. -/
def takeAll (d : Draft) (gs : List Group) : Except LineError Draft :=
  gs.foldlM (fun d g => d.take g.setting) d

/-- There are no two roms. -/
def OneRom (gs : List Group) : Prop :=
  gs.Pairwise fun g h => g.setting.isRom = true → h.setting.isRom = false

theorem takeAll_cons (d : Draft) (g : Group) (rest : List Group) :
    takeAll d (g :: rest) = d.take g.setting >>= (takeAll · rest) :=
  List.foldlM_cons

end Group

/-- Reading on comes to the settings of the groups, if these bring no second rom. -/
theorem Reading.Comes.line {r : Reading} {gs : List Group} (hr : r.AtRest)
    (hrom : r.hasRom = true → ∀ g ∈ gs, g.setting.isRom = false) (hone : Group.OneRom gs) :
    ∃ rom, Comes rom ((Group.line gs).foldlM step r) (r.settle >>= (Group.takeAll · gs)) := by
  induction gs generalizing r with
  | nil =>
    refine ⟨r.hasRom, ?_⟩
    have hsettle : r.settle >>= (Group.takeAll · []) = r.settle := bind_pure _
    rw [hsettle]
    exact .rests hr rfl
  | cons g rest ih =>
    obtain ⟨hfirst, hrest⟩ := List.pairwise_cons.mp hone
    have hgroup := Comes.group g.spelled hr fun h => hrom h g List.mem_cons_self
    have hsettle : r.settle >>= (Group.takeAll · (g :: rest)) =
        (r.settle >>= (·.take g.setting)) >>= (Group.takeAll · rest) := by
      simp only [Group.takeAll_cons, bind_assoc]
    rw [Group.line, List.flatMap_cons, List.foldlM_append, hsettle]
    cases hread : g.words.foldlM step r with
    | error e =>
      rw [hread] at hgroup
      rw [hgroup.of_error]
      exact ⟨false, .fails e⟩
    | ok u =>
      rw [hread] at hgroup
      obtain ⟨hu, huRom, htaken⟩ := hgroup.of_ok
      rw [htaken]
      refine ih hu (fun h k hk => ?_) hrest
      -- a rom by now was there before or has just come
      rw [huRom, Bool.or_eq_true] at h
      rcases h with h | h
      · exact hrom h k (List.mem_cons_of_mem g hk)
      · exact hfirst k hk h

/-- Reading a line of groups is taking their settings, if there are no two roms. -/
theorem Options.ofLine_line {gs : List Group} (h : Group.OneRom gs) :
    Options.ofLine (Group.line gs) = Group.takeAll .empty gs >>= Draft.finish := by
  obtain ⟨rom, hcomes⟩ := Reading.Comes.line (r := .start) ⟨rfl, nofun⟩ (fun h => by cases h) h
  change Reading.Comes rom _ (Group.takeAll .empty gs) at hcomes
  unfold ofLine
  cases hread : (Group.line gs).foldlM Reading.step Reading.start with
  | error e =>
    rw [hread] at hcomes
    rw [hcomes.of_error]
    rfl
  | ok u =>
    rw [hread] at hcomes
    obtain ⟨-, -, htaken⟩ := hcomes.of_ok
    rw [htaken]
    rfl

end Chip8.Host

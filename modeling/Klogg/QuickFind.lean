import Mathlib.Data.List.Basic

/-!
# Quick find in a line

`QuickFindPattern` holds the pattern of the quick-find bar and highlights its matches in a line;
`QuickFindMatcher` searches one line with it, forward from a column or backward before one, and
remembers the span of the last match it found, its end made inclusive. What the regular
expression matches is `QRegularExpression`'s: a search is given what `match( line, column )`
finds, or the matches `globalMatch( line )` returns in order.

The backward search takes the global matches in turn and stops at the first that ends at or after
the column. Successive global matches end in order, so it finds the last match that ends before
the column (`QuickFindMatcher.isLineMatchingBackward_lastBefore`); from a negative column it finds
the last match the line highlights (`QuickFindPattern.lastHighlight_backward`).
-/

namespace Klogg

structure Capture where
  capturedStart : Int
  capturedEnd : Int
deriving DecidableEq, Repr

/-! ## The matcher -/

structure QuickFindMatcher where
  isActive : Bool
  lastMatchStart : Int
  lastMatchEnd : Int
deriving DecidableEq, Repr

namespace QuickFindMatcher

def found (m : QuickFindMatcher) : Option Capture → Bool × QuickFindMatcher
  | some c =>
    (true, { m with lastMatchStart := c.capturedStart, lastMatchEnd := c.capturedEnd - 1 })
  | none => (false, m)

def isLineMatching (m : QuickFindMatcher) («match» : Option Capture) : Bool × QuickFindMatcher :=
  if !m.isActive then (false, m) else m.found «match»

/-- The `while` loop of `isLineMatchingBackward`. -/
def backwardLoop (column : Int) : List Capture → Option Capture → Option Capture
  | [], lastMatch => lastMatch
  | nextMatch :: rest, lastMatch =>
    if column ≥ 0 ∧ nextMatch.capturedEnd ≥ column then lastMatch
    else backwardLoop column rest (some nextMatch)

/-- `isLineMatchingBackward( line, column )`; `globalMatches` is `regexp_.globalMatch( line )`, in
order. -/
def isLineMatchingBackward (m : QuickFindMatcher) (globalMatches : List Capture) (column : Int) :
    Bool × QuickFindMatcher :=
  if !m.isActive then (false, m) else m.found (backwardLoop column globalMatches none)

def getLastMatch (m : QuickFindMatcher) : Int × Int := (m.lastMatchStart, m.lastMatchEnd)

end QuickFindMatcher

/-- A match the backward search from `column` may take. -/
def endsBefore (column : Int) (c : Capture) : Bool := decide (column < 0 ∨ c.capturedEnd < column)

theorem option_or_some {α : Type} (x : Option α) (a : α) : x.or (some a) = some (x.getD a) := by
  cases x <;> rfl

theorem backwardLoop_of_neg {column : Int} (hcol : column < 0) :
    ∀ (captures : List Capture) (lastMatch : Option Capture),
      QuickFindMatcher.backwardLoop column captures lastMatch = captures.getLast?.or lastMatch
  | [], _ => rfl
  | c :: captures, _ => by
    rw [QuickFindMatcher.backwardLoop, if_neg (by omega), backwardLoop_of_neg hcol captures,
      option_or_some, List.getLast?_cons]
    rfl

theorem backwardLoop_eq (column : Int) :
    ∀ (captures : List Capture) (lastMatch : Option Capture),
      captures.Pairwise (fun a b => a.capturedEnd ≤ b.capturedEnd) →
      QuickFindMatcher.backwardLoop column captures lastMatch =
        (captures.filter (endsBefore column)).getLast?.or lastMatch
  | [], _, _ => rfl
  | c :: captures, lastMatch, hsorted => by
    rw [List.pairwise_cons] at hsorted
    rw [QuickFindMatcher.backwardLoop]
    split
    · rename_i hstop
      have hnone : (c :: captures).filter (endsBefore column) = [] := by
        refine List.filter_eq_nil_iff.mpr fun x hx => ?_
        rcases List.mem_cons.mp hx with rfl | hx
        · simp only [endsBefore, decide_eq_true_eq]; omega
        · have := hsorted.1 x hx; simp only [endsBefore, decide_eq_true_eq]; omega
      rw [hnone]; rfl
    · rename_i hgo
      have hc : endsBefore column c = true := by simp only [endsBefore, decide_eq_true_eq]; omega
      rw [backwardLoop_eq column captures _ hsorted.2, List.filter_cons_of_pos hc,
        List.getLast?_cons, option_or_some]
      rfl

/-- The backward search from `column` finds and records the last global match that ends before the
column (any match when it is negative), or returns `false` and keeps the span it had. -/
theorem QuickFindMatcher.isLineMatchingBackward_lastBefore (m : QuickFindMatcher)
    (globalMatches : List Capture) (column : Int)
    (hsorted : globalMatches.Pairwise fun a b => a.capturedEnd ≤ b.capturedEnd) :
    m.isLineMatchingBackward globalMatches column =
      if m.isActive then m.found (globalMatches.filter (endsBefore column)).getLast?
      else (false, m) := by
  rw [isLineMatchingBackward, backwardLoop_eq column globalMatches none hsorted, Option.or_none]
  cases m.isActive <;> rfl

theorem QuickFindMatcher.isLineMatchingBackward_lastBefore_three :
    let m : QuickFindMatcher := ⟨true, 0, 0⟩
    let globalMatches : List Capture := [⟨0, 2⟩, ⟨3, 5⟩, ⟨6, 8⟩]
    globalMatches.Pairwise (fun a b => a.capturedEnd ≤ b.capturedEnd) ∧
      m.isLineMatchingBackward globalMatches 6 = (true, ⟨true, 3, 4⟩) :=
  ⟨by decide, QuickFindMatcher.isLineMatchingBackward_lastBefore ⟨true, 0, 0⟩
    [⟨0, 2⟩, ⟨3, 5⟩, ⟨6, 8⟩] 6 (by decide)⟩

/-! ## The pattern -/

structure HighlightedMatch where
  startColumn : Int
  length : Int
deriving DecidableEq, Repr

structure QuickFindPattern where
  pattern : String
  active : Bool
deriving DecidableEq, Repr

namespace QuickFindPattern

/-- `extendedRegexp`: the quick-find type is `ExtendedRegexp`; `isValid`: the pattern compiles. -/
def changeSearchPattern (extendedRegexp : Bool) (escape : String → String)
    (isValid : String → Bool) (pattern : String) (isRegex : Bool) : QuickFindPattern :=
  let pattern_ := if extendedRegexp then (if isRegex then pattern else escape pattern) else pattern
  ⟨pattern_, isValid pattern_ && !pattern_.isEmpty⟩

def matchLine (p : QuickFindPattern) (globalMatches : List Capture) :
    Bool × List HighlightedMatch :=
  let highlighted := if p.active then
    globalMatches.map fun m => ⟨m.capturedStart, m.capturedEnd - m.capturedStart⟩ else []
  (!highlighted.isEmpty, highlighted)

def getMatcher (p : QuickFindPattern) (lastMatch : Int × Int) : QuickFindMatcher :=
  ⟨p.active, lastMatch.1, lastMatch.2⟩

end QuickFindPattern

/-- Searching backward from the end of a line (a negative column) finds a match exactly when the
line highlights one, and records the span of the last highlighted match, its end inclusive. -/
theorem QuickFindPattern.lastHighlight_backward (p : QuickFindPattern) (lastMatch : Int × Int)
    (globalMatches : List Capture) (column : Int) (hcol : column < 0) :
    let search := (p.getMatcher lastMatch).isLineMatchingBackward globalMatches column
    let highlight := p.matchLine globalMatches
    search.1 = highlight.1 ∧
      ∀ h, highlight.2.getLast? = some h →
        search.2.getLastMatch = (h.startColumn, h.startColumn + h.length - 1) := by
  intro search highlight
  simp only [search, highlight, QuickFindPattern.getMatcher, QuickFindPattern.matchLine,
    QuickFindMatcher.isLineMatchingBackward, backwardLoop_of_neg hcol, Option.or_none]
  cases p.active
  · simp
  · cases hl : globalMatches.getLast? with
    | none => simp [List.getLast?_eq_none_iff.mp hl, QuickFindMatcher.found]
    | some c =>
      have hne : globalMatches ≠ [] := by rintro rfl; simp at hl
      refine ⟨by simpa [QuickFindMatcher.found] using hne, fun h hh => ?_⟩
      simp only [if_true, List.getLast?_map, hl, Option.map_some', Option.some.injEq] at hh
      subst hh
      simp only [Bool.not_true, Bool.false_eq_true, if_false, QuickFindMatcher.found,
        QuickFindMatcher.getLastMatch, Prod.mk.injEq, true_and]
      omega

theorem QuickFindPattern.lastHighlight_backward_twoMatches :
    let p : QuickFindPattern := ⟨"a", true⟩
    let globalMatches : List Capture := [⟨0, 1⟩, ⟨2, 3⟩]
    (-1 : Int) < 0 ∧
      ((p.getMatcher (0, 0)).isLineMatchingBackward globalMatches (-1)).2.getLastMatch = (2, 2) :=
  ⟨by decide,
    (QuickFindPattern.lastHighlight_backward ⟨"a", true⟩ (0, 0) [⟨0, 1⟩, ⟨2, 3⟩] (-1)
      (by decide)).2 ⟨2, 1⟩ rfl⟩

end Klogg

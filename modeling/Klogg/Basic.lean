import Mathlib.Data.List.Basic
import Mathlib.Order.Basic

/-!
# Bytes, searches and encoding parameters

A file and a block are lists of bytes. `find` is `std::string_view::find`, and
`firstFrom` is the least index of a range that a test accepts: every search of
the indexer is one of these.
-/

namespace Klogg

abbrev Bytes := List UInt8

def IndexingBlockSize : Nat := 1024 * 1024

/-- Modelled from the spec: `TabStop`, declared outside src/, is 8. -/
def TabStop : Nat := 8

def lineFeed : UInt8 := 10
def tab : UInt8 := 9
def nul : UInt8 := 0

/-- `std::string_view::find( c, pos )`: the first index at or after `pos` holding `c`. -/
def find : Bytes → UInt8 → Nat → Option Nat
  | [], _, _ => none
  | b :: bs, c, 0 => if b = c then some 0 else (find bs c 0).map (· + 1)
  | _ :: bs, c, pos + 1 => (find bs c pos).map (· + 1)

def firstFrom (P : Nat → Bool) : Nat → Nat → Option Nat
  | _, 0 => none
  | lo, n + 1 => if P lo then some lo else firstFrom P (lo + 1) n

/-! ## Least indices -/

theorem firstFrom_eq_some {P : Nat → Bool} :
    ∀ {lo n m : Nat}, firstFrom P lo n = some m ↔
      lo ≤ m ∧ m < lo + n ∧ P m ∧ ∀ k, lo ≤ k → k < m → P k = false
  | lo, 0, m => by simp [firstFrom]; omega
  | lo, n + 1, m => by
    rw [firstFrom]
    split
    · rename_i h
      simp only [Option.some.injEq]
      constructor
      · rintro rfl; exact ⟨le_rfl, by omega, h, fun k h1 h2 => by omega⟩
      · rintro ⟨h1, -, -, h4⟩
        by_contra hne
        simp [h4 lo le_rfl (by omega)] at h
    · rename_i h
      rw [firstFrom_eq_some]
      constructor
      · rintro ⟨h1, h2, h3, h4⟩
        refine ⟨by omega, by omega, h3, fun k hk1 hk2 => ?_⟩
        rcases Nat.eq_or_lt_of_le hk1 with rfl | hk1
        · simpa using h
        · exact h4 k hk1 hk2
      · rintro ⟨h1, h2, h3, h4⟩
        have : m ≠ lo := by rintro rfl; simp [h3] at h
        exact ⟨by omega, by omega, h3, fun k hk1 hk2 => h4 k (by omega) hk2⟩

theorem firstFrom_eq_none {P : Nat → Bool} :
    ∀ {lo n : Nat}, firstFrom P lo n = none ↔ ∀ k, lo ≤ k → k < lo + n → P k = false
  | lo, 0 => by simp [firstFrom]; intro k h1 h2; omega
  | lo, n + 1 => by
    rw [firstFrom]
    split
    · rename_i h
      simp only [reduceCtorEq, false_iff, not_forall]
      exact ⟨lo, le_rfl, by omega, by simp [h]⟩
    · rename_i h
      rw [firstFrom_eq_none]
      constructor
      · intro h' k hk1 hk2
        rcases Nat.eq_or_lt_of_le hk1 with rfl | hk1
        · simpa using h
        · exact h' k hk1 (by omega)
      · intro h' k hk1 hk2
        exact h' k (by omega) (by omega)

theorem firstFrom_lt {P : Nat → Bool} {lo n m : Nat} (h : firstFrom P lo n = some m) :
    lo ≤ m ∧ m < lo + n :=
  let ⟨h1, h2, _⟩ := firstFrom_eq_some.mp h
  ⟨h1, h2⟩

theorem firstFrom_shift {P : Nat → Bool} (k : Nat) : ∀ {lo n : Nat},
    firstFrom (fun i => P (k + i)) lo n = (firstFrom P (k + lo) n).map (· - k)
  | _, 0 => rfl
  | lo, n + 1 => by
    simp only [firstFrom]
    split
    · simp
    · rw [firstFrom_shift k, Nat.add_assoc]

theorem filter_range'_of_none {P : Nat → Bool} {lo n : Nat} (h : firstFrom P lo n = none) :
    (List.range' lo n).filter P = [] := by
  rw [List.filter_eq_nil_iff]
  intro a ha
  rw [List.mem_range'_1] at ha
  simpa using firstFrom_eq_none.mp h a ha.1 ha.2

theorem filter_range'_skip {P : Nat → Bool} {lo m r : Nat}
    (h : ∀ j, lo ≤ j → j < lo + m → P j = false) :
    (List.range' lo (m + r)).filter P = (List.range' (lo + m) r).filter P := by
  rw [Nat.add_comm m r, ← List.range'_append_1 lo m r, List.filter_append, filter_range'_of_none,
    List.nil_append]
  exact firstFrom_eq_none.mpr h

theorem filter_range'_of_some {P : Nat → Bool} {lo n m : Nat} (h : firstFrom P lo n = some m) :
    (List.range' lo n).filter P = m :: (List.range' (m + 1) (lo + n - (m + 1))).filter P := by
  obtain ⟨h1, h2, h3, h4⟩ := firstFrom_eq_some.mp h
  have hn : n = (m - lo) + (1 + (lo + n - (m + 1))) := by omega
  conv_lhs => rw [hn]
  rw [filter_range'_skip fun j hj1 hj2 => h4 j hj1 (by omega), show lo + (m - lo) = m by omega,
    Nat.add_comm 1, List.range'_succ]
  simp [h3]

theorem filter_range'_add (P : Nat → Bool) (q : Nat) : ∀ (k n : Nat),
    (List.range' (q + k) n).filter P = ((List.range' k n).filter (fun s => P (q + s))).map (q + ·)
  | _, 0 => rfl
  | k, n + 1 => by
    simp only [List.range'_succ, List.filter_cons]
    rw [Nat.add_assoc, filter_range'_add P q (k + 1) n]
    split <;> simp

theorem firstFrom_cons_shift (b c : UInt8) (bs : Bytes) : ∀ (pos n : Nat),
    firstFrom (fun i => (b :: bs)[i]? == some c) (pos + 1) n =
      (firstFrom (fun i => bs[i]? == some c) pos n).map (· + 1)
  | _, 0 => rfl
  | pos, n + 1 => by
    simp only [firstFrom, List.getElem?_cons_succ]
    split
    · rfl
    · exact firstFrom_cons_shift b c bs (pos + 1) n

theorem find_eq_firstFrom : ∀ (data : Bytes) (c : UInt8) (pos : Nat),
    find data c pos = firstFrom (fun i => data[i]? == some c) pos (data.length - pos)
  | [], c, pos => by simp [find, firstFrom]
  | b :: bs, c, 0 => by
    rw [List.length_cons, Nat.sub_zero, firstFrom, find, find_eq_firstFrom bs c 0]
    simp only [List.getElem?_cons_zero, Option.some.injEq, beq_iff_eq, Nat.sub_zero]
    split
    · rfl
    · exact (firstFrom_cons_shift b c bs 0 _).symm
  | b :: bs, c, pos + 1 => by
    rw [find, find_eq_firstFrom bs c pos, List.length_cons, Nat.add_sub_add_right]
    exact (firstFrom_cons_shift b c bs pos _).symm

/-! ## Encoding parameters -/

/-- Modelled from the spec: `EncodingParameters`, declared outside src/: a line feed `lineFeedWidth`
∈ {1, 2, 4} bytes wide, its `0x0A` byte at `lineFeedIndex` ∈ {0, lineFeedWidth − 1}. -/
structure EncodingParameters where
  lineFeedWidth : Nat
  lineFeedIndex : Nat
  width_cases : lineFeedWidth = 1 ∨ lineFeedWidth = 2 ∨ lineFeedWidth = 4
  index_cases : lineFeedIndex = 0 ∨ lineFeedIndex = lineFeedWidth - 1
deriving DecidableEq

namespace EncodingParameters

def singleByte : EncodingParameters := ⟨1, 0, by decide, by decide⟩

instance : Inhabited EncodingParameters := ⟨singleByte⟩

/-- Modelled from the spec: `getBeforeCrOffset`, from a hit `0x0A` byte back to its code unit's
start. -/
def getBeforeCrOffset (p : EncodingParameters) : Nat := p.lineFeedIndex

theorem one_le_width (p : EncodingParameters) : 1 ≤ p.lineFeedWidth := by
  rcases p.width_cases with h | h | h <;> omega

theorem index_lt_width (p : EncodingParameters) : p.lineFeedIndex < p.lineFeedWidth := by
  have := p.one_le_width
  rcases p.index_cases with h | h <;> omega

end EncodingParameters

end Klogg

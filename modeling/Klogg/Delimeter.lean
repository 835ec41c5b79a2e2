import Klogg.Basic

/-!
# Delimiter searches

`findNextSingleByteDelimeter` is a plain `find`. `findNextMultiByteDelimeter`
skips every candidate byte whose companion bytes in the code unit are not all
zero or leave the view. Both return the least index their acceptance test
takes (`findNextMultiByteDelimeter_eq`), so the resume-search loop of the
multi-byte search never runs out of candidates.
-/

namespace Klogg

open EncodingParameters

/-- The `isNotDelimeter` lambda of `findNextMultiByteDelimeter`. -/
def isNotDelimeter (p : EncodingParameters) (data : Bytes) (checkPos : Nat) : Bool :=
  let lineFeedWidth := p.lineFeedWidth
  let isCheckForward := p.lineFeedIndex == 0
  if isCheckForward && checkPos + lineFeedWidth > data.length then true
  else if !isCheckForward && checkPos < lineFeedWidth - 1 then true
  else (List.range' 1 (lineFeedWidth - 1)).any fun i =>
    (if isCheckForward then data[checkPos + i]? else data[checkPos - i]?) != some nul

/-- The `while` loop of `findNextMultiByteDelimeter`, at most `fuel` passes. -/
def findNextMultiByteDelimeterLoop (p : EncodingParameters) (data : Bytes) (d : UInt8) :
    Nat → Option Nat → Option Nat
  | _, none => none
  | 0, some n => some n
  | fuel + 1, some n =>
    if isNotDelimeter p data n then findNextMultiByteDelimeterLoop p data d fuel (find data d (n + 1))
    else some n

def findNextMultiByteDelimeter (p : EncodingParameters) (data : Bytes) (d : UInt8) : Option Nat :=
  findNextMultiByteDelimeterLoop p data d data.length (find data d 0)

def findNextSingleByteDelimeter (_ : EncodingParameters) (data : Bytes) (d : UInt8) : Option Nat :=
  find data d 0

abbrev FindDelimeter := EncodingParameters → Bytes → UInt8 → Option Nat

def isMultiByteDelimeter (p : EncodingParameters) (data : Bytes) (d : UInt8) (i : Nat) : Bool :=
  data[i]? == some d && !isNotDelimeter p data i

/-! ## Least accepted indices -/

theorem firstFrom_skip {P : Nat → Bool} : ∀ {lo m k : Nat},
    (∀ j, lo ≤ j → j < lo + m → P j = false) → firstFrom P lo (m + k) = firstFrom P (lo + m) k
  | lo, 0, k, _ => by simp
  | lo, m + 1, k, h => by
    rw [Nat.add_right_comm, firstFrom, h lo le_rfl (by omega), if_neg (by simp),
      firstFrom_skip fun j h1 h2 => h j (by omega) (by omega), Nat.add_right_comm, Nat.add_assoc]

theorem findNextSingleByteDelimeter_eq (p : EncodingParameters) (data : Bytes) (d : UInt8) :
    findNextSingleByteDelimeter p data d = firstFrom (fun i => data[i]? == some d) 0 data.length := by
  simp [findNextSingleByteDelimeter, find_eq_firstFrom]

theorem findNextMultiByteDelimeterLoop_find (p : EncodingParameters) (data : Bytes) (d : UInt8) :
    ∀ (fuel lo : Nat), data.length ≤ lo + fuel →
      findNextMultiByteDelimeterLoop p data d fuel (find data d lo) =
        firstFrom (isMultiByteDelimeter p data d) lo (data.length - lo) := by
  intro fuel
  induction fuel with
  | zero =>
    intro lo h
    rw [find_eq_firstFrom, show data.length - lo = 0 by omega]
    rfl
  | succ fuel ih =>
    intro lo h
    rw [find_eq_firstFrom]
    cases hf : firstFrom (fun i => data[i]? == some d) lo (data.length - lo) with
    | none =>
      refine (firstFrom_eq_none.mpr fun k h1 h2 => ?_).symm
      simp [isMultiByteDelimeter, firstFrom_eq_none.mp hf k h1 h2]
    | some n =>
      obtain ⟨h1, h2, h3, h4⟩ := firstFrom_eq_some.mp hf
      have skip : ∀ j, lo ≤ j → j < lo + (n - lo) → isMultiByteDelimeter p data d j = false := by
        intro j hj1 hj2
        simp [isMultiByteDelimeter, h4 j hj1 (by omega)]
      rw [show data.length - lo = (n - lo) + (data.length - n) by omega, firstFrom_skip skip,
        show lo + (n - lo) = n by omega, show data.length - n = (data.length - (n + 1)) + 1 by omega,
        firstFrom, findNextMultiByteDelimeterLoop]
      simp only [isMultiByteDelimeter, h3, Bool.true_and]
      cases hn : isNotDelimeter p data n
      · simp
      · simpa [find_eq_firstFrom] using ih (n + 1) (by omega)

theorem findNextMultiByteDelimeter_eq (p : EncodingParameters) (data : Bytes) (d : UInt8) :
    findNextMultiByteDelimeter p data d = firstFrom (isMultiByteDelimeter p data d) 0 data.length := by
  simpa using findNextMultiByteDelimeterLoop_find p data d data.length 0 (by omega)

end Klogg

import Klogg.MultiByte

/-!
# The multi-byte delimiter search against its contract

`IsDelimeterAt` says what `findNextMultiByteDelimeter` looks for: the byte `d`
whose `lineFeedWidth − 1` companion bytes, after it when `lineFeedIndex = 0` and
before it otherwise, lie inside the data and are zero. The acceptance test of
the search is exactly this (`isMultiByteDelimeter_iff`), so the search returns
the least such index. The `for` loop of `isNotDelimeter` reads companion bytes
only once its bounds test has passed, so every byte it reads for a candidate
`find` returned lies inside the data (`isNotDelimeterReads_lt`); and the
resume-search loop stops by its own test: more passes give the same answer.
-/

namespace Klogg

open EncodingParameters

/-- `d` at `k`, its `lineFeedWidth − 1` companion bytes after or before it inside `data` and
zero. -/
def IsDelimeterAt (p : EncodingParameters) (data : Bytes) (d : UInt8) (k : Nat) : Prop :=
  data[k]? = some d ∧
    if p.lineFeedIndex = 0 then
      k + p.lineFeedWidth ≤ data.length ∧ ∀ i < p.lineFeedWidth, 1 ≤ i → data[k + i]? = some nul
    else p.lineFeedWidth - 1 ≤ k ∧ ∀ i < p.lineFeedWidth, 1 ≤ i → data[k - i]? = some nul

instance (p : EncodingParameters) (data : Bytes) (d : UInt8) (k : Nat) :
    Decidable (IsDelimeterAt p data d k) := by
  unfold IsDelimeterAt; infer_instance

theorem IsDelimeterAt.lt_length {p : EncodingParameters} {data : Bytes} {d : UInt8} {k : Nat}
    (h : IsDelimeterAt p data d k) : k < data.length :=
  (List.getElem?_eq_some_iff.mp h.1).1

theorem isMultiByteDelimeter_iff {p : EncodingParameters} {data : Bytes} {d : UInt8} {k : Nat} :
    isMultiByteDelimeter p data d k = true ↔ IsDelimeterAt p data d k := by
  rw [isMultiByteDelimeter, Bool.and_eq_true, beq_iff_eq, Bool.not_eq_true', ← Bool.not_eq_true,
    IsDelimeterAt]
  by_cases h0 : p.lineFeedIndex = 0
  · rw [isNotDelimeter_forward h0, if_pos h0]
    simp only [not_or, not_exists, not_and, not_not, not_lt]
    exact and_congr_right fun _ => and_congr_right fun _ =>
      ⟨fun h i h2 h1 => h i h1 h2, fun h i h1 h2 => h i h2 h1⟩
  · rw [isNotDelimeter_backward h0, if_neg h0]
    simp only [not_or, not_exists, not_and, not_not, not_lt]
    exact and_congr_right fun _ => and_congr_right fun _ =>
      ⟨fun h i h2 h1 => h i h1 h2, fun h i h1 h2 => h i h2 h1⟩

theorem isMultiByteDelimeter_eq_false {p : EncodingParameters} {data : Bytes} {d : UInt8}
    {k : Nat} : isMultiByteDelimeter p data d k = false ↔ ¬ IsDelimeterAt p data d k := by
  rw [← isMultiByteDelimeter_iff, Bool.not_eq_true]

/-! ## What the search reads -/

/-- The bytes `isNotDelimeter( checkPos )` reads, in order. -/
def isNotDelimeterReads (p : EncodingParameters) (data : Bytes) (checkPos : Nat) : List Nat :=
  let lineFeedWidth := p.lineFeedWidth
  let isCheckForward := p.lineFeedIndex == 0
  if isCheckForward && checkPos + lineFeedWidth > data.length then []
  else if !isCheckForward && checkPos < lineFeedWidth - 1 then []
  else
    let companions := (List.range' 1 (lineFeedWidth - 1)).map fun i =>
      if isCheckForward then checkPos + i else checkPos - i
    let zeros := companions.takeWhile fun j => data[j]? == some nul
    zeros ++ (companions.drop zeros.length).take 1

def findNextMultiByteDelimeterCandidates (p : EncodingParameters) (data : Bytes) (d : UInt8) :
    Nat → Option Nat → List Nat
  | _, none => []
  | 0, some _ => []
  | fuel + 1, some n =>
    n :: if isNotDelimeter p data n then
      findNextMultiByteDelimeterCandidates p data d fuel (find data d (n + 1))
    else []

theorem find_lt_length {data : Bytes} {d : UInt8} {lo n : Nat} (h : find data d lo = some n) :
    n < data.length := by
  rw [find_eq_firstFrom] at h
  have := firstFrom_eq_some.mp h
  omega

theorem findNextMultiByteDelimeterCandidates_lt (p : EncodingParameters) (data : Bytes)
    (d : UInt8) : ∀ (fuel lo : Nat), ∀ n ∈ findNextMultiByteDelimeterCandidates p data d fuel
      (find data d lo), n < data.length
  | 0, lo, n, hn => by
    cases h : find data d lo <;> simp [h, findNextMultiByteDelimeterCandidates] at hn
  | fuel + 1, lo, n, hn => by
    cases h : find data d lo with
    | none => simp [h, findNextMultiByteDelimeterCandidates] at hn
    | some m =>
      simp only [h, findNextMultiByteDelimeterCandidates, List.mem_cons] at hn
      rcases hn with rfl | hn
      · exact find_lt_length h
      · split at hn
        · exact findNextMultiByteDelimeterCandidates_lt p data d fuel (m + 1) n hn
        · simp at hn

theorem mem_of_mem_readsUntil {l : List Nat} {P : Nat → Bool} {j : Nat}
    (h : j ∈ l.takeWhile P ++ (l.drop (l.takeWhile P).length).take 1) : j ∈ l := by
  rcases List.mem_append.mp h with h | h
  · exact List.takeWhile_subset P h
  · exact List.mem_of_mem_drop (List.mem_of_mem_take h)

theorem isNotDelimeterReads_lt {p : EncodingParameters} {data : Bytes} {checkPos : Nat}
    (hpos : checkPos < data.length) : ∀ j ∈ isNotDelimeterReads p data checkPos,
      j < data.length ∧ ∃ i, 0 < i ∧ i < p.lineFeedWidth ∧
        if p.lineFeedIndex = 0 then j = checkPos + i else j + i = checkPos := by
  intro j hj
  dsimp only [isNotDelimeterReads] at hj
  split at hj
  · simp at hj
  split at hj
  · simp at hj
  rename_i hf hb
  obtain ⟨i, hi, rfl⟩ := List.mem_map.mp (mem_of_mem_readsUntil hj)
  have hi := List.mem_range'_1.mp hi
  by_cases h0 : p.lineFeedIndex = 0
  · simp only [h0, beq_self_eq_true, Bool.true_and, gt_iff_lt, decide_eq_true_eq, not_lt,
      ite_true] at hf ⊢
    exact ⟨by omega, i, by omega, by omega, rfl⟩
  · simp only [h0, beq_iff_eq, ite_false]
    have : p.lineFeedWidth - 1 ≤ checkPos := by simpa [h0] using hb
    exact ⟨by omega, i, by omega, by omega, by omega⟩

/-- The least index of a delimiter, or `npos` when there is none; every byte read is inside `data`
at an offset computed without wrapping, and the resume-search loop stops by its own test. -/
theorem findNextMultiByteDelimeter_spec (p : EncodingParameters) (data : Bytes) (d : UInt8) :
    (∀ k, findNextMultiByteDelimeter p data d = some k ↔
        IsDelimeterAt p data d k ∧ ∀ j < k, ¬ IsDelimeterAt p data d j) ∧
    (findNextMultiByteDelimeter p data d = none ↔ ∀ k, ¬ IsDelimeterAt p data d k) ∧
    (∀ n ∈ findNextMultiByteDelimeterCandidates p data d data.length (find data d 0),
        ∀ j ∈ isNotDelimeterReads p data n, j < data.length ∧ ∃ i, 0 < i ∧ i < p.lineFeedWidth ∧
          if p.lineFeedIndex = 0 then j = n + i else j + i = n) ∧
    (∀ fuel, data.length ≤ fuel →
        findNextMultiByteDelimeterLoop p data d fuel (find data d 0) =
          findNextMultiByteDelimeter p data d) := by
  rw [findNextMultiByteDelimeter_eq]
  refine ⟨fun k => ?_, ?_, fun n hn => isNotDelimeterReads_lt
    (findNextMultiByteDelimeterCandidates_lt p data d _ 0 n hn), fun fuel hfuel => ?_⟩
  · rw [firstFrom_eq_some, isMultiByteDelimeter_iff]
    constructor
    · rintro ⟨-, -, hk, hlt⟩
      exact ⟨hk, fun j hj => isMultiByteDelimeter_eq_false.mp (hlt j (Nat.zero_le j) hj)⟩
    · rintro ⟨hk, hlt⟩
      refine ⟨Nat.zero_le k, by simpa using hk.lt_length, hk, fun j _ hj => ?_⟩
      exact isMultiByteDelimeter_eq_false.mpr (hlt j hj)
  · rw [firstFrom_eq_none]
    refine ⟨fun h k hk => ?_, fun h k _ _ => isMultiByteDelimeter_eq_false.mpr (h k)⟩
    exact isMultiByteDelimeter_eq_false.mp (h k (Nat.zero_le k) (by simpa using hk.lt_length)) hk
  · simpa using findNextMultiByteDelimeterLoop_find p data d fuel 0 (by omega)

example : findNextMultiByteDelimeter EncodingParameters.utf16be [10, 0, 10] lineFeed = some 2 := by
  decide

end Klogg

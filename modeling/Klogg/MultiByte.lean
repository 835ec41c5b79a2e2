import Klogg.DoIndex

/-!
# Line feeds and line widths of multi-byte codecs

`findNextMultiByteDelimeter` accepts a `0x0A` byte whose companion bytes are
zero: its test is that the code unit starting `lineFeedIndex` bytes before the
byte is U+000A (`isMultiByteDelimeter_lineFeed`), whether or not that start is a
code-unit boundary. When U+000A occurs in the data only on boundaries, a parse
returns the offset after each of its code units (`parseDataBlock_multiByte`);
a `0x0A` byte inside another code unit whose neighbour in the next code unit is
zero is taken for a line feed.

The parser measures a line from its start to `charOffsetWithinBlock` of its end,
in bytes divided by the line feed's width. For a line the block ends before a
line feed closes, that end is `lineFeedIndex` bytes short of the block's end
(`parseDataBlock_openLine`).
-/

namespace Klogg

open EncodingParameters

/-- Modelled from the spec: the encoding parameters of UTF-16LE and UTF-16BE. -/
def EncodingParameters.utf16le : EncodingParameters := ⟨2, 0, by decide, by decide⟩
def EncodingParameters.utf16be : EncodingParameters := ⟨2, 1, by decide, by decide⟩

def lineFeedUnitByte (p : EncodingParameters) (i : Nat) : UInt8 :=
  if i = p.lineFeedIndex then lineFeed else nul

def isLineFeedUnit (p : EncodingParameters) (F : Bytes) (s : Nat) : Bool :=
  (List.range p.lineFeedWidth).all fun i => F[s + i]? == some (lineFeedUnitByte p i)

theorem isLineFeedUnit_iff {p : EncodingParameters} {F : Bytes} {s : Nat} :
    isLineFeedUnit p F s = true ↔ ∀ i < p.lineFeedWidth, F[s + i]? = some (lineFeedUnitByte p i) := by
  simp [isLineFeedUnit]

theorem isLineFeedUnit_drop (p : EncodingParameters) (F : Bytes) (k s : Nat) :
    isLineFeedUnit p (F.drop k) s = isLineFeedUnit p F (k + s) := by
  simp [isLineFeedUnit, List.getElem?_drop, Nat.add_assoc]

theorem isLineFeedUnit_length {p : EncodingParameters} {F : Bytes} {s : Nat}
    (h : isLineFeedUnit p F s = true) : s + p.lineFeedWidth ≤ F.length := by
  have hw := p.one_le_width
  have := isLineFeedUnit_iff.mp h (p.lineFeedWidth - 1) (by omega)
  have := (List.getElem?_eq_some_iff.mp this).1
  omega

theorem isNotDelimeter_forward {p : EncodingParameters} {data : Bytes} {j : Nat} (h0 : p.lineFeedIndex = 0) :
    isNotDelimeter p data j = true ↔
      data.length < j + p.lineFeedWidth ∨ ∃ i, 1 ≤ i ∧ i < p.lineFeedWidth ∧ data[j + i]? ≠ some nul := by
  simp [isNotDelimeter, h0, Nat.add_sub_cancel' p.one_le_width, and_assoc]

theorem isNotDelimeter_backward {p : EncodingParameters} {data : Bytes} {j : Nat} (h0 : p.lineFeedIndex ≠ 0) :
    isNotDelimeter p data j = true ↔
      j < p.lineFeedWidth - 1 ∨ ∃ i, 1 ≤ i ∧ i < p.lineFeedWidth ∧ data[j - i]? ≠ some nul := by
  simp [isNotDelimeter, h0, Nat.add_sub_cancel' p.one_le_width, and_assoc]

theorem isMultiByteDelimeter_lineFeed (p : EncodingParameters) (data : Bytes) (j : Nat) :
    isMultiByteDelimeter p data lineFeed j =
      (decide (p.lineFeedIndex ≤ j) && isLineFeedUnit p data (j - p.lineFeedIndex)) := by
  have hw := p.one_le_width
  rw [Bool.eq_iff_iff, Bool.and_eq_true, decide_eq_true_iff, isLineFeedUnit_iff, isMultiByteDelimeter,
    Bool.and_eq_true, beq_iff_eq, Bool.not_eq_true', ← Bool.not_eq_true]
  by_cases h0 : p.lineFeedIndex = 0
  · simp only [isNotDelimeter_forward h0, lineFeedUnitByte, h0, Nat.sub_zero, Nat.zero_le, true_and,
      not_or, not_exists, not_and, not_not, not_lt]
    constructor
    · rintro ⟨hj, -, hz⟩ i hi
      rcases Nat.eq_zero_or_pos i with rfl | hi0
      · simpa using hj
      · simpa [hi0.ne'] using hz i hi0 hi
    · intro h
      have hlast := (List.getElem?_eq_some_iff.mp (h (p.lineFeedWidth - 1) (by omega))).1
      refine ⟨by simpa using h 0 hw, by omega, fun i h1 h2 => ?_⟩
      simpa [(show i ≠ 0 by omega)] using h i h2
  · have h1 : p.lineFeedIndex = p.lineFeedWidth - 1 := p.index_cases.resolve_left h0
    simp only [isNotDelimeter_backward h0, lineFeedUnitByte, h1, not_or, not_exists, not_and, not_not, not_lt]
    constructor
    · rintro ⟨hj, hle, hz⟩
      refine ⟨hle, fun i hi => ?_⟩
      by_cases hi1 : i = p.lineFeedWidth - 1
      · simpa [hi1, Nat.sub_add_cancel hle] using hj
      · rw [show j - (p.lineFeedWidth - 1) + i = j - (p.lineFeedWidth - 1 - i) by omega, if_neg hi1]
        exact hz _ (by omega) (by omega)
    · rintro ⟨hle, h⟩
      refine ⟨by simpa [Nat.sub_add_cancel hle] using h (p.lineFeedWidth - 1) (by omega), hle, fun i h1 h2 => ?_⟩
      have := h (p.lineFeedWidth - 1 - i) (by omega)
      rwa [show j - (p.lineFeedWidth - 1) + (p.lineFeedWidth - 1 - i) = j - i by omega,
        if_neg (by omega)] at this

/-! ## The offsets of a parse -/

theorem firstFrom_eq_map_of_iff {P Q : Nat → Bool} {lo n lo' n' : Nat} (g : Nat → Nat)
    (hg : ∀ s t, lo' ≤ s → s < t → g s < g t)
    (hP : ∀ j, lo ≤ j → j < lo + n →
      (P j = true ↔ ∃ s, lo' ≤ s ∧ s < lo' + n' ∧ g s = j ∧ Q s = true))
    (hQ : ∀ s, lo' ≤ s → s < lo' + n' → Q s = true → lo ≤ g s ∧ g s < lo + n) :
    firstFrom P lo n = (firstFrom Q lo' n').map g := by
  cases hq : firstFrom Q lo' n' with
  | none =>
    refine firstFrom_eq_none.mpr fun j h1 h2 => Bool.eq_false_iff.mpr fun hj => ?_
    obtain ⟨s, hs1, hs2, -, hs⟩ := (hP j h1 h2).mp hj
    simp [firstFrom_eq_none.mp hq s hs1 hs2] at hs
  | some s =>
    obtain ⟨hs1, hs2, hs, hmin⟩ := firstFrom_eq_some.mp hq
    obtain ⟨hg1, hg2⟩ := hQ s hs1 hs2 hs
    refine firstFrom_eq_some.mpr ⟨hg1, hg2, (hP _ hg1 hg2).mpr ⟨s, hs1, hs2, rfl, hs⟩,
      fun j h1 h2 => Bool.eq_false_iff.mpr fun hj => ?_⟩
    obtain ⟨t, ht1, -, rfl, ht⟩ := (hP j h1 (by omega)).mp hj
    have hts : t < s := by
      by_contra hts
      rcases Nat.eq_or_lt_of_le (Nat.le_of_not_lt hts) with rfl | hlt
      · omega
      · have := hg s t hs1 hlt; omega
    simp [hmin t ht1 hts] at ht

theorem findNextMultiByteDelimeter_drop (p : EncodingParameters) (b : Bytes) (k : Nat) :
    findNextMultiByteDelimeter p (b.drop k) lineFeed =
      (firstFrom (isLineFeedUnit p b) k (b.length - k)).map
        (fun s => s + p.lineFeedIndex - k) := by
  have hi := p.index_lt_width
  rw [findNextMultiByteDelimeter_eq]
  refine firstFrom_eq_map_of_iff _ (fun s t _ h => by omega) (fun j _ hj => ?_) (fun s hs _ h => ?_)
  · rw [isMultiByteDelimeter_lineFeed, Bool.and_eq_true, decide_eq_true_iff, isLineFeedUnit_drop]
    constructor
    · rintro ⟨h1, h2⟩
      have := isLineFeedUnit_length h2
      exact ⟨k + (j - p.lineFeedIndex), by omega, by simp at hj this; omega, by omega, h2⟩
    · rintro ⟨s, hs1, -, rfl, hs⟩
      exact ⟨by omega, by rwa [show k + (s + p.lineFeedIndex - k - p.lineFeedIndex) = s by omega]⟩
  · have := isLineFeedUnit_length h
    simp only [List.length_drop]
    omega

/-- A parse from the start of a block in which U+000A occurs only on code-unit boundaries returns
the offset after each of its code units U+000A. -/
theorem parseDataBlock_multiByte {Codec : Type} {F : Bytes} {state : IndexingState Codec}
    (hw : state.encodingParams.lineFeedWidth ≠ 1)
    (halign : ∀ s, isLineFeedUnit state.encodingParams F s = true →
      state.encodingParams.lineFeedWidth ∣ s)
    (hpos : state.pos = 0) :
    (parseDataBlock 0 F state).1 =
      ((List.range F.length).filter (isLineFeedUnit state.encodingParams F)).map
        (fun s : Nat => (s : Int) + state.encodingParams.lineFeedWidth) := by
  have hQ : ∀ s, isLineFeedUnit state.encodingParams F s = true →
      s + state.encodingParams.lineFeedWidth ≤ F.length ∧ ∀ t, s < t →
        t < s + state.encodingParams.lineFeedWidth →
          isLineFeedUnit state.encodingParams F t = false := fun s hs =>
    ⟨isLineFeedUnit_length hs, fun t h1 h2 => Bool.eq_false_iff.mpr fun ht => by
      have hs' := halign s hs
      have ht' := halign t ht
      rcases state.encodingParams.width_cases with h | h | h <;> rw [h] at hs' ht' h2 <;> omega⟩
  unfold parseDataBlock
  rw [chooseFindDelimeter, if_neg hw,
    parseDataBlockLoop_eq_filter (fun k _ => findNextMultiByteDelimeter_drop _ F k) hQ rfl
      (by simp [hpos]) (by simp [hpos]) (Nat.zero_le _) (by omega),
    List.range_eq_range', Nat.sub_zero]
  simp

theorem parseDataBlock_multiByte_twoLines :
    let F : Bytes := [0x41, 0, 0x0A, 0, 0x42, 0, 0x0A, 0]
    let state : IndexingState Unit :=
      { IndexingState.init with encodingParams := EncodingParameters.utf16le }
    (parseDataBlock 0 F state).1 =
      ((List.range F.length).filter (isLineFeedUnit state.encodingParams F)).map
        (fun s : Nat => (s : Int) + state.encodingParams.lineFeedWidth) :=
  @parseDataBlock_multiByte Unit [0x41, 0, 0x0A, 0, 0x42, 0, 0x0A, 0]
    { IndexingState.init with encodingParams := EncodingParameters.utf16le } (by decide)
    (fun s hs => by
      have hall : ∀ t < 8, isLineFeedUnit EncodingParameters.utf16le
          [0x41, 0, 0x0A, 0, 0x42, 0, 0x0A, 0] t = true → 2 ∣ t := by decide
      have h := isLineFeedUnit_length hs
      simp only [EncodingParameters.utf16le, List.length_cons, List.length_nil] at h
      exact hall s (by omega) hs)
    rfl

/-- UTF-16LE: the code units U+0A41 U+4100 hold the bytes `41 0A 00 41`. A full index of them
takes the `0x0A` byte of the first for a line feed, since the byte after it is zero. -/
theorem FullIndexOperation.misalignedLineFeed :
    let F : Bytes := [0x41, 0x0A, 0x00, 0x41]
    isLineFeedUnit EncodingParameters.utf16le F 0 = false ∧
      isLineFeedUnit EncodingParameters.utf16le F 2 = false ∧
      (FullIndexOperation.run (Env.fixed EncodingParameters.utf16le) none (.steady F [F]) .none
        false (IndexingData.empty false)).2.data.linePosition = ⟨[3, 5], true⟩ := by
  decide

/-! ## The width of a line the block ends in -/

theorem chooseFindDelimeter_absent (p : EncodingParameters) {v : Bytes} {d : UInt8}
    (h : ∀ i : Nat, v[i]? ≠ some d) : chooseFindDelimeter p p v d = none := by
  unfold chooseFindDelimeter
  split
  · rw [findNextSingleByteDelimeter_eq, firstFrom_eq_none]
    intro k _ _
    simpa using h k
  · rw [findNextMultiByteDelimeter_eq, firstFrom_eq_none]
    intro k _ _
    simp [isMultiByteDelimeter, h k]

theorem expandTabsInLineLoop_noTab {f : FindDelimeter} {p : EncodingParameters} {pw : Int}
    {v : Bytes} (h : f p v tab = none) (fuel off : Nat) (a : Int) :
    expandTabsInLineLoop f p pw fuel off v a = a := by
  cases fuel with
  | zero => rfl
  | succ fuel => simp only [expandTabsInLineLoop, h]; split <;> rfl

theorem parseDataBlock_openLine {Codec : Type} {F : Bytes} {state : IndexingState Codec}
    (hF : ∀ i : Nat, F[i]? ≠ some lineFeed ∧ F[i]? ≠ some tab) (hne : F ≠ []) (hpos : state.pos = 0) :
    (parseDataBlock 0 F state).2.maxLength =
      max state.maxLength (((F.length : Int) - state.encodingParams.lineFeedIndex).tdiv
        state.encodingParams.lineFeedWidth + state.additionalSpaces) := by
  have hlen : 0 < F.length := List.length_pos.mpr hne
  unfold parseDataBlock
  rw [parseDataBlockLoop_noLineFeed (k := 0) (by rw [hpos]; omega) (by simp [hpos]) hlen
    (by simpa using chooseFindDelimeter_absent state.encodingParams fun i => (hF i).1)]
  simp only [IndexingState.measure, List.drop_zero, hpos, Int.sub_zero, Int.add_zero, expandTabsInLine,
    expandTabsInLineLoop_noTab (chooseFindDelimeter_absent state.encodingParams fun i => (hF i).2)]

/-- Big-endian codecs: an open line of `n ≥ 1` whole code units with no `0x0A` and no `0x09` byte
is measured `n − 1` wide. -/
theorem parseDataBlock_openLine_bigEndian {Codec : Type} {F : Bytes} {state : IndexingState Codec}
    {n : Nat} (hbe : state.encodingParams.lineFeedIndex ≠ 0)
    (hF : ∀ i : Nat, F[i]? ≠ some lineFeed ∧ F[i]? ≠ some tab) (hn : F.length = n * state.encodingParams.lineFeedWidth)
    (hn0 : 0 < n) (hpos : state.pos = 0) (hsp : state.additionalSpaces = 0) :
    (parseDataBlock 0 F state).2.maxLength = max state.maxLength (n - 1) := by
  have hne : F ≠ [] := List.ne_nil_of_length_pos (by rw [hn]; exact Nat.mul_pos hn0 state.encodingParams.one_le_width)
  have h1 := state.encodingParams.index_cases.resolve_left hbe
  rw [parseDataBlock_openLine hF hne hpos, hn, hsp, h1]
  congr 1
  rcases state.encodingParams.width_cases with h | h | h <;> rw [h] at h1 ⊢
  · exact absurd h1 hbe
  all_goals rw [Int.tdiv_eq_ediv (by omega) (by omega)]; push_cast; omega

theorem parseDataBlock_openLine_bigEndian_AB :
    (parseDataBlock 0 [0, 0x41, 0, 0x42]
      ({ IndexingState.init with encodingParams := EncodingParameters.utf16be } :
        IndexingState Unit)).2.maxLength = max 0 (((2 : Nat) : Int) - 1) :=
  parseDataBlock_openLine_bigEndian (n := 2) (by decide)
    (fun i => by rcases i with _ | _ | _ | _ | i <;> simp [lineFeed, tab]) rfl (by decide) rfl rfl

/-- UTF-16LE `A⇥` is measured 7 wide where tab stops of eight code units give 8: the tab's column
is taken in bytes. UTF-16BE `A`, left open, is measured 0 wide where it is 1. -/
theorem parseDataBlock_multiByteWidths :
    (parseDataBlock 0 [0x41, 0, 9, 0]
      ({ IndexingState.init with encodingParams := EncodingParameters.utf16le } : IndexingState Unit)).2.maxLength = 7 ∧
    (parseDataBlock 0 [0, 0x41]
      ({ IndexingState.init with encodingParams := EncodingParameters.utf16be } : IndexingState Unit)).2.maxLength = 0 := by
  decide

end Klogg

import Klogg.ParseDataBlock

/-!
# What a parse of one block returns

For every codec the offsets `parseDataBlock` returns increase from the parser's
position, stay in the block, and the parser ends on the last of them
(`parseDataBlock_lines`). Each pass advances by a line feed's width at least,
so the bound on the passes is never reached.
-/

namespace Klogg

open EncodingParameters

/-- What the parser relies on from its search for line feeds. -/
def FindDelimeter.Bounded (f : FindDelimeter) (p : EncodingParameters) : Prop :=
  ∀ v n, f p v lineFeed = some n →
    p.lineFeedIndex ≤ n ∧ n + p.lineFeedWidth ≤ v.length + p.lineFeedIndex

theorem firstFrom_spec_of_some {P : Nat → Bool} {lo n m : Nat} (h : firstFrom P lo n = some m) :
    P m = true ∧ m < lo + n :=
  let ⟨_, h2, h3, _⟩ := firstFrom_eq_some.mp h
  ⟨h3, h2⟩

theorem isNotDelimeter_false {p : EncodingParameters} {data : Bytes} {n : Nat}
    (h : isNotDelimeter p data n = false) :
    (p.lineFeedIndex = 0 → n + p.lineFeedWidth ≤ data.length) ∧
      (p.lineFeedIndex ≠ 0 → p.lineFeedWidth - 1 ≤ n) := by
  unfold isNotDelimeter at h
  by_cases h0 : p.lineFeedIndex = 0 <;> simp_all

theorem chooseFindDelimeter_bounded (p : EncodingParameters) :
    (chooseFindDelimeter p).Bounded p := by
  intro v n h
  have hw := p.one_le_width
  unfold chooseFindDelimeter at h
  split at h
  · rename_i h1
    rw [findNextSingleByteDelimeter_eq] at h
    have := (firstFrom_spec_of_some h).2
    rcases p.index_cases with h2 | h2 <;> omega
  · rw [findNextMultiByteDelimeter_eq] at h
    obtain ⟨h1, h2⟩ := firstFrom_spec_of_some h
    simp only [isMultiByteDelimeter, Bool.and_eq_true, Bool.not_eq_true'] at h1
    obtain ⟨hf, hb⟩ := isNotDelimeter_false h1.2
    rcases p.index_cases with h3 | h3
    · have := hf h3; omega
    · by_cases h4 : p.lineFeedIndex = 0
      · have := hf h4; omega
      · have := hb h4; omega

/-! ## One pass -/

@[simp] theorem findNextLineFeed_fst {Codec : Type} (f : FindDelimeter) (block : Bytes) (k : Nat)
    (state : IndexingState Codec) :
    (findNextLineFeed f block k state).1 = (f state.encodingParams (block.drop k) lineFeed).isNone :=
  rfl

theorem findNextLineFeed_of_some {Codec : Type} {f : FindDelimeter} {block : Bytes} {k n : Nat}
    {state : IndexingState Codec} (h : f state.encodingParams (block.drop k) lineFeed = some n) :
    findNextLineFeed f block k state =
      (false, (k + n : Nat) - (state.encodingParams.lineFeedIndex : Int),
        expandTabsInLine f state.encodingParams k ((block.drop k).take n) k
          state.additionalSpaces) := by
  simp [findNextLineFeed, h, charOffsetWithinBlock, getBeforeCrOffset]

theorem findNextLineFeed_of_none {Codec : Type} {f : FindDelimeter} {block : Bytes} {k : Nat}
    {state : IndexingState Codec} (hk : k ≤ block.length)
    (h : f state.encodingParams (block.drop k) lineFeed = none) :
    findNextLineFeed f block k state =
      (true, (block.length : Int) - (state.encodingParams.lineFeedIndex : Int),
        expandTabsInLine f state.encodingParams k (block.drop k) k state.additionalSpaces) := by
  simp [findNextLineFeed, h, charOffsetWithinBlock, getBeforeCrOffset, Nat.add_sub_cancel' hk,
    List.take_of_length_le]

def IndexingState.measure {Codec : Type} (state : IndexingState Codec)
    (currentDataEnd additionalSpaces : Int) : IndexingState Codec :=
  { state with
    additionalSpaces := additionalSpaces,
    maxLength := max state.maxLength
      ((currentDataEnd - state.pos).tdiv state.encodingParams.lineFeedWidth + additionalSpaces) }

def IndexingState.nextLine {Codec : Type} (state : IndexingState Codec) (currentDataEnd : Int) :
    IndexingState Codec :=
  { state with
    «end» := currentDataEnd, pos := currentDataEnd + state.encodingParams.lineFeedWidth,
    additionalSpaces := 0 }

section
variable {Codec : Type} {f : FindDelimeter} {bb : Int} {block : Bytes} {fuel k : Nat}
  {state : IndexingState Codec}

@[simp] theorem IndexingState.measure_pos (e a : Int) : (state.measure e a).pos = state.pos := rfl
@[simp] theorem IndexingState.measure_encodingParams (e a : Int) :
    (state.measure e a).encodingParams = state.encodingParams := rfl
@[simp] theorem IndexingState.nextLine_pos (e : Int) :
    (state.nextLine e).pos = e + state.encodingParams.lineFeedWidth := rfl
@[simp] theorem IndexingState.nextLine_encodingParams (e : Int) :
    (state.nextLine e).encodingParams = state.encodingParams := rfl

theorem parseDataBlockLoop_atEnd (hin : state.pos ≤ bb + block.length)
    (hk : (if bb ≤ state.pos then state.pos - bb else 0) = block.length) :
    parseDataBlockLoop f bb block (fuel + 1) state =
      ([], state.measure (block.length + bb) state.additionalSpaces) := by
  simp only [parseDataBlockLoop, Int.not_lt.mpr hin, ite_false, hk, ite_true]
  rfl

theorem parseDataBlockLoop_noLineFeed (hin : state.pos ≤ bb + block.length)
    (hk : (if bb ≤ state.pos then state.pos - bb else 0) = k) (hlt : k < block.length)
    (hn : f state.encodingParams (block.drop k) lineFeed = none) :
    parseDataBlockLoop f bb block (fuel + 1) state =
      ([], state.measure (block.length - state.encodingParams.lineFeedIndex + bb)
        (expandTabsInLine f state.encodingParams k (block.drop k) k state.additionalSpaces)) := by
  simp only [parseDataBlockLoop, Int.not_lt.mpr hin, ite_false, hk, Int.ofNat_inj, hlt.ne, ite_false, Int.toNat_ofNat,
    findNextLineFeed_of_none hlt.le hn, ite_true]
  rfl

theorem parseDataBlockLoop_lineFeed (hin : state.pos ≤ bb + block.length)
    (hk : (if bb ≤ state.pos then state.pos - bb else 0) = k) (hlt : k < block.length) {n : Nat}
    (hn : f state.encodingParams (block.drop k) lineFeed = some n) :
    let e := (k + n : Nat) - (state.encodingParams.lineFeedIndex : Int) + bb
    let next := (state.measure e
      (expandTabsInLine f state.encodingParams k ((block.drop k).take n) k
        state.additionalSpaces)).nextLine e
    parseDataBlockLoop f bb block (fuel + 1) state =
      (next.pos :: (parseDataBlockLoop f bb block fuel next).1,
        (parseDataBlockLoop f bb block fuel next).2) := by
  simp only [parseDataBlockLoop, Int.not_lt.mpr hin, ite_false, hk, Int.ofNat_inj, hlt.ne, ite_false, Int.toNat_ofNat, findNextLineFeed_of_some hn]
  rfl

theorem posWithinBlock_eq (hin : state.pos ≤ bb + block.length) :
    ∃ k : Nat, (if bb ≤ state.pos then state.pos - bb else 0) = k ∧ k ≤ block.length ∧
      state.pos ≤ bb + k :=
  ⟨(if bb ≤ state.pos then state.pos - bb else 0).toNat,
    Int.toNat_of_nonneg (by split <;> omega) |>.symm, by split <;> omega, by split <;> omega⟩

end

def ParsedLines {Codec : Type} (pos blockEnd : Int) (out : List Int × IndexingState Codec) :
    Prop :=
  List.Chain (· < ·) pos out.1 ∧ (∀ x ∈ out.1, x ≤ blockEnd) ∧ out.2.pos = out.1.getLast?.getD pos

theorem ParsedLines.nil {Codec : Type} {pos blockEnd : Int} {state : IndexingState Codec}
    (h : state.pos = pos) : ParsedLines pos blockEnd ([], state) :=
  ⟨List.Chain.nil, by simp, by simp [h]⟩

theorem ParsedLines.cons {Codec : Type} {pos blockEnd x : Int} {out : List Int × IndexingState Codec}
    (hx : pos < x) (hle : x ≤ blockEnd) (h : ParsedLines x blockEnd out) :
    ParsedLines pos blockEnd (x :: out.1, out.2) := by
  obtain ⟨h1, h2, h3⟩ := h
  refine ⟨List.Chain.cons hx h1, ?_, ?_⟩
  · simp only [List.mem_cons, forall_eq_or_imp]; exact ⟨hle, h2⟩
  · rw [h3]; cases out.1 <;> simp [List.getLast?_cons]

theorem parseDataBlockLoop_lines {Codec : Type} {f : FindDelimeter} {bb : Int} {block : Bytes} :
    ∀ {fuel : Nat} {state : IndexingState Codec}, f.Bounded state.encodingParams →
      state.pos ≤ bb + block.length →
      ParsedLines state.pos (bb + block.length) (parseDataBlockLoop f bb block fuel state) ∧
        (parseDataBlockLoop f bb block fuel state).2.encodingParams = state.encodingParams
  | 0, _, _, _ => ⟨ParsedLines.nil rfl, rfl⟩
  | fuel + 1, state, hf, hin => by
    obtain ⟨k, hk, hkle, hpos⟩ := posWithinBlock_eq hin
    rcases Nat.lt_or_eq_of_le hkle with hlt | heq
    · cases hn : f state.encodingParams (block.drop k) lineFeed with
      | none =>
        rw [parseDataBlockLoop_noLineFeed hin hk hlt hn]
        exact ⟨ParsedLines.nil rfl, rfl⟩
      | some n =>
        obtain ⟨h1, h2⟩ := hf _ _ hn
        rw [List.length_drop] at h2
        rw [parseDataBlockLoop_lineFeed hin hk hlt hn]
        have hw := state.encodingParams.one_le_width
        have hnext : state.pos < (k + n : Nat) - (state.encodingParams.lineFeedIndex : Int) + bb +
            state.encodingParams.lineFeedWidth ∧ (k + n : Nat) - (state.encodingParams.lineFeedIndex : Int)
            + bb + state.encodingParams.lineFeedWidth ≤ bb + block.length := by omega
        let e : Int := (k + n : Nat) - (state.encodingParams.lineFeedIndex : Int) + bb
        obtain ⟨ih, ihp⟩ := @parseDataBlockLoop_lines Codec f bb block fuel ((state.measure e
          (expandTabsInLine f state.encodingParams k ((block.drop k).take n) k
            state.additionalSpaces)).nextLine e) hf hnext.2
        exact ⟨ParsedLines.cons hnext.1 hnext.2 ih, ihp⟩
    · subst heq
      rw [parseDataBlockLoop_atEnd hin hk]
      exact ⟨ParsedLines.nil rfl, rfl⟩

theorem parseDataBlockLoop_eq_filter {Codec : Type} {f : FindDelimeter} {bb : Int}
    {block : Bytes} {Q : Nat → Bool} {p : EncodingParameters}
    (hf : ∀ k < block.length, f p (block.drop k) lineFeed =
      (firstFrom Q k (block.length - k)).map (fun s => s + p.lineFeedIndex - k))
    (hQ : ∀ s, Q s = true → s + p.lineFeedWidth ≤ block.length ∧
      ∀ t, s < t → t < s + p.lineFeedWidth → Q t = false) :
    ∀ {fuel k : Nat} {state : IndexingState Codec}, state.encodingParams = p →
      (if bb ≤ state.pos then state.pos - bb else 0) = k → state.pos ≤ bb + k →
      k ≤ block.length → block.length - k < fuel →
      (parseDataBlockLoop f bb block fuel state).1 =
        ((List.range' k (block.length - k)).filter Q).map
          (fun s : Nat => bb + (s : Int) + p.lineFeedWidth)
  | 0, _, _, _, _, _, _, hfuel => absurd hfuel (Nat.not_lt_zero _)
  | fuel + 1, k, state, hp, hk, hpos, hkle, hfuel => by
    have hin : state.pos ≤ bb + block.length := by omega
    rcases Nat.lt_or_eq_of_le hkle with hlt | rfl
    · cases hs : firstFrom Q k (block.length - k) with
      | none =>
        have hn := hf k hlt
        rw [hs, Option.map_none', ← hp] at hn
        rw [parseDataBlockLoop_noLineFeed hin hk hlt hn, filter_range'_of_none hs]
        rfl
      | some s =>
        have hn := hf k hlt
        rw [hs, Option.map_some', ← hp] at hn
        obtain ⟨hks, hsl⟩ := firstFrom_lt hs
        obtain ⟨hsw, hgap⟩ := hQ s (firstFrom_spec_of_some hs).1
        have hw := p.one_le_width
        rw [parseDataBlockLoop_lineFeed hin hk hlt hn, filter_range'_of_some hs,
          show k + (block.length - k) - (s + 1) = (p.lineFeedWidth - 1) + (block.length - (s + p.lineFeedWidth))
            by omega,
          filter_range'_skip fun t ht1 ht2 => hgap t (by omega) (by omega),
          show s + 1 + (p.lineFeedWidth - 1) = s + p.lineFeedWidth by omega]
        simp only [hp, IndexingState.nextLine_pos, IndexingState.measure_encodingParams,
          List.map_cons, List.cons.injEq]
        refine ⟨by omega, parseDataBlockLoop_eq_filter hf hQ (by simp [hp]) ?_ ?_ hsw (by omega)⟩
        · simp only [IndexingState.nextLine_pos, IndexingState.measure_encodingParams, hp]
          split <;> omega
        · simp only [IndexingState.nextLine_pos, IndexingState.measure_encodingParams, hp]
          omega
    · rw [parseDataBlockLoop_atEnd hin hk]
      simp

theorem parseDataBlock_lines {Codec : Type} {bb : Int} {block : Bytes} {state : IndexingState Codec}
    (hin : state.pos ≤ bb + block.length) :
    ParsedLines state.pos (bb + block.length) (parseDataBlock bb block state) ∧
      (parseDataBlock bb block state).2.encodingParams = state.encodingParams :=
  parseDataBlockLoop_lines (chooseFindDelimeter_bounded _) hin

end Klogg

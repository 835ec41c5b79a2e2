import Klogg.History

/-!
# Line widths with tabs

A line's display width advances one column per byte and, at a tab, to the next
multiple of `TabStop` (`displayColumn`). With single-byte line feeds,
`expandTabsInLine` keeps, in `additionalSpaces`, the columns the tabs added so
far: at each tab the line's column is the tab's offset from `posWithinBlock`
plus those columns (`expandTabsInLineLoop_single`). A block parsed from the
start of a line therefore measures each line at its display width, and its
widest line is the widest of the block (`parseDataBlock_maxLength`).

Both facts take the line to start at `posWithinBlock`. A line continued from an
earlier block or an earlier run starts before it, and its columns there are not
counted.
-/

namespace Klogg

open EncodingParameters

def nextColumn (c : Nat) (b : UInt8) : Nat :=
  if b = tab then (c / TabStop + 1) * TabStop else c + 1

def displayColumn (c : Nat) (line : Bytes) : Nat := line.foldl nextColumn c

def maxLineWidth (F : Bytes) : Nat := ((F.splitOn lineFeed).map (displayColumn 0)).foldr max 0

theorem displayColumn_noTab : ∀ {line : Bytes} (c : Nat), (∀ b ∈ line, b ≠ tab) →
    displayColumn c line = c + line.length
  | [], c, _ => rfl
  | b :: bs, c, h => by
    have hb := h b (List.mem_cons_self b bs)
    rw [displayColumn, List.foldl_cons, nextColumn, if_neg hb, ← displayColumn,
      displayColumn_noTab (c + 1) fun x hx => h x (List.mem_cons_of_mem b hx), List.length_cons]
    omega

theorem not_mem_take_of_firstFrom {v : Bytes} {d : UInt8} {n : Nat}
    (h : firstFrom (fun i => v[i]? == some d) 0 v.length = some n) :
    ∀ b ∈ v.take n, b ≠ d := by
  intro b hb hbd
  obtain ⟨i, hi, hget⟩ := List.getElem_of_mem hb
  have hlt : i < n := by simp at hi; omega
  have := (firstFrom_eq_some.mp h).2.2.2 i (Nat.zero_le i) hlt
  simp [← hbd, ← hget, List.getElem?_take_of_lt hlt] at this

theorem not_mem_of_firstFrom_none {v : Bytes} {d : UInt8}
    (h : firstFrom (fun i => v[i]? == some d) 0 v.length = none) : ∀ b ∈ v, b ≠ d := by
  intro b hb hbd
  obtain ⟨i, hi, hget⟩ := List.getElem_of_mem hb
  have := firstFrom_eq_none.mp h i (Nat.zero_le i) (by omega)
  simp [← hbd, ← hget] at this

theorem eq_take_cons_drop_of_firstFrom {v : Bytes} {d : UInt8} {n : Nat}
    (h : firstFrom (fun i => v[i]? == some d) 0 v.length = some n) :
    v = v.take n ++ d :: v.drop (n + 1) := by
  obtain ⟨-, hn, hd, -⟩ := firstFrom_eq_some.mp h
  have hv : v[n]? = some d := by simpa using hd
  conv_lhs => rw [← List.take_append_drop n v]
  rw [List.drop_eq_getElem_cons (by simpa using hn), (List.getElem?_eq_some_iff.mp hv).2]

/-! ## Tab expansion -/

section
variable {p : EncodingParameters} (hw : p.lineFeedWidth = 1)
include hw

theorem charOffsetWithinBlock_single (i : Nat) : charOffsetWithinBlock i p = i := by
  have : p.lineFeedIndex = 0 := by rcases p.index_cases with h | h <;> omega
  simp [charOffsetWithinBlock, getBeforeCrOffset, this]

theorem expandTabsInLineLoop_single (pw : Int) :
    ∀ (fuel off : Nat) (v : Bytes) (a : Int), v.length < fuel → 0 ≤ off - pw + a →
      (off + v.length : Int) - pw +
          expandTabsInLineLoop findNextSingleByteDelimeter p pw fuel off v a =
        displayColumn (off - pw + a).toNat v
  | 0, _, _, _, hf, _ => absurd hf (Nat.not_lt_zero _)
  | fuel + 1, off, v, a, hf, hc => by
    rw [expandTabsInLineLoop]
    split
    · rename_i hv
      rw [List.isEmpty_iff.mp hv]
      simp [displayColumn]
      omega
    · rw [findNextSingleByteDelimeter_eq]
      split
      · rename_i hn
        rw [displayColumn_noTab _ (not_mem_of_firstFrom_none hn)]
        omega
      · rename_i n hn
        obtain ⟨-, hnv, -, -⟩ := firstFrom_eq_some.mp hn
        rw [Nat.zero_add] at hnv
        rw [if_neg (by simp at hnv ⊢; omega), charOffsetWithinBlock_single hw]
        have ih := expandTabsInLineLoop_single pw fuel (off + n + 1) (v.drop (n + 1))
          (a + TabStop - ((off + n : Nat) - pw + a).tmod TabStop - 1)
          (by simp at hf ⊢; omega)
          (by rw [Int.tmod_eq_emod (by omega) (by decide)]; simp only [TabStop]; omega)
        have hsplit := eq_take_cons_drop_of_firstFrom hn
        have hlen : (v.take n).length = n := by simp; omega
        conv_rhs => rw [hsplit, displayColumn, List.foldl_append, List.foldl_cons, ← displayColumn,
          ← displayColumn, displayColumn_noTab _ (not_mem_take_of_firstFrom hn), hlen]
        have hcol : (((off + n + 1 : Nat) : Int) - pw +
            (a + TabStop - ((off + n : Nat) - pw + a).tmod TabStop - 1)).toNat =
            (((off - pw + a).toNat + n) / TabStop + 1) * TabStop := by
          rw [Int.tmod_eq_emod (by omega) (by decide)]
          simp only [TabStop]
          omega
        rw [nextColumn, if_pos rfl, ← hcol, ← ih]
        simp only [List.length_drop]
        omega

theorem expandTabsInLine_single (k : Nat) (v : Bytes) :
    (v.length : Int) + expandTabsInLine findNextSingleByteDelimeter p k v k 0 = displayColumn 0 v := by
  have := expandTabsInLineLoop_single hw (k : Int) (v.length + 1) k v 0 (Nat.lt_succ_self _)
    (by omega)
  rw [show ((k : Int) - k + 0).toNat = 0 by omega] at this
  unfold expandTabsInLine
  omega

end

/-! ## Lines of a block -/

theorem maxLineWidth_noLineFeed {v : Bytes} (h : ∀ b ∈ v, b ≠ lineFeed) :
    maxLineWidth v = displayColumn 0 v := by
  rw [maxLineWidth, List.splitOn, List.splitOnP_eq_single _ _ fun b hb => by simpa using h b hb]
  simp

theorem maxLineWidth_lineFeed {line rest : Bytes} (h : ∀ b ∈ line, b ≠ lineFeed) :
    maxLineWidth (line ++ lineFeed :: rest) = max (displayColumn 0 line) (maxLineWidth rest) := by
  rw [maxLineWidth, List.splitOn, List.splitOnP_first _ _ (fun b hb => by simpa using h b hb) _
    (by simp)]
  rfl

@[simp] theorem maxLineWidth_nil : maxLineWidth [] = 0 := rfl

theorem parseDataBlockLoop_maxLength {Codec : Type} {bb : Int} {b : Bytes} :
    ∀ {fuel k : Nat} {state : IndexingState Codec}, state.encodingParams.lineFeedWidth = 1 →
      state.pos = bb + k → state.additionalSpaces = 0 → k ≤ b.length → b.length - k < fuel →
      (parseDataBlockLoop findNextSingleByteDelimeter bb b fuel state).2.maxLength =
        max state.maxLength (maxLineWidth (b.drop k))
  | 0, _, _, _, _, _, _, hfuel => absurd hfuel (Nat.not_lt_zero _)
  | fuel + 1, k, state, hw, hpos, ha, hkle, hfuel => by
    have hin : state.pos ≤ bb + b.length := by omega
    have hk : (if bb ≤ state.pos then state.pos - bb else 0) = k := by split <;> omega
    have hidx : state.encodingParams.lineFeedIndex = 0 := by
      rcases state.encodingParams.index_cases with h | h <;> omega
    rcases Nat.lt_or_eq_of_le hkle with hlt | rfl
    · have hfind := findNextSingleByteDelimeter_eq state.encodingParams (b.drop k) lineFeed
      cases hn : findNextSingleByteDelimeter state.encodingParams (b.drop k) lineFeed with
      | none =>
        rw [parseDataBlockLoop_noLineFeed hin hk hlt hn]
        rw [hn] at hfind
        have hE := expandTabsInLine_single hw k (b.drop k)
        rw [List.length_drop] at hE
        simp only [IndexingState.measure, maxLineWidth_noLineFeed (not_mem_of_firstFrom_none hfind.symm),
          hw, Int.natCast_one, Int.tdiv_one, ha, hidx]
        omega
      | some n =>
        rw [parseDataBlockLoop_lineFeed hin hk hlt hn]
        rw [hn] at hfind
        have hsplit := eq_take_cons_drop_of_firstFrom hfind.symm
        have hnv := (firstFrom_eq_some.mp hfind.symm).2.1
        rw [Nat.zero_add, List.length_drop] at hnv
        have hE := expandTabsInLine_single hw k ((b.drop k).take n)
        rw [List.length_take, List.length_drop, Nat.min_eq_left hnv.le] at hE
        dsimp only
        rw [parseDataBlockLoop_maxLength (k := k + n + 1) (by simpa using hw)
          (by simp only [IndexingState.nextLine_pos, IndexingState.measure_encodingParams, hidx, hw]; omega)
          rfl (by omega) (by omega)]
        conv_rhs => rw [hsplit, maxLineWidth_lineFeed (not_mem_take_of_firstFrom hfind.symm),
          List.drop_drop, ← Nat.add_assoc]
        simp only [IndexingState.nextLine, IndexingState.measure, ha, hidx, hw, Int.tdiv_one,
          Int.natCast_one, hpos]
        omega
    · rw [parseDataBlockLoop_atEnd hin hk]
      simp only [IndexingState.measure, hpos, ha, hw, Int.natCast_one, Int.tdiv_one,
        List.drop_length, maxLineWidth_nil]
      congr 1
      omega

theorem parseDataBlock_maxLength {Codec : Type} {bb : Int} {b : Bytes} {state : IndexingState Codec}
    (hw : state.encodingParams.lineFeedWidth = 1) (hpos : state.pos = bb)
    (ha : state.additionalSpaces = 0) :
    (parseDataBlock bb b state).2.maxLength = max state.maxLength (maxLineWidth b) := by
  unfold parseDataBlock
  rw [chooseFindDelimeter, if_pos hw]
  have h := parseDataBlockLoop_maxLength (k := 0) hw (by rw [hpos, Int.natCast_zero, Int.add_zero])
    ha (Nat.zero_le b.length) (by omega : b.length - 0 < b.length + 1)
  rwa [List.drop_zero] at h

section
variable {Codec Digest : Type} [Inhabited Digest] (env : Env Codec Digest)

/-- With single-byte line feeds, a full index whose bytes arrive in one block, and that clears
nothing, stores the width of the widest line. -/
theorem FullIndexOperation.maxLength_oneBlock {forced : Option Codec} {F : Bytes}
    {irq : InterruptReads} {fast : Bool} {d : IndexingData Codec Digest}
    (hw : (env.encodingParameters (fullIndexCodec env forced [F])).lineFeedWidth = 1)
    (hirq : irq.beforeClear = false)
    (hlen : (FullIndexOperation.run env forced (.steady F [F]) irq fast d).2.state.maxLength <
      env.lineLengthMax) :
    (FullIndexOperation.run env forced (.steady F [F]) irq fast d).2.data.getMaxLength =
      maxLineWidth F := by
  have h := FullIndexOperation.run_of_noClear env d rfl hirq hlen
  rw [h] at hlen
  rw [h]
  simp only [emit_data, emit_state, setLocaleIfNoGuess_data, setLocaleIfNoGuess_state,
    IndexingData.setEncodingGuess_maxLength, hashHeaderAndTail_maxLength, hashHeaderAndTail_state,
    addFakeFinalLF_state, IndexingData.getMaxLength, Run.afterBlocks, FileView.steady,
    indexBlocks_cons, indexBlocks_nil, runSteps_cons, runSteps_nil] at hlen ⊢
  by_cases hne : F = []
  · subst hne
    rw [indexNextBlock_nil env _ (Int.le_refl 0), addFakeFinalLF_maxLength_of_nonneg env _ _ (by simp)]
    simp
  have hd := indexNextBlock_data_maxLength env
    (startIndexing 0 F.length (FullIndexOperation.start d forced fast)) (Int.le_refl 0) hne
  obtain ⟨-, hp⟩ := guessEncoding_of_settlesOn env
    (@startIndexing_settlesOn_full Codec Digest _ env forced d fast F.length [F])
  have hW := @parseDataBlock_maxLength _ 0 F (guessEncoding env F
    (startIndexing 0 F.length (FullIndexOperation.start d forced fast)).data
    (startIndexing 0 F.length (FullIndexOperation.start d forced fast)).state) (by rw [hp]; exact hw)
    rfl rfl
  rw [indexNextBlock_state env _ (Int.le_refl 0), if_neg hne, hW] at hlen hd
  simp only [FullIndexOperation.start_data, startIndexing_data, IndexingData.forceEncoding_maxLength,
    IndexingData.clear_maxLength, guessEncoding_maxLength] at hlen hd
  rw [addFakeFinalLF_maxLength_of_nonneg env _ _ (hd ▸ Int.le_max_left _ _), hd]
  have h0 : (startIndexing 0 F.length (FullIndexOperation.start d forced fast)).state.maxLength = 0 :=
    rfl
  rw [h0] at hlen ⊢
  split <;> omega

end

theorem FullIndexOperation.maxLength_oneBlock_abcTab :
    (FullIndexOperation.run (Env.fixed EncodingParameters.singleByte) none
      (.steady [97, 98, 99, 9] [[97, 98, 99, 9]]) .none false
      (IndexingData.empty false)).2.data.getMaxLength = maxLineWidth [97, 98, 99, 9] :=
  FullIndexOperation.maxLength_oneBlock _ rfl rfl (by decide)

/-- `abc⇥` is 8 wide. Read in one block, a full index measures it so; read as `abc` and `⇥`, it
measures 11, the tab placed at column 0. The content `abc` indexed, then grown to `abcdef\n`,
leaves a width of 3 where the line is 6 wide. -/
theorem FullIndexOperation.widthAcrossBoundaries :
    let env : Env Unit Bytes := Env.fixed EncodingParameters.singleByte
    let F : Bytes := [97, 98, 99, 9]
    let F' : Bytes := [97, 98, 99, 100, 101, 102, 10]
    let d0 := (FullIndexOperation.run env none (.steady [97, 98, 99] [[97, 98, 99]]) .none false
      (IndexingData.empty false)).2.data
    maxLineWidth F = 8 ∧
      (FullIndexOperation.run env none (.steady F [F]) .none false
        (IndexingData.empty false)).2.data.getMaxLength = 8 ∧
      (FullIndexOperation.run env none (.steady F [[97, 98, 99], [9]]) .none false
        (IndexingData.empty false)).2.data.getMaxLength = 11 ∧
      maxLineWidth F' = 6 ∧
      (PartialIndexOperation.run env (.steady F' [[100, 101, 102, 10]]) .none false
        d0).2.data.getMaxLength = 3 := by
  decide

end Klogg

import Klogg.ParseGuard
import Klogg.Reachable

/-!
# The tab accumulator within the type of `LineLength`

`additional_spaces` and the accumulator of `expandTabsInLine` are of
`LineLength::UnderlyingType`. Each tab adds `TabStop − (column mod TabStop) − 1`,
between 0 and 7, and each tab takes a byte of its own, so while one block is
parsed the accumulator grows by at most seven per byte of the block
(`parseDataBlockLoop_tabBound`). A line still open at a block's end has been
measured, and its measured length is at least its columns past the line's
start in bytes over the line feed's width plus its extra columns: the
accumulator is a bounded share of the parser's running maximum (`OpenLine`).

So a block the parser enters with its maximum below the limit `T` is parsed
with every accumulator value between 0 and `T`, as long as blocks are at most
`IndexingBlockSize` bytes and `T` is at least `2³¹ − 1`
(`doIndex_tabAccumulatorInRange`). Up to the first value out of range the
machine's accumulator and this model's agree; that first value can therefore
only come in a block entered with the maximum already at the limit, after which
the store's length is the limit and the run clears the store
(`doIndex_cleared_of_tooLong`).
-/

namespace Klogg

open EncodingParameters

/-! ## One tab -/

def FindDelimeter.HitsInView (f : FindDelimeter) (p : EncodingParameters) : Prop :=
  ∀ v d n, f p v d = some n → p.lineFeedIndex ≤ n ∧ n < v.length

theorem chooseFindDelimeter_hitsInView (p : EncodingParameters) :
    (chooseFindDelimeter p).HitsInView p := by
  intro v d n h
  have hi := p.index_lt_width
  unfold chooseFindDelimeter at h
  split at h
  · rw [findNextSingleByteDelimeter_eq] at h
    have := (firstFrom_spec_of_some h).2
    omega
  · rw [findNextMultiByteDelimeter_eq] at h
    obtain ⟨h1, h2⟩ := firstFrom_spec_of_some h
    simp only [isMultiByteDelimeter, Bool.and_eq_true, Bool.not_eq_true'] at h1
    obtain ⟨hf, hb⟩ := isNotDelimeter_false h1.2
    refine ⟨?_, by omega⟩
    rcases p.index_cases with h3 | h3
    · omega
    · by_cases h4 : p.lineFeedIndex = 0
      · omega
      · have := hb h4; omega

theorem tabIncrement_bounds {x : Int} (hx : 0 ≤ x) (s : Int) :
    s ≤ s + TabStop - x.tmod TabStop - 1 ∧ s + TabStop - x.tmod TabStop - 1 ≤ s + 7 := by
  have ht : ((TabStop : Nat) : Int) = 8 := rfl
  rw [ht, Int.tmod_eq_emod hx (by decide)]
  omega

theorem tdiv_width_ge (p : EncodingParameters) {x : Int} (hx : 0 ≤ x) {j : Nat}
    (hj : j ≤ p.lineFeedIndex) : x ≤ 4 * (x - j).tdiv p.lineFeedWidth + 8 := by
  have hi := p.index_lt_width
  have hw4 : p.lineFeedWidth ≤ 4 := by rcases p.width_cases with hw | hw | hw <;> omega
  by_cases h : 0 ≤ x - j
  · rw [Int.tdiv_eq_ediv h (by omega)]
    rcases p.width_cases with hw | hw | hw <;> rw [hw] at hi ⊢ <;> omega
  · rw [show x - j = -((j : Int) - x) by omega, Int.neg_tdiv,
      Int.tdiv_eq_zero_of_lt (by omega) (by omega)]
    omega

/-! ## The values the accumulator takes -/

def expandTabsInLineLoopAssigned (findNextDelimeter : FindDelimeter) (p : EncodingParameters)
    (posWithinBlock : Int) : Nat → Nat → Bytes → Int → List Int
  | 0, _, _, _ => []
  | fuel + 1, off, v, additionalSpaces =>
    if v.isEmpty then []
    else
      match findNextDelimeter p v tab with
      | none => []
      | some nextTab =>
        let tabPosWithinBlock := charOffsetWithinBlock (off + nextTab) p
        let currentExpandedSize := tabPosWithinBlock - posWithinBlock + additionalSpaces
        let additionalSpaces := additionalSpaces + TabStop - currentExpandedSize.tmod TabStop - 1
        additionalSpaces :: if v.length ≤ nextTab then []
          else expandTabsInLineLoopAssigned findNextDelimeter p posWithinBlock fuel
            (off + nextTab + 1) (v.drop (nextTab + 1)) additionalSpaces

def expandTabsInLineAssigned (findNextDelimeter : FindDelimeter) (p : EncodingParameters)
    (off : Nat) (v : Bytes) (posWithinBlock : Int) (initialAdditionalSpaces : Int) : List Int :=
  expandTabsInLineLoopAssigned findNextDelimeter p posWithinBlock (v.length + 1) off v
    initialAdditionalSpaces

section
variable {f : FindDelimeter} {p : EncodingParameters} {pw : Int}

theorem expandTabsInLineLoop_bounds (hf : f.HitsInView p) :
    ∀ (fuel off : Nat) (v : Bytes) (s : Int), pw ≤ off → 0 ≤ s →
      (∀ x ∈ expandTabsInLineLoopAssigned f p pw fuel off v s, s ≤ x ∧ x ≤ s + 7 * v.length) ∧
        s ≤ expandTabsInLineLoop f p pw fuel off v s ∧
        expandTabsInLineLoop f p pw fuel off v s ≤ s + 7 * v.length
  | 0, _, _, s, _, _ => ⟨by simp [expandTabsInLineLoopAssigned], Int.le_refl s, by
      simp only [expandTabsInLineLoop]; omega⟩
  | fuel + 1, off, v, s, hoff, hs => by
    by_cases hv : v.isEmpty
    · simp only [expandTabsInLineLoopAssigned, expandTabsInLineLoop, hv, ite_true]
      exact ⟨by simp, Int.le_refl s, by omega⟩
    cases hn : f p v tab with
    | none =>
      simp only [expandTabsInLineLoopAssigned, expandTabsInLineLoop, hv, hn]
      exact ⟨by simp, Int.le_refl s, by omega⟩
    | some n =>
      obtain ⟨hidx, hlt⟩ := hf v tab n hn
      have hx : 0 ≤ charOffsetWithinBlock (off + n) p - pw + s := by
        simp only [charOffsetWithinBlock, getBeforeCrOffset]; omega
      obtain ⟨hs1, hs2⟩ := tabIncrement_bounds hx s
      obtain ⟨ih, ih1, ih2⟩ := expandTabsInLineLoop_bounds hf fuel (off + n + 1) (v.drop (n + 1))
        _ (by omega) (Int.le_trans hs hs1)
      have hlen : ((v.drop (n + 1)).length : Int) = v.length - n - 1 := by
        rw [List.length_drop]; omega
      simp only [expandTabsInLineLoopAssigned, expandTabsInLineLoop, hv, hn, Bool.false_eq_true,
        ite_false, Nat.not_le.mpr hlt, List.mem_cons]
      refine ⟨fun x hx => ?_, by omega, by omega⟩
      rcases hx with rfl | hx
      · omega
      · have := ih x hx; omega

theorem expandTabsInLine_bounds (hf : f.HitsInView p) (off : Nat) (v : Bytes) {s : Int}
    (hoff : pw ≤ off) (hs : 0 ≤ s) :
    (∀ x ∈ expandTabsInLineAssigned f p off v pw s, s ≤ x ∧ x ≤ s + 7 * v.length) ∧
      s ≤ expandTabsInLine f p off v pw s ∧ expandTabsInLine f p off v pw s ≤ s + 7 * v.length :=
  expandTabsInLineLoop_bounds hf _ off v s hoff hs

end

/-- The values `parseDataBlock`'s loop and the `expandTabsInLine` calls behind it assign to their
accumulators, in order. -/
def parseDataBlockLoopAssigned {Codec : Type} (f : FindDelimeter) (bb : Int) (block : Bytes) :
    Nat → IndexingState Codec → List Int
  | 0, _ => []
  | fuel + 1, state =>
    if bb + block.length < state.pos then []
    else
      let posWithinBlock : Int := if bb ≤ state.pos then state.pos - bb else 0
      if posWithinBlock = block.length then []
      else
        let blockView := block.drop posWithinBlock.toNat
        let nextLineSize := (f state.encodingParams blockView lineFeed).getD blockView.length
        let found := findNextLineFeed f block posWithinBlock.toNat state
        expandTabsInLineAssigned f state.encodingParams posWithinBlock.toNat
            (blockView.take nextLineSize) posWithinBlock.toNat state.additionalSpaces ++
          found.2.2 :: if found.1 then []
            else 0 :: parseDataBlockLoopAssigned f bb block fuel
              ((state.measure (found.2.1 + bb) found.2.2).nextLine (found.2.1 + bb))

def parseDataBlockAssigned {Codec : Type} (blockBeginning : Int) (block : Bytes)
    (state : IndexingState Codec) : List Int :=
  parseDataBlockLoopAssigned (chooseFindDelimeter state.encodingParams) blockBeginning block
    (block.length + 1) state

theorem IndexingState.measure_maxLength_ge {Codec : Type} (state : IndexingState Codec)
    (e a : Int) : state.maxLength ≤ (state.measure e a).maxLength ∧
      (e - state.pos).tdiv state.encodingParams.lineFeedWidth + a ≤ (state.measure e a).maxLength :=
  ⟨Int.le_max_left _ _, Int.le_max_right _ _⟩

@[simp] theorem IndexingState.measure_additionalSpaces {Codec : Type} (state : IndexingState Codec)
    (e a : Int) : (state.measure e a).additionalSpaces = a := rfl

@[simp] theorem guessEncoding_additionalSpaces {Codec Digest : Type} (env : Env Codec Digest)
    (block : Bytes) (d : IndexingData Codec Digest) (state : IndexingState Codec) :
    (guessEncoding env block d state).additionalSpaces = state.additionalSpaces := rfl

@[simp] theorem IndexingState.nextLine_additionalSpaces {Codec : Type} (state : IndexingState Codec)
    (e : Int) : (state.nextLine e).additionalSpaces = 0 := rfl

def OpenLine {Codec : Type} (state : IndexingState Codec) (E : Int) : Prop :=
  state.pos ≤ E ∧ 0 ≤ state.additionalSpaces ∧ state.additionalSpaces ≤ 7 * (E - state.pos) ∧
    E - state.pos ≤ 4 * (state.maxLength - state.additionalSpaces) + 8

theorem OpenLine.of_measure {Codec : Type} (state : IndexingState Codec) {E e a : Int} {j : Nat}
    (hj : j ≤ state.encodingParams.lineFeedIndex) (he : e + j = E) (hpos : state.pos ≤ E)
    (ha0 : 0 ≤ a) (ha : a ≤ 7 * (E - state.pos)) : OpenLine (state.measure e a) E := by
  have hm := (state.measure_maxLength_ge e a).2
  have hw := tdiv_width_ge state.encodingParams (show 0 ≤ E - state.pos by omega) hj
  rw [show E - state.pos - j = e - state.pos by omega] at hw
  exact ⟨hpos, ha0, ha, by simp only [IndexingState.measure_pos,
    IndexingState.measure_additionalSpaces]; omega⟩

section
variable {Codec : Type} {f : FindDelimeter} {bb : Int} {block : Bytes} {fuel k : Nat}
  {state : IndexingState Codec}

theorem parseDataBlockLoopAssigned_atEnd (hin : state.pos ≤ bb + block.length)
    (hk : (if bb ≤ state.pos then state.pos - bb else 0) = block.length) :
    parseDataBlockLoopAssigned f bb block (fuel + 1) state = [] := by
  simp only [parseDataBlockLoopAssigned, Int.not_lt.mpr hin, ite_false, hk, ite_true]

theorem parseDataBlockLoopAssigned_noLineFeed (hin : state.pos ≤ bb + block.length)
    (hk : (if bb ≤ state.pos then state.pos - bb else 0) = k) (hlt : k < block.length)
    (hn : f state.encodingParams (block.drop k) lineFeed = none) :
    parseDataBlockLoopAssigned f bb block (fuel + 1) state =
      expandTabsInLineAssigned f state.encodingParams k (block.drop k) k state.additionalSpaces ++
        [expandTabsInLine f state.encodingParams k (block.drop k) k state.additionalSpaces] := by
  simp only [parseDataBlockLoopAssigned, Int.not_lt.mpr hin, ite_false, hk, Int.ofNat_inj, hlt.ne,
    Int.toNat_ofNat, findNextLineFeed_of_none hlt.le hn, hn, Option.getD_none, List.take_length,
    ite_true]

theorem parseDataBlockLoopAssigned_lineFeed (hin : state.pos ≤ bb + block.length)
    (hk : (if bb ≤ state.pos then state.pos - bb else 0) = k) (hlt : k < block.length) {n : Nat}
    (hn : f state.encodingParams (block.drop k) lineFeed = some n) :
    let e := (k + n : Nat) - (state.encodingParams.lineFeedIndex : Int) + bb
    let extra := expandTabsInLine f state.encodingParams k ((block.drop k).take n) k
      state.additionalSpaces
    parseDataBlockLoopAssigned f bb block (fuel + 1) state =
      expandTabsInLineAssigned f state.encodingParams k ((block.drop k).take n) k
          state.additionalSpaces ++
        extra :: 0 :: parseDataBlockLoopAssigned f bb block fuel ((state.measure e extra).nextLine e) := by
  simp only [parseDataBlockLoopAssigned, Int.not_lt.mpr hin, ite_false, hk, Int.ofNat_inj, hlt.ne,
    Int.toNat_ofNat, findNextLineFeed_of_some hn, hn, Option.getD_some, Bool.false_eq_true]

end

theorem parseDataBlockLoop_tabBound {Codec : Type} {f : FindDelimeter} {bb : Int} {block : Bytes} :
    ∀ (fuel k : Nat) (state : IndexingState Codec), f.Bounded state.encodingParams →
      f.HitsInView state.encodingParams → (if bb ≤ state.pos then state.pos - bb else 0) = k →
      state.pos ≤ bb + k → k ≤ block.length → block.length - k < fuel →
      0 ≤ state.additionalSpaces → state.additionalSpaces ≤ 7 * (bb + k - state.pos) →
      (∀ x ∈ parseDataBlockLoopAssigned f bb block fuel state,
          0 ≤ x ∧ x ≤ state.additionalSpaces + 7 * ((block.length : Int) - k)) ∧
        OpenLine (parseDataBlockLoop f bb block fuel state).2 (bb + block.length) ∧
        state.maxLength ≤ (parseDataBlockLoop f bb block fuel state).2.maxLength
  | 0, _, _, _, _, _, _, _, hfuel, _, _ => absurd hfuel (Nat.not_lt_zero _)
  | fuel + 1, k, state, hf, hh, hk, hpos, hkle, hfuel, hs0, hs => by
    have hin : state.pos ≤ bb + block.length := by omega
    rcases Nat.lt_or_eq_of_le hkle with hlt | rfl
    · cases hn : f state.encodingParams (block.drop k) lineFeed with
      | none =>
        obtain ⟨hv, hv1, hv2⟩ := expandTabsInLine_bounds hh k (block.drop k) (Int.le_refl _) hs0
        have hvl : ((block.drop k).length : Int) = block.length - k := by
          rw [List.length_drop]; omega
        rw [parseDataBlockLoopAssigned_noLineFeed hin hk hlt hn,
          parseDataBlockLoop_noLineFeed hin hk hlt hn]
        refine ⟨fun x hx => ?_, OpenLine.of_measure state (Nat.le_refl _) (by omega) hin
          (by omega) (by omega), (state.measure_maxLength_ge _ _).1⟩
        rcases List.mem_append.mp hx with hx | hx
        · have := hv x hx; omega
        · rw [List.mem_singleton.mp hx]; omega
      | some n =>
        obtain ⟨hidx, hn2⟩ := hf _ _ hn
        have hi := state.encodingParams.index_lt_width
        obtain ⟨hv, hv1, hv2⟩ := expandTabsInLine_bounds hh k ((block.drop k).take n) (Int.le_refl _)
          hs0
        have hvl : (((block.drop k).take n).length : Int) = n := by
          rw [List.length_take]; omega
        obtain ⟨hk', hpos', hgt, hle⟩ := posWithinBlock_nextLine bb hlt ⟨hidx, hn2⟩
          (expandTabsInLine f state.encodingParams k ((block.drop k).take n) k state.additionalSpaces)
        obtain ⟨ih, ihl, ihm⟩ := parseDataBlockLoop_tabBound fuel _ ((state.measure _ _).nextLine _)
          hf hh hk' (by omega) hle
          (by omega) (Int.le_refl 0) (by rw [hpos', IndexingState.nextLine_additionalSpaces]; omega)
        rw [IndexingState.nextLine_additionalSpaces] at ih
        rw [parseDataBlockLoopAssigned_lineFeed hin hk hlt hn, parseDataBlockLoop_lineFeed hin hk hlt hn]
        refine ⟨fun x hx => ?_, ihl, Int.le_trans (state.measure_maxLength_ge _ _).1 ihm⟩
        rw [List.length_drop] at hn2
        simp only [List.mem_append, List.mem_cons] at hx
        rcases hx with hx | rfl | rfl | hx
        · have := hv x hx; omega
        · omega
        · omega
        · have := ih x hx; omega
    · rw [parseDataBlockLoopAssigned_atEnd hin hk, parseDataBlockLoop_atEnd hin hk]
      exact ⟨by simp, OpenLine.of_measure state (Nat.zero_le _) (by omega) hin hs0 hs,
        (state.measure_maxLength_ge _ _).1⟩

theorem OpenLine.additionalSpaces_add_le {Codec : Type} {state : IndexingState Codec} {E T : Int}
    {n : Nat} (h : OpenLine state E) (hM : state.maxLength < T) (hT : 2147483647 ≤ T)
    (hn : n ≤ IndexingBlockSize) : state.additionalSpaces + 7 * n ≤ T := by
  obtain ⟨-, -, h3, h4⟩ := h
  unfold IndexingBlockSize at hn
  omega

/-! ## The block phase -/

section
variable {Codec Digest : Type} (env : Env Codec Digest)

def indexNextBlockAssigned (blockData : BlockData) (r : Run Codec Digest) : List Int :=
  let blockBeginning := blockData.1
  let block := blockData.2
  if blockBeginning < 0 then []
  else
    let state := guessEncoding env block r.data r.state
    if block.isEmpty then [] else parseDataBlockAssigned blockBeginning block state

def indexBlocksAssigned : List BlockData → Run Codec Digest → List (Int × List Int)
  | [], _ => []
  | blockData :: rest, r =>
    (r.state.maxLength, indexNextBlockAssigned env blockData r) ::
      indexBlocksAssigned rest (indexNextBlock env blockData r)

/-- Block by block over `doIndex`: the parser's maximum on entry and every value the block assigns
to the tab accumulators. -/
def doIndexAssigned (initialPosition : Int) (view : FileView) (r : Run Codec Digest) :
    List (Int × List Int) :=
  if view.opened then
    indexBlocksAssigned env (readFileInBlocks initialPosition view.blocks)
      (startIndexing initialPosition view.size r)
  else []

theorem startIndexing_openLine (q : Int) (n : Nat) (r : Run Codec Digest) :
    OpenLine (startIndexing q n r).state q := by
  show q ≤ q ∧ (0 : Int) ≤ 0 ∧ (0 : Int) ≤ 7 * (q - q) ∧ q - q ≤ 4 * (0 - 0) + 8
  omega

theorem indexNextBlock_tabBound {bb : Int} {b : Bytes} {r : Run Codec Digest} (hbb : 0 ≤ bb)
    (h : OpenLine r.state bb) :
    (∀ x ∈ indexNextBlockAssigned env (bb, b) r,
        0 ≤ x ∧ x ≤ r.state.additionalSpaces + 7 * b.length) ∧
      OpenLine (indexNextBlock env (bb, b) r).state (bb + b.length) := by
  rw [indexNextBlock_state env r hbb]
  cases b with
  | nil => exact ⟨by simp [indexNextBlockAssigned], by simpa using h⟩
  | cons c cs =>
    have hk : (if bb ≤ r.state.pos then r.state.pos - bb else 0) = ((0 : Nat) : Int) := by
      have := h.1; split <;> omega
    obtain ⟨hv, hopen, -⟩ := @parseDataBlockLoop_tabBound Codec _ bb (c :: cs) _ 0
      (guessEncoding env (c :: cs) r.data r.state) (chooseFindDelimeter_bounded _)
      (chooseFindDelimeter_hitsInView _) hk (by have := h.1; simp only [guessEncoding_pos]; omega)
      (Nat.zero_le _) (Nat.lt_succ_of_le (Nat.sub_le _ _)) h.2.1 (by have := h.2.2.1; simpa using this)
    simp only [indexNextBlockAssigned, List.isEmpty_cons, Bool.false_eq_true, if_false,
      List.cons_ne_nil, show ¬ bb < 0 by omega]
    refine ⟨fun x hx => ?_, hopen⟩
    have := hv x hx
    simp only [guessEncoding_additionalSpaces] at this
    omega

theorem indexBlocks_tabBound {T : Int} (hT : 2147483647 ≤ T) :
    ∀ (blocks : List Bytes) (q : Int) (r : Run Codec Digest), 0 ≤ q → OpenLine r.state q →
      (∀ b ∈ blocks, b.length ≤ IndexingBlockSize) →
      ∀ e ∈ indexBlocksAssigned env (readFileInBlocks q blocks) r,
        e.1 ≤ (runSteps (indexBlocks env q blocks) r).state.maxLength ∧
          (e.1 < T → ∀ x ∈ e.2, 0 ≤ x ∧ x ≤ T)
  | [], _, _, _, _, _, e, he => by simp [indexBlocksAssigned, readFileInBlocks] at he
  | b :: bs, q, r, hq, h, hb, e, he => by
    obtain ⟨hv, hopen⟩ := indexNextBlock_tabBound env hq h
    rw [readFileInBlocks, indexBlocksAssigned, List.mem_cons] at he
    rw [indexBlocks_cons, runSteps_cons]
    rcases he with rfl | he
    · refine ⟨Int.le_trans (indexNextBlock_maxLength env r hq).1
        (indexBlocks_maxLength env bs _ (by omega)).1, fun hM x hx => ?_⟩
      have h1 := hv x hx
      have h2 := h.additionalSpaces_add_le hM hT (hb b (List.mem_cons_self _ _))
      omega
    · exact indexBlocks_tabBound hT bs (q + b.length) _ (by omega) hopen
        (fun b' hb' => hb b' (List.mem_cons_of_mem _ hb')) e he

end


/-! ## The store's maximum and the "lines too long" clear -/

section
variable {Codec Digest : Type} (env : Env Codec Digest)

def CappedMax (r : Run Codec Digest) : Prop :=
  r.data.maxLength ≤ env.lineLengthMax ∧
    (env.lineLengthMax ≤ r.state.maxLength → env.lineLengthMax ≤ r.data.maxLength)

theorem indexNextBlock_cappedMax {bb : Int} {b : Bytes} {r : Run Codec Digest} (hbb : 0 ≤ bb)
    (h : CappedMax env r) : CappedMax env (indexNextBlock env (bb, b) r) := by
  obtain ⟨h1, h2⟩ := h
  rcases eq_or_ne b [] with rfl | hne
  · rw [indexNextBlock_nil env r hbb]
    exact ⟨h1, h2⟩
  · rw [CappedMax, indexNextBlock_data_maxLength env r hbb hne]
    constructor <;> split <;> omega

theorem afterBlocks_cappedMax {q : Int} (view : FileView) (r : Run Codec Digest) (hq : 0 ≤ q)
    (hml : r.data.maxLength ≤ env.lineLengthMax) : CappedMax env (r.afterBlocks env q view) :=
  indexBlocks_induction env (P := fun _ x => CappedMax env x)
    (fun _ _ _ hq' h => indexNextBlock_cappedMax env hq' h) view.blocks q _ hq
    ⟨hml, fun h => absurd h (Int.not_le.mpr env.lineLengthMax_pos)⟩

variable [Inhabited Digest]

theorem clearIfTooLong_clearIfInterrupted (i fast : Bool) (r : Run Codec Digest)
    (h : r.data.maxLength = env.lineLengthMax) :
    (clearIfTooLong env fast (clearIfInterrupted i fast r)).data = r.data.clear fast := by
  have := env.lineLengthMax_pos
  cases i
  · simp [clearIfTooLong, IndexingData.getMaxLength, h]
  · have h0 : (clearIfInterrupted true fast r).data.maxLength ≠ env.lineLengthMax := by
      simp only [clearIfInterrupted, ite_true, IndexingData.clear_maxLength]; omega
    rw [clearIfTooLong_of_ne env _ fast h0]
    rfl

theorem doIndex_cleared_of_tooLong {q : Int} {view : FileView} {irq : InterruptReads} {fast : Bool}
    (r : Run Codec Digest) (hq : 0 ≤ q) (hopen : view.opened = true)
    (hml : r.data.maxLength ≤ env.lineLengthMax)
    (hlen : env.lineLengthMax ≤ (runSteps (doIndex env q view irq fast) r).state.maxLength) :
    (runSteps (doIndex env q view irq fast) r).data =
      (r.data.clear fast).setEncodingGuess (some env.codecForLocale) := by
  rw [doIndex_opened env r hopen] at hlen ⊢
  rw [finishIndexing_state] at hlen
  obtain ⟨h1, h2⟩ := afterBlocks_cappedMax env view r hq hml
  have hA : (r.afterBlocks env q view).data.maxLength = env.lineLengthMax := by
    have := h2 hlen; omega
  simp only [finishIndexing, runSteps_cons, runSteps_nil, setLocaleIfNoGuess_data]
  rw [clearIfTooLong_clearIfInterrupted env _ _ _ (by
    rw [hashHeaderAndTail_maxLength, addFakeFinalLF_maxLength_of_nonneg env _ _
      (by have := env.lineLengthMax_pos; omega), hA])]
  rfl

theorem doIndex_maxLength_le {q : Int} (view : FileView) (irq : InterruptReads) (fast : Bool)
    {r : Run Codec Digest} (hq : 0 ≤ q) (hml : r.data.maxLength ≤ env.lineLengthMax) :
    (runSteps (doIndex env q view irq fast) r).data.maxLength ≤ env.lineLengthMax := by
  have hpos := env.lineLengthMax_pos
  by_cases hopen : view.opened = true
  · rw [doIndex_opened env r hopen]
    have h1 := (afterBlocks_cappedMax env view r hq hml).1
    have h2 := addFakeFinalLF_maxLength env (r.afterBlocks env q view) irq.beforeFakeLF
    simp only [finishIndexing, runSteps_cons, runSteps_nil, setLocaleIfNoGuess_data,
      IndexingData.setEncodingGuess_maxLength]
    unfold clearIfTooLong clearIfInterrupted
    split_ifs <;> simp only [IndexingData.clear_maxLength, hashHeaderAndTail_maxLength] <;> omega
  · simp [doIndex, hopen, cannotOpen]; omega

/-- Every reachable store's maximum is at most the limit. -/
theorem Reachable.maxLength_le_lineLengthMax {d : IndexingData Codec Digest} (h : Reachable env d) :
    d.maxLength ≤ env.lineLengthMax := by
  have hpos := env.lineLengthMax_pos
  induction h with
  | empty fast => show (0 : Int) ≤ _; omega
  | fullIndex forced view irq fast _ _ =>
    simp only [FullIndexOperation.run, FullIndexOperation.steps, runSteps_append, runSteps_cons,
      runSteps_nil, emit_data]
    exact doIndex_maxLength_le env view irq fast (Int.le_refl 0) (by show (0 : Int) ≤ _; omega)
  | partialIndex view irq fast hd ih =>
    simp only [PartialIndexOperation.run, PartialIndexOperation.steps, runSteps_append,
      runSteps_cons, runSteps_nil, emit_data]
    exact doIndex_maxLength_le env view irq fast (Reachable.storeInv env hd).2.2 ih
  | fullIndexThrows => show (0 : Int) ≤ _; omega
  | partialIndexThrows => show (0 : Int) ≤ _; omega

theorem Reachable.maxLength_le_lineLengthMax_fullIndex :
    let env := Env.fixed EncodingParameters.singleByte
    (FullIndexOperation.run env none ⟨true, 3, [[9, 97, 10]], [9, 97, 10]⟩ .none false
      (IndexingData.empty false)).2.data.maxLength ≤ env.lineLengthMax :=
  Reachable.maxLength_le_lineLengthMax _ (.fullIndex _ _ _ _ (.empty false))

/-- For every run of `doIndex` with blocks of at most `IndexingBlockSize` bytes from a store whose
maximum is within `LineLength`, every value the tab accumulators take lies in `[0, LineLength
max]`. -/
theorem doIndex_tabAccumulatorInRange (q : Int) (view : FileView) (irq : InterruptReads)
    (fast : Bool) (r : Run Codec Digest) (hT : 2147483647 ≤ env.lineLengthMax) (hq : 0 ≤ q)
    (hblocks : ∀ b ∈ view.blocks, b.length ≤ IndexingBlockSize)
    (hml : r.data.maxLength ≤ env.lineLengthMax) :
    (∀ e ∈ doIndexAssigned env q view r, e.1 < env.lineLengthMax →
        ∀ x ∈ e.2, 0 ≤ x ∧ x ≤ env.lineLengthMax) ∧
      ((runSteps (doIndex env q view irq fast) r).data ≠
          (r.data.clear fast).setEncodingGuess (some env.codecForLocale) →
        ∀ e ∈ doIndexAssigned env q view r, ∀ x ∈ e.2, 0 ≤ x ∧ x ≤ env.lineLengthMax) := by
  unfold doIndexAssigned
  split
  · rename_i hopen
    have hrun := indexBlocks_tabBound env hT view.blocks q _ hq (startIndexing_openLine q view.size r)
      hblocks
    refine ⟨fun e he => (hrun e he).2, fun hne e he => (hrun e he).2 ?_⟩
    refine Int.not_le.mp fun hge => hne (doIndex_cleared_of_tooLong env r hq hopen hml ?_)
    rw [doIndex_opened env r hopen, finishIndexing_state]
    exact Int.le_trans hge (hrun e he).1
  · exact ⟨fun e he => absurd he (List.not_mem_nil e), fun _ e he => absurd he (List.not_mem_nil e)⟩

end

/-- A block of two tabs, a letter and a line feed: the accumulator takes the values 7 and 14, then
0 at the line feed. -/
theorem doIndex_tabAccumulatorInRange_tabs :
    let env := Env.fixed EncodingParameters.singleByte
    let view : FileView := ⟨true, 4, [[9, 9, 97, 10]], [9, 9, 97, 10]⟩
    let r : Run Unit Bytes := Run.start (IndexingData.empty false)
    (2147483647 ≤ env.lineLengthMax ∧ (0 : Int) ≤ 0 ∧
      (∀ b ∈ view.blocks, b.length ≤ IndexingBlockSize) ∧ r.data.maxLength ≤ env.lineLengthMax) ∧
    (∀ e ∈ doIndexAssigned env 0 view r, e.1 < env.lineLengthMax →
        ∀ x ∈ e.2, 0 ≤ x ∧ x ≤ env.lineLengthMax) ∧
      ((runSteps (doIndex env 0 view .none false) r).data ≠
          (r.data.clear false).setEncodingGuess (some env.codecForLocale) →
        ∀ e ∈ doIndexAssigned env 0 view r, ∀ x ∈ e.2, 0 ≤ x ∧ x ≤ env.lineLengthMax) :=
  ⟨⟨by decide, Int.le_refl 0, by decide, by decide⟩,
    doIndex_tabAccumulatorInRange _ 0 _ .none false _ (by decide) (Int.le_refl 0) (by decide)
      (by decide)⟩

end Klogg

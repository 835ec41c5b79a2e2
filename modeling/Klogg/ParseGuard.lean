import Mathlib.Data.List.Chain
import Klogg.OperationSpec

/-!
# The parser stays inside its block

A pass of the `while` loop of `parseDataBlock` that finds a line feed moves the
parser past it, at least one byte further into the block, so the loop stops by
its own test within `|block| + 1` passes: a larger bound changes nothing
(`parseDataBlockLoop_enoughFuel`). Its passes start at the incoming position and
then at each offset it returns (`parseDataBlockLoopStates_pos`). These all lie in
the block, so from a position inside or before the block the
"Trying to parse out of block" branch is never taken.

`readFileInBlocks` stamps each block with the position after the previous one,
and the parser ends each block inside it, so over a whole block phase that
starts at the parser's position no block is parsed from past its end
(`indexBlocks_inBlock`).
-/

namespace Klogg

open EncodingParameters

section
variable {Codec : Type} {f : FindDelimeter} {bb : Int} {block : Bytes}

def parseDataBlockLoopStates (f : FindDelimeter) (bb : Int) (block : Bytes) :
    Nat → IndexingState Codec → List (IndexingState Codec)
  | 0, _ => []
  | fuel + 1, state =>
    state :: if bb + block.length < state.pos then []
    else
      let posWithinBlock : Int := if bb ≤ state.pos then state.pos - bb else 0
      let found :=
        if posWithinBlock = block.length then (true, posWithinBlock, state.additionalSpaces)
        else findNextLineFeed f block posWithinBlock.toNat state
      if found.1 then []
      else
        parseDataBlockLoopStates f bb block fuel
          ((state.measure (found.2.1 + bb) found.2.2).nextLine (found.2.1 + bb))

variable {fuel k : Nat} {state : IndexingState Codec}

theorem parseDataBlockLoopStates_atEnd (hin : state.pos ≤ bb + block.length)
    (hk : (if bb ≤ state.pos then state.pos - bb else 0) = block.length) :
    parseDataBlockLoopStates f bb block (fuel + 1) state = [state] := by
  simp only [parseDataBlockLoopStates, Int.not_lt.mpr hin, ite_false, hk, ite_true]

theorem parseDataBlockLoopStates_noLineFeed (hin : state.pos ≤ bb + block.length)
    (hk : (if bb ≤ state.pos then state.pos - bb else 0) = k) (hlt : k < block.length)
    (hn : f state.encodingParams (block.drop k) lineFeed = none) :
    parseDataBlockLoopStates f bb block (fuel + 1) state = [state] := by
  simp only [parseDataBlockLoopStates, Int.not_lt.mpr hin, ite_false, hk, Int.ofNat_inj, hlt.ne,
    Int.toNat_ofNat, findNextLineFeed_of_none hlt.le hn, ite_true]

theorem parseDataBlockLoopStates_lineFeed (hin : state.pos ≤ bb + block.length)
    (hk : (if bb ≤ state.pos then state.pos - bb else 0) = k) (hlt : k < block.length) {n : Nat}
    (hn : f state.encodingParams (block.drop k) lineFeed = some n) :
    let e := (k + n : Nat) - (state.encodingParams.lineFeedIndex : Int) + bb
    parseDataBlockLoopStates f bb block (fuel + 1) state =
      state :: parseDataBlockLoopStates f bb block fuel ((state.measure e
        (expandTabsInLine f state.encodingParams k ((block.drop k).take n) k
          state.additionalSpaces)).nextLine e) := by
  simp only [parseDataBlockLoopStates, Int.not_lt.mpr hin, ite_false, hk, Int.ofNat_inj, hlt.ne,
    Int.toNat_ofNat, findNextLineFeed_of_some hn, Bool.false_eq_true]

theorem posWithinBlock_nextLine (bb : Int) (hlt : k < block.length) {n : Nat}
    (hb : state.encodingParams.lineFeedIndex ≤ n ∧
      n + state.encodingParams.lineFeedWidth ≤ (block.drop k).length + state.encodingParams.lineFeedIndex)
    (a : Int) :
    let e : Int := (k + n : Nat) - (state.encodingParams.lineFeedIndex : Int) + bb
    let k' := k + n + state.encodingParams.lineFeedWidth - state.encodingParams.lineFeedIndex
    (if bb ≤ ((state.measure e a).nextLine e).pos then ((state.measure e a).nextLine e).pos - bb
      else 0) = k' ∧ ((state.measure e a).nextLine e).pos = bb + k' ∧ k < k' ∧
      k' ≤ block.length := by
  have hw := state.encodingParams.one_le_width
  rw [List.length_drop] at hb
  simp only [IndexingState.nextLine_pos, IndexingState.measure_encodingParams]
  refine ⟨?_, by omega, by omega, by omega⟩
  rw [if_pos (by omega)]
  omega

theorem parseDataBlockLoop_advance (hin : state.pos ≤ bb + block.length)
    (hk : (if bb ≤ state.pos then state.pos - bb else 0) = k) (hlt : k < block.length) {n : Nat}
    (hn : f state.encodingParams (block.drop k) lineFeed = some n)
    (hb : state.encodingParams.lineFeedIndex ≤ n ∧
      n + state.encodingParams.lineFeedWidth ≤ (block.drop k).length + state.encodingParams.lineFeedIndex) :
    ∃ (next : IndexingState Codec) (k' : Nat),
      (∀ fuel, parseDataBlockLoop f bb block (fuel + 1) state =
        (next.pos :: (parseDataBlockLoop f bb block fuel next).1,
          (parseDataBlockLoop f bb block fuel next).2)) ∧
      (∀ fuel, parseDataBlockLoopStates f bb block (fuel + 1) state =
        state :: parseDataBlockLoopStates f bb block fuel next) ∧
      next.encodingParams = state.encodingParams ∧
      (if bb ≤ next.pos then next.pos - bb else 0) = k' ∧ next.pos ≤ bb + k' ∧ k < k' ∧
      k' ≤ block.length := by
  obtain ⟨h1, h2, h3, h4⟩ := posWithinBlock_nextLine bb hlt hb
    (expandTabsInLine f state.encodingParams k ((block.drop k).take n) k state.additionalSpaces)
  exact ⟨_, _, fun fuel => parseDataBlockLoop_lineFeed hin hk hlt hn,
    fun fuel => parseDataBlockLoopStates_lineFeed hin hk hlt hn, rfl, h1, by omega, h3, h4⟩

theorem parseDataBlockLoop_enoughFuel (hf : f.Bounded state.encodingParams)
    (hk : (if bb ≤ state.pos then state.pos - bb else 0) = k) (hpos : state.pos ≤ bb + k)
    (hkle : k ≤ block.length) (hfuel : block.length - k < fuel) {fuel' : Nat}
    (hfuel' : block.length - k < fuel') :
    parseDataBlockLoop f bb block fuel state = parseDataBlockLoop f bb block fuel' state := by
  induction fuel generalizing fuel' k state with
  | zero => omega
  | succ fuel ih =>
    obtain ⟨fuel', rfl⟩ : ∃ m, fuel' = m + 1 := ⟨fuel' - 1, by omega⟩
    have hin : state.pos ≤ bb + block.length := by omega
    rcases Nat.lt_or_eq_of_le hkle with hlt | rfl
    · cases hn : f state.encodingParams (block.drop k) lineFeed with
      | none => rw [parseDataBlockLoop_noLineFeed hin hk hlt hn, parseDataBlockLoop_noLineFeed hin hk hlt hn]
      | some n =>
        obtain ⟨next, k', hloop, -, hp, hk', hpos', hgt, hle⟩ :=
          parseDataBlockLoop_advance hin hk hlt hn (hf _ _ hn)
        rw [hloop, hloop, @ih k' next (hp ▸ hf) hk' hpos' hle (by omega) fuel' (by omega)]
    · rw [parseDataBlockLoop_atEnd hin hk, parseDataBlockLoop_atEnd hin hk]

theorem parseDataBlockLoopStates_pos (hf : f.Bounded state.encodingParams)
    (hk : (if bb ≤ state.pos then state.pos - bb else 0) = k) (hpos : state.pos ≤ bb + k)
    (hkle : k ≤ block.length) (hfuel : block.length - k < fuel) :
    (parseDataBlockLoopStates f bb block fuel state).map (·.pos) =
      state.pos :: (parseDataBlockLoop f bb block fuel state).1 := by
  induction fuel generalizing k state with
  | zero => omega
  | succ fuel ih =>
    have hin : state.pos ≤ bb + block.length := by omega
    rcases Nat.lt_or_eq_of_le hkle with hlt | rfl
    · cases hn : f state.encodingParams (block.drop k) lineFeed with
      | none =>
        rw [parseDataBlockLoopStates_noLineFeed hin hk hlt hn, parseDataBlockLoop_noLineFeed hin hk hlt hn]
        rfl
      | some n =>
        obtain ⟨next, k', hloop, hstates, hp, hk', hpos', hgt, hle⟩ :=
          parseDataBlockLoop_advance hin hk hlt hn (hf _ _ hn)
        rw [hloop, hstates, List.map_cons, ih (hp ▸ hf) hk' hpos' hle (by omega)]
    · rw [parseDataBlockLoopStates_atEnd hin hk, parseDataBlockLoop_atEnd hin hk]
      rfl

theorem parseDataBlock_inBlock (hin : state.pos ≤ bb + block.length) :
    ∀ s ∈ parseDataBlockLoopStates (chooseFindDelimeter state.encodingParams) bb block
      (block.length + 1) state, s.pos ≤ bb + block.length := by
  obtain ⟨k, hk, hkle, hpos⟩ := posWithinBlock_eq hin
  intro s hs
  have hmem := List.mem_map_of_mem (·.pos) hs
  rw [parseDataBlockLoopStates_pos (chooseFindDelimeter_bounded _) hk hpos hkle (by omega),
    ← parseDataBlock] at hmem
  dsimp only at hmem
  rcases List.mem_cons.mp hmem with h | h
  · rw [h]; exact hin
  · exact (parseDataBlock_lines hin).1.2.1 _ h

end

/-! ## Over a block phase -/

section
variable {Codec Digest : Type} (env : Env Codec Digest)

theorem indexNextBlock_pos_le {q : Int} {b : Bytes} {r : Run Codec Digest} (hq : 0 ≤ q)
    (hpos : r.state.pos ≤ q) : (indexNextBlock env (q, b) r).state.pos ≤ q + b.length := by
  rw [indexNextBlock_state env r hq]
  split
  · simp only [guessEncoding_pos]; omega
  · have hin : (guessEncoding env b r.data r.state).pos ≤ q + b.length := by
      simp only [guessEncoding_pos]; omega
    obtain ⟨⟨hchain, hle, hlast⟩, -⟩ := parseDataBlock_lines hin
    rw [hlast]
    cases hl : (parseDataBlock q b (guessEncoding env b r.data r.state)).1.getLast? with
    | none => exact hin
    | some x => exact hle x (List.mem_of_getLast?_eq_some hl)

theorem indexBlocks_inBlock :
    ∀ (blocks : List Bytes) (q : Int) (r : Run Codec Digest), 0 ≤ q → r.state.pos ≤ q →
      ∀ (i : Nat) (hi : i < (readFileInBlocks q blocks).length),
        ∀ s ∈ parseDataBlockLoopStates
          (chooseFindDelimeter (guessEncoding env (readFileInBlocks q blocks)[i].2
            (runSteps ((indexBlocks env q blocks).take i) r).data
            (runSteps ((indexBlocks env q blocks).take i) r).state).encodingParams)
          (readFileInBlocks q blocks)[i].1 (readFileInBlocks q blocks)[i].2
          ((readFileInBlocks q blocks)[i].2.length + 1)
          (guessEncoding env (readFileInBlocks q blocks)[i].2
            (runSteps ((indexBlocks env q blocks).take i) r).data
            (runSteps ((indexBlocks env q blocks).take i) r).state),
          s.pos ≤ (readFileInBlocks q blocks)[i].1 + (readFileInBlocks q blocks)[i].2.length
  | [], _, _, _, _, i, hi => by simp [readFileInBlocks] at hi
  | b :: bs, q, r, hq, hpos, 0, _ => by
    simp only [readFileInBlocks, List.getElem_cons_zero, List.take_zero, runSteps_nil]
    exact parseDataBlock_inBlock (by simp only [guessEncoding_pos]; omega)
  | b :: bs, q, r, hq, hpos, i + 1, hi => by
    simp only [readFileInBlocks, List.length_cons, Nat.add_lt_add_iff_right] at hi
    exact indexBlocks_inBlock bs (q + b.length) (indexNextBlock env (q, b) r) (by omega)
      (indexNextBlock_pos_le env hq hpos) i hi

end

/-- For every block, position and codec, `parseDataBlock` stops by its own test, and every pass
reads only bytes inside the block. -/
theorem parseDataBlock_staysInBlock {Codec Digest : Type} (bb : Int) (block : Bytes)
    (state : IndexingState Codec) (hin : state.pos ≤ bb + block.length) (env : Env Codec Digest)
    (q : Int) (blocks : List Bytes) (r : Run Codec Digest) (hq : 0 ≤ q) (hpos : r.state.pos ≤ q) :
    (∀ fuel, block.length < fuel →
      parseDataBlockLoop (chooseFindDelimeter state.encodingParams) bb block fuel state =
        parseDataBlock bb block state) ∧
    List.Chain (· < ·) state.pos (parseDataBlock bb block state).1 ∧
    (∀ x ∈ (parseDataBlock bb block state).1, state.pos < x ∧ x ≤ bb + block.length) ∧
    (parseDataBlock bb block state).2.pos =
      (parseDataBlock bb block state).1.getLast?.getD state.pos ∧
    (∀ s ∈ parseDataBlockLoopStates (chooseFindDelimeter state.encodingParams) bb block
      (block.length + 1) state, s.pos ≤ bb + block.length) ∧
    ∀ (i : Nat) (hi : i < (readFileInBlocks q blocks).length),
      ∀ s ∈ parseDataBlockLoopStates
        (chooseFindDelimeter (guessEncoding env (readFileInBlocks q blocks)[i].2
          (runSteps ((indexBlocks env q blocks).take i) r).data
          (runSteps ((indexBlocks env q blocks).take i) r).state).encodingParams)
        (readFileInBlocks q blocks)[i].1 (readFileInBlocks q blocks)[i].2
        ((readFileInBlocks q blocks)[i].2.length + 1)
        (guessEncoding env (readFileInBlocks q blocks)[i].2
          (runSteps ((indexBlocks env q blocks).take i) r).data
          (runSteps ((indexBlocks env q blocks).take i) r).state),
        s.pos ≤ (readFileInBlocks q blocks)[i].1 + (readFileInBlocks q blocks)[i].2.length := by
  obtain ⟨k, hk, hkle, hk0⟩ := posWithinBlock_eq hin
  obtain ⟨⟨hchain, hle, hlast⟩, -⟩ := parseDataBlock_lines hin
  refine ⟨fun fuel hfuel => parseDataBlockLoop_enoughFuel (chooseFindDelimeter_bounded _) hk hk0 hkle
      (by omega) (by omega), hchain, fun x hx => ⟨hchain.rel hx, hle x hx⟩, hlast,
    parseDataBlock_inBlock hin, indexBlocks_inBlock env blocks q r hq hpos⟩

theorem parseDataBlock_staysInBlock_lineFeed :
    let state : IndexingState Unit := IndexingState.init
    let env := Env.fixed EncodingParameters.singleByte
    let r : Run Unit Bytes := Run.start (IndexingData.empty false)
    state.pos ≤ 0 + ([97, 10] : Bytes).length ∧ (0 : Int) ≤ 0 ∧ r.state.pos ≤ 0 ∧
    ((∀ fuel, ([97, 10] : Bytes).length < fuel →
      parseDataBlockLoop (chooseFindDelimeter state.encodingParams) 0 [97, 10] fuel state =
        parseDataBlock 0 [97, 10] state) ∧
    List.Chain (· < ·) state.pos (parseDataBlock 0 [97, 10] state).1 ∧
    (∀ x ∈ (parseDataBlock 0 [97, 10] state).1, state.pos < x ∧ x ≤ 0 + ([97, 10] : Bytes).length) ∧
    (parseDataBlock 0 [97, 10] state).2.pos =
      (parseDataBlock 0 [97, 10] state).1.getLast?.getD state.pos ∧
    (∀ s ∈ parseDataBlockLoopStates (chooseFindDelimeter state.encodingParams) 0 [97, 10]
      (([97, 10] : Bytes).length + 1) state, s.pos ≤ 0 + ([97, 10] : Bytes).length) ∧
    ∀ (i : Nat) (hi : i < (readFileInBlocks 0 [[97, 10]]).length),
      ∀ s ∈ parseDataBlockLoopStates
        (chooseFindDelimeter (guessEncoding env (readFileInBlocks 0 [[97, 10]])[i].2
          (runSteps ((indexBlocks env 0 [[97, 10]]).take i) r).data
          (runSteps ((indexBlocks env 0 [[97, 10]]).take i) r).state).encodingParams)
        (readFileInBlocks 0 [[97, 10]])[i].1 (readFileInBlocks 0 [[97, 10]])[i].2
        ((readFileInBlocks 0 [[97, 10]])[i].2.length + 1)
        (guessEncoding env (readFileInBlocks 0 [[97, 10]])[i].2
          (runSteps ((indexBlocks env 0 [[97, 10]]).take i) r).data
          (runSteps ((indexBlocks env 0 [[97, 10]]).take i) r).state),
        s.pos ≤ (readFileInBlocks 0 [[97, 10]])[i].1 + (readFileInBlocks 0 [[97, 10]])[i].2.length) :=
  ⟨by decide, Int.le_refl 0, Int.le_refl 0, parseDataBlock_staysInBlock 0 [97, 10] IndexingState.init (by decide)
    (Env.fixed EncodingParameters.singleByte) 0 [[97, 10]] (Run.start (IndexingData.empty false))
    (Int.le_refl 0) (Int.le_refl 0)⟩

end Klogg

import Klogg.Operation
import Klogg.ParseSpec

/-!
# What each step of an operation changes

One lemma per step of a run: the parser only moves its position and its
measures; `guessEncoding` settles the codec once; `indexNextBlock` appends the
block's offsets and adds the block to the fingerprint.
-/

namespace Klogg

variable {Codec Digest : Type}

/-! ## The parser's settings -/

def IndexingState.SameSettings (s t : IndexingState Codec) : Prop :=
  t.encodingParams = s.encodingParams ∧ t.encodingGuess = s.encodingGuess ∧
    t.fileTextCodec = s.fileTextCodec ∧ t.fileSize = s.fileSize ∧ s.maxLength ≤ t.maxLength

theorem IndexingState.SameSettings.refl (s : IndexingState Codec) : s.SameSettings s :=
  ⟨rfl, rfl, rfl, rfl, Int.le_refl _⟩

theorem IndexingState.SameSettings.trans {s t u : IndexingState Codec} (h₁ : s.SameSettings t)
    (h₂ : t.SameSettings u) : s.SameSettings u :=
  ⟨h₂.1.trans h₁.1, h₂.2.1.trans h₁.2.1, h₂.2.2.1.trans h₁.2.2.1, h₂.2.2.2.1.trans h₁.2.2.2.1,
    Int.le_trans h₁.2.2.2.2 h₂.2.2.2.2⟩

theorem IndexingState.sameSettings_measure (s : IndexingState Codec) (e a : Int) :
    s.SameSettings (s.measure e a) :=
  ⟨rfl, rfl, rfl, rfl, Int.le_max_left _ _⟩

theorem IndexingState.sameSettings_nextLine (s : IndexingState Codec) (e : Int) :
    s.SameSettings (s.nextLine e) :=
  ⟨rfl, rfl, rfl, rfl, Int.le_refl _⟩

theorem parseDataBlockLoop_sameSettings (f : FindDelimeter) (bb : Int) (block : Bytes) :
    ∀ (fuel : Nat) (state : IndexingState Codec),
      state.SameSettings (parseDataBlockLoop f bb block fuel state).2
  | 0, state => .refl state
  | fuel + 1, state => by
    by_cases hin : state.pos ≤ bb + block.length
    · obtain ⟨k, hk, hkle, -⟩ := posWithinBlock_eq hin
      rcases Nat.lt_or_eq_of_le hkle with hlt | rfl
      · cases hn : f state.encodingParams (block.drop k) lineFeed with
        | none =>
          rw [parseDataBlockLoop_noLineFeed hin hk hlt hn]
          exact state.sameSettings_measure _ _
        | some n =>
          rw [parseDataBlockLoop_lineFeed hin hk hlt hn]
          exact ((state.sameSettings_measure _ _).trans (IndexingState.sameSettings_nextLine _ _)).trans
            (parseDataBlockLoop_sameSettings f bb block fuel _)
      · rw [parseDataBlockLoop_atEnd hin hk]
        exact state.sameSettings_measure _ _
    · rw [parseDataBlockLoop, if_pos (by omega)]
      exact .refl state

theorem parseDataBlock_sameSettings (bb : Int) (block : Bytes) (state : IndexingState Codec) :
    state.SameSettings (parseDataBlock bb block state).2 :=
  parseDataBlockLoop_sameSettings _ bb block _ state

/-! ## Steps of a run -/

section
variable (env : Env Codec Digest)

@[simp] theorem guessEncoding_pos (block : Bytes) (d : IndexingData Codec Digest)
    (state : IndexingState Codec) : (guessEncoding env block d state).pos = state.pos := rfl
@[simp] theorem guessEncoding_fileSize (block : Bytes) (d : IndexingData Codec Digest)
    (state : IndexingState Codec) : (guessEncoding env block d state).fileSize = state.fileSize := rfl
@[simp] theorem guessEncoding_maxLength (block : Bytes) (d : IndexingData Codec Digest)
    (state : IndexingState Codec) : (guessEncoding env block d state).maxLength = state.maxLength :=
  rfl

theorem guessEncoding_of_settled {block : Bytes} {d : IndexingData Codec Digest}
    {state : IndexingState Codec} {c : Codec} (h : state.fileTextCodec = some c) :
    (guessEncoding env block d state).fileTextCodec = some c ∧
      (guessEncoding env block d state).encodingParams = env.encodingParameters c := by
  simp [guessEncoding, h]

theorem indexNextBlock_eq {bb : Int} {block : Bytes} (r : Run Codec Digest) (hbb : 0 ≤ bb)
    (hne : block ≠ []) :
    let state := guessEncoding env block r.data r.state
    let parsed := parseDataBlock bb block state
    let data := r.data.addAll env.digest block
      (if env.lineLengthMax < parsed.2.maxLength then env.lineLengthMax else parsed.2.maxLength)
      ⟨parsed.1, false⟩ parsed.2.encodingGuess
    ∃ p events, indexNextBlock env (bb, block) r =
      ⟨{ data with progress := p }, parsed.2, events,
        r.parsedWith ++ [(guessEncoding env block r.data r.state).encodingParams]⟩ := by
  obtain ⟨b, bs, rfl⟩ := List.exists_cons_of_ne_nil hne
  simp only [indexNextBlock, show ¬ bb < 0 by omega, ite_false, List.isEmpty, Bool.false_eq_true]
  split_ifs <;> exact ⟨_, _, rfl⟩

theorem indexNextBlock_nil {bb : Int} (r : Run Codec Digest) (hbb : 0 ≤ bb) :
    indexNextBlock env (bb, []) r =
      ⟨r.data.setEncodingGuess (guessEncoding env [] r.data r.state).encodingGuess,
        guessEncoding env [] r.data r.state, r.events, r.parsedWith⟩ := by
  simp [indexNextBlock, show ¬ bb < 0 by omega]

variable {bb : Int} {block : Bytes} (r : Run Codec Digest)

theorem indexNextBlock_cases (hbb : 0 ≤ bb) {P : Run Codec Digest → Prop}
    (hnil : block = [] → P ⟨r.data.setEncodingGuess (guessEncoding env [] r.data r.state).encodingGuess,
      guessEncoding env [] r.data r.state, r.events, r.parsedWith⟩)
    (hcons : block ≠ [] → ∀ p events,
      P ⟨{ r.data.addAll env.digest block
          (if env.lineLengthMax < (parseDataBlock bb block (guessEncoding env block r.data r.state)).2.maxLength
            then env.lineLengthMax
            else (parseDataBlock bb block (guessEncoding env block r.data r.state)).2.maxLength)
          ⟨(parseDataBlock bb block (guessEncoding env block r.data r.state)).1, false⟩
          (parseDataBlock bb block (guessEncoding env block r.data r.state)).2.encodingGuess with
          progress := p },
        (parseDataBlock bb block (guessEncoding env block r.data r.state)).2, events,
        r.parsedWith ++ [(guessEncoding env block r.data r.state).encodingParams]⟩) :
    P (indexNextBlock env (bb, block) r) := by
  rcases eq_or_ne block [] with rfl | hne
  · rw [indexNextBlock_nil env r hbb]; exact hnil rfl
  · obtain ⟨p, events, h⟩ := indexNextBlock_eq env r hbb hne
    rw [h]; exact hcons hne p events

@[simp] theorem indexNextBlock_size (hbb : 0 ≤ bb) :
    (indexNextBlock env (bb, block) r).data.hash.size = r.data.hash.size + block.length := by
  refine indexNextBlock_cases env r hbb (P := fun x => x.data.hash.size = _) ?_ ?_ <;> intros <;>
    simp_all

@[simp] theorem indexNextBlock_encodingForced (hbb : 0 ≤ bb) :
    (indexNextBlock env (bb, block) r).data.encodingForced = r.data.encodingForced := by
  refine indexNextBlock_cases env r hbb (P := fun x => x.data.encodingForced = _) ?_ ?_ <;>
    intros <;> simp_all

theorem indexNextBlock_state (hbb : 0 ≤ bb) :
    (indexNextBlock env (bb, block) r).state =
      if block = [] then guessEncoding env block r.data r.state
      else (parseDataBlock bb block (guessEncoding env block r.data r.state)).2 := by
  refine indexNextBlock_cases env r hbb (P := fun x => x.state = _) ?_ ?_ <;> intros <;> simp_all

theorem indexNextBlock_encodingGuess (hbb : 0 ≤ bb) :
    (indexNextBlock env (bb, block) r).data.encodingGuess =
      (guessEncoding env block r.data r.state).encodingGuess := by
  refine indexNextBlock_cases env r hbb (P := fun x => x.data.encodingGuess = _) ?_ ?_
  · rintro rfl; rfl
  · intro _ _ _
    exact (parseDataBlock_sameSettings bb block _).2.1

@[simp] theorem indexNextBlock_fileSize (hbb : 0 ≤ bb) :
    (indexNextBlock env (bb, block) r).state.fileSize = r.state.fileSize := by
  rw [indexNextBlock_state env r hbb]
  split
  · rfl
  · exact (parseDataBlock_sameSettings bb block _).2.2.2.1

theorem indexNextBlock_stateEncodingGuess (hbb : 0 ≤ bb) :
    (indexNextBlock env (bb, block) r).state.encodingGuess =
      some (r.state.encodingGuess.getD (env.detectEncoding block)) := by
  rw [indexNextBlock_state env r hbb]
  split
  · rfl
  · exact (parseDataBlock_sameSettings bb block _).2.1

theorem indexNextBlock_maxLength (hbb : 0 ≤ bb) :
    r.state.maxLength ≤ (indexNextBlock env (bb, block) r).state.maxLength ∧
      (indexNextBlock env (bb, block) r).data.maxLength ≤
        max r.data.maxLength (indexNextBlock env (bb, block) r).state.maxLength := by
  refine indexNextBlock_cases env r hbb (P := fun x => r.state.maxLength ≤ x.state.maxLength ∧
    x.data.maxLength ≤ max r.data.maxLength x.state.maxLength) ?_ ?_
  · intro _
    simp only [IndexingData.setEncodingGuess_maxLength, guessEncoding_maxLength]
    omega
  · intro _ _ _
    have := (parseDataBlock_sameSettings bb block (guessEncoding env block r.data r.state)).2.2.2.2
    simp only [IndexingData.addAll_maxLength, guessEncoding_maxLength] at this ⊢
    split <;> omega

theorem indexNextBlock_data_maxLength (hbb : 0 ≤ bb) (hne : block ≠ []) :
    (indexNextBlock env (bb, block) r).data.maxLength =
      max r.data.maxLength (if env.lineLengthMax < (indexNextBlock env (bb, block) r).state.maxLength
        then env.lineLengthMax else (indexNextBlock env (bb, block) r).state.maxLength) := by
  obtain ⟨p, events, heq⟩ := indexNextBlock_eq env r hbb hne
  rw [heq]
  simp

theorem indexNextBlock_parsedWith (hbb : 0 ≤ bb) :
    (indexNextBlock env (bb, block) r).parsedWith =
      if block = [] then r.parsedWith
      else r.parsedWith ++ [(guessEncoding env block r.data r.state).encodingParams] := by
  refine indexNextBlock_cases env r hbb (P := fun x => x.parsedWith = _) ?_ ?_ <;> intros <;>
    simp_all

theorem indexNextBlock_linePosition (hbb : 0 ≤ bb) :
    (indexNextBlock env (bb, block) r).data.linePosition =
      if block = [] then r.data.linePosition
      else r.data.linePosition.appendList
        ⟨(parseDataBlock bb block (guessEncoding env block r.data r.state)).1, false⟩ := by
  refine indexNextBlock_cases env r hbb (P := fun x => x.data.linePosition = _) ?_ ?_ <;> intros <;>
    simp_all

end

/-! ## The block phase -/

section
variable (env : Env Codec Digest)

theorem indexBlocks_cons (q : Int) (b : Bytes) (bs : List Bytes) :
    indexBlocks env q (b :: bs) = indexNextBlock env (q, b) :: indexBlocks env (q + b.length) bs :=
  rfl

@[simp] theorem indexBlocks_nil (q : Int) : indexBlocks env q [] = [] := rfl

theorem indexBlocks_induction {P : Int → Run Codec Digest → Prop}
    (step : ∀ q b r, 0 ≤ q → P q r → P (q + b.length) (indexNextBlock env (q, b) r)) :
    ∀ (blocks : List Bytes) (q : Int) (r : Run Codec Digest), 0 ≤ q → P q r →
      P (q + blocks.flatten.length) (runSteps (indexBlocks env q blocks) r)
  | [], q, r, _, h => by simpa using h
  | b :: bs, q, r, hq, h => by
    have := indexBlocks_induction step bs (q + b.length) _ (by omega) (step q b r hq h)
    simpa [indexBlocks_cons, Int.add_assoc] using this

variable {q : Int} (blocks : List Bytes) (r : Run Codec Digest)

theorem indexBlocks_size (hq : 0 ≤ q) :
    (runSteps (indexBlocks env q blocks) r).data.hash.size = r.data.hash.size + blocks.flatten.length := by
  have := indexBlocks_induction env (P := fun p x => x.data.hash.size - p = r.data.hash.size - q)
    (fun p b x hp h => by dsimp only at h ⊢; rw [indexNextBlock_size env x hp]; omega) blocks q r hq rfl
  omega

theorem indexBlocks_encodingForced (hq : 0 ≤ q) :
    (runSteps (indexBlocks env q blocks) r).data.encodingForced = r.data.encodingForced :=
  indexBlocks_induction env (P := fun _ x => x.data.encodingForced = r.data.encodingForced)
    (fun _ _ x hp h => by dsimp only at h ⊢; rw [indexNextBlock_encodingForced env x hp, h]) blocks q r hq rfl

theorem indexBlocks_fileSize (hq : 0 ≤ q) :
    (runSteps (indexBlocks env q blocks) r).state.fileSize = r.state.fileSize :=
  indexBlocks_induction env (P := fun _ x => x.state.fileSize = r.state.fileSize)
    (fun _ _ x hp h => by dsimp only at h ⊢; rw [indexNextBlock_fileSize env x hp, h]) blocks q r hq rfl

theorem indexBlocks_maxLength (hq : 0 ≤ q) :
    r.state.maxLength ≤ (runSteps (indexBlocks env q blocks) r).state.maxLength ∧
      (runSteps (indexBlocks env q blocks) r).data.maxLength ≤
        max r.data.maxLength (runSteps (indexBlocks env q blocks) r).state.maxLength :=
  indexBlocks_induction env (P := fun _ x => r.state.maxLength ≤ x.state.maxLength ∧
      x.data.maxLength ≤ max r.data.maxLength x.state.maxLength)
    (fun _ b x hp h => by have := @indexNextBlock_maxLength _ _ env _ b x hp; omega) blocks q r hq
    ⟨Int.le_refl _, Int.le_max_left _ _⟩

theorem indexBlocks_encodingGuess (hq : 0 ≤ q) (b : Bytes) (bs : List Bytes) :
    let g := r.state.encodingGuess.getD (env.detectEncoding b)
    (runSteps (indexBlocks env q (b :: bs)) r).data.encodingGuess = some g ∧
      (runSteps (indexBlocks env q (b :: bs)) r).state.encodingGuess = some g := by
  intro g
  have step : ∀ p c x, 0 ≤ p → x.data.encodingGuess = some g ∧ x.state.encodingGuess = some g →
      (indexNextBlock env (p, c) x).data.encodingGuess = some g ∧
        (indexNextBlock env (p, c) x).state.encodingGuess = some g := fun p c x hp h => by
    rw [indexNextBlock_encodingGuess env x hp, indexNextBlock_stateEncodingGuess env x hp]
    simp [guessEncoding, h.2]
  rw [indexBlocks_cons, runSteps_cons]
  exact indexBlocks_induction env (P := fun _ x => x.data.encodingGuess = some g ∧
      x.state.encodingGuess = some g) (fun p c x hp h => step p c x hp h) bs _ _ (by omega)
    ⟨by rw [indexNextBlock_encodingGuess env r hq]; rfl, indexNextBlock_stateEncodingGuess env r hq⟩

end

/-! ## The codec of a run -/

section
variable (env : Env Codec Digest)

def Run.SettlesOn (c : Codec) (blocks : List Bytes) (r : Run Codec Digest) : Prop :=
  r.state.fileTextCodec = some c ∨
    (r.state.fileTextCodec = none ∧ r.data.encodingForced = none ∧ r.data.encodingGuess = none ∧
      r.state.encodingGuess = none ∧ ∀ b bs, blocks = b :: bs → env.detectEncoding b = c)

theorem guessEncoding_of_settlesOn {c : Codec} {b : Bytes} {bs : List Bytes} {r : Run Codec Digest}
    (h : r.SettlesOn env c (b :: bs)) :
    (guessEncoding env b r.data r.state).fileTextCodec = some c ∧
      (guessEncoding env b r.data r.state).encodingParams = env.encodingParameters c := by
  rcases h with h | ⟨h1, h2, h3, h4, h5⟩
  · exact guessEncoding_of_settled env h
  · simp [guessEncoding, h1, h2, h3, h4, IndexingData.getForcedEncoding,
      IndexingData.getEncodingGuess, h5 b bs rfl]

theorem indexNextBlock_settled {c : Codec} {bb : Int} {b : Bytes} {bs : List Bytes}
    {r : Run Codec Digest} (hbb : 0 ≤ bb) (h : r.SettlesOn env c (b :: bs)) :
    (indexNextBlock env (bb, b) r).state.fileTextCodec = some c ∧
      (indexNextBlock env (bb, b) r).state.encodingParams = env.encodingParameters c := by
  obtain ⟨h1, h2⟩ := guessEncoding_of_settlesOn env h
  rw [indexNextBlock_state env r hbb]
  split
  · exact ⟨h1, h2⟩
  · obtain ⟨hp, -, hc, -⟩ := parseDataBlock_sameSettings bb b (guessEncoding env b r.data r.state)
    exact ⟨hc.trans h1, hp.trans h2⟩

theorem indexBlocks_parsedWith {c : Codec} :
    ∀ (blocks : List Bytes) (q : Int) (r : Run Codec Digest), 0 ≤ q → r.SettlesOn env c blocks →
      ∀ p ∈ (runSteps (indexBlocks env q blocks) r).parsedWith,
        p ∈ r.parsedWith ∨ p = env.encodingParameters c
  | [], _, _, _, _, p, hp => by simp_all
  | b :: bs, q, r, hq, h, p, hp => by
    rw [indexBlocks_cons, runSteps_cons] at hp
    rcases indexBlocks_parsedWith bs (q + b.length) _ (by omega)
      (Or.inl (indexNextBlock_settled env hq h).1) p hp with hp | hp
    · rw [indexNextBlock_parsedWith env r hq, (guessEncoding_of_settlesOn env h).2] at hp
      split at hp <;> simp_all
    · exact Or.inr hp

end

end Klogg

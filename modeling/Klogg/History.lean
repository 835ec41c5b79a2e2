import Klogg.LineIndex

/-!
# Indexing histories

A history is a `FullIndexOperation` followed by `PartialIndexOperation`s, none
of which clears the store: each run opens the file, sees no interrupt before
the clear and measures no line of `LineLength`'s maximum. In an `Indexed`
history the file may change in any way between and during the runs; a
`History` is the append-only case in which the file holds still while a run
reads it, indexed by the content the store covers.

One codec governs a whole history (`indexed_codec`), and with single-byte
line feeds the store of a history is the line index of its content
(`history_lineIndex`).
-/

namespace Klogg

variable {Codec Digest : Type} [Inhabited Digest] (env : Env Codec Digest)

/-- The codec a full index settles on: forced, else guessed on the first block, else the
locale's. -/
def fullIndexCodec (forced : Option Codec) (blocks : List Bytes) : Codec :=
  forced.getD (match blocks with
    | [] => env.codecForLocale
    | b :: _ => env.detectEncoding b)

/-- Stores reached by a history that clears nothing, with the codec it settles on. -/
inductive Indexed (forced : Option Codec) :
    Codec → IndexingData Codec Digest → List EncodingParameters → Prop
  | full {d : IndexingData Codec Digest} {view : FileView} {irq : InterruptReads} {fast : Bool}
      (hopen : view.opened = true) (hirq : irq.beforeClear = false)
      (hlen : (FullIndexOperation.run env forced view irq fast d).2.state.maxLength <
        env.lineLengthMax) :
      Indexed forced (fullIndexCodec env forced view.blocks)
        (FullIndexOperation.run env forced view irq fast d).2.data
        (FullIndexOperation.run env forced view irq fast d).2.parsedWith
  | next {c : Codec} {d : IndexingData Codec Digest} {ps : List EncodingParameters}
      {view : FileView} {irq : InterruptReads} {fast : Bool} (h : Indexed forced c d ps)
      (hopen : view.opened = true) (hirq : irq.beforeClear = false)
      (hlen : (PartialIndexOperation.run env view irq fast d).2.state.maxLength <
        env.lineLengthMax) :
      Indexed forced c (PartialIndexOperation.run env view irq fast d).2.data
        (ps ++ (PartialIndexOperation.run env view irq fast d).2.parsedWith)

/-! ## The codec of a history -/

def CodecInv (forced : Option Codec) (c : Codec) (d : IndexingData Codec Digest) : Prop :=
  d.encodingForced = forced ∧ (∃ g, d.encodingGuess = some g ∧ forced.getD g = c) ∧
    d.maxLength < env.lineLengthMax ∧ 0 ≤ d.hash.size

section
variable {forced : Option Codec}

theorem startIndexing_settlesOn_full (d : IndexingData Codec Digest) (fast : Bool) (n : Nat)
    (blocks : List Bytes) :
    (startIndexing 0 n (FullIndexOperation.start d forced fast)).SettlesOn env
      (fullIndexCodec env forced blocks) blocks := by
  cases forced with
  | none => exact .inr ⟨rfl, rfl, rfl, rfl, fun b bs h => by subst h; rfl⟩
  | some f => exact .inl rfl

omit [Inhabited Digest] in
theorem startIndexing_settlesOn_partialIndex {c : Codec} {d : IndexingData Codec Digest}
    (h : CodecInv env forced c d) (q : Int) (n : Nat) (e : Event) (blocks : List Bytes) :
    (startIndexing q n (emit e (Run.start d))).SettlesOn env c blocks := by
  obtain ⟨hf, ⟨g, hg, hc⟩, -⟩ := h
  left
  simp only [startIndexing, emit, Run.start, IndexingData.getForcedEncoding,
    IndexingData.getEncodingGuess, hf, hg, ← hc]
  cases forced <;> rfl

omit [Inhabited Digest] in
theorem finish_encodingGuess (e : Int) (content : Bytes) (y : Run Codec Digest)
    (h : y.data.encodingGuess = y.state.encodingGuess) :
    (setLocaleIfNoGuess env (hashHeaderAndTail env e content (addFakeFinalLF env false y))).data.encodingGuess =
      some (y.data.encodingGuess.getD env.codecForLocale) := by
  simp [addFakeFinalLF_encodingGuess env y false h]

theorem codecInv_full {d : IndexingData Codec Digest} {view : FileView} {irq : InterruptReads}
    {fast : Bool} (hopen : view.opened = true) (hirq : irq.beforeClear = false)
    (hlen : (FullIndexOperation.run env forced view irq fast d).2.state.maxLength <
      env.lineLengthMax) :
    CodecInv env forced (fullIndexCodec env forced view.blocks)
      (FullIndexOperation.run env forced view irq fast d).2.data ∧
    ∀ p ∈ (FullIndexOperation.run env forced view irq fast d).2.parsedWith,
      p = env.encodingParameters (fullIndexCodec env forced view.blocks) := by
  have heq := FullIndexOperation.run_of_noClear env d hopen hirq hlen
  have h0 : (0 : Int) ≤ 0 := Int.le_refl 0
  have hlen' := hlen
  simp only [heq, emit_state, setLocaleIfNoGuess_state, hashHeaderAndTail_state,
    addFakeFinalLF_state] at hlen'
  obtain ⟨hg1, hg2⟩ := afterBlocks_encodingGuess env view (FullIndexOperation.start d forced fast) h0
  have hml := afterBlocks_maxLength_lt env _ h0 (env.lineLengthMax_pos) hlen'
  have hsize := indexBlocks_size env view.blocks
    (startIndexing 0 view.size (FullIndexOperation.start d forced fast)) h0
  have hforced := indexBlocks_encodingForced env view.blocks
    (startIndexing 0 view.size (FullIndexOperation.start d forced fast)) h0
  have hps := indexBlocks_parsedWith env view.blocks 0 _ h0
    (@startIndexing_settlesOn_full _ _ _ env forced d fast view.size view.blocks)
  rw [heq]
  refine ⟨⟨?_, ⟨_, by rw [emit_data, finish_encodingGuess env _ _ _ hg1], ?_⟩,
    by simpa using hml, ?_⟩, ?_⟩
  · simpa [Run.afterBlocks] using hforced
  · rw [hg2]; cases view.blocks <;> rfl
  · simp only [emit_data, setLocaleIfNoGuess_data, IndexingData.setEncodingGuess_hash,
      hashHeaderAndTail_size, addFakeFinalLF_size, Run.afterBlocks, hsize]
    simp only [startIndexing_data, FullIndexOperation.start_data, IndexingData.forceEncoding_hash]
    exact Int.ofNat_nonneg _
  · intro p hp
    simpa using hps p (by simpa [Run.afterBlocks] using hp)

theorem codecInv_partialIndex {c : Codec} {d : IndexingData Codec Digest} {view : FileView}
    {irq : InterruptReads} {fast : Bool} (h : CodecInv env forced c d) (hopen : view.opened = true)
    (hirq : irq.beforeClear = false)
    (hlen : (PartialIndexOperation.run env view irq fast d).2.state.maxLength < env.lineLengthMax) :
    CodecInv env forced c (PartialIndexOperation.run env view irq fast d).2.data ∧
    ∀ p ∈ (PartialIndexOperation.run env view irq fast d).2.parsedWith,
      p = env.encodingParameters c := by
  obtain ⟨hf, ⟨g, hg, hc⟩, hml0, hpos⟩ := h
  have heq := PartialIndexOperation.run_of_noClear env d hpos hml0 hopen hirq hlen
  have hlen' := hlen
  simp only [heq, emit_state, setLocaleIfNoGuess_state, hashHeaderAndTail_state,
    addFakeFinalLF_state] at hlen'
  obtain ⟨hg1, hg2⟩ := afterBlocks_encodingGuess env view (emit (.indexingProgressed 0) (Run.start d)) hpos
  have hml := afterBlocks_maxLength_lt env _ hpos hml0 hlen'
  have hsize := indexBlocks_size env view.blocks
    (startIndexing d.hash.size view.size (emit (.indexingProgressed 0) (Run.start d))) hpos
  have hforced := indexBlocks_encodingForced env view.blocks
    (startIndexing d.hash.size view.size (emit (.indexingProgressed 0) (Run.start d))) hpos
  have hps := indexBlocks_parsedWith env view.blocks _ _ hpos
    (startIndexing_settlesOn_partialIndex env ⟨hf, ⟨g, hg, hc⟩, hml0, hpos⟩ d.hash.size view.size
      (.indexingProgressed 0) view.blocks)
  rw [heq]
  refine ⟨⟨?_, ⟨g, ?_, hc⟩, by simpa using hml, ?_⟩, ?_⟩
  · simpa [Run.afterBlocks, hf] using hforced
  · rw [emit_data, finish_encodingGuess env _ _ _ hg1, hg2]
    cases view.blocks <;> simp [hg]
  · simp only [emit_data, setLocaleIfNoGuess_data, IndexingData.setEncodingGuess_hash,
      hashHeaderAndTail_size, addFakeFinalLF_size, Run.afterBlocks, hsize]
    simp only [startIndexing_data, emit_data, Run.start_data]; omega
  · intro p hp
    simpa using hps p (by simpa [Run.afterBlocks] using hp)

theorem Indexed.codecInv {c : Codec} {d : IndexingData Codec Digest} {ps : List EncodingParameters}
    (h : Indexed env forced c d ps) :
    CodecInv env forced c d ∧ ∀ p ∈ ps, p = env.encodingParameters c := by
  induction h with
  | full hopen hirq hlen => exact codecInv_full env hopen hirq hlen
  | next _ hopen hirq hlen ih =>
    obtain ⟨h1, h2⟩ := codecInv_partialIndex env ih.1 hopen hirq hlen
    refine ⟨h1, fun p hp => ?_⟩
    rcases List.mem_append.mp hp with hp | hp
    · exact ih.2 p hp
    · exact h2 p hp

/-- One codec governs a history: every block of every run is parsed with the parameters of the codec
the full index settled on, and the store keeps the forced codec. -/
theorem indexed_codec {c : Codec} {d : IndexingData Codec Digest} {ps : List EncodingParameters}
    (h : Indexed env forced c d ps) :
    (∀ p ∈ ps, p = env.encodingParameters c) ∧ d.getForcedEncoding = forced ∧
      ∀ f, forced = some f → c = f := by
  obtain ⟨⟨hf, ⟨g, -, hc⟩, -⟩, hps⟩ := Indexed.codecInv env h
  exact ⟨hps, hf, fun f hff => by simp [hff] at hc; exact hc.symm⟩

theorem indexed_codec_fullIndex :
    let env := Env.fixed EncodingParameters.singleByte
    let r := (FullIndexOperation.run env none ⟨true, 3, [[97, 10], [98]], [97, 10, 98]⟩ .none false
      (IndexingData.empty false)).2
    (∀ p ∈ r.parsedWith, p = env.encodingParameters ()) ∧ r.data.getForcedEncoding = none ∧
      ∀ f, (none : Option Unit) = some f → () = f :=
  indexed_codec _ (Indexed.full (by rfl) (by rfl) (by decide))

end

/-! ## What a run that clears nothing leaves in the store -/

section
variable {view : FileView} {irq : InterruptReads} {fast : Bool} {d : IndexingData Codec Digest}

theorem FullIndexOperation.size_of_noClear {forced : Option Codec} (hopen : view.opened = true)
    (hirq : irq.beforeClear = false)
    (hlen : (FullIndexOperation.run env forced view irq fast d).2.state.maxLength <
      env.lineLengthMax) :
    (FullIndexOperation.run env forced view irq fast d).2.data.hash.size = view.blocks.flatten.length := by
  rw [FullIndexOperation.run_of_noClear env d hopen hirq hlen]
  simp only [emit_data, setLocaleIfNoGuess_data, IndexingData.setEncodingGuess_hash,
    hashHeaderAndTail_size, addFakeFinalLF_size, Run.afterBlocks,
    indexBlocks_size env _ _ (Int.le_refl 0)]
  simp [IndexingData.clear, IndexedHash.empty]

theorem PartialIndexOperation.size_of_noClear (hsize : 0 ≤ d.hash.size)
    (hml : d.maxLength < env.lineLengthMax) (hopen : view.opened = true)
    (hirq : irq.beforeClear = false)
    (hlen : (PartialIndexOperation.run env view irq fast d).2.state.maxLength < env.lineLengthMax) :
    (PartialIndexOperation.run env view irq fast d).2.data.hash.size =
      d.hash.size + view.blocks.flatten.length := by
  rw [PartialIndexOperation.run_of_noClear env d hsize hml hopen hirq hlen]
  simp only [emit_data, setLocaleIfNoGuess_data, IndexingData.setEncodingGuess_hash,
    hashHeaderAndTail_size, addFakeFinalLF_size, Run.afterBlocks, indexBlocks_size env _ _ hsize]
  rfl

end

/-! ## Append-only histories -/

/-- Stores reached over a file that only grows, and holds still while a run reads it. -/
inductive History (forced : Option Codec) (c : Codec) (fast : Bool) :
    Bytes → IndexingData Codec Digest → Prop
  | full {d : IndexingData Codec Digest} {F : Bytes} {blocks : List Bytes}
      (hblocks : blocks.flatten = F) (hc : fullIndexCodec env forced blocks = c)
      (hlen : (FullIndexOperation.run env forced (.steady F blocks) .none fast d).2.state.maxLength <
        env.lineLengthMax) :
      History forced c fast F
        (FullIndexOperation.run env forced (.steady F blocks) .none fast d).2.data
  | next {F F' : Bytes} {d : IndexingData Codec Digest} {blocks : List Bytes} {fast' : Bool}
      (h : History forced c fast F d) (hpre : F <+: F')
      (hblocks : blocks.flatten = F'.drop F.length)
      (hlen : (PartialIndexOperation.run env (.steady F' blocks) .none fast' d).2.state.maxLength <
        env.lineLengthMax) :
      History forced c fast F'
        (PartialIndexOperation.run env (.steady F' blocks) .none fast' d).2.data

section
variable {forced : Option Codec} {c : Codec} {fast : Bool}

theorem History.indexed {F : Bytes} {d : IndexingData Codec Digest}
    (h : History env forced c fast F d) : ∃ ps, Indexed env forced c d ps := by
  induction h with
  | full _ hc hlen => exact ⟨_, hc ▸ Indexed.full rfl rfl hlen⟩
  | next _ _ _ hlen ih =>
    obtain ⟨ps, ih⟩ := ih
    exact ⟨_, Indexed.next ih rfl rfl hlen⟩

theorem History.codecInv {F : Bytes} {d : IndexingData Codec Digest}
    (h : History env forced c fast F d) : CodecInv env forced c d := by
  obtain ⟨ps, h⟩ := h.indexed
  exact (Indexed.codecInv env h).1

theorem History.size {F : Bytes} {d : IndexingData Codec Digest}
    (h : History env forced c fast F d) : d.hash.size = F.length := by
  induction h with
  | full hblocks _ hlen =>
    rw [FullIndexOperation.size_of_noClear env rfl rfl hlen]
    simp [FileView.steady, hblocks]
  | @next F F' d blocks fast' h hpre hblocks hlen ih =>
    have hinv := h.codecInv
    rw [PartialIndexOperation.size_of_noClear env hinv.2.2.2 hinv.2.2.1 rfl rfl hlen, ih]
    simp only [FileView.steady, hblocks, List.length_drop]
    have := hpre.length_le
    omega

/-- With single-byte line feeds the store of a history is the line index of its content, however
its growth was cut into runs and each run's bytes into blocks. -/
theorem history_lineIndex {F : Bytes} {d : IndexingData Codec Digest}
    (h : History env forced c fast F d) (hw : (env.encodingParameters c).lineFeedWidth = 1) :
    d.getIndexedSize = F.length ∧ d.linePosition = lineIndexOf F := by
  refine ⟨h.size, ?_⟩
  induction h with
  | @full d F blocks hblocks hc hlen =>
    rw [FullIndexOperation.run_of_noClear env d rfl rfl hlen]
    have hb : blocks.flatten = F.drop ([] : Bytes).length := by simpa using hblocks
    have := afterBlocks_lineIndexOf env hw (List.nil_prefix (l := F)) hb
      (FullIndexOperation.start d forced fast) rfl
      (hc ▸ startIndexing_settlesOn_full env d fast F.length blocks)
    simpa using this
  | @next F F' d blocks fast' h hpre hblocks hlen ih =>
    have hinv := h.codecInv
    rw [PartialIndexOperation.run_of_noClear env d hinv.2.2.2 hinv.2.2.1 rfl rfl hlen, h.size]
    simpa using afterBlocks_lineIndexOf env hw hpre hblocks (emit (.indexingProgressed 0) (Run.start d))
      ih (startIndexing_settlesOn_partialIndex env hinv _ _ _ blocks)

theorem history_lineIndex_twoRuns :
    let env := Env.fixed EncodingParameters.singleByte
    let d0 := (FullIndexOperation.run env none (.steady [97, 98, 10, 99] [[97, 98], [10, 99]])
      .none false (IndexingData.empty false)).2.data
    let d := (PartialIndexOperation.run env (.steady [97, 98, 10, 99, 100] [[100]]) .none false
      d0).2.data
    d.getIndexedSize = 5 ∧ d.linePosition = lineIndexOf [97, 98, 10, 99, 100] :=
  history_lineIndex _ (History.next (History.full (by rfl) (by rfl) (by decide)) ⟨[100], by rfl⟩
    (by rfl) (by decide)) (by rfl)

end

end Klogg

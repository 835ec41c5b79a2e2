import Klogg.OperationSpec

/-!
# What a whole `doIndex` does

The scope after the IO thread has joined, one lemma per call, and the shape of
a run that clears nothing: an opened file, no interrupt seen before the clear,
and no line reaching `LineLength`'s maximum. Such a run is its block phase
followed by the fake final line feed, the header and tail hashes and the
locale fallback (`doIndex_of_noClear`).
-/

namespace Klogg

variable {Codec Digest : Type} (env : Env Codec Digest)

/-! ## The steps after the reader -/

section
variable (r : Run Codec Digest)

@[simp] theorem addFakeFinalLF_state (i : Bool) : (addFakeFinalLF env i r).state = r.state := by
  unfold addFakeFinalLF; split <;> rfl
@[simp] theorem addFakeFinalLF_parsedWith (i : Bool) :
    (addFakeFinalLF env i r).parsedWith = r.parsedWith := by
  unfold addFakeFinalLF; split <;> rfl
@[simp] theorem addFakeFinalLF_size (i : Bool) :
    (addFakeFinalLF env i r).data.hash.size = r.data.hash.size := by
  unfold addFakeFinalLF; split <;> simp
@[simp] theorem addFakeFinalLF_encodingForced (i : Bool) :
    (addFakeFinalLF env i r).data.encodingForced = r.data.encodingForced := by
  unfold addFakeFinalLF; split <;> simp

theorem addFakeFinalLF_of_lt (h : r.state.pos < r.state.fileSize) :
    addFakeFinalLF env false r = { r with
      data := r.data.addAll env.digest [] 0 ⟨[r.state.fileSize + 1], true⟩ r.state.encodingGuess } := by
  simp [addFakeFinalLF, h]

theorem addFakeFinalLF_of_le (i : Bool) (h : r.state.fileSize ≤ r.state.pos) :
    addFakeFinalLF env i r = r := by
  simp [addFakeFinalLF, Int.not_lt.mpr h]

theorem addFakeFinalLF_encodingGuess (i : Bool) (h : r.data.encodingGuess = r.state.encodingGuess) :
    (addFakeFinalLF env i r).data.encodingGuess = r.data.encodingGuess := by
  unfold addFakeFinalLF; split <;> simp [h]

theorem addFakeFinalLF_maxLength (i : Bool) :
    (addFakeFinalLF env i r).data.maxLength ≤ max r.data.maxLength 0 := by
  unfold addFakeFinalLF
  split
  · simp only [IndexingData.addAll_maxLength]; omega
  · omega

theorem addFakeFinalLF_maxLength_of_nonneg (i : Bool) (h : 0 ≤ r.data.maxLength) :
    (addFakeFinalLF env i r).data.maxLength = r.data.maxLength := by
  unfold addFakeFinalLF
  split
  · simp only [IndexingData.addAll_maxLength]; omega
  · rfl

variable (e : Int) (content : Bytes)

@[simp] theorem hashHeaderAndTail_state : (hashHeaderAndTail env e content r).state = r.state := rfl
@[simp] theorem hashHeaderAndTail_parsedWith :
    (hashHeaderAndTail env e content r).parsedWith = r.parsedWith := rfl
@[simp] theorem hashHeaderAndTail_linePosition :
    (hashHeaderAndTail env e content r).data.linePosition = r.data.linePosition := by
  unfold hashHeaderAndTail; split <;> rfl
@[simp] theorem hashHeaderAndTail_size :
    (hashHeaderAndTail env e content r).data.hash.size = r.data.hash.size := by
  unfold hashHeaderAndTail; split <;> rfl
@[simp] theorem hashHeaderAndTail_maxLength :
    (hashHeaderAndTail env e content r).data.maxLength = r.data.maxLength := by
  unfold hashHeaderAndTail; split <;> rfl
@[simp] theorem hashHeaderAndTail_encodingGuess :
    (hashHeaderAndTail env e content r).data.encodingGuess = r.data.encodingGuess := by
  unfold hashHeaderAndTail; split <;> rfl
@[simp] theorem hashHeaderAndTail_encodingForced :
    (hashHeaderAndTail env e content r).data.encodingForced = r.data.encodingForced := by
  unfold hashHeaderAndTail; split <;> rfl

@[simp] theorem setLocaleIfNoGuess_state : (setLocaleIfNoGuess env r).state = r.state := by
  unfold setLocaleIfNoGuess; split <;> rfl
@[simp] theorem setLocaleIfNoGuess_parsedWith :
    (setLocaleIfNoGuess env r).parsedWith = r.parsedWith := by
  unfold setLocaleIfNoGuess; split <;> rfl
@[simp] theorem setLocaleIfNoGuess_data :
    (setLocaleIfNoGuess env r).data =
      r.data.setEncodingGuess (some (r.data.encodingGuess.getD env.codecForLocale)) := by
  unfold setLocaleIfNoGuess
  cases h : r.data.encodingGuess with
  | none => simp [IndexingData.getEncodingGuess, h]
  | some g => simp only [IndexingData.getEncodingGuess, h, Option.isNone_some, Bool.false_eq_true,
      ite_false, Option.getD_some]; rw [← h]; rfl

end

/-! ## A run that clears nothing -/

section
variable [Inhabited Digest] (r : Run Codec Digest)

@[simp] theorem clearIfInterrupted_false (fast : Bool) : clearIfInterrupted false fast r = r := rfl

theorem clearIfTooLong_of_ne (fast : Bool) (h : r.data.maxLength ≠ env.lineLengthMax) :
    clearIfTooLong env fast r = r := by
  simp [clearIfTooLong, IndexingData.getMaxLength, h]

end

@[simp] theorem emit_data (ev : Event) (r : Run Codec Digest) : (emit ev r).data = r.data := rfl
@[simp] theorem emit_state (ev : Event) (r : Run Codec Digest) : (emit ev r).state = r.state := rfl
@[simp] theorem emit_parsedWith (ev : Event) (r : Run Codec Digest) :
    (emit ev r).parsedWith = r.parsedWith := rfl

/-- What a run sees of a file that holds `F` while it runs. -/
def FileView.steady (F : Bytes) (blocks : List Bytes) : FileView := ⟨true, F.length, blocks, F⟩

@[simp] theorem startIndexing_data (q : Int) (n : Nat) (r : Run Codec Digest) :
    (startIndexing q n r).data = r.data := rfl
@[simp] theorem startIndexing_parsedWith (q : Int) (n : Nat) (r : Run Codec Digest) :
    (startIndexing q n r).parsedWith = r.parsedWith := rfl
@[simp] theorem Run.start_data (d : IndexingData Codec Digest) : (Run.start d).data = d := rfl
@[simp] theorem Run.start_parsedWith (d : IndexingData Codec Digest) :
    (Run.start d).parsedWith = [] := rfl

def Run.afterBlocks (q : Int) (view : FileView) (r : Run Codec Digest) : Run Codec Digest :=
  runSteps (indexBlocks env q view.blocks) (startIndexing q view.size r)

theorem afterBlocks_maxLength_lt {q : Int} {view : FileView} (r : Run Codec Digest) (hq : 0 ≤ q) (hml : r.data.maxLength < env.lineLengthMax)
    (hlen : (r.afterBlocks env q view).state.maxLength < env.lineLengthMax) :
    (addFakeFinalLF env false (r.afterBlocks env q view)).data.maxLength < env.lineLengthMax := by
  have h1 := (indexBlocks_maxLength env view.blocks (startIndexing q view.size r) hq).2
  have h2 := addFakeFinalLF_maxLength env (r.afterBlocks env q view) false
  have h3 := env.lineLengthMax_pos
  have h4 : (startIndexing q view.size r).data.maxLength = r.data.maxLength := rfl
  unfold Run.afterBlocks at hlen h2 ⊢
  omega

theorem afterBlocks_encodingGuess {q : Int} (view : FileView) (r : Run Codec Digest) (hq : 0 ≤ q) :
    (r.afterBlocks env q view).data.encodingGuess = (r.afterBlocks env q view).state.encodingGuess ∧
      (r.afterBlocks env q view).data.encodingGuess = match view.blocks with
        | [] => r.data.encodingGuess
        | b :: _ => some (r.data.encodingGuess.getD (env.detectEncoding b)) := by
  unfold Run.afterBlocks
  cases view.blocks with
  | nil => exact ⟨rfl, rfl⟩
  | cons b bs =>
    obtain ⟨h1, h2⟩ := indexBlocks_encodingGuess env (startIndexing q view.size r) hq b bs
    exact ⟨h1.trans h2.symm, h1⟩

section
variable [Inhabited Digest] {q : Int} {view : FileView} {irq : InterruptReads} {fast : Bool}
  (r : Run Codec Digest)

theorem doIndex_opened (hopen : view.opened = true) :
    runSteps (doIndex env q view irq fast) r =
      runSteps (finishIndexing env (q + view.blocks.flatten.length) view.rehashed irq fast)
        (r.afterBlocks env q view) := by
  simp [doIndex, hopen, Run.afterBlocks]

@[simp] theorem finishIndexing_state (e : Int) (content : Bytes) :
    (runSteps (finishIndexing env e content irq fast) r).state = r.state := by
  simp only [finishIndexing, runSteps_cons, runSteps_nil, setLocaleIfNoGuess_state]
  unfold clearIfTooLong clearIfInterrupted
  split <;> (try split) <;> simp

theorem doIndex_of_noClear (hq : 0 ≤ q) (hopen : view.opened = true)
    (hirq : irq.beforeClear = false) (hml : r.data.maxLength < env.lineLengthMax)
    (hlen : (runSteps (doIndex env q view irq fast) r).state.maxLength < env.lineLengthMax) :
    runSteps (doIndex env q view irq fast) r =
      setLocaleIfNoGuess env (hashHeaderAndTail env (q + view.blocks.flatten.length)
        view.rehashed (addFakeFinalLF env false (r.afterBlocks env q view))) := by
  have hfake : irq.beforeFakeLF = false := by
    cases h : irq.beforeFakeLF
    · rfl
    · simpa [hirq] using irq.fakeLF_clear h
  rw [doIndex_opened env r hopen] at hlen ⊢
  rw [finishIndexing_state] at hlen
  simp only [finishIndexing, runSteps_cons, runSteps_nil, hfake, hirq, clearIfInterrupted_false]
  rw [clearIfTooLong_of_ne env _ fast (by
    rw [hashHeaderAndTail_maxLength]; exact Int.ne_of_lt (afterBlocks_maxLength_lt env r hq hml hlen))]

end

/-! ## Operations that clear nothing -/

section
variable [Inhabited Digest] {view : FileView} {irq : InterruptReads} {fast : Bool}
  (d : IndexingData Codec Digest)

def FullIndexOperation.start (forcedEncoding : Option Codec) (fast : Bool) : Run Codec Digest :=
  clearAndForceEncoding forcedEncoding fast (emit (.indexingProgressed 0) (Run.start d))

@[simp] theorem FullIndexOperation.start_data (forced : Option Codec) :
    (FullIndexOperation.start d forced fast).data = (d.clear fast).forceEncoding forced := rfl
@[simp] theorem FullIndexOperation.start_parsedWith (forced : Option Codec) :
    (FullIndexOperation.start d forced fast).parsedWith = [] := rfl

theorem FullIndexOperation.run_of_noClear {forced : Option Codec} (hopen : view.opened = true)
    (hirq : irq.beforeClear = false)
    (hlen : (FullIndexOperation.run env forced view irq fast d).2.state.maxLength <
      env.lineLengthMax) :
    (FullIndexOperation.run env forced view irq fast d).2 =
      emit (.indexingFinished !irq.inRun) (setLocaleIfNoGuess env
        (hashHeaderAndTail env view.blocks.flatten.length view.rehashed
          (addFakeFinalLF env false
            ((FullIndexOperation.start d forced fast).afterBlocks env 0 view)))) := by
  simp only [FullIndexOperation.run, FullIndexOperation.steps, runSteps_append, runSteps_cons,
    runSteps_nil, emit_state] at hlen ⊢
  rw [doIndex_of_noClear env _ (Int.le_refl 0) hopen hirq (env.lineLengthMax_pos) hlen,
    Int.zero_add]
  rfl

theorem PartialIndexOperation.run_of_noClear (hsize : 0 ≤ d.hash.size)
    (hml : d.maxLength < env.lineLengthMax) (hopen : view.opened = true)
    (hirq : irq.beforeClear = false)
    (hlen : (PartialIndexOperation.run env view irq fast d).2.state.maxLength < env.lineLengthMax) :
    (PartialIndexOperation.run env view irq fast d).2 =
      emit (.indexingFinished !irq.inRun) (setLocaleIfNoGuess env
        (hashHeaderAndTail env (d.hash.size + view.blocks.flatten.length) view.rehashed
          (addFakeFinalLF env false
            ((emit (.indexingProgressed 0) (Run.start d)).afterBlocks env d.hash.size view)))) := by
  simp only [PartialIndexOperation.run, PartialIndexOperation.steps, runSteps_append,
    runSteps_cons, runSteps_nil, emit_state, IndexingData.getIndexedSize] at hlen ⊢
  rw [doIndex_of_noClear env _ hsize hopen hirq hml hlen]

end

end Klogg

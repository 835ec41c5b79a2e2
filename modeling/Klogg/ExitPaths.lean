import Klogg.Operation

/-!
# Terminal events on every exit path

Every step of `doIndex` emits progress events only (`doIndex_progressOnly`). An
index operation that returns therefore emits `indexingFinished` once, last, and
with the value it returns, whether the file opened or not and whatever the reads
of the interrupt flag saw (`FullIndexOperation.run_events`,
`PartialIndexOperation.run_events`).

The `catch` blocks of the three `run()` functions clear the store or return
`Truncated`, and emit nothing. An exception that reaches one, raised in any step
outside the flow graph, ends an index operation with no terminal event at all,
and a `CheckFileChangesOperation` whose check raises returns without
`fileCheckFinished` (`IndexOperation.exceptionWithoutFinish`).
-/

namespace Klogg

def Event.indexingResult : Event → Option Bool
  | .indexingFinished result => some result
  | _ => none

@[simp] theorem filterMap_indexingResult_progress (ps : List Int) :
    (ps.map Event.indexingProgressed).filterMap Event.indexingResult = [] := by
  simp [List.filterMap_map, Function.comp_def, Event.indexingResult]

section
variable {Codec Digest : Type}

def EmitsProgressOnly (step : Run Codec Digest → Run Codec Digest) : Prop :=
  ∀ r, ∃ ps : List Int, (step r).events = r.events ++ ps.map Event.indexingProgressed

theorem EmitsProgressOnly.of_events {step : Run Codec Digest → Run Codec Digest}
    (h : ∀ r, (step r).events = r.events) : EmitsProgressOnly step :=
  fun r => ⟨[], by rw [h, List.map_nil, List.append_nil]⟩

theorem emit_progressOnly (p : Int) :
    EmitsProgressOnly (@emit Codec Digest (.indexingProgressed p)) :=
  fun _ => ⟨[p], rfl⟩

theorem runSteps_progressOnly : ∀ {steps : List (Run Codec Digest → Run Codec Digest)},
    (∀ s ∈ steps, EmitsProgressOnly s) → EmitsProgressOnly (runSteps steps)
  | [], _, r => ⟨[], by simp⟩
  | s :: steps, h, r => by
    obtain ⟨ps, hps⟩ := h s (List.mem_cons_self _ _) r
    obtain ⟨qs, hqs⟩ := runSteps_progressOnly (fun t ht => h t (List.mem_cons_of_mem _ ht)) (s r)
    exact ⟨ps ++ qs, by rw [runSteps_cons, hqs, hps, List.map_append, List.append_assoc]⟩

theorem indexNextBlock_progressOnly (env : Env Codec Digest) (blockData : BlockData) :
    EmitsProgressOnly (indexNextBlock env blockData) := by
  intro r
  dsimp only [indexNextBlock]
  split_ifs <;> first | exact ⟨[_], rfl⟩ | exact ⟨[], by simp⟩

end

/-! ## The steps of `doIndex` -/

section
variable {Codec Digest : Type} [Inhabited Digest] (env : Env Codec Digest)

theorem doIndex_progressOnly (q : Int) (view : FileView) (irq : InterruptReads) (fast : Bool) :
    ∀ s ∈ doIndex env q view irq fast, EmitsProgressOnly s := by
  intro s hs
  unfold doIndex at hs
  split at hs
  · simp only [List.cons_append, List.mem_cons, List.mem_append, indexBlocks, List.mem_map,
      finishIndexing, List.mem_singleton] at hs
    rcases hs with rfl | ⟨bd, -, rfl⟩ | rfl | rfl | rfl | rfl | hs
    · exact EmitsProgressOnly.of_events fun _ => rfl
    · exact indexNextBlock_progressOnly env bd
    · exact EmitsProgressOnly.of_events fun _ => by unfold addFakeFinalLF; split <;> rfl
    · exact EmitsProgressOnly.of_events fun _ => rfl
    · exact EmitsProgressOnly.of_events fun _ => by unfold clearIfInterrupted; split <;> rfl
    · exact EmitsProgressOnly.of_events fun _ => by unfold clearIfTooLong; split <;> rfl
    · rcases hs with rfl | hs
      · exact EmitsProgressOnly.of_events fun _ => by unfold setLocaleIfNoGuess; split <;> rfl
      · simp at hs
  · rw [List.mem_singleton] at hs
    exact hs ▸ fun _ => ⟨[100], rfl⟩

theorem FullIndexOperation.before_progressOnly (forced : Option Codec) (view : FileView)
    (irq : InterruptReads) (fast : Bool) :
    ∀ s ∈ [emit (.indexingProgressed 0), clearAndForceEncoding forced fast] ++
      doIndex env 0 view irq fast, EmitsProgressOnly s := by
  intro s hs
  rcases List.mem_append.mp hs with hs | hs
  · simp only [List.mem_cons, List.mem_singleton, List.not_mem_nil, or_false] at hs
    rcases hs with rfl | rfl
    · exact emit_progressOnly 0
    · exact EmitsProgressOnly.of_events fun _ => rfl
  · exact doIndex_progressOnly env 0 view irq fast s hs

theorem PartialIndexOperation.before_progressOnly (d : IndexingData Codec Digest) (view : FileView)
    (irq : InterruptReads) (fast : Bool) :
    ∀ s ∈ [emit (.indexingProgressed 0)] ++ doIndex env d.getIndexedSize view irq fast,
      EmitsProgressOnly s := by
  intro s hs
  rcases List.mem_append.mp hs with hs | hs
  · rw [List.mem_singleton.mp hs]; exact emit_progressOnly 0
  · exact doIndex_progressOnly env _ view irq fast s hs

/-! ## Returning from `run()` -/

theorem CheckFileChangesOperation.run_raises {Digest : Type} [DecidableEq Digest]
    (digest : Bytes → Digest) (indexedHash : IndexedHash Digest) (file : CheckedFile)
    (fast : Bool) : CheckFileChangesOperation.run digest indexedHash file fast true =
      (.Truncated, []) := rfl

theorem IndexOperation.throwAfter_noFinish {steps : List (Run Codec Digest → Run Codec Digest)}
    (hsteps : ∀ s ∈ steps.dropLast, EmitsProgressOnly s) {k : Nat} (hk : k < steps.length)
    (fast : Bool) (d : IndexingData Codec Digest) :
    (IndexOperation.throwAfter k steps fast d).1 = false ∧
      (IndexOperation.throwAfter k steps fast d).2.events.filterMap Event.indexingResult = [] := by
  have htake : steps.take k = steps.dropLast.take k := by
    rw [List.dropLast_eq_take, List.take_take, min_eq_left (by omega)]
  have hprog : EmitsProgressOnly (runSteps (steps.take k)) := runSteps_progressOnly fun s hs => by
    rw [htake] at hs
    exact hsteps s (List.mem_of_mem_take hs)
  obtain ⟨ps, hps⟩ := hprog (Run.start d)
  refine ⟨rfl, ?_⟩
  simp only [IndexOperation.throwAfter, hps, List.filterMap_append, filterMap_indexingResult_progress]
  rfl

theorem FullIndexOperation.throwAfter_noFinish (forced : Option Codec) (view : FileView)
    (irq : InterruptReads) (fast : Bool) (d : IndexingData Codec Digest) {k : Nat}
    (hk : k < (FullIndexOperation.steps env forced view irq fast).length) :
    (IndexOperation.throwAfter k (FullIndexOperation.steps env forced view irq fast) fast d).1 =
        false ∧
      (IndexOperation.throwAfter k (FullIndexOperation.steps env forced view irq fast) fast
        d).2.events.filterMap Event.indexingResult = [] := by
  refine IndexOperation.throwAfter_noFinish (fun s hs => ?_) hk fast d
  rw [FullIndexOperation.steps, List.dropLast_append_cons, List.dropLast_single,
    List.append_nil] at hs
  exact FullIndexOperation.before_progressOnly env forced view irq fast s hs

theorem PartialIndexOperation.throwAfter_noFinish (view : FileView) (irq : InterruptReads)
    (fast : Bool) (d : IndexingData Codec Digest) {k : Nat}
    (hk : k < (PartialIndexOperation.steps env d view irq fast).length) :
    (IndexOperation.throwAfter k (PartialIndexOperation.steps env d view irq fast) fast d).1 =
        false ∧
      (IndexOperation.throwAfter k (PartialIndexOperation.steps env d view irq fast) fast
        d).2.events.filterMap Event.indexingResult = [] := by
  refine IndexOperation.throwAfter_noFinish (fun s hs => ?_) hk fast d
  rw [PartialIndexOperation.steps, List.dropLast_append_cons, List.dropLast_single,
    List.append_nil] at hs
  exact PartialIndexOperation.before_progressOnly env d view irq fast s hs

theorem IndexOperation.raiseAt_of_not_inGraph {inGraph : Nat → Bool} {k : Nat}
    (h : inGraph k = false) (steps : List (Run Codec Digest → Run Codec Digest)) (fast : Bool)
    (d : IndexingData Codec Digest) :
    IndexOperation.raiseAt inGraph k steps fast d = some (IndexOperation.throwAfter k steps fast d) :=
  by simp [IndexOperation.raiseAt, h]

theorem IndexOperation.raiseAt_eq_some {inGraph : Nat → Bool} {k : Nat}
    {steps : List (Run Codec Digest → Run Codec Digest)} {fast : Bool}
    {d : IndexingData Codec Digest} {r : Bool × Run Codec Digest}
    (h : IndexOperation.raiseAt inGraph k steps fast d = some r) :
    inGraph k = false ∧ r = IndexOperation.throwAfter k steps fast d := by
  unfold IndexOperation.raiseAt at h
  split at h <;> simp_all

/-- An exception raised outside the flow graph, before the final emit, reaches the `catch` of
`run()`: the index returns `false` with no `indexingFinished`, the check `Truncated` with no
event. -/
theorem IndexOperation.exceptionWithoutFinish [DecidableEq Digest] (forced : Option Codec)
    (view : FileView) (irq : InterruptReads) (fast : Bool) (d : IndexingData Codec Digest)
    (file : CheckedFile) {k k' : Nat}
    (hk : k < (FullIndexOperation.steps env forced view irq fast).length)
    (hg : FullIndexOperation.inGraph view k = false)
    (hk' : k' < (PartialIndexOperation.steps env d view irq fast).length)
    (hg' : PartialIndexOperation.inGraph view k' = false) :
    (∃ r, FullIndexOperation.raiseAt env forced view irq fast k d = some r ∧ r.1 = false ∧
        r.2.events.filterMap Event.indexingResult = []) ∧
      (∃ r, PartialIndexOperation.raiseAt env view irq fast k' d = some r ∧ r.1 = false ∧
        r.2.events.filterMap Event.indexingResult = []) ∧
      CheckFileChangesOperation.run env.digest d.hash file fast true = (.Truncated, []) :=
  ⟨⟨_, IndexOperation.raiseAt_of_not_inGraph hg _ fast d,
      FullIndexOperation.throwAfter_noFinish env forced view irq fast d hk⟩,
    ⟨_, IndexOperation.raiseAt_of_not_inGraph hg' _ fast d,
      PartialIndexOperation.throwAfter_noFinish env view irq fast d hk'⟩,
    CheckFileChangesOperation.run_raises env.digest d.hash file fast⟩

/-- A one-byte file with no final line feed: the `addAll` of its fake final line feed, step 4 of
the full index and step 3 of the partial one, both after `ioThread.join()`, raises. -/
theorem IndexOperation.exceptionWithoutFinish_fakeFinalLF :
    let env : Env Unit Bytes := Env.fixed EncodingParameters.singleByte
    let view : FileView := ⟨true, 1, [[97]], [97]⟩
    let d : IndexingData Unit Bytes := IndexingData.empty false
    let before : Run Unit Bytes :=
      runSteps ((FullIndexOperation.steps env none view .none false).take 4) (Run.start d)
    let before' : Run Unit Bytes :=
      runSteps ((PartialIndexOperation.steps env d view .none false).take 3) (Run.start d)
    (before.state.pos < before.state.fileSize ∧ before'.state.pos < before'.state.fileSize) ∧
      4 < (FullIndexOperation.steps env none view .none false).length ∧
      FullIndexOperation.inGraph view 4 = false ∧
      3 < (PartialIndexOperation.steps env d view .none false).length ∧
      PartialIndexOperation.inGraph view 3 = false ∧
      (∃ r, FullIndexOperation.raiseAt env none view .none false 4 d = some r ∧ r.1 = false ∧
        r.2.events.filterMap Event.indexingResult = []) ∧
      (∃ r, PartialIndexOperation.raiseAt env view .none false 3 d = some r ∧ r.1 = false ∧
        r.2.events.filterMap Event.indexingResult = []) ∧
      CheckFileChangesOperation.run env.digest d.hash ⟨1, true, [97]⟩ false true = (.Truncated, []) :=
  ⟨by decide, by decide, rfl, by decide, rfl,
    IndexOperation.exceptionWithoutFinish (Env.fixed EncodingParameters.singleByte) none
      ⟨true, 1, [[97]], [97]⟩ .none false (IndexingData.empty false) ⟨1, true, [97]⟩
      (by decide) rfl (by decide) rfl⟩

end

end Klogg

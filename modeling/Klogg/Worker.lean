import Klogg.Reachable
import Klogg.ExitPaths

/-!
# The worker and its interrupt flag

`LogDataWorker::interrupt()` sets `interruptRequest_` from any thread. Only `waitForDone()` clears
it, and each request calls that under the worker's mutex once the previous operation has ended;
so while an operation runs the flag only goes from clear to set. Whatever the interleaving of
`interrupt()` calls with an operation's reads of the flag, a read that sees it set is followed by
reads that see it set (`flagRead_mono`).

An indexing operation reads the flag before each block `readFileInBlocks` reads, and three times
after the IO thread has joined. A reader stopped by the flag before the end of the file is
therefore followed by the clear and by a `false` result: a file read in part never stays in the
store, and a run that reports success has read every chunk, up to the end of the file or a failed
`file.read` (`IndexOperation.interruptedRead_cleared`).

An exception raised while a block is parsed in the flow graph ends the process in
`std::terminate`; after it no call runs. Over any sequence of requests, any interleaving of
interrupts and any change of the file, the worker leaves only stores that the operations reach
(`LogDataWorker.run_reachable`), so every invariant of those holds of the worker's store. And
whatever state the worker is in, it signals `Successful` for an index of a file that opens only
once the request's reader has read every chunk (`LogDataWorker.step_successful`).
-/

namespace Klogg

/-! ## The flag -/

/-- Another thread's `interrupt()`, or a read of the flag whose value the operation uses: the read
in `FullIndexOperation::run`'s log line is not listed. -/
inductive FlagEvent
  | interrupt
  | read
deriving DecidableEq, Repr

/-- The value the `k`-th read of the flag sees, from the value `flag` before `events`. -/
def flagRead : Bool → List FlagEvent → Nat → Bool
  | flag, [], _ => flag
  | _, .interrupt :: events, k => flagRead true events k
  | flag, .read :: _, 0 => flag
  | flag, .read :: events, k + 1 => flagRead flag events k

theorem flagRead_true : ∀ (events : List FlagEvent) (k : Nat), flagRead true events k = true
  | [], _ => rfl
  | .interrupt :: events, k => flagRead_true events k
  | .read :: _, 0 => rfl
  | .read :: events, k + 1 => flagRead_true events k

theorem flagRead_mono : ∀ (flag : Bool) (events : List FlagEvent) (k : Nat),
    flagRead flag events k = true → flagRead flag events (k + 1) = true
  | _, [], _, h => h
  | _, .interrupt :: events, k, _ => flagRead_true events (k + 1)
  | flag, .read :: events, 0, h => by
    rw [flagRead] at h; subst h; exact flagRead_true events 0
  | flag, .read :: events, k + 1, h => flagRead_mono flag events k h

theorem flagRead_mono_le (flag : Bool) (events : List FlagEvent) {k k' : Nat} (hk : k ≤ k')
    (h : flagRead flag events k = true) : flagRead flag events k' = true := by
  induction hk with
  | refl => exact h
  | step _ ih => exact flagRead_mono flag events _ ih

def InterruptReads.ofEvents (flag : Bool) (events : List FlagEvent) (n : Nat) : InterruptReads :=
  ⟨flagRead flag events n, flagRead flag events (n + 1), flagRead flag events (n + 2),
    flagRead_mono flag events n, flagRead_mono flag events (n + 1)⟩

/-! ## The reader -/

/-- The `while` loop of `readFileInBlocks`: `chunks` are what `file.read` returns until
`file.atEnd()` or a failed read, and a read of the set flag ends it. It returns the blocks put and
the next read. -/
def readFileInBlocksLoop (read : Nat → Bool) : Nat → List Bytes → List Bytes × Nat
  | k, [] => ([], k)
  | k, chunk :: chunks =>
    if read k then ([], k + 1)
    else
      let rest := readFileInBlocksLoop read (k + 1) chunks
      (chunk :: rest.1, rest.2)

theorem readFileInBlocksLoop_stopped (read : Nat → Bool) :
    ∀ (k : Nat) (chunks : List Bytes),
      (readFileInBlocksLoop read k chunks).1 = chunks ∨
        (k < (readFileInBlocksLoop read k chunks).2 ∧
          read ((readFileInBlocksLoop read k chunks).2 - 1) = true)
  | _, [] => .inl rfl
  | k, chunk :: chunks => by
    simp only [readFileInBlocksLoop]
    split
    · exact .inr ⟨Nat.lt_succ_self k, by simpa⟩
    · rcases readFileInBlocksLoop_stopped read (k + 1) chunks with h | ⟨h1, h2⟩
      · exact .inl (by rw [h])
      · exact .inr ⟨by omega, h2⟩

/-- What an index meets of the file: whether it opens, `file.size()`, the chunks, the content read
back. -/
structure FileReads where
  opened : Bool
  size : Nat
  chunks : List Bytes
  rehashed : Bytes

def FileReads.view (file : FileReads) (flag : Bool) (events : List FlagEvent) : FileView :=
  ⟨file.opened, file.size, (readFileInBlocksLoop (flagRead flag events) 0 file.chunks).1,
    file.rehashed⟩

/-- The reads of the flag after the IO thread has joined; for a file that does not open all three
are the read of `run()`. -/
def FileReads.interruptReads (file : FileReads) (flag : Bool) (events : List FlagEvent) :
    InterruptReads :=
  if file.opened then
    InterruptReads.ofEvents flag events
      (readFileInBlocksLoop (flagRead flag events) 0 file.chunks).2
  else ⟨flagRead flag events 0, flagRead flag events 0, flagRead flag events 0, id, id⟩

/-! ## An interrupted read -/

section
variable {Codec Digest : Type} [Inhabited Digest] (env : Env Codec Digest)

theorem doIndex_interrupted_data {q : Int} {view : FileView} {irq : InterruptReads} {fast : Bool}
    (r : Run Codec Digest) (hopen : view.opened = true) (h : irq.beforeClear = true) :
    (runSteps (doIndex env q view irq fast) r).data =
      (r.data.clear fast).setEncodingGuess (some env.codecForLocale) := by
  have hpos := env.lineLengthMax_pos
  rw [doIndex_opened env r hopen]
  simp only [finishIndexing, runSteps_cons, runSteps_nil, h, clearIfInterrupted, ite_true,
    setLocaleIfNoGuess_data]
  rw [clearIfTooLong_of_ne env _ fast (by simp only [IndexingData.clear_maxLength]; omega)]
  rfl

theorem FileReads.stopped_interruptReads (file : FileReads) (flag : Bool)
    (events : List FlagEvent) (hopen : file.opened = true)
    (h : (file.view flag events).blocks ≠ file.chunks) :
    (file.interruptReads flag events).beforeClear = true ∧
      (file.interruptReads flag events).inRun = true := by
  simp only [FileReads.interruptReads, hopen, ite_true, InterruptReads.ofEvents]
  rcases readFileInBlocksLoop_stopped (flagRead flag events) 0 file.chunks with h1 | ⟨h1, h2⟩
  · exact absurd h1 h
  · exact ⟨flagRead_mono_le flag events (by omega) h2,
      flagRead_mono_le flag events (by omega) h2⟩

/-- If the reader stops before its last chunk, the operation returns `false` and leaves the cleared
store; one that returns `true` has read every chunk, to the end of the file or a failed read. -/
theorem IndexOperation.interruptedRead_cleared (file : FileReads) (flag : Bool)
    (events : List FlagEvent) (hopen : file.opened = true) (forced : Option Codec) (fast : Bool)
    (d : IndexingData Codec Digest) :
    let full : Bool × Run Codec Digest := FullIndexOperation.run env forced
      (file.view flag events) (file.interruptReads flag events) fast d
    let part : Bool × Run Codec Digest := PartialIndexOperation.run env (file.view flag events)
      (file.interruptReads flag events) fast d
    ((file.view flag events).blocks ≠ file.chunks →
        full.1 = false ∧
          full.2.data = (d.clear fast).setEncodingGuess (some env.codecForLocale) ∧
          part.1 = false ∧
          part.2.data = (d.clear fast).setEncodingGuess (some env.codecForLocale)) ∧
      (full.1 = true ∨ part.1 = true → (file.view flag events).blocks = file.chunks) := by
  intro full part
  have hstop := file.stopped_interruptReads flag events hopen
  have hdata : (file.view flag events).blocks ≠ file.chunks →
      full.2.data = (d.clear fast).setEncodingGuess (some env.codecForLocale) ∧
      part.2.data = (d.clear fast).setEncodingGuess (some env.codecForLocale) := fun h => by
    simp only [full, part, FullIndexOperation.run, FullIndexOperation.steps,
      PartialIndexOperation.run, PartialIndexOperation.steps, runSteps_append, runSteps_cons,
      runSteps_nil, emit_data]
    rw [doIndex_interrupted_data env _ hopen (hstop h).1,
      doIndex_interrupted_data env _ hopen (hstop h).1]
    exact ⟨rfl, rfl⟩
  have hres : full.1 = !(file.interruptReads flag events).inRun ∧
      part.1 = !(file.interruptReads flag events).inRun := ⟨rfl, rfl⟩
  refine ⟨fun h => ?_, fun h => ?_⟩
  · rw [hres.1, hres.2, (hstop h).2]
    exact ⟨rfl, (hdata h).1, rfl, (hdata h).2⟩
  · by_contra hne
    rw [hres.1, hres.2, (hstop hne).2] at h
    simp at h

theorem IndexOperation.interruptedRead_cleared_secondChunk :
    let file : FileReads := ⟨true, 4, [[97, 10], [98, 10]], [97, 10, 98, 10]⟩
    let events : List FlagEvent := [.read, .interrupt]
    (FullIndexOperation.run (Env.fixed EncodingParameters.singleByte) none (file.view false events)
      (file.interruptReads false events) false (IndexingData.empty false)).1 = false :=
  ((IndexOperation.interruptedRead_cleared (Env.fixed EncodingParameters.singleByte)
    ⟨true, 4, [[97, 10], [98, 10]], [97, 10, 98, 10]⟩ false [.read, .interrupt] rfl none false
    (IndexingData.empty false)).1 (by decide)).1

end

/-! ## The worker -/

/-- Modelled from the spec: the status `LogDataWorker` signals at the end of an index. -/
inductive LoadingStatus
  | Successful
  | Interrupted
deriving DecidableEq, Repr

inductive WorkerSignal
  | indexingProgressed (progress : Int)
  | indexingFinished (status : LoadingStatus)
  | checkFileChangesFinished (status : MonitoredFileStatus)
deriving DecidableEq

/-- The slots `connectSignalsAndRun` connects an operation's signals to. -/
def LogDataWorker.onEvent : Event → WorkerSignal
  | .indexingProgressed progress => .indexingProgressed progress
  | .indexingFinished result => .indexingFinished (if result then .Successful else .Interrupted)
  | .fileCheckFinished status => .checkFileChangesFinished status

/-- A call to `LogDataWorker`; a request carries the file as it reads it, the interleaving of
interrupts with its reads of the flag, and the step that raises, if one does. An `interrupt` here is
one that no read of the flag by an index operation follows. -/
inductive WorkerCall (Codec : Type)
  | interrupt
  | indexAll (forcedEncoding : Option Codec) (file : FileReads) (events : List FlagEvent)
      (raisesAfter : Option Nat) (fast : Bool)
  | indexAdditionalLines (file : FileReads) (events : List FlagEvent) (raisesAfter : Option Nat)
      (fast : Bool)
  | checkFileChanges (file : CheckedFile) (raises fast : Bool)

def WorkerCall.indexReads {Codec : Type} : WorkerCall Codec → Option (FileReads × List FlagEvent)
  | .indexAll _ file events _ _ | .indexAdditionalLines file events _ _ => some (file, events)
  | _ => none

/-- `LogDataWorker` between operations: the shared store, `interruptRequest_`, the signals emitted,
and whether `std::terminate` has ended the process. -/
structure LogDataWorker (Codec Digest : Type) where
  indexingData : IndexingData Codec Digest
  interruptRequest : Bool
  signals : List WorkerSignal
  terminated : Bool

def flagAfter (flag : Bool) (events : List FlagEvent) : Bool :=
  flag || decide (FlagEvent.interrupt ∈ events)

def IndexOperation.runOrThrow {Codec Digest : Type} (op : Bool × Run Codec Digest)
    (raise : Nat → Option (Bool × Run Codec Digest)) :
    Option Nat → Option (Bool × Run Codec Digest)
  | none => some op
  | some k => raise k

section
variable {Codec Digest : Type}

theorem finished_of_take {before : List (Run Codec Digest → Run Codec Digest)}
    (hb : ∀ s ∈ before, EmitsProgressOnly s) (x : Bool) (k : Nat) (d : IndexingData Codec Digest)
    {b : Bool} (h : Event.indexingFinished b ∈
      (runSteps ((before ++ [emit (.indexingFinished x)]).take k) (Run.start d)).events) :
    b = x := by
  have hps : ∃ ps : List Int, (runSteps (before.take k) (Run.start d)).events =
      (Run.start d).events ++ ps.map Event.indexingProgressed :=
    runSteps_progressOnly (fun s hs => hb s (List.mem_of_mem_take hs)) (Run.start d)
  obtain ⟨ps, hps⟩ := hps
  rw [List.take_append_eq_append_take, runSteps_append] at h
  cases hj : k - before.length with
  | zero =>
    rw [hj, List.take_zero, runSteps_nil, hps] at h
    simp [Run.start] at h
  | succ j =>
    simp only [hj, List.take_succ_cons, List.take_nil, runSteps_cons, runSteps_nil, emit] at h
    rw [hps] at h
    simpa [Run.start] using h

theorem IndexOperation.runOrThrow_events [Inhabited Digest]
    (steps : List (Run Codec Digest → Run Codec Digest)) (result : Bool) (inGraph : Nat → Bool)
    (fast : Bool) (d : IndexingData Codec Digest) {r : Bool × Run Codec Digest} :
    ∀ {raisesAfter : Option Nat}, IndexOperation.runOrThrow (result, runSteps steps (Run.start d))
        (fun k => IndexOperation.raiseAt inGraph k steps fast d) raisesAfter = some r →
      ∃ k, r.2.events = (runSteps (steps.take k) (Run.start d)).events
  | none, h => ⟨steps.length, by rw [← Option.some.inj h, List.take_length]⟩
  | some k, h => ⟨k, by rw [(IndexOperation.raiseAt_eq_some h).2]; rfl⟩

end

namespace LogDataWorker

variable {Codec Digest : Type} [Inhabited Digest] [DecidableEq Digest] (env : Env Codec Digest)

def waitForDone (w : LogDataWorker Codec Digest) : LogDataWorker Codec Digest :=
  { w with interruptRequest := false }

/-- The worker once an index operation has run, or once the process has terminated. -/
def afterIndex (w : LogDataWorker Codec Digest) (events : List FlagEvent) :
    Option (Bool × Run Codec Digest) → LogDataWorker Codec Digest
  | some op => ⟨op.2.data, flagAfter w.interruptRequest events, w.signals ++ op.2.events.map onEvent,
      false⟩
  | none => { w with terminated := true }

/-- One call, unless the process has terminated; a request waits for the previous one and clears the
flag. -/
def step (w : LogDataWorker Codec Digest) (c : WorkerCall Codec) : LogDataWorker Codec Digest :=
  if w.terminated then w
  else
    match c with
    | .interrupt => { w with interruptRequest := true }
    | .indexAll forced file events raisesAfter fast =>
      let w := w.waitForDone
      let view := file.view w.interruptRequest events
      let irq := file.interruptReads w.interruptRequest events
      w.afterIndex events (IndexOperation.runOrThrow
        (FullIndexOperation.run env forced view irq fast w.indexingData)
        (fun k => FullIndexOperation.raiseAt env forced view irq fast k w.indexingData) raisesAfter)
    | .indexAdditionalLines file events raisesAfter fast =>
      let w := w.waitForDone
      let view := file.view w.interruptRequest events
      let irq := file.interruptReads w.interruptRequest events
      w.afterIndex events (IndexOperation.runOrThrow
        (PartialIndexOperation.run env view irq fast w.indexingData)
        (fun k => PartialIndexOperation.raiseAt env view irq fast k w.indexingData) raisesAfter)
    | .checkFileChanges file raises fast =>
      let w := w.waitForDone
      let op := CheckFileChangesOperation.run env.digest w.indexingData.hash file fast raises
      { w with signals := w.signals ++ op.2.map onEvent }

def run (calls : List (WorkerCall Codec)) (w : LogDataWorker Codec Digest) :
    LogDataWorker Codec Digest :=
  runSteps (calls.map fun c w => step env w c) w

def start (fast : Bool) : LogDataWorker Codec Digest := ⟨IndexingData.empty fast, false, [], false⟩

/-! ### Reachable stores -/

omit [DecidableEq Digest] in
theorem afterIndex_reachable {w : LogDataWorker Codec Digest} (h : Reachable env w.indexingData)
    (events : List FlagEvent) {op : Bool × Run Codec Digest} (hop : Reachable env op.2.data)
    {raise : Nat → Option (Bool × Run Codec Digest)}
    (hraise : ∀ k r, raise k = some r → Reachable env r.2.data) :
    ∀ raisesAfter, Reachable env
      (w.afterIndex events (IndexOperation.runOrThrow op raise raisesAfter)).indexingData
  | none => hop
  | some k => by
    show Reachable env (w.afterIndex events (raise k)).indexingData
    cases hk : raise k with
    | none => exact h
    | some r => exact hraise k r hk

theorem step_reachable {w : LogDataWorker Codec Digest} (h : Reachable env w.indexingData)
    (c : WorkerCall Codec) : Reachable env (step env w c).indexingData := by
  have hw : Reachable env w.waitForDone.indexingData := h
  unfold step
  split
  · exact h
  · cases c with
    | interrupt | checkFileChanges => exact h
    | indexAll forced file events raisesAfter fast =>
      refine afterIndex_reachable env hw events (.fullIndex _ _ _ _ hw) (fun k r hr => ?_) raisesAfter
      obtain ⟨hg, rfl⟩ := IndexOperation.raiseAt_eq_some hr
      exact .fullIndexThrows k _ _ _ _ hw hg
    | indexAdditionalLines file events raisesAfter fast =>
      refine afterIndex_reachable env hw events (.partialIndex _ _ _ hw) (fun k r hr => ?_)
        raisesAfter
      obtain ⟨hg, rfl⟩ := IndexOperation.raiseAt_eq_some hr
      exact .partialIndexThrows k _ _ _ hw hg

/-- Over any calls, interrupts, changes of the file and exceptions, the worker's store is one the
operations reach, with its line offsets increasing and within the indexed size. -/
theorem run_reachable (calls : List (WorkerCall Codec)) (fast : Bool) :
    Reachable env (run env calls (start fast)).indexingData ∧
      StoreInv (run env calls (start fast)).indexingData := by
  suffices h : ∀ (calls : List (WorkerCall Codec)) (w : LogDataWorker Codec Digest),
      Reachable env w.indexingData → Reachable env (run env calls w).indexingData from
    ⟨h calls _ (.empty fast), Reachable.storeInv env (h calls _ (.empty fast))⟩
  intro calls
  induction calls with
  | nil => exact fun _ h => h
  | cons c calls ih => exact fun w h => ih _ (step_reachable env h c)

/-! ### The status of an index -/

theorem onEvent_eq_successful {e : Event} (h : onEvent e = .indexingFinished .Successful) :
    e = .indexingFinished true := by
  cases e with
  | indexingFinished result => cases result <;> simp_all [onEvent]
  | _ => simp [onEvent] at h

omit [Inhabited Digest] [DecidableEq Digest] in
theorem mem_afterIndex_signals {w : LogDataWorker Codec Digest} {events : List FlagEvent}
    {s : WorkerSignal} :
    ∀ {op : Option (Bool × Run Codec Digest)},
      s ∈ (w.afterIndex events op).signals.drop w.signals.length →
        ∃ r, op = some r ∧ s ∈ r.2.events.map onEvent
  | some r, h => ⟨r, rfl, by simpa [afterIndex] using h⟩
  | none, h => by simp [afterIndex] at h

/-- Whatever the worker's state and whatever a request meets, the worker signals `Successful` for a
file that opens only once the reader has read every chunk, to the end or a failed `file.read`. -/
theorem step_successful (w : LogDataWorker Codec Digest) (c : WorkerCall Codec)
    (file : FileReads) (events : List FlagEvent) (hc : c.indexReads = some (file, events))
    (hopen : file.opened = true)
    (hs : WorkerSignal.indexingFinished .Successful ∈
      (step env w c).signals.drop w.signals.length) :
    (file.view false events).blocks = file.chunks := by
  have hread : ∀ (before : List (Run Codec Digest → Run Codec Digest)), (∀ s ∈ before,
      EmitsProgressOnly s) → ∀ inGraph raisesAfter fast d r,
      IndexOperation.runOrThrow
        (!(file.interruptReads false events).inRun, runSteps
          (before ++ [emit (.indexingFinished !(file.interruptReads false events).inRun)])
          (Run.start d))
        (fun k => IndexOperation.raiseAt inGraph k
          (before ++ [emit (.indexingFinished !(file.interruptReads false events).inRun)]) fast d)
        raisesAfter = some r →
      WorkerSignal.indexingFinished .Successful ∈ r.2.events.map onEvent →
      (file.view false events).blocks = file.chunks := by
    intro before hb inGraph raisesAfter fast d r hr hmem
    obtain ⟨e, he, hev⟩ := List.mem_map.mp hmem
    obtain ⟨k, hk⟩ := IndexOperation.runOrThrow_events _ _ inGraph fast d hr
    rw [hk, onEvent_eq_successful hev] at he
    have hrun := finished_of_take hb _ k d he
    by_contra hne
    rw [(file.stopped_interruptReads false events hopen hne).2] at hrun
    exact Bool.false_ne_true hrun.symm
  unfold step at hs
  split at hs
  · simp at hs
  cases c with
  | interrupt => simp [WorkerCall.indexReads] at hc
  | checkFileChanges => simp [WorkerCall.indexReads] at hc
  | indexAll forced file' events' raisesAfter fast =>
    simp only [WorkerCall.indexReads, Option.some.injEq, Prod.mk.injEq] at hc
    obtain ⟨rfl, rfl⟩ := hc
    obtain ⟨r, hr, hmem⟩ := @mem_afterIndex_signals _ _ w.waitForDone _ _ _ hs
    exact hread _ (FullIndexOperation.before_progressOnly env forced _ _ fast) _ raisesAfter fast _
      r hr hmem
  | indexAdditionalLines file' events' raisesAfter fast =>
    simp only [WorkerCall.indexReads, Option.some.injEq, Prod.mk.injEq] at hc
    obtain ⟨rfl, rfl⟩ := hc
    obtain ⟨r, hr, hmem⟩ := @mem_afterIndex_signals _ _ w.waitForDone _ _ _ hs
    exact hread _ (PartialIndexOperation.before_progressOnly env w.indexingData _ _ fast) _
      raisesAfter fast _ r hr hmem

theorem step_successful_oneLine :
    let file : FileReads := ⟨true, 2, [[97, 10]], [97, 10]⟩
    let events : List FlagEvent := [.read, .read, .read, .read]
    let w : LogDataWorker Unit Bytes := start false
    let c : WorkerCall Unit := .indexAll none file events none false
    c.indexReads = some (file, events) ∧ file.opened = true ∧
      WorkerSignal.indexingFinished .Successful ∈
        (step (Env.fixed EncodingParameters.singleByte) w c).signals.drop w.signals.length ∧
      (file.view false events).blocks = file.chunks :=
  ⟨rfl, rfl, by decide, step_successful (Env.fixed EncodingParameters.singleByte) (start false)
    (.indexAll none ⟨true, 2, [[97, 10]], [97, 10]⟩ [.read, .read, .read, .read] none false) _ _
    rfl rfl (by decide)⟩

end LogDataWorker

end Klogg

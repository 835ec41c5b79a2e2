import Klogg.DoIndex

/-!
# The indexing pipeline under every schedule

`doIndex` reads the file on an IO thread and parses it in a `tbb` flow graph. The reader's
`try_put` goes through a `limiter_node` of `prefetchBufferSize` slots into a `queue_node`; a
serial `function_node` parses the blocks one at a time, and each `continue_msg` it returns gives
a slot back through the limiter's decrementer. A refused `try_put` sends the reader to sleep for
a millisecond before it tries again, which changes nothing.

Whatever order the threads take their steps in, the blocks the parser has taken, the queue and
the blocks still to put are the reader's blocks in order, and at most `prefetchBufferSize` blocks
are in flight (`Pipeline.run_inv`). Each step that changes anything moves one block one stage on,
so after exactly three such steps per block the graph is idle (`Pipeline.step_measure`). With at
least one slot some step can always move (`Pipeline.progress`), and the parser has then done
exactly what the sequential block phase does (`Pipeline.done_state`): the order of the steps
never shows in the index (`doIndex_pipeline`).
-/

namespace Klogg

/-- Modelled from the spec: the flow graph of `doIndex` as its nodes' state; `parsed` is a ghost
field, the blocks the parser has taken. -/
structure Pipeline (σ : Type) where
  pending : List BlockData
  count : Nat
  queue : List BlockData
  decrements : Nat
  state : σ
  parsed : List BlockData

/-- The reader's `gw.try_put( blockData )`, the parser taking the queue's head, and a `continue_msg`
reaching the limiter's decrementer. -/
inductive PipelineStep
  | put
  | parse
  | decrement
deriving DecidableEq, Repr

namespace Pipeline

variable {σ : Type}

def start (blocks : List BlockData) (state : σ) : Pipeline σ := ⟨blocks, 0, [], 0, state, []⟩

/-- One step; one that cannot happen leaves the graph as it is. -/
def step (prefetchBufferSize : Nat) (parse : BlockData → σ → σ) :
    PipelineStep → Pipeline σ → Pipeline σ
  | .put, p =>
    match p.pending with
    | [] => p
    | blockData :: rest =>
      if p.count < prefetchBufferSize then
        { p with pending := rest, count := p.count + 1, queue := p.queue ++ [blockData] }
      else p
  | .parse, p =>
    match p.queue with
    | [] => p
    | blockData :: rest =>
      { p with
        queue := rest, decrements := p.decrements + 1, state := parse blockData p.state,
        parsed := p.parsed ++ [blockData] }
  | .decrement, p =>
    if 0 < p.decrements then { p with count := p.count - 1, decrements := p.decrements - 1 }
    else p

theorem step_cases (N : Nat) (parse : BlockData → σ → σ) (a : PipelineStep) (p : Pipeline σ) :
    step N parse a p = p ∨
      (∃ b rest, p.pending = b :: rest ∧ p.count < N ∧
        step N parse a p =
          { p with pending := rest, count := p.count + 1, queue := p.queue ++ [b] }) ∨
      (∃ b rest, p.queue = b :: rest ∧
        step N parse a p = { p with
          queue := rest, decrements := p.decrements + 1, state := parse b p.state,
          parsed := p.parsed ++ [b] }) ∨
      (0 < p.decrements ∧
        step N parse a p = { p with count := p.count - 1, decrements := p.decrements - 1 }) := by
  cases a with
  | put =>
    simp only [step]
    split
    · exact .inl rfl
    · rename_i b rest hp
      split
      · exact .inr (.inl ⟨b, rest, hp, ‹_›, rfl⟩)
      · exact .inl rfl
  | parse =>
    simp only [step]
    split
    · exact .inl rfl
    · rename_i b rest hq
      exact .inr (.inr (.inl ⟨b, rest, hq, rfl⟩))
  | decrement =>
    simp only [step]
    split
    · exact .inr (.inr (.inr ⟨‹_›, rfl⟩))
    · exact .inl rfl

def run (prefetchBufferSize : Nat) (parse : BlockData → σ → σ) (schedule : List PipelineStep)
    (p : Pipeline σ) : Pipeline σ :=
  runSteps (schedule.map (step prefetchBufferSize parse)) p

/-- `wait_for_all` returns: nothing to put, nothing queued, every slot given back. -/
def Done (p : Pipeline σ) : Prop := p.pending = [] ∧ p.queue = [] ∧ p.decrements = 0

instance (p : Pipeline σ) : Decidable p.Done := inferInstanceAs (Decidable (_ ∧ _ ∧ _))

def measure (p : Pipeline σ) : Nat := 3 * p.pending.length + 2 * p.queue.length + p.decrements

structure Inv (prefetchBufferSize : Nat) (parse : BlockData → σ → σ) (blocks : List BlockData)
    (init : σ) (p : Pipeline σ) : Prop where
  order : p.parsed ++ p.queue ++ p.pending = blocks
  state_eq : p.state = runSteps (p.parsed.map parse) init
  count_eq : p.count = p.queue.length + p.decrements
  count_le : p.count ≤ prefetchBufferSize

section
variable {N : Nat} {parse : BlockData → σ → σ} {blocks : List BlockData} {init : σ}

theorem inv_start : Inv N parse blocks init (start blocks init) :=
  ⟨by simp [start], rfl, rfl, Nat.zero_le _⟩

theorem Inv.step {p : Pipeline σ} (h : Inv N parse blocks init p) (a : PipelineStep) :
    Inv N parse blocks init (step N parse a p) := by
  obtain ⟨ho, hs, hc, hle⟩ := h
  rcases step_cases N parse a p with he | ⟨b, rest, hp, hlt, he⟩ | ⟨b, rest, hq, he⟩ | ⟨hd, he⟩ <;>
    rw [he]
  · exact ⟨ho, hs, hc, hle⟩
  · refine ⟨by rw [← ho, hp]; simp, hs, ?_, by simp only; omega⟩
    simp only [List.length_append, List.length_singleton]; omega
  · refine ⟨by rw [← ho, hq]; simp, ?_, ?_, hle⟩
    · simp only [hs, List.map_append, List.map_singleton, runSteps_append, runSteps_cons,
        runSteps_nil]
    · rw [hq, List.length_cons] at hc; simp only; omega
  · exact ⟨ho, hs, by simp only; omega, by simp only; omega⟩

theorem run_inv :
    ∀ (schedule : List PipelineStep) {p : Pipeline σ}, Inv N parse blocks init p →
    Inv N parse blocks init (run N parse schedule p)
  | [], _, h => h
  | a :: schedule, _, h => run_inv schedule (h.step a)

theorem step_measure {p : Pipeline σ} (h : Inv N parse blocks init p) (a : PipelineStep) :
    step N parse a p = p ∨ measure (step N parse a p) + 1 = measure p := by
  have hc := h.count_eq
  rcases step_cases N parse a p with he | ⟨b, rest, hp, -, he⟩ | ⟨b, rest, hq, he⟩ | ⟨hd, he⟩
  · exact .inl he
  all_goals right; rw [he]
  · simp only [measure, hp, List.length_cons, List.length_append, List.length_nil]; omega
  · simp only [measure, hq, List.length_cons]; omega
  · simp only [measure]; omega

theorem done_iff_measure {p : Pipeline σ} : Done p ↔ measure p = 0 := by
  simp only [Done, measure, ← List.length_eq_zero]
  omega

theorem progress (hN : 0 < N) {p : Pipeline σ} (h : Inv N parse blocks init p) (hd : ¬ Done p) :
    ∃ a, measure (step N parse a p) + 1 = measure p := by
  have hc := h.count_eq
  match hq : p.queue, hdec : p.decrements, hp : p.pending with
  | b :: rest, _, _ =>
    exact ⟨.parse, by simp only [Pipeline.step, hq, measure, List.length_cons]; omega⟩
  | [], d + 1, _ =>
    exact ⟨.decrement, by
      simp only [Pipeline.step, hdec, Nat.zero_lt_succ, ite_true, measure]; omega⟩
  | [], 0, b :: rest =>
    refine ⟨.put, ?_⟩
    rw [hq, List.length_nil, hdec] at hc
    simp only [Pipeline.step, hp, show p.count < N by omega, ite_true, measure, hq,
      List.length_cons, List.length_append, List.length_singleton, List.length_nil]
    omega
  | [], 0, [] => exact absurd ⟨hp, hq, hdec⟩ hd

def moves (N : Nat) (parse : BlockData → σ → σ) : List PipelineStep → Pipeline σ → Nat
  | [], _ => 0
  | a :: schedule, p =>
    (if measure (step N parse a p) < measure p then 1 else 0) +
      moves N parse schedule (step N parse a p)

theorem measure_run_add_moves : ∀ (schedule : List PipelineStep) {p : Pipeline σ},
    Inv N parse blocks init p →
      measure (run N parse schedule p) + moves N parse schedule p = measure p
  | [], _, _ => rfl
  | a :: schedule, p, h => by
    have ih := measure_run_add_moves schedule (h.step a)
    rw [run, List.map_cons, runSteps_cons] at *
    simp only [moves]
    rcases step_measure h a with he | he
    · rw [he] at ih ⊢; simp only [Nat.lt_irrefl, ite_false]; omega
    · rw [if_pos (by omega)]; omega

theorem done_state {p : Pipeline σ} (h : Inv N parse blocks init p) (hd : Done p) :
    p.state = runSteps (blocks.map parse) init := by
  rw [h.state_eq, ← h.order, hd.1, hd.2.1, List.append_nil, List.append_nil]

end

end Pipeline


/-! ## The flow graph of `doIndex` -/

section
variable {Codec Digest : Type} (env : Env Codec Digest)

theorem readFileInBlocks_length : ∀ (pos : Int) (blocks : List Bytes),
    (readFileInBlocks pos blocks).length = blocks.length
  | _, [] => rfl
  | pos, _ :: bs => by rw [readFileInBlocks, List.length_cons, readFileInBlocks_length _ bs]; rfl

@[simp] theorem indexNextBlock_sentinel (r : Run Codec Digest) :
    indexNextBlock env (-1, []) r = r := by
  simp [indexNextBlock]

def doIndexPipeline (initialPosition : Int) (view : FileView) (r : Run Codec Digest) :
    Pipeline (Run Codec Digest) :=
  Pipeline.start (readFileInBlocks initialPosition view.blocks ++ [(-1, [])])
    (startIndexing initialPosition view.size r)

theorem doIndexPipeline_measure (q : Int) (view : FileView) (r : Run Codec Digest) :
    (doIndexPipeline q view r).measure = 3 * (view.blocks.length + 1) := by
  simp [Pipeline.measure, doIndexPipeline, Pipeline.start, readFileInBlocks_length]

/-- Under every schedule: at most `prefetchBufferSize` blocks wait, the graph is idle exactly after
three moves per block, a graph with a slot can always move, and an idle graph leaves the sequential
run. -/
theorem doIndex_pipeline (prefetchBufferSize : Nat) (q : Int) (view : FileView)
    (r : Run Codec Digest) (schedule : List PipelineStep) :
    let p : Pipeline (Run Codec Digest) :=
      Pipeline.run prefetchBufferSize (indexNextBlock env) schedule (doIndexPipeline q view r)
    p.queue.length ≤ prefetchBufferSize ∧
      (p.Done ↔ Pipeline.moves prefetchBufferSize (indexNextBlock env) schedule
        (doIndexPipeline q view r) = 3 * (view.blocks.length + 1)) ∧
      (0 < prefetchBufferSize → ¬ p.Done → ∃ a,
        (Pipeline.step prefetchBufferSize (indexNextBlock env) a p).measure + 1 = p.measure) ∧
      (p.Done → p.state = r.afterBlocks env q view) := by
  dsimp only
  have h0 : Pipeline.Inv prefetchBufferSize (indexNextBlock env)
      (readFileInBlocks q view.blocks ++ [(-1, [])]) (startIndexing q view.size r)
      (doIndexPipeline q view r) := Pipeline.inv_start
  have h := Pipeline.run_inv schedule h0
  have hm := Pipeline.measure_run_add_moves schedule h0
  refine ⟨by have := h.count_eq; have := h.count_le; omega, ?_,
    fun hN hd => Pipeline.progress hN h hd, fun hd => ?_⟩
  · rw [doIndexPipeline_measure] at hm
    rw [Pipeline.done_iff_measure]
    omega
  · rw [Pipeline.done_state h hd, List.map_append, runSteps_append, Run.afterBlocks, indexBlocks]
    simp

theorem doIndex_pipeline_oneSlot :
    let env : Env Unit Bytes := Env.fixed EncodingParameters.singleByte
    let view : FileView := ⟨true, 2, [[97, 10]], [97, 10]⟩
    let r : Run Unit Bytes := Run.start (IndexingData.empty false)
    let p : Pipeline (Run Unit Bytes) := Pipeline.run 1 (indexNextBlock env)
      [.put, .parse, .decrement, .put, .parse, .decrement] (doIndexPipeline 0 view r)
    p.Done ∧ p.state = r.afterBlocks env 0 view :=
  ⟨by decide, (doIndex_pipeline (Env.fixed EncodingParameters.singleByte) 1 0
    ⟨true, 2, [[97, 10]], [97, 10]⟩ (Run.start (IndexingData.empty false))
    [.put, .parse, .decrement, .put, .parse, .decrement]).2.2.2 (by decide)⟩

end

end Klogg

import Klogg.ParseDataBlock
import Klogg.IndexingData

/-!
# Index operations

An operation is the list of its steps, each one scope of the store's mutating
accessor, run in order on a `Run`: the store, the parser's `IndexingState` and
the events emitted so far. An exception raised in a step outside the flow graph
reaches the `catch` of `run()`, which clears the store; one raised while a block
is parsed in the graph ends the process.

What a run reads from the file is a `FileView`: the size when it opened the
file, the blocks the IO thread read (each stamped with `file.pos()`), and the
content when the header and the tail are read back. The file may change
between these observations.
-/

namespace Klogg

/-- The indexer's collaborators: the codecs' line feeds, `EncodingDetector::detectEncoding`,
`QTextCodec::codecForLocale()`, the digest of a `FileDigest`, and the largest `LineLength`. -/
structure Env (Codec Digest : Type) where
  encodingParameters : Codec → EncodingParameters
  detectEncoding : Bytes → Codec
  codecForLocale : Codec
  digest : Bytes → Digest
  lineLengthMax : Int
  lineLengthMax_pos : 0 < lineLengthMax

/-- One codec with line feeds `p`, the digest keeping its bytes, and `LineLength` a 32-bit `int`. -/
def Env.fixed (p : EncodingParameters) : Env Unit Bytes :=
  ⟨fun _ => p, fun _ => (), (), id, 2147483647, by decide⟩

inductive MonitoredFileStatus
  | Unchanged
  | DataAdded
  | Truncated
deriving DecidableEq, Repr

inductive Event
  | indexingProgressed (progress : Int)
  | indexingFinished (result : Bool)
  | fileCheckFinished (status : MonitoredFileStatus)
deriving DecidableEq

/-- What one run observes of the file: whether it opened, `file.size()`, the blocks
`readFileInBlocks` read (the file may change meanwhile), and the content read back for the
hashes. -/
structure FileView where
  opened : Bool
  size : Nat
  blocks : List Bytes
  rehashed : Bytes

/-- The three reads of `interruptRequest_` after the IO thread has joined: before the fake final
line feed, before the clear, and in `run()`; once one sees the flag set, the later ones do. -/
structure InterruptReads where
  beforeFakeLF : Bool
  beforeClear : Bool
  inRun : Bool
  fakeLF_clear : beforeFakeLF = true → beforeClear = true
  clear_run : beforeClear = true → inRun = true

def InterruptReads.none : InterruptReads := ⟨false, false, false, by simp, by simp⟩

/-- The state an operation runs on; `parsedWith`, a ghost field, lists the parameters of each
parse. -/
structure Run (Codec Digest : Type) where
  data : IndexingData Codec Digest
  state : IndexingState Codec
  events : List Event
  parsedWith : List EncodingParameters

def runSteps {α : Type} (steps : List (α → α)) (r : α) : α := steps.foldl (fun r f => f r) r

@[simp] theorem runSteps_nil {α : Type} (r : α) : runSteps [] r = r := rfl

@[simp] theorem runSteps_cons {α : Type} (f : α → α) (steps : List (α → α)) (r : α) :
    runSteps (f :: steps) r = runSteps steps (f r) := rfl

@[simp] theorem runSteps_append {α : Type} (s t : List (α → α)) (r : α) :
    runSteps (s ++ t) r = runSteps t (runSteps s r) := List.foldl_append _ _ _ _

abbrev BlockData := Int × Bytes

/-- The blocks `readFileInBlocks` sends, each stamped with `file.pos()`. -/
def readFileInBlocks : Int → List Bytes → List BlockData
  | _, [] => []
  | pos, b :: bs => (pos, b) :: readFileInBlocks (pos + b.length) bs

/-- Modelled from the spec: `calculateProgress`, declared outside src/, is
`clamp(pos * 100 / file_size, 0, 100)`. -/
def calculateProgress (pos fileSize : Int) : Int :=
  max 0 (min 100 ((pos * 100).tdiv fileSize))

section
variable {Codec Digest : Type} [Inhabited Digest] (env : Env Codec Digest)

def guessEncoding (block : Bytes) (d : IndexingData Codec Digest) (state : IndexingState Codec) :
    IndexingState Codec :=
  let encodingGuess := state.encodingGuess.getD (env.detectEncoding block)
  let fileTextCodec :=
    (state.fileTextCodec <|> d.getForcedEncoding <|> d.getEncodingGuess).getD encodingGuess
  { state with
    encodingGuess := some encodingGuess, fileTextCodec := some fileTextCodec,
    encodingParams := env.encodingParameters fileTextCodec }

def indexNextBlock (blockData : BlockData) (r : Run Codec Digest) : Run Codec Digest :=
  let blockBeginning := blockData.1
  let block := blockData.2
  if blockBeginning < 0 then r
  else
    let state := guessEncoding env block r.data r.state
    if block.isEmpty then
      { r with state := state, data := r.data.setEncodingGuess state.encodingGuess }
    else
      let parsed := parseDataBlock blockBeginning block state
      let parsedWith := r.parsedWith ++ [state.encodingParams]
      let state := parsed.2
      let maxLength :=
        if env.lineLengthMax < state.maxLength then env.lineLengthMax else state.maxLength
      let data := r.data.addAll env.digest block maxLength ⟨parsed.1, false⟩ state.encodingGuess
      let progress :=
        if 0 < state.fileSize then calculateProgress state.pos state.fileSize else 100
      if progress ≠ data.getProgress then
        ⟨data.setProgress progress, state, r.events ++ [.indexingProgressed progress], parsedWith⟩
      else ⟨data, state, r.events, parsedWith⟩

/-- `doIndex` when the file cannot be opened: as if it were empty. -/
def cannotOpen (fast : Bool) (r : Run Codec Digest) : Run Codec Digest :=
  { r with
    data := ((r.data.clear fast).setEncodingGuess (some env.codecForLocale)).setProgress 100
    events := r.events ++ [.indexingProgressed 100] }

/-- The start of `doIndex`: a fresh `IndexingState` at `initialPosition`, with the store's
encodings. -/
def startIndexing (initialPosition : Int) (fileSize : Nat) (r : Run Codec Digest) :
    Run Codec Digest :=
  { r with state := { (IndexingState.init : IndexingState Codec) with
      pos := initialPosition, fileSize := fileSize,
      fileTextCodec := r.data.getForcedEncoding <|> r.data.getEncodingGuess,
      encodingGuess := r.data.getEncodingGuess } }

/-- A last line without a line feed gets the synthetic entry `file_size + 1`. -/
def addFakeFinalLF (interrupted : Bool) (r : Run Codec Digest) : Run Codec Digest :=
  if !interrupted && r.state.pos < r.state.fileSize then
    { r with
      data := r.data.addAll env.digest [] 0 ⟨[r.state.fileSize + 1], true⟩ r.state.encodingGuess }
  else r

def hashHeaderAndTail (endFilePos : Int) (content : Bytes) (r : Run Codec Digest) :
    Run Codec Digest :=
  let header := content.take IndexingBlockSize
  let data := r.data.setHeaderHash (env.digest header) header.length
  let data :=
    if endFilePos ≤ IndexingBlockSize then data.setTailHash (env.digest header) 0 header.length
    else
      let tailHashOffset := endFilePos - IndexingBlockSize
      let tail := (content.drop tailHashOffset.toNat).take IndexingBlockSize
      data.setTailHash (env.digest tail) tailHashOffset tail.length
  { r with data := data }

def clearIfInterrupted (interrupted fast : Bool) (r : Run Codec Digest) : Run Codec Digest :=
  if interrupted then { r with data := r.data.clear fast } else r

/-- "Can't index file: some lines are too long". -/
def clearIfTooLong (fast : Bool) (r : Run Codec Digest) : Run Codec Digest :=
  if r.data.getMaxLength = env.lineLengthMax then { r with data := r.data.clear fast } else r

def setLocaleIfNoGuess (r : Run Codec Digest) : Run Codec Digest :=
  if r.data.getEncodingGuess.isNone then
    { r with data := r.data.setEncodingGuess (some env.codecForLocale) }
  else r

def indexBlocks (initialPosition : Int) (blocks : List Bytes) :
    List (Run Codec Digest → Run Codec Digest) :=
  (readFileInBlocks initialPosition blocks).map (indexNextBlock env)

/-- The scope after the IO thread has joined, which left the file at `endFilePos`. -/
def finishIndexing (endFilePos : Int) (content : Bytes) (irq : InterruptReads) (fast : Bool) :
    List (Run Codec Digest → Run Codec Digest) :=
  [addFakeFinalLF env irq.beforeFakeLF, hashHeaderAndTail env endFilePos content,
    clearIfInterrupted irq.beforeClear fast, clearIfTooLong env fast, setLocaleIfNoGuess env]

def doIndex (initialPosition : Int) (view : FileView) (irq : InterruptReads) (fast : Bool) :
    List (Run Codec Digest → Run Codec Digest) :=
  if view.opened then
    startIndexing initialPosition view.size :: indexBlocks env initialPosition view.blocks
      ++ finishIndexing env (initialPosition + view.blocks.flatten.length) view.rehashed irq
        fast
  else [cannotOpen env fast]

def emit (e : Event) (r : Run Codec Digest) : Run Codec Digest := { r with events := r.events ++ [e] }

def clearAndForceEncoding (forcedEncoding : Option Codec) (fast : Bool) (r : Run Codec Digest) :
    Run Codec Digest :=
  { r with data := (r.data.clear fast).forceEncoding forcedEncoding }

def FullIndexOperation.steps (forcedEncoding : Option Codec) (view : FileView)
    (irq : InterruptReads) (fast : Bool) : List (Run Codec Digest → Run Codec Digest) :=
  [emit (.indexingProgressed 0), clearAndForceEncoding forcedEncoding fast]
  ++ doIndex env 0 view irq fast ++ [emit (.indexingFinished !irq.inRun)]

def PartialIndexOperation.steps (d : IndexingData Codec Digest) (view : FileView)
    (irq : InterruptReads) (fast : Bool) : List (Run Codec Digest → Run Codec Digest) :=
  [emit (.indexingProgressed 0)]
  ++ doIndex env d.getIndexedSize view irq fast ++ [emit (.indexingFinished !irq.inRun)]

def Run.start (d : IndexingData Codec Digest) : Run Codec Digest := ⟨d, IndexingState.init, [], []⟩

/-- `FullIndexOperation::run` when no exception is raised: the result, and the final run. -/
def FullIndexOperation.run (forcedEncoding : Option Codec) (view : FileView)
    (irq : InterruptReads) (fast : Bool) (d : IndexingData Codec Digest) : Bool × Run Codec Digest :=
  (!irq.inRun, runSteps (FullIndexOperation.steps env forcedEncoding view irq fast) (Run.start d))

def PartialIndexOperation.run (view : FileView) (irq : InterruptReads) (fast : Bool)
    (d : IndexingData Codec Digest) : Bool × Run Codec Digest :=
  (!irq.inRun, runSteps (PartialIndexOperation.steps env d view irq fast) (Run.start d))

/-- The `catch` of `run()` once step `k` has raised: the store is cleared, the result `false`. -/
def IndexOperation.throwAfter (k : Nat) (steps : List (Run Codec Digest → Run Codec Digest))
    (fast : Bool) (d : IndexingData Codec Digest) : Bool × Run Codec Digest :=
  let r := runSteps (steps.take k) (Run.start d)
  (false, { r with data := r.data.clear fast })

/-- Whether step `k` parses a block in the flow graph, the first block being step `first`. An
exception there is rethrown by `wait_for_all` while `ioThread` is joinable, and the thread's
destructor calls `std::terminate`. -/
def IndexOperation.inGraph (first : Nat) (view : FileView) (k : Nat) : Bool :=
  view.opened && decide (first ≤ k ∧ k < first + view.blocks.length)

/-- `run()` when step `k` raises: `none` when the process terminates. -/
def IndexOperation.raiseAt (inGraph : Nat → Bool) (k : Nat)
    (steps : List (Run Codec Digest → Run Codec Digest)) (fast : Bool)
    (d : IndexingData Codec Digest) : Option (Bool × Run Codec Digest) :=
  if inGraph k then none else some (IndexOperation.throwAfter k steps fast d)

def FullIndexOperation.inGraph (view : FileView) : Nat → Bool := IndexOperation.inGraph 3 view

def PartialIndexOperation.inGraph (view : FileView) : Nat → Bool := IndexOperation.inGraph 2 view

def FullIndexOperation.raiseAt (forcedEncoding : Option Codec) (view : FileView)
    (irq : InterruptReads) (fast : Bool) (k : Nat) (d : IndexingData Codec Digest) :
    Option (Bool × Run Codec Digest) :=
  IndexOperation.raiseAt (FullIndexOperation.inGraph view) k
    (FullIndexOperation.steps env forcedEncoding view irq fast) fast d

def PartialIndexOperation.raiseAt (view : FileView) (irq : InterruptReads) (fast : Bool) (k : Nat)
    (d : IndexingData Codec Digest) : Option (Bool × Run Codec Digest) :=
  IndexOperation.raiseAt (PartialIndexOperation.inGraph view) k
    (PartialIndexOperation.steps env d view irq fast) fast d

end

/-! ## Checking the file for changes -/

/-- The file as `doCheckFileChanges` sees it, unchanged during the check. -/
structure CheckedFile where
  size : Nat
  opened : Bool
  content : Bytes

/-- The `do … while` loop of `getDigest`, at most `fuel` passes; it returns the bytes fed. -/
def getDigestLoop (content : Bytes) (indexedSize : Int) : Nat → Nat → Int → Bytes → Bytes
  | 0, _, _, fed => fed
  | fuel + 1, pos, totalSize, fed =>
    let bytesToRead := min (IndexingBlockSize : Int) (indexedSize - totalSize)
    let read := (content.drop pos).take bytesToRead.toNat
    let readSize : Int := if bytesToRead < 0 then -1 else read.length
    let fed := if 0 < readSize then fed ++ read else fed
    let totalSize := if 0 < readSize then totalSize + readSize else totalSize
    if 0 < readSize ∧ totalSize < indexedSize then
      getDigestLoop content indexedSize fuel (pos + read.length) totalSize fed
    else fed

/-- `getDigest( indexedSize )` from `pos`; `indexedSize + 1` passes suffice. -/
def getDigest {Digest : Type} (digest : Bytes → Digest) (content : Bytes) (pos : Nat)
    (indexedSize : Int) : Digest :=
  digest (getDigestLoop content indexedSize (indexedSize.toNat + 1) pos 0 [])

def doCheckFileChanges {Digest : Type} [DecidableEq Digest] (digest : Bytes → Digest)
    (indexedHash : IndexedHash Digest) (file : CheckedFile) (fast : Bool) : MonitoredFileStatus :=
  let realFileSize : Int := file.size
  if realFileSize = 0 ∨ realFileSize < indexedHash.size then .Truncated
  else if !file.opened then .Truncated
  else
    let isFileModified :=
      if fast then
        getDigest digest file.content 0 indexedHash.headerSize ≠ indexedHash.headerDigest ∨
          getDigest digest file.content indexedHash.tailOffset.toNat indexedHash.tailSize ≠
            indexedHash.tailDigest
      else getDigest digest file.content 0 indexedHash.size ≠ indexedHash.fullDigest
    if isFileModified then .Truncated
    else if indexedHash.size < realFileSize then .DataAdded
    else .Unchanged

/-- `CheckFileChangesOperation::run`; `raises` says whether `doCheckFileChanges` raised. -/
def CheckFileChangesOperation.run {Digest : Type} [DecidableEq Digest] (digest : Bytes → Digest)
    (indexedHash : IndexedHash Digest) (file : CheckedFile) (fast raises : Bool) :
    MonitoredFileStatus × List Event :=
  if raises then (.Truncated, [])
  else
    let result := doCheckFileChanges digest indexedHash file fast
    (result, [.fileCheckFinished result])

end Klogg

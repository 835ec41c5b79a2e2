import Klogg.Delimeter

/-!
# Parsing a block

`parseDataBlock` walks a block from the parser's position, line feed by line
feed. For each line it expands the tabs met since the line's start
(`expandTabsInLine`), measures the line and, when a line feed closed it,
records the offset just after the line feed. A line still open at the end of
the block keeps its extra tab columns in `additionalSpaces` for the next block.

The three `while` loops of the source are written with an explicit bound on
their passes; `Klogg.ParseSpec` shows the bounds are never reached.
-/

namespace Klogg

/-- The fields of `IndexingState` (declared in logdataworker.h) that the parser and the driver
use. -/
structure IndexingState (Codec : Type) where
  encodingParams : EncodingParameters
  encodingGuess : Option Codec
  fileTextCodec : Option Codec
  pos : Int
  «end» : Int
  fileSize : Int
  additionalSpaces : Int
  maxLength : Int

def IndexingState.init {Codec : Type} : IndexingState Codec :=
  ⟨default, none, none, 0, 0, 0, 0, 0⟩

def charOffsetWithinBlock (i : Nat) (p : EncodingParameters) : Int :=
  i - p.getBeforeCrOffset

/-- The `while` loop of `expandTabsInLine` over the view `v`, `off` bytes into the block. -/
def expandTabsInLineLoop (findNextDelimeter : FindDelimeter) (p : EncodingParameters)
    (posWithinBlock : Int) : Nat → Nat → Bytes → Int → Int
  | 0, _, _, additionalSpaces => additionalSpaces
  | fuel + 1, off, v, additionalSpaces =>
    if v.isEmpty then additionalSpaces
    else
      match findNextDelimeter p v tab with
      | none => additionalSpaces
      | some nextTab =>
        let tabPosWithinBlock := charOffsetWithinBlock (off + nextTab) p
        let currentExpandedSize := tabPosWithinBlock - posWithinBlock + additionalSpaces
        let additionalSpaces := additionalSpaces + TabStop - currentExpandedSize.tmod TabStop - 1
        if v.length ≤ nextTab then additionalSpaces
        else
          expandTabsInLineLoop findNextDelimeter p posWithinBlock fuel (off + nextTab + 1)
            (v.drop (nextTab + 1)) additionalSpaces

def expandTabsInLine (findNextDelimeter : FindDelimeter) (p : EncodingParameters) (off : Nat)
    (v : Bytes) (posWithinBlock : Int) (initialAdditionalSpaces : Int) : Int :=
  expandTabsInLineLoop findNextDelimeter p posWithinBlock (v.length + 1) off v initialAdditionalSpaces

def findNextLineFeed {Codec : Type} (findNextDelimeter : FindDelimeter) (block : Bytes)
    (posWithinBlock : Nat) (state : IndexingState Codec) : Bool × Int × Int :=
  let blockView := block.drop posWithinBlock
  let nextLineFeed := findNextDelimeter state.encodingParams blockView lineFeed
  let isEndOfBlock := nextLineFeed.isNone
  let nextLineSize := nextLineFeed.getD blockView.length
  let additionalSpaces := expandTabsInLine findNextDelimeter state.encodingParams posWithinBlock
    (blockView.take nextLineSize) posWithinBlock state.additionalSpaces
  (isEndOfBlock, charOffsetWithinBlock (posWithinBlock + nextLineSize) state.encodingParams,
    additionalSpaces)

/-- The `while ( !isEndOfBlock )` loop of `parseDataBlock`, at most `fuel` passes. -/
def parseDataBlockLoop {Codec : Type} (findNextDelimeter : FindDelimeter) (blockBeginning : Int)
    (block : Bytes) : Nat → IndexingState Codec → List Int × IndexingState Codec
  | 0, state => ([], state)
  | fuel + 1, state =>
    if blockBeginning + block.length < state.pos then ([], state)
    else
      let posWithinBlock : Int :=
        if blockBeginning ≤ state.pos then state.pos - blockBeginning else 0
      let found :=
        if posWithinBlock = block.length then (true, posWithinBlock, state.additionalSpaces)
        else findNextLineFeed findNextDelimeter block posWithinBlock.toNat state
      let currentDataEnd := found.2.1 + blockBeginning
      let length := (currentDataEnd - state.pos).tdiv state.encodingParams.lineFeedWidth
        + found.2.2
      let state := { state with
        additionalSpaces := found.2.2, maxLength := max state.maxLength length }
      if found.1 then ([], state)
      else
        let state := { state with
          «end» := currentDataEnd, pos := currentDataEnd + state.encodingParams.lineFeedWidth,
          additionalSpaces := 0 }
        let rest := parseDataBlockLoop findNextDelimeter blockBeginning block fuel state
        (state.pos :: rest.1, rest.2)

def chooseFindDelimeter (p : EncodingParameters) : FindDelimeter :=
  if p.lineFeedWidth = 1 then findNextSingleByteDelimeter else findNextMultiByteDelimeter

def parseDataBlock {Codec : Type} (blockBeginning : Int) (block : Bytes)
    (state : IndexingState Codec) : List Int × IndexingState Codec :=
  parseDataBlockLoop (chooseFindDelimeter state.encodingParams) blockBeginning block
    (block.length + 1) state

end Klogg

import Klogg.Basic

/-!
# The index store

`IndexingData` holds what the indexer publishes: the line offsets, the
fingerprint of the bytes indexed, the widest line and the encodings. Readers
only use its getters; `addAll` publishes the results of one block.
-/

namespace Klogg

/-- Modelled from the spec: `LinePositionArray`, declared outside src/: the line offsets, and
whether the last is a synthetic terminator for a last line with no line feed. -/
structure LinePositionArray where
  positions : List Int
  fakeFinalLF : Bool
deriving DecidableEq

abbrev FastLinePositionArray := LinePositionArray

namespace LinePositionArray

def empty : LinePositionArray := ⟨[], false⟩

/-- Modelled from the spec: `append_list`, which replaces a synthetic last entry. -/
def appendList (a : LinePositionArray) (other : FastLinePositionArray) : LinePositionArray :=
  ⟨(if a.fakeFinalLF then a.positions.dropLast else a.positions) ++ other.positions,
    other.fakeFinalLF⟩

def realPositions (a : LinePositionArray) : List Int :=
  if a.fakeFinalLF then a.positions.dropLast else a.positions

@[simp] theorem realPositions_of_real (l : List Int) : realPositions ⟨l, false⟩ = l := rfl

@[simp] theorem appendList_positions (a : LinePositionArray) (o : FastLinePositionArray) :
    (a.appendList o).positions = a.realPositions ++ o.positions := rfl

@[simp] theorem appendList_fakeFinalLF (a : LinePositionArray) (o : FastLinePositionArray) :
    (a.appendList o).fakeFinalLF = o.fakeFinalLF := rfl

end LinePositionArray

structure IndexedHash (Digest : Type) where
  size : Int
  fullDigest : Digest
  headerDigest : Digest
  headerSize : Int
  tailDigest : Digest
  tailOffset : Int
  tailSize : Int

def IndexedHash.empty {Digest : Type} [Inhabited Digest] : IndexedHash Digest :=
  ⟨0, default, default, 0, default, 0, 0⟩

/-- `IndexingData`; the hash builder is the list of bytes added to it since its reset. -/
structure IndexingData (Codec Digest : Type) where
  hash : IndexedHash Digest
  hashBuilder : Bytes
  maxLength : Int
  linePosition : LinePositionArray
  encodingGuess : Option Codec
  encodingForced : Option Codec
  progress : Int
  useFastModificationDetection : Bool

namespace IndexingData

variable {Codec Digest : Type}

def getIndexedSize (d : IndexingData Codec Digest) : Int := d.hash.size
def getHash (d : IndexingData Codec Digest) : IndexedHash Digest := d.hash
def getMaxLength (d : IndexingData Codec Digest) : Int := d.maxLength
def getNbLines (d : IndexingData Codec Digest) : Nat := d.linePosition.positions.length
def getPosForLine (d : IndexingData Codec Digest) (line : Nat) : Option Int :=
  d.linePosition.positions[line]?
def getEncodingGuess (d : IndexingData Codec Digest) : Option Codec := d.encodingGuess
def getForcedEncoding (d : IndexingData Codec Digest) : Option Codec := d.encodingForced
def getProgress (d : IndexingData Codec Digest) : Int := d.progress

@[simps] def setEncodingGuess (d : IndexingData Codec Digest) (codec : Option Codec) :
    IndexingData Codec Digest := { d with encodingGuess := codec }

@[simps] def forceEncoding (d : IndexingData Codec Digest) (codec : Option Codec) :
    IndexingData Codec Digest := { d with encodingForced := codec }

@[simps] def setProgress (d : IndexingData Codec Digest) (progress : Int) : IndexingData Codec Digest :=
  { d with progress := progress }

def addAll (digest : Bytes → Digest) (d : IndexingData Codec Digest) (block : Bytes)
    (length : Int) (linePosition : FastLinePositionArray) (encoding : Option Codec) :
    IndexingData Codec Digest :=
  let d := { d with
    maxLength := max d.maxLength length, linePosition := d.linePosition.appendList linePosition }
  let d :=
    if block.isEmpty then d
    else
      let d := { d with hash := { d.hash with size := d.hash.size + block.length } }
      if d.useFastModificationDetection then d
      else
        let hashBuilder := d.hashBuilder ++ block
        { d with hashBuilder := hashBuilder, hash := { d.hash with fullDigest := digest hashBuilder } }
  { d with encodingGuess := encoding }

/-- Modelled from the spec: the store is created empty. -/
def empty [Inhabited Digest] (fastModificationDetection : Bool) : IndexingData Codec Digest :=
  ⟨IndexedHash.empty, [], 0, LinePositionArray.empty, none, none, 0, fastModificationDetection⟩

def clear [Inhabited Digest] (_ : IndexingData Codec Digest) (fastModificationDetection : Bool) :
    IndexingData Codec Digest :=
  ⟨IndexedHash.empty, [], 0, LinePositionArray.empty, none, none, 0, fastModificationDetection⟩

/-- Modelled from the spec: `setHeaderHash( digest, size )`. -/
@[simps] def setHeaderHash (d : IndexingData Codec Digest) (digest : Digest) (size : Int) :
    IndexingData Codec Digest :=
  { d with hash := { d.hash with headerDigest := digest, headerSize := size } }

/-- Modelled from the spec: `setTailHash( digest, offset, size )`. -/
@[simps] def setTailHash (d : IndexingData Codec Digest) (digest : Digest) (offset size : Int) :
    IndexingData Codec Digest :=
  { d with hash := { d.hash with tailDigest := digest, tailOffset := offset, tailSize := size } }

/-! ## What each call changes -/

@[simp] theorem addAll_linePosition (digest : Bytes → Digest) (d : IndexingData Codec Digest)
    (b : Bytes) (l : Int) (lp : FastLinePositionArray) (e : Option Codec) :
    (d.addAll digest b l lp e).linePosition = d.linePosition.appendList lp := by
  unfold addAll; dsimp only; split <;> (try split) <;> rfl

@[simp] theorem addAll_size (digest : Bytes → Digest) (d : IndexingData Codec Digest)
    (b : Bytes) (l : Int) (lp : FastLinePositionArray) (e : Option Codec) :
    (d.addAll digest b l lp e).hash.size = d.hash.size + b.length := by
  unfold addAll; dsimp only; split <;> (try split) <;> simp_all

@[simp] theorem addAll_maxLength (digest : Bytes → Digest) (d : IndexingData Codec Digest)
    (b : Bytes) (l : Int) (lp : FastLinePositionArray) (e : Option Codec) :
    (d.addAll digest b l lp e).maxLength = max d.maxLength l := by
  unfold addAll; dsimp only; split <;> (try split) <;> rfl

@[simp] theorem addAll_encodingGuess (digest : Bytes → Digest) (d : IndexingData Codec Digest)
    (b : Bytes) (l : Int) (lp : FastLinePositionArray) (e : Option Codec) :
    (d.addAll digest b l lp e).encodingGuess = e := rfl

@[simp] theorem addAll_encodingForced (digest : Bytes → Digest) (d : IndexingData Codec Digest)
    (b : Bytes) (l : Int) (lp : FastLinePositionArray) (e : Option Codec) :
    (d.addAll digest b l lp e).encodingForced = d.encodingForced := by
  unfold addAll; dsimp only; split <;> (try split) <;> rfl

@[simp] theorem addAll_useFastModificationDetection (digest : Bytes → Digest)
    (d : IndexingData Codec Digest) (b : Bytes) (l : Int) (lp : FastLinePositionArray)
    (e : Option Codec) :
    (d.addAll digest b l lp e).useFastModificationDetection = d.useFastModificationDetection := by
  unfold addAll; dsimp only; split <;> (try split) <;> rfl

theorem addAll_fullMode (digest : Bytes → Digest) (d : IndexingData Codec Digest) (b : Bytes)
    (l : Int) (lp : FastLinePositionArray) (e : Option Codec)
    (hf : d.useFastModificationDetection = false) :
    (d.addAll digest b l lp e).hashBuilder = d.hashBuilder ++ b ∧
      (d.addAll digest b l lp e).hash.fullDigest =
        if b = [] then d.hash.fullDigest else digest (d.hashBuilder ++ b) := by
  unfold addAll
  cases b <;> simp [hf]

@[simp] theorem clear_linePosition [Inhabited Digest] (d : IndexingData Codec Digest) (f : Bool) :
    (d.clear f).linePosition = LinePositionArray.empty := rfl
@[simp] theorem clear_size [Inhabited Digest] (d : IndexingData Codec Digest) (f : Bool) :
    (d.clear f).hash.size = 0 := rfl
@[simp] theorem clear_maxLength [Inhabited Digest] (d : IndexingData Codec Digest) (f : Bool) :
    (d.clear f).maxLength = 0 := rfl
@[simp] theorem clear_encodingGuess [Inhabited Digest] (d : IndexingData Codec Digest) (f : Bool) :
    (d.clear f).encodingGuess = none := rfl
@[simp] theorem clear_encodingForced [Inhabited Digest] (d : IndexingData Codec Digest) (f : Bool) :
    (d.clear f).encodingForced = none := rfl

end IndexingData

end Klogg

import Klogg.History

/-!
# Runs that the file or the interrupt flag changes under

A run takes the file size once, when it opens the file, and reads blocks until
the end of the file, wherever that is by then. With single-byte line feeds the
full index holds the offsets of the line feeds read, and the synthetic entry is
decided against the size taken at the open (`FullIndexOperation.linePosition_single`).

After the reader has joined, three reads of `interruptRequest_` decide a run:
the one before the synthetic entry, the one before the clear, and the one in
`run()`. A run returns what the last of them sees, and clears the store only
when the read before the clear sees the flag: an interrupt between the two
leaves the file indexed and reports `false` (`FullIndexOperation.interruptedAfterClearCheck`).
-/

namespace Klogg

variable {Codec Digest : Type} [Inhabited Digest] (env : Env Codec Digest)

/-! ## A file that changes while it is read -/

/-- A full index with single-byte line feeds that clears nothing holds the offset after each line
feed read, and a synthetic entry decided against the size taken at the open. -/
theorem FullIndexOperation.linePosition_single {forced : Option Codec} {view : FileView}
    {irq : InterruptReads} {fast : Bool} {d : IndexingData Codec Digest}
    (hw : (env.encodingParameters (fullIndexCodec env forced view.blocks)).lineFeedWidth = 1)
    (hopen : view.opened = true) (hirq : irq.beforeClear = false)
    (hlen : (FullIndexOperation.run env forced view irq fast d).2.state.maxLength <
      env.lineLengthMax) :
    (FullIndexOperation.run env forced view irq fast d).2.data.linePosition =
      if (lineFeedOffsets view.blocks.flatten 0 view.blocks.flatten.length).getLast?.getD 0 <
          view.size
        then ⟨lineFeedOffsets view.blocks.flatten 0 view.blocks.flatten.length ++
          [(view.size : Int) + 1], true⟩
      else ⟨lineFeedOffsets view.blocks.flatten 0 view.blocks.flatten.length, false⟩ := by
  rw [FullIndexOperation.run_of_noClear env d hopen hirq hlen]
  simp only [emit_data, setLocaleIfNoGuess_data, IndexingData.setEncodingGuess_linePosition,
    hashHeaderAndTail_linePosition]
  obtain ⟨hpos, hlp⟩ := indexBlocks_single env hw view.blocks 0
    (startIndexing 0 view.size (FullIndexOperation.start d forced fast))
    (startIndexing_settlesOn_full env d fast view.size view.blocks) (Int.le_refl 0)
    (F := view.blocks.flatten) fun j _ => by rw [Nat.zero_add]
  have hfs := indexBlocks_fileSize env (q := 0) view.blocks
    (startIndexing 0 view.size (FullIndexOperation.start d forced fast)) (Int.le_refl 0)
  simp only [Nat.zero_add, Int.natCast_zero] at hpos hlp
  have hlp' : (runSteps (indexBlocks env 0 view.blocks)
      (startIndexing 0 view.size (FullIndexOperation.start d forced fast))).data.linePosition =
      ⟨lineFeedOffsets view.blocks.flatten 0 view.blocks.flatten.length, false⟩ := by
    rw [hlp]
    split
    · rename_i h; rw [h]; rfl
    · rfl
  unfold Run.afterBlocks
  split
  · rename_i hlt
    rw [addFakeFinalLF_of_lt env _ (by rw [hpos, hfs]; simpa using hlt),
      IndexingData.addAll_linePosition, hlp', hfs]
    rfl
  · rename_i hlt
    rw [addFakeFinalLF_of_le env _ _ (by rw [hpos, hfs]; simpa using Int.not_lt.mp hlt), hlp']

theorem FullIndexOperation.linePosition_single_grown :
    let view : FileView :=
      ⟨true, 5, [[97, 98, 99, 100, 10, 101, 102]], [97, 98, 99, 100, 10, 101, 102]⟩
    (FullIndexOperation.run (Env.fixed EncodingParameters.singleByte) none view .none false
        (IndexingData.empty false)).2.data.linePosition =
      if (lineFeedOffsets view.blocks.flatten 0 view.blocks.flatten.length).getLast?.getD 0 <
          view.size
        then ⟨lineFeedOffsets view.blocks.flatten 0 view.blocks.flatten.length ++
          [(view.size : Int) + 1], true⟩
      else ⟨lineFeedOffsets view.blocks.flatten 0 view.blocks.flatten.length, false⟩ :=
  FullIndexOperation.linePosition_single _ rfl rfl rfl (by decide)

/-- The file holds `abcd\n` when the full index opens it and `abcd\nef` when the reader reaches its
end: the last line is indexed without the synthetic entry that would close it. -/
theorem FullIndexOperation.grownWhileRead :
    let r : Bool × Run Unit Bytes :=
      FullIndexOperation.run (Env.fixed EncodingParameters.singleByte) none
        ⟨true, 5, [[97, 98, 99, 100, 10, 101, 102]], [97, 98, 99, 100, 10, 101, 102]⟩ .none false
        (IndexingData.empty false)
    r.2.data.getIndexedSize = 7 ∧ r.2.data.linePosition = ⟨[5], false⟩ := by
  decide

/-! ## Interrupts -/

/-- The interrupt arrives after the read before the clear and before the read of `run()`: the full
index returns false and reports `indexingFinished( false )`, yet the store keeps the file
indexed. -/
theorem FullIndexOperation.interruptedAfterClearCheck :
    let r : Bool × Run Unit Bytes :=
      FullIndexOperation.run (Env.fixed EncodingParameters.singleByte) none
        ⟨true, 2, [[97, 10]], [97, 10]⟩ ⟨false, false, true, nofun, fun _ => rfl⟩ false
        (IndexingData.empty false)
    r.1 = false ∧ r.2.events.getLast? = some (.indexingFinished false) ∧
      r.2.data.getIndexedSize = 2 ∧ r.2.data.linePosition.positions = [2] := by
  decide

end Klogg

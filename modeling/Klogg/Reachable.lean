import Mathlib.Data.List.Chain
import Klogg.DoIndex

/-!
# The line offsets of every reachable store

From the empty store, any sequence of full and partial indexes, with any codec,
a file that changes in any way between and during runs, interrupts at any
read, open failures, exceptions that `run()` catches and "too long" clears, leaves
line offsets that increase strictly and, but for a synthetic last entry, stay
within the indexed size (`reachable_linePositions`).

Within a run the offsets stay at or before the parser's position, which stays
at or before the next block (`RunInv`); a parsed block appends offsets beyond
the position, and the fake final line feed appends one beyond the file size.
-/

namespace Klogg

variable {Codec Digest : Type}

/-! ## Appending offsets -/

theorem chain'_realPositions {a : LinePositionArray} (h : List.Chain' (· < ·) a.positions) :
    List.Chain' (· < ·) a.realPositions := by
  unfold LinePositionArray.realPositions; split
  · exact h.init
  · exact h

theorem chain'_appendList {a : LinePositionArray} {l : List Int} {p : Int} (f : Bool)
    (ha : List.Chain' (· < ·) a.positions) (hle : ∀ x ∈ a.realPositions, x ≤ p)
    (hl : List.Chain (· < ·) p l) : List.Chain' (· < ·) (a.appendList ⟨l, f⟩).positions := by
  rw [LinePositionArray.appendList_positions]
  refine (chain'_realPositions ha).append ?_ fun x hx y hy => ?_
  · cases hl with
    | nil => exact List.chain'_nil
    | cons _ h => exact h
  · have h1 := hle x (List.mem_of_getLast?_eq_some hx)
    cases hl with
    | nil => simp at hy
    | cons h2 _ => simp at hy; omega

theorem chain_le_getLast {p : Int} {l : List Int} (h : List.Chain (· < ·) p l) :
    p ≤ l.getLast?.getD p ∧ ∀ x ∈ l, x ≤ l.getLast?.getD p := by
  induction l generalizing p with
  | nil => simp
  | cons y l ih =>
    obtain ⟨h1, h2⟩ := List.chain_cons.mp h
    obtain ⟨ih1, ih2⟩ := ih h2
    rw [List.getLast?_cons, Option.getD_some]
    refine ⟨by omega, fun x hx => ?_⟩
    rcases List.mem_cons.mp hx with rfl | hx
    · exact ih1
    · exact ih2 x hx

/-! ## Invariants -/

def StoreInv (d : IndexingData Codec Digest) : Prop :=
  List.Chain' (· < ·) d.linePosition.positions ∧
    (∀ x ∈ d.linePosition.realPositions, x ≤ d.hash.size) ∧ 0 ≤ d.hash.size

def RunInv (q : Int) (r : Run Codec Digest) : Prop :=
  List.Chain' (· < ·) r.data.linePosition.positions ∧
    (∀ x ∈ r.data.linePosition.realPositions, x ≤ r.state.pos) ∧ r.state.pos ≤ q ∧
    r.data.hash.size = q ∧ 0 ≤ q

theorem storeInv_clear [Inhabited Digest] (d : IndexingData Codec Digest) (fast : Bool) :
    StoreInv (d.clear fast) :=
  ⟨List.chain'_nil, by simp [LinePositionArray.empty, LinePositionArray.realPositions],
    Int.le_refl 0⟩

section
variable (env : Env Codec Digest)

theorem indexNextBlock_runInv {q : Int} {b : Bytes} {r : Run Codec Digest} (h : RunInv q r) :
    RunInv (q + b.length) (indexNextBlock env (q, b) r) := by
  obtain ⟨hc, hle, hpos, hsize, hq⟩ := h
  have hsize' : (indexNextBlock env (q, b) r).data.hash.size = q + b.length := by
    rw [indexNextBlock_size env r hq, hsize]
  by_cases hb : b = []
  · subst hb
    rw [indexNextBlock_nil env r hq]
    exact ⟨hc, hle, by simp; omega, by simpa using hsize, by simp; omega⟩
  obtain ⟨⟨hch, hbound, hlast⟩, -⟩ := @parseDataBlock_lines _ q b
    (guessEncoding env b r.data r.state) (by simp; omega)
  simp only [guessEncoding_pos] at hch hlast
  obtain ⟨hmono, hlast_le⟩ := chain_le_getLast hch
  have hlp := @indexNextBlock_linePosition _ _ env _ b r hq
  have hst := @indexNextBlock_state _ _ env _ b r hq
  rw [if_neg hb] at hlp hst
  refine ⟨hlp ▸ chain'_appendList false hc hle hch, fun x hx => ?_, ?_, hsize', by omega⟩
  · rw [hlp, LinePositionArray.realPositions, LinePositionArray.appendList_fakeFinalLF,
      if_neg Bool.false_ne_true, LinePositionArray.appendList_positions, List.mem_append] at hx
    rw [hst, hlast]
    rcases hx with hx | hx
    · have := hle x hx; omega
    · exact hlast_le x hx
  · rw [hst, hlast]
    cases hl : (parseDataBlock q b (guessEncoding env b r.data r.state)).1.getLast? with
    | none => simp; omega
    | some y => simpa using hbound y (List.mem_of_getLast?_eq_some hl)

theorem StoreInv.of_eq {d d' : IndexingData Codec Digest} (h : StoreInv d)
    (hlp : d'.linePosition = d.linePosition) (hs : d'.hash.size = d.hash.size) : StoreInv d' := by
  rw [StoreInv, hlp, hs]; exact h

theorem RunInv.storeInv {q : Int} {r : Run Codec Digest} (h : RunInv q r) : StoreInv r.data :=
  ⟨h.1, fun x hx => by have := h.2.1 x hx; have := h.2.2.1; have := h.2.2.2.1; omega,
    by rw [h.2.2.2.1]; exact h.2.2.2.2⟩

theorem addFakeFinalLF_storeInv {q : Int} {r : Run Codec Digest} (i : Bool) (h : RunInv q r) :
    StoreInv (addFakeFinalLF env i r).data := by
  unfold addFakeFinalLF
  split
  · rename_i hlt
    simp only [Bool.and_eq_true, Bool.not_eq_true', decide_eq_true_eq] at hlt
    refine ⟨by simpa using chain'_appendList true h.1 h.2.1 (List.chain_singleton.mpr (by omega)),
      fun x hx => ?_, by simpa [h.2.2.2.1] using h.2.2.2.2⟩
    simp only [IndexingData.addAll_linePosition, LinePositionArray.realPositions,
      LinePositionArray.appendList_fakeFinalLF, ite_true, LinePositionArray.appendList_positions,
      List.dropLast_concat] at hx
    have := h.2.1 x hx; have := h.2.2.1
    simp only [IndexingData.addAll_size, List.length_nil, h.2.2.2.1]; omega
  · exact h.storeInv

variable [Inhabited Digest]

theorem clearIfInterrupted_storeInv {r : Run Codec Digest} (i fast : Bool) (h : StoreInv r.data) :
    StoreInv (clearIfInterrupted i fast r).data := by
  unfold clearIfInterrupted; split
  · exact storeInv_clear r.data fast
  · exact h

theorem clearIfTooLong_storeInv {r : Run Codec Digest} (fast : Bool) (h : StoreInv r.data) :
    StoreInv (clearIfTooLong env fast r).data := by
  unfold clearIfTooLong; split
  · exact storeInv_clear r.data fast
  · exact h

theorem doIndex_storeInv {q : Int} (view : FileView) (irq : InterruptReads) (fast : Bool)
    {r : Run Codec Digest} (h : StoreInv r.data) (hq : r.data.hash.size = q) :
    StoreInv (runSteps (doIndex env q view irq fast) r).data := by
  unfold doIndex
  split
  · have h0 : RunInv q (startIndexing q view.size r) :=
      ⟨h.1, fun x hx => hq ▸ h.2.1 x hx, Int.le_refl q, hq, hq ▸ h.2.2⟩
    have hy := indexBlocks_induction env (P := RunInv) (fun _ _ _ _ h => indexNextBlock_runInv env h)
      view.blocks q _ h0.2.2.2.2 h0
    simp only [runSteps_cons, runSteps_append, finishIndexing, runSteps_nil]
    have h1 := addFakeFinalLF_storeInv env irq.beforeFakeLF hy
    have h2 := (clearIfInterrupted_storeInv irq.beforeClear fast
      (h1.of_eq (hashHeaderAndTail_linePosition env _ (q + view.blocks.flatten.length)
        view.rehashed) (hashHeaderAndTail_size env _ _ _)))
    exact (clearIfTooLong_storeInv env fast h2).of_eq (by simp) (by simp)
  · simp only [runSteps_cons, runSteps_nil, cannotOpen]
    exact (storeInv_clear r.data fast).of_eq rfl rfl

end

/-! ## Reachable stores -/

section
variable [Inhabited Digest] (env : Env Codec Digest)

/-- Stores reached from the empty store by full and partial indexes, each run to its end or ended by
an exception its `catch` handles, with any file, interrupt reads, codec and detection mode. -/
inductive Reachable : IndexingData Codec Digest → Prop
  | empty (fast : Bool) : Reachable (IndexingData.empty fast)
  | fullIndex {d : IndexingData Codec Digest} (forced : Option Codec) (view : FileView)
      (irq : InterruptReads) (fast : Bool) (h : Reachable d) :
      Reachable (FullIndexOperation.run env forced view irq fast d).2.data
  | partialIndex {d : IndexingData Codec Digest} (view : FileView) (irq : InterruptReads)
      (fast : Bool) (h : Reachable d) :
      Reachable (PartialIndexOperation.run env view irq fast d).2.data
  | fullIndexThrows {d : IndexingData Codec Digest} (k : Nat) (forced : Option Codec)
      (view : FileView) (irq : InterruptReads) (fast : Bool) (h : Reachable d)
      (hk : FullIndexOperation.inGraph view k = false) :
      Reachable (IndexOperation.throwAfter k (FullIndexOperation.steps env forced view irq fast)
        fast d).2.data
  | partialIndexThrows {d : IndexingData Codec Digest} (k : Nat) (view : FileView)
      (irq : InterruptReads) (fast : Bool) (h : Reachable d)
      (hk : PartialIndexOperation.inGraph view k = false) :
      Reachable (IndexOperation.throwAfter k (PartialIndexOperation.steps env d view irq fast)
        fast d).2.data

theorem Reachable.storeInv {d : IndexingData Codec Digest} (h : Reachable env d) : StoreInv d := by
  induction h with
  | empty fast => exact storeInv_clear (IndexingData.empty fast) fast
  | @fullIndex d forced view irq fast _ _ =>
    simp only [FullIndexOperation.run, FullIndexOperation.steps, runSteps_append, runSteps_cons,
      runSteps_nil, emit_data]
    exact doIndex_storeInv env view irq fast ((storeInv_clear d fast).of_eq rfl rfl) rfl
  | partialIndex view irq fast _ ih =>
    simp only [PartialIndexOperation.run, PartialIndexOperation.steps, runSteps_append,
      runSteps_cons, runSteps_nil, emit_data]
    exact doIndex_storeInv env view irq fast ih rfl
  | fullIndexThrows | partialIndexThrows =>
    simp only [IndexOperation.throwAfter]; exact storeInv_clear _ _

end

end Klogg

import Klogg.DoIndex

/-!
# The line index with single-byte line feeds

With a single-byte codec a block parsed from a position at or before its
start yields the offset after each of its line feeds (`parseDataBlock_single`).
-/

namespace Klogg

def lineFeedOffsets (F : Bytes) (lo hi : Nat) : List Int :=
  ((List.range' lo (hi - lo)).filter (fun i => F[i]? == some lineFeed)).map
    (fun i : Nat => (i : Int) + 1)

theorem lineFeedOffsets_append (F : Bytes) {a b c : Nat} (h1 : a ≤ b) (h2 : b ≤ c) :
    lineFeedOffsets F a b ++ lineFeedOffsets F b c = lineFeedOffsets F a c := by
  obtain ⟨m, rfl⟩ := Nat.exists_eq_add_of_le h1
  obtain ⟨n, rfl⟩ := Nat.exists_eq_add_of_le h2
  simp only [lineFeedOffsets, ← List.map_append, ← List.filter_append, Nat.add_sub_cancel_left,
    List.range'_append_1, Nat.add_assoc, Nat.add_comm n m]
  rw [show a + (m + n) - (a + m) + m = m + n by omega]

theorem findNextSingleByteDelimeter_drop (p : EncodingParameters) (b : Bytes) (k : Nat) :
    findNextSingleByteDelimeter p (b.drop k) lineFeed =
      (firstFrom (fun s => b[s]? == some lineFeed) k (b.length - k)).map (· - k) := by
  have h := @firstFrom_shift (fun s => b[s]? == some lineFeed) k 0 (b.length - k)
  rw [Nat.add_zero] at h
  rw [findNextSingleByteDelimeter_eq, List.length_drop, ← h]
  simp [List.getElem?_drop]

theorem parseDataBlock_single {Codec : Type} {F b : Bytes} {q : Nat} {state : IndexingState Codec}
    (hw : state.encodingParams.lineFeedWidth = 1) (hb : ∀ j < b.length, b[j]? = F[q + j]?)
    (hpos : state.pos ≤ q) :
    (parseDataBlock q b state).1 = lineFeedOffsets F q (q + b.length) := by
  have hidx : state.encodingParams.lineFeedIndex = 0 := by
    rcases state.encodingParams.index_cases with h | h <;> omega
  unfold parseDataBlock
  rw [chooseFindDelimeter, if_pos hw,
    parseDataBlockLoop_eq_filter (Q := fun s => b[s]? == some lineFeed) (k := 0)
      (fun k _ => by rw [findNextSingleByteDelimeter_drop, hidx]; rfl)
      (fun s hs => by
        have : s < b.length := by
          by_contra h; simp [List.getElem?_eq_none (Nat.le_of_not_lt h)] at hs
        exact ⟨by omega, fun t h1 h2 => by omega⟩)
      rfl (by split <;> omega) (by omega) (Nat.zero_le _) (by omega),
    lineFeedOffsets, Nat.add_sub_cancel_left, ← Nat.add_zero q, filter_range'_add, List.map_map,
    Nat.add_zero, Nat.sub_zero, hw]
  refine congrArg₂ List.map (funext fun s => by simp only [Function.comp]; omega)
    (List.filter_congr fun s hs => ?_)
  rw [List.mem_range'_1] at hs
  simp [hb s (by omega)]

@[simp] theorem lineFeedOffsets_self (F : Bytes) (q : Nat) : lineFeedOffsets F q q = [] := by
  simp [lineFeedOffsets]

theorem lineFeedOffsets_le {F : Bytes} {lo hi : Nat} {x : Int} (h : x ∈ lineFeedOffsets F lo hi) :
    x ≤ hi := by
  simp only [lineFeedOffsets, List.mem_map, List.mem_filter, List.mem_range'_1] at h
  obtain ⟨i, ⟨⟨h1, h2⟩, -⟩, rfl⟩ := h
  omega

theorem lineFeedOffsets_congr {F G : Bytes} {lo hi : Nat} (h : ∀ i < hi, F[i]? = G[i]?) :
    lineFeedOffsets F lo hi = lineFeedOffsets G lo hi := by
  unfold lineFeedOffsets
  congr 1
  refine List.filter_congr fun i hi' => ?_
  rw [List.mem_range'_1] at hi'
  rw [h i (by omega)]

theorem lineFeedOffsets_prefix {F F' : Bytes} (hpre : F <+: F') (lo : Nat) :
    lineFeedOffsets F' lo F.length = lineFeedOffsets F lo F.length := by
  obtain ⟨t, rfl⟩ := hpre
  exact lineFeedOffsets_congr fun i hi => List.getElem?_append_left hi

theorem lineFeedOffsets_last (F : Bytes) (i : Nat) :
    lineFeedOffsets F i (i + 1) = if F[i]? = some lineFeed then [(i : Int) + 1] else [] := by
  simp only [lineFeedOffsets, Nat.add_sub_cancel_left, List.range'_one, List.filter_cons,
    List.filter_nil, beq_iff_eq]
  split <;> rfl

theorem lineFeedOffsets_getLast_of_lineFeed {F : Bytes} {lo hi : Nat} (hlo : lo < hi)
    (h : F[hi - 1]? = some lineFeed) : (lineFeedOffsets F lo hi).getLast?.getD lo = hi := by
  rw [← lineFeedOffsets_append F (show lo ≤ hi - 1 by omega) (Nat.sub_le hi 1)]
  have := lineFeedOffsets_last F (hi - 1)
  rw [Nat.sub_add_cancel (by omega), if_pos h] at this
  rw [this, List.getLast?_append]
  simp only [List.getLast?_singleton, Option.or_some, Option.getD_some]
  omega

theorem lineFeedOffsets_getLast_lt {F : Bytes} {lo hi : Nat} (hlo : lo < hi)
    (h : F[hi - 1]? ≠ some lineFeed) : (lineFeedOffsets F lo hi).getLast?.getD lo < hi := by
  rw [← lineFeedOffsets_append F (show lo ≤ hi - 1 by omega) (Nat.sub_le hi 1)]
  have := lineFeedOffsets_last F (hi - 1)
  rw [Nat.sub_add_cancel (by omega), if_neg h] at this
  rw [this, List.append_nil]
  cases hl : (lineFeedOffsets F lo (hi - 1)).getLast? with
  | none => simp; omega
  | some x =>
    have := lineFeedOffsets_le (List.mem_of_getLast?_eq_some hl)
    simp; omega

/-! ## The line index of a content -/

/-- The line index of `F`: the offset after each line feed, and `|F| + 1` for a last line without
one. -/
def lineIndexOf (F : Bytes) : LinePositionArray :=
  if F ≠ [] ∧ F.getLast? ≠ some lineFeed then
    ⟨lineFeedOffsets F 0 F.length ++ [(F.length : Int) + 1], true⟩
  else ⟨lineFeedOffsets F 0 F.length, false⟩

@[simp] theorem lineIndexOf_nil : lineIndexOf [] = LinePositionArray.empty := rfl

@[simp] theorem realPositions_lineIndexOf (F : Bytes) :
    (lineIndexOf F).realPositions = lineFeedOffsets F 0 F.length := by
  unfold lineIndexOf; split <;> simp [LinePositionArray.realPositions]

theorem lineIndexOf_of_lineFeed {F : Bytes} (h : F.getLast? = some lineFeed) :
    lineIndexOf F = ⟨lineFeedOffsets F 0 F.length, false⟩ := by
  simp [lineIndexOf, h]

theorem lineIndexOf_of_open {F : Bytes} (hne : F ≠ []) (h : F.getLast? ≠ some lineFeed) :
    lineIndexOf F = ⟨lineFeedOffsets F 0 F.length ++ [(F.length : Int) + 1], true⟩ := by
  simp [lineIndexOf, hne, h]

section
variable {Codec Digest : Type} (env : Env Codec Digest) {c : Codec} {F : Bytes}

theorem indexBlocks_single (hw : (env.encodingParameters c).lineFeedWidth = 1) :
    ∀ (blocks : List Bytes) (q : Nat) (r : Run Codec Digest), r.SettlesOn env c blocks →
      r.state.pos ≤ q → (∀ j < blocks.flatten.length, blocks.flatten[j]? = F[q + j]?) →
      (runSteps (indexBlocks env q blocks) r).state.pos =
          (lineFeedOffsets F q (q + blocks.flatten.length)).getLast?.getD r.state.pos ∧
        (runSteps (indexBlocks env q blocks) r).data.linePosition =
          if blocks.flatten = [] then r.data.linePosition
          else ⟨r.data.linePosition.realPositions ++ lineFeedOffsets F q (q + blocks.flatten.length),
            false⟩
  | [], q, r, _, _, _ => by simp [indexBlocks, readFileInBlocks]
  | b :: bs, q, r, hs, hpos, hF => by
    have hq : (0 : Int) ≤ q := Int.ofNat_nonneg q
    obtain ⟨hc, hp⟩ := guessEncoding_of_settlesOn env hs
    obtain ⟨hc1, -⟩ := indexNextBlock_settled env hq hs
    have hlen : (b :: bs).flatten.length = b.length + bs.flatten.length := by simp
    have hb : ∀ j < b.length, b[j]? = F[q + j]? := fun j hj => by
      rw [← hF j (by rw [hlen]; omega), List.flatten_cons, List.getElem?_append_left hj]
    have hparse := parseDataBlock_single (F := F) (by rw [hp]; exact hw) hb (by simpa using hpos)
    have hlines := (@parseDataBlock_lines _ q b (guessEncoding env b r.data r.state)
      (by simp; omega)).1
    set r1 := indexNextBlock env (q, b) r
    have hpos1 : r1.state.pos = (lineFeedOffsets F q (q + b.length)).getLast?.getD r.state.pos := by
      rw [indexNextBlock_state env r hq]
      split
      · simp_all
      · rw [hlines.2.2, hparse]; rfl
    have hlp1 : r1.data.linePosition = if b = [] then r.data.linePosition
        else ⟨r.data.linePosition.realPositions ++ lineFeedOffsets F q (q + b.length), false⟩ := by
      rw [indexNextBlock_linePosition env r hq, hparse]; rfl
    have hle1 : r1.state.pos ≤ q + b.length := by
      rw [hpos1]
      cases h : (lineFeedOffsets F q (q + b.length)).getLast? with
      | none => simp; omega
      | some x => simpa using lineFeedOffsets_le (List.mem_of_getLast?_eq_some h)
    obtain ⟨ih1, ih2⟩ := indexBlocks_single hw bs (q + b.length) r1 (Or.inl hc1)
      (by push_cast; exact hle1) (fun j hj => by
        rw [Nat.add_assoc, ← hF (b.length + j) (by rw [hlen]; omega), List.flatten_cons,
          List.getElem?_append_right (by omega), Nat.add_sub_cancel_left])
    have happ := lineFeedOffsets_append F (Nat.le_add_right q b.length)
      (Nat.le_add_right (q + b.length) bs.flatten.length)
    simp only [indexBlocks, readFileInBlocks, List.map_cons, runSteps_cons, Int.natCast_add] at ih1 ih2 ⊢
    refine ⟨?_, ?_⟩
    · rw [ih1, hpos1, List.flatten_cons, List.length_append, ← Nat.add_assoc, ← happ,
        List.getLast?_append]
      cases (lineFeedOffsets F (q + b.length) (q + b.length + bs.flatten.length)).getLast? <;> simp
    · rw [ih2, hlp1, List.flatten_cons, List.length_append, ← Nat.add_assoc, ← happ]
      by_cases hbs : bs.flatten = []
      · simp only [hbs, if_true, List.append_nil, List.length_nil, Nat.add_zero, lineFeedOffsets_self]
      · rw [if_neg hbs, if_neg fun h => hbs (List.append_eq_nil.mp h).2]
        by_cases hb0 : b = []
        · subst hb0
          simp only [if_true, List.length_nil, Nat.add_zero, lineFeedOffsets_self, List.nil_append]
        · rw [if_neg hb0, LinePositionArray.realPositions_of_real, List.append_assoc]

theorem afterBlocks_lineIndexOf (hw : (env.encodingParameters c).lineFeedWidth = 1) {F F' : Bytes}
    (hpre : F <+: F') {blocks : List Bytes} (hblocks : blocks.flatten = F'.drop F.length)
    (r : Run Codec Digest) (hlp : r.data.linePosition = lineIndexOf F)
    (hset : (startIndexing F.length F'.length r).SettlesOn env c blocks) :
    (addFakeFinalLF env false (r.afterBlocks env F.length (.steady F' blocks))).data.linePosition =
      lineIndexOf F' := by
  have hle := hpre.length_le
  have hflat : blocks.flatten.length = F'.length - F.length := by rw [hblocks, List.length_drop]
  obtain ⟨hpos, hlp'⟩ := indexBlocks_single env hw blocks F.length _ hset (Int.le_refl _)
    (F := F') fun j _ => by rw [hblocks, List.getElem?_drop]
  have hfs := indexBlocks_fileSize env (q := F.length) blocks
    (startIndexing F.length F'.length r) (Int.ofNat_nonneg _)
  rw [show F.length + blocks.flatten.length = F'.length by omega] at hpos hlp'
  unfold Run.afterBlocks
  simp only [FileView.steady, startIndexing] at hpos hlp' hfs ⊢
  rcases Nat.eq_or_lt_of_le hle with heq | hlt
  · obtain rfl := hpre.eq_of_length heq
    have hnil : blocks.flatten = [] := List.length_eq_zero.mp (by omega)
    rw [addFakeFinalLF_of_le env _ _ (by rw [hfs, hpos]; simp), hlp', if_pos hnil, hlp]
  · have hne : blocks.flatten ≠ [] := fun h => by simp [h] at hflat; omega
    have hoffs : (lineIndexOf F).realPositions ++ lineFeedOffsets F' F.length F'.length =
        lineFeedOffsets F' 0 F'.length := by
      rw [realPositions_lineIndexOf, ← lineFeedOffsets_prefix hpre, lineFeedOffsets_append F'
        (Nat.zero_le _) hle]
    have hF' : F' ≠ [] := fun h => by simp [h] at hlt
    by_cases hlast : F'.getLast? = some lineFeed
    · rw [addFakeFinalLF_of_le env _ _ (Int.eq_iff_le_and_ge.mp (by
          rw [hfs, hpos, lineFeedOffsets_getLast_of_lineFeed hlt (by
            rwa [← List.getLast?_eq_getElem?])])).1,
        hlp', if_neg hne, hlp, hoffs, lineIndexOf_of_lineFeed hlast]
    · rw [addFakeFinalLF_of_lt env _ (by
          rw [hfs, hpos]
          exact lineFeedOffsets_getLast_lt hlt (by rwa [← List.getLast?_eq_getElem?])),
        IndexingData.addAll_linePosition, hlp', if_neg hne, hlp, hoffs, lineIndexOf_of_open hF' hlast,
        hfs]
      rfl

end

end Klogg

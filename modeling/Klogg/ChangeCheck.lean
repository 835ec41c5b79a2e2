import Klogg.History

/-!
# Checking a file for changes

`getDigest` digests the first `indexedSize` bytes from its position, however
the reads are cut (`getDigest_eq`), so `doCheckFileChanges` compares prefixes
of the file on disk with the fingerprint of the store (`doCheckFileChanges_eq`).
The store of a history holds the fingerprint of its content
(`History.fingerprint`), and with a collision-free digest the classification
is exact (`history_checkFileChanges`).
-/

namespace Klogg

/-! ## `getDigest` -/

theorem indexingBlockSize_pos : (0 : Int) < IndexingBlockSize := by decide

theorem take_min_length {α : Type} (L : List α) (b : Nat) : L.take (min b L.length) = L.take b := by
  rcases Nat.le_total b L.length with h | h
  · rw [Nat.min_eq_left h]
  · rw [Nat.min_eq_right h, List.take_length, List.take_of_length_le h]

theorem getDigestLoop_eq (content : Bytes) (n : Int) :
    ∀ (fuel pos : Nat) (total : Int) (fed : Bytes), total ≤ n → (n - total).toNat < fuel →
      getDigestLoop content n fuel pos total fed = fed ++ (content.drop pos).take (n - total).toNat
  | 0, _, _, _, _, h => absurd h (Nat.not_lt_zero _)
  | fuel + 1, pos, total, fed, hle, hfuel => by
    have hB := indexingBlockSize_pos
    have hread := List.length_take (min (IndexingBlockSize : Int) (n - total)).toNat (content.drop pos)
    generalize hb : (min (IndexingBlockSize : Int) (n - total)).toNat = b at hread
    generalize hr : ((content.drop pos).take b).length = r at hread
    have hbk : b ≤ (n - total).toNat := by omega
    have hsplit : (content.drop pos).take (n - total).toNat =
        (content.drop pos).take b ++ (content.drop (pos + r)).take ((n - total).toNat - r) := by
      rw [← List.drop_drop, ← take_min_length _ b, ← hread, ← List.take_add]
      congr 1; omega
    unfold getDigestLoop
    simp only [show ¬ min (IndexingBlockSize : Int) (n - total) < 0 by omega, ite_false, hb, hr]
    rcases Nat.eq_zero_or_pos r with h0 | h0
    · have : (content.drop pos).take (n - total).toNat = [] := by
        rw [hsplit, List.length_eq_zero.mp (hr.trans h0), List.nil_append]
        rcases Nat.min_eq_zero_iff.mp (hread.symm.trans h0) with h1 | h1
        · rw [show (n - total).toNat - r = 0 by omega, List.take_zero]
        · rw [List.drop_eq_nil_of_le (by simp at h1; omega), List.take_nil]
      simp [h0, this]
    · simp only [show (0 : Int) < r by omega, if_true, true_and]
      split
      · rw [getDigestLoop_eq content n fuel _ _ _ (by omega) (by omega), hsplit, List.append_assoc]
        congr 3; omega
      · rw [hsplit, show (n - total).toNat - r = 0 by omega, List.take_zero, List.append_nil]

theorem getDigest_eq {Digest : Type} (digest : Bytes → Digest) (content : Bytes) (pos : Nat)
    {n : Int} (hn : 0 ≤ n) : getDigest digest content pos n = digest ((content.drop pos).take n.toNat) := by
  unfold getDigest
  rw [getDigestLoop_eq content n _ pos 0 [] hn (by omega), Int.sub_zero, List.nil_append]

/-! ## `doCheckFileChanges` -/

def CheckedFile.ofContent (F : Bytes) : CheckedFile := ⟨F.length, true, F⟩

section
variable {Digest : Type} [DecidableEq Digest] (digest : Bytes → Digest) (H : IndexedHash Digest)

theorem doCheckFileChanges_ofContent (hs : 0 ≤ H.size) (hh : 0 ≤ H.headerSize)
    (ht : 0 ≤ H.tailSize) (F' : Bytes) (fast : Bool) :
    doCheckFileChanges digest H (.ofContent F') fast =
      if (F'.length : Int) = 0 ∨ (F'.length : Int) < H.size then .Truncated
      else if (if fast then digest (F'.take H.headerSize.toNat) ≠ H.headerDigest ∨
          digest ((F'.drop H.tailOffset.toNat).take H.tailSize.toNat) ≠ H.tailDigest
        else digest (F'.take H.size.toNat) ≠ H.fullDigest) then .Truncated
      else if H.size < F'.length then .DataAdded else .Unchanged := by
  simp only [doCheckFileChanges, CheckedFile.ofContent, getDigest_eq digest _ _ hs,
    getDigest_eq digest _ _ hh, getDigest_eq digest _ _ ht, List.drop_zero, Bool.not_true,
    Bool.false_eq_true, ite_false]

end

def HeaderTailInv {Digest : Type} (digest : Bytes → Digest) (F : Bytes) (H : IndexedHash Digest) :
    Prop :=
  H.headerSize = (min F.length IndexingBlockSize : Nat) ∧
    H.headerDigest = digest (F.take (min F.length IndexingBlockSize)) ∧
    H.tailOffset = (F.length - min F.length IndexingBlockSize : Nat) ∧
    H.tailSize = (min F.length IndexingBlockSize : Nat) ∧
    H.tailDigest = digest ((F.drop (F.length - min F.length IndexingBlockSize)).take
      (min F.length IndexingBlockSize))

section
variable {Digest : Type} [DecidableEq Digest] {digest : Bytes → Digest}
  (hinj : Function.Injective digest) {F : Bytes} (hF : F ≠ []) {H : IndexedHash Digest}
include hinj hF

theorem doCheckFileChanges_fullMode (hs : H.size = F.length) (hd : H.fullDigest = digest F)
    (hh : 0 ≤ H.headerSize) (ht : 0 ≤ H.tailSize) (F' : Bytes) :
    doCheckFileChanges digest H (.ofContent F') false =
      if F <+: F' then (if F.length < F'.length then .DataAdded else .Unchanged)
      else .Truncated := by
  have hF0 : 0 < F.length := List.length_pos.mpr hF
  rw [doCheckFileChanges_ofContent digest H (by omega) hh ht, hs, hd]
  simp only [Bool.false_eq_true, ite_false, Int.toNat_ofNat, hinj.ne_iff, Int.ofNat_lt]
  by_cases hp : F <+: F'
  · have := hp.length_le
    rw [if_neg (by omega), if_neg (not_not.mpr (List.prefix_iff_eq_take.mp hp).symm), if_pos hp]
  · rw [if_neg hp]
    split
    · rfl
    · rw [if_pos fun h => hp (List.prefix_iff_eq_take.mpr h.symm)]

theorem doCheckFileChanges_fastMode (hs : H.size = F.length) (hht : HeaderTailInv digest F H)
    (F' : Bytes) :
    doCheckFileChanges digest H (.ofContent F') true =
      if F'.length < F.length ∨
          F'.take (min F.length IndexingBlockSize) ≠ F.take (min F.length IndexingBlockSize) ∨
          (F'.drop (F.length - min F.length IndexingBlockSize)).take (min F.length IndexingBlockSize) ≠
            (F.drop (F.length - min F.length IndexingBlockSize)).take (min F.length IndexingBlockSize)
        then .Truncated
      else if F.length < F'.length then .DataAdded else .Unchanged := by
  have hF0 : 0 < F.length := List.length_pos.mpr hF
  obtain ⟨h1, h2, h3, h4, h5⟩ := hht
  rw [doCheckFileChanges_ofContent digest H (by omega) (by rw [h1]; omega) (by rw [h4]; omega),
    hs, h1, h2, h3, h4, h5]
  simp only [ite_true, Int.toNat_ofNat, hinj.ne_iff]
  by_cases h0 : F'.length < F.length
  · rw [if_pos (Or.inr (Int.ofNat_lt.mpr h0)), if_pos (Or.inl h0)]
  · rw [if_neg (by omega)]
    simp only [h0, false_or, Int.ofNat_lt]

end

/-! ## The fingerprint of the store -/

section
variable {Codec Digest : Type}

def FullDigestInv (digest : Bytes → Digest) (fast : Bool) (bytes : Bytes)
    (d : IndexingData Codec Digest) : Prop :=
  d.useFastModificationDetection = fast ∧
    (fast = false → d.hashBuilder = bytes ∧ (bytes ≠ [] → d.hash.fullDigest = digest bytes))

variable {digest : Bytes → Digest} {fast : Bool} {bytes : Bytes} {d : IndexingData Codec Digest}

theorem FullDigestInv.addAll (h : FullDigestInv digest fast bytes d) (b : Bytes) (l : Int)
    (lp : FastLinePositionArray) (e : Option Codec) :
    FullDigestInv digest fast (bytes ++ b) (d.addAll digest b l lp e) := by
  obtain ⟨hf, hb⟩ := h
  refine ⟨by simpa using hf, fun h0 => ?_⟩
  obtain ⟨h1, h2⟩ := IndexingData.addAll_fullMode digest d b l lp e (hf.trans h0)
  obtain ⟨hb1, hb2⟩ := hb h0
  refine ⟨by rw [h1, hb1], fun hne => ?_⟩
  rw [h2, hb1]
  split
  · subst b; simpa using hb2 (by simpa using hne)
  · rfl

theorem FullDigestInv.of_hash {d' : IndexingData Codec Digest} (h : FullDigestInv digest fast bytes d)
    (hb : d'.hashBuilder = d.hashBuilder) (hh : d'.hash.fullDigest = d.hash.fullDigest)
    (hf : d'.useFastModificationDetection = d.useFastModificationDetection) :
    FullDigestInv digest fast bytes d' := by
  obtain ⟨h1, h2⟩ := h
  exact ⟨hf.trans h1, fun h0 => by rw [hb, hh]; exact h2 h0⟩

end

section
variable {Codec Digest : Type} (env : Env Codec Digest) {fast : Bool}

theorem indexNextBlock_fullDigestInv {bb : Int} {b bytes : Bytes} {r : Run Codec Digest}
    (hbb : 0 ≤ bb) (h : FullDigestInv env.digest fast bytes r.data) :
    FullDigestInv env.digest fast (bytes ++ b) (indexNextBlock env (bb, b) r).data := by
  refine indexNextBlock_cases env r hbb (P := fun x => FullDigestInv env.digest fast (bytes ++ b) x.data)
    (fun hb => ?_) (fun _ _ _ => (h.addAll b _ _
      (parseDataBlock bb b (guessEncoding env b r.data r.state)).2.encodingGuess).of_hash rfl rfl rfl)
  subst hb
  rw [List.append_nil]
  exact h.of_hash rfl rfl rfl

theorem indexBlocks_fullDigestInv :
    ∀ (blocks : List Bytes) (q : Int) (r : Run Codec Digest) (bytes : Bytes), 0 ≤ q →
      FullDigestInv env.digest fast bytes r.data →
      FullDigestInv env.digest fast (bytes ++ blocks.flatten) (runSteps (indexBlocks env q blocks) r).data
  | [], _, _, _, _, h => by simpa using h
  | b :: bs, q, r, bytes, hq, h => by
    rw [indexBlocks_cons, runSteps_cons, List.flatten_cons, ← List.append_assoc]
    exact indexBlocks_fullDigestInv bs _ _ _ (by omega) (indexNextBlock_fullDigestInv env hq h)

theorem addFakeFinalLF_fullDigestInv {bytes : Bytes} {r : Run Codec Digest} (i : Bool)
    (h : FullDigestInv env.digest fast bytes r.data) :
    FullDigestInv env.digest fast bytes (addFakeFinalLF env i r).data := by
  unfold addFakeFinalLF
  split
  · simpa using h.addAll [] 0 _ r.state.encodingGuess
  · exact h

theorem hashHeaderAndTail_fullDigestInv {bytes : Bytes} {r : Run Codec Digest} (e : Int)
    (content : Bytes) (h : FullDigestInv env.digest fast bytes r.data) :
    FullDigestInv env.digest fast bytes (hashHeaderAndTail env e content r).data := by
  refine h.of_hash ?_ ?_ ?_ <;> (unfold hashHeaderAndTail; split <;> rfl)

theorem hashHeaderAndTail_headerTailInv (F : Bytes) (r : Run Codec Digest) :
    HeaderTailInv env.digest F (hashHeaderAndTail env F.length F r).data.hash := by
  unfold hashHeaderAndTail
  split
  · rename_i hle
    have hm : min F.length IndexingBlockSize = F.length := Nat.min_eq_left (by omega)
    have hF : F.take IndexingBlockSize = F := List.take_of_length_le (by omega)
    simp [HeaderTailInv, hm, hF]
  · rename_i hlt
    have hm : min F.length IndexingBlockSize = IndexingBlockSize := Nat.min_eq_right (by omega)
    have hs : ((F.length : Int) - IndexingBlockSize).toNat = F.length - IndexingBlockSize := by
      omega
    simp [HeaderTailInv, hm, hs]
    omega

theorem finish_fingerprint {bytes : Bytes} (y : Run Codec Digest)
    (h : FullDigestInv env.digest fast bytes y.data) (F : Bytes) (ev : Event) :
    FullDigestInv env.digest fast bytes
      (emit ev (setLocaleIfNoGuess env (hashHeaderAndTail env F.length F
        (addFakeFinalLF env false y)))).data ∧
    HeaderTailInv env.digest F
      (emit ev (setLocaleIfNoGuess env (hashHeaderAndTail env F.length F
        (addFakeFinalLF env false y)))).data.hash := by
  simp only [emit_data, setLocaleIfNoGuess_data, IndexingData.setEncodingGuess_hash]
  exact ⟨(hashHeaderAndTail_fullDigestInv env _ F (addFakeFinalLF_fullDigestInv env false h)).of_hash
    rfl rfl rfl, hashHeaderAndTail_headerTailInv env F _⟩

variable [Inhabited Digest]

theorem History.fingerprint {forced : Option Codec} {c : Codec} {F : Bytes}
    {d : IndexingData Codec Digest} (h : History env forced c fast F d) :
    FullDigestInv env.digest fast F d ∧ HeaderTailInv env.digest F d.hash := by
  induction h with
  | @full d F blocks hblocks hc hlen =>
    rw [FullIndexOperation.run_of_noClear env d rfl rfl hlen]
    have h0 : FullDigestInv env.digest fast [] (FullIndexOperation.start d forced fast).data :=
      ⟨rfl, fun _ => ⟨rfl, fun h => absurd rfl h⟩⟩
    have := indexBlocks_fullDigestInv env blocks 0
      (startIndexing 0 F.length (FullIndexOperation.start d forced fast)) [] (Int.le_refl 0) h0
    simp only [FileView.steady, hblocks, List.nil_append] at this ⊢
    exact finish_fingerprint env _ this F _
  | @next F F' d blocks fast' h hpre hblocks hlen ih =>
    have hinv := h.codecInv
    rw [PartialIndexOperation.run_of_noClear env d hinv.2.2.2 hinv.2.2.1 rfl rfl hlen, h.size]
    have := indexBlocks_fullDigestInv env blocks d.hash.size
      (startIndexing d.hash.size F'.length (emit (.indexingProgressed 0) (Run.start d))) F
      hinv.2.2.2 ih.1
    rw [hblocks, List.prefix_iff_eq_append.mp hpre] at this
    have hlen' : (F.length : Int) + (blocks.flatten.length : Nat) = F'.length := by
      rw [hblocks, List.length_drop]; have := hpre.length_le; omega
    simp only [FileView.steady, hlen']
    exact finish_fingerprint env _ (by simpa [Run.afterBlocks, h.size] using this) F' _

end

/-! ## Classifying a later content -/

section
variable {F F' : Bytes}

theorem take_eq_of_prefix (hp : F <+: F') {m : Nat} (hm : m ≤ F.length) : F'.take m = F.take m := by
  obtain ⟨t, rfl⟩ := hp
  exact List.take_append_of_le_length hm

theorem window_eq_of_prefix (hp : F <+: F') {s m : Nat} (hm : s + m ≤ F.length) :
    (F'.drop s).take m = (F.drop s).take m := by
  obtain ⟨t, rfl⟩ := hp
  rw [List.drop_append_of_le_length (by omega)]
  exact List.take_append_of_le_length (by simp; omega)

theorem window_ne_of_getElem?_ne {s m i : Nat} (hs : s ≤ i) (hi : i < s + m)
    (h : F'[i]? ≠ F[i]?) : (F'.drop s).take m ≠ (F.drop s).take m := fun he => h (by
  have := congrArg (fun l : Bytes => l[i - s]?) he
  simpa [List.getElem?_take_of_lt (show i - s < m by omega), List.getElem?_drop,
    Nat.add_sub_cancel' hs] using this)

end

section
variable {Codec Digest : Type} [Inhabited Digest] [DecidableEq Digest] (env : Env Codec Digest)

/-- With a collision-free digest, the check of a later content `F'` against a history over `F` is
exact in full mode, and in fast mode never reports a growth as truncated and catches every change at
either end. -/
theorem history_checkFileChanges (hinj : Function.Injective env.digest) {forced : Option Codec}
    {c : Codec} {fast : Bool} {F : Bytes} {d : IndexingData Codec Digest}
    (h : History env forced c fast F d) (hF : F ≠ []) (F' : Bytes) :
    let status := doCheckFileChanges env.digest d.getHash (.ofContent F') fast
    ((F' = [] ∨ F'.length < F.length) → status = .Truncated) ∧
    (fast = false →
      (status = .Unchanged ↔ F' = F) ∧ (status = .DataAdded ↔ F <+: F' ∧ F' ≠ F) ∧
        (status = .Truncated ↔ ¬ F <+: F')) ∧
    (fast = true →
      (F <+: F' → status ≠ .Truncated ∧ (status = .Unchanged ↔ F'.length = F.length) ∧
        (status = .DataAdded ↔ F.length < F'.length)) ∧
      ∀ i < F.length, (i < min F.length IndexingBlockSize ∨
        F.length - min F.length IndexingBlockSize ≤ i) → F'[i]? ≠ F[i]? → status = .Truncated) := by
  intro status
  obtain ⟨⟨hfast, hfull⟩, hht⟩ := h.fingerprint env
  have hs := h.size
  have hF0 : 0 < F.length := List.length_pos.mpr hF
  have hshort : F' = [] ∨ F'.length < F.length → ¬ F <+: F' := fun h' hp => by
    have := hp.length_le
    rcases h' with rfl | h'
    · simp_all
    · omega
  cases fast with
  | false =>
    have hst : status = if F <+: F' then (if F.length < F'.length then .DataAdded else .Unchanged)
        else .Truncated :=
      doCheckFileChanges_fullMode hinj hF hs ((hfull rfl).2 hF) (by rw [hht.1]; omega)
        (by rw [hht.2.2.2.1]; omega) F'
    refine ⟨fun h' => by rw [hst, if_neg (hshort h')], fun _ => ?_, fun h => absurd h (by simp)⟩
    by_cases hp : F <+: F'
    · have hle := hp.length_le
      rw [hst, if_pos hp]
      by_cases hlt : F.length < F'.length
      · have : F' ≠ F := fun h => by subst h; omega
        simp [hlt, hp, this]
      · simp [hlt, (hp.eq_of_length (by omega)).symm]
    · have : F' ≠ F := fun h => hp (h ▸ List.prefix_refl F)
      rw [hst, if_neg hp]
      simp [hp, this]
  | true =>
    have hst : status = _ := doCheckFileChanges_fastMode hinj hF hs hht F'
    have hmin : min F.length IndexingBlockSize ≤ F.length := Nat.min_le_left _ _
    refine ⟨fun h' => ?_, fun h => absurd h (by simp), fun _ => ⟨fun hp => ?_, ?_⟩⟩
    · rw [hst, if_pos (Or.inl (by rcases h' with rfl | h' <;> simp_all))]
    · have hle := hp.length_le
      rw [hst, if_neg (by
        simp only [not_or, not_not]
        exact ⟨by omega, take_eq_of_prefix hp hmin, window_eq_of_prefix hp (by omega)⟩)]
      split <;> simp <;> omega
    · intro i hi hw hne
      rw [hst]
      by_cases hl : F'.length < F.length
      · rw [if_pos (Or.inl hl)]
      rcases hw with hw | hw
      · rw [if_pos (Or.inr (Or.inl fun he => hne (by
          rw [← List.getElem?_take_of_lt hw, he, List.getElem?_take_of_lt hw])))]
      · rw [if_pos (Or.inr (Or.inr (window_ne_of_getElem?_ne hw (by omega) hne)))]

theorem history_checkFileChanges_grown :
    let env := Env.fixed EncodingParameters.singleByte
    let F : Bytes := [97, 10, 98]
    let F' : Bytes := [97, 10, 98, 99]
    let d := (FullIndexOperation.run env none (.steady F [[97, 10], [98]]) .none false
      (IndexingData.empty false)).2.data
    let status := doCheckFileChanges env.digest d.getHash (.ofContent F') false
    ((F' = [] ∨ F'.length < F.length) → status = .Truncated) ∧
    (false = false →
      (status = .Unchanged ↔ F' = F) ∧ (status = .DataAdded ↔ F <+: F' ∧ F' ≠ F) ∧
        (status = .Truncated ↔ ¬ F <+: F')) ∧
    (false = true →
      (F <+: F' → status ≠ .Truncated ∧ (status = .Unchanged ↔ F'.length = F.length) ∧
        (status = .DataAdded ↔ F.length < F'.length)) ∧
      ∀ i < F.length, (i < min F.length IndexingBlockSize ∨
        F.length - min F.length IndexingBlockSize ≤ i) → F'[i]? ≠ F[i]? → status = .Truncated) :=
  history_checkFileChanges _ (fun _ _ h => h) (History.full (by rfl) (by rfl) (by decide))
    (by decide) _

end

end Klogg

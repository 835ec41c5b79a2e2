import Klogg.RegexValidation

/-!
# Matching lines with a Hyperscan database

`HsRegularExpression` compiles its patterns into one Hyperscan database, pattern `i` under the
id `i` (`std::iota`), and `createMatcher` hands out a matcher for each search. A matcher keeps
one `HsMatcherContext` across its `match` calls: `reset()` copies the all-false template into the
flags, `hs_scan` reports each match to the matcher's callback, which sets a flag, and `match`
moves the flags out. The single-pattern matcher's callback sets the first flag and stops the scan
at the first match.

Whatever lines a matcher is asked about, in whatever order, each call returns for each pattern
whether the scan of that line reported it: nothing survives from one call to the next. For one
pattern, stopping at the first match changes nothing (`HsSingleMatcher.match_eq_multi`).
`createMatcher`'s no-op branch tests again what `isHsValid` has tested, so it is never taken, and
the clone of the scratch is not checked: when the clone fails, `hs_scan` rejects the null scratch
without scanning, and every line is reported as matching no pattern
(`HsRegularExpression.createMatcher_matchLines`).
-/

namespace Klogg

def expressionIds (numberOfPatterns : Nat) : List Nat := List.range numberOfPatterns

def patternsMatched (numberOfPatterns : Nat) (reported : List Nat) : List Bool :=
  (List.range numberOfPatterns).map fun i => decide (i ∈ reported)

theorem patternsMatched_getElem? (numberOfPatterns : Nat) (reported : List Nat) (i : Nat) :
    (patternsMatched numberOfPatterns reported)[i]? =
      if i < numberOfPatterns then some (decide (i ∈ reported)) else none := by
  rw [patternsMatched, List.getElem?_map]
  split
  · rw [List.getElem?_range ‹_›]; rfl
  · rw [List.getElem?_eq_none (by rw [List.length_range]; omega)]; rfl

/-! ## The context and the callbacks -/

/-- `HsMatcherContext`: the flags the callbacks set, and the all-false template `reset()` copies. -/
structure HsMatcherContext (numberOfPatterns : Nat) where
  matchingPatterns : List Bool
  matchingPatternsTemplate : List Bool
  template_eq : matchingPatternsTemplate = List.replicate numberOfPatterns false

namespace HsMatcherContext

variable {n : Nat}

def create (numberOfPatterns : Nat) : HsMatcherContext numberOfPatterns :=
  ⟨List.replicate numberOfPatterns false, List.replicate numberOfPatterns false, rfl⟩

def reset (c : HsMatcherContext n) : HsMatcherContext n :=
  { c with matchingPatterns := c.matchingPatternsTemplate }

theorem ext_flags {c c' : HsMatcherContext n} (h : c.matchingPatterns = c'.matchingPatterns) :
    c = c' := by
  cases c; cases c'; subst_vars; rfl

@[simp] theorem reset_matchingPatterns (c : HsMatcherContext n) :
    c.reset.matchingPatterns = List.replicate n false :=
  c.template_eq

end HsMatcherContext

section
variable {n : Nat}

def matchSingleCallback (_ : Nat) (c : HsMatcherContext n) : Int × HsMatcherContext n :=
  (1, { c with matchingPatterns := c.matchingPatterns.set 0 true })

def matchMultiCallback (id : Nat) (c : HsMatcherContext n) : Int × HsMatcherContext n :=
  (0, { c with matchingPatterns := c.matchingPatterns.set id true })

/-- The loop of `hs_scan` (Hyperscan, outside the repository): the callback on each match reported,
until it returns non-zero. -/
def hsScanLoop (onEvent : Nat → HsMatcherContext n → Int × HsMatcherContext n) :
    List Nat → HsMatcherContext n → HsMatcherContext n
  | [], c => c
  | id :: ids, c =>
    let r := onEvent id c
    if r.1 ≠ 0 then r.2 else hsScanLoop onEvent ids r.2

/-- `hs_scan`: with a null scratch it returns `HS_INVALID` without scanning. -/
def hsScan (scratch : Bool) (onEvent : Nat → HsMatcherContext n → Int × HsMatcherContext n)
    (reported : List Nat) (c : HsMatcherContext n) : HsMatcherContext n :=
  if scratch then hsScanLoop onEvent reported c else c

theorem hsScanLoop_multi (reported : List Nat) (c : HsMatcherContext n) (i : Nat) :
    (hsScanLoop matchMultiCallback reported c).matchingPatterns[i]? =
      c.matchingPatterns[i]?.map (· || decide (i ∈ reported)) := by
  induction reported generalizing c with
  | nil => simp only [hsScanLoop, List.not_mem_nil, decide_False, Bool.or_false, Option.map_id']
  | cons id rest ih =>
    simp only [hsScanLoop, matchMultiCallback, ne_eq, not_true_eq_false, if_false, ih,
      List.getElem?_set', List.mem_cons]
    by_cases h : id = i
    · subst h; cases c.matchingPatterns[id]? <;> simp
    · simp only [h, if_false, Ne.symm h, false_or]

theorem hsScanLoop_single (reported : List Nat) (c : HsMatcherContext n) :
    (hsScanLoop matchSingleCallback reported c).matchingPatterns =
      if reported = [] then c.matchingPatterns else c.matchingPatterns.set 0 true := by
  cases reported <;> simp [hsScanLoop, matchSingleCallback]

end

/-! ## The matchers -/

structure HsMatcher (numberOfPatterns : Nat) where
  scratch : Bool
  context : HsMatcherContext numberOfPatterns

namespace HsMatcher

variable {n : Nat}

def matchWith (onEvent : Nat → HsMatcherContext n → Int × HsMatcherContext n)
    (reported : List Nat) (m : HsMatcher n) : List Bool × HsMatcher n :=
  let c := hsScan m.scratch onEvent reported m.context.reset
  (c.matchingPatterns, { m with context := { c with matchingPatterns := [] } })

def matchLines (matchOne : List Nat → HsMatcher n → List Bool × HsMatcher n) :
    List (List Nat) → HsMatcher n → List (List Bool)
  | [], _ => []
  | reported :: lines, m =>
    (matchOne reported m).1 :: matchLines matchOne lines (matchOne reported m).2

theorem matchWith_snd (f g : Nat → HsMatcherContext n → Int × HsMatcherContext n)
    (reported : List Nat) (m : HsMatcher n) :
    (matchWith f reported m).2 = (matchWith g reported m).2 := by
  simp only [matchWith, HsMatcher.mk.injEq, true_and]
  exact HsMatcherContext.ext_flags rfl

theorem matchLines_eq_map {matchOne : List Nat → HsMatcher n → List Bool × HsMatcher n}
    {spec : List Nat → List Bool} {s : Bool} :
    ∀ (lines : List (List Nat)) (m : HsMatcher n), m.scratch = s →
      (∀ r ∈ lines, ∀ m' : HsMatcher n, m'.scratch = s →
        (matchOne r m').1 = spec r ∧ (matchOne r m').2.scratch = s) →
      matchLines matchOne lines m = lines.map spec
  | [], _, _, _ => rfl
  | r :: lines, m, hm, h => by
    obtain ⟨h1, h2⟩ := h r (List.mem_cons_self r lines) m hm
    rw [matchLines, List.map_cons, h1,
      matchLines_eq_map lines _ h2 fun r' hr' => h r' (List.mem_cons_of_mem r hr')]

end HsMatcher

def HsSingleMatcher.match (reported : List Nat) (m : HsMatcher 1) : List Bool × HsMatcher 1 :=
  m.matchWith matchSingleCallback reported

def HsMultiMatcher.match {n : Nat} (reported : List Nat) (m : HsMatcher n) :
    List Bool × HsMatcher n :=
  m.matchWith matchMultiCallback reported

def HsNoopMatcher.match : List Bool := []

theorem HsMultiMatcher.match_fst {n : Nat} (reported : List Nat) (m : HsMatcher n) :
    (HsMultiMatcher.match reported m).1 =
      patternsMatched n (if m.scratch then reported else []) := by
  apply List.ext_getElem?
  intro i
  rw [patternsMatched_getElem?]
  simp only [HsMultiMatcher.match, HsMatcher.matchWith, hsScan]
  cases m.scratch
  · simp only [Bool.false_eq_true, if_false, HsMatcherContext.reset_matchingPatterns,
      List.getElem?_replicate, List.not_mem_nil, decide_False]
  · simp only [if_true, hsScanLoop_multi, HsMatcherContext.reset_matchingPatterns,
      List.getElem?_replicate]
    split <;> simp

theorem HsSingleMatcher.match_fst (reported : List Nat) (m : HsMatcher 1) :
    (HsSingleMatcher.match reported m).1 = [m.scratch && !reported.isEmpty] := by
  simp only [HsSingleMatcher.match, HsMatcher.matchWith, hsScan]
  cases m.scratch
  · simp
  · cases reported <;> simp [hsScanLoop_single]

/-- For one pattern the single-pattern matcher, which stops at the first match, returns what the
multi-pattern matcher returns. -/
theorem HsSingleMatcher.match_eq_multi (reported : List Nat) (m : HsMatcher 1)
    (hids : ∀ id ∈ reported, id ∈ expressionIds 1) :
    HsSingleMatcher.match reported m = HsMultiMatcher.match reported m := by
  refine Prod.ext ?_ (HsMatcher.matchWith_snd _ _ reported m)
  rw [HsSingleMatcher.match_fst, HsMultiMatcher.match_fst]
  cases reported with
  | nil => cases m.scratch <;> rfl
  | cons id rest =>
    have h0 : id = 0 := by simpa [expressionIds] using hids id (List.mem_cons_self id rest)
    subst h0
    cases m.scratch <;> rfl

theorem HsSingleMatcher.match_eq_multi_twice :
    let m : HsMatcher 1 := ⟨true, HsMatcherContext.create 1⟩
    (∀ id ∈ [0, 0], id ∈ expressionIds 1) ∧
      HsSingleMatcher.match [0, 0] m = HsMultiMatcher.match [0, 0] m :=
  ⟨by decide,
    HsSingleMatcher.match_eq_multi [0, 0] ⟨true, HsMatcherContext.create 1⟩ (by decide)⟩

/-! ## Creating a matcher -/

inductive MatcherVariant
  | defaultRegularExpressionMatcher
  | hsNoopMatcher
  | hsSingleMatcher (m : HsMatcher 1)
  | hsMultiMatcher (numberOfPatterns : Nat) (m : HsMatcher numberOfPatterns)

def MatcherVariant.matchLines : MatcherVariant → List (List Nat) → Option (List (List Bool))
  | .defaultRegularExpressionMatcher, _ => none
  | .hsNoopMatcher, lines => some (lines.map fun _ => HsNoopMatcher.match)
  | .hsSingleMatcher m, lines => some (HsMatcher.matchLines HsSingleMatcher.match lines m)
  | .hsMultiMatcher _ m, lines => some (HsMatcher.matchLines HsMultiMatcher.match lines m)

def HsRegularExpression.isHsValid (database scratch : Bool) : Bool := database && scratch

/-- `createMatcher()`; `scratchCloned` is whether `hs_clone_scratch` succeeds, which is not
checked. -/
def HsRegularExpression.createMatcher (database scratch : Bool) (numberOfPatterns : Nat)
    (scratchCloned : Bool) : MatcherVariant :=
  if !HsRegularExpression.isHsValid database scratch then .defaultRegularExpressionMatcher
  else if !database || !scratch then .hsNoopMatcher
  else if numberOfPatterns = 1 then .hsSingleMatcher ⟨scratchCloned, HsMatcherContext.create 1⟩
  else
    .hsMultiMatcher numberOfPatterns ⟨scratchCloned, HsMatcherContext.create numberOfPatterns⟩

/-- Once the database and its scratch exist, the matcher `createMatcher` hands out reports, for
every line, which patterns the scan matched, whatever the lines before. -/
theorem HsRegularExpression.createMatcher_matchLines (numberOfPatterns : Nat)
    (scratchCloned : Bool) (lines : List (List Nat))
    (hids : ∀ reported ∈ lines, ∀ id ∈ reported, id ∈ expressionIds numberOfPatterns) :
    (HsRegularExpression.createMatcher true true numberOfPatterns scratchCloned).matchLines lines =
      some (lines.map fun reported =>
        patternsMatched numberOfPatterns (if scratchCloned then reported else [])) := by
  simp only [HsRegularExpression.createMatcher, HsRegularExpression.isHsValid, Bool.and_self,
    Bool.not_true, Bool.or_self, if_false, Bool.false_eq_true]
  split
  · subst_vars
    refine congrArg some (HsMatcher.matchLines_eq_map lines _ rfl fun r hr m' hm' => ⟨?_, hm'⟩)
    rw [HsSingleMatcher.match_fst, hm']
    cases r with
    | nil => cases scratchCloned <;> rfl
    | cons id rest =>
      have h0 : id = 0 := by simpa [expressionIds] using hids _ hr id (List.mem_cons_self id rest)
      subst h0
      cases scratchCloned <;> rfl
  · exact congrArg some (HsMatcher.matchLines_eq_map lines _ rfl fun r _ m' hm' =>
      ⟨by rw [HsMultiMatcher.match_fst, hm'], hm'⟩)

theorem HsRegularExpression.createMatcher_matchLines_twoPatterns :
    (∀ reported ∈ [[1], [], [0, 1]], ∀ id ∈ reported, id ∈ expressionIds 2) ∧
      (HsRegularExpression.createMatcher true true 2 true).matchLines [[1], [], [0, 1]] =
        some [[false, true], [false, false], [true, true]] :=
  ⟨by decide, HsRegularExpression.createMatcher_matchLines 2 true [[1], [], [0, 1]] (by decide)⟩

end Klogg

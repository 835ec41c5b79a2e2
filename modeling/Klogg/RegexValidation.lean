import Mathlib.Data.List.Basic

/-!
# Validating the patterns when Hyperscan cannot be used

When the Hyperscan database or its scratch cannot be built, the
`HsRegularExpression` constructor checks each pattern with
`QRegularExpression` and combines the results with `std::transform_reduce`,
whose operation (`keepFirstInvalid`) keeps the accumulated result once it is
invalid. The reduction may group its terms in any way that keeps their order:
a `Reduction` tree whose terms are the initial pair and the patterns' results.
The operation is associative, so every such tree evaluates to the left fold
(`Reduction.eval_eq_foldl`), and the initial pair is neutral on the left. The
constructor therefore finds every pattern valid exactly when each is, and
otherwise reports the error of the first invalid pattern
(`HsRegularExpression.validatePatterns_firstInvalid`).

The standard also lets `std::transform_reduce` reorder its terms, which this
operation does not tolerate; only regroupings in order are modelled.
-/

namespace Klogg

inductive Reduction (α : Type) where
  | term (a : α)
  | combine (l r : Reduction α)
deriving Repr

namespace Reduction

variable {α : Type}

def terms : Reduction α → List α
  | term a => [a]
  | combine l r => l.terms ++ r.terms

def eval (op : α → α → α) : Reduction α → α
  | term a => a
  | combine l r => op (l.eval op) (r.eval op)

theorem terms_ne_nil : ∀ t : Reduction α, t.terms ≠ []
  | term _ => List.cons_ne_nil _ _
  | combine l _ => by simp [terms, terms_ne_nil l]

theorem eval_eq_foldl (op : α → α → α) [Std.Associative op] :
    ∀ (t : Reduction α) (a : α) (rest : List α), t.terms = a :: rest → t.eval op = rest.foldl op a
  | term b, a, rest, h => by
    simp only [terms, List.cons.injEq] at h
    obtain ⟨rfl, rfl⟩ := h
    rfl
  | combine l r, a, rest, h => by
    obtain ⟨a', ls, hl⟩ := List.exists_cons_of_ne_nil (terms_ne_nil l)
    obtain ⟨b, rs, hr⟩ := List.exists_cons_of_ne_nil (terms_ne_nil r)
    rw [terms, hl, hr, List.cons_append, List.cons.injEq] at h
    obtain ⟨rfl, rfl⟩ := h
    rw [eval, eval_eq_foldl op l _ _ hl, eval_eq_foldl op r _ _ hr, List.foldl_append,
      List.foldl_cons, List.foldl_assoc]

end Reduction

/-- An order-keeping grouping of `init, xs₁, …, xsₙ`. -/
structure Bracketing (α : Type) (init : α) (xs : List α) where
  tree : Reduction α
  terms_eq : tree.terms = init :: xs

abbrev Validation := Bool × String

/-- The reduction operation of the fallback validation: `acc.first ? next : acc`. -/
def keepFirstInvalid (acc next : Validation) : Validation := if acc.1 then next else acc

theorem keepFirstInvalid_assoc (a b c : Validation) :
    keepFirstInvalid (keepFirstInvalid a b) c = keepFirstInvalid a (keepFirstInvalid b c) := by
  rcases a with ⟨_ | _, _⟩ <;> simp [keepFirstInvalid]

instance : Std.Associative keepFirstInvalid := ⟨keepFirstInvalid_assoc⟩

theorem foldl_keepFirstInvalid_of_invalid :
    ∀ (xs : List Validation) (acc : Validation), acc.1 = false → xs.foldl keepFirstInvalid acc = acc
  | [], _, _ => rfl
  | x :: xs, acc, h => by
    rw [List.foldl_cons, keepFirstInvalid, if_neg (by simp [h]),
      foldl_keepFirstInvalid_of_invalid xs acc h]

theorem foldl_keepFirstInvalid_valid :
    ∀ (xs : List Validation) (acc : Validation), acc.1 = true →
      (xs.foldl keepFirstInvalid acc).1 = xs.all (·.1)
  | [], _, h => h
  | x :: xs, acc, h => by
    rw [List.foldl_cons, keepFirstInvalid, if_pos h, List.all_cons]
    cases hx : x.1
    · rw [foldl_keepFirstInvalid_of_invalid xs x hx, hx, Bool.false_and]
    · rw [foldl_keepFirstInvalid_valid xs x hx, Bool.true_and]

theorem foldl_keepFirstInvalid_first :
    ∀ (xs : List Validation) (acc v : Validation), acc.1 = true → xs.find? (!·.1) = some v →
      xs.foldl keepFirstInvalid acc = v
  | [], _, _, _, h => by simp at h
  | x :: xs, acc, v, hacc, h => by
    rw [List.foldl_cons, keepFirstInvalid, if_pos hacc]
    cases hx : x.1
    · rw [List.find?_cons, hx] at h
      simp only [Bool.not_false, Option.some.injEq] at h
      rw [foldl_keepFirstInvalid_of_invalid xs x hx, h]
    · rw [List.find?_cons, hx] at h
      exact foldl_keepFirstInvalid_first xs x v hx h

structure HsRegularExpression where
  isValid : Bool
  errorString : String
deriving DecidableEq, Repr

/-- The end of the `HsRegularExpression( patterns )` constructor: without Hyperscan the patterns are
checked with `validate` and combined in the grouping `regrouping`. -/
def HsRegularExpression.validatePatterns {Pattern : Type} (validate : Pattern → Validation)
    (patterns : List Pattern) (isHsValid : Bool) (built : HsRegularExpression)
    (regrouping : Bracketing Validation (true, "") (patterns.map validate)) : HsRegularExpression :=
  if !isHsValid then
    let validationResult := regrouping.tree.eval keepFirstInvalid
    ⟨validationResult.1, validationResult.2⟩
  else built

/-- Without Hyperscan, whatever the grouping the reduction uses, the constructor keeps the first
invalid pattern's error, or is valid when there is none. -/
theorem HsRegularExpression.validatePatterns_firstInvalid {Pattern : Type}
    (validate : Pattern → Validation) (patterns : List Pattern) (built : HsRegularExpression)
    (regrouping : Bracketing Validation (true, "") (patterns.map validate)) :
    ((HsRegularExpression.validatePatterns validate patterns false built regrouping).isValid =
        true ↔ ∀ p ∈ patterns, (validate p).1 = true) ∧
      ∀ p, patterns.find? (fun p => !(validate p).1) = some p →
        (HsRegularExpression.validatePatterns validate patterns false built regrouping).errorString =
          (validate p).2 := by
  have heval := Reduction.eval_eq_foldl keepFirstInvalid regrouping.tree _ _ regrouping.terms_eq
  simp only [HsRegularExpression.validatePatterns, Bool.not_false, ite_true, heval]
  refine ⟨?_, fun p hp => ?_⟩
  · rw [foldl_keepFirstInvalid_valid _ _ rfl]
    simp [List.all_eq_true]
  · have hfind : (patterns.map validate).find? (!·.1) = some (validate p) := by
      rw [List.find?_map]
      simp only [Function.comp_def, hp, Option.map_some']
    rw [foldl_keepFirstInvalid_first _ _ _ rfl hfind]

example : HsRegularExpression.validatePatterns id [(true, "no error"), (false, "e1"), (false, "e2")]
    false ⟨true, ""⟩ ⟨.combine (.term (true, "")) (.combine (.combine (.term (true, "no error"))
      (.term (false, "e1"))) (.term (false, "e2"))), rfl⟩ = ⟨false, "e1"⟩ := rfl

end Klogg

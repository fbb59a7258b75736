/-
# Arithmetic derivations are typings

A derivation reads an expression off its run, and the rules it names are those of
the expression (`Derives.reads`).  A conditional that stands inside a clause is
flagged where a `Nat` is expected although nothing is wrong with its type.  Apart
from these flags a derivation fits exactly if the expression is well typed, with
the expected type if there is one (`Derives.hasType`, `exists_derives_of_hasType`).
What carries both inductions is that a fitting derivation hands on the type of the
expression.

On the flat form of a splittable expression what is read is the expression, so
there the engine decides whether it is well typed
(`tree_run_fits_iff_hasType`).
-/

import TypeDeduction.Proofs.Arithmetic.Derivation
import TypeDeduction.Proofs.Reading
import TypeDeduction.Typing

namespace TypeDeduction
namespace Arithmetic

variable {style : Presentation} {run : Run} {expected : Signature} {inner : Bool} {p q : Proof}
  {e : Expr} {A : BaseType}

/-! ### Operators -/

/-- An operator whose operand fits fits itself if the operand is a `Nat` and its result
is admitted. -/
theorem status_unaryStep {op : UnaryOp} {conclude : Signature → Judgment} (hq : q.type = [A])
    (ha : (op.demand expected).Admits A) :
    (unaryStep op conclude expected q).status = .exact ↔ A = .nat ∧ expected.Admits op.result := by
  cases op with
  | succ | pred =>
      rcases ha with h | h <;> simp only [UnaryOp.demand] at h <;>
        simp [unaryStep, arithmeticStep, h, hq, UnaryOp.result, Signature.Admits]
  | iszero =>
      obtain rfl := Signature.admits_singleton.1 ha
      simp [unaryStep, iszeroStep, UnaryOp.result, Signature.Admits]

/-- An operator that fits hands on the type of its result. -/
theorem type_unaryStep {op : UnaryOp} {conclude : Signature → Judgment} (hq : q.type = [.nat])
    (ha : expected.Admits op.result) :
    (unaryStep op conclude expected q).type = [op.result] := by
  rcases ha with rfl | rfl <;> cases op <;>
    simp [unaryStep, arithmeticStep, iszeroStep, hq, UnaryOp.result]

/-- An operator with an operand that fits, apart from flagged conditionals. -/
theorem flaggedOnly_unaryStep {op : UnaryOp} {conclude : Signature → Judgment} :
    (unaryStep op conclude expected q).FlaggedOnly .cond ↔
      (unaryStep op conclude expected q).status = .exact ∧ q.FlaggedOnly .cond := by
  have hne : op.rule.name ≠ Rule.cond.name := by cases op <;> decide
  cases op <;> simp only [unaryStep, arithmeticStep, iszeroStep] <;>
    rw [Proof.flaggedOnly_step_of_ne rfl hne] <;> simp

/-! ### Derivations and typings -/

namespace Derives

/-- **A derivation reads an expression off its run** and names its rules in pre-order. -/
theorem reads (h : Derives style run expected inner p) :
    ∃ e, Reads .arithmetic run e ∧ p.rules = (e.rules .arithmetic).map Rule.name := by
  induction h with
  | truth hb => exact ⟨.truth, .truth fun _ => hb, rfl⟩
  | falsity hb => exact ⟨.falsity, .falsity fun _ => hb, rfl⟩
  | zero hb => exact ⟨.zero, .zero fun _ => hb, rfl⟩
  | unary op _ ih =>
      obtain ⟨e, he, hr⟩ := ih
      refine ⟨.unary op e, .unary rfl he, ?_⟩
      cases op <;>
        simp [unaryStep, arithmeticStep, iszeroStep, Proof.rules_step, Expr.rules, hr,
          UnaryOp.rule]
  | cond hs _ _ _ _ ihc iht ihr =>
      obtain ⟨c, hc, hrc⟩ := ihc
      obtain ⟨t, ht, hrt⟩ := iht
      obtain ⟨r, hr, hrr⟩ := ihr
      refine ⟨.cond c t r, .cond hs hc ht hr, ?_⟩
      simp [Rule.conditionalStep, Proof.rules_step, Expr.rules, hrc, hrt, hrr]
  | bracketed hl hq ih =>
      obtain ⟨e, he, hr⟩ := ih
      refine ⟨.bracketed e, .bracketed rfl hl hq.balance_eq_zero he, ?_⟩
      simp [Rule.bracketedStep, Proof.rules_step, Expr.rules, hr]

/-- **A derivation that fits is a typing** of the expression it reads, at the type it
hands on.  Flags on conditionals do not matter. -/
theorem hasType (h : Derives style run expected inner p) (hp : p.FlaggedOnly .cond) :
    ∃ e A, Reads .arithmetic run e ∧ HasType .empty e A ∧ expected.Admits A ∧ p.type = [A] := by
  induction h with
  | truth hb =>
      have ha := (Rule.flaggedOnly_literal (by decide)).1 hp
      exact ⟨.truth, .bool, .truth fun _ => hb, .truth, ha, rfl⟩
  | falsity hb =>
      have ha := (Rule.flaggedOnly_literal (by decide)).1 hp
      exact ⟨.falsity, .bool, .falsity fun _ => hb, .falsity, ha, rfl⟩
  | zero hb =>
      have ha := (Rule.flaggedOnly_literal (by decide)).1 hp
      exact ⟨.zero, .nat, .zero fun _ => hb, .zero, ha, rfl⟩
  | unary op _ ih =>
      obtain ⟨hs, hq⟩ := flaggedOnly_unaryStep.1 hp
      obtain ⟨e, A, he, ht, ha, hA⟩ := ih hq
      obtain ⟨rfl, hres⟩ := (status_unaryStep hA ha).1 hs
      exact ⟨.unary op e, op.result, .unary rfl he, .unary ht, hres, type_unaryStep hA hres⟩
  | cond hs _ _ _ heq ihc iht ihr =>
      obtain ⟨hpc, hpt, hpr⟩ := Rule.flaggedOnly_conditionalStep.1 hp
      obtain ⟨c, C, hc, htc, hac, -⟩ := ihc hpc
      obtain ⟨t, A, ht, htt, hat, hA⟩ := iht hpt
      obtain ⟨r, B, hr, htr, -, hB⟩ := ihr hpr
      obtain rfl := Signature.admits_singleton.1 hac
      -- Branches that fit have base types, and these agree as soon as they start alike.
      obtain rfl : A = B := by simpa [hA, hB] using heq
      exact ⟨.cond c t r, A, .cond hs hc ht hr, .cond htc htt htr, hat, hA⟩
  | bracketed hl hq ih =>
      obtain ⟨e, A, he, ht, ha, hA⟩ := ih (Rule.flaggedOnly_bracketedStep.1 hp)
      exact ⟨.bracketed e, A, .bracketed rfl hl hq.balance_eq_zero he, .bracketed ht, ha,
        Rule.type_bracketedStep hA ha⟩

end Derives

/-- **A typing is derived**: a run that reads as a well-typed expression has a derivation
that fits, apart from flagged conditionals, wherever the type is admitted. -/
theorem exists_derives_of_hasType (style : Presentation) (h : Reads .arithmetic run e)
    (ht : HasType .empty e A) (ha : expected.Admits A) (inner : Bool) :
    ∃ p, Derives style run expected inner p ∧ p.FlaggedOnly .cond ∧ p.type = [A] := by
  induction h generalizing A expected inner with
  | truth hb =>
      cases ht
      exact ⟨_, .truth (hb rfl), (Rule.flaggedOnly_literal (by decide)).2 ha, rfl⟩
  | falsity hb =>
      cases ht
      exact ⟨_, .falsity (hb rfl), (Rule.flaggedOnly_literal (by decide)).2 ha, rfl⟩
  | zero hb =>
      cases ht
      exact ⟨_, .zero (hb rfl), (Rule.flaggedOnly_literal (by decide)).2 ha, rfl⟩
  | var hc => cases hc
  | @unary op _ _ _ hw _ ih =>
      subst hw
      cases ht with
      | unary ht =>
          have hd : (op.demand expected).Admits .nat := by
            cases op with
            | succ | pred => exact ha
            | iszero => exact .inr rfl
          obtain ⟨q, hq, hf, hA⟩ := ih ht hd false
          exact ⟨_, .unary op hq,
            flaggedOnly_unaryStep.2 ⟨(status_unaryStep hA hd).2 ⟨rfl, ha⟩, hf⟩,
            type_unaryStep hA ha⟩
  | cond hs _ _ _ ihc iht ihr =>
      cases ht with
      | cond hc ht hr =>
          obtain ⟨pc, hpc, hfc, -⟩ := ihc hc (.inr rfl) _
          obtain ⟨pt, hpt, hft, hA⟩ := iht ht ha _
          obtain ⟨pr, hpr, hfr, hB⟩ := ihr hr ha _
          exact ⟨_, .cond hs hpc hpt hpr (by rw [hA, hB]),
            Rule.flaggedOnly_conditionalStep.2 ⟨hfc, hft, hfr⟩, hA⟩
  | bracketed hr hl _ _ ih =>
      subst hr
      cases ht with
      | bracketed ht =>
          obtain ⟨q, hq, hf, hA⟩ := ih ht ha false
          exact ⟨_, .bracketed hl hq, Rule.flaggedOnly_bracketedStep.2 hf,
            Rule.type_bracketedStep hA ha⟩

/-- **The engine decides typing.**  On the flat form of a splittable expression without
variables, below a limit that lets as many rules stand on each other as there are
tokens, a derivation is found that fits apart from flagged conditionals if and only if
the expression is well typed, at the expected type if one is given.  The derivation
then hands on the type of the expression and names the rules of its syntax tree. -/
theorem tree_run_fits_iff_hasType (s : Settings) (style : Presentation) {e : Expr}
    (he : e.Splittable) (hv : e.occurrences = []) (expected : Option BaseType)
    (hl : (e.run.length : Int) ≤ s.maxDepth) :
    ((∃ p, (tree s style e.run expected.toList).outcome = .ok p ∧ p.FlaggedOnly .cond) ↔
        ∃ A, HasType .empty e A ∧ ∀ B ∈ expected, A = B) ∧
      ∀ p A, (tree s style e.run expected.toList).outcome = .ok p → p.FlaggedOnly .cond →
        HasType .empty e A →
        p.type = [A] ∧ p.rules = (e.rules .arithmetic).map Rule.name := by
  have hadmits (A : BaseType) : Signature.Admits expected.toList A ↔ ∀ B ∈ expected, A = B := by
    cases expected <;> simp [Signature.Admits, eq_comm]
  refine ⟨⟨?_, ?_⟩, ?_⟩
  · rintro ⟨p, hp, hf⟩
    obtain ⟨e', A, he', ht, ha, -⟩ := (derive_eq_ok_iff.1 hp).1.hasType hf
    obtain rfl := he'.eq_of_run
    exact ⟨A, ht, (hadmits A).1 ha⟩
  · rintro ⟨A, ht, ha⟩
    have hread : Reads .arithmetic e.run e := reads_run he fun _ => hv
    obtain ⟨p, hp, hf, -⟩ := exists_derives_of_hasType style hread ht ((hadmits A).2 ha) false
    have hh : p.height ≤ Depth.levels s.maxDepth := by
      have := hp.height_le_length
      unfold Depth.levels
      omega
    exact ⟨p, derive_eq_ok_iff.2 ⟨hp, hh⟩, hf⟩
  · intro p A hp hf ht
    have hd := (derive_eq_ok_iff.1 hp).1
    obtain ⟨e', A', he', ht', -, hA⟩ := hd.hasType hf
    obtain ⟨e'', he'', hr⟩ := hd.reads
    obtain rfl := he'.eq_of_run
    obtain rfl := he''.eq_of_run
    exact ⟨ht.unique ht' ▸ hA, hr⟩

/-- A choice in which a conditional stands inside a clause, so that a `Nat` expected of
the whole flags it. -/
def nestedChoice : Expr :=
  .cond (.unary .iszero (.bracketed .zero)) (.cond .truth .zero (.unary .succ .zero)) .zero

theorem tree_run_fits_nestedChoice :
    nestedChoice.Splittable ∧ nestedChoice.occurrences = [] ∧
      ∃ p, (tree {} .sequent nestedChoice.run [.nat]).outcome = .ok p ∧ p.FlaggedOnly .cond ∧
        p.type = [.nat] ∧ p.rules = (nestedChoice.rules .arithmetic).map Rule.name := by
  have hs : nestedChoice.Splittable := by decide
  have ht : HasType .empty nestedChoice .nat :=
    .cond (.unary (.bracketed .zero)) (.cond .truth .zero (.unary .zero)) .zero
  have h := tree_run_fits_iff_hasType {} .sequent hs rfl (some .nat) (by decide)
  obtain ⟨p, hp, hf⟩ := h.1.2 ⟨.nat, ht, by simp⟩
  exact ⟨hs, rfl, p, hp, hf, h.2 p .nat hp hf ht⟩

end Arithmetic
end TypeDeduction

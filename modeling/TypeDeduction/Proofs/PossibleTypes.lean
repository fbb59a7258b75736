/-
# Types that a step can have

The rule for a literal or an operator decides the type of its conclusion: `true`,
`false` and `iszero` are of type `Bool`, and `0`, `succ` and `pred` of type `Nat`.  A
step that shows another type is impossible, and a flag should say so
(`Inference.Possible`).

| step | not flagged against `A` if | with nothing expected if |
| --- | --- | --- |
| literal | `A` is its own type | always |
| `iszero` | `A` is `Bool` | always, or its operand is a `Nat` in the lambda calculus |
| `succ`, `pred` | `A` is `Nat` | its operand is a `Nat` |
| `succ`, `pred` in arithmetic | `A` or the type of its operand is `Nat` | its operand is a `Nat` |

By this table no impossible step of the lambda calculus goes without a flag.  In
arithmetic `succ` and `pred` look at their operand against an expected type too.  An
operand hands on `Nat` against another type only if it ends in `0` (`Expr.tip`), for a
flagged `0` keeps its type.  Then the operand is flagged, and the operator shows the
impossible type without a flag, as in `succ 0 : Bool`.  That this does not happen
anywhere is a condition on the expression and the expected type
(`Expr.Overlooks`).
-/

import TypeDeduction.Proofs.Arithmetic.BranchVerdicts
import TypeDeduction.Proofs.Lambda.Derivation

namespace TypeDeduction

/-! ### Possible steps -/

/-- The type that all conclusions of a rule have, if the rule decides it. -/
def Rule.own? : Rule → Option BaseType
  | .truth => some .bool
  | .falsity => some .bool
  | .zero => some .nat
  | .succ => some .nat
  | .pred => some .nat
  | .iszero => some .bool
  | .cond => none
  | .brackets _ => none
  | .var => none
  | .abs => none
  | .app => none

/-- Different rules have different names. -/
theorem Rule.name_injective {r r' : Rule} (h : r.name = r'.name) : r = r' := by
  revert h
  rcases r with _ | _ | _ | _ | _ | _ | _ | (_ | _) | _ | _ | _ <;>
    rcases r' with _ | _ | _ | _ | _ | _ | _ | (_ | _) | _ | _ | _ <;>
    simp [Rule.name]

/-- Unless it is flagged, the step concludes the type that its rule decides. -/
def Inference.Possible (i : Inference) : Prop :=
  ∀ (r : Rule) (A : BaseType), i.rule = r.name → r.own? = some A → i.status = .exact →
    i.conclusion.type = [A]

/-- All steps of the tree are possible or flagged. -/
def Proof.Possible (p : Proof) : Prop := p.Everywhere fun i _ => i.Possible

namespace Proof

variable {i : Inference} {ps : List Proof} {r : Rule} {A : BaseType}

/-- A step whose rule decides its type. -/
theorem possible_step_iff (hi : i.rule = r.name) (hr : r.own? = some A) :
    (Proof.step i ps).Possible ↔
      (i.status = .exact → i.conclusion.type = [A]) ∧ ∀ q ∈ ps, q.Possible := by
  have hown : i.Possible ↔ (i.status = .exact → i.conclusion.type = [A]) := by
    constructor
    · exact fun h => h r A hi hr
    · intro h r' A' hi' hr'
      obtain rfl := Rule.name_injective (hi.symm.trans hi')
      obtain rfl := Option.some.inj (hr.symm.trans hr')
      exact h
  rw [← hown]
  exact everywhere_step

/-- A step of another rule is possible at any type. -/
theorem possible_step_of_own_eq_none (hi : i.rule = r.name) (hr : r.own? = none) :
    (Proof.step i ps).Possible ↔ ∀ q ∈ ps, q.Possible := by
  have hown : i.Possible := by
    intro r' A' hi' hr'
    obtain rfl := Rule.name_injective (hi.symm.trans hi')
    cases hr.symm.trans hr'
  rw [Possible, everywhere_step, and_iff_right hown]
  rfl

theorem possible_lookup (l : Lookup) : (Proof.lookup l).Possible := everywhere_lookup l

end Proof

/-! ### Steps that both calculi have -/

namespace Rule

variable {conclude : Signature → Judgment} {expected : Signature} {inner : Bool}

/-- A literal that is not flagged shows its own type. -/
theorem possible_literal (hc : ∀ type, (conclude type).type = type) {r : Rule} {own : BaseType}
    (hr : r.own? = some own) (showsExpected : Bool) :
    (literal r.name own showsExpected expected conclude).Possible := by
  refine (Proof.possible_step_iff rfl hr).2 ⟨fun hs => ?_, by simp⟩
  have hfit : expected = [] ∨ expected = [own] := by simpa using hs
  simp [hc, hfit]

theorem possible_conditionalStep {pc pt pr : Proof} :
    (conditionalStep conclude expected inner pc pt pr).Possible ↔
      pc.Possible ∧ pt.Possible ∧ pr.Possible := by
  rw [conditionalStep, Proof.possible_step_of_own_eq_none (r := .cond) rfl rfl]
  simp

theorem possible_bracketedStep {calculus : Calculus} {q : Proof} :
    (bracketedStep calculus conclude expected q).Possible ↔ q.Possible := by
  rw [bracketedStep, Proof.possible_step_of_own_eq_none (r := .brackets calculus) rfl rfl]
  simp

/-- The rule of an operator decides that it has the type of the operator's result. -/
theorem own?_unary (op : UnaryOp) : op.rule.own? = some op.result := by
  cases op <;> rfl

end Rule

/-! ### The lambda calculus -/

namespace Lambda

variable {signature : Option Signature} {first second run : Run} {expected : Signature}
  {inner : Bool} {p q : Proof}

/-- An operator that is not flagged shows the type of its result. -/
theorem possible_unaryStep (op : UnaryOp) (hq : q.Possible) :
    (unaryStep op (conclude run) expected q).Possible := by
  have hown := Rule.own?_unary op
  have hps : ∀ r ∈ [q], r.Possible := by simpa using hq
  cases op with
  | succ | pred =>
      refine (Proof.possible_step_iff rfl hown).2 ⟨fun hs => ?_, hps⟩
      simpa [conclude, UnaryOp.result] using hs
  | iszero =>
      refine (Proof.possible_step_iff rfl hown).2 ⟨fun hs => ?_, hps⟩
      by_cases he : expected = []
      · simp [conclude, he, UnaryOp.result]
      · simpa [conclude, he, UnaryOp.result] using hs

/-- **All steps of a lambda derivation are possible or flagged.** -/
theorem Derives.possible (h : Derives signature first second expected inner p) : p.Possible := by
  have hlookup (l : Lookup) : ∀ q ∈ [Proof.lookup l], q.Possible := by
    simpa using Proof.possible_lookup l
  induction h with
  | abs _ _ ih =>
      exact (Proof.possible_step_of_own_eq_none (r := .abs) rfl rfl).2 (by simpa using ih)
  | app _ _ _ _ _ iha ihf =>
      exact (Proof.possible_step_of_own_eq_none (r := .app) rfl rfl).2 (by simpa using ⟨ihf, iha⟩)
  | var | fn => exact (Proof.possible_step_of_own_eq_none (r := .var) rfl rfl).2 (hlookup _)
  | truth => exact Rule.possible_literal (r := .truth) (fun _ => rfl) rfl _
  | falsity => exact Rule.possible_literal (r := .falsity) (fun _ => rfl) rfl _
  | zero => exact Rule.possible_literal (r := .zero) (fun _ => rfl) rfl _
  | @unary op _ _ _ _ _ _ _ _ ih => exact possible_unaryStep op ih
  | cond _ _ _ _ _ _ ihc iht ihr => exact Rule.possible_conditionalStep.2 ⟨ihc, iht, ihr⟩
  | bracketed _ _ _ _ _ ih => exact Rule.possible_bracketedStep.2 ih

end Lambda

/-! ### Arithmetic -/

/-- Somewhere in the expression, if it is derived against the expected type, a `succ` or
`pred` is derived against a type other than `Nat` and its operand ends in `0`. -/
def Expr.Overlooks : Expr → Signature → Prop
  | .truth, _ => False
  | .falsity, _ => False
  | .zero, _ => False
  | .var _, _ => False
  | .unary op e, expected =>
    (op.result = .nat ∧ expected ≠ [] ∧ expected ≠ .nat ∧ e.tip = some .nat) ∨
      e.Overlooks (op.demand expected)
  | .cond c t r, expected => c.Overlooks .bool ∨ t.Overlooks expected ∨ r.Overlooks expected
  | .bracketed e, expected => e.Overlooks expected

namespace Arithmetic

variable {style : Presentation} {run : Run} {expected : Signature} {inner : Bool} {p q : Proof}

/-- An operator that is not flagged shows the type of its result, unless that is `Nat` and
the operand is taken for a `Nat` where another type is expected. -/
theorem possible_unaryStep {op : UnaryOp} :
    (unaryStep op (conclude style run) expected q).Possible ↔
      ¬ (op.result = .nat ∧ expected ≠ [] ∧ expected ≠ .nat ∧ q.type = .nat) ∧ q.Possible := by
  have hown := Rule.own?_unary op
  cases op with
  | succ | pred =>
      refine (Proof.possible_step_iff rfl hown).trans ?_
      rw [List.forall_mem_singleton]
      refine and_congr_left fun _ => ?_
      by_cases he : expected = []
      · simp [he, conclude, UnaryOp.result]
      · by_cases hn : expected = .nat <;> simp [he, hn, conclude, UnaryOp.result]
  | iszero =>
      refine (Proof.possible_step_iff rfl hown).trans ?_
      rw [List.forall_mem_singleton]
      refine and_congr_left fun _ => ?_
      by_cases he : expected = [] <;> simp [he, conclude, UnaryOp.result]

/-- Against another type than `Nat` a derivation hands on `Nat` exactly if the expression it
reads ends in `0`: a step that makes its own type hands on the expected one. -/
theorem Derives.type_eq_nat_iff (h : Derives style run expected inner p) (hne : expected ≠ [])
    (hnat : expected ≠ .nat) :
    ∃ e, Reads .arithmetic run e ∧ (p.type = .nat ↔ e.tip = some .nat) := by
  induction h with
  | truth hb => exact ⟨.truth, .truth fun _ => hb, by simp [Rule.literal, Expr.tip]⟩
  | falsity hb => exact ⟨.falsity, .falsity fun _ => hb, by simp [Rule.literal, Expr.tip]⟩
  | zero hb => exact ⟨.zero, .zero fun _ => hb, by simp [Rule.literal, Expr.tip]⟩
  | @unary op _ _ _ q hq =>
      obtain ⟨e, hread, -⟩ := hq.reads
      refine ⟨.unary op e, .unary rfl hread, ?_⟩
      cases op with
      | succ | pred =>
          by_cases hn : q.type = .nat <;>
            simp [unaryStep, arithmeticStep, Expr.tip, hne, hnat, hn]
      | iszero => simp [unaryStep, iszeroStep, Expr.tip, hne, hnat]
  | cond hs hc _ hr _ _ iht _ =>
      obtain ⟨c, hreadc, -⟩ := hc.reads
      obtain ⟨t, hreadt, ht⟩ := iht hne hnat
      obtain ⟨r, hreadr, -⟩ := hr.reads
      exact ⟨.cond c t r, .cond hs hreadc hreadt hreadr, ht⟩
  | bracketed hlast hq =>
      obtain ⟨e, hread, -⟩ := hq.reads
      refine ⟨.bracketed e, .bracketed rfl hlast hq.balance_eq_zero hread, ?_⟩
      simp [Rule.bracketedStep, Expr.tip, hne, hnat]

/-- **All steps of an arithmetic derivation are possible or flagged exactly if nothing is
overlooked** in the expression that it reads. -/
theorem Derives.possible_iff (h : Derives style run expected inner p) :
    ∃ e, Reads .arithmetic run e ∧ (p.Possible ↔ ¬ e.Overlooks expected) := by
  induction h with
  | truth hb =>
      refine ⟨.truth, .truth fun _ => hb, iff_of_true ?_ id⟩
      exact Rule.possible_literal (r := .truth) (fun _ => rfl) rfl _
  | falsity hb =>
      refine ⟨.falsity, .falsity fun _ => hb, iff_of_true ?_ id⟩
      exact Rule.possible_literal (r := .falsity) (fun _ => rfl) rfl _
  | zero hb =>
      refine ⟨.zero, .zero fun _ => hb, iff_of_true ?_ id⟩
      exact Rule.possible_literal (r := .zero) (fun _ => rfl) rfl _
  | @unary op _ expected _ q hq ih =>
      obtain ⟨e, hread, hiff⟩ := ih
      refine ⟨.unary op e, .unary rfl hread, ?_⟩
      rw [possible_unaryStep, hiff, Expr.Overlooks, not_or]
      refine and_congr_left fun _ => not_congr ?_
      refine and_congr_right fun hop => and_congr_right fun hne => and_congr_right fun hnat => ?_
      -- Only `succ` and `pred` are left, and they pass the expected type on.
      have hd : op.demand expected = expected := by
        cases op with
        | succ | pred => rfl
        | iszero => cases hop
      rw [hd] at hq
      obtain ⟨e', hread', htip⟩ := hq.type_eq_nat_iff hne hnat
      rw [htip, hread.unique hread']
  | cond hs _ _ _ _ ihc iht ihr =>
      obtain ⟨c, hreadc, hc⟩ := ihc
      obtain ⟨t, hreadt, ht⟩ := iht
      obtain ⟨r, hreadr, hr⟩ := ihr
      refine ⟨.cond c t r, .cond hs hreadc hreadt hreadr, ?_⟩
      rw [Rule.possible_conditionalStep, hc, ht, hr, Expr.Overlooks, not_or, not_or]
  | bracketed hlast hq ih =>
      obtain ⟨e, hread, hiff⟩ := ih
      refine ⟨.bracketed e, .bracketed rfl hlast hq.balance_eq_zero hread, ?_⟩
      rw [Rule.possible_bracketedStep, hiff, Expr.Overlooks]

end Arithmetic

/-! ### Both calculi -/

/-- **Steps that are not flagged and their types.**  In every derivation that the lambda
calculus finds, a literal or an operator that is not flagged concludes the type of its rule.
In a derivation that arithmetic finds this holds exactly if nothing is overlooked in the
expression that is read off the run: no `succ` or `pred` in it that is derived against a
type other than `Nat` has an operand that ends in `0`. -/
theorem exact_steps_conclude_possible_types (s : Settings) (signature : Option Signature)
    (first second : Run) (inner : Bool) (style : Presentation) (run : Run)
    (expected : Signature) :
    (∀ p, (Lambda.tree s signature first second expected inner).outcome = .ok p → p.Possible) ∧
      ∀ p, (Arithmetic.tree s style run expected).outcome = .ok p →
        ∃ e, Reads .arithmetic run e ∧ (p.Possible ↔ ¬ e.Overlooks expected) := by
  constructor
  · intro p hp
    exact (Lambda.derive_eq_ok_iff.1 hp).1.possible
  · intro p hp
    exact (Arithmetic.derive_eq_ok_iff.1 hp).1.possible_iff

/-- The expression `if succ 0 then 0 else 0`, whose condition is a number. -/
def numberCondition : Expr := .cond (.unary .succ .zero) .zero .zero

theorem exact_steps_of_numberCondition :
    ∃ p q, (Lambda.tree {} none numberCondition.run [] [] false).outcome = .ok p ∧
      (Arithmetic.tree {} .sequent numberCondition.run []).outcome = .ok q ∧
      p.Possible ∧ ¬ q.Possible := by
  obtain ⟨hlambda, harithmetic⟩ := exact_steps_conclude_possible_types {} none
    numberCondition.run [] false .sequent numberCondition.run []
  refine ⟨_, _, rfl, rfl, hlambda _ rfl, fun hq => ?_⟩
  obtain ⟨e, hread, hiff⟩ := harithmetic _ rfl
  obtain rfl := hread.eq_of_run
  exact hiff.1 hq (.inl (.inl ⟨rfl, by decide, by decide, rfl⟩))

/-- **Arithmetic leaves an impossible step without a flag**: against `Bool` it derives
`succ 0` by a step that shows `Bool` and is not flagged. -/
theorem exact_succ_at_bool :
    ¬ ∀ s style run expected p, (Arithmetic.tree s style run expected).outcome = .ok p →
      p.Possible := by
  intro h
  have hp := h {} .sequent [.word .succ, .word .zero] .bool _ rfl
  cases hp _ _ (Proof.mem_subproofs_step.2 (.inl rfl)) .succ .nat rfl rfl rfl

end TypeDeduction

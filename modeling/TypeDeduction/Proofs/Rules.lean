/-
# When the shared rules succeed

For each rule that both calculi have, an inversion lemma says what a success
consists of: the parts that were derived, against which types, and the step that
was built over them.  Read from right to left it builds the success again.  The
steps themselves come with lemmas that say when they fit a base type, so that no
proof about derivations looks into them.
-/

import TypeDeduction.Proof.Rule
import TypeDeduction.Proofs.Brackets
import TypeDeduction.Proofs.Clauses
import TypeDeduction.Proofs.Nodes

namespace TypeDeduction

namespace Traced

/-- A computation that ends in an answer made from its first part's. -/
theorem outcome_bind_pure_eq_ok_iff {α β : Type} (x : Traced α) (f : α → β) (b : β) :
    (x >>= fun a => Pure.pure (f a)).outcome = .ok b ↔ ∃ a, x.outcome = .ok a ∧ b = f a := by
  rw [outcome_bind_eq_ok_iff]
  constructor
  · rintro ⟨a, ha, h⟩
    exact ⟨a, ha, (Except.ok.inj h).symm⟩
  · rintro ⟨a, ha, rfl⟩
    exact ⟨a, ha, rfl⟩

theorem outcome_map {α β : Type} (f : α → β) (x : Traced α) :
    (f <$> x).outcome = x.outcome.map f := by
  rw [← bind_pure_comp, outcome_bind]
  cases x.outcome <;> rfl

/-- Leaving an event does not change the outcome. -/
theorem outcome_note_bind {α : Type} (event : Event) (x : Traced α) :
    (note event >>= fun _ => x).outcome = x.outcome := by
  rw [outcome_bind, outcome_note]
  rfl

end Traced

/-- The signature leaves room for a base type: it is that type, or nothing is
expected. -/
def Signature.Admits (s : Signature) (A : BaseType) : Prop := s = [] ∨ s = [A]

@[simp]
theorem Signature.admits_singleton {A B : BaseType} : Signature.Admits [A] B ↔ A = B := by
  simp [Admits]

/-- The type that an operator's operand is derived against. -/
def UnaryOp.demand : UnaryOp → Signature → Signature
  | .iszero, _ => .nat
  | _, expected => expected

theorem UnaryOp.length_demand_le (op : UnaryOp) {expected : Signature}
    (he : expected.length ≤ 1) : (op.demand expected).length ≤ 1 := by
  cases op with
  | succ | pred => exact he
  | iszero => exact Nat.le_refl 1

namespace Rule

variable {calculus : Calculus} {conclude : Signature → Judgment} {run : Run}
  {expected : Signature} {inner : Bool} {p : Proof}

/-! ### Steps that fit -/

/-- A literal fits where its own type is admitted. -/
theorem status_literal {rule : String} {own : BaseType} {showsExpected : Bool} :
    (literal rule own showsExpected expected conclude).status = .exact ↔ expected.Admits own := by
  simp [literal, Signature.Admits]

/-- Apart from conditionals, a literal is not flagged where its own type is admitted. -/
theorem flaggedOnly_literal {r : Rule} (hr : r.name ≠ cond.name) {own : BaseType}
    {showsExpected : Bool} :
    (literal r.name own showsExpected expected conclude).FlaggedOnly .cond ↔
      expected.Admits own := by
  rw [← status_literal, literal, Proof.flaggedOnly_step_of_ne rfl hr]
  simp

theorem flaggedOnly_conditionalStep {pc pt pr : Proof} :
    (conditionalStep conclude expected inner pc pt pr).FlaggedOnly .cond ↔
      pc.FlaggedOnly .cond ∧ pt.FlaggedOnly .cond ∧ pr.FlaggedOnly .cond := by
  rw [conditionalStep, Proof.flaggedOnly_step_of_eq rfl]
  simp

theorem flaggedOnly_bracketedStep {q : Proof} :
    (bracketedStep calculus conclude expected q).FlaggedOnly .cond ↔ q.FlaggedOnly .cond := by
  rw [bracketedStep, Proof.flaggedOnly_step_of_ne rfl (by cases calculus <;> decide)]
  simp

/-- Brackets hand on the type of what they enclose where that is admitted. -/
theorem type_bracketedStep {q : Proof} {A : BaseType} (hq : q.type = [A])
    (ha : expected.Admits A) : (bracketedStep calculus conclude expected q).type = [A] := by
  rcases ha with rfl | rfl <;> simp [bracketedStep, hq]

/-! ### Rules that succeed -/

/-- A conditional run is derived if it splits, its clauses are derived and the branches'
types start alike. -/
theorem conditional_eq_ok_iff {derive : Run → Signature → Bool → Traced Proof} :
    (conditional derive conclude run expected inner).outcome = .ok p ↔
      ∃ parts pc pt pr, Conditional.split run = .ok parts ∧
        (derive parts.condition.run .bool parts.condition.nested).outcome = .ok pc ∧
        (derive parts.thenBranch.run expected parts.thenBranch.nested).outcome = .ok pt ∧
        (derive parts.elseBranch.run expected parts.elseBranch.nested).outcome = .ok pr ∧
        pt.type.head? = pr.type.head? ∧ p = conditionalStep conclude expected inner pc pt pr := by
  simp only [conditional, Traced.outcome_bind_eq_ok_iff, Traced.outcome_lift]
  constructor
  · rintro ⟨parts, hs, pc, hc, pt, ht, pr, hr, h⟩
    split at h
    · simp at h
    · rename_i heq
      exact ⟨parts, pc, pt, pr, hs, hc, ht, hr, Decidable.not_not.1 heq, (Except.ok.inj h).symm⟩
  · rintro ⟨parts, pc, pt, pr, hs, hc, ht, hr, heq, rfl⟩
    refine ⟨parts, hs, pc, hc, pt, ht, pr, hr, ?_⟩
    rw [if_neg (Decidable.not_not.2 heq), Traced.outcome_pure]

/-- A bracketed run is derived if it is long enough, balances and its inside is derived. -/
theorem bracketed_eq_ok_iff {derive : Run → Signature → Traced Proof} :
    (bracketed calculus derive conclude run expected).outcome = .ok p ↔
      3 ≤ run.length ∧ run.balance = 0 ∧ ∃ q, (derive run.strip expected).outcome = .ok q ∧
        p = bracketedStep calculus conclude expected q := by
  rw [bracketed]
  split
  · simp; omega
  · split
    · simp [*]
    · rename_i hl hb
      rw [Traced.outcome_bind_pure_eq_ok_iff]
      exact ⟨fun h => ⟨by omega, Decidable.not_not.1 hb, h⟩, fun h => h.2.2⟩

end Rule
end TypeDeduction

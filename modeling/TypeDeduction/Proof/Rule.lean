/-
# The rules both calculi have

Truth values, zero, conditionals and brackets are derived alike in the two
calculi.  A rule is told how to derive a shorter run and how to conclude about
its own run, and says only what to derive and what follows:

* A literal has a type of its own.  Against another type it is a step that does
  not fit, and its conclusion shows the expected type, except that `0` always
  shows its own.
* A conditional derives its condition against `Bool` and its branches against
  the expected type, and fails when the branches' types start differently.  An
  inner conditional does not fit where a `Nat` is expected.
* Brackets are taken off the run, and the rest is derived against the same type.
-/

import TypeDeduction.Brackets
import TypeDeduction.Conditional
import TypeDeduction.Proof
import TypeDeduction.Trace

namespace TypeDeduction
namespace Rule

/-- The axiom for a literal of type `own`. -/
def literal (rule : String) (own : BaseType) (showsExpected : Bool) (expected : Signature)
    (conclude : Signature → Judgment) : Proof :=
  let fits : Bool := expected = [] ∨ expected = [own]
  let shown : Signature := if fits ∨ ¬ showsExpected then [own] else expected
  .step ⟨rule, conclude shown, [own], .ofFit fits⟩ []

/-- The step for a conditional over the derivations of its clauses. -/
def conditionalStep (conclude : Signature → Judgment) (expected : Signature) (inner : Bool)
    (condition thenProof elseProof : Proof) : Proof :=
  let shown :=
    if (inner ∨ expected = []) ∧ thenProof.type ≠ [] then thenProof.type else expected
  .step ⟨cond.name, conclude shown, thenProof.type, .ofFit (¬ (inner ∧ expected = .nat))⟩
    [condition, thenProof, elseProof]

/-- The rule for a conditional run; `inner` says that the run is itself a clause
that holds a conditional. -/
def conditional (derive : Run → Signature → Bool → Traced Proof)
    (conclude : Signature → Judgment) (run : Run) (expected : Signature) (inner : Bool) :
    Traced Proof := do
  let parts ← Traced.lift (Conditional.split run)
  let condition ← derive parts.condition.run .bool parts.condition.nested
  let thenProof ← derive parts.thenBranch.run expected parts.thenBranch.nested
  let elseProof ← derive parts.elseBranch.run expected parts.elseBranch.nested
  if thenProof.type.head? ≠ elseProof.type.head? then
    Traced.fail (.branchMismatch thenProof.type elseProof.type)
  else return conditionalStep conclude expected inner condition thenProof elseProof

/-- The step for brackets over the derivation of what they enclose. -/
def bracketedStep (calculus : Calculus) (conclude : Signature → Judgment) (expected : Signature)
    (inner : Proof) : Proof :=
  let shown := if expected = [] then inner.type else expected
  .step ⟨(brackets calculus).name, conclude shown, shown, .exact⟩ [inner]

/-- The rule for a run that starts with a left bracket. -/
def bracketed (calculus : Calculus) (derive : Run → Signature → Traced Proof)
    (conclude : Signature → Judgment) (run : Run) (expected : Signature) : Traced Proof :=
  if run.length < 3 then Traced.fail (.bracketsTooShort calculus)
  else if run.balance ≠ 0 then Traced.fail (.bracketsUnbalanced calculus run.balance)
  else do
    let inner ← derive run.strip expected
    return bracketedStep calculus conclude expected inner

end Rule
end TypeDeduction

/-
# The arithmetic calculus

Runs of `true`, `false`, `0`, `succ`, `pred`, `iszero`, conditionals and brackets
are derived by looking at the first token and deriving what is left of the run
after the rule has taken its part.  A rule is handed the type expected of the run;
the unconstrained type asks it to infer one.

| head | operand against | type handed on |
| --- | --- | --- |
| `succ`, `pred` | the expected type | the shown type when it fits, else the operand's |
| `iszero` | `Nat` | the expected type, `Bool` if there is none |

A run is refused before any rule is tried if it is empty, if its brackets do not
balance, or if no level is left, in this order.
-/

import TypeDeduction.Depth
import TypeDeduction.Proof.Rule
import TypeDeduction.Settings

namespace TypeDeduction
namespace Arithmetic

/-- The judgment that a run has a type. -/
def conclude (style : Presentation) (run : Run) (type : Signature) : Judgment :=
  { subject := run.subject, type, turnstile := style.turnstile }

/-- The step for `succ` and `pred` over the derivation of the operand: it fits if the
expected type or the operand's own is `Nat`. -/
def arithmeticStep (op : UnaryOp) (conclude : Signature → Judgment) (expected : Signature)
    (operand : Proof) : Proof :=
  let fits : Bool := expected = .nat ∨ operand.type = .nat
  let shown := if expected = [] then operand.type else expected
  .step ⟨op.rule.name, conclude shown, if fits then shown else operand.type, .ofFit fits⟩ [operand]

/-- The rule for `succ` and `pred`: the operand has the expected type. -/
def arithmetic (op : UnaryOp) (derive : Run → Signature → Traced Proof)
    (conclude : Signature → Judgment) (operands : Run) (expected : Signature) : Traced Proof :=
  if operands = [] then Traced.fail (.missingOperand op)
  else do
    let operand ← derive operands expected
    return arithmeticStep op conclude expected operand

/-- The step for `iszero` over the derivation of the operand: it fits where a `Bool`
or nothing in particular is expected. -/
def iszeroStep (conclude : Signature → Judgment) (expected : Signature) (operand : Proof) :
    Proof :=
  let shown := if expected = [] then .bool else expected
  .step ⟨Rule.iszero.name, conclude shown, shown, .ofFit (expected = [] ∨ expected = .bool)⟩
    [operand]

/-- The rule for `iszero`: the operand is a `Nat`. -/
def iszero (derive : Run → Signature → Traced Proof) (conclude : Signature → Judgment)
    (operands : Run) (expected : Signature) : Traced Proof :=
  if operands = [] then Traced.fail (.missingOperand .iszero)
  else do
    let operand ← derive operands .nat
    return iszeroStep conclude expected operand

/-- The rule that a run's first token calls for. -/
def dispatch (style : Presentation) (derive : Run → Signature → Bool → Traced Proof)
    (head : Token) (rest : Run) (expected : Signature) (inner : Bool) : Traced Proof :=
  let run := head :: rest
  let conclude := conclude style run
  let operand := fun run expected => derive run expected false
  match head with
  | .word .truth => return Rule.literal Rule.truth.name .bool true expected conclude
  | .word .falsity => return Rule.literal Rule.falsity.name .bool true expected conclude
  | .word .zero => return Rule.literal Rule.zero.name .nat false expected conclude
  | .word .succ => arithmetic .succ operand conclude rest expected
  | .word .pred => arithmetic .pred operand conclude rest expected
  | .word .iszero => iszero operand conclude rest expected
  | .word .cond => Rule.conditional derive conclude run expected inner
  | .word .lparen => Rule.bracketed .arithmetic operand conclude run expected
  | head => Traced.fail (.undefinedHead .arithmetic head.kind)

/-- The derivation of a run with a number of levels left. -/
def derive (limit : Int) (style : Presentation) (left : Nat) (run : Run)
    (expected : Signature) (inner : Bool) : Traced Proof :=
  match run with
  | [] => Traced.fail .emptyExpression
  | head :: rest =>
    if Run.balance (head :: rest) ≠ 0 then
      Traced.fail (.bracketsMismatch (Run.balance (head :: rest)))
    else
      match left with
      | 0 => Traced.fail (.tooDeep limit)
      | left + 1 => do
        Traced.note (.dispatch .arithmetic head.kind expected (Depth.reached limit left))
        dispatch style (derive limit style left) head rest expected inner

/-- The derivation of a run against an expected type. -/
def tree (s : Settings) (style : Presentation) (run : Run) (expected : Signature) :
    Traced Proof :=
  derive s.maxDepth style (Depth.levels s.maxDepth) run expected false

/-- A run as entered, cut before the ascription that ends it. -/
def splitAscription (run : Run) : Except Failure (Run × BaseType) :=
  if run.length < 2 then .error .ascriptionRequired
  else
    match run.getLast? with
    | some (.ascription b) => .ok (run.dropLast, b)
    | _ => .error .ascriptionMissing

end Arithmetic
end TypeDeduction

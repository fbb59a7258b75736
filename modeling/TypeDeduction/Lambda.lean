/-
# The lambda calculus

A lambda expression comes as one run or as two, a function and its argument.  The
absence of the second run and an empty second run are the same.  What is derived
next depends on the two runs in this order:

1. a run with an unbound variable stands for an abstraction over it;
2. two runs stand for an application;
3. a single run is derived by the rule that its first token calls for.

An abstraction takes the first type off the expected signature for its variable
and derives the body against the rest.  An application derives the argument
first, against the expected type, and then the function against that type with
the argument's type in front.  A variable fits if its declared type is the one
expected, and its lookup fits if the context gives it the declared type.

The depth limit is checked before anything else.
-/

import TypeDeduction.Depth
import TypeDeduction.Proof.Rule
import TypeDeduction.Scope
import TypeDeduction.Settings

namespace TypeDeduction
namespace Lambda

/-- The judgment that a run has a type in a context, under a binder for each of its
free variables. -/
def conclude (run : Run) (type : Signature) : Judgment :=
  { subject := run.subject, type, turnstile := contextTurnstile, binders := run.binders }

/-- The step for an abstraction over the derivation of its body; the conclusion still
lists the variable that is bound among its binders. -/
def abstractionStep (first second : Run) (domain : BaseType) (expected : Signature)
    (body : Proof) : Proof :=
  .step
    ⟨Rule.abs.name, conclude (first ++ second) expected,
      if body.type = [] then expected else domain :: body.type, .exact⟩
    [body]

/-- The rule for an abstraction. -/
def abstraction (derive : Run → Run → Signature → Traced Proof) (first second : Run)
    (expected : Signature) : Traced Proof :=
  match expected with
  | domain :: result :: rest => do
    let body ← Traced.lift (Abstraction.of first (if second = [] then none else some second) domain)
    Traced.note (.binding body.bound.name domain)
    let proof ← derive body.first (body.second.getD []) (result :: rest)
    return abstractionStep first second domain expected proof
  | _ => Traced.fail (.notFunctionType expected)

/-- The type expected of a function whose argument has the given type: the
argument's first type in front of the expected one, when there are both. -/
def functionType (argument expected : Signature) : Signature :=
  match argument, expected with
  | domain :: _, _ :: _ => domain :: expected
  | _, _ => expected

/-- The step for an application over the derivations of function and argument; its own
type is left open. -/
def applicationStep (first second : Run) (expected : Signature) (function argument : Proof) :
    Proof :=
  let shown := if expected = [] then function.type.tail else expected
  .step ⟨Rule.app.name, conclude (first ++ second) shown, [], .exact⟩ [function, argument]

/-- The rule for an application. -/
def application (derive : Run → Signature → Traced Proof) (first second : Run)
    (expected : Signature) : Traced Proof := do
  let argument ← derive second expected
  let function ← derive first (functionType argument.type expected)
  return applicationStep first second expected function argument

/-- The step for a variable with its declared type, over the lookup in the context. -/
def occurrenceStep (v : Variable) (declared : BaseType) (expected : Signature) : Proof :=
  let fits : Bool := expected = [] ∨ expected = [declared]
  let found : Bool := v.context = some declared
  .step
    ⟨Rule.var.name, { subject := [v.name], type := [declared], turnstile := contextTurnstile },
      [declared], .ofFit fits⟩
    [.lookup ⟨v.name, [v.context.getD declared], .ofFit (found ∨ ¬ fits)⟩]

/-- The rule for a variable. -/
def occurrence (v : Variable) (expected : Signature) : Except Failure Proof :=
  match v.declared with
  | none => .error (.untypedVariable v.name)
  | some declared => .ok (occurrenceStep v declared expected)

/-- The step for the opaque function, over the lookup of its signature. -/
def functionStep (type expected : Signature) : Proof :=
  let fits : Bool := expected = [] ∨ (expected.length = 2 ∧ expected = type)
  let shown := if expected = [] then type else expected
  let name := Token.fn.markup
  .step
    ⟨Rule.var.name, { subject := [name], type := shown, turnstile := contextTurnstile },
      type, .ofFit fits⟩
    [.lookup ⟨name, type, .exact⟩]

/-- The rule for the opaque function, which must be the whole run. -/
def function (signature : Option Signature) (rest : Run) (expected : Signature) :
    Except Failure Proof :=
  match signature with
  | none => .error .noSignature
  | some type =>
    if rest ≠ [] then .error .functionNotAlone
    else .ok (functionStep type expected)

/-- The step for `succ` and `pred` over the derivation of the operand: it fits at
`Nat`, expected or inferred. -/
def arithmeticStep (op : UnaryOp) (conclude : Signature → Judgment) (expected : Signature)
    (operand : Proof) : Proof :=
  let shown := if expected = [] ∧ operand.type.isBase then operand.type else expected
  .step ⟨op.rule.name, conclude shown, shown, .ofFit (shown = .nat)⟩ [operand]

/-- The rule for `succ` and `pred`: the operand has the expected type. -/
def arithmetic (op : UnaryOp) (derive : Run → Signature → Traced Proof)
    (conclude : Signature → Judgment) (operands : Run) (expected : Signature) : Traced Proof :=
  if operands = [] then Traced.fail (.missingOperand op)
  else do
    let operand ← derive operands expected
    return arithmeticStep op conclude expected operand

/-- The step for `iszero` over the derivation of the operand: it fits at `Bool`, or
with nothing expected if the operand fits. -/
def iszeroStep (conclude : Signature → Judgment) (expected : Signature) (operand : Proof) :
    Proof :=
  let shown := if expected = [] then .bool else expected
  let fits : Bool := if expected = [] then operand.type = .nat else expected = .bool
  .step ⟨Rule.iszero.name, conclude shown, shown, .ofFit fits⟩ [operand]

/-- The rule for `iszero`: the operand is a `Nat`. -/
def iszero (derive : Run → Signature → Traced Proof) (conclude : Signature → Judgment)
    (operands : Run) (expected : Signature) : Traced Proof :=
  if operands = [] then Traced.fail (.missingOperand .iszero)
  else do
    let operand ← derive operands .nat
    return iszeroStep conclude expected operand

/-- The rule that a single run's first token calls for. -/
def dispatch (signature : Option Signature) (derive : Run → Signature → Bool → Traced Proof)
    (head : Token) (rest : Run) (expected : Signature) (inner : Bool) : Traced Proof :=
  let run := head :: rest
  let conclude := conclude run
  match head with
  | .var v => Traced.lift (occurrence v expected)
  | .fn => Traced.lift (function signature rest expected)
  | .word .truth => return Rule.literal Rule.truth.name .bool true expected conclude
  | .word .falsity => return Rule.literal Rule.falsity.name .bool true expected conclude
  | .word .zero => return Rule.literal Rule.zero.name .nat false expected conclude
  | .word .succ => arithmetic .succ (fun r e => derive r e true) conclude rest expected
  | .word .pred => arithmetic .pred (fun r e => derive r e true) conclude rest expected
  | .word .iszero => iszero (fun r e => derive r e false) conclude rest expected
  | .word .cond => Rule.conditional derive conclude run expected inner
  | .word .lparen => Rule.bracketed .lambda (fun r e => derive r e false) conclude run expected
  | head => Traced.fail (.undefinedHead .lambda head.kind)

/-- The derivation of one run, or of two when the second is not empty, with a
number of levels left. -/
def derive (limit : Int) (signature : Option Signature) (left : Nat) (first second : Run)
    (expected : Signature) (inner : Bool) : Traced Proof :=
  match left with
  | 0 => Traced.fail (.tooDeep limit)
  | left + 1 =>
    if first.isAbstraction ∨ second.isAbstraction then
      abstraction (fun r₁ r₂ e => derive limit signature left r₁ r₂ e false) first second expected
    else if second ≠ [] then
      if first = [] then Traced.fail .emptyFunction
      else application (fun r e => derive limit signature left r [] e false) first second expected
    else
      match first with
      | [] => Traced.fail .emptyExpression
      | head :: rest => do
        Traced.note (.dispatch .lambda head.kind expected (Depth.reached limit left))
        dispatch signature (fun r e inner => derive limit signature left r [] e inner)
          head rest expected inner

/-- The derivation of one or two runs against an expected type, with the signature
of the opaque function if it has one. -/
def tree (s : Settings) (signature : Option Signature) (first second : Run)
    (expected : Signature) (inner : Bool) : Traced Proof :=
  derive s.maxDepth signature (Depth.levels s.maxDepth) first second expected inner

end Lambda
end TypeDeduction

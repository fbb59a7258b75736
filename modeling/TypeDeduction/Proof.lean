/-
# Proof trees

A derivation is a tree of rule applications over context lookups.  Each rule
application, an *inference*, carries two types that usually agree: the type its
conclusion shows, and the type it hands to the rule below it.  Its status says
whether the step fits what was expected of it; a step that does not fit is still
a step, so that a reader sees where the derivation goes wrong.

The views of a tree read it in pre-order, a node before its premises and the
premises from left to right.
-/

import TypeDeduction.Judgment

namespace TypeDeduction

/-- The rules of the two calculi. -/
inductive Rule where
  | truth
  | falsity
  | zero
  | succ
  | pred
  | iszero
  | cond
  | brackets (calculus : Calculus)
  | var
  | abs
  | app
  deriving DecidableEq, Repr

/-- The name a rule is cited by. -/
def Rule.name : Rule → String
  | .truth => "T-true"
  | .falsity => "T-false"
  | .zero => "T-zero"
  | .succ => "T-succ"
  | .pred => "T-pred"
  | .iszero => "T-iszero"
  | .cond => "T-if"
  | .brackets .arithmetic => "T-bra"
  | .brackets .lambda => "T-()"
  | .var => "T-var"
  | .abs => "T-abs"
  | .app => "T-app"

/-- The rule of an operator. -/
def UnaryOp.rule : UnaryOp → Rule
  | .succ => .succ
  | .pred => .pred
  | .iszero => .iszero

/-- One application of a rule, apart from its premises. -/
structure Inference where
  rule : String
  conclusion : Judgment
  /-- The type handed to the rule below. -/
  type : Signature
  status : Status := .exact
  deriving DecidableEq, Repr

/-- A derivation tree. -/
inductive Proof where
  | step (inference : Inference) (premises : List Proof)
  | lookup (l : Lookup)
  deriving Repr

/-- A node of a tree without what stands above it. -/
inductive Proof.Node where
  | inference (i : Inference)
  | lookup (l : Lookup)
  deriving DecidableEq, Repr

namespace Proof.Node

/-- The status of a node. -/
def status : Node → Status
  | .inference i => i.status
  | .lookup l => l.status

/-- The rule applied at a node, if one is. -/
def rule? : Node → Option String
  | .inference i => some i.rule
  | .lookup _ => none

end Proof.Node

namespace Proof

/-- The root of a tree. -/
def root : Proof → Node
  | .step i _ => .inference i
  | .lookup l => .lookup l

/-- The type a tree hands to the rule below it. -/
def type : Proof → Signature
  | .step i _ => i.type
  | .lookup l => l.type

/-- The status of the root. -/
def status (p : Proof) : Status := p.root.status

/-- What stands immediately above the root. -/
def premises : Proof → List Proof
  | .step _ ps => ps
  | .lookup _ => []

mutual

/-- The nodes of a tree in pre-order. -/
def nodes : Proof → List Node
  | .step i ps => .inference i :: nodesAll ps
  | .lookup l => [.lookup l]

/-- The nodes of several trees, one tree after the other. -/
def nodesAll : List Proof → List Node
  | [] => []
  | p :: ps => nodes p ++ nodesAll ps

end

/-- The names of the rules applied, in pre-order. -/
def rules (p : Proof) : List String := p.nodes.filterMap Node.rule?

/-- Whether any step or lookup does not fit. -/
def hasMismatch (p : Proof) : Bool := p.nodes.any (·.status = .mismatched)

/-- The nodes of several trees are those of each, in order. -/
theorem nodesAll_eq_flatMap (ps : List Proof) : nodesAll ps = ps.flatMap nodes := by
  induction ps with
  | nil => rfl
  | cons p ps ih => rw [nodesAll, ih, List.flatMap_cons]

/-- A step comes before the nodes of its premises. -/
theorem nodes_step (i : Inference) (ps : List Proof) :
    nodes (.step i ps) = .inference i :: ps.flatMap nodes := by
  rw [nodes, nodesAll_eq_flatMap]

end Proof
end TypeDeduction

/-
# Drafts of proofs

A tree that comes from outside may have something in the place of a node that is
neither a rule application nor a lookup.  Such a *draft* can be written like a
proof, up to the first place in post-order where a conclusion has no type or an
alien value stands.

The views of a draft read it in pre-order like those of a proof, and an alien value
that a view comes to is refused for what it lacks: a status when steps that do not
fit are looked for, which ends at the first one, and a name when all nodes are
listed.
-/

import TypeDeduction.Proof.Markup
import TypeDeduction.Scalar

namespace TypeDeduction

/-- A proof tree that may hold alien values. -/
inductive Draft where
  | step (inference : Inference) (premises : List Draft)
  | lookup (l : Lookup)
  | alien (value : Scalar)
  deriving Repr

/-- What every node has and an alien value has not. -/
inductive Draft.Feature where
  | status
  | name
  deriving DecidableEq, Repr

/-- The feature as it is named in messages. -/
def Draft.Feature.text : Feature → String
  | .status => "status"
  | .name => "name"

/-- Why a draft cannot be written or viewed. -/
inductive Draft.Fault where
  /-- A conclusion cannot be written. -/
  | failure (cause : Failure)
  /-- Something to be written is not a node. -/
  | alien (value : Scalar)
  /-- Something to be viewed is not a node. -/
  | lacking (value : Scalar) (feature : Feature)
  deriving DecidableEq, Repr

/-- What a reader is told about a fault. -/
def Draft.Fault.message : Fault → String
  | .failure cause => cause.alert.message
  | .alien value => "Cannot render unknown proof node: " ++ value.written
  | .lacking value feature =>
    "'" ++ value.sort ++ "' object has no attribute '" ++ feature.text ++ "'"

namespace Draft

mutual

/-- A draft as LaTeX. -/
def markup (s : Settings) : Draft → Except Fault String
  | .step i ds => do
    let above ← markupAll s ds
    (i.markup s above).mapError .failure
  | .lookup l => return s.mark l.status l.markup
  | .alien value => .error (.alien value)

/-- Several drafts as LaTeX, from left to right. -/
def markupAll (s : Settings) : List Draft → Except Fault (List String)
  | [] => return []
  | d :: ds => do
    let first ← markup s d
    let rest ← markupAll s ds
    return first :: rest

end

mutual

/-- The proof that a draft without alien values is. -/
def toProof? : Draft → Option Proof
  | .step i ds => do return .step i (← toProofs? ds)
  | .lookup l => some (.lookup l)
  | .alien _ => none

/-- The proofs that several drafts without alien values are. -/
def toProofs? : List Draft → Option (List Proof)
  | [] => some []
  | d :: ds => do
    let first ← toProof? d
    let rest ← toProofs? ds
    return first :: rest

end

/-- The type at the root of a draft. -/
def type : Draft → Signature
  | .step i _ => i.type
  | .lookup l => l.type
  | .alien _ => []

mutual

/-- The nodes of a draft in pre-order, an alien value in the place of one included. -/
def places : Draft → List (Except Scalar Proof.Node)
  | .step i ds => .ok (.inference i) :: placesAll ds
  | .lookup l => [.ok (.lookup l)]
  | .alien value => [.error value]

/-- The nodes of several drafts, one draft after the other. -/
def placesAll : List Draft → List (Except Scalar Proof.Node)
  | [] => []
  | d :: ds => places d ++ placesAll ds

end

/-- Whether a node does not fit, looked for from the first to the first found. -/
def anyMismatched : List (Except Scalar Proof.Node) → Except Fault Bool
  | [] => .ok false
  | .ok n :: rest => if n.status = .mismatched then .ok true else anyMismatched rest
  | .error value :: _ => .error (.lacking value .status)

/-- Whether any step or lookup does not fit. -/
def hasMismatch (d : Draft) : Except Fault Bool := anyMismatched d.places

/-- The nodes of a draft in pre-order, if all of them are. -/
def nodes (d : Draft) : Except Fault (List Proof.Node) :=
  d.places.mapM fun place => place.mapError (.lacking · .name)

/-- The names of the rules applied, in pre-order; alien values apply none. -/
def rules (d : Draft) : List String :=
  d.places.filterMap fun place => place.toOption.bind Proof.Node.rule?

/-- Whether the root is a step or lookup that does not fit. -/
def rootMismatched : Draft → Bool
  | .step i _ => i.status = .mismatched
  | .lookup l => l.status = .mismatched
  | .alien _ => false

end Draft
end TypeDeduction

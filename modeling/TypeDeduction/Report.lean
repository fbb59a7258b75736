/-
# Reports

A caller who wants no failures asks for a *report*: the LaTeX of the derivation,
its type and its tree if all went well, and otherwise a blank proof, no type and
no tree.  A listener is told the code of the failure without its detail, and the
trace ends with an event for a failure or for steps that do not fit.  A
derivation whose conclusion cannot be written counts as failed.
-/

import TypeDeduction.Arithmetic
import TypeDeduction.Lambda
import TypeDeduction.Proof.Markup

namespace TypeDeduction

/-- What comes of a derivation. -/
structure Report where
  /-- The LaTeX of the derivation. -/
  proof : String
  type : Signature
  /-- The derivation, unless it failed. -/
  tree : Option Proof
  /-- What a listener is told. -/
  notices : List String
  /-- What happened on the way. -/
  events : List Event

namespace Report

/-- The report of a failure after the given events. -/
def ofAlert (events : List Event) (a : Alert) : Report :=
  { proof := " ", type := [], tree := none, notices := [a.code.message],
    events := events ++ [.failed a] }

/-- The report of a finished tree, if it can be written. -/
def ofProof (s : Settings) (events : List Event) (p : Proof) : Except Failure Report := do
  let markup ← p.markup s
  return { proof := markup, type := p.type, tree := some p, notices := [],
           events := events ++ if p.hasMismatch then [.flagged p.type] else [] }

/-- The report of a traced derivation. -/
def ofTraced (s : Settings) (x : Traced Proof) : Report :=
  match x.outcome.bind (ofProof s x.events) with
  | .ok report => report
  | .error e => ofAlert x.events e.alert

/-- Whether the derivation failed. -/
def failed (r : Report) : Bool := r.tree.isNone

end Report

namespace Arithmetic

/-- The report of a run against an expected type. -/
def report (s : Settings) (style : Presentation) (run : Run) (expected : Signature) : Report :=
  Report.ofTraced s (tree s style run expected)

/-- The report of a run as entered, against the ascription that ends it. -/
def reportAscribed (s : Settings) (style : Presentation) (run : Run) : Report :=
  match splitAscription run with
  | .ok (body, b) => report s style body [b]
  | .error e => Report.ofAlert [] e.alert

end Arithmetic

namespace Lambda

/-- The report of one or two runs against an expected type. -/
def report (s : Settings) (signature : Option Signature) (first second : Run)
    (expected : Signature) (inner : Bool) : Report :=
  Report.ofTraced s (tree s signature first second expected inner)

end Lambda
end TypeDeduction

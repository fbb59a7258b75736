/-
# Inspecting a draft

To *inspect* a draft is to list what its views show and what comes of it as a
report.  The report is made first: an alien value that it comes to refuses the whole
inspection, while a conclusion without a type is part of what the inspection shows.
After that the views are read, the search for a step that does not fit before the
list of nodes.
-/

import TypeDeduction.Proof.Draft
import TypeDeduction.Report

namespace TypeDeduction

/-- What can be seen of a draft. -/
structure Inspection where
  rules : List String
  /-- Whether the root does not fit. -/
  mismatched : Bool
  /-- Whether anything does not fit. -/
  hasMismatch : Bool
  nodes : List Proof.Node
  /-- The report of the draft, or why it cannot be written. -/
  result : Except Failure Report

namespace Draft

/-- The report of a draft that can be written; its tree is the draft as a proof. -/
def report (s : Settings) (d : Draft) : Except Fault Report := do
  let markup ← d.markup s
  return { proof := markup, type := d.type, tree := d.toProof?, notices := [], events := [] }

/-- A report, or the cause that a conclusion cannot be written for; other faults
remain. -/
def settle : Except Fault Report → Except Fault (Except Failure Report)
  | .ok r => .ok (.ok r)
  | .error (.failure cause) => .ok (.error cause)
  | .error fault => .error fault

/-- What can be seen of a draft. -/
def inspect (s : Settings) (d : Draft) : Except Fault Inspection := do
  let result ← settle (d.report s)
  let hasMismatch ← d.hasMismatch
  let nodes ← d.nodes
  return { rules := d.rules, mismatched := d.rootMismatched, hasMismatch, nodes, result }

end Draft
end TypeDeduction

/-
# Proofs as LaTeX

An inference is written as a fraction, its premises above the line and its
conclusion below, with the name of the rule after it:

`\dfrac{premise \enspace premise}{conclusion} (rule)`

A node that does not fit is put between the two colour marks of the settings.
Premises are written from left to right before the conclusion below them, so
that of several conclusions without a type the first in post-order is the one
that is reported.
-/

import TypeDeduction.Proof
import TypeDeduction.Settings

namespace TypeDeduction

/-- The text of a node, between the colour marks when the node does not fit. -/
def Settings.mark (s : Settings) (status : Status) (text : String) : String :=
  match status with
  | .exact => text
  | .mismatched => s.errorColor ++ text ++ s.resetColor

/-- The LaTeX of an inference below its already written premises. -/
def Inference.markup (s : Settings) (i : Inference) (above : List String) :
    Except Failure String := do
  let below ← i.conclusion.markup
  return s.mark i.status
    ("\\dfrac\x7b" ++ gap.intercalate above ++ "\x7d\x7b" ++ below ++ "\x7d (" ++ i.rule ++ ")")

namespace Proof

mutual

/-- A proof as LaTeX. -/
def markup (s : Settings) : Proof → Except Failure String
  | .step i ps => do
    let above ← markupAll s ps
    i.markup s above
  | .lookup l => return s.mark l.status l.markup

/-- Several proofs as LaTeX, from left to right. -/
def markupAll (s : Settings) : List Proof → Except Failure (List String)
  | [] => return []
  | p :: ps => do
    let first ← markup s p
    let rest ← markupAll s ps
    return first :: rest

end

end Proof
end TypeDeduction

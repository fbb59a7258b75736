/-
# Judgments

A judgment says that a subject has a type.  Its LaTeX is the turnstile, then a
`\lambda x:A. ` for each variable that is still free in the subject, then the
subject and its type.  The turnstile is a presentation matter:

| turnstile | used by |
| --- | --- |
| ` \vdash ` | arithmetic in sequent form |
| a single space | arithmetic in bare form |
| ` \Gamma \vdash ` | the lambda calculus |

A judgment of unconstrained type has no LaTeX.  A *lookup* says that the
context gives a name a type; it always has one.
-/

import TypeDeduction.Failure

namespace TypeDeduction

/-- Whether a step of a derivation fits the type expected of it. -/
inductive Status where
  | exact
  | mismatched
  deriving DecidableEq, Repr

/-- The status of a step that fits or does not. -/
def Status.ofFit (fits : Bool) : Status := if fits then .exact else .mismatched

/-- The two ways to present an arithmetic derivation: with a turnstile in every
conclusion, or bare. -/
inductive Presentation where
  | sequent
  | bare
  deriving DecidableEq, Repr

/-- What stands before a subject that is judged without a context. -/
def Presentation.turnstile : Presentation → String
  | .sequent => " \\vdash "
  | .bare => " "

/-- What stands before a subject that is judged in a context. -/
def contextTurnstile : String := " \\Gamma \\vdash "

/-- What stands between two items in a line of LaTeX. -/
def gap : String := " \\enspace "

/-- The assertion that a subject has a type. -/
structure Judgment where
  subject : List String
  type : Signature
  turnstile : String := Presentation.sequent.turnstile
  /-- The free variables of the subject with their types. -/
  binders : List (String × BaseType) := []
  deriving DecidableEq, Repr

namespace Judgment

/-- The LaTeX of one binder. -/
def binderMarkup (b : String × BaseType) : String :=
  "\\lambda " ++ b.1 ++ ":" ++ b.2.name ++ ". "

/-- The judgment as LaTeX; there is none when the type is unconstrained. -/
def markup (j : Judgment) : Except Failure String :=
  if j.type = [] then .error (.untypedConclusion j.subject)
  else .ok (j.turnstile ++ String.join (j.binders.map binderMarkup) ++
    gap.intercalate j.subject ++ " : " ++ j.type.markup)

end Judgment

/-- The assertion that the context gives a name a type. -/
structure Lookup where
  name : String
  type : Signature
  status : Status := .exact
  deriving DecidableEq, Repr

/-- The lookup as LaTeX. -/
def Lookup.markup (l : Lookup) : String :=
  l.name ++ " : " ++ l.type.markup ++ " \\in \\Gamma"

/-- A run as LaTeX, with no type. -/
def Run.markup (style : Presentation) (run : Run) : String :=
  style.turnstile ++ gap.intercalate run.subject

end TypeDeduction

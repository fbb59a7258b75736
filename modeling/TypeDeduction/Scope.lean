/-
# Variables and their binding

Abstractions are not written in a run: a variable that no abstraction has bound
yet stands for one.  The *candidate* of a run is the variable that the next
abstraction binds, the first unbound one at or after

* the last left bracket that nothing closes, or else
* the last left bracket, or else
* the start of the run.

Binding goes by name and across both operands: every occurrence of the name is
marked as abstracted and takes the type of the context, also one that was bound
before.  The variables that a conclusion lists as binders are the unbound ones
with a declared type, each name once, at its first occurrence.
-/

import TypeDeduction.Brackets
import TypeDeduction.Failure

namespace TypeDeduction

/-- Types for names; of two entries for one name the later one counts. -/
abbrev Bindings := List (String × BaseType)

/-- The type that the bindings give a name. -/
def Bindings.find? : Bindings → String → Option BaseType
  | [], _ => none
  | (n, b) :: rest, name =>
    match find? rest name with
    | some later => some later
    | none => if n = name then some b else none

/-- Of two lists of bindings, one after the other, the later one is asked first. -/
theorem Bindings.find?_append (a b : Bindings) (name : String) :
    find? (a ++ b) name = (find? b name).or (find? a name) := by
  induction a with
  | nil => simp [find?]
  | cons entry a ih =>
      simp only [List.cons_append, find?, ih]
      cases find? b name <;> simp

/-- The token under bindings: a variable they name is bound to its type there. -/
def Token.bind (bindings : Bindings) : Token → Token
  | .var v =>
    match bindings.find? v.name with
    | some b => .var (v.bound b)
    | none => .var v
  | t => t

namespace Run

/-- The run with every variable that the bindings name bound to its type there. -/
def bind (bindings : Bindings) (run : Run) : Run := run.map (Token.bind bindings)

/-- The variable occurrences of a run. -/
def occurrences (run : Run) : List Variable := run.filterMap Token.asVariable

/-- The first occurrence of each name. -/
def firstByName : List Variable → List Variable
  | [] => []
  | v :: vs => v :: (firstByName vs).filter (·.name ≠ v.name)

/-- The unbound variables with a declared type, each name at its first such
occurrence. -/
def freeVariables (run : Run) : List Variable :=
  firstByName (run.occurrences.filter fun v => ¬ v.abstracted ∧ v.declared.isSome)

/-- The free variables with their declared types. -/
def binders (run : Run) : List (String × BaseType) :=
  run.freeVariables.filterMap fun v => v.declared.map (v.name, ·)

/-- Where the search for a variable to abstract starts. -/
def scopeStart (run : Run) : Nat :=
  (run.lastUnmatched.or run.lastOpen).getD 0

/-- The variable that the next abstraction over the run binds. -/
def candidate (run : Run) : Option Variable :=
  (occurrences (run.drop run.scopeStart)).find? fun v => ¬ v.abstracted

/-- Whether the run stands for an abstraction. -/
def isAbstraction (run : Run) : Bool := run.candidate.isSome

/-- Binding keeps the length of a run. -/
@[simp]
theorem length_bind (bindings : Bindings) (run : Run) :
    (run.bind bindings).length = run.length := by
  simp [bind]

end Run

/-- The operands of an abstraction once its variable is bound in them. -/
structure Abstraction where
  first : Run
  second : Option Run
  /-- The bound variable as it was found. -/
  bound : Variable
  deriving DecidableEq, Repr

/-- The candidate of the first operand, or else of the second, bound to the domain
in both. -/
def Abstraction.of (first : Run) (second : Option Run) (domain : BaseType) :
    Except Failure Abstraction :=
  match first.candidate.or (second.bind Run.candidate) with
  | none => .error (.noVariable second.isSome)
  | some v =>
    .ok ⟨first.bind [(v.name, domain)], second.map (Run.bind [(v.name, domain)]), v⟩

end TypeDeduction

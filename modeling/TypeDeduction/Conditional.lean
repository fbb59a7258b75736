/-
# Splitting a conditional into its clauses

A conditional run `if c then t else e` is split by counting words, not by
parsing.  The condition runs to a `then`, the first branch from there to an
`else`, and the second branch takes the rest.  A clause ends at the first stop
word, unless an `if` comes before it: then the clause is taken to hold one inner
conditional, and it ends at the *second* stop word, the first belonging to the
inner one.

A stop word that cannot be found leaves its clause *missing*; one that is the
last token of the run leaves the next clause *empty*.
-/

import TypeDeduction.Failure

namespace TypeDeduction

/-- One clause of a conditional. -/
structure Clause where
  run : Run
  /-- Whether the clause holds an inner conditional. -/
  nested : Bool
  deriving DecidableEq, Repr

/-- The words that end a clause. -/
inductive Stop where
  | thenBranch
  | elseBranch
  deriving DecidableEq, Repr

namespace Stop

/-- The token of a stop word. -/
def token : Stop → Token
  | .thenBranch => .word .thenBranch
  | .elseBranch => .word .elseBranch

/-- The failure when the stop word cannot be found. -/
def missing : Stop → Failure
  | .thenBranch => .thenMissing
  | .elseBranch => .elseMissing

/-- The failure when nothing follows the stop word. -/
def empty : Stop → Failure
  | .thenBranch => .thenEmpty
  | .elseBranch => .elseEmpty

end Stop

namespace Clause

/-- Whether an `if` comes before the first stop word. -/
def startsNested (stop : Stop) (run : Run) : Bool :=
  (run.takeWhile (· ≠ stop.token)).contains .cond

/-- The position of the stop word that ends the first clause of a run. -/
def boundary (stop : Stop) (run : Run) : Option Nat :=
  run.nthIndex stop.token.kind (if startsNested stop run then 2 else 1)

/-- The first clause of a run and what follows its stop word. -/
def take (stop : Stop) (run : Run) : Except Failure (Clause × Run) :=
  match boundary stop run with
  | none => .error stop.missing
  | some i =>
    if i + 1 = run.length then .error stop.empty
    else .ok (⟨run.take i, startsNested stop run⟩, run.drop (i + 1))

end Clause

/-- The clauses of a conditional. -/
structure Conditional where
  condition : Clause
  thenBranch : Clause
  elseBranch : Clause
  deriving DecidableEq, Repr

namespace Conditional

/-- The run after its leading `if`, which may be left out. -/
def afterIf : Run → Run
  | .cond :: run => run
  | run => run

/-- The clauses of a conditional run. -/
def split (run : Run) : Except Failure Conditional := do
  if run = [] then .error .emptyConditional
  let (condition, rest) ← Clause.take .thenBranch (afterIf run)
  let (thenBranch, rest) ← Clause.take .elseBranch rest
  return ⟨condition, thenBranch, ⟨rest, rest.contains .cond⟩⟩

end Conditional
end TypeDeduction

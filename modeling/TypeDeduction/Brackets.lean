/-
# Brackets in a run

Brackets are never matched up front; the rules ask three questions of a run.

* `balance`: how many more left brackets than right brackets there are.
* `lastUnmatched`: where the last left bracket stands that no right bracket
  closes.  A right bracket with nothing to close is ignored.
* `strip`: the run without its first left bracket and its last right bracket,
  or unchanged when the right one does not follow the left one.  The two need
  not be partners: `( 0 ) ( 0 )` strips to `0 ) ( 0`.
-/

import TypeDeduction.Token

namespace TypeDeduction
namespace Run

/-- What one token adds to the balance: a left bracket one, a right bracket minus
one, any other token nothing. -/
def weight (t : Token) : Int :=
  if t = .lparen then 1 else if t = .rparen then -1 else 0

/-- The left brackets of a run less its right brackets. -/
def balance : Run → Int
  | [] => 0
  | t :: run => weight t + balance run

/-- Every bracket of the run has its partner: no part from the start closes more
than it opens, and the whole run closes all it opens. -/
def WellNested (run : Run) : Prop :=
  balance run = 0 ∧ ∀ n, 0 ≤ balance (run.take n)

/-- One reading of a run from its end: where the last left bracket stands that no
right bracket closes, and how many right brackets have no partner to their left. -/
def unmatched : Run → Option Nat × Nat
  | [] => (none, 0)
  | t :: run =>
    match unmatched run with
    | (some i, n) => (some (i + 1), if t = .lparen then n - 1 else if t = .rparen then n + 1 else n)
    | (none, n) =>
      if t = .lparen then (if n = 0 then some 0 else none, n - 1)
      else (none, if t = .rparen then n + 1 else n)

/-- The position of the last left bracket that no right bracket closes. -/
def lastUnmatched (run : Run) : Option Nat := (unmatched run).1

/-- The right brackets of a run that have no partner to their left. -/
def surplus (run : Run) : Nat := (unmatched run).2

/-- The position of the last left bracket, closed or not. -/
def lastOpen : Run → Option Nat
  | [] => none
  | t :: run =>
    match lastOpen run with
    | some i => some (i + 1)
    | none => if t = .lparen then some 0 else none

/-- The run without its last right bracket, if it has one. -/
def dropLastClose : Run → Option Run
  | [] => none
  | t :: run =>
    match dropLastClose run with
    | some rest => some (t :: rest)
    | none => if t = .rparen then some run else none

/-- The run without its first left bracket and its last right bracket; unchanged
unless the right one stands after the left one. -/
def strip : Run → Run
  | [] => []
  | t :: run =>
    if t = .lparen then (dropLastClose run).getD (t :: run) else t :: strip run

/-- Balance adds up over the parts of a run. -/
theorem balance_append (a b : Run) : balance (a ++ b) = balance a + balance b := by
  induction a with
  | nil => simp [balance]
  | cons t a ih => simp only [List.cons_append, balance, ih]; omega

/-- A left bracket takes one right bracket off the surplus of what follows, a right
bracket adds to it. -/
theorem surplus_cons (t : Token) (run : Run) :
    surplus (t :: run) =
      if t = .lparen then surplus run - 1
      else if t = .rparen then surplus run + 1 else surplus run := by
  simp only [surplus, unmatched]
  split
  · simp_all
  · split <;> simp_all

/-- The first token is the last unmatched left bracket if it is a left bracket and
nothing after it closes it or stays open. -/
theorem lastUnmatched_cons (t : Token) (run : Run) :
    lastUnmatched (t :: run) =
      match lastUnmatched run with
      | some i => some (i + 1)
      | none => if t = .lparen ∧ surplus run = 0 then some 0 else none := by
  simp only [lastUnmatched, surplus, unmatched]
  split
  · simp_all
  · split <;> simp_all

/-- A run without right brackets is left alone. -/
theorem dropLastClose_eq_none_iff (run : Run) :
    dropLastClose run = none ↔ Token.rparen ∉ run := by
  induction run with
  | nil => simp [dropLastClose]
  | cons t run ih => rw [dropLastClose]; split <;> grind

end Run
end TypeDeduction

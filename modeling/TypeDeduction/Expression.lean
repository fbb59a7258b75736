/-
# Expressions

What a run is meant to be: the flat form of an expression of the grammar

`e ::= true | false | 0 | x | succ e | pred e | iszero e | if e then e else e | ( e )`.

The flat form loses no token but all structure; a derivation finds the structure
again by the first token, the brackets and the clause words alone.  That can
succeed only if no clause in front of a stop word holds more than one
conditional, which is what `Splittable` says.  An expression without variables
belongs to arithmetic.
-/

import TypeDeduction.Brackets
import TypeDeduction.Proof

namespace TypeDeduction

/-- An expression of the calculi. -/
inductive Expr where
  | truth
  | falsity
  | zero
  | var (v : Variable)
  | unary (op : UnaryOp) (e : Expr)
  | cond (c t r : Expr)
  | bracketed (e : Expr)
  deriving DecidableEq, Repr

/-- The word of an operator. -/
def UnaryOp.word : UnaryOp → Word
  | .succ => .succ
  | .pred => .pred
  | .iszero => .iszero

namespace Expr

/-- The flat form of an expression. -/
def run : Expr → Run
  | .truth => [.word .truth]
  | .falsity => [.word .falsity]
  | .zero => [.word .zero]
  | .var v => [.var v]
  | .unary op e => .word op.word :: e.run
  | .cond c t r =>
    .cond :: (c.run ++ .word .thenBranch :: (t.run ++ .word .elseBranch :: r.run))
  | .bracketed e => .lparen :: (e.run ++ [.rparen])

/-- The variable occurrences of an expression, from left to right. -/
def occurrences : Expr → List Variable
  | .truth => []
  | .falsity => []
  | .zero => []
  | .var v => [v]
  | .unary _ e => e.occurrences
  | .cond c t r => c.occurrences ++ (t.occurrences ++ r.occurrences)
  | .bracketed e => e.occurrences

/-- The number of conditionals in an expression. -/
def conditionals : Expr → Nat
  | .truth => 0
  | .falsity => 0
  | .zero => 0
  | .var _ => 0
  | .unary _ e => e.conditionals
  | .cond c t r => c.conditionals + t.conditionals + r.conditionals + 1
  | .bracketed e => e.conditionals

/-- No condition and no first branch holds more than one conditional. -/
def Splittable : Expr → Prop
  | .truth => True
  | .falsity => True
  | .zero => True
  | .var _ => True
  | .unary _ e => e.Splittable
  | .cond c t r =>
    c.conditionals ≤ 1 ∧ t.conditionals ≤ 1 ∧ c.Splittable ∧ t.Splittable ∧ r.Splittable
  | .bracketed e => e.Splittable

/-- The rules that derive an expression in a calculus, in pre-order. -/
def rules (calculus : Calculus) : Expr → List Rule
  | .truth => [.truth]
  | .falsity => [.falsity]
  | .zero => [.zero]
  | .var _ => [.var]
  | .unary op e => op.rule :: e.rules calculus
  | .cond c t r => .cond :: (c.rules calculus ++ (t.rules calculus ++ r.rules calculus))
  | .bracketed e => .brackets calculus :: e.rules calculus

/-- Whether an expression is splittable can be decided. -/
def decideSplittable : (e : Expr) → Decidable e.Splittable
  | .truth => .isTrue trivial
  | .falsity => .isTrue trivial
  | .zero => .isTrue trivial
  | .var _ => .isTrue trivial
  | .unary _ e => decideSplittable e
  | .cond c t r =>
    have := decideSplittable c
    have := decideSplittable t
    have := decideSplittable r
    inferInstanceAs (Decidable (_ ∧ _ ∧ _ ∧ _ ∧ _))
  | .bracketed e => decideSplittable e

instance : DecidablePred Splittable := decideSplittable

/-- The flat form has at least one token. -/
theorem run_ne_nil (e : Expr) : e.run ≠ [] := by
  cases e <;> simp [run]

/-- The flat form balances. -/
theorem balance_run (e : Expr) : e.run.balance = 0 := by
  induction e with
  | truth | falsity | zero | var => rfl
  | unary op e ih => cases op <;> simp [run, Run.balance, Run.weight, UnaryOp.word, ih]
  | cond c t r hc ht hr =>
      simp [run, Run.balance, Run.balance_append, Run.weight, hc, ht, hr]
  | bracketed e ih => simp [run, Run.balance, Run.balance_append, Run.weight, ih]

/-- The flat form has one `if` for each conditional. -/
theorem count_cond_run (e : Expr) : e.run.count .cond = e.conditionals := by
  induction e with
  | truth | falsity | zero | var => rfl
  | unary op e ih => cases op <;> simp [run, UnaryOp.word, conditionals, ih]
  | cond c t r hc ht hr => simp [run, conditionals, hc, ht, hr]; omega
  | bracketed e ih => simp [run, conditionals, ih]

end Expr
end TypeDeduction

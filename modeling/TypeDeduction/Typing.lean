/-
# Typing

The standard rules, apart from any derivation: `HasType Γ e A` says that the
expression `e` has the base type `A` when the context `Γ` gives its variables
their types.  Operators take a `Nat`, conditions are `Bool`, the branches of a
conditional share its type, and brackets change nothing.
-/

import TypeDeduction.Expression

namespace TypeDeduction

/-- What types the names have. -/
abbrev Context := String → Option BaseType

/-- The context that gives no name a type. -/
abbrev Context.empty : Context := fun _ => none

/-- The type of an operator's result. -/
def UnaryOp.result : UnaryOp → BaseType
  | .succ => .nat
  | .pred => .nat
  | .iszero => .bool

/-- The typing rules. -/
inductive HasType (Γ : Context) : Expr → BaseType → Prop where
  | truth : HasType Γ .truth .bool
  | falsity : HasType Γ .falsity .bool
  | zero : HasType Γ .zero .nat
  | var {v : Variable} {A : BaseType} (h : Γ v.name = some A) : HasType Γ (.var v) A
  | unary {op : UnaryOp} {e : Expr} (h : HasType Γ e .nat) : HasType Γ (.unary op e) op.result
  | cond {c t r : Expr} {A : BaseType} (hc : HasType Γ c .bool) (ht : HasType Γ t A)
      (hr : HasType Γ r A) : HasType Γ (.cond c t r) A
  | bracketed {e : Expr} {A : BaseType} (h : HasType Γ e A) : HasType Γ (.bracketed e) A

namespace HasType

variable {Γ : Context}

/-- **An expression has at most one type.** -/
theorem unique {e : Expr} {A B : BaseType} (hA : HasType Γ e A) (hB : HasType Γ e B) :
    A = B := by
  induction hA generalizing B with
  | truth | falsity | zero => cases hB; rfl
  | var h => cases hB with | var h' => exact Option.some.inj (h.symm.trans h')
  | unary => cases hB; rfl
  | cond _ _ _ _ iht => cases hB with | cond _ ht _ => exact iht ht
  | bracketed _ ih => cases hB with | bracketed h => exact ih h

end HasType
end TypeDeduction

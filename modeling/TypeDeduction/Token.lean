/-
# Tokens and runs

An expression arrives as a flat *run* of tokens, never as a tree.  A token is a
reserved word, a type ascription, a variable, or the name `f` of the one opaque
function:

| token | kind | LaTeX |
| --- | --- | --- |
| `true false 0 succ pred iszero if then else ( )` | the word itself | the word |
| `:Nat`, `:Bool` | `:` | `:Nat`, `:Bool` |
| a variable `x` | `var` | its name |
| the opaque function | `f` | `f` |

A variable carries the type it was declared with, whether an abstraction has
already bound it, and the type that the binding context gives it.
-/

import TypeDeduction.Signature

namespace TypeDeduction

/-- The reserved words of the calculi. -/
inductive Word where
  | truth
  | falsity
  | pred
  | succ
  | iszero
  | zero
  | cond
  | thenBranch
  | elseBranch
  | lparen
  | rparen
  deriving DecidableEq, Repr

/-- The spelling of a reserved word. -/
def Word.text : Word → String
  | .truth => "true"
  | .falsity => "false"
  | .pred => "pred"
  | .succ => "succ"
  | .iszero => "iszero"
  | .zero => "0"
  | .cond => "if"
  | .thenBranch => "then"
  | .elseBranch => "else"
  | .lparen => "("
  | .rparen => ")"

/-- The sort of a token: which word it is, or which of the other three sorts. -/
inductive Kind where
  | word (w : Word)
  | ascription
  | var
  | fn
  deriving DecidableEq, Repr

/-- The label of a kind. -/
def Kind.text : Kind → String
  | .word w => w.text
  | .ascription => ":"
  | .var => "var"
  | .fn => "f"

/-- A variable occurrence. -/
structure Variable where
  name : String
  /-- The type the occurrence was declared with, if any. -/
  declared : Option BaseType := none
  /-- Whether an abstraction has bound the occurrence. -/
  abstracted : Bool := false
  /-- The type that the binding context gives the name, if it is bound. -/
  context : Option BaseType := none
  deriving DecidableEq, Repr

/-- The occurrence once an abstraction has bound its name at type `b`. -/
def Variable.bound (v : Variable) (b : BaseType) : Variable :=
  { v with abstracted := true, context := some b }

/-- A token of a run. -/
inductive Token where
  | word (w : Word)
  | ascription (b : BaseType)
  | var (v : Variable)
  | fn
  deriving DecidableEq, Repr

/-- A flat sequence of tokens. -/
abbrev Run := List Token

namespace Token

/-- The left bracket. -/
@[match_pattern] abbrev lparen : Token := .word .lparen

/-- The right bracket. -/
@[match_pattern] abbrev rparen : Token := .word .rparen

/-- The word `if`. -/
@[match_pattern] abbrev cond : Token := .word .cond

/-- The kind of a token. -/
def kind : Token → Kind
  | .word w => .word w
  | .ascription _ => .ascription
  | .var _ => .var
  | .fn => .fn

/-- The token as LaTeX. -/
def markup : Token → String
  | .word w => w.text
  | .ascription b => ":" ++ b.name
  | .var v => v.name
  | .fn => "f"

/-- The variable that a token is an occurrence of. -/
def asVariable : Token → Option Variable
  | .var v => some v
  | _ => none

/-- A token of the arithmetic calculus, that is a reserved word or an ascription. -/
def isArithmetic : Token → Bool
  | .word _ => true
  | .ascription _ => true
  | _ => false

/-- Only a reserved word has that word's kind. -/
theorem kind_eq_word_iff (t : Token) (w : Word) : t.kind = .word w ↔ t = .word w := by
  cases t <;> simp [kind]

end Token

namespace Run

/-- The LaTeX of each token of a run. -/
def subject (run : Run) : List String := run.map Token.markup

/-- The position of the `n`-th token of a kind, counted from one; there is none
for `n ≤ 0`. -/
def nthIndex (k : Kind) : Run → Int → Option Nat
  | [], _ => none
  | t :: run, n =>
    if t.kind = k then
      if n = 1 then some 0 else (nthIndex k run (n - 1)).map (· + 1)
    else (nthIndex k run n).map (· + 1)

end Run

end TypeDeduction

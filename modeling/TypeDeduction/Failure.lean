/-
# Why a derivation fails

A derivation that cannot go on fails for one of the causes of `Failure`.  Each
cause has a numbered *code* with a fixed text, and most have a detail made from
the data of the cause.  Codes whose numbers agree up to the point belong to one
rule:

| number | about |
| --- | --- |
| `001` | the expression as a whole |
| `002` – `004` | application, abstraction, variables |
| `005` – `007` | the operand of `iszero`, `succ`, `pred` |
| `008` | the clauses of a conditional |
| `009` | the opaque function |
| `010` | bracketed expressions |
| `011` | the depth limit |

A reader sees an *alert*: the text, the number, and the detail after a colon when
there is one, as in `Brackets mismatch (#001.2): balance 1`.
-/

import TypeDeduction.Token

namespace TypeDeduction

/-- The two calculi a run can be read in: arithmetic with truth values, and that
calculus with variables, abstraction and application. -/
inductive Calculus where
  | arithmetic
  | lambda
  deriving DecidableEq, Repr

/-- The label of a calculus in trace messages. -/
def Calculus.label : Calculus → String
  | .arithmetic => "common"
  | .lambda => "stlc"

/-- A numbered error text. -/
structure Code where
  number : String
  text : String
  deriving DecidableEq, Repr

namespace Code

/-- The code as one line: the text and the number. -/
def message (c : Code) : String := c.text ++ " (#" ++ c.number ++ ")"

/-- How the texts about clauses of a conditional begin. -/
def clauseText : String :=
  "IF-THEN-ELSE syntax error. Expression has one or more errors. One of them - "

/-- There is nothing to derive. -/
def emptyExpression : Code := ⟨"001.1", "Expression error"⟩

/-- A type is missing or cannot be written. -/
def expressionType : Code := ⟨"001.1", "Expression type error"⟩

/-- A run has more brackets of one side than of the other. -/
def bracketsMismatch : Code := ⟨"001.2", "Brackets mismatch"⟩

/-- No arithmetic rule starts with the token. -/
def undefinedArithmetic : Code := ⟨"001.3", "Undefined error"⟩

/-- No lambda rule starts with the token. -/
def undefinedLambda : Code := ⟨"001.2", "Undefined error"⟩

/-- An application has no function. -/
def application : Code := ⟨"002", "T-app error"⟩

/-- An abstraction is expected to have a type that is not a function type. -/
def abstractionType : Code := ⟨"003.1", "Expression type error"⟩

/-- Neither of two operands has a variable to abstract. -/
def noVariableInEither : Code := ⟨"003.2", "T-abs type error"⟩

/-- A lone operand has no variable to abstract. -/
def noVariable : Code := ⟨"003.3", "T-abs type error"⟩

/-- A variable has no declared type. -/
def variableType : Code := ⟨"004", "T-VAR error"⟩

/-- `iszero` has no operand. -/
def iszeroOperand : Code := ⟨"005", "IS-ZERO argument error"⟩

/-- `succ` has no operand. -/
def succOperand : Code := ⟨"006", "SUCC argument error"⟩

/-- `pred` has no operand. -/
def predOperand : Code := ⟨"007", "PRED argument error"⟩

/-- There is nothing to split into clauses. -/
def conditional : Code := ⟨"008.1", "IF-THEN-ELSE syntax error"⟩

/-- A conditional has no `then`. -/
def thenMissing : Code := ⟨"008.2", clauseText ++ "THEN clause is missing"⟩

/-- Nothing follows the `then` of a conditional. -/
def thenEmpty : Code := ⟨"008.3", clauseText ++ "THEN clause is missing"⟩

/-- A conditional has no `else`. -/
def elseMissing : Code := ⟨"008.4", clauseText ++ "ELSE clause is missing"⟩

/-- Nothing follows the `else` of a conditional. -/
def elseEmpty : Code := ⟨"008.5", clauseText ++ "ELSE clause is missing"⟩

/-- The branches of a conditional have different types. -/
def branchMismatch : Code :=
  ⟨"008.6", clauseText ++ "THEN and ELSE branches don't have the same type"⟩

/-- The opaque function is followed by more tokens. -/
def functionAlone : Code := ⟨"009", "Syntax error. Expression has one or more errors."⟩

/-- A bracketed arithmetic expression is too short. -/
def bracketsArithmetic : Code := ⟨"010.1", "T-BRA syntax error"⟩

/-- A bracketed arithmetic expression is unbalanced. -/
def balanceArithmetic : Code := ⟨"010.2", "T-BRA syntax error"⟩

/-- A bracketed lambda expression is too short. -/
def bracketsLambda : Code := ⟨"010.1", "T-() syntax error"⟩

/-- A bracketed lambda expression is unbalanced. -/
def balanceLambda : Code := ⟨"010.2", "T-() syntax error"⟩

/-- The depth limit is reached. -/
def tooDeep : Code := ⟨"011", "Expression nesting too deep"⟩

end Code

/-- A code with the detail of one occurrence. -/
structure Alert where
  code : Code
  detail : Option String := none
  deriving DecidableEq, Repr

/-- The line a reader sees; a detail that is present but empty still brings its
colon. -/
def Alert.message (a : Alert) : String :=
  match a.detail with
  | none => a.code.message
  | some detail => a.code.message ++ ": " ++ detail

/-- The operators that take one numeric operand. -/
inductive UnaryOp where
  | succ
  | pred
  | iszero
  deriving DecidableEq, Repr

/-- Why a derivation, a split or a rendering cannot go on. -/
inductive Failure where
  /-- The run is empty. -/
  | emptyExpression
  /-- A conclusion about the subject is to be written, but its type is unknown. -/
  | untypedConclusion (subject : List String)
  /-- An ascribed run has fewer than two tokens. -/
  | ascriptionRequired
  /-- The last token of an ascribed run is no ascription. -/
  | ascriptionMissing
  /-- A run to be derived does not balance. -/
  | bracketsMismatch (balance : Int)
  /-- No rule of the calculus starts with a token of the kind. -/
  | undefinedHead (calculus : Calculus) (kind : Kind)
  /-- The opaque function is used, but its signature is unknown. -/
  | noSignature
  /-- An application has an argument and no function. -/
  | emptyFunction
  /-- An abstraction is expected to have a type that is not a function type. -/
  | notFunctionType (expected : Signature)
  /-- There is no variable to abstract in the operands, of which there are two or one. -/
  | noVariable (binary : Bool)
  /-- A variable has no declared type. -/
  | untypedVariable (name : String)
  /-- An operator is the last token. -/
  | missingOperand (op : UnaryOp)
  /-- There is nothing to split into clauses. -/
  | emptyConditional
  /-- A conditional has no `then`. -/
  | thenMissing
  /-- Nothing follows the `then`. -/
  | thenEmpty
  /-- A conditional has no `else`. -/
  | elseMissing
  /-- Nothing follows the `else`. -/
  | elseEmpty
  /-- The branches' types start differently. -/
  | branchMismatch (thenType elseType : Signature)
  /-- The opaque function is followed by more tokens. -/
  | functionNotAlone
  /-- A bracketed run has fewer than three tokens. -/
  | bracketsTooShort (calculus : Calculus)
  /-- A bracketed run does not balance. -/
  | bracketsUnbalanced (calculus : Calculus) (balance : Int)
  /-- The depth limit is reached. -/
  | tooDeep (limit : Int)
  deriving DecidableEq, Repr

namespace Failure

/-- The code of a cause. -/
def code : Failure → Code
  | .emptyExpression => .emptyExpression
  | .untypedConclusion _ => .expressionType
  | .ascriptionRequired => .expressionType
  | .ascriptionMissing => .expressionType
  | .bracketsMismatch _ => .bracketsMismatch
  | .undefinedHead .arithmetic _ => .undefinedArithmetic
  | .undefinedHead .lambda _ => .undefinedLambda
  | .noSignature => .undefinedLambda
  | .emptyFunction => .application
  | .notFunctionType _ => .abstractionType
  | .noVariable true => .noVariableInEither
  | .noVariable false => .noVariable
  | .untypedVariable _ => .variableType
  | .missingOperand .succ => .succOperand
  | .missingOperand .pred => .predOperand
  | .missingOperand .iszero => .iszeroOperand
  | .emptyConditional => .conditional
  | .thenMissing => .thenMissing
  | .thenEmpty => .thenEmpty
  | .elseMissing => .elseMissing
  | .elseEmpty => .elseEmpty
  | .branchMismatch _ _ => .branchMismatch
  | .functionNotAlone => .functionAlone
  | .bracketsTooShort .arithmetic => .bracketsArithmetic
  | .bracketsTooShort .lambda => .bracketsLambda
  | .bracketsUnbalanced .arithmetic _ => .balanceArithmetic
  | .bracketsUnbalanced .lambda _ => .balanceLambda
  | .tooDeep _ => .tooDeep

/-- The detail of a cause, if its code is not all there is to say. -/
def detail : Failure → Option String
  | .untypedConclusion subject => some (" ".intercalate subject)
  | .ascriptionRequired => some "expression and annotation required"
  | .ascriptionMissing => some "missing trailing type annotation"
  | .bracketsMismatch balance => some ("balance " ++ toString balance)
  | .undefinedHead _ kind => some ("cannot start with '" ++ kind.text ++ "'")
  | .noSignature => some "f has no signature"
  | .notFunctionType expected => some (expected.text ++ " is not a function type")
  | .untypedVariable name => some name
  | .branchMismatch thenType elseType => some (thenType.text ++ " vs " ++ elseType.text)
  | .functionNotAlone => some "f must stand alone"
  | .bracketsUnbalanced .lambda balance => some ("balance " ++ toString balance)
  | .tooDeep limit => some ("limit is " ++ toString limit)
  | _ => none

/-- What a reader is told about a cause. -/
def alert (f : Failure) : Alert := ⟨f.code, f.detail⟩

end Failure
end TypeDeduction

/-
# Reading words, types and expected types

Tokens and types are entered by their spelling.  What cannot be read is refused
with a message that quotes it.  A kind that is not a reserved word's, such as
`var`, is read as a kind and refused as a word.

An expected type is entered as nothing, a base type, a signature or, by mistake,
some other plain value.
-/

import TypeDeduction.Judgment
import TypeDeduction.Scalar

namespace TypeDeduction

/-- What cannot be read. -/
inductive Misread where
  /-- The text names no base type. -/
  | baseType (text : String)
  /-- The text is the label of no kind. -/
  | kind (text : String)
  /-- The text is no status. -/
  | status (text : String)
  /-- The kind is not that of a reserved word. -/
  | notWord (kind : Kind)
  /-- The value is no type. -/
  | notSignature (value : Scalar)
  /-- A signature has no entry at the position. -/
  | outOfRange (position : Int)
  deriving DecidableEq, Repr

/-- The name of a kind in messages, for the kinds that are not reserved words. -/
def Kind.constant : Kind → String
  | .word w => w.text
  | .ascription => "ANNOTATION"
  | .var => "VAR"
  | .fn => "FN"

/-- The message about something that cannot be read. -/
def Misread.message : Misread → String
  | .baseType text => Text.quoted text ++ " is not a valid BaseType"
  | .kind text => Text.quoted text ++ " is not a valid TokenKind"
  | .status text => Text.quoted text ++ " is not a valid MatchStatus"
  | .notWord k => "TokenKind." ++ k.constant ++ " is not a keyword token"
  | .notSignature value => "Not a type signature: " ++ value.written
  | .outOfRange _ => "tuple index out of range"

/-- The base type that the text names. -/
def BaseType.read (text : String) : Except Misread BaseType :=
  match BaseType.ofName? text with
  | some b => .ok b
  | none => .error (.baseType text)

/-- The statuses by their spelling. -/
def Status.read (text : String) : Except Misread Status :=
  match text with
  | "exact" => .ok .exact
  | "mismatched" => .ok .mismatched
  | _ => .error (.status text)

/-- The spelling of a status. -/
def Status.text : Status → String
  | .exact => "exact"
  | .mismatched => "mismatched"

/-- The reserved words. -/
def Word.all : List Word :=
  [.truth, .falsity, .pred, .succ, .iszero, .zero, .cond, .thenBranch, .elseBranch,
    .lparen, .rparen]

/-- The kinds of token. -/
def Kind.all : List Kind := Word.all.map .word ++ [.ascription, .var, .fn]

/-- The kind with the given label. -/
def Kind.read (text : String) : Except Misread Kind :=
  match Kind.all.find? (·.text = text) with
  | some k => .ok k
  | none => .error (.kind text)

/-- The reserved word of a kind. -/
def Kind.asWord : Kind → Except Misread Word
  | .word w => .ok w
  | k => .error (.notWord k)

/-- The token with the given spelling; a variable has none. -/
def Token.read (text : String) : Except Misread Token :=
  match text with
  | ":Nat" => .ok (.ascription .nat)
  | ":Bool" => .ok (.ascription .bool)
  | "f" => .ok .fn
  | _ => do return .word (← (← Kind.read text).asWord)

/-- An expected type as it is entered. -/
inductive Expected where
  | absent
  | base (b : BaseType)
  | signature (s : Signature)
  | other (value : Scalar)
  deriving DecidableEq, Repr

/-- An expected type entered as text: a base type, if it names one. -/
def Expected.ofText (text : String) : Expected :=
  match BaseType.ofName? text with
  | some b => .base b
  | none => .other (.text text)

/-- The signature that is meant. -/
def Expected.resolve : Expected → Except Misread Signature
  | .absent => .ok []
  | .base b => .ok [b]
  | .signature s => .ok s
  | .other value => .error (.notSignature value)

/-- The entry of a signature at a position, see `Signature.get?`. -/
def Signature.entry (s : Signature) (position : Int) : Except Misread BaseType :=
  match s.get? position with
  | some b => .ok b
  | none => .error (.outOfRange position)

/-- Every reserved word is read back from its spelling. -/
theorem Token.read_word (w : Word) : Token.read w.text = .ok (.word w) := by
  cases w <;> rfl

end TypeDeduction

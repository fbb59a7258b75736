/-
# Base types and signatures

The calculi have two base types, written `Nat` and `Bool`.  A *signature* is a
list of base types read as a curried function type whose last entry is the
result:

| signature | written | meaning |
| --- | --- | --- |
| `[]` | `?` | unconstrained: nothing is known or demanded |
| `[A]` | `A` | the base type `A` |
| `[A, B]` | `A -> B` | functions from `A` to `B` |
| `[A, B, C]` | `A -> B -> C` | functions from `A` to `B -> C` |

A domain is put in front by `::` and taken off by `List.tail`, and the type that
decides whether two branches agree is the first one, `List.head?`.
-/

namespace TypeDeduction

/-- The base types of both calculi. -/
inductive BaseType where
  | nat
  | bool
  deriving DecidableEq, Repr, Inhabited

/-- The name a base type is written by. -/
def BaseType.name : BaseType → String
  | .nat => "Nat"
  | .bool => "Bool"

/-- The base type with the given name. -/
def BaseType.ofName? : String → Option BaseType
  | "Nat" => some .nat
  | "Bool" => some .bool
  | _ => none

/-- A curried type, outermost domain first; the empty list constrains nothing. -/
abbrev Signature := List BaseType

namespace Signature

/-- The signature of the natural numbers. -/
abbrev nat : Signature := [.nat]

/-- The signature of the truth values. -/
abbrev bool : Signature := [.bool]

/-- Whether the signature is a single base type. -/
def isBase (s : Signature) : Bool := s.length == 1

/-- The signature as plain text, `?` when it constrains nothing. -/
def text (s : Signature) : String :=
  if s = [] then "?" else " -> ".intercalate (s.map BaseType.name)

/-- The signature as LaTeX. -/
def markup (s : Signature) : String :=
  " \\to ".intercalate (s.map BaseType.name)

/-- The entry at a position; a negative position counts from the end, so `-1` is
the last entry. -/
def get? (s : Signature) (i : Int) : Option BaseType :=
  if 0 ≤ i then s[i.toNat]?
  else if 0 ≤ i + s.length then s[(i + s.length).toNat]?
  else none

end Signature

end TypeDeduction

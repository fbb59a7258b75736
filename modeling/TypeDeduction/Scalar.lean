/-
# Plain values

Where a caller hands over something of no fixed type, such as a setting or a
would-be type, it is a plain value: nothing, a truth value, a whole number, a
decimal number or text.  Messages that complain about one write it out.
-/

import TypeDeduction.Text.Quoted

namespace TypeDeduction

/-- A value of no fixed type. -/
inductive Scalar where
  | null
  | bool (b : Bool)
  | int (n : Int)
  /-- The mantissa with its last `places` digits after the point. -/
  | decimal (mantissa : Int) (places : Nat)
  | text (s : String)
  deriving DecidableEq, Repr

namespace Scalar

/-- How many parts of the given number of places make one. -/
def parts (places : Nat) : Nat := Nat.pow 10 places

/-- A decimal number in positional form, with no zeros at the end of its fraction
but always one digit there. -/
def positional (mantissa : Int) (places : Nat) : String :=
  let whole := mantissa.natAbs / parts places
  let rest := mantissa.natAbs % parts places
  let digits := Nat.toDigits 10 rest
  let padded := List.replicate (places - digits.length) '0' ++ digits
  let fraction := (padded.reverse.dropWhile (· == '0')).reverse
  (if mantissa < 0 then "-" else "") ++ toString whole ++ "." ++
    (if fraction = [] then "0" else String.ofList fraction)

/-- The sort of a value as it is named in messages. -/
def sort : Scalar → String
  | .null => "NoneType"
  | .bool _ => "bool"
  | .int _ => "int"
  | .decimal _ _ => "float"
  | .text _ => "str"

/-- The value as it is written in messages. -/
def written : Scalar → String
  | .null => "None"
  | .bool true => "True"
  | .bool false => "False"
  | .int n => toString n
  | .decimal mantissa places => positional mantissa places
  | .text s => Text.quoted s

end Scalar
end TypeDeduction

/-
# Whole numbers as text

A setting may give a whole number as text: one sign or none, digits with single
underscores allowed between two of them, and perhaps a point followed by zeros
only, all of it surrounded by white space or not.

Zeros in front of a number are padding.  In the padding of a number without a minus
sign any number of underscores may follow the first zero, while the padding of a
negative number keeps to the rule for digits.  A number that is all padding is zero
and ends with a zero.

| text | number |
| --- | --- |
| `" 12 "` | 12 |
| `"-007"` | -7 |
| `"1_000"` | 1000 |
| `"0__1"`, `"+0__1"` | 1 |
| `"0__0"` | 0 |
| `"7.00"` | 7 |
| `""`, `"7."`, `".0"`, `"7.5"`, `"1__0"`, `"0_"`, `"_1"`, `"-0__1"`, `"--1"` | none |
-/

import TypeDeduction.Text.Blank

namespace TypeDeduction
namespace Numeral

/-- The value of a decimal digit. -/
def digit? (c : Char) : Option Nat :=
  if '0' ≤ c ∧ c ≤ '9' then some (c.toNat - '0'.toNat) else none

/-- The number that starts with the digits of `acc` and goes on with digits, each of
which may have one underscore before it. -/
def digitsFrom (acc : Nat) : List Char → Option Nat
  | [] => some acc
  | '_' :: c :: cs =>
    match digit? c with
    | some d => digitsFrom (acc * 10 + d) cs
    | none => none
  | c :: cs =>
    match digit? c with
    | some d => digitsFrom (acc * 10 + d) cs
    | none => none

/-- The number that a non-empty group of digits stands for. -/
def digits? : List Char → Option Nat
  | [] => none
  | c :: cs =>
    match digit? c with
    | some d => digitsFrom d cs
    | none => none

/-- Whether a character may stand in the padding of a number. -/
def isPadding (c : Char) : Bool := c == '0' || c == '_'

/-- The number that digits stand for after padding or none. -/
def padded? : List Char → Option Nat
  | '0' :: cs =>
    match cs.dropWhile isPadding with
    | [] => if ('0' :: cs).getLast? = some '0' then some 0 else none
    | rest => digits? rest
  | cs => digits? cs

/-- Whether the text after the digits is nothing or a point and zeros. -/
def isZeroFraction : List Char → Bool
  | [] => true
  | '.' :: cs => cs ≠ [] && cs.all (· == '0')
  | _ => false

/-- The number that digits and perhaps a zero fraction stand for, with a reading of
the digits. -/
def unsigned? (whole? : List Char → Option Nat) (cs : List Char) : Option Nat :=
  if isZeroFraction (cs.dropWhile (· ≠ '.')) then whole? (cs.takeWhile (· ≠ '.')) else none

/-- The number that the characters stand for, after a sign or none. -/
def signed? : List Char → Option Int
  | '-' :: cs => (unsigned? digits? cs).map fun n => -(n : Int)
  | '+' :: cs => (unsigned? padded? cs).map Int.ofNat
  | cs => (unsigned? padded? cs).map Int.ofNat

/-- The whole number that a text stands for. -/
def read? (s : String) : Option Int := signed? (Text.trim s.toList)

end Numeral
end TypeDeduction

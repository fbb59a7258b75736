/-
# Quoted text

Text is quoted so that it stands on one line and can be told from what surrounds
it.  The mark is the apostrophe, unless the text has an apostrophe and no double
quote; then it is the double quote.  Inside, a backslash stands before the mark
and before a backslash, the line feed, the carriage return and the tabulator have
letters, and any other character that is not printable is given by its code point
in hexadecimal:

| character | written |
| --- | --- |
| line feed, carriage return, tabulator | `\n`, `\r`, `\t` |
| below 256 | `\x` and two digits |
| below 65536 | `\u` and four digits |
| any other | `\U` and eight digits |
-/

import TypeDeduction.Text.Printable

namespace TypeDeduction
namespace Text

/-- The apostrophe. -/
def apostrophe : Char := Char.ofNat 39

/-- The double quote. -/
def doubleQuote : Char := Char.ofNat 34

/-- The backslash. -/
def backslash : Char := Char.ofNat 92

/-- The mark that text is quoted with. -/
def quoteMark (cs : List Char) : Char :=
  if apostrophe ∈ cs ∧ doubleQuote ∉ cs then doubleQuote else apostrophe

/-- The hexadecimal digits of a number, filled up with zeros to a width. -/
def hex (width n : Nat) : List Char :=
  let digits := Nat.toDigits 16 n
  List.replicate (width - digits.length) '0' ++ digits

/-- A character as it is written between quote marks. -/
def escape (mark c : Char) : List Char :=
  if c = mark ∨ c = backslash then [backslash, c]
  else if c = '\n' then [backslash, 'n']
  else if c = '\r' then [backslash, 'r']
  else if c = '\t' then [backslash, 't']
  else if isPrintable c then [c]
  else if c.toNat < 0x100 then backslash :: 'x' :: hex 2 c.toNat
  else if c.toNat < 0x10000 then backslash :: 'u' :: hex 4 c.toNat
  else backslash :: 'U' :: hex 8 c.toNat

/-- The text between quote marks. -/
def quoted (s : String) : String :=
  let mark := quoteMark s.toList
  String.ofList (mark :: s.toList.flatMap (escape mark) ++ [mark])

end Text
end TypeDeduction

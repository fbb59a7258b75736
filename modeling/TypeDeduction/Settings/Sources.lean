/-
# Where settings come from

A setting is looked up first among the values given with the call, then among the
environment's variables, and last among the defaults.  A variable has the name of
its setting behind a scope, as in `APP_MAX_DEPTH` for the scope `APP_`, and names
are compared without regard to the case of ASCII letters.  Where two variables
differ in case only, the later entry of the environment counts.

| setting | from a number | from text | from nothing |
| --- | --- | --- | --- |
| depth limit | the number, if it is whole | a whole number, see `Numeral` | refused |
| colours | refused | the text | refused |

All settings that are refused are listed, in the order of the table.

This is the way to make settings that the program is run with.  Sessions are told
which way to take, and nothing about them depends on this one.
-/

import TypeDeduction.Scalar
import TypeDeduction.Settings
import TypeDeduction.Settings.Numeral

namespace TypeDeduction

namespace Environment

/-- A name with its ASCII letters in lower case. -/
def fold (name : String) : List Char := name.toList.map Char.toLower

/-- The value of a variable whose name agrees up to case; the latest entry counts. -/
def find? (env : Environment) (name : String) : Option String :=
  (env.reverse.find? fun entry => fold entry.1 = fold name).map (·.2)

end Environment

namespace Settings

/-- The settings by name. -/
inductive Field where
  | maxDepth
  | errorColor
  | resetColor
  deriving DecidableEq, Repr

/-- The name of a setting. -/
def Field.name : Field → String
  | .maxDepth => "max_depth"
  | .errorColor => "error_color"
  | .resetColor => "reset_color"

/-- Why a value is refused. -/
inductive Fault where
  /-- The value should be text. -/
  | notText
  /-- The value should be a number. -/
  | notNumber
  /-- The number has a fraction. -/
  | fractional
  /-- The text is no whole number. -/
  | unreadable
  deriving DecidableEq, Repr

/-- Each setting that is refused, with the reason. -/
abbrev Faults := List (Field × Fault)

/-- A value for the depth limit; truth values count as one and zero. -/
def depthOf : Scalar → Except Fault Int
  | .int n => .ok n
  | .bool b => .ok (if b then 1 else 0)
  | .decimal mantissa places =>
    let parts : Int := Scalar.parts places
    if mantissa % parts = 0 then .ok (mantissa / parts) else .error .fractional
  | .text s =>
    match Numeral.read? s with
    | some n => .ok n
    | none => .error .unreadable
  | .null => .error .notNumber

/-- A value for a colour. -/
def colorOf : Scalar → Except Fault String
  | .text s => .ok s
  | _ => .error .notText

/-- The value for a setting, if the call or the environment has one. -/
def source (scope : String) (env : Environment) (given : List (String × Scalar)) (f : Field) :
    Option Scalar :=
  ((given.find? (·.1 = f.name)).map (·.2)).or ((env.find? (scope ++ f.name)).map .text)

/-- A setting from its value, or its default. -/
def choose {α : Type} (f : Field) (convert : Scalar → Except Fault α) (default : α)
    (value : Option Scalar) : Except (Field × Fault) α :=
  match value with
  | none => .ok default
  | some v => (convert v).mapError (f, ·)

/-- The reason that a setting is refused for, if it is. -/
def refusal {α : Type} : Except (Field × Fault) α → Faults
  | .ok _ => []
  | .error e => [e]

/-- The settings of a call in an environment. -/
def read (scope : String) : Settings.Maker Scalar Faults := fun env given =>
  let defaults : Settings := {}
  let value := source scope env given
  let depth := choose .maxDepth depthOf defaults.maxDepth (value .maxDepth)
  let error := choose .errorColor colorOf defaults.errorColor (value .errorColor)
  let reset := choose .resetColor colorOf defaults.resetColor (value .resetColor)
  match depth, error, reset with
  | .ok maxDepth, .ok errorColor, .ok resetColor => .ok { maxDepth, errorColor, resetColor }
  | _, _, _ => .error (refusal depth ++ refusal error ++ refusal reset)

end Settings
end TypeDeduction

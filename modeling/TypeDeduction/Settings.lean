/-
# Settings and the environment

A derivation is governed by how deep it may nest, and its LaTeX by the pair of
marks put around a step that does not fit: a colour command before it and one
after it that takes the colour back.

Settings are made from the variables of the environment and from values given by
name with a call.  How they are made, and when they are refused, is left open: a
way to do it is a `Settings.Maker`, and the rest of the library works with any.
-/

namespace TypeDeduction

/-- What a caller can choose. -/
structure Settings where
  /-- How many rules may stand on one path of a derivation; a limit of zero or
  less lets none stand. -/
  maxDepth : Int := 200
  /-- Put before a mismatched step. -/
  errorColor : String := "\\color\x7b#ff0000\x7d"
  /-- Put after a mismatched step. -/
  resetColor : String := "\\color\x7b#000000\x7d"
  deriving DecidableEq, Repr

/-- The environment's variables, oldest first. -/
abbrev Environment := List (String × String)

namespace Environment

/-- The environment with a variable set; one that is there keeps its place. -/
def set (name value : String) : Environment → Environment
  | [] => [(name, value)]
  | (n, v) :: rest => if n = name then (n, value) :: rest else (n, v) :: set name value rest

/-- The environment without a variable. -/
def unset (name : String) (env : Environment) : Environment :=
  env.filter (·.1 ≠ name)

/-- The value of a variable. -/
def value? (name : String) : Environment → Option String
  | [] => none
  | (n, v) :: rest => if n = name then some v else value? name rest

/-- A variable has the value that it is set to, and the others keep theirs. -/
theorem value?_set (name value other : String) (env : Environment) :
    (env.set name value).value? other = if name = other then some value else env.value? other := by
  induction env with
  | nil => rfl
  | cons entry env ih =>
      obtain ⟨n, v⟩ := entry
      rw [set]
      by_cases hn : n = name
      · rw [if_pos hn, value?, value?, hn]
        split <;> rfl
      · rw [if_neg hn, value?, value?, ih]
        by_cases ho : n = other
        · rw [if_pos ho, if_pos ho, if_neg fun hname => hn (ho.trans hname.symm)]
        · rw [if_neg ho, if_neg ho]

/-- A variable that is unset has no value, and the others keep theirs. -/
theorem value?_unset (name other : String) (env : Environment) :
    (env.unset name).value? other = if name = other then none else env.value? other := by
  induction env with
  | nil => simp [unset, value?]
  | cons entry env ih =>
      obtain ⟨n, v⟩ := entry
      rw [unset] at ih ⊢
      by_cases hn : n = name
      · rw [List.filter_cons_of_neg (by simpa using hn), ih, value?, hn]
        split <;> rfl
      · rw [List.filter_cons_of_pos (by simpa using hn), value?, value?, ih]
        by_cases ho : n = other
        · rw [if_pos ho, if_pos ho, if_neg fun hname => hn (ho.trans hname.symm)]
        · rw [if_neg ho, if_neg ho]

end Environment

/-- A way to make settings from the environment and the values given by name with a
call, or to refuse them for a reason. -/
abbrev Settings.Maker (α ε : Type) := Environment → List (String × α) → Except ε Settings

end TypeDeduction

/-
# Sessions with remembered settings

The settings of the environment are made when they are first needed and then
remembered, until they are forgotten.  Settings that are refused are not
remembered.  Settings made for one call neither use nor fill the memory.

| step | uses the memory | fills the memory |
| --- | --- | --- |
| `set`, `unset` | no | no |
| `forget` | no | empties it |
| `current` | yes | if the settings can be made |
| `fresh` | no | no |
| `derive` | yes | if the settings can be made, whatever comes of the derivation |

A session is told how settings are made.
-/

import TypeDeduction.Report
import TypeDeduction.Spelling

namespace TypeDeduction

/-- An environment and the settings remembered from it. -/
structure Session where
  environment : Environment := []
  remembered : Option Settings := none
  deriving DecidableEq, Repr

namespace Session

variable {α ε : Type}

/-- The settings made for one call. -/
def fresh (make : Settings.Maker α ε) (given : List (String × α)) (s : Session) :
    Except ε Settings :=
  make s.environment given

/-- The remembered settings, made now if there are none, and the session after. -/
def current (make : Settings.Maker α ε) (s : Session) : Except ε Settings × Session :=
  match s.remembered with
  | some known => (.ok known, s)
  | none =>
    match s.fresh make [] with
    | .ok known => (.ok known, { s with remembered := some known })
    | .error reason => (.error reason, s)

/-- What can be asked of a session. -/
inductive Step (α : Type) where
  /-- Sets a variable. -/
  | set (name value : String)
  /-- Removes a variable. -/
  | unset (name : String)
  /-- Forgets the remembered settings. -/
  | forget
  /-- Asks for the remembered settings. -/
  | current
  /-- Asks for settings made for one call. -/
  | fresh (given : List (String × α))
  /-- Asks for an arithmetic derivation under the remembered settings. -/
  | derive (run : Run) (expected : Expected) (style : Presentation := .sequent)

/-- What a session answers. -/
inductive Answer (ε : Type) where
  | done
  | settings (s : Settings)
  | report (r : Report)
  /-- The settings are refused. -/
  | refused (reason : ε)
  /-- The expected type is none. -/
  | misread (cause : Misread)

/-- Settings, or the reason that they are refused for, as an answer. -/
def Answer.ofSettings : Except ε Settings → Answer ε
  | .ok s => .settings s
  | .error reason => .refused reason

/-- The report of a run under given settings as an answer. -/
def Answer.ofRun (run : Run) (expected : Expected) (style : Presentation) :
    Except ε Settings → Answer ε
  | .error reason => .refused reason
  | .ok s =>
    match expected.resolve with
    | .error cause => .misread cause
    | .ok type => .report (Arithmetic.report s style run type)

/-- The answer to one step, and the session after it. -/
def step (make : Settings.Maker α ε) (s : Session) : Step α → Answer ε × Session
  | .set name value => (.done, { s with environment := s.environment.set name value })
  | .unset name => (.done, { s with environment := s.environment.unset name })
  | .forget => (.done, { s with remembered := none })
  | .current => (.ofSettings (s.current make).1, (s.current make).2)
  | .fresh given => (.ofSettings (s.fresh make given), s)
  | .derive run expected style =>
    (.ofRun run expected style (s.current make).1, (s.current make).2)

end Session
end TypeDeduction

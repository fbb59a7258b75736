/-
# What a session remembers

A session makes its settings when a step first asks for them, and keeps them while the
environment goes on changing.  A step can ask by itself or on behalf of a derivation.  This
module says which settings a step gets by looking at the steps before it alone, without a
memory: those of the *first reading* since the last step that forgets, that is of the first
step that asks at a moment when settings can be made from the environment, or, if there was
none, what is made of the environment now (`Session.settingsAfter`).  Nothing is assumed about
how settings are made, except that the environment and the values given with a call decide it.

One step forgets, keeps what is remembered, or makes settings where none are
(`Session.remembered_step`), and the first reading of one step more goes by the same three
cases (`Session.firstReading_append_singleton`).  So the memory holds the first reading after
any sequence of steps (`Session.remembered_after`).
-/

import TypeDeduction.Session
import Mathlib.Data.List.Basic
import Mathlib.Data.List.Induction

namespace TypeDeduction
namespace Session

variable {α ε : Type}

/-! ### Steps one after the other -/

/-- The session at its start, with nothing remembered. -/
def opened (env : Environment) : Session := { environment := env }

/-- The session after steps. -/
def after (make : Settings.Maker α ε) (s : Session) (steps : List (Step α)) : Session :=
  steps.foldl (fun s step => (s.step make step).2) s

/-- The answers to steps. -/
def answers (make : Settings.Maker α ε) (s : Session) : List (Step α) → List (Answer ε)
  | [] => []
  | step :: steps => (s.step make step).1 :: answers make (s.step make step).2 steps

/-- The answer to a step of a session, which comes after some steps and before others. -/
def answerAt (make : Settings.Maker α ε) (env : Environment) (before : List (Step α))
    (step : Step α) (later : List (Step α)) : Option (Answer ε) :=
  ((opened env).answers make (before ++ step :: later))[before.length]?

variable (make : Settings.Maker α ε) (env : Environment) (s : Session)

theorem after_append_singleton (steps : List (Step α)) (step : Step α) :
    s.after make (steps ++ [step]) = ((s.after make steps).step make step).2 := by
  rw [after, List.foldl_append]
  rfl

theorem getElem?_answers (before : List (Step α)) (step : Step α) (later : List (Step α)) :
    (s.answers make (before ++ step :: later))[before.length]? =
      some ((s.after make before).step make step).1 := by
  induction before generalizing s with
  | nil => rfl
  | cons first before ih => exact ih (s.step make first).2

/-- The answer to a step is given by the session that the steps before it leave behind. -/
theorem answerAt_eq (before : List (Step α)) (step : Step α) (later : List (Step α)) :
    answerAt make env before step later =
      some (((opened env).after make before).step make step).1 :=
  getElem?_answers make (opened env) before step later

/-! ### The first reading -/

namespace Step

/-- What a step makes of the environment. -/
def change (env : Environment) : Step α → Environment
  | .set name value => env.set name value
  | .unset name => env.unset name
  | .forget | .current | .fresh _ | .derive _ _ _ => env

/-- What a step says about the value of a variable, if it is about that variable. -/
def assigns? (name : String) : Step α → Option (Option String)
  | .set n value => if n = name then some (some value) else none
  | .unset n => if n = name then some none else none
  | .forget | .current | .fresh _ | .derive _ _ _ => none

/-- Whether a step asks for the remembered settings, for a derivation or by itself. -/
def asks : Step α → Bool
  | .current | .derive _ _ _ => true
  | .set _ _ | .unset _ | .forget | .fresh _ => false

/-- Whether a step forgets the settings. -/
def forgets : Step α → Bool
  | .forget => true
  | .set _ _ | .unset _ | .current | .fresh _ | .derive _ _ _ => false

theorem forgets_eq_false_of_asks {step : Step α} (h : step.asks = true) :
    step.forgets = false := by
  cases step with
  | current | derive => rfl
  | set | unset | forget | fresh => cases h

end Step

/-- The environment after steps. -/
def environmentAfter (steps : List (Step α)) : Environment := steps.foldl Step.change env

/-- The settings that the step at a position makes from the environment of its moment, if it
asks for them, they are not refused, and no step from there on forgets them. -/
def readingAt (steps : List (Step α)) (i : Nat) : Option Settings :=
  if steps[i]?.any Step.asks ∧ (steps.drop i).all (!·.forgets) then
    (make (environmentAfter env (steps.take i)) []).toOption
  else none

/-- The settings that are made and not forgotten, in the order of the steps that make them. -/
def readings (steps : List (Step α)) : List Settings :=
  (List.range steps.length).filterMap (readingAt make env steps)

/-- The first settings that are made and not forgotten. -/
def firstReading (steps : List (Step α)) : Option Settings := (readings make env steps).head?

/-- The settings for a step that asks for them after the given steps: those of the first
reading, and if there is none what is made of the environment now. -/
def settingsAfter (steps : List (Step α)) : Except ε Settings :=
  match firstReading make env steps with
  | some known => .ok known
  | none => make (environmentAfter env steps) []

theorem environmentAfter_append_singleton (steps : List (Step α)) (step : Step α) :
    environmentAfter env (steps ++ [step]) = step.change (environmentAfter env steps) := by
  rw [environmentAfter, List.foldl_append]
  rfl

/-- **A variable has the value that the last step about it gives**, and the one it had at the
start if no step is about it. -/
theorem value?_environmentAfter (steps : List (Step α)) (name : String) :
    (environmentAfter env steps).value? name =
      (steps.reverse.findSome? (Step.assigns? name)).getD (env.value? name) := by
  induction steps using List.reverseRecOn with
  | nil => rfl
  | append_singleton steps step ih =>
      rw [environmentAfter_append_singleton, List.reverse_append, List.reverse_singleton,
        List.singleton_append, List.findSome?_cons]
      cases step with
      | set n value =>
          rw [Step.change, Environment.value?_set, Step.assigns?, ih]
          split <;> rfl
      | unset n =>
          rw [Step.change, Environment.value?_unset, Step.assigns?, ih]
          split <;> rfl
      | forget | current | fresh | derive => exact ih

/-- A step more takes all readings away if it forgets, and else leaves them as they are. -/
theorem readingAt_append_singleton {steps : List (Step α)} {i : Nat} (h : i < steps.length)
    (step : Step α) :
    readingAt make env (steps ++ [step]) i =
      if step.forgets then none else readingAt make env steps i := by
  have hdrop : ((steps ++ [step]).drop i).all (!·.forgets) =
      ((steps.drop i).all (!·.forgets) && !step.forgets) := by
    rw [List.drop_append_of_le_length (Nat.le_of_lt h), List.all_append, List.all_cons,
      List.all_nil, Bool.and_true]
  rw [readingAt, readingAt, List.getElem?_append_left h, hdrop,
    List.take_append_of_le_length (Nat.le_of_lt h)]
  cases step.forgets <;> simp

/-- The last step makes what it asks for of the environment it comes to. -/
theorem readingAt_length (steps : List (Step α)) (step : Step α) :
    readingAt make env (steps ++ [step]) steps.length =
      if step.asks then (make (environmentAfter env steps) []).toOption else none := by
  rw [readingAt, List.getElem?_append_right (Nat.le_refl _), Nat.sub_self,
    List.getElem?_cons_zero, List.drop_left, List.take_left]
  cases step <;> simp [Step.asks, Step.forgets]

theorem readings_append_singleton (steps : List (Step α)) (step : Step α) :
    readings make env (steps ++ [step]) =
      (if step.forgets then [] else readings make env steps) ++
        (readingAt make env (steps ++ [step]) steps.length).toList := by
  have hearlier : (List.range steps.length).filterMap (readingAt make env (steps ++ [step])) =
      if step.forgets then [] else readings make env steps := by
    rw [List.filterMap_congr fun i hi =>
      readingAt_append_singleton make env (List.mem_range.1 hi) step]
    cases step.forgets with
    | true => simp
    | false => rfl
  rw [readings, List.length_append, List.length_singleton, List.range_succ,
    List.filterMap_append, hearlier]
  cases hlast : readingAt make env (steps ++ [step]) steps.length <;> simp [hlast]

/-- **The first reading after one step more**: none if the step forgets, else the one there was
before, and else what the step itself makes. -/
theorem firstReading_append_singleton (steps : List (Step α)) (step : Step α) :
    firstReading make env (steps ++ [step]) =
      if step.forgets then none
      else (firstReading make env steps).or
        (if step.asks then (make (environmentAfter env steps) []).toOption else none) := by
  rw [firstReading, readings_append_singleton, List.head?_append, Option.head?_toList,
    readingAt_length, firstReading]
  cases step <;> rfl

/-! ### The memory -/

/-- The settings that a step which asks for them gets. -/
theorem fst_current :
    (s.current make).1 =
      match s.remembered with
      | some known => .ok known
      | none => make s.environment [] := by
  rw [current, fresh]
  cases s.remembered with
  | some known => rfl
  | none => cases make s.environment [] <;> rfl

/-- Asking leaves the memory as it is or fills it with what can be made. -/
theorem snd_current :
    (s.current make).2 =
      { s with remembered := s.remembered.or (make s.environment []).toOption } := by
  obtain ⟨env, remembered⟩ := s
  rw [current, fresh]
  cases remembered with
  | some known => rfl
  | none => cases make env [] <;> rfl

theorem environment_step (step : Step α) :
    (s.step make step).2.environment = step.change s.environment := by
  cases step with
  | set | unset | forget | fresh => rfl
  | current | derive => rw [step, snd_current]; rfl

/-- **What one step does to the memory.** -/
theorem remembered_step (step : Step α) :
    (s.step make step).2.remembered =
      if step.forgets then none
      else s.remembered.or (if step.asks then (make s.environment []).toOption else none) := by
  cases step with
  | set | unset | fresh => exact (Option.or_none).symm
  | forget => rfl
  | current | derive => rw [step, snd_current]; rfl

theorem environment_after (steps : List (Step α)) :
    ((opened env).after make steps).environment = environmentAfter env steps := by
  induction steps using List.reverseRecOn with
  | nil => rfl
  | append_singleton steps step ih =>
      rw [after_append_singleton, environment_step, ih, environmentAfter_append_singleton]

/-- **The memory holds the first reading**, whatever the steps were. -/
theorem remembered_after (steps : List (Step α)) :
    ((opened env).after make steps).remembered = firstReading make env steps := by
  induction steps using List.reverseRecOn with
  | nil => rfl
  | append_singleton steps step ih =>
      rw [after_append_singleton, remembered_step, ih, environment_after,
        firstReading_append_singleton]

/-- After any steps, a step that asks gets the settings of the first reading, or what is made
of the environment now. -/
theorem current_after (steps : List (Step α)) :
    (((opened env).after make steps).current make).1 = settingsAfter make env steps := by
  rw [fst_current, remembered_after, environment_after, settingsAfter]

/-- It then leaves these settings in the memory, or nothing if they are refused. -/
theorem remembered_after_asking (steps : List (Step α)) {step : Step α} (h : step.asks = true) :
    ((opened env).after make (steps ++ [step])).remembered =
      (settingsAfter make env steps).toOption := by
  rw [remembered_after, firstReading_append_singleton, Step.forgets_eq_false_of_asks h, h,
    settingsAfter]
  cases firstReading make env steps with
  | some known => rfl
  | none => exact Option.none_or

/-! ### Sessions -/

/-- A step at this place that asks for settings is served with the given ones: it answers with
them, or with the report of a derivation under them, and leaves them in the memory. -/
structure Serves (before later : List (Step α)) (known : Settings) : Prop where
  current : answerAt make env before .current later = some (.settings known)
  derive (run : Run) (expected : Expected) (style : Presentation) (type : Signature) :
    expected.resolve = .ok type →
      answerAt make env before (.derive run expected style) later =
        some (.report (Arithmetic.report known style run type))
  misread (run : Run) (expected : Expected) (style : Presentation) (cause : Misread) :
    expected.resolve = .error cause →
      answerAt make env before (.derive run expected style) later = some (.misread cause)
  remembered (step : Step α) :
    step.asks = true → ((opened env).after make (before ++ [step])).remembered = some known

/-- A step at this place that asks for settings is refused for the given reason, and leaves the
memory empty. -/
structure Refuses (before later : List (Step α)) (reason : ε) : Prop where
  answer (step : Step α) :
    step.asks = true → answerAt make env before step later = some (.refused reason)
  remembered (step : Step α) :
    step.asks = true → ((opened env).after make (before ++ [step])).remembered = none

theorem serves_of_settingsAfter {before : List (Step α)} (later : List (Step α))
    {known : Settings} (h : settingsAfter make env before = .ok known) :
    Serves make env before later known where
  current := by rw [answerAt_eq, step, current_after, h]; rfl
  derive run expected style type htype := by
    rw [answerAt_eq, step, current_after, h, Answer.ofRun, htype]
  misread run expected style cause hcause := by
    rw [answerAt_eq, step, current_after, h, Answer.ofRun, hcause]
  remembered step hasks := by rw [remembered_after_asking make env before hasks, h]; rfl

theorem refuses_of_settingsAfter {before : List (Step α)} (later : List (Step α)) {reason : ε}
    (h : settingsAfter make env before = .error reason) :
    Refuses make env before later reason where
  answer step hasks := by
    rw [answerAt_eq]
    cases step with
    | set | unset | forget | fresh => cases hasks
    | current | derive => rw [Session.step, current_after, h]; rfl
  remembered step hasks := by rw [remembered_after_asking make env before hasks, h]; rfl

/-- **Sessions use the first settings that they make.**  Let any steps have been taken since a
session was opened, in whichever way settings are made.  Each variable then has the value of
the last step about it, and the memory holds the settings of the first reading since the last
step that forgets.  A step that asks for settings, by itself or for a derivation, is served
with these, or with what the present environment gives if there was no such reading; and
whatever comes of the derivation, it leaves in the memory what it got, which is nothing if the
settings are refused.  Settings made for one call come from the present environment and the
values given with the call only, and making them changes nothing. -/
theorem sessions_use_first_reading (before later : List (Step α)) :
    ((opened env).after make before).environment = environmentAfter env before ∧
      (∀ name, (environmentAfter env before).value? name =
        (before.reverse.findSome? (Step.assigns? name)).getD (env.value? name)) ∧
      ((opened env).after make before).remembered = firstReading make env before ∧
      (∀ known, settingsAfter make env before = .ok known → Serves make env before later known) ∧
      (∀ reason, settingsAfter make env before = .error reason →
        Refuses make env before later reason) ∧
      ∀ given,
        (∀ made, make (environmentAfter env before) given = .ok made →
          answerAt make env before (.fresh given) later = some (.settings made)) ∧
        (∀ reason, make (environmentAfter env before) given = .error reason →
          answerAt make env before (.fresh given) later = some (.refused reason)) ∧
        (opened env).after make (before ++ [.fresh given]) = (opened env).after make before := by
  refine ⟨environment_after make env before, value?_environmentAfter env before,
    remembered_after make env before, fun known => serves_of_settingsAfter make env later,
    fun reason => refuses_of_settingsAfter make env later, fun given => ⟨?_, ?_, ?_⟩⟩
  · intro made h
    rw [answerAt_eq, step, fresh, environment_after, h, Answer.ofSettings]
  · intro reason h
    rw [answerAt_eq, step, fresh, environment_after, h, Answer.ofSettings]
  · rw [after_append_singleton, step]

/-- A way to make settings: the limit is given with the call, or else it is the digit that a
variable holds. -/
def digitLimit : Settings.Maker Int String := fun env given =>
  match given.lookup "max_depth", (env.value? "LIMIT").map String.toList with
  | some limit, _ => .ok { maxDepth := limit }
  | none, none => .ok {}
  | none, some [digit] =>
    if digit.isDigit then .ok { maxDepth := digit.toNat - '0'.toNat } else .error "not a digit"
  | none, some _ => .error "not a digit"

/-- The run `succ 0`, which takes two levels. -/
def successor : Run := [.word .succ, .word .zero]

/-- A limit that is refused when it is asked for, and a limit of one. -/
def refusedThenOne : List (Step Int) := [.set "LIMIT" "x", .current, .set "LIMIT" "1"]

/-- A derivation under the limit of one, and then a limit of seven. -/
def oneThenSeven : List (Step Int) :=
  refusedThenOne ++ [.derive successor .absent, .set "LIMIT" "7"]

/-- The report of `succ 0` under a limit. -/
def successorReport (limit : Int) : Report :=
  Arithmetic.report { maxDepth := limit } .sequent successor []

/-- The limit that is refused is not remembered.  The limit of one is, by a derivation that
fails under it, and `succ 0` fails again while the environment has a limit of seven, until the
first limit is forgotten. -/
theorem sessions_use_first_reading_of_limits :
    Refuses digitLimit [] [.set "LIMIT" "x"] [.set "LIMIT" "1"] "not a digit" ∧
      ((opened []).after digitLimit refusedThenOne).remembered = none ∧
      answerAt digitLimit [] refusedThenOne (.derive successor .absent) [] =
        some (.report (successorReport 1)) ∧
      answerAt digitLimit [] oneThenSeven (.derive successor .absent) [] =
        some (.report (successorReport 1)) ∧
      (environmentAfter [] oneThenSeven).value? "LIMIT" = some "7" ∧
      answerAt digitLimit [] oneThenSeven (.fresh []) [] = some (.settings { maxDepth := 7 }) ∧
      answerAt digitLimit [] oneThenSeven (.fresh [("max_depth", 3)]) [] =
        some (.settings { maxDepth := 3 }) ∧
      answerAt digitLimit [] (oneThenSeven ++ [.forget]) (.derive successor .absent) [] =
        some (.report (successorReport 7)) ∧
      (successorReport 1).notices = ["Expression nesting too deep (#011)"] ∧
      (successorReport 1).tree = none ∧ (successorReport 7).tree.isSome = true := by
  obtain ⟨-, -, -, -, hrefused, -⟩ :=
    sessions_use_first_reading digitLimit [] [.set "LIMIT" "x"] [.set "LIMIT" "1"]
  obtain ⟨-, -, hempty, hfills, -, -⟩ :=
    sessions_use_first_reading digitLimit [] refusedThenOne []
  obtain ⟨-, hvalue, -, hkept, -, hfresh⟩ :=
    sessions_use_first_reading digitLimit [] oneThenSeven []
  obtain ⟨-, -, -, hforgotten, -, -⟩ :=
    sessions_use_first_reading digitLimit [] (oneThenSeven ++ [.forget]) []
  refine ⟨hrefused _ rfl, hempty, ?_, ?_, hvalue "LIMIT", (hfresh []).1 _ rfl,
    (hfresh [("max_depth", 3)]).1 _ rfl, ?_, rfl, rfl, rfl⟩
  · exact (hfills { maxDepth := 1 } rfl).derive successor .absent .sequent [] rfl
  · exact (hkept { maxDepth := 1 } rfl).derive successor .absent .sequent [] rfl
  · exact (hforgotten { maxDepth := 7 } rfl).derive successor .absent .sequent [] rfl

end Session
end TypeDeduction

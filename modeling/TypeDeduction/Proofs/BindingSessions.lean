/-
# Sessions of bindings

A run can be bound step by step: one name at a time, or all names of a mapping at once.  A
later step binds again what an earlier one has bound, so of several steps that name a
variable the last one counts.  No step looks at what was bound before, hence a whole session
comes to one binding by the mappings of all its steps (`Run.session_eq_bind`), in which the
later ones override the earlier (`BindingStep.find?_merge`).

What a session does is then what a single binding does.  It leaves all tokens in their places
and changes of them only the variables it names (`Run.boundBy_bind`).  It takes the names off
the free variables and keeps the others as they are (`Run.freeVariables_bind_all`).  And two
sessions that give every name the same type do the same (`Run.session_eq_of_find?_eq`), from
which it follows that steps with different names may be exchanged and that repeating a step
changes nothing.
-/

import TypeDeduction.Proofs.Scope

namespace TypeDeduction

/-! ### Names of bindings -/

/-- Bindings have no type for a name exactly if it is none of theirs. -/
theorem Bindings.find?_eq_none_iff {bindings : Bindings} {x : String} :
    bindings.find? x = none ↔ x ∉ bindings.map (·.1) := by
  induction bindings with
  | nil => simp [find?]
  | cons b bindings ih =>
      rw [find?, List.map_cons, List.mem_cons, not_or, ← ih]
      cases find? bindings x with
      | some later => simp
      | none => simp [eq_comm]

namespace Variable

/-- An occurrence that the bindings name is looked up at the type they give. -/
theorem context_bind (bindings : Bindings) (v : Variable) :
    (v.bind bindings).context = (bindings.find? v.name).or v.context := by
  unfold bind
  split <;> simp [*, bound]

end Variable

/-! ### Steps -/

/-- One step of a session: a single name is bound, or all names of a mapping are. -/
inductive BindingStep where
  | single (name : String) (type : BaseType)
  | mapping (bindings : Bindings)
  deriving DecidableEq, Repr

namespace BindingStep

/-- The bindings that a step makes. -/
def bindings : BindingStep → Bindings
  | .single name type => [(name, type)]
  | .mapping bindings => bindings

/-- The names that a step binds. -/
def names (step : BindingStep) : List String := step.bindings.map (·.1)

/-- The bindings that several steps make, those of the later steps behind the others so that
they count. -/
def merge (steps : List BindingStep) : Bindings := steps.flatMap bindings

theorem merge_cons (step : BindingStep) (steps : List BindingStep) :
    merge (step :: steps) = step.bindings ++ merge steps :=
  List.flatMap_cons

theorem merge_append (before after : List BindingStep) :
    merge (before ++ after) = merge before ++ merge after :=
  List.flatMap_append

/-- **Later steps override earlier ones**: what is found for a name is what the last step
that names it says. -/
theorem find?_merge (steps : List BindingStep) (x : String) :
    (merge steps).find? x = steps.reverse.findSome? (·.bindings.find? x) := by
  induction steps with
  | nil => rfl
  | cons step steps ih =>
      rw [merge_cons, Bindings.find?_append, ih, List.reverse_cons, List.findSome?_append]
      simp

end BindingStep

/-! ### Sessions -/

namespace Run

variable (run : Run)

/-- The run after the steps of a session, one after the other. -/
def session (steps : List BindingStep) : Run :=
  steps.foldl (fun run step => run.bind step.bindings) run

/-- **A session is a single binding** by the merged bindings of its steps. -/
theorem session_eq_bind (steps : List BindingStep) :
    run.session steps = run.bind (BindingStep.merge steps) := by
  induction steps generalizing run with
  | nil => exact (bind_nil run).symm
  | cons step steps ih =>
      have hstep : run.session (step :: steps) = (run.bind step.bindings).session steps := rfl
      rw [hstep, ih, bind_bind, BindingStep.merge_cons]

/-- Bindings that give all names the same types bind alike. -/
theorem bind_eq_of_find?_eq {bindings bindings' : Bindings}
    (h : ∀ x, bindings.find? x = bindings'.find? x) : run.bind bindings = run.bind bindings' := by
  rw [bind, bind, List.map_congr_left]
  intro t _
  cases t with
  | word | ascription | fn => rfl
  | var v => rw [Token.bind_var, Token.bind_var, Variable.bind, Variable.bind, h]

/-- Sessions whose merged bindings give all names the same types do the same. -/
theorem session_eq_of_find?_eq {steps steps' : List BindingStep}
    (h : ∀ x, (BindingStep.merge steps).find? x = (BindingStep.merge steps').find? x) :
    run.session steps = run.session steps' := by
  rw [session_eq_bind, session_eq_bind]
  exact run.bind_eq_of_find?_eq h

/-- **Steps that bind different names may be exchanged**, wherever they stand. -/
theorem session_exchange {one other : BindingStep} (h : ∀ x ∈ one.names, x ∉ other.names)
    (before after : List BindingStep) :
    run.session (before ++ other :: one :: after) =
      run.session (before ++ one :: other :: after) := by
  refine run.session_eq_of_find?_eq fun x => ?_
  have hapart : one.bindings.find? x = none ∨ other.bindings.find? x = none := by
    rw [Bindings.find?_eq_none_iff, Bindings.find?_eq_none_iff]
    by_cases hx : x ∈ one.names
    · exact .inr (h x hx)
    · exact .inl hx
  simp only [BindingStep.merge_append, BindingStep.merge_cons, Bindings.find?_append]
  rcases hapart with hnone | hnone <;> simp [hnone]

/-- **A step that is repeated might as well not be.** -/
theorem session_repeat (step : BindingStep) (before after : List BindingStep) :
    run.session (before ++ step :: step :: after) = run.session (before ++ step :: after) := by
  refine run.session_eq_of_find?_eq fun x => ?_
  simp only [BindingStep.merge_append, BindingStep.merge_cons, Bindings.find?_append]
  cases step.bindings.find? x <;> simp

/-- The result is the run in which the bindings are made: each token is in its place, only
variables have changed, and these only in whether and at which type they are bound. -/
structure BoundBy (bindings : Bindings) (result : Run) : Prop where
  length_eq : result.length = run.length
  other : ∀ (i : Nat) (t : Token), run[i]? = some t → t.asVariable = none → result[i]? = some t
  occurrence : ∀ (i : Nat) (v : Variable), run[i]? = some (Token.var v) →
    ∃ w : Variable, result[i]? = some (Token.var w) ∧
    w.name = v.name ∧ w.declared = v.declared ∧
    w.abstracted = (v.abstracted || (bindings.find? v.name).isSome) ∧
    w.context = (bindings.find? v.name).or v.context

theorem boundBy_bind (bindings : Bindings) : run.BoundBy bindings (run.bind bindings) where
  length_eq := length_bind bindings run
  other i t ht hother := by
    have hsame : t.bind bindings = t := by
      cases t with
      | word | ascription | fn => rfl
      | var v => cases hother
    rw [bind, List.getElem?_map, ht, Option.map_some, hsame]
  occurrence i v hv := by
    refine ⟨v.bind bindings, ?_, v.name_bind bindings, v.declared_bind bindings,
      v.abstracted_bind bindings, v.context_bind bindings⟩
    rw [bind, List.getElem?_map, hv, Option.map_some, Token.bind_var]

/-- **Binding takes the names of the bindings off the free variables** and leaves the others
in their order. -/
theorem freeVariables_bind_all (bindings : Bindings) :
    (run.bind bindings).freeVariables =
      run.freeVariables.filter (·.name ∉ bindings.map (·.1)) := by
  induction bindings generalizing run with
  | nil => simp [List.filter_eq_self.2]
  | cons b bindings ih =>
      have hfirst : run.bind (b :: bindings) = (run.bind [b]).bind bindings := by
        rw [bind_bind]
        rfl
      rw [hfirst, ih, freeVariables_bind, List.filter_filter]
      refine List.filter_congr fun v _ => ?_
      rw [← Bool.decide_and, decide_eq_decide, List.map_cons, List.mem_cons, not_or, and_comm]

end Run

/-! ### The law of sessions -/

/-- **Sessions of bindings collapse.**  Performing the steps one after the other is one
binding by the merged mapping, in which later steps override earlier ones name by name.  All
tokens keep their places, and only variables that are named change, in whether and at which
type they are bound.  The free variables are those of the run without the names of the merged
mapping, in the same order.  So steps that bind different names may be exchanged wherever they
stand, and a step that is repeated might as well not be. -/
theorem binding_sessions_collapse (run : Run) (steps : List BindingStep) :
    run.session steps = run.bind (BindingStep.merge steps) ∧
      (∀ x, (BindingStep.merge steps).find? x =
        steps.reverse.findSome? (·.bindings.find? x)) ∧
      run.BoundBy (BindingStep.merge steps) (run.session steps) ∧
      (run.session steps).freeVariables =
        run.freeVariables.filter (·.name ∉ (BindingStep.merge steps).map (·.1)) ∧
      (∀ before one other after, steps = before ++ one :: other :: after →
        (∀ x ∈ one.names, x ∉ other.names) →
        run.session (before ++ other :: one :: after) = run.session steps) ∧
      ∀ before step after, steps = before ++ step :: after →
        run.session (before ++ step :: step :: after) = run.session steps := by
  have hcollapse := run.session_eq_bind steps
  refine ⟨hcollapse, BindingStep.find?_merge steps, ?_, ?_, ?_, ?_⟩
  · rw [hcollapse]
    exact run.boundBy_bind _
  · rw [hcollapse, Run.freeVariables_bind_all]
  · rintro before one other after rfl hdisjoint
    exact run.session_exchange hdisjoint before after
  · rintro before step after rfl
    exact run.session_repeat step before after

/-- The run `if x then x else succ z y`: the second `x` was bound before, and `y` has no
declared type. -/
def mixedOccurrences : Run :=
  [.cond, .var { name := "x", declared := some .bool }, .word .thenBranch,
    .var { name := "x", declared := some .nat, abstracted := true, context := some .nat },
    .word .elseBranch, .word .succ, .var { name := "z", declared := some .nat }, .var { name := "y" }]

/-- Steps that bind `x` to `Nat`, then `y`, and then `x` to `Bool`. -/
def overridingSteps : List BindingStep :=
  [.single "x" .nat, .single "y" .nat, .mapping [("x", .nat), ("x", .bool)]]

theorem binding_sessions_collapse_overriding :
    (BindingStep.merge overridingSteps).find? "x" = some .bool ∧
      mixedOccurrences.session overridingSteps =
        mixedOccurrences.bind (BindingStep.merge overridingSteps) ∧
      (mixedOccurrences.session overridingSteps).freeVariables.map (·.name) = ["z"] ∧
      mixedOccurrences.session
          [.single "y" .nat, .single "x" .nat, .mapping [("x", .nat), ("x", .bool)]] =
        mixedOccurrences.session overridingSteps ∧
      mixedOccurrences.session
          [.single "x" .nat, .single "y" .nat, .single "y" .nat,
            .mapping [("x", .nat), ("x", .bool)]] =
        mixedOccurrences.session overridingSteps := by
  obtain ⟨hcollapse, hmerge, -, hfree, hexchange, hrepeat⟩ :=
    binding_sessions_collapse mixedOccurrences overridingSteps
  refine ⟨hmerge "x", hcollapse, ?_, ?_, ?_⟩
  · rw [hfree]
    rfl
  · exact hexchange [] (.single "x" .nat) (.single "y" .nat) _ rfl (by decide)
  · exact hrepeat [.single "x" .nat] (.single "y" .nat) _ rfl

end TypeDeduction

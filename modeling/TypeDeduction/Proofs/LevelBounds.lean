/-
# Limits that no derivation reaches

The limit is there for deep expressions, not to make derivations end: that they do by
themselves, since every step leaves less to derive.  In arithmetic a rule derives parts
of its run, so the number of tokens drops.  In the lambda calculus an abstraction derives
as many tokens as before, but it binds a name in all of them; so the tokens and the names
that are still open drop together (`Run.openNames`), and that is the levels a derivation
can take (`Lambda.levelBound`).

One case does not follow the measure.  A clause may be empty, and the lambda engine
counts the level before it looks at the run, so even nothing takes a level there.
-/

import Mathlib.Data.Finset.Card
import TypeDeduction.Proofs.Failures
import TypeDeduction.Proofs.Scope

namespace TypeDeduction

/-- What arises in a calculus is not the limit. -/
theorem Failure.code_ne_tooDeep {calculus : Calculus} {f : Failure}
    (h : f.arisesIn calculus = true) : f.code ≠ Code.tooDeep := by
  have hcodes : ∀ c ∈ calculus.codes, c ≠ Code.tooDeep := by cases calculus <;> decide
  exact hcodes _ (code_mem_codes h)

/-- The computation is not cut off by the limit. -/
def Traced.Uncut {α : Type} (x : Traced α) : Prop := x.FailsOnly fun f => f.code ≠ Code.tooDeep

variable {limit : Int} {left : Nat}

/-! ### Arithmetic -/

/-- **A level for each token is enough in arithmetic.**  The induction is on the levels:
a rule derives parts of its run, and these are shorter. -/
theorem Arithmetic.derive_uncut {run : Run} (hl : run.length ≤ left) (style : Presentation)
    (expected : Signature) (inner : Bool) :
    (derive limit style left run expected inner).Uncut := by
  induction left generalizing run expected inner with
  | zero =>
      obtain rfl := List.length_eq_zero_iff.1 (Nat.le_zero.1 hl)
      have harises : Failure.emptyExpression.arisesIn .arithmetic = true := rfl
      exact .fail (Failure.code_ne_tooDeep harises)
  | succ left ih =>
      refine derive_succ_failsOnly (fun f hf => Failure.code_ne_tooDeep hf) fun part e i hp => ?_
      have hshorter := hp.length_lt
      exact ih (by omega) e i

/-! ### Names that are still open -/

namespace Run

variable {run : Run}

/-- The names of the variables of a run that nothing has bound. -/
def openNames (run : Run) : Finset String :=
  ((run.occurrences.filter fun v => ¬ v.abstracted).map (·.name)).toFinset

theorem mem_openNames {x : String} :
    x ∈ run.openNames ↔ ∃ v, Token.var v ∈ run ∧ v.abstracted = false ∧ v.name = x := by
  simp [openNames, mem_occurrences, and_assoc]

theorem openNames_mono {part : Run} (h : part ⊆ run) : part.openNames ⊆ run.openNames := by
  intro x hx
  obtain ⟨v, hv, hopen, rfl⟩ := mem_openNames.1 hx
  exact mem_openNames.2 ⟨v, h hv, hopen, rfl⟩

/-- **Binding a name closes it** and no other. -/
theorem openNames_bind (run : Run) (x : String) (A : BaseType) :
    (run.bind [(x, A)]).openNames = run.openNames.erase x := by
  rw [openNames, occurrences_bind, map_name_filter_bind, openNames]
  ext y
  simp [and_comm]

/-- A candidate of either run is open in the two together. -/
theorem name_mem_openNames {first second : Run} {v : Variable}
    (h : first.candidate.or second.candidate = some v) : v.name ∈ openNames (first ++ second) := by
  rcases Option.or_eq_some_iff.1 h with hc | ⟨-, hc⟩
  · obtain ⟨hv, hopen⟩ := var_mem_of_candidate hc
    exact mem_openNames.2 ⟨v, List.mem_append_left second hv, hopen, rfl⟩
  · obtain ⟨hv, hopen⟩ := var_mem_of_candidate hc
    exact mem_openNames.2 ⟨v, List.mem_append_right first hv, hopen, rfl⟩

end Run

/-! ### The lambda calculus -/

namespace Lambda

/-- The levels that a derivation of two runs can take: one for each token and one for
each open name, and one where there is neither. -/
def levelBound (first second : Run) : Nat :=
  max 1 (first.length + second.length + (first ++ second).openNames.card)

variable {first second : Run}

/-- Binding the candidate takes a level off the bound. -/
theorem levelBound_bind {v : Variable} (hv : first.candidate.or second.candidate = some v)
    (A : BaseType) :
    levelBound (first.bind [(v.name, A)]) (second.bind [(v.name, A)]) + 1 ≤
      levelBound first second := by
  have hopen := Run.name_mem_openNames hv
  have hpos : 0 < (first ++ second).length := by
    obtain ⟨w, hw, -, -⟩ := Run.mem_openNames.1 hopen
    exact List.length_pos_of_mem hw
  have hcard := Finset.card_erase_add_one hopen
  rw [List.length_append] at hpos
  rw [levelBound, levelBound, ← Run.bind_append, Run.openNames_bind, Run.length_bind,
    Run.length_bind]
  omega

/-- A part of a run takes a level less. -/
theorem levelBound_part {part : Run} (h : part.Part first) (second : Run) :
    levelBound part [] + 1 ≤ levelBound first second := by
  have hshorter := h.length_lt
  have hsubset : part ++ [] ⊆ first ++ second := by
    rw [List.append_nil]
    exact fun t ht => List.mem_append_left second (h.subset ht)
  have hcard := Finset.card_le_card (Run.openNames_mono hsubset)
  rw [levelBound, levelBound, List.length_nil]
  omega

/-- Of two runs that are not empty each takes a level less than both. -/
theorem levelBound_operand (hf : first ≠ []) (hs : second ≠ []) :
    levelBound first [] + 1 ≤ levelBound first second ∧
      levelBound second [] + 1 ≤ levelBound first second := by
  have hfirst := List.length_pos_iff.2 hf
  have hsecond := List.length_pos_iff.2 hs
  have hcard₁ := Finset.card_le_card (Run.openNames_mono (List.subset_append_left first second))
  have hcard₂ := Finset.card_le_card (Run.openNames_mono (List.subset_append_right first second))
  simp only [levelBound, List.append_nil, List.length_nil]
  omega

/-- **The bound is enough in the lambda calculus.**  Whatever is derived one level down
takes a level less: both runs with the candidate bound, each of two runs, or a part of a
single one. -/
theorem derive_uncut (hl : levelBound first second ≤ left) (signature : Option Signature)
    (expected : Signature) (inner : Bool) :
    (derive limit signature left first second expected inner).Uncut := by
  induction left generalizing first second expected inner with
  | zero =>
      unfold levelBound at hl
      omega
  | succ left ih =>
      refine derive_succ_failsOnly (fun f hf => Failure.code_ne_tooDeep hf)
        (fun v A e hv => ?_) (fun hf hs e => ?_) fun part e i hp => ?_
      · have hbody := levelBound_bind hv A
        exact ih (by omega) e false
      · obtain ⟨hfirst, hsecond⟩ := levelBound_operand hf hs
        exact ⟨ih (by omega) e false, ih (by omega) e false⟩
      · have hpart := levelBound_part hp second
        exact ih (by omega) e i

end Lambda

/-- **Derivations end before the limit if the limit leaves room for their input.**  An
arithmetic derivation under a limit of at least the number of tokens does not fail for
the limit, and no more does a lambda derivation under a limit of at least one and of at
least the tokens of its runs and the names open in them taken together. -/
theorem limit_not_reached_from_bound (s : Settings) :
    (∀ style run expected, (run.length : Int) ≤ s.maxDepth →
        ∀ f, (Arithmetic.tree s style run expected).outcome = .error f → f.code ≠ Code.tooDeep) ∧
      ∀ signature first second expected inner,
        max 1 (first.length + second.length + (first ++ second).openNames.card : Int) ≤ s.maxDepth →
        ∀ f, (Lambda.tree s signature first second expected inner).outcome = .error f →
          f.code ≠ Code.tooDeep := by
  refine ⟨fun style run expected hl => ?_, fun signature first second expected inner hl => ?_⟩
  · refine Arithmetic.derive_uncut ?_ style expected false
    unfold Depth.levels
    omega
  · refine Lambda.derive_uncut ?_ signature expected inner
    unfold Lambda.levelBound Depth.levels
    omega

/-- The run `succ succ x` of an open variable without a type. -/
def untypedOperand : Run := [.word .succ, .word .succ, .var { name := "x" }]

/-- On `succ succ x` the bound is sharp: with four levels the derivation comes to the
variable and fails for its type, with three it is cut off. -/
theorem limit_not_reached_at_untypedOperand :
    max 1 (untypedOperand.length + ([] : Run).length +
        (untypedOperand ++ []).openNames.card : Int) ≤ 4 ∧
      ((∃ f, (Lambda.tree { maxDepth := 4 } none untypedOperand [] [.nat, .nat] false).outcome =
          .error f ∧ f.code ≠ Code.tooDeep) ∧
        (Lambda.tree { maxDepth := 3 } none untypedOperand [] [.nat, .nat] false).outcome =
          .error (.tooDeep 3)) ∧
      ∃ f, (Arithmetic.tree { maxDepth := 4 } .sequent untypedOperand []).outcome = .error f ∧
        f.code ≠ Code.tooDeep := by
  have hbound : max 1 (untypedOperand.length + ([] : Run).length +
      (untypedOperand ++ []).openNames.card : Int) ≤ 4 := by decide
  have h := limit_not_reached_from_bound { maxDepth := 4 }
  refine ⟨hbound, ⟨⟨_, rfl, h.2 none untypedOperand [] [.nat, .nat] false hbound _ rfl⟩, rfl⟩, ?_⟩
  exact ⟨_, rfl, h.1 .sequent untypedOperand [] (by decide) _ rfl⟩

end TypeDeduction

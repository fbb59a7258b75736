/-
# What a derivation can fail for

A derivation fails for a reason of its own or for one of a premise, and sequences pass
the reasons on (`Traced.FailsOnly.bind`).  So what an engine can fail for is settled by
one step: besides the limit, for a cause that its calculus knows or for what it derives one
level down fails for (`Arithmetic.derive_succ_failsOnly`, `Lambda.derive_succ_failsOnly`).

Three codes belong to checks that a rule makes although its caller has made them before:
that a conditional is not empty, that brackets balance in arithmetic, and that there is a
variable to abstract.  They are not among the codes of a calculus (`Calculus.codes`), and so
no derivation gives them on any level (`dead_codes_never_given`).
-/

import TypeDeduction.Proofs.Steps

namespace TypeDeduction

/-! ### Computations and their failures -/

namespace Traced

variable {α β : Type} {causes : Failure → Prop}

/-- The computation fails for none but the given causes. -/
def FailsOnly (causes : Failure → Prop) (x : Traced α) : Prop :=
  ∀ f, x.outcome = .error f → causes f

namespace FailsOnly

theorem pure (a : α) : FailsOnly causes (Pure.pure a : Traced α) := by
  intro f hf
  cases hf

theorem fail {f : Failure} (h : causes f) : FailsOnly causes (Traced.fail f : Traced α) := by
  intro g hg
  obtain rfl := Except.error.inj hg
  exact h

/-- **A sequence fails for what its parts fail for.** -/
theorem bind {x : Traced α} {f : α → Traced β} (hx : x.FailsOnly causes)
    (hf : ∀ a, x.outcome = .ok a → (f a).FailsOnly causes) : (x >>= f).FailsOnly causes := by
  intro g hg
  rw [outcome_bind] at hg
  cases ho : x.outcome with
  | error e =>
      rw [ho] at hg
      obtain rfl := Except.error.inj hg
      exact hx e ho
  | ok a =>
      rw [ho] at hg
      exact hf a ho g hg

theorem inherited : Inherited fun α => @FailsOnly α causes := ⟨pure, bind⟩

/-- An event is no failure. -/
theorem note (event : Event) : (Traced.note event).FailsOnly causes := by
  intro f hf
  cases hf

theorem note_bind (event : Event) {x : Traced α} (h : x.FailsOnly causes) :
    (Traced.note event >>= fun _ => x).FailsOnly causes :=
  bind (note event) fun _ _ => h

/-- An answer made from another one fails as that one does. -/
theorem bind_pure {x : Traced α} (h : x.FailsOnly causes) (f : α → β) :
    (x >>= fun a => Pure.pure (f a)).FailsOnly causes :=
  inherited.bind_pure h f

end FailsOnly
end Traced

variable {causes : Failure → Prop} {calculus : Calculus} {conclude : Signature → Judgment}
  {expected : Signature} {inner : Bool}

/-! ### Rules -/

namespace Rule

/-- A conditional fails if it cannot be split, a clause fails or the branches differ. -/
theorem conditional_failsOnly {derive : Run → Signature → Bool → Traced Proof} {run : Run}
    (hsplit : ∀ f, Conditional.split run = .error f → causes f)
    (hbranch : ∀ t r, causes (.branchMismatch t r))
    (hderive : ∀ parts, Conditional.split run = .ok parts →
      (∀ e i, (derive parts.condition.run e i).FailsOnly causes) ∧
        (∀ e i, (derive parts.thenBranch.run e i).FailsOnly causes) ∧
        ∀ e i, (derive parts.elseBranch.run e i).FailsOnly causes) :
    (conditional derive conclude run expected inner).FailsOnly causes :=
  conditional_inherits Traced.FailsOnly.inherited (fun f hf => .fail (hsplit f hf))
    (fun t r => .fail (hbranch t r)) hderive

/-- A bracketed run fails if it is too short, does not balance or its inside fails. -/
theorem bracketed_failsOnly {derive : Run → Signature → Traced Proof} {run : Run}
    (hshort : run.length < 3 → causes (.bracketsTooShort calculus))
    (hbalance : run.balance ≠ 0 → causes (.bracketsUnbalanced calculus run.balance))
    (hderive : 3 ≤ run.length → run.balance = 0 → ∀ e, (derive run.strip e).FailsOnly causes) :
    (bracketed calculus derive conclude run expected).FailsOnly causes :=
  bracketed_inherits Traced.FailsOnly.inherited (fun hl => .fail (hshort hl))
    (fun hb => .fail (hbalance hb)) hderive

end Rule

/-! ### Steps of the engines -/

variable {limit : Int} {left : Nat}

/-- **With a level left** a run fails for causes of arithmetic and for what its parts fail
for one level down. -/
theorem Arithmetic.derive_succ_failsOnly {style : Presentation} {run : Run}
    (hown : ∀ f : Failure, f.arisesIn .arithmetic = true → causes f)
    (hpart : ∀ part e i, Run.Part part run →
      (derive limit style left part e i).FailsOnly causes) :
    (derive limit style (left + 1) run expected inner).FailsOnly causes :=
  derive_succ_inherits Traced.FailsOnly.inherited (fun _ f hf => .fail (hown f hf))
    (fun _ _ _ => .note _) hpart

/-- **With a level left** runs fail for causes of the lambda calculus and for what is
derived one level down: both runs with their candidate bound, each of two runs without a
candidate, or the parts of a single one. -/
theorem Lambda.derive_succ_failsOnly {signature : Option Signature} {first second : Run}
    (hown : ∀ f : Failure, f.arisesIn .lambda = true → causes f)
    (hbody : ∀ v A e, first.candidate.or second.candidate = some v →
      (derive limit signature left (first.bind [(v.name, A)]) (second.bind [(v.name, A)]) e
        false).FailsOnly causes)
    (happ : first ≠ [] → second ≠ [] → ∀ e,
      (derive limit signature left first [] e false).FailsOnly causes ∧
        (derive limit signature left second [] e false).FailsOnly causes)
    (hpart : ∀ part e i, Run.Part part first →
      (derive limit signature left part [] e i).FailsOnly causes) :
    (derive limit signature (left + 1) first second expected inner).FailsOnly causes :=
  derive_succ_inherits Traced.FailsOnly.inherited (fun _ f hf => .fail (hown f hf))
    (fun _ _ _ => .note _) (fun v A e hv => ⟨.note _, hbody v A e hv⟩) happ hpart

/-! ### Codes that are never given -/

/-- The codes of the causes that a calculus knows. -/
def Calculus.codes : Calculus → List Code
  | .arithmetic =>
    [.emptyExpression, .bracketsMismatch, .undefinedArithmetic, .iszeroOperand, .succOperand,
      .predOperand, .thenMissing, .thenEmpty, .elseMissing, .elseEmpty, .branchMismatch,
      .bracketsArithmetic]
  | .lambda =>
    [.emptyExpression, .undefinedLambda, .application, .abstractionType, .variableType,
      .iszeroOperand, .succOperand, .predOperand, .thenMissing, .thenEmpty, .elseMissing,
      .elseEmpty, .branchMismatch, .functionAlone, .bracketsLambda, .balanceLambda]

/-- What arises in a calculus has one of its codes. -/
theorem Failure.code_mem_codes {f : Failure} (h : f.arisesIn calculus = true) :
    f.code ∈ calculus.codes := by
  cases f with
  | undefinedHead c | bracketsTooShort c | bracketsUnbalanced c =>
      cases c <;> cases calculus <;> simp_all [arisesIn, code, Calculus.codes]
  | missingOperand op => cases op <;> cases calculus <;> simp [code, Calculus.codes]
  | _ => cases calculus <;> simp_all [arisesIn, code, Calculus.codes]

/-- The failure is the limit or has a code of the calculus. -/
def Failure.KnownIn (calculus : Calculus) (f : Failure) : Prop :=
  f.code ∈ Code.tooDeep :: calculus.codes

/-- **Arithmetic gives no codes but its own**, on any level. -/
theorem Arithmetic.derive_failsOnly_known (limit : Int) (style : Presentation) (left : Nat)
    (run : Run) (expected : Signature) (inner : Bool) :
    (derive limit style left run expected inner).FailsOnly (Failure.KnownIn .arithmetic) := by
  have hown (f : Failure) (hf : f.arisesIn .arithmetic = true) : f.KnownIn .arithmetic :=
    List.mem_cons_of_mem _ (Failure.code_mem_codes hf)
  induction left generalizing run expected inner with
  | zero =>
      cases run with
      | nil => exact .fail (hown _ rfl)
      | cons head rest =>
          rw [derive]
          split
          · exact .fail (hown _ rfl)
          · exact .fail List.mem_cons_self
  | succ left ih => exact derive_succ_failsOnly hown fun part e i _ => ih part e i

/-- **The lambda calculus gives no codes but its own**, on any level. -/
theorem Lambda.derive_failsOnly_known (limit : Int) (signature : Option Signature) (left : Nat)
    (first second : Run) (expected : Signature) (inner : Bool) :
    (derive limit signature left first second expected inner).FailsOnly
      (Failure.KnownIn .lambda) := by
  have hown (f : Failure) (hf : f.arisesIn .lambda = true) : f.KnownIn .lambda :=
    List.mem_cons_of_mem _ (Failure.code_mem_codes hf)
  induction left generalizing first second expected inner with
  | zero => exact .fail List.mem_cons_self
  | succ left ih =>
      exact derive_succ_failsOnly hown (fun v A e _ => ih _ _ e false)
        (fun _ _ e => ⟨ih first [] e false, ih second [] e false⟩) fun part e i _ => ih part [] e i

/-- **The codes of checks made twice are dead.**  Whatever the settings, the runs and the
expected type are, an arithmetic derivation does not fail with the code for unbalanced
brackets under its rule for brackets or with that for an empty conditional, and a lambda
derivation does not fail with the codes for a missing variable or with that for an empty
conditional.  The same holds on each level, whatever number of levels is left. -/
theorem dead_codes_never_given (s : Settings) :
    (∀ style run expected f, (Arithmetic.tree s style run expected).outcome = .error f →
        f.code ∉ [Code.balanceArithmetic, Code.conditional]) ∧
      (∀ style left run expected inner f,
        (Arithmetic.derive s.maxDepth style left run expected inner).outcome = .error f →
        f.code ∉ [Code.balanceArithmetic, Code.conditional]) ∧
      (∀ signature first second expected inner f,
        (Lambda.tree s signature first second expected inner).outcome = .error f →
        f.code ∉ [Code.noVariableInEither, Code.noVariable, Code.conditional]) ∧
      ∀ signature left first second expected inner f,
        (Lambda.derive s.maxDepth signature left first second expected inner).outcome = .error f →
        f.code ∉ [Code.noVariableInEither, Code.noVariable, Code.conditional] := by
  have harith : ∀ c ∈ Code.tooDeep :: Calculus.arithmetic.codes,
      c ∉ [Code.balanceArithmetic, Code.conditional] := by decide
  have hlambda : ∀ c ∈ Code.tooDeep :: Calculus.lambda.codes,
      c ∉ [Code.noVariableInEither, Code.noVariable, Code.conditional] := by decide
  refine ⟨fun style run expected f hf => ?_, fun style left run expected inner f hf => ?_,
    fun signature first second expected inner f hf => ?_,
    fun signature left first second expected inner f hf => ?_⟩
  · exact harith _ (Arithmetic.derive_failsOnly_known _ style _ run expected false f hf)
  · exact harith _ (Arithmetic.derive_failsOnly_known _ style left run expected inner f hf)
  · exact hlambda _ (Lambda.derive_failsOnly_known _ signature _ first second expected inner f hf)
  · exact hlambda _
      (Lambda.derive_failsOnly_known _ signature left first second expected inner f hf)

/-- The run `( ( 0 )`, in which a bracket is left open. -/
def unclosedZero : Run := [.lparen, .lparen, .word .zero, .rparen]

/-- Both derivations of `( ( 0 )` fail, from the start and with one level left, and with
other codes. -/
theorem dead_codes_never_given_on_unclosedZero :
    (∃ f, (Arithmetic.tree {} .sequent unclosedZero .nat).outcome = .error f ∧
        f.code ∉ [Code.balanceArithmetic, Code.conditional]) ∧
      (∃ f, (Arithmetic.derive 10 .sequent 1 unclosedZero .nat true).outcome = .error f ∧
        f.code ∉ [Code.balanceArithmetic, Code.conditional]) ∧
      (∃ f, (Lambda.tree {} none unclosedZero [] .nat false).outcome = .error f ∧
        f.code ∉ [Code.noVariableInEither, Code.noVariable, Code.conditional]) ∧
      ∃ f, (Lambda.derive 10 none 1 unclosedZero [] .nat true).outcome = .error f ∧
        f.code ∉ [Code.noVariableInEither, Code.noVariable, Code.conditional] := by
  obtain ⟨harith, -, hlambda, -⟩ := dead_codes_never_given {}
  obtain ⟨-, hlevel, -, hlevel'⟩ := dead_codes_never_given { maxDepth := 10 }
  refine ⟨⟨_, rfl, ?_⟩, ⟨_, rfl, ?_⟩, ⟨_, rfl, ?_⟩, ⟨_, rfl, ?_⟩⟩
  · exact harith .sequent unclosedZero .nat _ rfl
  · exact hlevel .sequent 1 unclosedZero .nat true _ rfl
  · exact hlambda none unclosedZero [] .nat false _ rfl
  · exact hlevel' none 1 unclosedZero [] .nat true _ rfl

/-- Asked for themselves, the rules do make these checks. -/
example : Conditional.split [] = .error .emptyConditional ∧
    Abstraction.of [] none .nat = .error (.noVariable false) ∧
    (Rule.bracketed .arithmetic (fun _ _ => Traced.fail .emptyExpression)
      (Arithmetic.conclude .sequent []) [.lparen, .lparen, .rparen] []).outcome =
        .error (.bracketsUnbalanced .arithmetic 1) :=
  ⟨rfl, rfl, rfl⟩

end TypeDeduction

/-
# How a derivation is presented

The presentation of an arithmetic derivation goes along with every call of the engine,
and every rule has it at hand.  All that comes of it is the turnstile of the
conclusions.  No rule looks at a turnstile again, neither to decide what to derive nor
to compute a type, so the derivation in one presentation is the derivation in any
other with the turnstiles replaced (`Arithmetic.derive_eq_map`): the same events, the
same failure, or the same tree but for the turnstiles.

The equation is shown rule by rule.  A rule that derives its parts with other
turnstiles makes the same step with another turnstile, since a step takes from its
premises nothing but their types (`Proof.type_withTurnstile`).
-/

import TypeDeduction.Proofs.Arithmetic.Derivation

namespace TypeDeduction

/-! ### Turnstiles of a tree -/

/-- The step with the given turnstile in its conclusion. -/
def Inference.withTurnstile (turnstile : String) (i : Inference) : Inference :=
  { i with conclusion := { i.conclusion with turnstile } }

namespace Proof

/-- The tree with the given turnstile in all its conclusions. -/
def withTurnstile (turnstile : String) (p : Proof) : Proof :=
  p.relabel (Inference.withTurnstile turnstile) id

theorem withTurnstile_step (turnstile : String) (i : Inference) (ps : List Proof) :
    (Proof.step i ps).withTurnstile turnstile =
      .step (i.withTurnstile turnstile) (ps.map (withTurnstile turnstile)) :=
  relabel_step i ps

@[simp]
theorem type_withTurnstile (turnstile : String) (p : Proof) :
    (p.withTurnstile turnstile).type = p.type := by
  cases p <;> rfl

/-- Of two replacements the last one counts. -/
theorem withTurnstile_withTurnstile (turnstile turnstile' : String) (p : Proof) :
    (p.withTurnstile turnstile).withTurnstile turnstile' = p.withTurnstile turnstile' :=
  relabel_relabel _ _ p

/-- All conclusions have the turnstile that was put into them. -/
theorem everywhere_withTurnstile (turnstile : String) (p : Proof) :
    (p.withTurnstile turnstile).Everywhere fun i _ => i.conclusion.turnstile = turnstile :=
  everywhere_relabel (P := fun i => i.conclusion.turnstile = turnstile) (fun _ => rfl) p

end Proof

namespace Traced

variable {α β : Type}

/-- An answer that is changed afterwards is found by the same events. -/
theorem events_map (f : α → β) (x : Traced α) : (f <$> x).events = x.events := by
  show (bind x (Traced.pure ∘ f)).events = _
  rw [bind]
  cases x.outcome with
  | ok a => exact List.append_nil _
  | error e => rfl

end Traced

namespace Arithmetic

variable {style style' : Presentation} {run rest : Run} {expected : Signature} {inner : Bool}
  {q : Proof}

/-! ### Steps and rules -/

theorem withTurnstile_literal (rule : String) (own : BaseType) (showsExpected : Bool) :
    (Rule.literal rule own showsExpected expected (conclude style run)).withTurnstile
        style'.turnstile =
      Rule.literal rule own showsExpected expected (conclude style' run) := by
  rw [Rule.literal, Proof.withTurnstile_step]
  rfl

theorem withTurnstile_unaryStep (op : UnaryOp) :
    (unaryStep op (conclude style run) expected q).withTurnstile style'.turnstile =
      unaryStep op (conclude style' run) expected (q.withTurnstile style'.turnstile) := by
  cases op <;>
    simp only [unaryStep, arithmeticStep, iszeroStep, Proof.withTurnstile_step,
      Proof.type_withTurnstile] <;>
    rfl

theorem withTurnstile_conditionalStep (pc pt pr : Proof) :
    (Rule.conditionalStep (conclude style run) expected inner pc pt pr).withTurnstile
        style'.turnstile =
      Rule.conditionalStep (conclude style' run) expected inner
        (pc.withTurnstile style'.turnstile) (pt.withTurnstile style'.turnstile)
        (pr.withTurnstile style'.turnstile) := by
  simp only [Rule.conditionalStep, Proof.withTurnstile_step, Proof.type_withTurnstile]
  rfl

theorem withTurnstile_bracketedStep :
    (Rule.bracketedStep .arithmetic (conclude style run) expected q).withTurnstile
        style'.turnstile =
      Rule.bracketedStep .arithmetic (conclude style' run) expected
        (q.withTurnstile style'.turnstile) := by
  simp only [Rule.bracketedStep, Proof.withTurnstile_step, Proof.type_withTurnstile]
  rfl

section Rules

variable {derive derive' : Run → Signature → Bool → Traced Proof}
  (h : ∀ r e i, derive' r e i = Proof.withTurnstile style'.turnstile <$> derive r e i)

include h

/-- A conditional whose clauses are derived with other turnstiles compares the same types,
so it fails alike or makes the same step. -/
theorem conditional_eq_map :
    Rule.conditional derive' (conclude style' run) run expected inner =
      Proof.withTurnstile style'.turnstile <$>
        Rule.conditional derive (conclude style run) run expected inner := by
  simp only [Rule.conditional, h, map_bind, bind_map_left, Proof.type_withTurnstile]
  refine bind_congr fun parts => bind_congr fun pc => bind_congr fun pt => bind_congr fun pr => ?_
  split
  · rfl
  · rw [map_pure, withTurnstile_conditionalStep]

theorem bracketed_eq_map :
    Rule.bracketed .arithmetic (fun r e => derive' r e false) (conclude style' run) run expected =
      Proof.withTurnstile style'.turnstile <$>
        Rule.bracketed .arithmetic (fun r e => derive r e false) (conclude style run) run
          expected := by
  unfold Rule.bracketed
  split
  · rfl
  · split
    · rfl
    · simp only [h, map_bind, bind_map_left, map_pure, withTurnstile_bracketedStep]

/-- The rule of the first token. -/
theorem dispatch_eq_map (head : Token) :
    dispatch style' derive' head rest expected inner =
      Proof.withTurnstile style'.turnstile <$> dispatch style derive head rest expected inner := by
  have unary (op : UnaryOp) :
      dispatch style' derive' (.word op.word) rest expected inner =
        Proof.withTurnstile style'.turnstile <$>
          dispatch style derive (.word op.word) rest expected inner := by
    by_cases hr : rest = []
    · subst hr
      rw [dispatch_unary_nil, dispatch_unary_nil]
      rfl
    · rw [dispatch_unary hr, dispatch_unary hr]
      simp only [h, map_bind, bind_map_left, map_pure, withTurnstile_unaryStep]
  cases head with
  | ascription | var | fn => rfl
  | word w =>
      cases w with
      | thenBranch | elseBranch | rparen => rfl
      | truth | falsity | zero =>
          rw [dispatch, dispatch, map_pure, withTurnstile_literal]
      | succ => exact unary .succ
      | pred => exact unary .pred
      | iszero => exact unary .iszero
      | cond => exact conditional_eq_map h
      | lparen => exact bracketed_eq_map h

end Rules

/-! ### Derivations -/

/-- **A derivation in another presentation is the derivation with other turnstiles**, and
the events on the way to it and its failures are the same. -/
theorem derive_eq_map (limit : Int) (style style' : Presentation) (left : Nat) (run : Run)
    (expected : Signature) (inner : Bool) :
    derive limit style' left run expected inner =
      Proof.withTurnstile style'.turnstile <$> derive limit style left run expected inner := by
  induction left generalizing run expected inner with
  | zero =>
      rw [derive.eq_def, derive.eq_def limit style]
      cases run with
      | nil => rfl
      | cons head rest =>
          dsimp only
          split <;> rfl
  | succ left ih =>
      rw [derive.eq_def, derive.eq_def limit style]
      cases run with
      | nil => rfl
      | cons head rest =>
          dsimp only
          split
          · rfl
          · rw [map_bind]
            exact bind_congr fun _ => dispatch_eq_map ih head

/-- **Presentation and colours do not influence a derivation.**  Take two settings with the
same limit.  Their colours play no part: in each presentation the derivations under the two
are the same, with all events.  The bare derivation under the one and the sequent one under
the other leave the same events and fail for the same cause, or both find a tree, and the
trees are the same once their turnstiles are replaced.  All turnstiles of the bare tree are
the bare one, a single space, and all those of the other tree are ` \vdash `. -/
theorem presentation_sets_turnstiles_only {s s' : Settings} (hlimit : s.maxDepth = s'.maxDepth)
    (run : Run) (expected : Signature) :
    (∀ style, tree s style run expected = tree s' style run expected) ∧
      (tree s .bare run expected).events = (tree s' .sequent run expected).events ∧
      ((∃ f, (tree s .bare run expected).outcome = .error f ∧
          (tree s' .sequent run expected).outcome = .error f) ∨
        ∃ p q, (tree s .bare run expected).outcome = .ok p ∧
          (tree s' .sequent run expected).outcome = .ok q ∧
          (∀ turnstile, p.withTurnstile turnstile = q.withTurnstile turnstile) ∧
          (p.Everywhere fun i _ => i.conclusion.turnstile = Presentation.bare.turnstile) ∧
          q.Everywhere fun i _ => i.conclusion.turnstile = Presentation.sequent.turnstile) := by
  have hcolours (style : Presentation) :
      tree s style run expected = tree s' style run expected := by
    rw [tree, tree, hlimit]
  have hpresented (style : Presentation) : tree s' style run expected =
      Proof.withTurnstile style.turnstile <$> tree s' .sequent run expected :=
    derive_eq_map _ _ _ _ _ _ _
  rw [hcolours .bare]
  refine ⟨hcolours, ?_, ?_⟩
  · rw [hpresented .bare, Traced.events_map]
  · have hbare := congrArg Traced.outcome (hpresented .bare)
    have hsequent := congrArg Traced.outcome (hpresented .sequent)
    rw [Traced.outcome_map] at hbare hsequent
    cases ho : (tree s' .sequent run expected).outcome with
    | error f =>
        rw [ho] at hbare
        exact .inl ⟨f, hbare, rfl⟩
    | ok q =>
        rw [ho] at hbare hsequent
        -- The sequent tree is its own replacement, which gives its turnstiles.
        have hq : q = q.withTurnstile Presentation.sequent.turnstile := Except.ok.inj hsequent
        refine .inr ⟨_, q, hbare, rfl, fun turnstile => ?_, ?_, ?_⟩
        · exact Proof.withTurnstile_withTurnstile _ _ q
        · exact Proof.everywhere_withTurnstile _ q
        · rw [hq]
          exact Proof.everywhere_withTurnstile _ q

/-- The run `if iszero 0 then succ true else ( 0 )`, whose first branch has an operand that
does not fit. -/
def flaggedChoice : Run :=
  [.cond, .word .iszero, .word .zero, .word .thenBranch, .word .succ, .word .truth,
    .word .elseBranch, .lparen, .word .zero, .rparen]

/-- Settings that leave the colours out. -/
def colourless : Settings := { errorColor := "", resetColor := "" }

theorem presentation_of_flaggedChoice :
    Settings.maxDepth {} = colourless.maxDepth ∧
      ∃ p q, (tree {} .bare flaggedChoice .nat).outcome = .ok p ∧
        (tree colourless .sequent flaggedChoice .nat).outcome = .ok q ∧
        q.hasMismatch = true ∧
        (∀ turnstile, p.withTurnstile turnstile = q.withTurnstile turnstile) ∧
        (p.Everywhere fun i _ => i.conclusion.turnstile = " ") ∧
        q.Everywhere fun i _ => i.conclusion.turnstile = " \\vdash " := by
  have hlimit : Settings.maxDepth {} = colourless.maxDepth := rfl
  obtain ⟨-, -, ⟨f, hf, -⟩ | ⟨p, q, hp, hq, hsame, hbare, hsequent⟩⟩ :=
    presentation_sets_turnstiles_only hlimit flaggedChoice .nat
  · cases hf
  · refine ⟨hlimit, p, q, hp, hq, ?_, hsame, hbare, hsequent⟩
    obtain rfl := Except.ok.inj hq
    rfl

end Arithmetic
end TypeDeduction

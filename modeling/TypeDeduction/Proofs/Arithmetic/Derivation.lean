/-
# What an arithmetic derivation consists of

The engine looks at the first token, cuts the run and counts levels.  What is left
of it once it has succeeded is a relation between a run, the type expected of it
and a tree: `Derives style run expected inner p`.  It has one constructor for
each rule, says which part of the run each premise is about, and knows of no
limit.  Every derivation that is found is one (`Derives.of_outcome`), so a
property of derivations is shown by induction on `Derives`, one case per rule.

| run | premises |
| --- | --- |
| a literal and tokens that balance | none |
| an operator and `rest` | `rest` |
| `if` and a `rest` that splits | its three clauses |
| `( a ) b` with no `)` in `b` | `a b` |
-/

import TypeDeduction.Arithmetic
import TypeDeduction.Proofs.Rules

namespace TypeDeduction
namespace Arithmetic

variable {limit : Int} {style : Presentation} {left : Nat} {run : Run} {expected : Signature}
  {inner : Bool} {p : Proof}

/-! ### When the rules succeed -/

/-- The step for an operator over the derivation of its operand. -/
def unaryStep : UnaryOp → (Signature → Judgment) → Signature → Proof → Proof
  | .iszero => iszeroStep
  | op => arithmeticStep op

theorem height_unaryStep_le_iff {op : UnaryOp} {conclude : Signature → Judgment} {q : Proof}
    {n : Nat} :
    (unaryStep op conclude expected q).height ≤ n ↔ ∃ l, n = l + 1 ∧ q.height ≤ l := by
  cases op <;>
    simp only [unaryStep, arithmeticStep, iszeroStep, Proof.height_step_le_iff,
      List.forall_mem_singleton]

theorem dispatch_unary_nil {derive : Run → Signature → Bool → Traced Proof} {op : UnaryOp} :
    dispatch style derive (.word op.word) [] expected inner =
      Traced.fail (.missingOperand op) := by
  cases op <;> rfl

/-- An operator derives its operand and makes a step over it. -/
theorem dispatch_unary {derive : Run → Signature → Bool → Traced Proof} {op : UnaryOp}
    {rest : Run} (hr : rest ≠ []) :
    dispatch style derive (.word op.word) rest expected inner =
      derive rest (op.demand expected) false >>= fun q =>
        return unaryStep op (conclude style (.word op.word :: rest)) expected q := by
  cases op <;> simp only [dispatch, UnaryOp.word, arithmetic, iszero, if_neg hr] <;> rfl

/-- An operator is derived if it has an operand and that is derived. -/
theorem dispatch_unary_eq_ok_iff {derive : Run → Signature → Bool → Traced Proof}
    {op : UnaryOp} {rest : Run} :
    (dispatch style derive (.word op.word) rest expected inner).outcome = .ok p ↔
      rest ≠ [] ∧ ∃ q, (derive rest (op.demand expected) false).outcome = .ok q ∧
        p = unaryStep op (conclude style (.word op.word :: rest)) expected q := by
  by_cases hr : rest = []
  · subst hr
    rw [dispatch_unary_nil]
    simp
  · rw [dispatch_unary hr, Traced.outcome_bind_pure_eq_ok_iff]
    simp [hr]

/-- A run is derived if it balances, a level is left and the rule of its first token
succeeds. -/
theorem derive_cons_eq_ok_iff {head : Token} {rest : Run} :
    (derive limit style left (head :: rest) expected inner).outcome = .ok p ↔
      Run.balance (head :: rest) = 0 ∧ ∃ l, left = l + 1 ∧
        (dispatch style (derive limit style l) head rest expected inner).outcome = .ok p := by
  rw [derive.eq_def]
  dsimp only
  split
  · simp [*]
  · rename_i hb
    cases left with
    | zero => simp
    | succ l =>
        rw [Traced.outcome_note_bind]
        exact ⟨fun h => ⟨Decidable.not_not.1 hb, l, rfl, h⟩,
          fun ⟨_, _, hl, h⟩ => Nat.succ.inj hl ▸ h⟩

/-! ### Derivations as a relation -/

/-- The run has the tree as its derivation against the expected type. -/
inductive Derives (style : Presentation) : Run → Signature → Bool → Proof → Prop where
  | truth {rest : Run} {expected : Signature} {inner : Bool} (hb : rest.balance = 0) :
      Derives style (.word .truth :: rest) expected inner
        (Rule.literal Rule.truth.name .bool true expected (conclude style (.word .truth :: rest)))
  | falsity {rest : Run} {expected : Signature} {inner : Bool} (hb : rest.balance = 0) :
      Derives style (.word .falsity :: rest) expected inner
        (Rule.literal Rule.falsity.name .bool true expected
          (conclude style (.word .falsity :: rest)))
  | zero {rest : Run} {expected : Signature} {inner : Bool} (hb : rest.balance = 0) :
      Derives style (.word .zero :: rest) expected inner
        (Rule.literal Rule.zero.name .nat false expected (conclude style (.word .zero :: rest)))
  | unary (op : UnaryOp) {rest : Run} {expected : Signature} {inner : Bool} {q : Proof}
      (operand : Derives style rest (op.demand expected) false q) :
      Derives style (.word op.word :: rest) expected inner
        (unaryStep op (conclude style (.word op.word :: rest)) expected q)
  | cond {rest : Run} {parts : Conditional} {expected : Signature} {inner : Bool}
      {pc pt pr : Proof} (split : Conditional.split (.cond :: rest) = .ok parts)
      (condition : Derives style parts.condition.run .bool parts.condition.nested pc)
      (thenBranch : Derives style parts.thenBranch.run expected parts.thenBranch.nested pt)
      (elseBranch : Derives style parts.elseBranch.run expected parts.elseBranch.nested pr)
      (agree : pt.type.head? = pr.type.head?) :
      Derives style (.cond :: rest) expected inner
        (Rule.conditionalStep (conclude style (.cond :: rest)) expected inner pc pt pr)
  | bracketed {a b : Run} {expected : Signature} {inner : Bool} {q : Proof}
      (last : Token.rparen ∉ b) (inside : Derives style (a ++ b) expected false q) :
      Derives style (.lparen :: (a ++ .rparen :: b)) expected inner
        (Rule.bracketedStep .arithmetic (conclude style (.lparen :: (a ++ .rparen :: b)))
          expected q)

namespace Derives

theorem ne_nil (h : Derives style run expected inner p) : run ≠ [] := by
  cases h <;> exact List.cons_ne_nil _ _

/-- A run with a derivation balances. -/
theorem balance_eq_zero (h : Derives style run expected inner p) : run.balance = 0 := by
  induction h with
  | truth hb | falsity hb | zero hb => simpa [Run.balance, Run.weight] using hb
  | unary op _ ih => cases op <;> simpa [Run.balance, Run.weight, UnaryOp.word] using ih
  | cond hs _ _ _ _ hc ht hr =>
      rw [Conditional.eq_of_split hs]
      simp [Run.balance, Run.balance_append, Run.weight, hc, ht, hr]
  | bracketed _ _ ih => rw [Run.balance_bracketed, ih]

/-- A tree is no higher than its run is long, since each rule takes a token at least. -/
theorem height_le_length (h : Derives style run expected inner p) : p.height ≤ run.length := by
  induction h with
  | truth | falsity | zero => exact Proof.height_step_le_iff.2 ⟨_, rfl, by simp⟩
  | unary op _ ih => exact height_unaryStep_le_iff.2 ⟨_, rfl, ih⟩
  | @cond rest _ _ _ _ _ _ hs _ _ _ _ ihc iht ihr =>
      have hl := congrArg List.length (Conditional.eq_of_split hs)
      simp only [List.length_append, List.length_cons] at hl
      refine Proof.height_step_le_iff.2 ⟨rest.length, rfl, ?_⟩
      simp only [List.mem_cons, List.not_mem_nil, or_false, forall_eq_or_imp, forall_eq]
      omega
  | @bracketed a b _ _ _ _ _ ih =>
      refine Proof.height_step_le_iff.2 ⟨(a ++ .rparen :: b).length, rfl, ?_⟩
      simp only [List.mem_singleton, forall_eq, List.length_append, List.length_cons] at ih ⊢
      omega

/-- A tree that the engine finds is a derivation and fits below the limit.  The induction
is on the levels left; each rule's inversion lemma gives the premises one level down. -/
theorem of_outcome (h : (derive limit style left run expected inner).outcome = .ok p) :
    Derives style run expected inner p ∧ p.height ≤ left := by
  induction left generalizing run expected inner p with
  | zero =>
      cases run with
      | nil => simp [derive] at h
      | cons head rest =>
          obtain ⟨-, l, hl, -⟩ := derive_cons_eq_ok_iff.1 h
          omega
  | succ left ih =>
      cases run with
      | nil => simp [derive] at h
      | cons head rest =>
          obtain ⟨hb, l, hl, h⟩ := derive_cons_eq_ok_iff.1 h
          obtain rfl := Nat.succ.inj hl
          have hlit : ∀ {rule own shows conclude},
              (Rule.literal rule own shows expected conclude).height ≤ left + 1 := by
            intro rule own shows conclude
            exact Proof.height_step_le_iff.2 ⟨left, rfl, by simp⟩
          have unary (op : UnaryOp)
              (h : (dispatch style (derive limit style left) (.word op.word) rest expected
                inner).outcome = .ok p) :
              Derives style (.word op.word :: rest) expected inner p ∧ p.height ≤ left + 1 := by
            obtain ⟨-, q, hq, rfl⟩ := dispatch_unary_eq_ok_iff.1 h
            exact ⟨.unary op (ih hq).1, height_unaryStep_le_iff.2 ⟨left, rfl, (ih hq).2⟩⟩
          cases head with
          | ascription b | var v | fn => simp [dispatch] at h
          | word w =>
              cases w with
              | thenBranch | elseBranch | rparen => simp [dispatch] at h
              | truth =>
                  obtain rfl := Except.ok.inj h
                  exact ⟨.truth (by simpa [Run.balance, Run.weight] using hb), hlit⟩
              | falsity =>
                  obtain rfl := Except.ok.inj h
                  exact ⟨.falsity (by simpa [Run.balance, Run.weight] using hb), hlit⟩
              | zero =>
                  obtain rfl := Except.ok.inj h
                  exact ⟨.zero (by simpa [Run.balance, Run.weight] using hb), hlit⟩
              | succ => exact unary .succ h
              | pred => exact unary .pred h
              | iszero => exact unary .iszero h
              | cond =>
                  obtain ⟨parts, pc, pt, pr, hs, hc, ht, hr, heq, rfl⟩ :=
                    Rule.conditional_eq_ok_iff.1 h
                  refine ⟨.cond hs (ih hc).1 (ih ht).1 (ih hr).1 heq, ?_⟩
                  refine Proof.height_step_le_iff.2 ⟨left, rfl, ?_⟩
                  simpa using ⟨(ih hc).2, (ih ht).2, (ih hr).2⟩
              | lparen =>
                  obtain ⟨-, -, q, hq, rfl⟩ := Rule.bracketed_eq_ok_iff.1 h
                  obtain ⟨a, b, rfl, hlast⟩ := Run.exists_lastClose_of_balance hb
                  rw [Run.strip_eq_append a hlast] at hq
                  refine ⟨.bracketed hlast (ih hq).1, ?_⟩
                  exact Proof.height_step_le_iff.2 ⟨left, rfl, by simpa using (ih hq).2⟩

/-- A derivation that fits below the limit is found. -/
theorem outcome_eq (h : Derives style run expected inner p) (hl : p.height ≤ left) :
    (derive limit style left run expected inner).outcome = .ok p := by
  have hb := h.balance_eq_zero
  induction h generalizing left with
  | truth | falsity | zero =>
      obtain ⟨l, rfl, -⟩ := Proof.height_step_le_iff.1 hl
      exact derive_cons_eq_ok_iff.2 ⟨hb, l, rfl, rfl⟩
  | unary op hq ih =>
      obtain ⟨l, rfl, hm⟩ := height_unaryStep_le_iff.1 hl
      have hq' := ih hm hq.balance_eq_zero
      exact derive_cons_eq_ok_iff.2
        ⟨hb, l, rfl, dispatch_unary_eq_ok_iff.2 ⟨hq.ne_nil, _, hq', rfl⟩⟩
  | cond hs hc ht hr heq ihc iht ihr =>
      obtain ⟨l, rfl, hm⟩ := Proof.height_step_le_iff.1 hl
      simp only [List.mem_cons, List.not_mem_nil, or_false, forall_eq_or_imp, forall_eq] at hm
      exact derive_cons_eq_ok_iff.2 ⟨hb, l, rfl, Rule.conditional_eq_ok_iff.2
        ⟨_, _, _, _, hs, ihc hm.1 hc.balance_eq_zero, iht hm.2.1 ht.balance_eq_zero,
          ihr hm.2.2 hr.balance_eq_zero, heq, rfl⟩⟩
  | @bracketed a b expected inner q hlast hq ih =>
      obtain ⟨l, rfl, hm⟩ := Proof.height_step_le_iff.1 hl
      have hq' := ih (hm q (by simp)) hq.balance_eq_zero
      have hlen : 3 ≤ (Token.lparen :: (a ++ .rparen :: b)).length := by
        have := List.length_pos_iff.2 hq.ne_nil
        simp only [List.length_append, List.length_cons] at this ⊢
        omega
      refine derive_cons_eq_ok_iff.2 ⟨hb, l, rfl, Rule.bracketed_eq_ok_iff.2 ⟨hlen, hb, q, ?_, rfl⟩⟩
      rw [Run.strip_eq_append a hlast]
      exact hq'

end Derives

/-- **The engine finds a tree exactly if it is a derivation that fits below the limit.** -/
theorem derive_eq_ok_iff :
    (derive limit style left run expected inner).outcome = .ok p ↔
      Derives style run expected inner p ∧ p.height ≤ left :=
  ⟨Derives.of_outcome, fun h => h.1.outcome_eq h.2⟩

end Arithmetic
end TypeDeduction

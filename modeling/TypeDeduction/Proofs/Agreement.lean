/-
# Arithmetic within the lambda calculus

A run without variables and without the opaque function can be handed to either
engine.  The engines do not have the same rules: they flag operators by different
conditions, tell different runs that they are inner ones, and ask for balanced
brackets at different places.  On the types that arithmetic has they still agree.

* What arithmetic derives the lambda calculus derives, by the same rules and with the
  same types, and what is flagged there is flagged here (`Counterpart`).
* What the lambda calculus derives arithmetic derives, unless it refuses the run or a
  part of it because the brackets do not balance.

Both are read off one relation between computations (`Traced.Within`), which goes
through sequences and rules, and up the levels (`derive_within`).  For a run that a
rule derives as an inner one in arithmetic the lambda calculus does so too; that is
what makes its flags the larger ones.
-/

import TypeDeduction.Proofs.Arithmetic.Derivation
import TypeDeduction.Proofs.Lambda.Derivation
import TypeDeduction.Proofs.Scope

namespace TypeDeduction

/-! ### Trees that correspond -/

/-- The name that the lambda calculus cites a rule of arithmetic by. -/
def lambdaName (rule : String) : String :=
  if rule = (Rule.brackets .arithmetic).name then (Rule.brackets .lambda).name else rule

mutual

/-- The second tree has the shape of the first one.  Its steps are the same rules for the
same subjects with the same types, and a step is flagged at least where the step it
corresponds to is. -/
inductive Counterpart : Proof → Proof → Prop where
  | step {i j : Inference} {ps qs : List Proof} (rule : j.rule = lambdaName i.rule)
      (subject : j.conclusion.subject = i.conclusion.subject) (type : j.type = i.type)
      (status : i.status = .mismatched → j.status = .mismatched) (premises : Counterparts ps qs) :
      Counterpart (.step i ps) (.step j qs)

/-- The trees of two lists correspond one by one. -/
inductive Counterparts : List Proof → List Proof → Prop where
  | nil : Counterparts [] []
  | cons {p q : Proof} {ps qs : List Proof} (head : Counterpart p q) (tail : Counterparts ps qs) :
      Counterparts (p :: ps) (q :: qs)

end

theorem Counterpart.type_eq {p q : Proof} (h : Counterpart p q) : q.type = p.type := by
  cases h with
  | step _ _ type => exact type

mutual

theorem Counterpart.rules_eq : ∀ {p q : Proof}, Counterpart p q →
    q.rules = p.rules.map lambdaName
  | _, _, .step rule _ _ _ premises => by
      rw [Proof.rules_step, Proof.rules_step, List.map_cons, rule, premises.rules_eq]

theorem Counterparts.rules_eq : ∀ {ps qs : List Proof}, Counterparts ps qs →
    qs.flatMap Proof.rules = (ps.flatMap Proof.rules).map lambdaName
  | _, _, .nil => rfl
  | _, _, .cons head tail => by
      rw [List.flatMap_cons, List.flatMap_cons, List.map_append, head.rules_eq, tail.rules_eq]

end

/-! ### Computations that correspond -/

namespace Traced

variable {α β γ δ : Type}

/-- The first computation ends within the second: both answer, and the answers are
related, or both fail, or the first alone fails, for brackets that do not balance. -/
def Within (R : α → β → Prop) (x : Traced α) (y : Traced β) : Prop :=
  match x.outcome, y.outcome with
  | .ok a, .ok b => R a b
  | .ok _, .error _ => False
  | .error f, .ok _ => ∃ n, f = .bracketsMismatch n
  | .error _, .error _ => True

namespace Within

variable {R : α → β → Prop} {S : γ → δ → Prop} {x : Traced α} {y : Traced β}

theorem pure {a : α} {b : β} (h : R a b) : Within R (Pure.pure a) (Pure.pure b) := h

theorem fail (f g : Failure) : Within R (Traced.fail f) (Traced.fail g) := trivial

theorem of_bracketsMismatch (n : Int) (y : Traced β) :
    Within R (Traced.fail (.bracketsMismatch n)) y := by
  unfold Within
  cases y.outcome with
  | error g => trivial
  | ok b => exact ⟨n, rfl⟩

/-- A computation ends within itself. -/
theorem self (x : Traced α) : x.Within (fun a b => a = b ∧ x.outcome = .ok a) x := by
  unfold Within
  cases x.outcome with
  | error f => trivial
  | ok a => exact ⟨rfl, rfl⟩

/-- **Sequences end within each other if their parts do.** -/
theorem bind {f : α → Traced γ} {g : β → Traced δ} (hx : x.Within R y)
    (hf : ∀ a b, R a b → (f a).Within S (g b)) : (x >>= f).Within S (y >>= g) := by
  unfold Within at hx ⊢
  rw [outcome_bind, outcome_bind]
  cases hox : x.outcome with
  | ok a =>
      cases hoy : y.outcome with
      | ok b =>
          rw [hox, hoy] at hx
          exact hf a b hx
      | error g' =>
          rw [hox, hoy] at hx
          exact hx.elim
  | error f' =>
      cases hoy : y.outcome with
      | error g' => trivial
      | ok b =>
          rw [hox, hoy] at hx
          dsimp only [Except.bind]
          cases (g b).outcome with
          | error g' => trivial
          | ok d => exact hx

/-- Events do not matter. -/
theorem note_bind (event event' : Event) (h : x.Within R y) :
    (note event >>= fun _ => x).Within R (note event' >>= fun _ => y) := by
  unfold Within
  rw [outcome_note_bind, outcome_note_bind]
  exact h

/-- Where the first computation answers, so does the second. -/
theorem exists_ok {a : α} (h : x.Within R y) (hx : x.outcome = .ok a) :
    ∃ b, y.outcome = .ok b ∧ R a b := by
  unfold Within at h
  rw [hx] at h
  cases hy : y.outcome with
  | error g =>
      rw [hy] at h
      exact h.elim
  | ok b =>
      rw [hy] at h
      exact ⟨b, rfl, h⟩

/-- Where the second computation answers, the first does or its brackets do not balance. -/
theorem ok_or_bracketsMismatch {b : β} (h : x.Within R y) (hy : y.outcome = .ok b) :
    (∃ a, x.outcome = .ok a) ∨ ∃ n, x.outcome = .error (.bracketsMismatch n) := by
  unfold Within at h
  rw [hy] at h
  cases hx : x.outcome with
  | ok a => exact .inl ⟨a, rfl⟩
  | error f =>
      rw [hx] at h
      obtain ⟨n, rfl⟩ := h
      exact .inr ⟨n, rfl⟩

end Within
end Traced

/-! ### Steps and rules -/

/-- The trees correspond, and their type is a base type. -/
def Agrees (p q : Proof) : Prop := (∃ A, p.type = [A]) ∧ Counterpart p q

variable {style : Presentation} {signature : Option Signature} {run : Run} {expected : Signature}
  {inner inner' : Bool} {p q : Proof}

theorem agrees_literal {r : Rule} (hr : lambdaName r.name = r.name) (own : BaseType)
    (showsExpected : Bool) :
    Agrees (Rule.literal r.name own showsExpected expected (Arithmetic.conclude style run))
      (Rule.literal r.name own showsExpected expected (Lambda.conclude run)) :=
  ⟨⟨own, rfl⟩, .step hr.symm rfl rfl id .nil⟩

/-- The steps for an operator are flagged by different conditions.  The types are the same:
where the arithmetic step hands on its operand's type, there is no other base type left
that could be expected. -/
theorem agrees_unaryStep {op : UnaryOp} (he : expected.length ≤ 1) (h : Agrees p q) :
    Agrees (Arithmetic.unaryStep op (Arithmetic.conclude style run) expected p)
      (Lambda.unaryStep op (Lambda.conclude run) expected q) := by
  obtain ⟨⟨A, hA⟩, hc⟩ := h
  have hq : q.type = [A] := hc.type_eq.trans hA
  have hname : op.rule.name = lambdaName op.rule.name := by cases op <;> decide
  rcases expected with _ | ⟨B, _ | ⟨C, rest⟩⟩
  · cases op with
    | succ | pred =>
        refine ⟨⟨A, ?_⟩, .step hname rfl ?_ ?_ (.cons hc .nil)⟩
        · simp [Arithmetic.unaryStep, Arithmetic.arithmeticStep, hA]
        · simp [hA, hq, Signature.isBase]
        · simp [hA, hq, Signature.isBase]
    | iszero => exact ⟨⟨.bool, rfl⟩, .step hname rfl rfl (by simp) (.cons hc .nil)⟩
  · cases op with
    | succ | pred =>
        refine ⟨⟨B, ?_⟩, .step hname rfl ?_ ?_ (.cons hc .nil)⟩
        · cases A <;> cases B <;> simp [Arithmetic.unaryStep, Arithmetic.arithmeticStep, hA]
        · cases A <;> cases B <;> simp [hA]
        · simp +contextual
    | iszero => exact ⟨⟨B, rfl⟩, .step hname rfl rfl (by simp) (.cons hc .nil)⟩
  · simp at he

theorem agrees_conditionalStep {pc pt pr qc qt qr : Proof} (hi : inner = true → inner' = true)
    (hc : Agrees pc qc) (ht : Agrees pt qt) (hr : Agrees pr qr) :
    Agrees (Rule.conditionalStep (Arithmetic.conclude style run) expected inner pc pt pr)
      (Rule.conditionalStep (Lambda.conclude run) expected inner' qc qt qr) := by
  refine ⟨ht.1, .step rfl rfl ht.2.type_eq (fun hs => ?_)
    (.cons hc.2 (.cons ht.2 (.cons hr.2 .nil)))⟩
  have hflag : inner = true ∧ expected = .nat := by simpa using hs
  simp [hi hflag.1, hflag.2]

theorem agrees_bracketedStep (he : expected.length ≤ 1) (h : Agrees p q) :
    Agrees (Rule.bracketedStep .arithmetic (Arithmetic.conclude style run) expected p)
      (Rule.bracketedStep .lambda (Lambda.conclude run) expected q) := by
  obtain ⟨⟨A, hA⟩, hc⟩ := h
  refine ⟨?_, .step rfl rfl ?_ id (.cons hc .nil)⟩
  · rcases expected with _ | ⟨B, _ | ⟨C, rest⟩⟩
    · exact ⟨A, hA⟩
    · exact ⟨B, rfl⟩
    · simp at he
  · rw [hc.type_eq]

/-- Deriving single runs of arithmetic against at most a base type, one engine ends within
the other, if every run that is an inner one for the first is so for the second. -/
def DerivesWithin (derive derive' : Run → Signature → Bool → Traced Proof) : Prop :=
  ∀ run expected inner inner', (∀ t ∈ run, t.isArithmetic = true) → expected.length ≤ 1 →
    (inner = true → inner' = true) →
      (derive run expected inner).Within Agrees (derive' run expected inner')

section Rules

variable {derive derive' : Run → Signature → Bool → Traced Proof} {rest : Run} {head : Token}

theorem conditional_within (h : DerivesWithin derive derive')
    (ha : ∀ t ∈ Token.cond :: rest, t.isArithmetic = true) (he : expected.length ≤ 1)
    (hi : inner = true → inner' = true) :
    (Rule.conditional derive (Arithmetic.conclude style (.cond :: rest)) (.cond :: rest) expected
        inner).Within Agrees
      (Rule.conditional derive' (Lambda.conclude (.cond :: rest)) (.cond :: rest) expected
        inner') := by
  refine .bind (.self _) ?_
  rintro parts _ ⟨rfl, hs⟩
  obtain ⟨hsc, hst, hsr⟩ := Conditional.subset_of_split hs
  refine .bind (h _ _ _ _ (fun t ht => ha t (hsc ht)) (Nat.le_refl 1) id) fun pc qc hc => ?_
  refine .bind (h _ _ _ _ (fun t ht => ha t (hst ht)) he id) fun pt qt ht => ?_
  refine .bind (h _ _ _ _ (fun t ht => ha t (hsr ht)) he id) fun pr qr hr => ?_
  rw [ht.2.type_eq, hr.2.type_eq]
  split
  · exact .fail _ _
  · exact .pure (agrees_conditionalStep hi hc ht hr)

theorem bracketed_within (h : DerivesWithin derive derive')
    (ha : ∀ t ∈ Token.lparen :: rest, t.isArithmetic = true) (he : expected.length ≤ 1) :
    (Rule.bracketed .arithmetic (fun r e => derive r e false)
        (Arithmetic.conclude style (.lparen :: rest)) (.lparen :: rest) expected).Within Agrees
      (Rule.bracketed .lambda (fun r e => derive' r e false) (Lambda.conclude (.lparen :: rest))
        (.lparen :: rest) expected) := by
  unfold Rule.bracketed
  split
  · exact .fail _ _
  · split
    · exact .fail _ _
    · rename_i hb
      obtain ⟨a, b, rfl, hlast⟩ := Run.exists_lastClose_of_balance (Decidable.not_not.1 hb)
      rw [Run.strip_eq_append a hlast]
      have hin : ∀ t ∈ a ++ b, t.isArithmetic = true := fun t ht =>
        ha t (Run.subset_bracketed a b ht)
      exact .bind (h _ _ _ _ hin he id) fun p q hq => .pure (agrees_bracketedStep he hq)

/-- The rules of a first token end within each other. -/
theorem dispatch_within (h : DerivesWithin derive derive')
    (ha : ∀ t ∈ head :: rest, t.isArithmetic = true) (he : expected.length ≤ 1)
    (hi : inner = true → inner' = true) :
    (Arithmetic.dispatch style derive head rest expected inner).Within Agrees
      (Lambda.dispatch signature derive' head rest expected inner') := by
  have hrest : ∀ t ∈ rest, t.isArithmetic = true := fun t ht => ha t (List.mem_cons_of_mem _ ht)
  have unary (op : UnaryOp) :
      (Arithmetic.dispatch style derive (.word op.word) rest expected inner).Within Agrees
        (Lambda.dispatch signature derive' (.word op.word) rest expected inner') := by
    by_cases hr : rest = []
    · subst hr
      rw [Arithmetic.dispatch_unary_nil, Lambda.dispatch_unary_nil]
      exact .fail _ _
    · rw [Arithmetic.dispatch_unary hr, Lambda.dispatch_unary hr]
      refine .bind (h _ _ _ _ hrest (op.length_demand_le he) Bool.noConfusion) fun p q hq => ?_
      exact .pure (agrees_unaryStep he hq)
  cases head with
  | var | fn => simp [Token.isArithmetic] at ha
  | ascription => exact .fail _ _
  | word w =>
      cases w with
      | truth => exact .pure (agrees_literal (r := .truth) (by decide) _ _)
      | falsity => exact .pure (agrees_literal (r := .falsity) (by decide) _ _)
      | zero => exact .pure (agrees_literal (r := .zero) (by decide) _ _)
      | thenBranch | elseBranch | rparen => exact .fail _ _
      | succ => exact unary .succ
      | pred => exact unary .pred
      | iszero => exact unary .iszero
      | cond => exact conditional_within h ha he hi
      | lparen => exact bracketed_within h ha he

end Rules

/-- **Level by level the arithmetic engine ends within the lambda engine.** -/
theorem derive_within (limit : Int) (style : Presentation) (signature : Option Signature)
    (left : Nat) :
    DerivesWithin (Arithmetic.derive limit style left)
      fun run expected inner => Lambda.derive limit signature left run [] expected inner := by
  induction left with
  | zero =>
      intro run expected inner inner' _ _ _
      cases run with
      | nil => exact .fail _ _
      | cons head rest =>
          rw [Arithmetic.derive]
          split
          · exact .fail _ _
          · exact .fail _ _
  | succ left ih =>
      intro run expected inner inner' ha he hi
      cases run with
      | nil => exact .fail _ _
      | cons head rest =>
          have hc : Run.candidate (head :: rest) = none :=
            Run.candidate_eq_none fun v hv => by cases ha _ hv
          dsimp only
          rw [Arithmetic.derive, Lambda.derive_cons hc]
          split
          · exact .of_bracketsMismatch _ _
          · exact .note_bind _ _ (dispatch_within ih ha he hi)

/-- **Arithmetic and the lambda calculus agree on runs without variables and without the
opaque function**, whatever base type is expected, if any.  What arithmetic derives the
lambda calculus derives with the same type and by the same rules, brackets being cited
differently, and the tree has the same shape and is flagged at least where the other is.
What the lambda calculus derives arithmetic derives too, unless it fails because brackets
do not balance. -/
theorem trees_agree_on_arithmetic (s : Settings) (style : Presentation)
    (signature : Option Signature) {run : Run} (ha : ∀ t ∈ run, t.isArithmetic = true)
    {expected : Signature} (he : expected = [] ∨ expected = .nat ∨ expected = .bool) :
    (∀ p, (Arithmetic.tree s style run expected).outcome = .ok p →
        ∃ q, (Lambda.tree s signature run [] expected false).outcome = .ok q ∧
          q.type = p.type ∧ q.rules = p.rules.map lambdaName ∧ Counterpart p q) ∧
      ∀ q, (Lambda.tree s signature run [] expected false).outcome = .ok q →
        (∃ p, (Arithmetic.tree s style run expected).outcome = .ok p) ∨
          ∃ n, (Arithmetic.tree s style run expected).outcome = .error (.bracketsMismatch n) := by
  have hlen : expected.length ≤ 1 := by
    rcases he with rfl | rfl | rfl <;> decide
  have hwithin := derive_within s.maxDepth style signature (Depth.levels s.maxDepth) run expected
    false false ha hlen id
  refine ⟨fun p hp => ?_, fun q hq => hwithin.ok_or_bracketsMismatch hq⟩
  obtain ⟨q, hq, -, hc⟩ := hwithin.exists_ok hp
  exact ⟨q, hq, hc.type_eq, hc.rules_eq, hc⟩

/-- The run `( succ if true then 0 else 0 )`.  Only the lambda calculus takes the operand
for an inner run and flags the conditional. -/
def bracketedChoice : Run :=
  [.lparen, .word .succ, .cond, .word .truth, .word .thenBranch, .word .zero,
    .word .elseBranch, .word .zero, .rparen]

theorem trees_agree_on_bracketedChoice :
    ∃ p q, (Arithmetic.tree {} .sequent bracketedChoice .nat).outcome = .ok p ∧
      (Lambda.tree {} none bracketedChoice [] .nat false).outcome = .ok q ∧
      p.hasMismatch = false ∧ q.hasMismatch = true ∧ q.type = p.type ∧
      q.rules = p.rules.map lambdaName ∧ Counterpart p q := by
  have hflag : ∀ q, (Lambda.tree {} none bracketedChoice [] .nat false).outcome = .ok q →
      q.hasMismatch = true := by
    intro q hq
    obtain rfl := Except.ok.inj hq
    rfl
  have ha : ∀ t ∈ bracketedChoice, t.isArithmetic = true := by decide
  obtain ⟨q, hq, htype, hrules, hc⟩ :=
    (trees_agree_on_arithmetic {} .sequent none ha (.inr (.inl rfl))).1 _ rfl
  exact ⟨_, q, rfl, hq, rfl, hflag q hq, htype, hrules, hc⟩

/-- The lambda calculus does not count the brackets after a literal. -/
example : (Lambda.tree {} none [.word .truth, .lparen] [] [] false).outcome.isOk = true ∧
    (Arithmetic.tree {} .sequent [.word .truth, .lparen] []).outcome.isOk = false := by
  decide

end TypeDeduction

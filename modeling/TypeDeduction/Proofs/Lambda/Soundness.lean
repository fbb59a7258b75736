/-
# Exact lambda derivations are made of rule instances

Against an expected type the engine passes three types along: the one expected of the
runs, the one a conclusion shows and the one a step hands on.  In a derivation
without mismatch they are the same at every step but one: an application shows the
expected type and hands on none.  Only two runs are derived as an application, so
what a rule derives from a single run has the type it asked for.  An abstraction is
the only step over two runs again, and it asks what its premise shows.

This is the invariant (`Checked`) of the induction by which each step of such a
derivation is an instance of its rule (`Derives.checked`), whatever the runs are.
-/

import TypeDeduction.Proofs.Lambda.Derivation
import TypeDeduction.Typing

namespace TypeDeduction

/-- The step cites the rule, and shows and hands on the type. -/
def Inference.Concludes (i : Inference) (rule : Rule) (type : Signature) : Prop :=
  i.rule = rule.name ∧ i.conclusion.type = type ∧ i.type = type

/-- The type that the root of a tree shows. -/
def Proof.shown : Proof → Signature
  | .step i _ => i.conclusion.type
  | .lookup l => l.type

namespace Lambda

/-- The rules of the lambda calculus, as a relation between a step and its premises. -/
inductive Instance : Inference → List Proof → Prop where
  | truth {i : Inference} (h : i.Concludes .truth .bool) : Instance i []
  | falsity {i : Inference} (h : i.Concludes .falsity .bool) : Instance i []
  | zero {i : Inference} (h : i.Concludes .zero .nat) : Instance i []
  | var {i : Inference} {l : Lookup} (h : i.Concludes .var l.type) : Instance i [.lookup l]
  | unary {i : Inference} {op : UnaryOp} {q : Proof} (h : i.Concludes op.rule [op.result])
      (hq : q.type = .nat) : Instance i [q]
  | cond {i : Inference} {type : Signature} {pc pt pr : Proof} (h : i.Concludes .cond type)
      (hc : pc.type = .bool) (ht : pt.type = type) (hr : pr.type = type) :
      Instance i [pc, pt, pr]
  | brackets {i : Inference} {q : Proof} (h : i.Concludes (.brackets .lambda) q.type) :
      Instance i [q]
  | abs {i : Inference} {domain : BaseType} {body : Proof}
      (h : i.Concludes .abs (domain :: body.shown)) : Instance i [body]
  | app {i : Inference} {domain : BaseType} {result : Signature} {pf pa : Proof}
      (hr : i.rule = Rule.app.name) (hc : i.conclusion.type = domain :: result)
      (hf : pf.type = domain :: domain :: result) (ha : pa.type = domain :: result) :
      Instance i [pf, pa]

variable {signature : Option Signature} {first second : Run} {expected : Signature}
  {inner : Bool} {p q : Proof}

/-- All steps of the tree are instances of their rules. -/
def Instances (p : Proof) : Prop := ∀ i ps, Proof.step i ps ∈ p.subproofs → Instance i ps

theorem instances_step {i : Inference} {ps : List Proof} :
    Instances (.step i ps) ↔ Instance i ps ∧ ∀ q ∈ ps, Instances q :=
  Proof.everywhere_step

theorem instances_lookup (l : Lookup) : Instances (.lookup l) :=
  Proof.everywhere_lookup l

/-! ### Steps without mismatch -/

/-- A literal fits at its own type only. -/
theorem eq_of_hasMismatch_literal {rule : String} {own : BaseType} {showsExpected : Bool}
    {conclude : Signature → Judgment} (hne : expected ≠ [])
    (hm : (Rule.literal rule own showsExpected expected conclude).hasMismatch = false) :
    expected = [own] := by
  have hs := (Proof.hasMismatch_step.1 hm).1
  exact (Rule.status_literal.1 hs).resolve_left hne

/-- An operator fits at the type of its result only. -/
theorem eq_of_hasMismatch_unaryStep {op : UnaryOp} {conclude : Signature → Judgment}
    (hne : expected ≠ []) (hm : (unaryStep op conclude expected q).hasMismatch = false) :
    expected = [op.result] ∧ q.hasMismatch = false := by
  cases op <;>
    simpa [unaryStep, arithmeticStep, iszeroStep, Proof.hasMismatch_step, hne,
      UnaryOp.result] using hm

/-- A variable fits at its declared type only, and its lookup if the context agrees. -/
theorem eq_of_hasMismatch_occurrenceStep {v : Variable} {declared : BaseType}
    (hne : expected ≠ []) (hm : (occurrenceStep v declared expected).hasMismatch = false) :
    expected = [declared] ∧ v.context = some declared := by
  obtain ⟨hs, hl⟩ := Proof.hasMismatch_step.1 hm
  have hfit : expected = [declared] := by simpa [hne] using hs
  refine ⟨hfit, ?_⟩
  simpa [Proof.hasMismatch_lookup, hfit] using hl

/-- The opaque function fits at its signature only. -/
theorem eq_of_hasMismatch_functionStep {type : Signature} (hne : expected ≠ [])
    (hm : (functionStep type expected).hasMismatch = false) : expected = type := by
  have hs := (Proof.hasMismatch_step.1 hm).1
  have hfit : expected.length = 2 ∧ expected = type := by simpa [hne] using hs
  exact hfit.2

/-! ### Derivations without mismatch -/

/-- What a derivation without mismatch is, if the second of its runs is the given one:
made of rule instances, showing the expected type, and handing it on unless it is an
application, which takes two runs. -/
structure Checked (second : Run) (expected : Signature) (p : Proof) : Prop where
  instances : Instances p
  shown : p.shown = expected
  type : p.type = expected ∨
    second ≠ [] ∧ p.type = [] ∧ p.root.rule? = some Rule.app.name

/-- A single run has the type that was asked for. -/
theorem Checked.type_eq (h : Checked [] expected p) : p.type = expected :=
  h.type.resolve_right fun happ => happ.1 rfl

/-- **What is derived without mismatch against a type is checked.** -/
theorem Derives.checked (h : Derives signature first second expected inner p)
    (hne : expected ≠ []) (hm : p.hasMismatch = false) : Checked second expected p := by
  induction h with
  | @abs first second domain result rest inner v body hv _ ih =>
      obtain ⟨-, hps⟩ := Proof.hasMismatch_step.1 hm
      rw [List.forall_mem_singleton] at hps
      have hb := ih (List.cons_ne_nil _ _) hps
      -- The body hands on its type or, as an application, none; then the expected one counts.
      have ht : (if body.type = [] then domain :: result :: rest else domain :: body.type) =
          domain :: result :: rest := by
        rcases hb.type with h | ⟨-, h, -⟩ <;> simp [h]
      have hs : domain :: result :: rest = domain :: body.shown := by rw [hb.shown]
      refine ⟨instances_step.2 ⟨.abs ⟨rfl, hs, ht.trans hs⟩, ?_⟩, rfl, .inl ht⟩
      simpa using hb.instances
  | @app first second expected inner pf pa _ _ hn _ _ iha ihf =>
      obtain ⟨-, hps⟩ := Proof.hasMismatch_step.1 hm
      simp only [List.mem_cons, List.not_mem_nil, or_false, forall_eq_or_imp, forall_eq] at hps
      obtain ⟨domain, result, rfl⟩ := List.exists_cons_of_ne_nil hne
      have ha := iha hne hps.2
      rw [ha.type_eq] at ihf
      have hf := ihf (List.cons_ne_nil _ _) hps.1
      refine ⟨instances_step.2 ⟨.app rfl rfl hf.type_eq ha.type_eq, ?_⟩, rfl, .inr ⟨hn, rfl, rfl⟩⟩
      simpa using ⟨hf.instances, ha.instances⟩
  | var hc hd =>
      obtain ⟨rfl, hctx⟩ := eq_of_hasMismatch_occurrenceStep hne hm
      refine ⟨instances_step.2 ⟨.var ⟨rfl, ?_, ?_⟩, ?_⟩, rfl, .inl rfl⟩
      · simp [hctx]
      · simp [hctx]
      · simpa using instances_lookup _
  | @fn type expected inner hs =>
      obtain rfl := eq_of_hasMismatch_functionStep hne hm
      have hshown : (functionStep expected expected).shown = expected := if_neg hne
      refine ⟨instances_step.2 ⟨.var ⟨rfl, hshown, rfl⟩, ?_⟩, hshown, .inl rfl⟩
      simpa using instances_lookup _
  | truth hc =>
      obtain rfl := eq_of_hasMismatch_literal hne hm
      exact ⟨instances_step.2 ⟨.truth ⟨rfl, rfl, rfl⟩, by simp⟩, rfl, .inl rfl⟩
  | falsity hc =>
      obtain rfl := eq_of_hasMismatch_literal hne hm
      exact ⟨instances_step.2 ⟨.falsity ⟨rfl, rfl, rfl⟩, by simp⟩, rfl, .inl rfl⟩
  | zero hc =>
      obtain rfl := eq_of_hasMismatch_literal hne hm
      exact ⟨instances_step.2 ⟨.zero ⟨rfl, rfl, rfl⟩, by simp⟩, rfl, .inl rfl⟩
  | @unary op w rest expected inner q _ _ _ ih =>
      obtain ⟨rfl, hps⟩ := eq_of_hasMismatch_unaryStep hne hm
      have hd : op.demand [op.result] = .nat := by cases op <;> rfl
      rw [hd] at ih
      have hq := ih (List.cons_ne_nil _ _) hps
      have hI : ∀ r ∈ [q], Instances r := by simpa using hq.instances
      cases op <;>
        exact ⟨instances_step.2 ⟨.unary ⟨rfl, rfl, rfl⟩ hq.type_eq, hI⟩, rfl, .inl rfl⟩
  | @cond rest parts expected inner pc pt pr _ _ _ _ _ _ ihc iht ihr =>
      obtain ⟨-, hps⟩ := Proof.hasMismatch_step.1 hm
      simp only [List.mem_cons, List.not_mem_nil, or_false, forall_eq_or_imp, forall_eq] at hps
      have hc := ihc (List.cons_ne_nil _ _) hps.1
      have ht := iht hne hps.2.1
      have hr := ihr hne hps.2.2
      have hshown : (if (inner ∨ expected = []) ∧ pt.type ≠ [] then pt.type else expected) =
          expected := by
        rw [ht.type_eq, ite_self]
      refine ⟨instances_step.2 ⟨.cond ⟨rfl, hshown, ht.type_eq⟩ hc.type_eq ht.type_eq hr.type_eq,
        ?_⟩, hshown, .inl ht.type_eq⟩
      simpa using ⟨hc.instances, ht.instances, hr.instances⟩
  | @bracketed a b rest expected inner q _ _ _ _ _ ih =>
      obtain ⟨-, hps⟩ := Proof.hasMismatch_step.1 hm
      rw [List.forall_mem_singleton] at hps
      have hq := ih hne hps
      have hshown : (if expected = [] then q.type else expected) = expected := if_neg hne
      have htype : (if expected = [] then q.type else expected) = q.type :=
        hshown.trans hq.type_eq.symm
      refine ⟨instances_step.2 ⟨.brackets ⟨rfl, htype, htype⟩, ?_⟩, hshown, .inl hshown⟩
      simpa using hq.instances

/-- **Exact checking is sound.**  Whatever the runs, the signature of the opaque function
and the settings are: if a derivation against a type is found and has no mismatch, every
step is an instance of its rule, and the tree has the expected type unless its root is
an application. -/
theorem exact_tree_made_of_instances (s : Settings) (signature : Option Signature)
    (first second : Run) {expected : Signature} (inner : Bool) {p : Proof} (hne : expected ≠ [])
    (hp : (tree s signature first second expected inner).outcome = .ok p)
    (hm : p.hasMismatch = false) :
    (∀ i ps, Proof.step i ps ∈ p.subproofs → Instance i ps) ∧
      (p.root.rule? ≠ some Rule.app.name → p.type = expected) := by
  have h := (derive_eq_ok_iff.1 hp).1.checked hne hm
  exact ⟨h.instances, fun hr => h.type.resolve_right fun happ => hr happ.2.2⟩

/-- A variable that stands for an abstraction over the numbers. -/
def freeNumber : Variable := { name := "x", declared := some .nat }

theorem exact_tree_of_application_under_binder :
    ∃ p, (tree {} (some [.nat, .nat]) [.fn] [.word .succ, .var freeNumber] [.nat, .nat]
        false).outcome = .ok p ∧ p.hasMismatch = false ∧
      (∀ i ps, Proof.step i ps ∈ p.subproofs → Instance i ps) ∧
      (p.root.rule? ≠ some Rule.app.name → p.type = [.nat, .nat]) := by
  refine ⟨_, rfl, rfl, ?_⟩
  exact exact_tree_made_of_instances {} (some [.nat, .nat]) [.fn]
    [.word .succ, .var freeNumber] false (by decide) rfl rfl

end Lambda
end TypeDeduction

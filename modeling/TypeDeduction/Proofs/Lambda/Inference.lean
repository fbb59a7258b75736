/-
# Lambda derivations with nothing expected

With no expected type a rule takes the types it finds.  Without mismatch these are of
two kinds: a base type, or the signature of the opaque function, which alone has
another type (`Inferable`).  Where a rule asks for a type of its own, for a condition
or the operand of `iszero`, its premise is checked as against any other type.

The rules compare little of what they find.  A conditional asks that the types of its
branches start alike, so one branch may be the opaque function and the other an element
of its domain.  An application takes its function and its argument as they are and
shows what is left of the function's type, which is nothing if that is a base type.
-/

import TypeDeduction.Proofs.Lambda.Abstractions
import TypeDeduction.Proofs.Lambda.Soundness

namespace TypeDeduction
namespace Lambda

variable {signature : Option Signature} {σ : Signature} {first second : Run}
  {expected : Signature} {inner : Bool} {p q : Proof}

/-- The types that are inferred: base types and the signature of the opaque function. -/
def Inferable (σ type : Signature) : Prop := type = σ ∨ ∃ A, type = [A]

/-- The branches have the same type, or one is the opaque function and the other an
element of its domain. -/
def BranchesMeet (σ thenType elseType : Signature) : Prop :=
  thenType = elseType ∨
    ∃ A, σ.head? = some A ∧ (thenType = σ ∧ elseType = [A] ∨ thenType = [A] ∧ elseType = σ)

/-- Inferred types that start alike meet. -/
theorem Inferable.branchesMeet {thenType elseType : Signature} (ht : Inferable σ thenType)
    (hr : Inferable σ elseType) (heq : thenType.head? = elseType.head?) :
    BranchesMeet σ thenType elseType := by
  rcases ht with rfl | ⟨A, rfl⟩ <;> rcases hr with rfl | ⟨B, rfl⟩
  · exact .inl rfl
  · exact .inr ⟨B, heq, .inl ⟨rfl, rfl⟩⟩
  · exact .inr ⟨A, heq.symm, .inr ⟨rfl, rfl⟩⟩
  · exact .inl (congrArg (fun A => [A]) (Option.some.inj heq))

/-- The step, if it is a conditional, has branches that meet. -/
def MeetsAt (σ : Signature) (i : Inference) (ps : List Proof) : Prop :=
  i.rule = Rule.cond.name →
    ∃ pc pt pr, ps = [pc, pt, pr] ∧ BranchesMeet σ pt.type pr.type

/-- Other steps have nothing to meet. -/
theorem meetsAt_of_ne {i : Inference} {ps : List Proof} {r : Rule} (hi : i.rule = r.name)
    (h : r.name ≠ Rule.cond.name) : MeetsAt σ i ps :=
  fun hc => absurd (hi.symm.trans hc) h

/-- The branches of a conditional that is an instance of its rule have the same type. -/
theorem Instance.meetsAt {i : Inference} {ps : List Proof} (h : Instance i ps) :
    MeetsAt σ i ps := by
  cases h with
  | cond _ _ ht hr => exact fun _ => ⟨_, _, _, rfl, .inl (ht.trans hr.symm)⟩
  | @unary op _ h => exact meetsAt_of_ne h.1 (by cases op <;> decide)
  | app hr => exact meetsAt_of_ne hr (by decide)
  | truth h | falsity h | zero h | var h | brackets h | abs h =>
      exact meetsAt_of_ne h.1 (by decide)

/-- A premise that a type is asked of has branches that meet. -/
theorem Derives.meets_of_expected (h : Derives signature first second expected inner p)
    (hne : expected ≠ []) (hm : p.hasMismatch = false) : p.Everywhere (MeetsAt σ) :=
  fun i ps hmem => ((h.checked hne hm).instances i ps hmem).meetsAt

/-- An operator with nothing expected fits only if it hands on the type of its result. -/
theorem type_of_hasMismatch_unaryStep {op : UnaryOp} {conclude : Signature → Judgment}
    (hm : (unaryStep op conclude [] q).hasMismatch = false) :
    (unaryStep op conclude [] q).type = [op.result] ∧ q.hasMismatch = false := by
  cases op with
  | succ | pred =>
      obtain ⟨hs, hps⟩ := Proof.hasMismatch_step.1 hm
      exact ⟨by simpa [unaryStep, arithmeticStep, UnaryOp.result] using hs, by simpa using hps⟩
  | iszero => exact ⟨rfl, by simpa using (Proof.hasMismatch_step.1 hm).2⟩

/-- A step that is no conditional adds nothing to what meets in its premises. -/
theorem meets_step_of_ne {i : Inference} {ps : List Proof} {r : Rule} (hi : i.rule = r.name)
    (h : r.name ≠ Rule.cond.name) (hps : ∀ q ∈ ps, q.Everywhere (MeetsAt σ)) :
    (Proof.step i ps).Everywhere (MeetsAt σ) :=
  Proof.everywhere_step.2 ⟨meetsAt_of_ne hi h, hps⟩

/-- **Without mismatch a single run is inferred to have a base type or that of the opaque
function**, and the branches of all conditionals meet. -/
theorem Derives.inferred (h : Derives (some σ) first second expected inner p)
    (hs : second = []) (he : expected = []) (hm : p.hasMismatch = false) :
    Inferable σ p.type ∧ p.Everywhere (MeetsAt σ) := by
  induction h with
  | abs => cases he
  | app _ _ hn => exact absurd hs hn
  | @var v declared =>
      refine ⟨.inr ⟨declared, rfl⟩, meets_step_of_ne (r := .var) rfl (by decide) ?_⟩
      simpa using Proof.everywhere_lookup _
  | fn htype =>
      obtain rfl := Option.some.inj htype
      refine ⟨.inl rfl, meets_step_of_ne (r := .var) rfl (by decide) ?_⟩
      simpa using Proof.everywhere_lookup _
  | truth => exact ⟨.inr ⟨.bool, rfl⟩, meets_step_of_ne (r := .truth) rfl (by decide) (by simp)⟩
  | falsity =>
      exact ⟨.inr ⟨.bool, rfl⟩, meets_step_of_ne (r := .falsity) rfl (by decide) (by simp)⟩
  | zero => exact ⟨.inr ⟨.nat, rfl⟩, meets_step_of_ne (r := .zero) rfl (by decide) (by simp)⟩
  | @unary op w rest expected inner q _ _ operand ih =>
      subst he
      obtain ⟨htype, hq⟩ := type_of_hasMismatch_unaryStep hm
      -- The operand of `iszero` is checked, those of the others are inferred.
      have hop : ∀ q' ∈ [q], q'.Everywhere (MeetsAt σ) := by
        rw [List.forall_mem_singleton]
        cases op with
        | succ | pred => exact (ih rfl rfl hq).2
        | iszero => exact operand.meets_of_expected (List.cons_ne_nil _ _) hq
      refine ⟨.inr ⟨op.result, htype⟩, ?_⟩
      cases op with
      | succ => exact meets_step_of_ne (r := .succ) rfl (by decide) hop
      | pred => exact meets_step_of_ne (r := .pred) rfl (by decide) hop
      | iszero => exact meets_step_of_ne (r := .iszero) rfl (by decide) hop
  | @cond rest parts expected inner pc pt pr _ _ hc _ _ heq _ iht ihr =>
      subst he
      obtain ⟨-, hps⟩ := Proof.hasMismatch_step.1 hm
      simp only [List.mem_cons, List.not_mem_nil, or_false, forall_eq_or_imp, forall_eq] at hps
      obtain ⟨ht, hmt⟩ := iht rfl rfl hps.2.1
      obtain ⟨hr, hmr⟩ := ihr rfl rfl hps.2.2
      have hmc : pc.Everywhere (MeetsAt σ) := hc.meets_of_expected (List.cons_ne_nil _ _) hps.1
      refine ⟨ht, Proof.everywhere_step.2 ⟨fun _ => ⟨pc, pt, pr, rfl, ht.branchesMeet hr heq⟩, ?_⟩⟩
      simpa using ⟨hmc, hmt, hmr⟩
  | bracketed _ _ _ _ _ ih =>
      subst he
      obtain ⟨-, hps⟩ := Proof.hasMismatch_step.1 hm
      rw [List.forall_mem_singleton] at hps
      obtain ⟨hq, hmq⟩ := ih rfl rfl hps
      exact ⟨hq, meets_step_of_ne (r := .brackets .lambda) rfl (by decide) (by simpa using hmq)⟩

/-! ### Applications -/

/-- The step, if it is an application, shows what is left of its function's type, and the
types of its premises are inferred ones.  It shows a type exactly if the function has the
signature of the opaque one. -/
def AppliesAt (σ : Signature) (i : Inference) (ps : List Proof) : Prop :=
  i.rule = Rule.app.name →
    ∃ pf pa, ps = [pf, pa] ∧ Inferable σ pf.type ∧ Inferable σ pa.type ∧
      i.conclusion.type = pf.type.tail ∧ (i.conclusion.type ≠ [] ↔ pf.type = σ)

/-- Of an inferred type something is left exactly if it is that of the opaque function. -/
theorem Inferable.tail_ne_nil_iff {type : Signature} (h : Inferable σ type)
    (hσ : 2 ≤ σ.length) : type.tail ≠ [] ↔ type = σ := by
  have hne : σ.tail ≠ [] := by
    rw [← List.length_pos_iff, List.length_tail]
    omega
  rcases h with rfl | ⟨A, rfl⟩
  · exact ⟨fun _ => rfl, fun _ => hne⟩
  · refine ⟨fun h => absurd rfl h, fun h => ?_⟩
    rw [← h, List.length_singleton] at hσ
    omega

/-- In the derivation of a single run there is no application to speak of. -/
theorem Derives.appliesAt_of_single (h : Derives signature first second expected inner p)
    (hs : second = []) : p.Everywhere (AppliesAt σ) := by
  intro i ps hmem happ
  have hrule := Proof.rule_mem_rules hmem
  rw [happ] at hrule
  exact absurd hrule (h.app_notMem_rules hs)

/-- **What inference without mismatch says of applications and conditionals.**  Only the
root can be an application, and then both its premises are inferred. -/
theorem Derives.appliesAt_and_meetsAt (h : Derives (some σ) first second [] inner p)
    (hσ : 2 ≤ σ.length) (hm : p.hasMismatch = false) :
    p.Everywhere (AppliesAt σ) ∧ p.Everywhere (MeetsAt σ) := by
  by_cases hs : second = []
  · exact ⟨h.appliesAt_of_single hs, (h.inferred hs rfl hm).2⟩
  · cases h with
    | @app _ _ _ _ pf pa _ _ _ argument function =>
        obtain ⟨-, hps⟩ := Proof.hasMismatch_step.1 hm
        simp only [List.mem_cons, List.not_mem_nil, or_false, forall_eq_or_imp, forall_eq] at hps
        have hfree : functionType pa.type [] = [] := by cases pa.type <;> rfl
        obtain ⟨hf, hmf⟩ := function.inferred rfl hfree hps.1
        obtain ⟨ha, hma⟩ := argument.inferred rfl rfl hps.2
        constructor
        · refine Proof.everywhere_step.2
            ⟨fun _ => ⟨pf, pa, rfl, hf, ha, rfl, hf.tail_ne_nil_iff hσ⟩, ?_⟩
          simpa using ⟨function.appliesAt_of_single rfl, argument.appliesAt_of_single rfl⟩
        · exact meets_step_of_ne (r := .app) rfl (by decide) (by simpa using ⟨hmf, hma⟩)
    | _ => exact absurd rfl hs

/-- **Exact inference.**  Let the opaque function have a function type.  If a derivation
with nothing expected is found and has no mismatch, then at every application the premises
have inferred types, the conclusion shows what is left of the function's, and it shows a
type exactly if the function has the signature of the opaque one; and at every conditional
the types of the branches are the same, or one is the signature of the opaque function and
the other its domain. -/
theorem exact_inference_types_premises (s : Settings) {σ : Signature} (hσ : 2 ≤ σ.length)
    (first second : Run) (inner : Bool) {p : Proof}
    (hp : (tree s (some σ) first second [] inner).outcome = .ok p) (hm : p.hasMismatch = false) :
    ∀ i ps, Proof.step i ps ∈ p.subproofs → AppliesAt σ i ps ∧ MeetsAt σ i ps := by
  obtain ⟨happ, hmeet⟩ := (derive_eq_ok_iff.1 hp).1.appliesAt_and_meetsAt hσ hm
  exact fun i ps hmem => ⟨happ i ps hmem, hmeet i ps hmem⟩

/-- The run `if true then f else 0`. -/
def functionOrZero : Run :=
  [.cond, .word .truth, .word .thenBranch, .fn, .word .elseBranch, .word .zero]

theorem exact_inference_of_functionOrZero :
    ∃ p, (tree {} (some [.nat, .bool]) [.fn] functionOrZero [] false).outcome = .ok p ∧
      p.hasMismatch = false ∧ p.rules = ["T-app", "T-var", "T-if", "T-true", "T-var", "T-zero"] ∧
      ∀ i ps, Proof.step i ps ∈ p.subproofs →
        AppliesAt [.nat, .bool] i ps ∧ MeetsAt [.nat, .bool] i ps := by
  refine ⟨_, rfl, rfl, rfl, ?_⟩
  exact exact_inference_types_premises {} (by decide) [.fn] functionOrZero false rfl rfl

/-- The tree is inferred without mismatch, and the opaque function has the given function
type. -/
def InferredExactly (σ : Signature) (p : Proof) : Prop :=
  2 ≤ σ.length ∧ p.hasMismatch = false ∧
    ∃ s first second inner, (tree s (some σ) first second [] inner).outcome = .ok p

/-- **Exact inference does not compare all it finds.**  In `0 0` the function has a base
type, in `f true` the argument does not have the domain of `f` as its type, and in
`if true then f else 0` the branches have different types. -/
theorem exact_inference_without_agreement :
    (¬ ∀ σ p, InferredExactly σ p → ∀ i pf pa, Proof.step i [pf, pa] ∈ p.subproofs →
        i.rule = Rule.app.name → 2 ≤ pf.type.length) ∧
      (¬ ∀ σ p, InferredExactly σ p → ∀ i pf pa, Proof.step i [pf, pa] ∈ p.subproofs →
        i.rule = Rule.app.name → ∃ A, pf.type.head? = some A ∧ pa.type = [A]) ∧
      ¬ ∀ σ p, InferredExactly σ p → ∀ i pc pt pr, Proof.step i [pc, pt, pr] ∈ p.subproofs →
        i.rule = Rule.cond.name → pt.type = pr.type := by
  refine ⟨fun h => ?_, fun h => ?_, fun h => ?_⟩
  · have hroot := h [.nat, .nat] _
      ⟨by decide, rfl, {}, [.word .zero], [.word .zero], false, rfl⟩ _ _ _ List.mem_cons_self rfl
    exact absurd hroot (by decide)
  · obtain ⟨A, hA, hroot⟩ := h [.nat, .nat] _
      ⟨by decide, rfl, {}, [.fn], [.word .truth], false, rfl⟩ _ _ _ List.mem_cons_self rfl
    cases hA
    cases hroot
  · have hroot := h [.nat, .nat] _
      ⟨by decide, rfl, {}, functionOrZero, [], false, rfl⟩ _ _ _ _ List.mem_cons_self rfl
    cases hroot

end Lambda
end TypeDeduction

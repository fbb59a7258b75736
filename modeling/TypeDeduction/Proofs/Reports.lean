/-
# Reports say what trees say

A report is made in two steps that can fail: a tree is derived, and its LaTeX is written.
The second fails at a conclusion whose type is unconstrained and nowhere else
(`exists_markup_iff_typed`), so a report agrees with its tree as soon as all conclusions
show a type.  That they do comes from the rules, one by one.

* Against an expected type a rule shows that type, a type of its own, or the type of a
  premise that has one.  What it expects of its premises is a type again.
* With nothing expected a rule shows what its premises hand on.  In arithmetic that is
  always a type.  In the lambda calculus `succ` and `pred` show base types only, and an
  application hands on none; a single run without the opaque function has neither
  applications nor types that are not base types.

An application with nothing expected may have no type to show, and then there is a tree
and no report.
-/

import TypeDeduction.Proofs.Arithmetic.Derivation
import TypeDeduction.Proofs.Lambda.Derivation
import TypeDeduction.Report

namespace TypeDeduction

variable {s : Settings} {expected : Signature} {inner : Bool} {p q : Proof}

/-! ### Trees that can be written -/

/-- Every conclusion of the tree shows a type. -/
def Proof.Typed (p : Proof) : Prop := p.Everywhere fun i _ => i.conclusion.type ≠ []

theorem Proof.typed_step {i : Inference} {ps : List Proof} :
    (Proof.step i ps).Typed ↔ i.conclusion.type ≠ [] ∧ ∀ q ∈ ps, q.Typed :=
  Proof.everywhere_step

theorem Proof.typed_lookup (l : Lookup) : (Proof.lookup l).Typed := Proof.everywhere_lookup l

/-- An inference can be written if its conclusion shows a type. -/
theorem Inference.exists_markup_iff {i : Inference} {above : List String} :
    (∃ text, i.markup s above = .ok text) ↔ i.conclusion.type ≠ [] := by
  unfold Inference.markup Judgment.markup
  split <;> simp [*, Bind.bind, Except.bind, Pure.pure, Except.pure]

namespace Proof

/-- Several trees can be written if each can. -/
theorem exists_markupAll_iff {ps : List Proof} :
    (∃ above, markupAll s ps = .ok above) ↔ ∀ q ∈ ps, ∃ text, q.markup s = .ok text := by
  induction ps with
  | nil => simp [markupAll, Pure.pure, Except.pure]
  | cons p ps ih =>
      rw [List.forall_mem_cons, ← ih, markupAll]
      cases p.markup s <;> cases markupAll s ps <;>
        simp [Bind.bind, Except.bind, Pure.pure, Except.pure]

/-- **A tree can be written if and only if all its conclusions show a type.** -/
theorem exists_markup_iff_typed : (∃ text, p.markup s = .ok text) ↔ p.Typed := by
  induction p using induct with
  | step i ps ih =>
      have hps : (∃ above, markupAll s ps = .ok above) ↔ ∀ q ∈ ps, q.Typed := by
        rw [exists_markupAll_iff]
        exact forall₂_congr ih
      rw [typed_step, ← hps, markup]
      cases markupAll s ps with
      | ok above =>
          have hi : (∃ text, i.markup s above = .ok text) ↔ _ := Inference.exists_markup_iff
          simpa [Bind.bind, Except.bind] using hi
      | error f => simp [Bind.bind, Except.bind]
  | lookup l => exact iff_of_true ⟨_, rfl⟩ (typed_lookup l)

end Proof

/-! ### The rules that both calculi have -/

/-- What is shown where no type is expected is a type if one of the two is. -/
theorem Signature.shown_ne_nil {other : Signature} (h : expected ≠ [] ∨ other ≠ []) :
    (if expected = [] then other else expected) ≠ [] := by
  split
  · rename_i he
    exact h.resolve_left fun hne => hne he
  · assumption

namespace Rule

variable {conclude : Signature → Judgment}

/-- A literal shows its own type, or an expected type that does not fit. -/
theorem typed_literal (hc : ∀ type, (conclude type).type = type) {rule : String} {own : BaseType}
    {showsExpected : Bool} : (literal rule own showsExpected expected conclude).Typed := by
  refine Proof.typed_step.2 ⟨?_, by simp⟩
  by_cases he : expected = []
  · simp [hc, he]
  · rw [hc]
    split
    · exact List.cons_ne_nil own []
    · exact he

/-- A conditional shows the type of its branch or the expected one. -/
theorem typed_conditionalStep (hc : ∀ type, (conclude type).type = type) {pc pt pr : Proof}
    (h : expected ≠ [] ∨ pt.type ≠ []) (hpc : pc.Typed) (hpt : pt.Typed) (hpr : pr.Typed) :
    (conditionalStep conclude expected inner pc pt pr).Typed := by
  refine Proof.typed_step.2 ⟨?_, by simpa using ⟨hpc, hpt, hpr⟩⟩
  rw [hc]
  split
  · rename_i hshown
    exact hshown.2
  · rename_i hshown
    rintro rfl
    rcases h with h | h
    · exact h rfl
    · exact hshown ⟨.inr rfl, h⟩

/-- Brackets show what is expected of them, or else the type of what they enclose. -/
theorem typed_bracketedStep (hc : ∀ type, (conclude type).type = type) {calculus : Calculus}
    (h : expected ≠ [] ∨ q.type ≠ []) (hq : q.Typed) :
    (bracketedStep calculus conclude expected q).Typed := by
  refine Proof.typed_step.2 ⟨?_, List.forall_mem_singleton.2 hq⟩
  rw [hc]
  exact Signature.shown_ne_nil h

end Rule

/-! ### Arithmetic -/

namespace Arithmetic

/-- An operator shows what is expected of it, or else a type of its own or its operand's. -/
theorem typed_unaryStep {op : UnaryOp} {run : Run} {style : Presentation} (hq : q.Typed)
    (ht : q.type ≠ []) :
    (unaryStep op (conclude style run) expected q).Typed ∧
      (unaryStep op (conclude style run) expected q).type ≠ [] := by
  have hpremises := List.forall_mem_singleton.2 hq
  cases op with
  | succ | pred =>
      have hshown : (if expected = [] then q.type else expected) ≠ [] :=
        Signature.shown_ne_nil (.inr ht)
      refine ⟨Proof.typed_step.2 ⟨hshown, hpremises⟩, ?_⟩
      simp only [unaryStep, arithmeticStep, Proof.type_step]
      split
      · exact hshown
      · exact ht
  | iszero =>
      have hshown : (if expected = [] then .bool else expected) ≠ [] :=
        Signature.shown_ne_nil (.inr (List.cons_ne_nil _ _))
      exact ⟨Proof.typed_step.2 ⟨hshown, hpremises⟩, hshown⟩

/-- **Every arithmetic derivation shows types and hands one on.** -/
theorem Derives.typed {style : Presentation} {run : Run}
    (h : Derives style run expected inner p) : p.Typed ∧ p.type ≠ [] := by
  induction h with
  | truth | falsity | zero =>
      exact ⟨Rule.typed_literal fun _ => rfl, List.cons_ne_nil _ _⟩
  | unary op _ ih => exact typed_unaryStep ih.1 ih.2
  | cond _ _ _ _ _ ihc iht ihr =>
      exact ⟨Rule.typed_conditionalStep (fun _ => rfl) (.inr iht.2) ihc.1 iht.1 ihr.1, iht.2⟩
  | bracketed _ _ ih =>
      exact ⟨Rule.typed_bracketedStep (fun _ => rfl) (.inr ih.2) ih.1,
        Signature.shown_ne_nil (.inr ih.2)⟩

end Arithmetic

/-! ### The lambda calculus -/

namespace Lambda

variable {signature : Option Signature} {first second : Run}

theorem functionType_ne_nil (h : expected ≠ []) (argument : Signature) :
    functionType argument expected ≠ [] := by
  unfold functionType
  split
  · exact List.cons_ne_nil _ _
  · exact h

/-- An operator shows the type that is expected of it. -/
theorem typed_unaryStep {op : UnaryOp} {run : Run} (he : expected ≠ []) (hq : q.Typed) :
    (unaryStep op (conclude run) expected q).Typed := by
  cases op <;> exact Proof.typed_step.2 ⟨by simp [conclude, he], List.forall_mem_singleton.2 hq⟩

theorem typed_occurrenceStep {v : Variable} {declared : BaseType} :
    (occurrenceStep v declared expected).Typed :=
  Proof.typed_step.2 ⟨List.cons_ne_nil _ _, List.forall_mem_singleton.2 (Proof.typed_lookup _)⟩

/-- **A lambda derivation against an expected type shows types.** -/
theorem Derives.typed_of_expected (h : Derives signature first second expected inner p)
    (he : expected ≠ []) : p.Typed := by
  induction h with
  | abs _ _ ih =>
      have hbody := ih (List.cons_ne_nil _ _)
      exact Proof.typed_step.2 ⟨List.cons_ne_nil _ _, List.forall_mem_singleton.2 hbody⟩
  | @app _ _ _ _ _ pa _ _ _ _ _ iha ihf =>
      refine Proof.typed_step.2 ⟨by simp [conclude, he], ?_⟩
      simpa using ⟨ihf (functionType_ne_nil he pa.type), iha he⟩
  | var => exact typed_occurrenceStep
  | fn =>
      refine Proof.typed_step.2 ⟨by simp [he], List.forall_mem_singleton.2 ?_⟩
      exact Proof.typed_lookup _
  | truth | falsity | zero => exact Rule.typed_literal fun _ => rfl
  | @unary op _ _ expected _ _ _ _ _ ih =>
      have hdemand : op.demand expected ≠ [] := by
        cases op with
        | succ | pred => exact he
        | iszero => exact List.cons_ne_nil _ _
      exact typed_unaryStep he (ih hdemand)
  | cond _ _ _ _ _ _ ihc iht ihr =>
      exact Rule.typed_conditionalStep (fun _ => rfl) (.inl he) (ihc (List.cons_ne_nil _ _)) (iht he)
        (ihr he)
  | bracketed _ _ _ _ _ ih => exact Rule.typed_bracketedStep (fun _ => rfl) (.inl he) (ih he)

/-- **A single run without the opaque function shows types with nothing expected**, and
hands on a base type.  What is asked of a condition or of the operand of `iszero` is a
type, so there the derivation is one against an expected type. -/
theorem Derives.typed_of_inferred (h : Derives signature first second expected inner p)
    (hs : second = []) (he : expected = []) (hf : Token.fn ∉ first) :
    p.Typed ∧ ∃ A, p.type = [A] := by
  induction h with
  | abs => cases he
  | app _ _ hn => exact absurd hs hn
  | var => exact ⟨typed_occurrenceStep, _, rfl⟩
  | fn => exact absurd (List.mem_singleton.2 rfl) hf
  | truth | falsity | zero => exact ⟨Rule.typed_literal fun _ => rfl, _, rfl⟩
  | @unary op _ rest _ _ q _ _ operand ih =>
      subst he
      have hrest : Token.fn ∉ rest := fun hmem => hf (List.mem_cons_of_mem _ hmem)
      cases op with
      | succ | pred =>
          obtain ⟨hq, A, hA⟩ := ih rfl rfl hrest
          refine ⟨Proof.typed_step.2 ⟨?_, List.forall_mem_singleton.2 hq⟩, A, ?_⟩
          · simp [conclude, hA, Signature.isBase]
          · simp [unaryStep, arithmeticStep, hA, Signature.isBase]
      | iszero =>
          have hq := operand.typed_of_expected (List.cons_ne_nil _ _)
          exact ⟨Proof.typed_step.2 ⟨List.cons_ne_nil _ _, List.forall_mem_singleton.2 hq⟩, _, rfl⟩
  | @cond _ _ _ _ pc pt pr _ hsplit condition _ _ _ _ iht ihr =>
      obtain ⟨-, ht, hr⟩ := Conditional.subset_of_split hsplit
      have hpc := condition.typed_of_expected (List.cons_ne_nil _ _)
      obtain ⟨hpt, A, hA⟩ := iht rfl he fun hmem => hf (ht hmem)
      have hpr := (ihr rfl he fun hmem => hf (hr hmem)).1
      have hshown : pt.type ≠ [] := by simp [hA]
      exact ⟨Rule.typed_conditionalStep (fun _ => rfl) (.inr hshown) hpc hpt hpr, A, hA⟩
  | @bracketed a b _ _ _ q _ hr _ _ _ ih =>
      subst hr he
      obtain ⟨hq, A, hA⟩ := ih rfl rfl fun hmem => hf (Run.subset_bracketed a b hmem)
      have hshown : q.type ≠ [] := by simp [hA]
      exact ⟨Rule.typed_bracketedStep (fun _ => rfl) (.inr hshown) hq, A, hA⟩

end Lambda

/-! ### Reports and trees -/

/-- The report says what came of a derivation.  If a tree was found, all its conclusions
show a type, the report has the tree, its type and its LaTeX, and a listener is told
nothing.  If none was, the report is blank, and a listener is told the code of the failure
once. -/
structure Report.Mirrors (r : Report) (s : Settings) (answer : Except Failure Proof) : Prop where
  failed_iff : r.failed = false ↔ ∃ p, answer = .ok p
  of_ok : ∀ p, answer = .ok p →
    p.Typed ∧ p.markup s = .ok r.proof ∧ r.type = p.type ∧ r.tree = some p ∧ r.notices = []
  of_error : ∀ f, answer = .error f →
    r.proof = " " ∧ r.type = [] ∧ r.tree = none ∧ r.notices = [f.code.message]

namespace Report

theorem mirrors_ofAlert (events : List Event) (f : Failure) :
    (ofAlert events f.alert).Mirrors s (.error f) where
  failed_iff := by simp [ofAlert, failed]
  of_ok p h := by cases h
  of_error g h := by
    obtain rfl := Except.error.inj h
    exact ⟨rfl, rfl, rfl, rfl⟩

section Traced

variable {x : Traced Proof} {p : Proof} {f : Failure}

theorem ofTraced_of_error (h : x.outcome = .error f) :
    ofTraced s x = ofAlert x.events f.alert := by
  rw [ofTraced, h]
  rfl

/-- A tree that cannot be written counts as none. -/
theorem ofTraced_of_unwritten (h : x.outcome = .ok p) (hp : p.markup s = .error f) :
    ofTraced s x = ofAlert x.events f.alert := by
  rw [ofTraced, h]
  simp only [Except.bind, ofProof, hp]
  rfl

theorem ofTraced_of_written {text : String} (h : x.outcome = .ok p) (hp : p.markup s = .ok text) :
    ofTraced s x =
      { proof := text, type := p.type, tree := some p, notices := [],
        events := x.events ++ if p.hasMismatch then [.flagged p.type] else [] } := by
  rw [ofTraced, h]
  simp only [Except.bind, ofProof, hp]
  rfl

end Traced

/-- A report mirrors what was derived if that can be written. -/
theorem mirrors_ofTraced {x : Traced Proof} (h : ∀ p, x.outcome = .ok p → p.Typed) :
    (ofTraced s x).Mirrors s x.outcome := by
  cases ho : x.outcome with
  | error f =>
      rw [ofTraced_of_error ho]
      exact mirrors_ofAlert x.events f
  | ok p =>
      have htyped := h p ho
      obtain ⟨text, htext⟩ := (Proof.exists_markup_iff_typed (s := s)).2 htyped
      rw [ofTraced_of_written ho htext]
      refine ⟨⟨fun _ => ⟨p, rfl⟩, fun _ => rfl⟩, fun q hq => ?_, fun f hf => ?_⟩
      · obtain rfl := Except.ok.inj hq
        exact ⟨htyped, htext, rfl, rfl, rfl⟩
      · cases hf

end Report

/-- **Reports mirror trees.**  An arithmetic report says what came of the derivation of its
tree, whatever is expected, and with an ascription what came of cutting it off and
deriving the rest against it.  A lambda report does if a type is expected, and with
nothing expected of a single run without the opaque function. -/
theorem reports_mirror_trees (s : Settings) :
    (∀ style run expected,
        (Arithmetic.report s style run expected).Mirrors s
          (Arithmetic.tree s style run expected).outcome) ∧
      (∀ style run,
        (Arithmetic.reportAscribed s style run).Mirrors s
          ((Arithmetic.splitAscription run).bind fun entered =>
            (Arithmetic.tree s style entered.1 [entered.2]).outcome)) ∧
      ∀ signature first second (expected : Signature) inner,
        expected ≠ [] ∨ second = [] ∧ Token.fn ∉ first →
        (Lambda.report s signature first second expected inner).Mirrors s
          (Lambda.tree s signature first second expected inner).outcome := by
  have harithmetic : ∀ style run expected,
      (Arithmetic.report s style run expected).Mirrors s
        (Arithmetic.tree s style run expected).outcome := fun style run expected =>
    Report.mirrors_ofTraced fun p hp => (Arithmetic.derive_eq_ok_iff.1 hp).1.typed.1
  refine ⟨harithmetic, fun style run => ?_, fun signature first second expected inner h => ?_⟩
  · unfold Arithmetic.reportAscribed
    cases Arithmetic.splitAscription run with
    | ok entered => exact harithmetic style entered.1 [entered.2]
    | error f => exact Report.mirrors_ofAlert [] f
  · refine Report.mirrors_ofTraced fun p hp => ?_
    have hd := (Lambda.derive_eq_ok_iff.1 hp).1
    by_cases he : expected = []
    · obtain ⟨hs, hf⟩ := h.resolve_left fun hne => hne he
      exact (hd.typed_of_inferred hs he hf).1
    · exact hd.typed_of_expected he

/-- Against `Bool` the report of `f 0` has the tree, although an application hands on no
type.  With nothing expected the report of `succ true` has its flagged tree, and the one of
`succ` alone is blank. -/
theorem reports_mirror_application :
    (∃ p, (Lambda.tree {} (some [.nat, .bool]) [.fn] [.word .zero] .bool false).outcome = .ok p ∧
        p.type = [] ∧ p.Typed ∧
        (Lambda.report {} (some [.nat, .bool]) [.fn] [.word .zero] .bool false).tree = some p) ∧
      (∃ p, p.hasMismatch = true ∧
        (Lambda.report {} none [.word .succ, .word .truth] [] [] false).tree = some p) ∧
      (Lambda.report {} none [.word .succ] [] [] false).notices = [Code.succOperand.message] := by
  obtain ⟨-, -, h⟩ := reports_mirror_trees {}
  have happlied := h (some [.nat, .bool]) [.fn] [.word .zero] .bool false (.inl (by decide))
  have hinferred := h none [.word .succ, .word .truth] [] [] false (.inr (by decide))
  have hfailed := h none [.word .succ] [] [] false (.inr (by decide))
  obtain ⟨htyped, -, -, htree, -⟩ := happlied.of_ok _ rfl
  refine ⟨⟨_, rfl, rfl, htyped, htree⟩, ?_, (hfailed.of_error _ rfl).2.2.2⟩
  obtain ⟨-, -, -, htree', -⟩ := hinferred.of_ok _ rfl
  exact ⟨_, rfl, htree'⟩

-- With nothing expected an application of `0` has a tree, but no type to show.
example :
    (Lambda.tree {} none [.word .zero] [.word .zero] [] false).outcome.isOk = true ∧
      (Lambda.report {} none [.word .zero] [.word .zero] [] false).failed = true := by
  decide

end TypeDeduction

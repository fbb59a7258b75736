/-
# Exact derivations of runs that are no flat forms

A derivation without mismatch types the expression that its rules read off the run.
That the run is the flat form of this expression does not follow.  The axioms for
literals look at the first token only and leave the tokens after it alone, so
`true true` is derived as `true` is.  Brackets are taken off by looking for one
from each end of the run, so `( succ ) 0` is derived as `( succ 0 )` is.

Both leave a trace in the tree, since a conclusion shows the whole run it is about.
A tree is *tight* if the conclusion of a literal shows one token and that of brackets
ends with a bracket.  The run is a flat form exactly if its tree is tight
(`Derives.eq_run_iff_tight`).
-/

import TypeDeduction.Proofs.Arithmetic.Typing

namespace TypeDeduction

/-- Of the tokens of arithmetic only the right bracket is written like one. -/
theorem Token.markup_eq_rparen_iff {t : Token} (ht : t.isArithmetic = true) :
    t.markup = Token.rparen.markup ↔ t = .rparen := by
  cases t with
  | word w => cases w <;> decide
  | ascription b => cases b <;> decide
  | var v | fn => simp [isArithmetic] at ht

/-- The conclusion of a literal shows one token, the conclusion of brackets ends with a
bracket. -/
def Inference.Tight (i : Inference) : Prop :=
  (i.rule ∈ [Rule.truth.name, Rule.falsity.name, Rule.zero.name] →
      i.conclusion.subject.length = 1) ∧
    (i.rule = (Rule.brackets .arithmetic).name →
      i.conclusion.subject.getLast? = some Token.rparen.markup)

instance : DecidablePred Inference.Tight :=
  fun _ => inferInstanceAs (Decidable (_ ∧ _))

namespace Proof

/-- All steps of the tree are tight. -/
def Tight (p : Proof) : Prop := ∀ n ∈ p.nodes, ∀ i, n = .inference i → i.Tight

theorem tight_step {i : Inference} {ps : List Proof} :
    (Proof.step i ps).Tight ↔ i.Tight ∧ ∀ q ∈ ps, q.Tight := by
  rw [Tight, forall_nodes_step]
  simp only [Node.inference.injEq, forall_eq']
  rfl

end Proof

namespace Arithmetic

variable {style : Presentation} {run : Run} {expected : Signature} {inner : Bool} {p q : Proof}
  {e : Expr}

/-! ### Tight steps -/

/-- A literal is tight if nothing follows it. -/
theorem tight_literal {r : Rule} (hr : r = .truth ∨ r = .falsity ∨ r = .zero) {own : BaseType}
    {showsExpected : Bool} {head : Token} {rest : Run} :
    (Rule.literal r.name own showsExpected expected (conclude style (head :: rest))).Tight ↔
      rest = [] := by
  rw [Rule.literal, Proof.tight_step]
  rcases hr with rfl | rfl | rfl <;>
    simp [Inference.Tight, conclude, Run.subject, Rule.name]

/-- An operator is tight if its operand is. -/
theorem tight_unaryStep {op : UnaryOp} {conclude : Signature → Judgment} :
    (unaryStep op conclude expected q).Tight ↔ q.Tight := by
  cases op <;> simp only [unaryStep, arithmeticStep, iszeroStep, Proof.tight_step] <;>
    simp [Inference.Tight, Rule.name, UnaryOp.rule]

/-- A conditional is tight if its clauses are. -/
theorem tight_conditionalStep {conclude : Signature → Judgment} {pc pt pr : Proof} :
    (Rule.conditionalStep conclude expected inner pc pt pr).Tight ↔
      pc.Tight ∧ pt.Tight ∧ pr.Tight := by
  rw [Rule.conditionalStep, Proof.tight_step]
  simp [Inference.Tight, Rule.name]

/-- Brackets are tight if nothing follows the last of them and what they enclose is
tight. -/
theorem tight_bracketedStep {a b : Run} (ha : ∀ t ∈ b, t.isArithmetic = true)
    (hb : Token.rparen ∉ b) :
    (Rule.bracketedStep .arithmetic (conclude style (.lparen :: (a ++ .rparen :: b))) expected
      q).Tight ↔ b = [] ∧ q.Tight := by
  have hlast : (Run.subject (.lparen :: (a ++ .rparen :: b))).getLast? =
      some Token.rparen.markup ↔ b = [] := by
    rcases List.eq_nil_or_concat b with rfl | ⟨b, t, rfl⟩
    · simp [Run.subject, List.getLast?_cons]
    · have ht : t ≠ .rparen := fun h => hb (by simp [h])
      have := mt (Token.markup_eq_rparen_iff (ha t (by simp))).1 ht
      simpa [Run.subject, List.getLast?_cons] using this
  rw [Rule.bracketedStep, Proof.tight_step, List.forall_mem_singleton, Inference.Tight]
  simp only [conclude, hlast]
  simp [Rule.name]

/-! ### Runs of tight trees -/

/-- **A run is the flat form of what it is read as exactly if its tree is tight.** -/
theorem Derives.eq_run_iff_tight (h : Derives style run expected inner p)
    (ha : ∀ t ∈ run, t.isArithmetic = true) :
    ∃ e, Reads .arithmetic run e ∧ (run = e.run ↔ p.Tight) := by
  induction h with
  | truth hb =>
      refine ⟨.truth, .truth fun _ => hb, ?_⟩
      rw [tight_literal (by simp)]
      simp [Expr.run]
  | falsity hb =>
      refine ⟨.falsity, .falsity fun _ => hb, ?_⟩
      rw [tight_literal (by simp)]
      simp [Expr.run]
  | zero hb =>
      refine ⟨.zero, .zero fun _ => hb, ?_⟩
      rw [tight_literal (by simp)]
      simp [Expr.run]
  | unary op _ ih =>
      obtain ⟨e, he, hiff⟩ := ih (List.forall_mem_cons.1 ha).2
      refine ⟨.unary op e, .unary rfl he, ?_⟩
      rw [tight_unaryStep, ← hiff, Expr.run, List.cons.injEq, eq_self, true_and]
  | cond hs _ _ _ _ ihc iht ihr =>
      obtain ⟨hsc, hst, hsr⟩ := Conditional.subset_of_split hs
      obtain ⟨c, hc, hic⟩ := ihc fun t ht => ha t (hsc ht)
      obtain ⟨t, ht, hit⟩ := iht fun t ht => ha t (hst ht)
      obtain ⟨r, hr, hir⟩ := ihr fun t ht => ha t (hsr ht)
      refine ⟨.cond c t r, .cond hs hc ht hr, ?_⟩
      rw [tight_conditionalStep, Reads.cond_eq_run_iff hs hc ht hr, hic, hit, hir]
  | @bracketed a b _ _ _ hl hq ih =>
      have hin : ∀ t ∈ a ++ b, t.isArithmetic = true := fun t ht =>
        ha t (Run.subset_bracketed a b ht)
      have hb : ∀ t ∈ b, t.isArithmetic = true := fun t ht =>
        hin t (List.mem_append_right a ht)
      obtain ⟨e, he, hiff⟩ := ih hin
      refine ⟨.bracketed e, .bracketed rfl hl hq.balance_eq_zero he, ?_⟩
      rw [tight_bracketedStep hb hl, Run.bracketed_eq_run_iff hl, hiff]

/-- **What an exact derivation of an unconstrained run says.**  The rules read one
expression off the run, and that expression has the type that is returned; it is what
the tree's rules derive.  The run is the flat form of an expression exactly if the tree
is tight, and then it is the flat form of this one. -/
theorem exact_tree_types_what_it_reads (s : Settings) (style : Presentation) {run : Run}
    {p : Proof} (ha : ∀ t ∈ run, t.isArithmetic = true)
    (hp : (tree s style run []).outcome = .ok p) (hm : p.hasMismatch = false) :
    ∃ e A, (∀ e', Reads .arithmetic run e' ↔ e' = e) ∧ HasType .empty e A ∧ p.type = [A] ∧
      p.rules = (e.rules .arithmetic).map Rule.name ∧
      ((∃ e', run = Expr.run e') ↔ p.Tight) ∧ (p.Tight → run = e.run) := by
  have hd := (derive_eq_ok_iff.1 hp).1
  obtain ⟨e, A, he, ht, -, hA⟩ := hd.hasType (Proof.flaggedOnly_of_hasMismatch_eq_false hm _)
  obtain ⟨e₁, he₁, hrules⟩ := hd.reads
  obtain ⟨e₂, he₂, hiff⟩ := hd.eq_run_iff_tight ha
  obtain rfl := he.unique he₁
  obtain rfl := he.unique he₂
  refine ⟨e, A, fun e' => ⟨fun h => h.unique he, fun h => h ▸ he⟩, ht, hA, hrules,
    ⟨?_, fun h => ⟨e, hiff.2 h⟩⟩, hiff.2⟩
  rintro ⟨e', rfl⟩
  rw [he.eq_of_run] at hiff
  exact hiff.1 rfl

/-- The run `( succ ) 0`, whose last token moves inside the brackets. -/
def openOperand : Run := [.lparen, .word .succ, .rparen, .word .zero]

theorem exact_tree_of_openOperand :
    ∃ p, (tree {} .sequent openOperand []).outcome = .ok p ∧ p.hasMismatch = false ∧
      ∃ e A, (∀ e', Reads .arithmetic openOperand e' ↔ e' = e) ∧ HasType .empty e A ∧
        p.type = [A] ∧ p.rules = (e.rules .arithmetic).map Rule.name ∧
        ((∃ e', openOperand = Expr.run e') ↔ p.Tight) ∧ (p.Tight → openOperand = e.run) := by
  refine ⟨_, rfl, rfl, ?_⟩
  exact exact_tree_types_what_it_reads {} .sequent (by decide) rfl rfl

/-- **An exact derivation does not make its run an expression**: `true true` has one, and
it is not the flat form of anything. -/
theorem exact_tree_without_flat_form :
    ¬ ∀ (s : Settings) (style : Presentation) (run : Run) (p : Proof),
      (∀ t ∈ run, t.isArithmetic = true) → (tree s style run []).outcome = .ok p →
      p.hasMismatch = false →
      ∃ e A, run = Expr.run e ∧ HasType .empty e A ∧ p.type = [A] := by
  intro h
  obtain ⟨e, A, he, -, -⟩ :=
    h {} .sequent [.word .truth, .word .truth] _ (by decide) rfl rfl
  cases e with
  | truth | falsity | zero | var | cond | bracketed => simp [Expr.run] at he
  | unary op => cases op <;> simp [Expr.run, UnaryOp.word] at he

end Arithmetic
end TypeDeduction

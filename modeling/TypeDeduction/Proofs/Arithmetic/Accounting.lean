/-
# Every token of a derivation is accounted for

The conclusion of a step shows the run that the step is about.  A rule takes the words
that it is known by off its run and leaves the rest to its premises, so the subject of a
step can be put together again from the subjects above it (`Composed`):

| rule | subject |
| --- | --- |
| a literal | its word and whatever follows |
| an operator | its word, then the premise |
| a conditional | `if`, condition, `then`, first branch, `else`, second branch |
| brackets | `(` `a` `)` `b`, the premise being `a` `b` and `)` not in `b` |

No token is lost and none is invented, except after a literal, where tokens may be left
over.  Each step takes at least one for itself, so there are no more steps than tokens
(`Proof.length_rules_le_of_composed`).

Subjects are texts.  What is said about the brackets of a run can be said about its
subject because the tokens of arithmetic are read back from their texts
(`Token.read_markup`).
-/

import TypeDeduction.Proofs.Arithmetic.Derivation
import TypeDeduction.Spelling

namespace TypeDeduction

/-! ### Brackets in a subject -/

/-- A token of arithmetic is read back from its text. -/
theorem Token.read_markup {t : Token} (ht : t.isArithmetic = true) :
    Token.read t.markup = .ok t := by
  cases t with
  | word w => exact Token.read_word w
  | ascription b => cases b <;> rfl
  | var v | fn => cases ht

/-- Of the tokens of arithmetic only a reserved word is written like one. -/
theorem Token.markup_eq_text_iff {t : Token} (ht : t.isArithmetic = true) (w : Word) :
    t.markup = w.text ↔ t = .word w := by
  constructor
  · intro h
    have hread := Token.read_markup ht
    rw [h, Token.read_word] at hread
    exact (Except.ok.inj hread).symm
  · rintro rfl
    rfl

namespace Run

variable {run : Run}

/-- In arithmetic a word occurs in the subject as often as in the run. -/
theorem count_subject (ha : ∀ t ∈ run, t.isArithmetic = true) (w : Word) :
    run.subject.count w.text = run.count (.word w) := by
  rw [List.count_eq_countP, List.count_eq_countP, subject, List.countP_map]
  refine List.countP_congr fun t ht => ?_
  simp [Token.markup_eq_text_iff (ha t ht)]

/-- A run of arithmetic that balances has as many left as right brackets in its subject. -/
theorem count_subject_of_balance (ha : ∀ t ∈ run, t.isArithmetic = true)
    (hb : run.balance = 0) :
    run.subject.count Word.lparen.text = run.subject.count Word.rparen.text := by
  have hleft : run.subject.count Word.lparen.text = run.count .lparen := count_subject ha .lparen
  have hright : run.subject.count Word.rparen.text = run.count .rparen := count_subject ha .rparen
  rw [balance_eq_count_sub] at hb
  omega

/-- A word that is not in a run of arithmetic is not in its subject. -/
theorem text_notMem_subject (ha : ∀ t ∈ run, t.isArithmetic = true) {w : Word}
    (h : Token.word w ∉ run) : w.text ∉ run.subject := by
  rw [← List.count_eq_zero] at h ⊢
  rw [count_subject ha, h]

end Run

/-! ### Subjects and premises -/

/-- The subject of the root's conclusion, or the name that is looked up. -/
def Proof.subject : Proof → List String
  | .step i _ => i.conclusion.subject
  | .lookup l => [l.name]

/-- The literal that a rule is the axiom of. -/
def Rule.literal? : Rule → Option Word
  | .truth => some .truth
  | .falsity => some .falsity
  | .zero => some .zero
  | _ => none

/-- The step is one of arithmetic, and its subject is made of the words of its rule and of
the subjects of its premises. -/
inductive Composed : Inference → List Proof → Prop where
  | literal {i : Inference} {r : Rule} {w : Word} {rest : List String} (hw : r.literal? = some w)
      (rule : i.rule = r.name) (subject : i.conclusion.subject = w.text :: rest) :
      Composed i []
  | unary {i : Inference} {q : Proof} (op : UnaryOp) (rule : i.rule = op.rule.name)
      (subject : i.conclusion.subject = op.word.text :: q.subject) :
      Composed i [q]
  | cond {i : Inference} {c t r : Proof} (rule : i.rule = Rule.cond.name)
      (subject : i.conclusion.subject = Word.cond.text :: (c.subject ++
        Word.thenBranch.text :: (t.subject ++ Word.elseBranch.text :: r.subject))) :
      Composed i [c, t, r]
  | bracketed {i : Inference} {q : Proof} {a b : List String}
      (rule : i.rule = (Rule.brackets .arithmetic).name) (last : Word.rparen.text ∉ b)
      (subject : i.conclusion.subject = Word.lparen.text :: (a ++ Word.rparen.text :: b))
      (premise : q.subject = a ++ b) :
      Composed i [q]

/-- **A tree whose subjects are composed has no more steps than its root has tokens**: each
step takes a word at least and hands no more than the others on. -/
theorem Proof.length_rules_le_of_composed {p : Proof} (h : p.Everywhere Composed) :
    p.rules.length ≤ p.subject.length := by
  induction p using Proof.induct with
  | lookup l => exact Nat.zero_le _
  | step i ps ih =>
      obtain ⟨hi, hps⟩ := everywhere_step.1 h
      have hpremise : ∀ q ∈ ps, q.rules.length ≤ q.subject.length := fun q hq => ih q hq (hps q hq)
      rw [rules_step, subject]
      cases hi with
      | literal _ _ hs =>
          rw [hs]
          simp
      | @unary q op _ hs =>
          have hq := hpremise q (by simp)
          rw [hs]
          simpa using hq
      | @cond c t r _ hs =>
          have hc := hpremise c (by simp)
          have ht := hpremise t (by simp)
          have hr := hpremise r (by simp)
          rw [hs]
          simp only [List.flatMap_cons, List.flatMap_nil, List.length_cons, List.length_append,
            List.length_nil]
          omega
      | @bracketed q a b _ _ hs hab =>
          have hq := hpremise q (by simp)
          rw [hab, List.length_append] at hq
          rw [hs]
          simp only [List.flatMap_cons, List.flatMap_nil, List.length_cons, List.length_append,
            List.length_nil]
          omega

namespace Arithmetic

variable {style : Presentation} {run : Run} {expected : Signature} {inner : Bool} {p q : Proof}

/-- The step for an operator stands over its operand and shows the run. -/
theorem exists_unaryStep_eq (op : UnaryOp) :
    ∃ i, unaryStep op (conclude style run) expected q = .step i [q] ∧ i.rule = op.rule.name ∧
      i.conclusion.subject = run.subject := by
  cases op <;> exact ⟨_, rfl, rfl, rfl⟩

/-- The root of a derivation shows the run. -/
theorem Derives.subject_eq (h : Derives style run expected inner p) : p.subject = run.subject := by
  cases h with
  | unary op => cases op <;> rfl
  | _ => rfl

/-- The step is composed, and its subject has as many left as right brackets. -/
def Accounted (i : Inference) (ps : List Proof) : Prop :=
  Composed i ps ∧
    i.conclusion.subject.count Word.lparen.text = i.conclusion.subject.count Word.rparen.text

/-- **Every step of a derivation is accounted for**: the rules cut the run into the runs of
the premises, and the engine has counted the brackets on every level. -/
theorem Derives.accounted (h : Derives style run expected inner p)
    (ha : ∀ t ∈ run, t.isArithmetic = true) : p.Everywhere Accounted := by
  -- The brackets of a run are compared before its rule is known.
  have hbalanced {run expected inner p} (h : Derives style run expected inner p)
      (ha : ∀ t ∈ run, t.isArithmetic = true) :
      run.subject.count Word.lparen.text = run.subject.count Word.rparen.text :=
    Run.count_subject_of_balance ha h.balance_eq_zero
  have hcount := hbalanced h ha
  induction h with
  | truth =>
      exact Proof.everywhere_step.2 ⟨⟨.literal (r := .truth) rfl rfl rfl, hcount⟩, by simp⟩
  | falsity =>
      exact Proof.everywhere_step.2 ⟨⟨.literal (r := .falsity) rfl rfl rfl, hcount⟩, by simp⟩
  | zero =>
      exact Proof.everywhere_step.2 ⟨⟨.literal (r := .zero) rfl rfl rfl, hcount⟩, by simp⟩
  | unary op hq ih =>
      have hrest := (List.forall_mem_cons.1 ha).2
      obtain ⟨i, hstep, hrule, hsubject⟩ := exists_unaryStep_eq op
      rw [hstep]
      refine Proof.everywhere_step.2 ⟨⟨.unary op hrule ?_, by rw [hsubject]; exact hcount⟩, ?_⟩
      · rw [hsubject, hq.subject_eq]
        rfl
      · exact List.forall_mem_singleton.2 (ih hrest (hbalanced hq hrest))
  | @cond rest parts _ _ pc pt pr hs hc ht hr _ ihc iht ihr =>
      obtain ⟨hsc, hst, hsr⟩ := Conditional.subset_of_split hs
      have hac : ∀ t ∈ parts.condition.run, t.isArithmetic = true := fun t h => ha t (hsc h)
      have hat : ∀ t ∈ parts.thenBranch.run, t.isArithmetic = true := fun t h => ha t (hst h)
      have har : ∀ t ∈ parts.elseBranch.run, t.isArithmetic = true := fun t h => ha t (hsr h)
      have hsubject : Run.subject (.cond :: rest) = Word.cond.text :: (pc.subject ++
          Word.thenBranch.text :: (pt.subject ++ Word.elseBranch.text :: pr.subject)) := by
        rw [Conditional.eq_of_split hs, hc.subject_eq, ht.subject_eq, hr.subject_eq]
        simp [Run.subject, Token.markup]
      refine Proof.everywhere_step.2 ⟨⟨.cond rfl hsubject, hcount⟩, ?_⟩
      simpa using ⟨ihc hac (hbalanced hc hac), iht hat (hbalanced ht hat),
        ihr har (hbalanced hr har)⟩
  | @bracketed a b _ _ q hlast hq ih =>
      have hin : ∀ t ∈ a ++ b, t.isArithmetic = true := fun t ht =>
        ha t (Run.subset_bracketed a b ht)
      have hb : ∀ t ∈ b, t.isArithmetic = true := fun t ht => hin t (List.mem_append_right a ht)
      have hsubject : Run.subject (.lparen :: (a ++ .rparen :: b)) =
          Word.lparen.text :: (Run.subject a ++ Word.rparen.text :: Run.subject b) := by
        simp [Run.subject, Token.markup]
      have hpremise : q.subject = Run.subject a ++ Run.subject b := by
        rw [hq.subject_eq]
        exact List.map_append
      refine Proof.everywhere_step.2 ⟨⟨.bracketed rfl (Run.text_notMem_subject hb hlast) hsubject
        hpremise, hcount⟩, ?_⟩
      exact List.forall_mem_singleton.2 (ih hin (hbalanced hq hin))

/-- **Derivations account for their tokens.**  In the tree of a run of arithmetic the root
shows the run.  The subject of every step is made of the words of its rule and the subjects
of its premises, and has as many left as right brackets.  So there are no more steps than
tokens. -/
theorem tree_accounts_for_tokens (s : Settings) (style : Presentation) {run : Run}
    (ha : ∀ t ∈ run, t.isArithmetic = true) (expected : Signature) {p : Proof}
    (hp : (tree s style run expected).outcome = .ok p) :
    p.subject = run.subject ∧ p.Everywhere Accounted ∧ p.rules.length ≤ run.length := by
  have hd := (derive_eq_ok_iff.1 hp).1
  have haccounted := hd.accounted ha
  refine ⟨hd.subject_eq, haccounted, ?_⟩
  calc p.rules.length
      ≤ p.subject.length :=
        Proof.length_rules_le_of_composed fun i ps hi => (haccounted i ps hi).1
    _ = run.length := by rw [hd.subject_eq, Run.subject, List.length_map]

/-- The run `( succ ( ) 0 )`, whose inner brackets enclose the `0` that follows them. -/
def emptyBrackets : Run :=
  [.lparen, .word .succ, .lparen, .rparen, .word .zero, .rparen]

theorem tree_accounts_for_emptyBrackets :
    ∃ p, (tree {} .sequent emptyBrackets []).outcome = .ok p ∧
      p.rules = ["T-bra", "T-succ", "T-bra", "T-zero"] ∧
      p.subject = ["(", "succ", "(", ")", "0", ")"] ∧ p.Everywhere Accounted ∧
      p.rules.length ≤ 6 := by
  have ha : ∀ t ∈ emptyBrackets, t.isArithmetic = true := by decide
  obtain ⟨hsubject, haccounted, hlength⟩ := tree_accounts_for_tokens {} .sequent ha [] rfl
  exact ⟨_, rfl, rfl, hsubject, haccounted, hlength⟩

end Arithmetic
end TypeDeduction

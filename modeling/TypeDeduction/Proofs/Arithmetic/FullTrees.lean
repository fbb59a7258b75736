/-
# Expressions get their whole tree

Types that do not fit do not stop a derivation, they are flagged.  What can stop it on
the flat form of an expression is one thing: the branches of a conditional whose types
start differently.  All other causes lie in the form of a run, and the form is right.  It
is neither empty nor unbalanced, every operator has an operand, brackets enclose
something, and a splittable conditional splits into the flat forms of its parts, so the
same holds of every run that is derived on the way (`derive_run_failsOnly`).

If nothing stops the derivation, it names the rules of the expression, since that is
what is read off its flat form.
-/

import TypeDeduction.Proofs.Arithmetic.Typing
import TypeDeduction.Proofs.Failures

namespace TypeDeduction

/-- The branches of a conditional have types that start differently. -/
def Failure.IsBranchMismatch (f : Failure) : Prop := ∃ t r, f = .branchMismatch t r

namespace Arithmetic

/-- **Only branches stop the derivation of an expression.**  The induction is on the
expression, and each rule goes on with the flat forms of its parts, one level down. -/
theorem derive_run_failsOnly {e : Expr} (he : e.Splittable) (hv : e.occurrences = []) {left : Nat}
    (hl : e.run.length ≤ left) (limit : Int) (style : Presentation) (expected : Signature)
    (inner : Bool) :
    (derive limit style left e.run expected inner).FailsOnly Failure.IsBranchMismatch := by
  induction e generalizing left expected inner with
  | truth | falsity | zero =>
      obtain ⟨l, rfl⟩ : ∃ l, left = l + 1 := Nat.exists_eq_add_of_le' hl
      exact .note_bind _ (.pure _)
  | var v => cases hv
  | unary op e ih =>
      have hlen : e.run.length + 1 ≤ left := hl
      obtain ⟨l, rfl⟩ : ∃ l, left = l + 1 := ⟨left - 1, by omega⟩
      have hb : Run.balance (.word op.word :: e.run) = 0 := (Expr.unary op e).balance_run
      rw [Expr.run, derive_cons hb, dispatch_unary e.run_ne_nil]
      exact .note_bind _ (.bind_pure (ih he hv (by omega) _ _) _)
  | cond c t r ihc iht ihr =>
      obtain ⟨hc, ht, hsc, hst, hsr⟩ := he
      simp only [Expr.occurrences, List.append_eq_nil_iff] at hv
      obtain ⟨hvc, hvt, hvr⟩ := hv
      have hsplit := Conditional.split_run r hc ht
      have hb := (Expr.cond c t r).balance_run
      rw [Expr.run] at hl hb hsplit ⊢
      simp only [List.length_cons, List.length_append] at hl
      obtain ⟨l, rfl⟩ : ∃ l, left = l + 1 := ⟨left - 1, by omega⟩
      rw [derive_cons hb]
      refine .note_bind _ (Rule.conditional_failsOnly ?_ (fun a b => ⟨a, b, rfl⟩) ?_)
      · intro f hf
        rw [hsplit] at hf
        cases hf
      · intro parts hparts
        obtain rfl := Except.ok.inj (hsplit.symm.trans hparts)
        exact ⟨ihc hsc hvc (by omega), iht hst hvt (by omega), ihr hsr hvr (by omega)⟩
  | bracketed e ih =>
      have hpos := List.length_pos_iff.2 e.run_ne_nil
      have hb := (Expr.bracketed e).balance_run
      have hstrip := e.strip_run
      rw [Expr.run] at hl hb hstrip ⊢
      simp only [List.length_cons, List.length_append, List.length_nil] at hl
      obtain ⟨l, rfl⟩ : ∃ l, left = l + 1 := ⟨left - 1, by omega⟩
      rw [derive_cons hb]
      refine .note_bind _ (Rule.bracketed_failsOnly ?_ (fun hn => absurd hb hn) ?_)
      · intro hshort
        simp only [List.length_cons, List.length_append, List.length_nil] at hshort
        omega
      · intro _ _ expected'
        rw [hstrip]
        exact ih he hv (by omega) expected' false

/-- **An expression gets its whole tree unless branches differ.**  On the flat form of a
splittable expression without variables, well typed or not, against any type or none, and
below a limit of at least its number of tokens, the derivation names the rules of the
expression's syntax tree, or it fails because the branches of a conditional differ; it
fails for no other cause. -/
theorem tree_run_full_or_branchMismatch (s : Settings) (style : Presentation) {e : Expr}
    (he : e.Splittable) (hv : e.occurrences = []) (expected : Signature)
    (hl : (e.run.length : Int) ≤ s.maxDepth) :
    (∃ p, (tree s style e.run expected).outcome = .ok p ∧
        p.rules = (e.rules .arithmetic).map Rule.name) ∨
      ∃ f, (tree s style e.run expected).outcome = .error f ∧ f.code = Code.branchMismatch := by
  cases ho : (tree s style e.run expected).outcome with
  | ok p =>
      obtain ⟨e', hread, hrules⟩ := (derive_eq_ok_iff.1 ho).1.reads
      obtain rfl := hread.eq_of_run
      exact .inl ⟨p, rfl, hrules⟩
  | error f =>
      have hlevels : e.run.length ≤ Depth.levels s.maxDepth := by
        unfold Depth.levels
        omega
      obtain ⟨t, r, rfl⟩ :=
        derive_run_failsOnly he hv hlevels s.maxDepth style expected false f ho
      exact .inr ⟨_, rfl, rfl⟩

/-- The expression `if 0 then succ true else ( iszero false )`, in which nothing fits. -/
def misfit : Expr :=
  .cond .zero (.unary .succ .truth) (.bracketed (.unary .iszero .falsity))

/-- Against `Bool` the ill-typed expression gets its tree, against `Nat -> Nat` its branches
differ. -/
theorem tree_run_full_of_misfit :
    misfit.Splittable ∧ misfit.occurrences = [] ∧
      (∃ p, (tree {} .sequent misfit.run .bool).outcome = .ok p ∧ p.hasMismatch = true ∧
        p.rules = (misfit.rules .arithmetic).map Rule.name) ∧
      ∃ f, (tree {} .sequent misfit.run [.nat, .nat]).outcome = .error f ∧
        f.code = Code.branchMismatch := by
  have he : misfit.Splittable := by decide
  have hl : (misfit.run.length : Int) ≤ ({} : Settings).maxDepth := by decide
  refine ⟨he, rfl, ?_, ?_⟩
  · rcases tree_run_full_or_branchMismatch {} .sequent he rfl .bool hl with
      ⟨p, hp, hrules⟩ | ⟨f, hf, -⟩
    · refine ⟨p, hp, ?_, hrules⟩
      obtain rfl := Except.ok.inj hp
      rfl
    · cases hf
  · rcases tree_run_full_or_branchMismatch {} .sequent he rfl [.nat, .nat] hl with
      ⟨p, hp, -⟩ | ⟨f, hf, hcode⟩
    · cases hp
    · exact ⟨f, hf, hcode⟩

end Arithmetic
end TypeDeduction

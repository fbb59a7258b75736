/-
# When branches are found to differ

A conditional compares what its branches hand on, and that is not always their own type.
A literal hands on its own type, and a conditional what its first branch does.  An
operator and brackets hand on the type expected of them; only where nothing is expected do
they hand on what they infer (`Expr.reported`).

| branch | against `A` | with nothing expected |
| --- | --- | --- |
| ends in a literal, by first branches | the literal's type | the literal's type |
| ends in another way | `A` | the inferred type |

So on the flat form of a splittable expression the engine finds branches that differ
exactly if two branches are reported differently somewhere in it (`Expr.Clashes`), and the
verdict can change with the expected type: `if true then iszero 0 else 0` passes against
`Nat` alone.  It does not change if the two branches of each conditional that the expected
type reaches end alike (`Expr.Steady`).
-/

import TypeDeduction.Proofs.Arithmetic.FullTrees

namespace TypeDeduction

/-! ### What a branch is reported as -/

namespace Expr

/-- The type of the literal that an expression ends in, going by the first branches of
conditionals; there is none if it ends in an operator or in brackets. -/
def tip : Expr → Option BaseType
  | .truth => some .bool
  | .falsity => some .bool
  | .zero => some .nat
  | .var _ => none
  | .unary _ _ => none
  | .cond _ t _ => t.tip
  | .bracketed _ => none

/-- The type that is inferred, right or wrong: `succ` and `pred` take that of their operand,
and a conditional that of its first branch. -/
def inferred : Expr → Option BaseType
  | .truth => some .bool
  | .falsity => some .bool
  | .zero => some .nat
  | .var _ => none
  | .unary .iszero _ => some .bool
  | .unary _ e => e.inferred
  | .cond _ t _ => t.inferred
  | .bracketed e => e.inferred

/-- The type that is handed on against an expected one: that of a literal at the end, or
else the expected one, or else the inferred one. -/
def reported (e : Expr) (expected : Signature) : Option BaseType :=
  e.tip.or (expected.head?.or e.inferred)

/-- Somewhere in the expression two branches are reported differently, if it is derived
against the expected type. -/
def Clashes : Expr → Signature → Prop
  | .truth, _ => False
  | .falsity, _ => False
  | .zero, _ => False
  | .var _, _ => False
  | .unary op e, expected => e.Clashes (op.demand expected)
  | .cond c t r, expected =>
    c.Clashes .bool ∨ t.Clashes expected ∨ r.Clashes expected ∨
      t.reported expected ≠ r.reported expected
  | .bracketed e, expected => e.Clashes expected

/-- Two branches end alike: both in a literal, or neither and they are inferred to have the
same type. -/
def EndAlike (t r : Expr) : Prop :=
  t.tip.isSome = r.tip.isSome ∧ (t.tip = none → t.inferred = r.inferred)

/-- The branches end alike of every conditional that is derived against the type expected of
the whole, that is of those outside conditions and operands of `iszero`. -/
def Steady : Expr → Prop
  | .truth => True
  | .falsity => True
  | .zero => True
  | .var _ => True
  | .unary .iszero _ => True
  | .unary _ e => e.Steady
  | .cond _ t r => EndAlike t r ∧ t.Steady ∧ r.Steady
  | .bracketed e => e.Steady

/-- Whether branches clash can be decided. -/
def decideClashes : (e : Expr) → (expected : Signature) → Decidable (e.Clashes expected)
  | .truth, _ => .isFalse id
  | .falsity, _ => .isFalse id
  | .zero, _ => .isFalse id
  | .var _, _ => .isFalse id
  | .unary op e, expected => decideClashes e (op.demand expected)
  | .cond c t r, expected =>
    have := decideClashes c .bool
    have := decideClashes t expected
    have := decideClashes r expected
    inferInstanceAs (Decidable (_ ∨ _ ∨ _ ∨ _))
  | .bracketed e, expected => decideClashes e expected

instance (e : Expr) (expected : Signature) : Decidable (e.Clashes expected) :=
  decideClashes e expected

instance (t r : Expr) : Decidable (EndAlike t r) := inferInstanceAs (Decidable (_ ∧ _))

/-- Whether an expression is steady can be decided. -/
def decideSteady : (e : Expr) → Decidable e.Steady
  | .truth => .isTrue trivial
  | .falsity => .isTrue trivial
  | .zero => .isTrue trivial
  | .var _ => .isTrue trivial
  | .unary .iszero _ => .isTrue trivial
  | .unary .succ e => decideSteady e
  | .unary .pred e => decideSteady e
  | .cond _ t r =>
    have := decideSteady t
    have := decideSteady r
    inferInstanceAs (Decidable (_ ∧ _ ∧ _))
  | .bracketed e => decideSteady e

instance : DecidablePred Steady := decideSteady

/-- An expression that ends in a literal is inferred to have its type. -/
theorem inferred_of_tip {e : Expr} {A : BaseType} (h : e.tip = some A) : e.inferred = some A := by
  induction e with
  | truth | falsity | zero => exact h
  | var | unary | bracketed => cases h
  | cond c t r _ iht _ => exact iht h

/-- With nothing expected the inferred type is handed on. -/
theorem reported_nil (e : Expr) : e.reported [] = e.inferred := by
  cases h : e.tip with
  | none => simp [reported, h]
  | some A => simp [reported, h, inferred_of_tip h]

/-- **Branches that end alike are reported alike against all types or against none.** -/
theorem EndAlike.reported_eq_iff {t r : Expr} (h : EndAlike t r) (expected expected' : Signature) :
    t.reported expected = r.reported expected ↔ t.reported expected' = r.reported expected' := by
  obtain ⟨hsome, hinferred⟩ := h
  cases ht : t.tip with
  | none =>
      have hr : r.tip = none := by simpa [ht] using hsome.symm
      simp [reported, ht, hr, hinferred ht]
  | some A =>
      obtain ⟨B, hr⟩ := Option.isSome_iff_exists.1 (by simpa [ht] using hsome.symm)
      simp [reported, ht, hr]

/-- **A steady expression clashes against all types or against none.** -/
theorem Steady.clashes_iff {e : Expr} (h : e.Steady) (expected expected' : Signature) :
    e.Clashes expected ↔ e.Clashes expected' := by
  induction e generalizing expected expected' with
  | truth | falsity | zero | var => rfl
  | unary op e ih =>
      cases op with
      | iszero => rfl
      | succ | pred => exact ih h expected expected'
  | cond c t r _ iht ihr =>
      obtain ⟨hends, ht, hr⟩ := h
      simp only [Clashes, iht ht expected expected', ihr hr expected expected', ne_eq,
        hends.reported_eq_iff expected expected']
  | bracketed e ih => exact ih h expected expected'

end Expr

/-! ### What a derivation hands on -/

namespace Arithmetic

variable {style : Presentation} {run : Run} {expected : Signature} {inner : Bool} {p q : Proof}
  {e : Expr} {A : BaseType}

/-- An operator hands on what is reported of it, if its operand does. -/
theorem type_unaryStep_eq_reported {op : UnaryOp} {conclude : Signature → Judgment}
    (hl : expected.length ≤ 1) (hq : q.type = [A])
    (hA : e.reported (op.demand expected) = some A) :
    ∃ B, (unaryStep op conclude expected q).type = [B] ∧
      (Expr.unary op e).reported expected = some B := by
  rcases expected with _ | ⟨B, _ | ⟨C, rest⟩⟩
  · cases op with
    | succ | pred =>
        refine ⟨A, by simp [unaryStep, arithmeticStep, hq], ?_⟩
        rw [Expr.reported_nil]
        exact (Expr.reported_nil e).symm.trans hA
    | iszero => exact ⟨.bool, rfl, rfl⟩
  · refine ⟨B, ?_, rfl⟩
    cases op with
    | succ | pred =>
        -- An operand that is no `Nat` leaves `Bool` as the only other type to expect.
        cases A <;> cases B <;> simp [unaryStep, arithmeticStep, hq]
    | iszero => simp [unaryStep, iszeroStep]
  · simp at hl

/-- Brackets hand on what is reported of them, if what they enclose does. -/
theorem type_bracketedStep_eq_reported {conclude : Signature → Judgment}
    (hl : expected.length ≤ 1) (hq : q.type = [A]) (hA : e.reported expected = some A) :
    ∃ B, (Rule.bracketedStep .arithmetic conclude expected q).type = [B] ∧
      (Expr.bracketed e).reported expected = some B := by
  rcases expected with _ | ⟨B, _ | ⟨C, rest⟩⟩
  · refine ⟨A, by simp [Rule.bracketedStep, hq], ?_⟩
    rw [Expr.reported_nil]
    exact (Expr.reported_nil e).symm.trans hA
  · exact ⟨B, rfl, rfl⟩
  · simp at hl

/-- **A derivation hands on what is reported of the expression it reads**, and no branches in
that clash. -/
theorem Derives.reports (h : Derives style run expected inner p) (hl : expected.length ≤ 1) :
    ∃ e A, Reads .arithmetic run e ∧ ¬ e.Clashes expected ∧ p.type = [A] ∧
      e.reported expected = some A := by
  induction h with
  | truth hb => exact ⟨.truth, .bool, .truth fun _ => hb, id, rfl, rfl⟩
  | falsity hb => exact ⟨.falsity, .bool, .falsity fun _ => hb, id, rfl, rfl⟩
  | zero hb => exact ⟨.zero, .nat, .zero fun _ => hb, id, rfl, rfl⟩
  | unary op _ ih =>
      obtain ⟨e, A, hread, hclash, hq, hA⟩ := ih (op.length_demand_le hl)
      obtain ⟨B, hB, hreport⟩ := type_unaryStep_eq_reported hl hq hA
      exact ⟨.unary op e, B, .unary rfl hread, hclash, hB, hreport⟩
  | cond hs _ _ _ agree ihc iht ihr =>
      obtain ⟨c, C, hc, hclashc, -, -⟩ := ihc (Nat.le_refl 1)
      obtain ⟨t, A, ht, hclasht, hpt, hA⟩ := iht hl
      obtain ⟨r, B, hr, hclashr, hpr, hB⟩ := ihr hl
      obtain rfl : A = B := by simpa [hpt, hpr] using agree
      refine ⟨.cond c t r, A, .cond hs hc ht hr, ?_, hpt, hA⟩
      rintro (h | h | h | h)
      · exact hclashc h
      · exact hclasht h
      · exact hclashr h
      · exact h (hA.trans hB.symm)
  | bracketed hlast hq ih =>
      obtain ⟨e, A, hread, hclash, hqA, hA⟩ := ih hl
      obtain ⟨B, hB, hreport⟩ := type_bracketedStep_eq_reported hl hqA hA
      exact ⟨.bracketed e, B, .bracketed rfl hlast hq.balance_eq_zero hread, hclash, hB, hreport⟩

/-- **Where no branches clash there is a derivation.** -/
theorem exists_derives_of_not_clashes (style : Presentation) (h : Reads .arithmetic run e)
    (hl : expected.length ≤ 1) (hn : ¬ e.Clashes expected) (inner : Bool) :
    ∃ p, Derives style run expected inner p := by
  induction h generalizing expected inner with
  | truth hb => exact ⟨_, .truth (hb rfl)⟩
  | falsity hb => exact ⟨_, .falsity (hb rfl)⟩
  | zero hb => exact ⟨_, .zero (hb rfl)⟩
  | var hc => cases hc
  | @unary op _ _ _ hw _ ih =>
      subst hw
      obtain ⟨q, hq⟩ := ih (op.length_demand_le hl) hn false
      exact ⟨_, .unary op hq⟩
  | @cond _ parts c t r hs hc ht hr ihc iht ihr =>
      obtain ⟨hnc, hnt, hnr, hsame⟩ :
          ¬ c.Clashes .bool ∧ ¬ t.Clashes expected ∧ ¬ r.Clashes expected ∧
            t.reported expected = r.reported expected := by
        simpa [Expr.Clashes] using hn
      have hbool : Signature.bool.length ≤ 1 := Nat.le_refl 1
      obtain ⟨pc, hpc⟩ := ihc hbool hnc parts.condition.nested
      obtain ⟨pt, hpt⟩ := iht hl hnt parts.thenBranch.nested
      obtain ⟨pr, hpr⟩ := ihr hl hnr parts.elseBranch.nested
      obtain ⟨t', A, ht', -, hA, hreportt⟩ := hpt.reports hl
      obtain ⟨r', B, hr', -, hB, hreportr⟩ := hpr.reports hl
      obtain rfl := ht.unique ht'
      obtain rfl := hr.unique hr'
      obtain rfl : A = B := by simpa [hreportt, hreportr] using hsame
      exact ⟨_, .cond hs hpc hpt hpr (by rw [hA, hB])⟩
  | bracketed hr hlast _ _ ih =>
      subst hr
      obtain ⟨q, hq⟩ := ih hl hn false
      exact ⟨_, .bracketed hlast hq⟩

/-! ### The verdict -/

/-- The derivation fails because the branches of a conditional differ. -/
def BranchesDiffer (s : Settings) (style : Presentation) (run : Run) (expected : Signature) :
    Prop :=
  ∃ f, (tree s style run expected).outcome = .error f ∧ f.code = Code.branchMismatch

/-- **Branches are found to differ exactly if they are reported differently.** -/
theorem branchesDiffer_iff_clashes (s : Settings) (style : Presentation) (he : e.Splittable)
    (hv : e.occurrences = []) (hd : (e.run.length : Int) ≤ s.maxDepth)
    (hl : expected.length ≤ 1) :
    BranchesDiffer s style e.run expected ↔ e.Clashes expected := by
  have hlevels : e.run.length ≤ Depth.levels s.maxDepth := by
    unfold Depth.levels
    omega
  constructor
  · rintro ⟨f, hf, -⟩
    refine Decidable.byContradiction fun hn => ?_
    obtain ⟨p, hp⟩ := exists_derives_of_not_clashes style (reads_run he fun _ => hv) hl hn false
    have hheight : p.height ≤ Depth.levels s.maxDepth :=
      Nat.le_trans hp.height_le_length hlevels
    cases hf.symm.trans (derive_eq_ok_iff.2 ⟨hp, hheight⟩)
  · intro hclash
    cases ho : (tree s style e.run expected).outcome with
    | ok p =>
        obtain ⟨e', -, hread, hn, -⟩ := (derive_eq_ok_iff.1 ho).1.reports hl
        obtain rfl := hread.eq_of_run
        exact absurd hclash hn
    | error f =>
        obtain ⟨t, r, rfl⟩ :=
          derive_run_failsOnly he hv hlevels s.maxDepth style expected false f ho
        exact ⟨_, ho, rfl⟩

/-- **The verdict on branches and the expected type.**  Take the flat form of a splittable
expression without variables and a limit of at least its number of tokens.  Against a base
type or none the derivation fails because branches differ exactly if two branches somewhere
are reported differently.  If the branches of each conditional that the expected type
reaches end alike, the verdict is the same against `Nat`, against `Bool` and with nothing
expected. -/
theorem branch_verdict_by_reported_types (s : Settings) (style : Presentation) {e : Expr}
    (he : e.Splittable) (hv : e.occurrences = []) (hd : (e.run.length : Int) ≤ s.maxDepth) :
    (∀ expected : Signature, expected.length ≤ 1 →
        (BranchesDiffer s style e.run expected ↔ e.Clashes expected)) ∧
      (e.Steady →
        (BranchesDiffer s style e.run .nat ↔ BranchesDiffer s style e.run .bool) ∧
          (BranchesDiffer s style e.run .bool ↔ BranchesDiffer s style e.run [])) := by
  have hverdict (expected : Signature) (hl : expected.length ≤ 1) :
      BranchesDiffer s style e.run expected ↔ e.Clashes expected :=
    branchesDiffer_iff_clashes s style he hv hd hl
  refine ⟨hverdict, fun hsteady => ?_⟩
  have hnat := hverdict .nat (Nat.le_refl 1)
  have hbool := hverdict .bool (Nat.le_refl 1)
  have hnone := hverdict [] (Nat.zero_le 1)
  rw [hnat, hbool, hnone]
  exact ⟨hsteady.clashes_iff .nat .bool, hsteady.clashes_iff .bool []⟩

/-- The expression `succ if true then 0 else if false then true else false`, whose branches
end in literals. -/
def literalChoice : Expr :=
  .unary .succ (.cond .truth .zero (.cond .falsity .truth .falsity))

theorem branch_verdict_on_literalChoice :
    literalChoice.Splittable ∧ literalChoice.occurrences = [] ∧ literalChoice.Steady ∧
      literalChoice.Clashes [] ∧ BranchesDiffer {} .sequent literalChoice.run [] ∧
      BranchesDiffer {} .sequent literalChoice.run .bool ∧
      BranchesDiffer {} .sequent literalChoice.run .nat := by
  have he : literalChoice.Splittable := by decide
  have hsteady : literalChoice.Steady := by decide
  have hclash : literalChoice.Clashes [] := by decide
  obtain ⟨hverdict, hsame⟩ := branch_verdict_by_reported_types {} .sequent he rfl (by decide)
  obtain ⟨hnat, hbool⟩ := hsame hsteady
  have hnone := (hverdict [] (Nat.zero_le 1)).2 hclash
  exact ⟨he, rfl, hsteady, hclash, hnone, hbool.2 hnone, hnat.2 (hbool.2 hnone)⟩

/-- **The verdict on branches depends on the expected type.**  The operator in
`if true then iszero 0 else 0` hands on what is expected of it: against `Nat` the branches
agree, and against `Bool` they differ. -/
theorem branch_verdict_depends_on_expected :
    ¬ ∀ (s : Settings) (style : Presentation) (e : Expr), e.Splittable → e.occurrences = [] →
      (e.run.length : Int) ≤ s.maxDepth →
      (BranchesDiffer s style e.run .nat ↔ BranchesDiffer s style e.run .bool) ∧
        (BranchesDiffer s style e.run .bool ↔ BranchesDiffer s style e.run []) := by
  intro h
  have hsame := h {} .sequent (.cond .truth (.unary .iszero .zero) .zero) (by decide) rfl
    (by decide)
  obtain ⟨f, hf, -⟩ := hsame.1.2 ⟨_, rfl, rfl⟩
  cases hf

end Arithmetic
end TypeDeduction

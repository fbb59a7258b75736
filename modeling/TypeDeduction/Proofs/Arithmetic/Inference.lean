/-
# Inference and checking agree

A rule works out what it shows, what it hands on and whether it fits in one way if a type
is expected of it and in another if none is.  Where it fits, the two come to the same
step: its type is then the one that the rule gives, expected or not (`unaryStep_eq` and
the lemmas beside it).  The exception is the status of a conditional that stands inside
a clause, which is flagged against `Nat` and never if nothing is expected.

So a derivation that fits can be moved to any other type that leaves room for its own,
and only flags of conditionals change on the way (`Derives.exists_of_admits`).  Checking
against the inferred type and inferring what has been checked are two cases of this.
-/

import TypeDeduction.Proofs.Arithmetic.Typing

namespace TypeDeduction

variable {conclude : Signature → Judgment} {expected : Signature} {A : BaseType}

/-! ### Steps that fit do not depend on the expected type -/

namespace Rule

/-- A literal that fits is the same step against every type that leaves room for its own. -/
theorem literal_congr {r : Rule} (hr : r.name ≠ cond.name) {showsExpected : Bool}
    (hp : (literal r.name A showsExpected expected conclude).FlaggedOnly .cond)
    {expected' : Signature} (ha' : expected'.Admits A) :
    literal r.name A showsExpected expected conclude =
      literal r.name A showsExpected expected' conclude := by
  have ha := (flaggedOnly_literal hr).1 hp
  rcases ha with rfl | rfl <;> rcases ha' with rfl | rfl <;> simp [literal]

theorem conditionalStep_eq {pc pt pr : Proof} (ht : pt.type = [A]) (ha : expected.Admits A)
    (inner : Bool) :
    conditionalStep conclude expected inner pc pt pr =
      .step ⟨cond.name, conclude [A], [A], .ofFit (¬ (inner ∧ expected = .nat))⟩ [pc, pt, pr] := by
  rcases ha with rfl | rfl <;> simp [conditionalStep, ht]

theorem bracketedStep_eq {q : Proof} (hq : q.type = [A]) (ha : expected.Admits A)
    (calculus : Calculus) :
    bracketedStep calculus conclude expected q =
      .step ⟨(brackets calculus).name, conclude [A], [A], .exact⟩ [q] := by
  rcases ha with rfl | rfl <;> simp [bracketedStep, hq]

end Rule

namespace Arithmetic

theorem unaryStep_eq {op : UnaryOp} {q : Proof} (hq : q.type = [.nat])
    (ha : expected.Admits op.result) :
    unaryStep op conclude expected q =
      .step ⟨op.rule.name, conclude [op.result], [op.result], .exact⟩ [q] := by
  rcases ha with rfl | rfl <;> cases op <;>
    simp [unaryStep, arithmeticStep, iszeroStep, hq, UnaryOp.result, UnaryOp.rule, Status.ofFit]

/-! ### Moving a derivation to another type -/

variable {style : Presentation} {run : Run} {inner : Bool} {p : Proof}

/-- **A derivation that fits can be moved to any type that leaves room for its own.**  Only
the flags of conditionals can change, and none is added if nothing is expected any more.
The condition of a conditional and the operand of `iszero` are derived against a type of
their own and stay as they are. -/
theorem Derives.exists_of_admits (h : Derives style run expected inner p)
    (hp : p.FlaggedOnly .cond) (hA : p.type = [A]) {expected' : Signature}
    (ha' : expected'.Admits A) :
    ∃ q, Derives style run expected' inner q ∧ q.unflag .cond = p.unflag .cond ∧
      (expected' = [] → p.hasMismatch = false → q.hasMismatch = false) := by
  induction h generalizing A expected' with
  | truth hb =>
      obtain rfl : BaseType.bool = A := by simpa [Rule.literal] using hA
      rw [Rule.literal_congr (by decide) hp ha']
      exact ⟨_, .truth hb, rfl, fun _ h => h⟩
  | falsity hb =>
      obtain rfl : BaseType.bool = A := by simpa [Rule.literal] using hA
      rw [Rule.literal_congr (by decide) hp ha']
      exact ⟨_, .falsity hb, rfl, fun _ h => h⟩
  | zero hb =>
      obtain rfl : BaseType.nat = A := by simpa [Rule.literal] using hA
      rw [Rule.literal_congr (by decide) hp ha']
      exact ⟨_, .zero hb, rfl, fun _ h => h⟩
  | @unary op rest _ _ q operand ih =>
      obtain ⟨hs, hq⟩ := flaggedOnly_unaryStep.1 hp
      obtain ⟨-, B, -, -, haB, hB⟩ := operand.hasType hq
      obtain ⟨rfl, ha⟩ := (status_unaryStep hB haB).1 hs
      obtain rfl : op.result = A := by simpa [type_unaryStep hB ha] using hA
      obtain ⟨q', operand', heq, hexact⟩ :
          ∃ q', Derives style rest (op.demand expected') false q' ∧
            q'.unflag .cond = q.unflag .cond ∧
            (expected' = [] → q.hasMismatch = false → q'.hasMismatch = false) := by
        cases op with
        | succ | pred => exact ih hq hB ha'
        | iszero => exact ⟨q, operand, rfl, fun _ h => h⟩
      have hB' := (Proof.type_eq_of_unflag_eq heq).trans hB
      refine ⟨_, .unary op operand', ?_⟩
      rw [unaryStep_eq hB ha, unaryStep_eq hB' ha']
      simp only [Proof.unflag_step, Proof.hasMismatch_step, List.map_cons, List.map_nil, heq,
        List.forall_mem_singleton, true_and]
      exact hexact
  | cond hs condition thenBranch elseBranch agree ihc iht ihr =>
      obtain ⟨hpc, hpt, hpr⟩ := Rule.flaggedOnly_conditionalStep.1 hp
      obtain ⟨-, B, -, -, ha, hB⟩ := thenBranch.hasType hpt
      obtain ⟨-, C, -, -, -, hC⟩ := elseBranch.hasType hpr
      obtain rfl : B = C := by simpa [hB, hC] using agree
      obtain rfl : B = A := by simpa [Rule.conditionalStep, hB] using hA
      obtain ⟨pt', thenBranch', heqt, hexactt⟩ := iht hpt hB ha'
      obtain ⟨pr', elseBranch', heqr, hexactr⟩ := ihr hpr hC ha'
      have hB' := (Proof.type_eq_of_unflag_eq heqt).trans hB
      have hC' := (Proof.type_eq_of_unflag_eq heqr).trans hC
      refine ⟨_, .cond hs condition thenBranch' elseBranch' (by rw [hB', hC']), ?_⟩
      rw [Rule.conditionalStep_eq hB ha, Rule.conditionalStep_eq hB' ha']
      simp only [Proof.unflag_step, Proof.hasMismatch_step, List.map_cons, List.map_nil, heqt, heqr,
        List.forall_mem_cons]
      constructor
      · rfl
      · rintro rfl ⟨-, hc, ht, hr, -⟩
        exact ⟨by simp, hc, hexactt rfl ht, hexactr rfl hr, by simp⟩
  | bracketed last inside ih =>
      have hq := Rule.flaggedOnly_bracketedStep.1 hp
      obtain ⟨-, B, -, -, ha, hB⟩ := inside.hasType hq
      obtain rfl : B = A := by simpa [Rule.type_bracketedStep hB ha] using hA
      obtain ⟨q', inside', heq, hexact⟩ := ih hq hB ha'
      have hB' := (Proof.type_eq_of_unflag_eq heq).trans hB
      refine ⟨_, .bracketed last inside', ?_⟩
      rw [Rule.bracketedStep_eq hB ha, Rule.bracketedStep_eq hB' ha']
      simp only [Proof.unflag_step, Proof.hasMismatch_step, List.map_cons, List.map_nil, heq,
        List.forall_mem_singleton, true_and]
      exact hexact

/-! ### Exact trees -/

/-- The tree is found against the expected type and nothing in it is flagged. -/
def Exact (s : Settings) (style : Presentation) (run : Run) (expected : Signature) (p : Proof) :
    Prop :=
  (tree s style run expected).outcome = .ok p ∧ p.hasMismatch = false

namespace Exact

variable {s : Settings}

/-- An exact tree hands on a base type, the one that is expected if one is. -/
theorem exists_type (h : Exact s style run expected p) :
    ∃ A, p.type = [A] ∧ expected.Admits A := by
  have hflags := Proof.flaggedOnly_of_hasMismatch_eq_false h.2 .cond
  obtain ⟨-, A, -, -, ha, hA⟩ := (derive_eq_ok_iff.1 h.1).1.hasType hflags
  exact ⟨A, hA, ha⟩

/-- **Checking against the inferred type** finds the inferred tree, up to flags of
conditionals. -/
theorem exists_checked (h : Exact s style run expected p) :
    ∃ q, (tree s style run p.type).outcome = .ok q ∧ q.unflag .cond = p := by
  obtain ⟨A, hA, -⟩ := h.exists_type
  have hflags := Proof.flaggedOnly_of_hasMismatch_eq_false h.2 .cond
  obtain ⟨hd, hheight⟩ := derive_eq_ok_iff.1 h.1
  obtain ⟨q, hq, heq, -⟩ := hd.exists_of_admits hflags hA (.inr rfl)
  rw [Proof.unflag_eq_self h.2] at heq
  have hheight' : q.height ≤ Depth.levels s.maxDepth := by
    rw [← heq] at hheight
    exact Proof.height_relabel_le_iff.1 hheight
  rw [hA]
  exact ⟨q, derive_eq_ok_iff.2 ⟨hq, hheight'⟩, heq⟩

/-- **Inferring what has been checked** finds the same tree. -/
theorem inferred (h : Exact s style run expected p) : Exact s style run [] p := by
  obtain ⟨A, hA, -⟩ := h.exists_type
  have hflags := Proof.flaggedOnly_of_hasMismatch_eq_false h.2 .cond
  obtain ⟨hd, hheight⟩ := derive_eq_ok_iff.1 h.1
  obtain ⟨q, hq, heq, hexact⟩ := hd.exists_of_admits hflags hA (.inl rfl)
  rw [Proof.unflag_eq_self h.2, Proof.unflag_eq_self (hexact rfl h.2)] at heq
  rw [heq] at hq
  exact ⟨derive_eq_ok_iff.2 ⟨hq, hheight⟩, h.2⟩

/-- A run has one exact tree, whatever is expected of it. -/
theorem unique {expected' : Signature} {q : Proof} (h : Exact s style run expected p)
    (h' : Exact s style run expected' q) : p = q :=
  Except.ok.inj (h.inferred.1.symm.trans h'.inferred.1)

end Exact

/-- **Inference and checking agree.**  A tree that is exact against an expected type is
inferred as it is, and the type is `Nat` or `Bool` and the type of the tree.  A tree that
is inferred exactly has one of these types, and against it the same tree is found, up to
flags of conditionals.  All exact trees of a run are the same, so there are no two types
at which it has one. -/
theorem inference_agrees_with_checking (s : Settings) (style : Presentation) (run : Run) :
    (∀ (expected : Signature) p, expected ≠ [] → Exact s style run expected p →
        (expected = .nat ∨ expected = .bool) ∧ p.type = expected ∧
          (tree s style run []).outcome = .ok p) ∧
      (∀ p, Exact s style run [] p →
        (p.type = .nat ∨ p.type = .bool) ∧
          ∃ q, (tree s style run p.type).outcome = .ok q ∧ q.unflag .cond = p) ∧
      ∀ expected expected' p q, Exact s style run expected p → Exact s style run expected' q →
        p = q ∧ (expected ≠ [] → expected' ≠ [] → expected = expected') := by
  have hchecked : ∀ {expected p}, expected ≠ [] → Exact s style run expected p →
      p.type = expected := by
    intro expected p hne h
    obtain ⟨A, hA, ha⟩ := h.exists_type
    exact hA.trans (ha.resolve_left hne).symm
  have hbase : ∀ {expected p}, Exact s style run expected p → p.type = .nat ∨ p.type = .bool := by
    intro expected p h
    obtain ⟨A, hA, -⟩ := h.exists_type
    rw [hA]
    cases A with
    | nat => exact .inl rfl
    | bool => exact .inr rfl
  refine ⟨fun expected p hne h => ?_, fun p h => ?_, fun expected expected' p q h h' => ?_⟩
  · have htype := hchecked hne h
    exact ⟨htype ▸ hbase h, htype, h.inferred.1⟩
  · exact ⟨hbase h, h.exists_checked⟩
  · obtain rfl := h.unique h'
    exact ⟨rfl, fun hne hne' => (hchecked hne h).symm.trans (hchecked hne' h')⟩

/-- The run `if iszero pred 0 then ( succ 0 ) else 0`, in which all steps fit. -/
def guardedSuccessor : Run :=
  [.cond, .word .iszero, .word .pred, .word .zero, .word .thenBranch, .lparen, .word .succ,
    .word .zero, .rparen, .word .elseBranch, .word .zero]

/-- The tree inferred for the nested choice is exact.  Against its type, `Nat`, the inner
conditional is flagged, and without the flag it is the same tree.  The tree that the guarded
successor has against `Nat` is exact, and it is the one that is inferred. -/
theorem inference_agrees_on_nestedChoice :
    (∃ p, Exact {} .sequent nestedChoice.run [] p ∧
        ∃ q, (tree {} .sequent nestedChoice.run .nat).outcome = .ok q ∧ q.hasMismatch = true ∧
          q.unflag .cond = p) ∧
      ∃ p, Exact {} .sequent guardedSuccessor .nat p ∧
        p.rules = ["T-if", "T-iszero", "T-pred", "T-zero", "T-bra", "T-succ", "T-zero", "T-zero"] ∧
        p.type = .nat ∧ (tree {} .sequent guardedSuccessor []).outcome = .ok p := by
  constructor
  · have hexact : Exact {} .sequent nestedChoice.run [] _ := ⟨rfl, rfl⟩
    obtain ⟨-, q, hq, heq⟩ :=
      (inference_agrees_with_checking {} .sequent nestedChoice.run).2.1 _ hexact
    refine ⟨_, hexact, q, hq, ?_, heq⟩
    obtain rfl := Except.ok.inj hq
    rfl
  · have hexact : Exact {} .sequent guardedSuccessor .nat _ := ⟨rfl, rfl⟩
    obtain ⟨-, htype, hinferred⟩ :=
      (inference_agrees_with_checking {} .sequent guardedSuccessor).1 .nat _ (by decide) hexact
    exact ⟨_, hexact, rfl, htype, hinferred⟩

end Arithmetic
end TypeDeduction

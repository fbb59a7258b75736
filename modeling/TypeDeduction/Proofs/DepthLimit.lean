/-
# What the depth limit does to an answer

The limit can only cut a derivation off.  With more levels a computation goes the
same way until it would have been cut off, so of two computations that differ in the
levels left alone the one with fewer is cut off or ends as the other does
(`Traced.CutBy`).  This passes through sequences (`Traced.CutBy.bind`), hence through
every rule, whatever failures compete in it and in whatever order its parts are
derived, and so up the levels (`Arithmetic.derive_cutBy`, `Lambda.derive_cutBy`).

Since the levels a tree takes are its height, the limits under which it is found are
known exactly, and below them nothing but the limit is reported
(`depth_limit_exact`).
-/

import TypeDeduction.Proofs.Arithmetic.Derivation
import TypeDeduction.Proofs.Lambda.Derivation

namespace TypeDeduction

variable {limit limit' : Int}

namespace Traced

variable {α β : Type}

/-- The first computation is cut off by the limit or ends as the second does. -/
def CutBy (limit : Int) (x y : Traced α) : Prop :=
  x.outcome = .error (.tooDeep limit) ∨ x.outcome = y.outcome

namespace CutBy

theorem refl (x : Traced α) : x.CutBy limit x := .inr rfl

theorem of_tooDeep (y : Traced α) : (fail (.tooDeep limit)).CutBy limit y := .inl rfl

/-- **A sequence is cut off where one of its parts is**, and ends as the other sequence
does if none is. -/
theorem bind {x y : Traced α} {f g : α → Traced β} (hx : x.CutBy limit y)
    (hf : ∀ a, (f a).CutBy limit (g a)) : (x >>= f).CutBy limit (y >>= g) := by
  rw [CutBy, outcome_bind, outcome_bind]
  rcases hx with hx | hx
  · rw [hx]
    exact .inl rfl
  · rw [hx]
    cases y.outcome with
    | error e => exact .inr rfl
    | ok a => exact hf a

end CutBy
end Traced

/-! ### Rules -/

namespace Rule

theorem conditional_cutBy {derive derive' : Run → Signature → Bool → Traced Proof}
    (h : ∀ r e i, (derive r e i).CutBy limit (derive' r e i)) (conclude : Signature → Judgment)
    (run : Run) (expected : Signature) (inner : Bool) :
    (conditional derive conclude run expected inner).CutBy limit
      (conditional derive' conclude run expected inner) := by
  refine .bind (.refl _) fun parts => ?_
  refine .bind (h _ _ _) fun condition => ?_
  refine .bind (h _ _ _) fun thenProof => ?_
  exact .bind (h _ _ _) fun elseProof => .refl _

theorem bracketed_cutBy {derive derive' : Run → Signature → Traced Proof}
    (h : ∀ r e, (derive r e).CutBy limit (derive' r e)) (calculus : Calculus)
    (conclude : Signature → Judgment) (run : Run) (expected : Signature) :
    (bracketed calculus derive conclude run expected).CutBy limit
      (bracketed calculus derive' conclude run expected) := by
  unfold bracketed
  split
  · exact .refl _
  · split
    · exact .refl _
    · exact .bind (h _ _) fun inner => .refl _

end Rule

namespace Arithmetic

/-- The rule of the first token is cut off only where a premise is. -/
theorem dispatch_cutBy {derive derive' : Run → Signature → Bool → Traced Proof}
    (h : ∀ r e i, (derive r e i).CutBy limit (derive' r e i)) (style : Presentation)
    (head : Token) (rest : Run) (expected : Signature) (inner : Bool) :
    (dispatch style derive head rest expected inner).CutBy limit
      (dispatch style derive' head rest expected inner) := by
  have unary (op : UnaryOp) :
      (dispatch style derive (.word op.word) rest expected inner).CutBy limit
        (dispatch style derive' (.word op.word) rest expected inner) := by
    by_cases hr : rest = []
    · subst hr
      rw [dispatch_unary_nil, dispatch_unary_nil]
      exact .refl _
    · rw [dispatch_unary hr, dispatch_unary hr]
      exact .bind (h _ _ _) fun operand => .refl _
  cases head with
  | ascription | var | fn => exact .refl _
  | word w =>
      cases w with
      | truth | falsity | zero | thenBranch | elseBranch | rparen => exact .refl _
      | succ => exact unary .succ
      | pred => exact unary .pred
      | iszero => exact unary .iszero
      | cond => exact Rule.conditional_cutBy h _ _ _ _
      | lparen => exact Rule.bracketed_cutBy (fun r e => h r e false) _ _ _ _

/-- **With fewer levels a run is cut off or derived as with more.** -/
theorem derive_cutBy {left left' : Nat} (hl : left ≤ left') (style : Presentation) (run : Run)
    (expected : Signature) (inner : Bool) :
    (derive limit style left run expected inner).CutBy limit
      (derive limit' style left' run expected inner) := by
  induction left generalizing left' run expected inner with
  | zero =>
      rw [derive.eq_def, derive.eq_def limit']
      cases run with
      | nil => exact .refl _
      | cons head rest =>
          dsimp only
          split
          · exact .refl _
          · exact .of_tooDeep _
  | succ left ih =>
      obtain ⟨more, rfl⟩ := Nat.exists_eq_add_of_le hl
      rw [Nat.add_right_comm, derive.eq_def, derive.eq_def limit']
      cases run with
      | nil => exact .refl _
      | cons head rest =>
          dsimp only
          split
          · exact .refl _
          · refine .bind (.inr rfl) fun _ => dispatch_cutBy (fun r e i => ?_) _ _ _ _ _
            exact ih (Nat.le_add_right left more) r e i

/-- A derivation takes a level, since none is found where none is left. -/
theorem Derives.height_pos {style : Presentation} {run : Run} {expected : Signature}
    {inner : Bool} {p : Proof} (h : Derives style run expected inner p) : 0 < p.height := by
  refine Nat.pos_of_ne_zero fun hz => ?_
  obtain ⟨head, rest, rfl⟩ := List.exists_cons_of_ne_nil h.ne_nil
  have hfound : (derive 0 style 0 (head :: rest) expected inner).outcome = .ok p :=
    h.outcome_eq (Nat.le_of_eq hz)
  obtain ⟨-, l, hl, -⟩ := derive_cons_eq_ok_iff.1 hfound
  omega

end Arithmetic

namespace Lambda

theorem abstraction_cutBy {derive derive' : Run → Run → Signature → Traced Proof}
    (h : ∀ r₁ r₂ e, (derive r₁ r₂ e).CutBy limit (derive' r₁ r₂ e)) (first second : Run)
    (expected : Signature) :
    (abstraction derive first second expected).CutBy limit
      (abstraction derive' first second expected) := by
  unfold abstraction
  split
  · refine .bind (.refl _) fun body => .bind (.refl _) fun _ => ?_
    exact .bind (h _ _ _) fun proof => .refl _
  · exact .refl _

/-- The argument of an application comes first, and the function is then derived against
the same type under either limit. -/
theorem application_cutBy {derive derive' : Run → Signature → Traced Proof}
    (h : ∀ r e, (derive r e).CutBy limit (derive' r e)) (first second : Run)
    (expected : Signature) :
    (application derive first second expected).CutBy limit
      (application derive' first second expected) := by
  refine .bind (h _ _) fun argument => ?_
  exact .bind (h _ _) fun function => .refl _

/-- The rule of the first token is cut off only where a premise is. -/
theorem dispatch_cutBy {derive derive' : Run → Signature → Bool → Traced Proof}
    (h : ∀ r e i, (derive r e i).CutBy limit (derive' r e i)) (signature : Option Signature)
    (head : Token) (rest : Run) (expected : Signature) (inner : Bool) :
    (dispatch signature derive head rest expected inner).CutBy limit
      (dispatch signature derive' head rest expected inner) := by
  have unary (op : UnaryOp) :
      (dispatch signature derive (.word op.word) rest expected inner).CutBy limit
        (dispatch signature derive' (.word op.word) rest expected inner) := by
    by_cases hr : rest = []
    · subst hr
      rw [dispatch_unary_nil, dispatch_unary_nil]
      exact .refl _
    · rw [dispatch_unary hr, dispatch_unary hr]
      exact .bind (h _ _ _) fun operand => .refl _
  cases head with
  | ascription | var | fn => exact .refl _
  | word w =>
      cases w with
      | truth | falsity | zero | thenBranch | elseBranch | rparen => exact .refl _
      | succ => exact unary .succ
      | pred => exact unary .pred
      | iszero => exact unary .iszero
      | cond => exact Rule.conditional_cutBy h _ _ _ _
      | lparen => exact Rule.bracketed_cutBy (fun r e => h r e false) _ _ _ _

/-- **With fewer levels runs are cut off or derived as with more.** -/
theorem derive_cutBy {left left' : Nat} (hl : left ≤ left') (signature : Option Signature)
    (first second : Run) (expected : Signature) (inner : Bool) :
    (derive limit signature left first second expected inner).CutBy limit
      (derive limit' signature left' first second expected inner) := by
  induction left generalizing left' first second expected inner with
  | zero => exact .of_tooDeep _
  | succ left ih =>
      obtain ⟨more, rfl⟩ := Nat.exists_eq_add_of_le hl
      have hd (r₁ r₂ : Run) (e : Signature) (i : Bool) :
          (derive limit signature left r₁ r₂ e i).CutBy limit
            (derive limit' signature (left + more) r₁ r₂ e i) :=
        ih (Nat.le_add_right left more) r₁ r₂ e i
      rw [Nat.add_right_comm, derive.eq_def, derive.eq_def limit']
      dsimp only
      split
      · exact abstraction_cutBy (fun r₁ r₂ e => hd r₁ r₂ e false) _ _ _
      · split
        · split
          · exact .refl _
          · exact application_cutBy (fun r e => hd r [] e false) _ _ _
        · cases first with
          | nil => exact .refl _
          | cons head rest =>
              refine .bind (.inr rfl) fun _ => ?_
              exact dispatch_cutBy (fun r e i => hd r [] e i) _ _ _ _ _

/-- A derivation takes a level, since none is found where none is left. -/
theorem Derives.height_pos {signature : Option Signature} {first second : Run}
    {expected : Signature} {inner : Bool} {p : Proof}
    (h : Derives signature first second expected inner p) : 0 < p.height := by
  refine Nat.pos_of_ne_zero fun hz => ?_
  have hfound : (derive 0 signature 0 first second expected inner).outcome = .ok p :=
    h.outcome_eq (Nat.le_of_eq hz)
  cases hfound

end Lambda

/-! ### Answers under all limits -/

/-- What an engine answers under one limit settles its answers under others.  A tree is
found under every limit that its height does not exceed, and under the others the limit
is reported; a failure for any other reason is the answer under every larger limit. -/
def LimitExact (answer : Settings → Except Failure Proof) : Prop :=
  ∀ s₀ s : Settings,
    (∀ p, answer s₀ = .ok p →
      ((p.height : Int) ≤ s.maxDepth → answer s = .ok p) ∧
      (s.maxDepth < p.height → answer s = .error (.tooDeep s.maxDepth))) ∧
    ∀ f, answer s₀ = .error f → f.code ≠ Code.tooDeep → s₀.maxDepth ≤ s.maxDepth →
      answer s = .error f

/-- An engine that finds the trees its levels suffice for, and that fewer levels can only
cut off, answers exactly up to the limit. -/
theorem limitExact_of_cutBy {engine : Settings → Traced Proof} {Derived : Proof → Prop}
    (hpos : ∀ p, Derived p → 0 < p.height)
    (hok : ∀ s p, (engine s).outcome = .ok p ↔ Derived p ∧ p.height ≤ Depth.levels s.maxDepth)
    (hcut : ∀ s s' : Settings, Depth.levels s.maxDepth ≤ Depth.levels s'.maxDepth →
      (engine s).CutBy s.maxDepth (engine s')) :
    LimitExact fun s => (engine s).outcome := by
  refine fun s₀ s => ⟨fun p hp => ?_, fun f hf hcode hle => ?_⟩
  · obtain ⟨hd, hh₀⟩ := (hok s₀ p).1 hp
    have hone := hpos p hd
    refine ⟨fun hh => (hok s p).2 ⟨hd, ?_⟩, fun hh => ?_⟩
    · unfold Depth.levels
      omega
    · have hlow : Depth.levels s.maxDepth < p.height := by
        unfold Depth.levels
        omega
      rcases hcut s s₀ (by omega) with h | h
      · exact h
      · have hfound := ((hok s p).1 (h.trans hp)).2
        omega
  · have hlevels : Depth.levels s₀.maxDepth ≤ Depth.levels s.maxDepth := by
      unfold Depth.levels
      omega
    rcases hcut s₀ s hlevels with h | h
    · obtain rfl := Except.error.inj (hf.symm.trans h)
      exact absurd rfl hcode
    · exact h.symm.trans hf

/-- **The depth limit is exact and only ever cuts off**, in both engines and for all
inputs: a tree found under one limit is the answer under every limit from its height on,
and `tooDeep` is the answer under every limit below; a failure other than `tooDeep` is
the answer under every larger limit too, with the same code and detail. -/
theorem depth_limit_exact :
    (∀ style run expected,
        LimitExact fun s => (Arithmetic.tree s style run expected).outcome) ∧
      ∀ signature first second expected inner,
        LimitExact fun s => (Lambda.tree s signature first second expected inner).outcome := by
  refine ⟨fun style run expected => ?_, fun signature first second expected inner => ?_⟩
  · exact limitExact_of_cutBy (fun p => Arithmetic.Derives.height_pos)
      (fun s p => Arithmetic.derive_eq_ok_iff) fun s s' hl => Arithmetic.derive_cutBy hl _ _ _ _
  · exact limitExact_of_cutBy (fun p => Lambda.Derives.height_pos)
      (fun s p => Lambda.derive_eq_ok_iff) fun s s' hl => Lambda.derive_cutBy hl _ _ _ _ _

/-- The tree of `succ 0` has two levels, so it is the answer under the limits two and three and
not under one, in both engines.  A `succ` without operand fails under the limit one, and so it
does under all larger ones. -/
theorem depth_limit_of_successor :
    (∃ p, (Arithmetic.tree { maxDepth := 2 } .sequent [.word .succ, .word .zero] .nat).outcome =
        .ok p ∧ p.height = 2 ∧
      (Arithmetic.tree { maxDepth := 3 } .sequent [.word .succ, .word .zero] .nat).outcome = .ok p ∧
      (Arithmetic.tree { maxDepth := 1 } .sequent [.word .succ, .word .zero] .nat).outcome =
        .error (.tooDeep 1)) ∧
    (∃ p, (Lambda.tree { maxDepth := 2 } none [.word .succ, .word .zero] [] .nat false).outcome =
        .ok p ∧ p.height = 2 ∧
      (Lambda.tree { maxDepth := 3 } none [.word .succ, .word .zero] [] .nat false).outcome =
        .ok p ∧
      (Lambda.tree { maxDepth := 1 } none [.word .succ, .word .zero] [] .nat false).outcome =
        .error (.tooDeep 1)) ∧
    ∃ f, (Arithmetic.tree { maxDepth := 1 } .sequent [.word .succ] .nat).outcome = .error f ∧
      f.code = Code.succOperand ∧
      ∀ limit, 1 ≤ limit →
        (Arithmetic.tree { maxDepth := limit } .sequent [.word .succ] .nat).outcome =
          .error f := by
  obtain ⟨harithmetic, hlambda⟩ := depth_limit_exact
  have hsucc := harithmetic .sequent [.word .succ, .word .zero] .nat { maxDepth := 2 }
  have hsucc' := hlambda none [.word .succ, .word .zero] [] .nat false { maxDepth := 2 }
  have hlone := harithmetic .sequent [.word .succ] .nat { maxDepth := 1 }
  refine ⟨⟨_, rfl, rfl, ?_, ?_⟩, ⟨_, rfl, rfl, ?_, ?_⟩, _, rfl, rfl, fun limit h => ?_⟩
  · exact ((hsucc { maxDepth := 3 }).1 _ rfl).1 (by decide)
  · exact ((hsucc { maxDepth := 1 }).1 _ rfl).2 (by decide)
  · exact ((hsucc' { maxDepth := 3 }).1 _ rfl).1 (by decide)
  · exact ((hsucc' { maxDepth := 1 }).1 _ rfl).2 (by decide)
  · exact (hlone { maxDepth := limit }).2 _ rfl (by decide) h

end TypeDeduction

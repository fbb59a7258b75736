/-
# What a lambda derivation consists of

As in arithmetic, a derivation that has been found is a relation between its runs,
the type expected of them and the tree: `Derives signature first second expected
inner p`.  It has one constructor for each way to go on.

| runs | premises |
| --- | --- |
| one of them has a candidate | both runs with the candidate bound |
| two, none with a candidate | the argument, then the function |
| a literal, a variable or `f` alone | none but lookups |
| an operator and `rest` | `rest` |
| `if` and a `rest` that splits | its three clauses |
| `( a ) b` with no `)` in `b`, balanced | `a b` |

A single run comes with an empty second one.  The engine finds a tree exactly if it
is a derivation no higher than the levels that are left (`derive_eq_ok_iff`).
-/

import TypeDeduction.Lambda
import TypeDeduction.Proofs.Rules

namespace TypeDeduction

@[simp]
theorem Run.candidate_nil : Run.candidate [] = none := rfl

/-- Whether the operand of an operator is derived as an inner run. -/
def UnaryOp.nests : UnaryOp → Bool
  | .iszero => false
  | _ => true

namespace Lambda

variable {limit : Int} {signature : Option Signature} {left : Nat} {first second : Run}
  {expected : Signature} {inner : Bool} {p : Proof}

/-! ### When the rules succeed -/

/-- An abstraction over a candidate binds it, derives the body and makes a step under the
answer. -/
theorem abstraction_eq {derive : Run → Run → Signature → Traced Proof} {v : Variable}
    (hv : first.candidate.or second.candidate = some v) (domain result : BaseType)
    (rest : Signature) :
    abstraction derive first second (domain :: result :: rest) =
      (Traced.note (.binding v.name domain) >>= fun _ =>
        derive (first.bind [(v.name, domain)]) (second.bind [(v.name, domain)]) (result :: rest) >>=
          fun body =>
            return abstractionStep first second domain (domain :: result :: rest) body) := by
  have hcand : (if second = [] then none else some second).bind Run.candidate =
      second.candidate := by
    split <;> simp [*]
  have hnil : ((if second = [] then none else some second).map
      (Run.bind [(v.name, domain)])).getD [] = second.bind [(v.name, domain)] := by
    split <;> simp [*, Run.bind]
  simp only [abstraction, Abstraction.of, hcand, hv, ← hnil]
  rfl

/-- An abstraction over a candidate answers as its body does, with a step under the
answer. -/
theorem outcome_abstraction {derive : Run → Run → Signature → Traced Proof} {v : Variable}
    (hv : first.candidate.or second.candidate = some v) (domain result : BaseType)
    (rest : Signature) :
    (abstraction derive first second (domain :: result :: rest)).outcome =
      ((derive (first.bind [(v.name, domain)]) (second.bind [(v.name, domain)])
        (result :: rest)).outcome).map
          (abstractionStep first second domain (domain :: result :: rest)) := by
  rw [abstraction_eq hv, Traced.outcome_note_bind, Traced.outcome_bind]
  cases (derive (first.bind [(v.name, domain)]) (second.bind [(v.name, domain)])
    (result :: rest)).outcome <;> rfl

/-- An abstraction is derived if a domain can be taken off the expected type, there is a
variable to bind and the body is derived with the variable bound. -/
theorem abstraction_eq_ok_iff {derive : Run → Run → Signature → Traced Proof} {v : Variable}
    (hv : first.candidate.or second.candidate = some v) :
    (abstraction derive first second expected).outcome = .ok p ↔
      ∃ domain result rest body, expected = domain :: result :: rest ∧
        (derive (first.bind [(v.name, domain)]) (second.bind [(v.name, domain)])
          (result :: rest)).outcome = .ok body ∧
        p = abstractionStep first second domain expected body := by
  rcases expected with _ | ⟨domain, _ | ⟨result, rest⟩⟩
  · simp [abstraction]
  · simp [abstraction]
  · rw [outcome_abstraction hv]
    constructor
    · intro h
      cases hq : (derive (first.bind [(v.name, domain)]) (second.bind [(v.name, domain)])
          (result :: rest)).outcome with
      | error f => simp [hq, Except.map] at h
      | ok body =>
          rw [hq] at h
          exact ⟨domain, result, rest, body, rfl, hq, (Except.ok.inj h).symm⟩
    · rintro ⟨_, _, _, body, heq, hq, rfl⟩
      obtain ⟨rfl, rfl, rfl⟩ : domain = _ ∧ result = _ ∧ rest = _ := by simpa using heq
      rw [hq]
      rfl

/-- An application is derived if its argument is and then its function. -/
theorem application_eq_ok_iff {derive : Run → Signature → Traced Proof} :
    (application derive first second expected).outcome = .ok p ↔
      ∃ argument function, (derive second expected).outcome = .ok argument ∧
        (derive first (functionType argument.type expected)).outcome = .ok function ∧
        p = applicationStep first second expected function argument := by
  rw [application, Traced.outcome_bind_eq_ok_iff]
  simp only [Traced.outcome_bind_pure_eq_ok_iff]
  constructor
  · rintro ⟨argument, ha, function, hf, rfl⟩
    exact ⟨argument, function, ha, hf, rfl⟩
  · rintro ⟨argument, function, ha, hf, rfl⟩
    exact ⟨argument, ha, function, hf, rfl⟩

/-- The step for an operator over the derivation of its operand. -/
def unaryStep : UnaryOp → (Signature → Judgment) → Signature → Proof → Proof
  | .iszero => iszeroStep
  | op => arithmeticStep op

theorem height_unaryStep_le_iff {op : UnaryOp} {conclude : Signature → Judgment} {q : Proof}
    {n : Nat} :
    (unaryStep op conclude expected q).height ≤ n ↔ ∃ l, n = l + 1 ∧ q.height ≤ l := by
  cases op <;>
    simp only [unaryStep, arithmeticStep, iszeroStep, Proof.height_step_le_iff,
      List.forall_mem_singleton]

theorem dispatch_unary_nil {derive : Run → Signature → Bool → Traced Proof} {op : UnaryOp} :
    dispatch signature derive (.word op.word) [] expected inner =
      Traced.fail (.missingOperand op) := by
  cases op <;> rfl

/-- An operator derives its operand and makes a step over it. -/
theorem dispatch_unary {derive : Run → Signature → Bool → Traced Proof} {op : UnaryOp}
    {rest : Run} (hr : rest ≠ []) :
    dispatch signature derive (.word op.word) rest expected inner =
      derive rest (op.demand expected) op.nests >>= fun q =>
        return unaryStep op (conclude (.word op.word :: rest)) expected q := by
  cases op <;> simp only [dispatch, UnaryOp.word, arithmetic, iszero, if_neg hr] <;> rfl

/-- An operator is derived if it has an operand and that is derived. -/
theorem dispatch_unary_eq_ok_iff {derive : Run → Signature → Bool → Traced Proof}
    {op : UnaryOp} {rest : Run} :
    (dispatch signature derive (.word op.word) rest expected inner).outcome = .ok p ↔
      rest ≠ [] ∧ ∃ q, (derive rest (op.demand expected) op.nests).outcome = .ok q ∧
        p = unaryStep op (conclude (.word op.word :: rest)) expected q := by
  by_cases hr : rest = []
  · subst hr
    rw [dispatch_unary_nil]
    simp
  · rw [dispatch_unary hr, Traced.outcome_bind_pure_eq_ok_iff]
    simp [hr]

/-- A single run without a candidate is derived by the rule of its first token. -/
theorem derive_cons {head : Token} {rest : Run} (hc : Run.candidate (head :: rest) = none) :
    derive limit signature (left + 1) (head :: rest) [] expected inner =
      (Traced.note (.dispatch .lambda head.kind expected (Depth.reached limit left)) >>= fun _ =>
        dispatch signature (fun r e i => derive limit signature left r [] e i) head rest expected
          inner) := by
  rw [derive.eq_def]
  simp [Run.isAbstraction, hc]

/-- Runs with a candidate are derived as an abstraction. -/
theorem derive_of_candidate {v : Variable}
    (hv : first.candidate.or second.candidate = some v) :
    derive limit signature (left + 1) first second expected inner =
      abstraction (fun r₁ r₂ e => derive limit signature left r₁ r₂ e false) first second
        expected := by
  have habs : first.isAbstraction = true ∨ second.isAbstraction = true := by
    cases h₁ : first.candidate with
    | some w => exact .inl (by rw [Run.isAbstraction, h₁, Option.isSome_some])
    | none =>
        rw [h₁, Option.none_or] at hv
        exact .inr (by rw [Run.isAbstraction, hv, Option.isSome_some])
  rw [derive.eq_def]
  exact if_pos habs

/-- With a level left, runs are derived as an abstraction, as an application or by the
rule of the first token. -/
theorem derive_succ_eq_ok_iff :
    (derive limit signature (left + 1) first second expected inner).outcome = .ok p ↔
      (first.candidate.or second.candidate ≠ none ∧
        (abstraction (fun r₁ r₂ e => derive limit signature left r₁ r₂ e false) first second
          expected).outcome = .ok p) ∨
      (first.candidate = none ∧ second.candidate = none ∧ first ≠ [] ∧ second ≠ [] ∧
        (application (fun r e => derive limit signature left r [] e false) first second
          expected).outcome = .ok p) ∨
      ∃ head rest, first = head :: rest ∧ second = [] ∧ first.candidate = none ∧
        (dispatch signature (fun r e inner => derive limit signature left r [] e inner) head rest
          expected inner).outcome = .ok p := by
  have habs : (first.isAbstraction = true ∨ second.isAbstraction = true) ↔
      first.candidate.or second.candidate ≠ none := by
    cases h₁ : first.candidate <;> cases h₂ : second.candidate <;>
      simp [Run.isAbstraction, h₁, h₂]
  rw [derive.eq_def]
  dsimp only
  by_cases h : first.candidate.or second.candidate = none
  · obtain ⟨h₁, h₂⟩ := Option.or_eq_none_iff.1 h
    rw [if_neg (mt habs.1 (not_not_intro h))]
    by_cases hs : second = []
    · subst hs
      rw [if_neg (not_not_intro rfl)]
      cases first with
      | nil => simp
      | cons head rest =>
          dsimp only
          rw [Traced.outcome_note_bind]
          constructor
          · exact fun hp => .inr (.inr ⟨head, rest, rfl, rfl, h₁, hp⟩)
          · rintro (⟨hn, -⟩ | ⟨-, -, -, hn, -⟩ | ⟨_, _, heq, -, -, hp⟩)
            · exact absurd h hn
            · exact absurd rfl hn
            · obtain ⟨rfl, rfl⟩ := List.cons.inj heq
              exact hp
    · by_cases hf : first = []
      · simp [hs, hf, h₂]
      · simp [hs, hf, h₁, h₂]
  · rw [if_pos (habs.2 h)]
    constructor
    · exact fun hp => .inl ⟨h, hp⟩
    · rintro (⟨-, hp⟩ | ⟨h₁, h₂, -⟩ | ⟨_, _, -, rfl, h₁, -⟩)
      · exact hp
      · exact absurd (by rw [h₁, h₂]; rfl) h
      · exact absurd (by rw [h₁]; rfl) h

/-! ### Derivations as a relation -/

/-- The runs have the tree as their derivation against the expected type, with the
signature of the opaque function if it has one. -/
inductive Derives (signature : Option Signature) :
    Run → Run → Signature → Bool → Proof → Prop where
  | abs {first second : Run} {domain result : BaseType} {rest : Signature} {inner : Bool}
      {v : Variable} {body : Proof} (candidate : first.candidate.or second.candidate = some v)
      (derived : Derives signature (first.bind [(v.name, domain)])
        (second.bind [(v.name, domain)]) (result :: rest) false body) :
      Derives signature first second (domain :: result :: rest) inner
        (abstractionStep first second domain (domain :: result :: rest) body)
  | app {first second : Run} {expected : Signature} {inner : Bool} {pf pa : Proof}
      (hf : first.candidate = none) (hs : second.candidate = none) (hn : second ≠ [])
      (argument : Derives signature second [] expected false pa)
      (function : Derives signature first [] (functionType pa.type expected) false pf) :
      Derives signature first second expected inner (applicationStep first second expected pf pa)
  | var {v : Variable} {declared : BaseType} {rest : Run} {expected : Signature} {inner : Bool}
      (hc : Run.candidate (.var v :: rest) = none) (hd : v.declared = some declared) :
      Derives signature (.var v :: rest) [] expected inner (occurrenceStep v declared expected)
  | fn {type expected : Signature} {inner : Bool} (hs : signature = some type) :
      Derives signature [.fn] [] expected inner (functionStep type expected)
  | truth {rest : Run} {expected : Signature} {inner : Bool}
      (hc : Run.candidate (.word .truth :: rest) = none) :
      Derives signature (.word .truth :: rest) [] expected inner
        (Rule.literal Rule.truth.name .bool true expected (conclude (.word .truth :: rest)))
  | falsity {rest : Run} {expected : Signature} {inner : Bool}
      (hc : Run.candidate (.word .falsity :: rest) = none) :
      Derives signature (.word .falsity :: rest) [] expected inner
        (Rule.literal Rule.falsity.name .bool true expected (conclude (.word .falsity :: rest)))
  | zero {rest : Run} {expected : Signature} {inner : Bool}
      (hc : Run.candidate (.word .zero :: rest) = none) :
      Derives signature (.word .zero :: rest) [] expected inner
        (Rule.literal Rule.zero.name .nat false expected (conclude (.word .zero :: rest)))
  | unary {op : UnaryOp} {w : Word} {rest : Run} {expected : Signature} {inner : Bool}
      {q : Proof} (hw : w = op.word) (hc : Run.candidate (.word w :: rest) = none)
      (operand : Derives signature rest [] (op.demand expected) op.nests q) :
      Derives signature (.word w :: rest) [] expected inner
        (unaryStep op (conclude (.word w :: rest)) expected q)
  | cond {rest : Run} {parts : Conditional} {expected : Signature} {inner : Bool}
      {pc pt pr : Proof} (hc : Run.candidate (.cond :: rest) = none)
      (split : Conditional.split (.cond :: rest) = .ok parts)
      (condition : Derives signature parts.condition.run [] .bool parts.condition.nested pc)
      (thenBranch : Derives signature parts.thenBranch.run [] expected parts.thenBranch.nested pt)
      (elseBranch : Derives signature parts.elseBranch.run [] expected parts.elseBranch.nested pr)
      (agree : pt.type.head? = pr.type.head?) :
      Derives signature (.cond :: rest) [] expected inner
        (Rule.conditionalStep (conclude (.cond :: rest)) expected inner pc pt pr)
  | bracketed {a b rest : Run} {expected : Signature} {inner : Bool} {q : Proof}
      (hc : Run.candidate (.lparen :: rest) = none) (hr : rest = a ++ .rparen :: b)
      (last : Token.rparen ∉ b) (hb : (a ++ b).balance = 0)
      (inside : Derives signature (a ++ b) [] expected false q) :
      Derives signature (.lparen :: rest) [] expected inner
        (Rule.bracketedStep .lambda (conclude (.lparen :: rest)) expected q)

namespace Derives

/-- There is nothing to derive about no tokens. -/
theorem ne_nil (h : Derives signature first second expected inner p) : first ++ second ≠ [] := by
  cases h with
  | abs hc =>
      intro h
      obtain ⟨rfl, rfl⟩ := List.append_eq_nil_iff.1 h
      cases hc
  | app _ _ hn => exact fun h => hn (List.append_eq_nil_iff.1 h).2
  | _ => exact List.cons_ne_nil _ _

/-- What the rule of the first token finds is a derivation, if what it derives one level
down are derivations. -/
theorem of_dispatch {derive : Run → Signature → Bool → Traced Proof} {head : Token} {rest : Run}
    (ih : ∀ {r e i q}, (derive r e i).outcome = .ok q →
      Derives signature r [] e i q ∧ q.height ≤ left)
    (hc : Run.candidate (head :: rest) = none)
    (h : (dispatch signature derive head rest expected inner).outcome = .ok p) :
    Derives signature (head :: rest) [] expected inner p ∧ p.height ≤ left + 1 := by
  have hleaf : ∀ {i ps}, (∀ q ∈ ps, q.height = 0) → (Proof.step i ps).height ≤ left + 1 := by
    intro i ps hps
    exact Proof.height_step_le_iff.2 ⟨left, rfl, fun q hq => by rw [hps q hq]; omega⟩
  have unary (op : UnaryOp) (hc : Run.candidate (.word op.word :: rest) = none)
      (h : (dispatch signature derive (.word op.word) rest expected inner).outcome = .ok p) :
      Derives signature (.word op.word :: rest) [] expected inner p ∧ p.height ≤ left + 1 := by
    obtain ⟨-, q, hq, rfl⟩ := dispatch_unary_eq_ok_iff.1 h
    exact ⟨.unary rfl hc (ih hq).1, height_unaryStep_le_iff.2 ⟨left, rfl, (ih hq).2⟩⟩
  cases head with
  | ascription b => simp [dispatch] at h
  | var v =>
      rw [dispatch, occurrence] at h
      split at h
      · simp at h
      · rename_i declared hd
        obtain rfl := Except.ok.inj h
        exact ⟨.var hc hd, hleaf (by simp [Proof.height])⟩
  | fn =>
      rw [dispatch, function.eq_def] at h
      cases signature with
      | none => simp at h
      | some type =>
          by_cases hr : rest = []
          · subst hr
            obtain rfl := Except.ok.inj h
            exact ⟨.fn rfl, hleaf (by simp [Proof.height])⟩
          · simp [hr] at h
  | word w =>
      cases w with
      | thenBranch | elseBranch | rparen => simp [dispatch] at h
      | truth =>
          obtain rfl := Except.ok.inj h
          exact ⟨.truth hc, hleaf (by simp)⟩
      | falsity =>
          obtain rfl := Except.ok.inj h
          exact ⟨.falsity hc, hleaf (by simp)⟩
      | zero =>
          obtain rfl := Except.ok.inj h
          exact ⟨.zero hc, hleaf (by simp)⟩
      | succ => exact unary .succ hc h
      | pred => exact unary .pred hc h
      | iszero => exact unary .iszero hc h
      | cond =>
          obtain ⟨parts, pc, pt, pr, hs, hpc, hpt, hpr, heq, rfl⟩ := Rule.conditional_eq_ok_iff.1 h
          refine ⟨.cond hc hs (ih hpc).1 (ih hpt).1 (ih hpr).1 heq, ?_⟩
          refine Proof.height_step_le_iff.2 ⟨left, rfl, ?_⟩
          simpa using ⟨(ih hpc).2, (ih hpt).2, (ih hpr).2⟩
      | lparen =>
          obtain ⟨-, hb, q, hq, rfl⟩ := Rule.bracketed_eq_ok_iff.1 h
          obtain ⟨a, b, rfl, hlast⟩ := Run.exists_lastClose_of_balance hb
          rw [Run.strip_eq_append a hlast] at hq
          have hab : Run.balance (a ++ b) = 0 := (Run.balance_bracketed a b).symm.trans hb
          refine ⟨.bracketed hc rfl hlast hab (ih hq).1, ?_⟩
          exact Proof.height_step_le_iff.2 ⟨left, rfl, by simpa using (ih hq).2⟩

/-- A tree that the engine finds is a derivation and fits below the limit.  The induction
is on the levels left; each rule's inversion lemma gives the premises one level down. -/
theorem of_outcome
    (h : (derive limit signature left first second expected inner).outcome = .ok p) :
    Derives signature first second expected inner p ∧ p.height ≤ left := by
  induction left generalizing first second expected inner p with
  | zero => simp [derive] at h
  | succ left ih =>
      rcases derive_succ_eq_ok_iff.1 h with ⟨hn, h⟩ | ⟨h₁, h₂, -, hn, h⟩ |
        ⟨head, rest, rfl, rfl, hc, h⟩
      · obtain ⟨v, hv⟩ := Option.ne_none_iff_exists'.1 hn
        obtain ⟨domain, result, rest, body, rfl, hq, rfl⟩ := (abstraction_eq_ok_iff hv).1 h
        refine ⟨.abs hv (ih hq).1, ?_⟩
        exact Proof.height_step_le_iff.2 ⟨left, rfl, by simpa using (ih hq).2⟩
      · obtain ⟨pa, pf, ha, hf, rfl⟩ := application_eq_ok_iff.1 h
        refine ⟨.app h₁ h₂ hn (ih ha).1 (ih hf).1, ?_⟩
        exact Proof.height_step_le_iff.2 ⟨left, rfl, by simpa using ⟨(ih hf).2, (ih ha).2⟩⟩
      · exact of_dispatch ih hc h

/-- A derivation that fits below the limit is found. -/
theorem outcome_eq (h : Derives signature first second expected inner p) (hl : p.height ≤ left) :
    (derive limit signature left first second expected inner).outcome = .ok p := by
  induction h generalizing left with
  | abs hv _ ih =>
      obtain ⟨l, rfl, hm⟩ := Proof.height_step_le_iff.1 hl
      rw [List.forall_mem_singleton] at hm
      refine derive_succ_eq_ok_iff.2 (.inl ⟨by simp [hv], ?_⟩)
      exact (abstraction_eq_ok_iff hv).2 ⟨_, _, _, _, rfl, ih hm, rfl⟩
  | app h₁ h₂ hn _ hf iha ihf =>
      obtain ⟨l, rfl, hm⟩ := Proof.height_step_le_iff.1 hl
      simp only [List.mem_cons, List.not_mem_nil, or_false, forall_eq_or_imp, forall_eq] at hm
      have hne := hf.ne_nil
      rw [List.append_nil] at hne
      refine derive_succ_eq_ok_iff.2 (.inr (.inl ⟨h₁, h₂, hne, hn, ?_⟩))
      exact application_eq_ok_iff.2 ⟨_, _, iha hm.2, ihf hm.1, rfl⟩
  | var hc hd =>
      obtain ⟨l, rfl, -⟩ := Proof.height_step_le_iff.1 hl
      refine derive_succ_eq_ok_iff.2 (.inr (.inr ⟨_, _, rfl, rfl, hc, ?_⟩))
      simp [dispatch, occurrence, hd]
  | fn hs =>
      obtain ⟨l, rfl, -⟩ := Proof.height_step_le_iff.1 hl
      refine derive_succ_eq_ok_iff.2 (.inr (.inr ⟨_, _, rfl, rfl, rfl, ?_⟩))
      simp [dispatch, function, hs]
  | truth hc | falsity hc | zero hc =>
      obtain ⟨l, rfl, -⟩ := Proof.height_step_le_iff.1 hl
      exact derive_succ_eq_ok_iff.2 (.inr (.inr ⟨_, _, rfl, rfl, hc, rfl⟩))
  | unary hw hc hq ih =>
      subst hw
      obtain ⟨l, rfl, hm⟩ := height_unaryStep_le_iff.1 hl
      have hne := hq.ne_nil
      rw [List.append_nil] at hne
      refine derive_succ_eq_ok_iff.2 (.inr (.inr ⟨_, _, rfl, rfl, hc, ?_⟩))
      exact dispatch_unary_eq_ok_iff.2 ⟨hne, _, ih hm, rfl⟩
  | cond hc hs _ _ _ heq ihc iht ihr =>
      obtain ⟨l, rfl, hm⟩ := Proof.height_step_le_iff.1 hl
      simp only [List.mem_cons, List.not_mem_nil, or_false, forall_eq_or_imp, forall_eq] at hm
      refine derive_succ_eq_ok_iff.2 (.inr (.inr ⟨_, _, rfl, rfl, hc, ?_⟩))
      exact Rule.conditional_eq_ok_iff.2
        ⟨_, _, _, _, hs, ihc hm.1, iht hm.2.1, ihr hm.2.2, heq, rfl⟩
  | @bracketed a b _ _ _ q hc hr hlast hb hq ih =>
      subst hr
      obtain ⟨l, rfl, hm⟩ := Proof.height_step_le_iff.1 hl
      rw [List.forall_mem_singleton] at hm
      have hlen : 3 ≤ (Token.lparen :: (a ++ .rparen :: b)).length := by
        have := List.length_pos_iff.2 hq.ne_nil
        simp only [List.length_append, List.length_cons, List.length_nil] at this ⊢
        omega
      refine derive_succ_eq_ok_iff.2 (.inr (.inr ⟨_, _, rfl, rfl, hc, ?_⟩))
      refine Rule.bracketed_eq_ok_iff.2 ⟨hlen, (Run.balance_bracketed a b).trans hb, q, ?_, rfl⟩
      rw [Run.strip_eq_append a hlast]
      exact ih hm

end Derives

/-- **The engine finds a tree exactly if it is a derivation that fits below the limit.** -/
theorem derive_eq_ok_iff :
    (derive limit signature left first second expected inner).outcome = .ok p ↔
      Derives signature first second expected inner p ∧ p.height ≤ left :=
  ⟨Derives.of_outcome, fun h => h.1.outcome_eq h.2⟩

end Lambda
end TypeDeduction

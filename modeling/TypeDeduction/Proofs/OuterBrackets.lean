/-
# Brackets around a whole run

Brackets around all of a run take a level and add a step, and otherwise the run is derived
as it was: what the rule takes off again is what was put around
(`Rule.bracketed_outer`).  A run and the run in brackets are therefore compared under limits
that differ by one, and their outcomes correspond (`Corresponds`): both are answers, and the
answers are related, or both are failures, and the failures are.

* In arithmetic the new step is the outermost one.  An empty run apart, the checks that come
  first say the same of both runs, since brackets do not change the balance
  (`Arithmetic.derive_bracketed`).
* In the lambda calculus abstractions come first.  Around a well-nested run brackets do not
  change which variable is bound next, so there are the same abstractions with and without
  them, and the new step stands between these and the body (`Lambda.derive_bracketed`).

The failures have the same code.  The one exception is an abstraction without a function
type: with a level more the derivation may come to it where without the brackets the limit
is reached one level before.
-/

import TypeDeduction.Proofs.DepthLimit
import TypeDeduction.Proofs.Domains
import TypeDeduction.Proofs.Lambda.Abstractions
import TypeDeduction.Proofs.Steps

namespace TypeDeduction

/-! ### Outcomes that correspond -/

/-- Both outcomes are answers that are related, or both are failures that are. -/
inductive Corresponds (R : Proof → Proof → Prop) (F : Failure → Failure → Prop) :
    Except Failure Proof → Except Failure Proof → Prop where
  | ok {p q : Proof} (h : R p q) : Corresponds R F (.ok p) (.ok q)
  | error {f g : Failure} (h : F f g) : Corresponds R F (.error f) (.error g)

namespace Corresponds

variable {R S T : Proof → Proof → Prop} {F G : Failure → Failure → Prop}
  {x y z : Except Failure Proof}

theorem refl (hok : ∀ p, R p p) (herror : ∀ f, F f f) : Corresponds R F x x := by
  cases x with
  | ok p => exact .ok (hok p)
  | error f => exact .error (herror f)

/-- To an answer there is one on the other side. -/
theorem exists_ok {p : Proof} (h : Corresponds R F x y) (hx : x = .ok p) :
    ∃ q, y = .ok q ∧ R p q := by
  cases h with
  | ok h =>
      obtain rfl := Except.ok.inj hx
      exact ⟨_, rfl, h⟩
  | error => cases hx

theorem mono (h : Corresponds R F x y) (hok : ∀ p q, R p q → S p q)
    (herror : ∀ f g, F f g → G f g) : Corresponds S G x y := by
  cases h with
  | ok h => exact .ok (hok _ _ h)
  | error h => exact .error (herror _ _ h)

/-- Answers that are changed on both sides correspond if what comes of them is related. -/
theorem map {a b : Proof → Proof} (h : Corresponds R F x y)
    (hok : ∀ p q, R p q → S (a p) (b q)) : Corresponds S F (x.map a) (y.map b) := by
  cases h with
  | ok h => exact .ok (hok _ _ h)
  | error h => exact .error h

/-- Only the second answer is changed, and the relation may take up what is known of the
first one. -/
theorem map_right {b : Proof → Proof} (h : Corresponds R F x y)
    (hok : ∀ p q, x = .ok p → R p q → S p (b q)) : Corresponds S F x (y.map b) := by
  cases h with
  | ok h => exact .ok (hok _ _ rfl h)
  | error h => exact .error h

theorem trans (h : Corresponds R F x y) (h' : Corresponds S F y z)
    (hok : ∀ p q r, R p q → S q r → T p r) (herror : ∀ f g k, F f g → F g k → F f k) :
    Corresponds T F x z := by
  cases h with
  | ok h => cases h' with | ok h' => exact .ok (hok _ _ _ h h')
  | error h => cases h' with | error h' => exact .error (herror _ _ _ h h')

end Corresponds

/-- Computations that can only cut each other off answer the same or fail with the same
code. -/
theorem Traced.CutBy.corresponds {limit limit' : Int} {x y : Traced Proof}
    (h : x.CutBy limit y) (h' : y.CutBy limit' x) :
    Corresponds Eq (fun f g => g.code = f.code) x.outcome y.outcome := by
  rcases h with h | h
  · rcases h' with h' | h'
    · rw [h, h']
      exact .error rfl
    · rw [h']
      exact .refl (fun _ => rfl) fun _ => rfl
  · rw [h]
    exact .refl (fun _ => rfl) fun _ => rfl

/-! ### Brackets put around and taken off -/

/-- A limit raised by one leaves one level more, or none is left under either. -/
theorem Depth.levels_add_one (limit : Int) :
    (levels limit = 0 ∧ levels (limit + 1) = 0) ∨ levels (limit + 1) = levels limit + 1 := by
  unfold levels
  omega

/-- The run in a number of pairs of brackets. -/
def Run.enclosed (run : Run) : Nat → Run
  | 0 => run
  | n + 1 => .lparen :: (run.enclosed n ++ [.rparen])

theorem Run.enclosed_ne_nil {run : Run} (hr : run ≠ []) (n : Nat) : run.enclosed n ≠ [] := by
  cases n with
  | zero => exact hr
  | succ n => exact List.cons_ne_nil _ _

theorem Run.balance_outer (run : Run) :
    balance (.lparen :: (run ++ [.rparen])) = run.balance := by
  rw [balance_bracketed, List.append_nil]

/-- Brackets that were put around a run that balances are taken off again. -/
theorem Rule.bracketed_outer {calculus : Calculus} {derive : Run → Signature → Traced Proof}
    {conclude : Signature → Judgment} {run : Run} {expected : Signature} (hr : run ≠ [])
    (hb : run.balance = 0) :
    bracketed calculus derive conclude (.lparen :: (run ++ [.rparen])) expected =
      bracketedStep calculus conclude expected <$> derive run expected := by
  have hlen : ¬ (Token.lparen :: (run ++ [.rparen])).length < 3 := by
    have hpos := List.length_pos_iff.2 hr
    simp only [List.length_cons, List.length_append, List.length_nil]
    omega
  have hbalance := (Run.balance_outer run).trans hb
  rw [bracketed, if_neg hlen, if_neg (not_not_intro hbalance),
    Run.strip_eq_append _ List.not_mem_nil, List.append_nil, map_eq_pure_bind]

variable {limit limit' : Int} {left : Nat} {run : Run} {expected : Signature} {inner : Bool}

/-! ### Arithmetic -/

namespace Arithmetic

variable {style : Presentation}

/-- A run that does not balance is refused for that, with any number of levels left. -/
theorem derive_of_balance_ne_zero (hb : run.balance ≠ 0) :
    derive limit style left run expected inner = Traced.fail (.bracketsMismatch run.balance) := by
  cases run with
  | nil => exact absurd rfl hb
  | cons head rest =>
      rw [derive.eq_def]
      exact if_pos hb

theorem derive_zero (hr : run ≠ []) (hb : run.balance = 0) :
    derive limit style 0 run expected inner = Traced.fail (.tooDeep limit) := by
  obtain ⟨head, rest, rfl⟩ := List.exists_cons_of_ne_nil hr
  rw [derive]
  exact if_neg (not_not_intro hb)

/-- **A run in brackets is derived by a step over the derivation of the run**, one level
down and under any limit. -/
theorem derive_bracketed (hr : run ≠ []) (hb : run.balance = 0) :
    Corresponds
      (fun q p => p = Rule.bracketedStep .arithmetic
        (conclude style (.lparen :: (run ++ [.rparen]))) expected q)
      (fun f g => g.code = f.code)
      (derive limit style left run expected false).outcome
      (derive limit' style (left + 1) (.lparen :: (run ++ [.rparen])) expected inner).outcome := by
  have hcut : (derive limit style left run expected false).CutBy limit
      (derive limit' style left run expected false) := derive_cutBy (Nat.le_refl left) _ _ _ _
  have hsame := hcut.corresponds (derive_cutBy (Nat.le_refl left) _ _ _ _)
  rw [derive_cons ((Run.balance_outer run).trans hb), Traced.outcome_note_bind, dispatch,
    Rule.bracketed_outer hr hb, Traced.outcome_map]
  refine hsame.map_right fun q p _ hqp => ?_
  rw [hqp]

/-- The second tree is the first one under steps for brackets, all of them exact. -/
def Enclosed (steps : List Inference) (q p : Proof) : Prop :=
  p = q.under steps ∧ ∀ i ∈ steps, i.rule = (Rule.brackets .arithmetic).name ∧ i.status = .exact

/-- One pair of brackets around a run adds one step. -/
theorem tree_bracketed {s s' : Settings} (hs : s'.maxDepth = s.maxDepth + 1) (hr : run ≠ []) :
    Corresponds (fun q p => ∃ i, Enclosed [i] q p) (fun f g => g.code = f.code)
      (tree s style run expected).outcome
      (tree s' style (.lparen :: (run ++ [.rparen])) expected).outcome := by
  have hbalance := Run.balance_outer run
  rw [tree, tree, hs]
  by_cases hb : run.balance = 0
  · rcases Depth.levels_add_one s.maxDepth with ⟨h, h'⟩ | h
    · rw [h, h', derive_zero hr hb, derive_zero (List.cons_ne_nil _ _) (hbalance.trans hb)]
      exact .error rfl
    · rw [h]
      refine (derive_bracketed hr hb).mono (fun q p hp => ?_) fun _ _ => id
      exact ⟨_, hp, List.forall_mem_singleton.2 ⟨rfl, rfl⟩⟩
  · rw [derive_of_balance_ne_zero hb, derive_of_balance_ne_zero (hbalance ▸ hb), hbalance]
    exact .error rfl

/-- Pairs of brackets around a run add a step each. -/
theorem tree_enclosed {s s' : Settings} {n : Nat} (hs : s'.maxDepth = s.maxDepth + n)
    (hr : run ≠ []) :
    Corresponds (fun q p => ∃ steps, steps.length = n ∧ Enclosed steps q p)
      (fun f g => g.code = f.code) (tree s style run expected).outcome
      (tree s' style (run.enclosed n) expected).outcome := by
  induction n generalizing s' with
  | zero =>
      rw [tree, tree, hs, Int.natCast_zero, Int.add_zero]
      exact .refl (fun q => ⟨[], rfl, rfl, List.forall_mem_nil _⟩) fun _ => rfl
  | succ n ih =>
      -- The pairs but the outermost one take all levels but one.
      have hpairs := @ih { s with maxDepth := s.maxDepth + n } rfl
      have houter : s'.maxDepth = s.maxDepth + n + 1 := by omega
      refine hpairs.trans (tree_bracketed houter (Run.enclosed_ne_nil hr n)) ?_ ?_
      · rintro q p r ⟨steps, hlength, rfl, hsteps⟩ ⟨i, rfl, hi⟩
        refine ⟨i :: steps, by rw [List.length_cons, hlength], rfl, ?_⟩
        exact List.forall_mem_cons.2 ⟨hi i (List.mem_singleton_self i), hsteps⟩
      · exact fun f g k hg hk => hk.trans hg

/-- **Brackets around a run add a step each and change nothing else.**  Take a run that is
not empty.  In brackets and under a limit that is higher by one it is derived exactly if it
is derived without them, and then by a single exact step for brackets whose only premise is
the tree of the run; otherwise both derivations fail with the same code.  The same goes for
any number of pairs of brackets and a limit raised by that number, with as many steps. -/
theorem outer_brackets_add_steps (hr : run ≠ []) (style : Presentation) (expected : Signature)
    (s s' : Settings) :
    (s'.maxDepth = s.maxDepth + 1 →
        Corresponds
          (fun q p => ∃ i, p = .step i [q] ∧ i.rule = (Rule.brackets .arithmetic).name ∧
            i.status = .exact)
          (fun f g => g.code = f.code) (tree s style run expected).outcome
          (tree s' style (.lparen :: (run ++ [.rparen])) expected).outcome) ∧
      ∀ n : Nat, s'.maxDepth = s.maxDepth + n →
        Corresponds (fun q p => ∃ steps, steps.length = n ∧ Enclosed steps q p)
          (fun f g => g.code = f.code) (tree s style run expected).outcome
          (tree s' style (run.enclosed n) expected).outcome := by
  refine ⟨fun hs => ?_, fun n hs => tree_enclosed hs hr⟩
  refine (tree_bracketed hs hr).mono ?_ fun _ _ => id
  rintro q p ⟨i, hp, hi⟩
  exact ⟨i, hp, hi i (List.mem_singleton_self i)⟩

/-- Two pairs of brackets around `succ 0`, under a limit that leaves no level over. -/
theorem outer_brackets_of_one :
    ([.word .succ, .word .zero] : Run) ≠ [] ∧
      ∃ q p steps, (tree { maxDepth := 2 } .bare [.word .succ, .word .zero] .nat).outcome = .ok q ∧
        (tree { maxDepth := 4 } .bare
          [.lparen, .lparen, .word .succ, .word .zero, .rparen, .rparen] .nat).outcome = .ok p ∧
        q.rules = ["T-succ", "T-zero"] ∧ p.rules = ["T-bra", "T-bra", "T-succ", "T-zero"] ∧
        steps.length = 2 ∧ Enclosed steps q p := by
  have hr : ([.word .succ, .word .zero] : Run) ≠ [] := List.cons_ne_nil _ _
  obtain ⟨q, hq, hrules⟩ : ∃ q,
      (tree { maxDepth := 2 } .bare [.word .succ, .word .zero] .nat).outcome = .ok q ∧
        q.rules = ["T-succ", "T-zero"] := ⟨_, rfl, rfl⟩
  have hpairs :=
    (outer_brackets_add_steps hr .bare .nat { maxDepth := 2 } { maxDepth := 4 }).2 2 rfl
  obtain ⟨p, hp, steps, hlength, hsteps⟩ := hpairs.exists_ok hq
  refine ⟨hr, q, p, steps, hq, hp, hrules, ?_, hlength, hsteps⟩
  obtain rfl := Except.ok.inj hp
  rfl

end Arithmetic

/-! ### Lambda -/

theorem Run.bind_outer (bindings : Bindings) (run : Run) :
    Run.bind bindings (.lparen :: (run ++ [.rparen])) =
      .lparen :: (run.bind bindings ++ [.rparen]) :=
  congrArg (Token.lparen :: ·) List.map_append

namespace Lambda

variable {signature : Option Signature} {v : Variable}

/-- The first tree is abstractions over a body that is none; the second one is as many
abstractions over an exact step for brackets, which has that body as its only premise. -/
def BodyBracketed (q p : Proof) : Prop :=
  ∃ steps steps' i body, q = body.under steps ∧ p = (Proof.step i [body]).under steps' ∧
    steps'.length = steps.length ∧ (∀ j ∈ steps ++ steps', j.rule = Rule.abs.name) ∧
    body.root.rule? ≠ some Rule.abs.name ∧ i.rule = (Rule.brackets .lambda).name ∧
    i.status = .exact

/-- The failures have the same code, or the first one is the limit and the second one an
abstraction without a function type. -/
def FailAlike (f g : Failure) : Prop :=
  g.code = f.code ∨ f.code = Code.tooDeep ∧ g.code = Code.abstractionType

/-- Trees with a body in brackets still are ones under an abstraction each. -/
theorem BodyBracketed.step {q p : Proof} (h : BodyBracketed q p) {i j : Inference}
    (hi : i.rule = Rule.abs.name) (hj : j.rule = Rule.abs.name) :
    BodyBracketed (.step i [q]) (.step j [p]) := by
  obtain ⟨steps, steps', k, body, rfl, rfl, hlength, habs, hrest⟩ := h
  refine ⟨i :: steps, j :: steps', k, body, rfl, rfl, by simp [hlength], ?_, hrest⟩
  simp only [List.cons_append, List.forall_mem_cons, List.forall_mem_append] at habs ⊢
  exact ⟨hi, habs.1, hj, habs.2⟩

/-- Where no variable is to be bound, the rule for brackets is the first one. -/
theorem derive_bracketed_of_candidate_eq_none (h : run.WellNested) (hr : run ≠ [])
    (hc : run.candidate = none) :
    Corresponds BodyBracketed FailAlike
      (derive limit signature left run [] expected false).outcome
      (derive limit' signature (left + 1) (.lparen :: (run ++ [.rparen])) [] expected
        inner).outcome := by
  have hcut : (derive limit signature left run [] expected false).CutBy limit
      (derive limit' signature left run [] expected false) :=
    derive_cutBy (Nat.le_refl left) _ _ _ _ _
  have hsame := hcut.corresponds (derive_cutBy (Nat.le_refl left) _ _ _ _ _)
  rw [derive_cons (h.candidate_bracketed.trans hc), Traced.outcome_note_bind, dispatch,
    Rule.bracketed_outer hr h.1, Traced.outcome_map]
  refine (hsame.mono (fun _ _ => id) fun f g => Or.inl).map_right fun q p hq hqp => ?_
  subst hqp
  have hpending : Run.pending run [] = [] :=
    Run.pending_eq_nil_of_candidate (by rw [hc, Run.candidate_nil, Option.none_or])
  have hbody := (derive_eq_ok_iff.1 hq).1.root_ne_abs hpending
  exact ⟨[], [], _, q, rfl, rfl, rfl, List.forall_mem_nil _, hbody, rfl, rfl⟩

/-- Where a variable is to be bound and no function type is expected, that is what both
derivations fail for, if they come that far. -/
theorem derive_bracketed_of_candidate_eq_some (h : run.WellNested)
    (hc : run.candidate = some v) (hl : expected.length ≤ 1) :
    Corresponds BodyBracketed FailAlike
      (derive limit signature left run [] expected false).outcome
      (derive limit' signature (left + 1) (.lparen :: (run ++ [.rparen])) [] expected
        inner).outcome := by
  have hfail {l : Int} {n : Nat} {r : Run} {b : Bool} (hv : r.candidate = some v) :
      derive l signature (n + 1) r [] expected b = Traced.fail (.notFunctionType expected) := by
    rw [derive_of_candidate (by rw [hv, Option.some_or])]
    rcases expected with _ | ⟨domain, _ | ⟨result, rest⟩⟩
    · rfl
    · rfl
    · simp at hl
  rw [hfail (h.candidate_bracketed.trans hc)]
  cases left with
  | zero => exact .error (.inr ⟨rfl, rfl⟩)
  | succ left =>
      rw [hfail hc]
      exact .error (.inl rfl)

/-- **A well-nested run in brackets is derived as the run is, with a step for the brackets
between the abstractions and the body.**  The induction is on the expected type, of which
each abstraction takes one entry. -/
theorem derive_bracketed (h : run.WellNested) (hr : run ≠ []) :
    Corresponds BodyBracketed FailAlike
      (derive limit signature left run [] expected false).outcome
      (derive limit' signature (left + 1) (.lparen :: (run ++ [.rparen])) [] expected
        inner).outcome := by
  induction expected generalizing left run inner with
  | nil =>
      cases hc : run.candidate with
      | none => exact derive_bracketed_of_candidate_eq_none h hr hc
      | some v => exact derive_bracketed_of_candidate_eq_some h hc (Nat.zero_le 1)
  | cons domain rest ih =>
      cases hc : run.candidate with
      | none => exact derive_bracketed_of_candidate_eq_none h hr hc
      | some v =>
          cases rest with
          | nil => exact derive_bracketed_of_candidate_eq_some h hc (Nat.le_refl 1)
          | cons result rest =>
              have hv : run.candidate.or (Run.candidate []) = some v := by
                rw [hc, Option.some_or]
              have hv' : (Run.candidate (.lparen :: (run ++ [.rparen]))).or (Run.candidate []) =
                  some v := by
                rw [h.candidate_bracketed, hv]
              rw [derive_of_candidate hv', outcome_abstraction hv', Run.bind_outer]
              -- Without a level the run has none for its abstraction, and in brackets it has
              -- none for the body of it.
              cases left with
              | zero => exact .error (.inl rfl)
              | succ left =>
                  rw [derive_of_candidate hv, outcome_abstraction hv]
                  have hne : run.bind [(v.name, domain)] ≠ [] := mt List.map_eq_nil_iff.1 hr
                  exact (ih (h.bind _) hne).map fun q p hbody => hbody.step rfl rfl

/-- **Brackets around a well-nested run come right after the abstractions.**  Take a
well-nested run that is not empty.  In brackets and under a limit that is higher by one it
is derived exactly if it is derived without them.  The tree of the run is abstractions over
a body that is none, and the tree of the run in brackets is as many abstractions over a step
for brackets whose only premise is that body.  Otherwise both derivations fail, with the
same code unless that of the run without brackets reaches the limit; the other one may then
come to an abstraction without a function type. -/
theorem outer_brackets_follow_abstractions (h : run.WellNested) (hr : run ≠ [])
    (signature : Option Signature) (expected : Signature) (inner : Bool) {s s' : Settings}
    (hs : s'.maxDepth = s.maxDepth + 1) :
    Corresponds BodyBracketed FailAlike
      (tree s signature run [] expected false).outcome
      (tree s' signature (.lparen :: (run ++ [.rparen])) [] expected inner).outcome := by
  rw [tree, tree, hs]
  rcases Depth.levels_add_one s.maxDepth with ⟨hzero, hzero'⟩ | hlevels
  · rw [hzero, hzero']
    exact .error (.inl rfl)
  · rw [hlevels]
    exact derive_bracketed h hr

/-- The run `succ ( if b then n else 0 )` with both variables to be bound. -/
def successorOfChoice : Run :=
  (Expr.unary .succ (.bracketed (.cond (.var { name := "b", declared := some .bool })
    (.var { name := "n", declared := some .nat }) .zero))).run

/-- With a type for each variable there are two abstractions over the brackets.  With a type
less the limit may be reached before the derivation comes to the missing one. -/
theorem outer_brackets_of_successorOfChoice :
    successorOfChoice.WellNested ∧ successorOfChoice ≠ [] ∧
      (∃ q p, (tree { maxDepth := 6 } none successorOfChoice [] [.bool, .nat, .nat] false).outcome =
          .ok q ∧
        (tree { maxDepth := 7 } none (.lparen :: (successorOfChoice ++ [.rparen])) []
          [.bool, .nat, .nat] false).outcome = .ok p ∧
        q.rules = ["T-abs", "T-abs", "T-succ", "T-()", "T-if", "T-var", "T-var", "T-zero"] ∧
        p.rules = ["T-abs", "T-abs", "T-()", "T-succ", "T-()", "T-if", "T-var", "T-var",
          "T-zero"] ∧
        BodyBracketed q p) ∧
      ∃ f g, (tree { maxDepth := 1 } none successorOfChoice [] [.bool, .nat] false).outcome =
          .error f ∧
        (tree { maxDepth := 2 } none (.lparen :: (successorOfChoice ++ [.rparen])) []
          [.bool, .nat] false).outcome = .error g ∧
        f.code = Code.tooDeep ∧ g.code = Code.abstractionType := by
  have h : successorOfChoice.WellNested := Expr.wellNested_run _
  have hr : successorOfChoice ≠ [] := List.cons_ne_nil _ _
  refine ⟨h, hr, ?_, _, _, rfl, rfl, rfl, rfl⟩
  obtain ⟨q, hq, hrules⟩ : ∃ q,
      (tree { maxDepth := 6 } none successorOfChoice [] [.bool, .nat, .nat] false).outcome =
          .ok q ∧
        q.rules = ["T-abs", "T-abs", "T-succ", "T-()", "T-if", "T-var", "T-var", "T-zero"] :=
    ⟨_, rfl, rfl⟩
  have hlimit : Settings.maxDepth { maxDepth := 7 } = Settings.maxDepth { maxDepth := 6 } + 1 := rfl
  obtain ⟨p, hp, hbody⟩ := (outer_brackets_follow_abstractions h hr none [.bool, .nat, .nat] false
    hlimit).exists_ok hq
  refine ⟨q, p, hq, hp, hrules, ?_, hbody⟩
  obtain rfl := Except.ok.inj hp
  rfl

end Lambda
end TypeDeduction

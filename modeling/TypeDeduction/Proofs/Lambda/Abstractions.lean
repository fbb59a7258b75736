/-
# How many abstractions a derivation starts with

The names pending in the runs say it all.  With a type for each of them and one more
for what is under the binders, the tree is an abstraction for each name over a top that
is none (`Layered`).  The abstractions conclude about the same subject: the first one
with the expected type and all binders, each further one with a domain and a binder
less.  With fewer types the domains run out before the names do, and that is what the
derivation fails for (`derive_eq_notFunctionType`), as long as the limit lets it come
that far.

Only two runs are derived as an application, and the parts of a run are single runs, so
there is an application at the top exactly if there are two runs, and nowhere else
(`Derives.app_notMem_rules`).

The top hands on its type to the abstractions, and an application none.  Then the
innermost abstraction takes the expected type instead; where there is no abstraction,
nothing does.
-/

import TypeDeduction.Proofs.Lambda.Spine

namespace TypeDeduction

namespace Lambda

variable {limit : Int} {signature : Option Signature} {left : Nat} {first second : Run}
  {expected : Signature} {inner : Bool} {p : Proof}

/-! ### Too few types -/

/-- **Where the domains run out before the names do, the last type is not a function
type.**  The induction is on the expected type, of which each abstraction takes one
entry. -/
theorem derive_eq_notFunctionType (hn : 0 < (Run.pending first second).length)
    (hl : expected.length ≤ (Run.pending first second).length)
    (hd : (Run.pending first second).length ≤ left) :
    (derive limit signature left first second expected inner).outcome =
      .error (.notFunctionType (expected.drop (expected.length - 1))) := by
  induction expected generalizing left first second inner with
  | nil =>
      obtain ⟨x, names, hp⟩ := List.exists_cons_of_length_pos hn
      obtain ⟨v, hv, -⟩ := Run.exists_candidate hp
      obtain ⟨l, rfl⟩ : ∃ l, left = l + 1 := ⟨left - 1, by omega⟩
      rw [derive_of_candidate hv]
      rfl
  | cons domain types ih =>
      obtain ⟨x, names, hp⟩ := List.exists_cons_of_length_pos hn
      obtain ⟨v, hv, rfl⟩ := Run.exists_candidate hp
      obtain ⟨l, rfl⟩ : ∃ l, left = l + 1 := ⟨left - 1, by omega⟩
      rw [derive_of_candidate hv]
      cases types with
      | nil => rfl
      | cons result rest =>
          have htail := Run.pending_bind first second hp domain
          rw [hp, List.length_cons, List.length_cons, List.length_cons] at hl
          rw [hp, List.length_cons] at hd
          have hbody := @ih l (first.bind [(v.name, domain)]) (second.bind [(v.name, domain)])
            false (by rw [htail]; omega) (by rw [htail, List.length_cons]; omega)
            (by rw [htail]; omega)
          rw [outcome_abstraction hv, hbody]
          rfl

/-! ### Abstractions over a top -/

/-- The judgment about a run of which some names are bound: it has binders for the others
alone. -/
def concludeUnder (bound : List String) (run : Run) (type : Signature) : Judgment :=
  { subject := run.subject, type, turnstile := contextTurnstile,
    binders := run.binders.filter (·.1 ∉ bound) }

theorem concludeUnder_nil (run : Run) (type : Signature) :
    concludeUnder [] run type = conclude run type := by
  have hall : run.binders.filter (·.1 ∉ ([] : List String)) = run.binders :=
    List.filter_eq_self.2 fun b _ => by simp
  rw [concludeUnder, conclude, hall]

theorem concludeUnder_bind (names : List String) (run : Run) (type : Signature) (x : String)
    (A : BaseType) :
    concludeUnder names (run.bind [(x, A)]) type = concludeUnder (x :: names) run type := by
  have hboth : (run.binders.filter (·.1 ≠ x)).filter (·.1 ∉ names) =
      run.binders.filter (·.1 ∉ x :: names) := by
    rw [List.filter_filter]
    congr 1
    funext b
    simp [Bool.and_comm]
  rw [concludeUnder, concludeUnder, Run.subject_bind, Run.binders_bind, hboth]

/-- What stands in a derivation of the two runs against the expected type: abstractions
over the names pending, under a top that is none. -/
structure Layered (first second : Run) (expected : Signature) (p : Proof)
    (steps : List Inference) (top : Proof) : Prop where
  eq_under : p = top.under steps
  /-- There is an abstraction for each name. -/
  length_steps : steps.length = (Run.pending first second).length
  /-- The abstractions conclude about all of both runs.  Each has a type less than the one
  before and no binders for the names bound so far. -/
  concludes : ∀ i step, steps[i]? = some step → step.rule = Rule.abs.name ∧
    step.conclusion =
      concludeUnder ((Run.pending first second).take i) (first ++ second) (expected.drop i)
  top_ne_abs : top.root.rule? ≠ some Rule.abs.name
  /-- The top is an application exactly if there are two runs. -/
  top_eq_app_iff : top.root.rule? = some Rule.app.name ↔ second ≠ []
  /-- There is no other application. -/
  app_notMem : ∀ q ∈ top.premises, Rule.app.name ∉ q.rules
  /-- The abstractions put their domains in front of the type of the top; where that is
  open they have the expected type. -/
  type_eq : p.type =
    if steps ≠ [] ∧ top.type = [] then expected else expected.take steps.length ++ top.type

/-- The abstractions of a spine, read off the runs before anything is bound in them. -/
theorem exists_spine_eq_under (first second : Run) (bs : Bindings) (result : Signature)
    (body : Proof) :
    ∃ steps, spine first second bs result body = body.under steps ∧ steps.length = bs.length ∧
      ∀ i step, steps[i]? = some step → step.rule = Rule.abs.name ∧
        step.conclusion = concludeUnder ((bs.map (·.1)).take i) (first ++ second)
          ((bs.map (·.2) ++ result).drop i) := by
  induction bs generalizing first second with
  | nil => exact ⟨[], rfl, rfl, by simp⟩
  | cons b bs ih =>
      obtain ⟨x, A⟩ := b
      obtain ⟨steps, hunder, hlength, hsteps⟩ := ih (first.bind [(x, A)]) (second.bind [(x, A)])
      rw [spine, abstractionStep, hunder]
      refine ⟨_ :: steps, rfl, by rw [List.length_cons, List.length_cons, hlength], ?_⟩
      intro i step hstep
      cases i with
      | zero =>
          obtain rfl := Option.some.inj hstep
          exact ⟨rfl, (concludeUnder_nil _ _).symm⟩
      | succ i =>
          have hbind : first.bind [(x, A)] ++ second.bind [(x, A)] =
              Run.bind [(x, A)] (first ++ second) := List.map_append.symm
          obtain ⟨hrule, hconclusion⟩ := hsteps i step hstep
          rw [hbind, concludeUnder_bind] at hconclusion
          exact ⟨hrule, hconclusion⟩

/-- Over an application the innermost abstraction has the type that was expected. -/
theorem type_spine_of_nil {bs : Bindings} {result : Signature} {body : Proof}
    (hb : body.type = []) (hbs : bs ≠ []) :
    (spine first second bs result body).type = bs.map (·.2) ++ result := by
  induction bs generalizing first second with
  | nil => exact absurd rfl hbs
  | cons b bs ih =>
      rw [spine, abstractionStep, Proof.type_step]
      cases bs with
      | nil => exact if_pos hb
      | cons b' bs =>
          rw [ih (List.cons_ne_nil _ _), if_neg (by simp)]
          rfl

/-- A single run is derived without applications. -/
theorem Derives.app_notMem_rules (h : Derives signature first second expected inner p)
    (hs : second = []) : Rule.app.name ∉ p.rules := by
  induction h with
  | abs _ _ ih =>
      subst hs
      simpa [abstractionStep, Proof.rules_step, Rule.name] using ih rfl
  | app _ _ hn => exact absurd hs hn
  | var => simp [occurrenceStep, Proof.rules_step, Rule.name, Proof.rules_lookup]
  | fn => simp [functionStep, Proof.rules_step, Rule.name, Proof.rules_lookup]
  | truth | falsity | zero => simp [Rule.literal, Proof.rules_step, Rule.name]
  | @unary op _ _ _ _ _ _ _ _ ih =>
      cases op <;>
        simpa [unaryStep, arithmeticStep, iszeroStep, UnaryOp.rule, Proof.rules_step,
          Rule.name] using ih rfl
  | cond _ _ _ _ _ _ ihc iht ihr =>
      simpa [Rule.conditionalStep, Proof.rules_step, Rule.name] using ⟨ihc rfl, iht rfl, ihr rfl⟩
  | bracketed _ _ _ _ _ ih =>
      simpa [Rule.bracketedStep, Proof.rules_step, Rule.name] using ih rfl

/-- Where no name is pending the root is no abstraction. -/
theorem Derives.root_ne_abs (h : Derives signature first second expected inner p)
    (hp : Run.pending first second = []) : p.root.rule? ≠ some Rule.abs.name := by
  obtain ⟨h₁, h₂⟩ := Run.candidate_eq_none_of_pending hp
  cases h with
  | abs hv =>
      rw [h₁, h₂] at hv
      cases hv
  | @unary op =>
      cases op <;>
        simp [unaryStep, arithmeticStep, iszeroStep, UnaryOp.rule, Proof.root,
          Proof.Node.rule?, Rule.name]
  | _ =>
      simp [applicationStep, occurrenceStep, functionStep, Rule.literal, Rule.conditionalStep,
        Rule.bracketedStep, Proof.root, Proof.Node.rule?, Rule.name]

/-- Where no name is pending the root is an application exactly if there are two runs, and
above it there is none. -/
theorem Derives.root_eq_app_iff (h : Derives signature first second expected inner p)
    (hp : Run.pending first second = []) :
    (p.root.rule? = some Rule.app.name ↔ second ≠ []) ∧
      ∀ q ∈ p.premises, Rule.app.name ∉ q.rules := by
  by_cases hs : second = []
  · obtain ⟨hroot, hpremises⟩ := Proof.notMem_rules_iff.1 (h.app_notMem_rules hs)
    exact ⟨⟨fun happ => absurd happ hroot, fun hn => absurd hs hn⟩, hpremises⟩
  · obtain ⟨h₁, h₂⟩ := Run.candidate_eq_none_of_pending hp
    cases h with
    | abs hv =>
        rw [h₁, h₂] at hv
        cases hv
    | app _ _ _ ha hf =>
        refine ⟨⟨fun _ => hs, fun _ => rfl⟩, ?_⟩
        simpa [applicationStep, Proof.premises] using
          ⟨hf.app_notMem_rules rfl, ha.app_notMem_rules rfl⟩
    | _ => exact absurd rfl hs

/-- A derivation binds the names pending, if there are types enough, and then derives the
body against the types that are left. -/
theorem Derives.exists_spine (h : Derives signature first second expected inner p)
    (hk : Run.pending first second = [] ∨ (Run.pending first second).length < expected.length) :
    ∃ bs result body, Run.pending first second = bs.map (·.1) ∧
      expected = bs.map (·.2) ++ result ∧ (bs = [] ∨ result ≠ []) ∧
      Derives signature (first.bind bs) (second.bind bs) result (inner && bs.isEmpty) body ∧
      p = spine first second bs result body := by
  rcases hk with hnil | hlt
  · exact ⟨[], expected, p, hnil, rfl, .inl rfl, by simpa using h, rfl⟩
  · have hlen : (expected.take (Run.pending first second).length).length =
        (Run.pending first second).length := List.length_take_of_le (Nat.le_of_lt hlt)
    have hp : Run.pending first second = ((Run.pending first second).zip
        (expected.take (Run.pending first second).length)).map (·.1) :=
      (List.map_fst_zip (Nat.le_of_eq hlen.symm)).symm
    have htypes : ((Run.pending first second).zip
        (expected.take (Run.pending first second).length)).map (·.2) ++
          expected.drop (Run.pending first second).length = expected := by
      rw [List.map_snd_zip (Nat.le_of_eq hlen), List.take_append_drop]
    have hr : expected.drop (Run.pending first second).length ≠ [] := by
      simpa using hlt
    rw [← htypes, derives_iff_exists_spine hp hr] at h
    obtain ⟨body, hbody, rfl⟩ := h
    exact ⟨_, _, body, hp, htypes.symm, .inr hr, hbody, rfl⟩

/-- **A derivation of runs with types enough is layered.** -/
theorem Derives.exists_layered (h : Derives signature first second expected inner p)
    (hk : Run.pending first second = [] ∨ (Run.pending first second).length < expected.length) :
    ∃ steps top, Layered first second expected p steps top := by
  obtain ⟨bs, result, top, hp, rfl, -, htop, rfl⟩ := h.exists_spine hk
  obtain ⟨steps, hunder, hlength, hsteps⟩ := exists_spine_eq_under first second bs result top
  have hnone := Run.pending_bind_eq_nil first second hp
  obtain ⟨happ, hpremises⟩ := htop.root_eq_app_iff hnone
  have hsecond : second.bind bs ≠ [] ↔ second ≠ [] := by simp [Run.bind]
  refine ⟨steps, top, ⟨hunder, ?_, ?_, htop.root_ne_abs hnone, happ.trans hsecond, hpremises, ?_⟩⟩
  · rw [hp, hlength, List.length_map]
  · rw [hp]
    exact hsteps
  · by_cases ht : top.type = []
    · cases bs with
      | nil =>
          obtain rfl := List.length_eq_zero_iff.1 hlength
          rw [if_neg fun hopen => hopen.1 rfl]
          rfl
      | cons b bs =>
          have hne : steps ≠ [] := List.ne_nil_of_length_eq_add_one hlength
          rw [type_spine_of_nil ht (List.cons_ne_nil _ _), if_pos ⟨hne, ht⟩]
    · have htake : (bs.map (·.2) ++ result).take steps.length = bs.map (·.2) :=
        List.take_left' (by rw [hlength, List.length_map])
      rw [type_spine ht, if_neg fun hopen => ht hopen.2, htake]

/-- **The abstractions of a derivation.**  Let the limit exceed the number of names
pending.  If there are names and the expected type has no more entries than there are
names, the derivation fails because what is left of the type is no function type.
Otherwise every derivation found is layered: an abstraction for each name, in turn, over
a top that is none. -/
theorem tree_layered_by_pending (s : Settings) (signature : Option Signature)
    (first second : Run) (expected : Signature) (inner : Bool)
    (hd : ((Run.pending first second).length : Int) < s.maxDepth) :
    (0 < (Run.pending first second).length →
        expected.length ≤ (Run.pending first second).length →
        (tree s signature first second expected inner).outcome =
          .error (.notFunctionType (expected.drop (expected.length - 1)))) ∧
      (Run.pending first second = [] ∨ (Run.pending first second).length < expected.length →
        ∀ p, (tree s signature first second expected inner).outcome = .ok p →
          ∃ steps top, Layered first second expected p steps top) := by
  refine ⟨fun hn hl => ?_, fun hk p hp => (derive_eq_ok_iff.1 hp).1.exists_layered hk⟩
  have hlevels : (Run.pending first second).length ≤ Depth.levels s.maxDepth := by
    unfold Depth.levels
    omega
  exact derive_eq_notFunctionType hn hl hlevels

/-- The run `if b then n else succ n` over two unbound variables. -/
def openChoice : Run :=
  let n : Token := .var { name := "n", declared := some .nat }
  [.cond, .var { name := "b", declared := some .bool }, .word .thenBranch, n,
    .word .elseBranch, .word .succ, n]

theorem tree_layered_by_openChoice :
    Run.pending [.fn] openChoice = ["b", "n"] ∧
      ∃ p, (tree {} (some [.nat, .nat]) [.fn] openChoice [.bool, .nat, .nat] false).outcome =
          .ok p ∧
        p.rules = ["T-abs", "T-abs", "T-app", "T-var", "T-if", "T-var", "T-var", "T-succ",
          "T-var"] ∧
        ∃ steps top, Layered [.fn] openChoice [.bool, .nat, .nat] p steps top := by
  have hp : Run.pending [.fn] openChoice = ["b", "n"] := by decide
  have hd : ((Run.pending [.fn] openChoice).length : Int) < ({} : Settings).maxDepth := by
    rw [hp]
    decide
  have hk : (Run.pending [.fn] openChoice).length < [BaseType.bool, .nat, .nat].length := by
    rw [hp]
    decide
  refine ⟨hp, _, rfl, rfl, ?_⟩
  exact (tree_layered_by_pending {} (some [.nat, .nat]) [.fn] openChoice [.bool, .nat, .nat]
    false hd).2 (.inr hk) _ rfl

/-- **An application without abstractions does not have the expected type**: `f 0` is
derived against `Bool` and hands on no type. -/
theorem application_type_left_open :
    ¬ ∀ (s : Settings) (signature : Option Signature) (first second : Run)
        (expected : Signature) (inner : Bool) (p : Proof),
      ((Run.pending first second).length : Int) < s.maxDepth →
      (Run.pending first second = [] ∨ (Run.pending first second).length < expected.length) →
      (tree s signature first second expected inner).outcome = .ok p →
      ∃ (steps : List Inference) (top : Proof), p = top.under steps ∧
        steps.length = (Run.pending first second).length ∧
        p.type = expected.take steps.length ++
          if top.type = [] then expected.drop steps.length else top.type := by
  intro h
  obtain ⟨steps, top, hunder, hlength, htype⟩ :=
    h {} (some [.nat, .bool]) [.fn] [.word .zero] .bool false _ (by decide) (.inl rfl) rfl
  obtain rfl := List.length_eq_zero_iff.1 hlength
  rw [Proof.under] at hunder
  subst hunder
  cases htype

end Lambda
end TypeDeduction

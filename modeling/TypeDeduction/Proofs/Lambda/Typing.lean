/-
# Lambda derivations are typings under binders

Once every variable of a run is bound, at the types of a context, no abstraction is
left to be made, and the run is derived as in arithmetic, by the expression it is
read as.  Apart from flagged conditionals a derivation against a base type then
fits exactly if the expression has that type in the context and every occurrence
of a variable was declared with the type the context gives it
(`Derives.hasType`, `exists_derives_of_hasType`).

In a run without brackets the scope is the whole run, so the names pending are all
names in the order of their first occurrences.  Derived against a domain for each
name and a result, the flat form of a splittable expression fits exactly if the
expression has the result type where the names have the domains as types
(`tree_run_fits_iff_hasType_in_domains`).
-/

import TypeDeduction.Proofs.Lambda.Spine
import TypeDeduction.Proofs.Reading
import TypeDeduction.Typing

namespace TypeDeduction

variable {Γ : Context}

/-! ### Bound runs -/

/-- Every variable of the run is bound, at its type in the context. -/
def Run.BoundIn (Γ : Context) (run : Run) : Prop :=
  ∀ v, Token.var v ∈ run → v.abstracted = true ∧ v.context = Γ v.name

namespace Run.BoundIn

variable {run run' : Run}

theorem mono (h : run.BoundIn Γ) (hs : run' ⊆ run) : run'.BoundIn Γ :=
  fun v hv => h v (hs hv)

/-- No abstraction is left to be made over a bound run. -/
theorem candidate_eq_none (h : run.BoundIn Γ) : run.candidate = none :=
  Run.candidate_eq_none fun v hv => (h v hv).1

end Run.BoundIn

namespace Lambda

variable {signature : Option Signature} {first second run : Run} {expected : Signature}
  {inner : Bool} {p q : Proof} {e : Expr} {B : BaseType}

/-! ### Steps that fit a base type -/

/-- An operator fits the type of its result. -/
theorem flaggedOnly_unaryStep {op : UnaryOp} {conclude : Signature → Judgment} :
    (unaryStep op conclude [B] q).FlaggedOnly .cond ↔ B = op.result ∧ q.FlaggedOnly .cond := by
  have hne : op.rule.name ≠ Rule.cond.name := by cases op <;> decide
  cases op <;> simp only [unaryStep, arithmeticStep, iszeroStep] <;>
    rw [Proof.flaggedOnly_step_of_ne rfl hne] <;> simp [UnaryOp.result]

theorem type_unaryStep {op : UnaryOp} {conclude : Signature → Judgment} :
    (unaryStep op conclude [B] q).type = [B] := by
  cases op <;> simp [unaryStep, arithmeticStep, iszeroStep]

/-- A variable fits its declared type, if the context has it too. -/
theorem flaggedOnly_occurrenceStep {v : Variable} {declared : BaseType} :
    (occurrenceStep v declared [B]).FlaggedOnly .cond ↔
      B = declared ∧ v.context = some declared := by
  have hne : Rule.var.name ≠ Rule.cond.name := by decide
  rw [occurrenceStep, Proof.flaggedOnly_step_of_ne rfl hne, List.forall_mem_singleton,
    Proof.flaggedOnly_lookup]
  by_cases h : B = declared <;> simp [h]

/-! ### Derivations and typings -/

namespace Derives

/-- **A derivation of a bound run that fits a base type is a typing** of the expression
it reads, and the variables are declared as the context says.  Flags on conditionals do
not matter. -/
theorem hasType (h : Derives signature first second expected inner p) (hs : second = [])
    (hb : first.BoundIn Γ) (hfn : Token.fn ∉ first) (he : expected = [B])
    (hp : p.FlaggedOnly .cond) :
    ∃ e, Reads .lambda first e ∧ HasType Γ e B ∧ (∀ v ∈ e.occurrences, v.declared = Γ v.name) ∧
      p.type = [B] ∧ p.rules = (e.rules .lambda).map Rule.name := by
  -- A literal asks for balance in the other calculus only.
  have hcalc {rest : Run} (h : Calculus.lambda = .arithmetic) : rest.balance = 0 := by cases h
  induction h generalizing B with
  | abs hv =>
      subst hs
      simp [hb.candidate_eq_none] at hv
  | app _ _ hn => exact absurd hs hn
  | @var v declared rest _ _ _ hd =>
      subst he
      obtain ⟨rfl, hctx⟩ := flaggedOnly_occurrenceStep.1 hp
      have hΓ : Γ v.name = some B := by rw [← (hb v (by simp)).2, hctx]
      refine ⟨.var v, .var rfl, .var hΓ, ?_, rfl, rfl⟩
      simp [Expr.occurrences, hd, hΓ]
  | fn => simp at hfn
  | truth =>
      subst he
      obtain rfl := Signature.admits_singleton.1 ((Rule.flaggedOnly_literal (by decide)).1 hp)
      exact ⟨.truth, .truth hcalc, .truth, by simp [Expr.occurrences], rfl, rfl⟩
  | falsity =>
      subst he
      obtain rfl := Signature.admits_singleton.1 ((Rule.flaggedOnly_literal (by decide)).1 hp)
      exact ⟨.falsity, .falsity hcalc, .falsity, by simp [Expr.occurrences], rfl, rfl⟩
  | zero =>
      subst he
      obtain rfl := Signature.admits_singleton.1 ((Rule.flaggedOnly_literal (by decide)).1 hp)
      exact ⟨.zero, .zero hcalc, .zero, by simp [Expr.occurrences], rfl, rfl⟩
  | @unary op _ _ _ _ _ hw _ _ ih =>
      subst he
      obtain ⟨rfl, hq⟩ := flaggedOnly_unaryStep.1 hp
      have hd : op.demand [op.result] = [.nat] := by cases op <;> rfl
      obtain ⟨e, he, ht, hv, -, hr⟩ :=
        ih rfl (hb.mono (List.subset_cons_self _ _)) (mt (List.mem_cons_of_mem _) hfn) hd hq
      refine ⟨.unary op e, .unary hw he, .unary ht, hv, type_unaryStep, ?_⟩
      cases op <;>
        simp [unaryStep, arithmeticStep, iszeroStep, Proof.rules_step, Expr.rules, hr,
          UnaryOp.rule]
  | cond _ hsplit _ _ _ _ ihc iht ihr =>
      subst he
      obtain ⟨hpc, hpt, hpr⟩ := Rule.flaggedOnly_conditionalStep.1 hp
      obtain ⟨hsc, hst, hsr⟩ := Conditional.subset_of_split hsplit
      obtain ⟨c, hc, htc, hvc, -, hrc⟩ :=
        ihc rfl (hb.mono hsc) (fun h => hfn (hsc h)) rfl hpc
      obtain ⟨t, ht, htt, hvt, hA, hrt⟩ :=
        iht rfl (hb.mono hst) (fun h => hfn (hst h)) rfl hpt
      obtain ⟨r, hr, htr, hvr, -, hrr⟩ :=
        ihr rfl (hb.mono hsr) (fun h => hfn (hsr h)) rfl hpr
      refine ⟨.cond c t r, .cond hsplit hc ht hr, .cond htc htt htr, ?_, hA, ?_⟩
      · simp only [Expr.occurrences, List.mem_append]
        rintro v (hv | hv | hv)
        · exact hvc v hv
        · exact hvt v hv
        · exact hvr v hv
      · simp [Rule.conditionalStep, Proof.rules_step, Expr.rules, hrc, hrt, hrr]
  | @bracketed a b _ _ _ _ _ hr hl hbal _ ih =>
      subst he hr
      have hsub := Run.subset_bracketed a b
      obtain ⟨e, he, ht, hv, hA, hr⟩ := ih rfl (hb.mono hsub) (fun h => hfn (hsub h)) rfl
        (Rule.flaggedOnly_bracketedStep.1 hp)
      refine ⟨.bracketed e, .bracketed rfl hl hbal he, .bracketed ht, hv,
        Rule.type_bracketedStep hA (.inr rfl), ?_⟩
      simp [Rule.bracketedStep, Proof.rules_step, Expr.rules, hr]

/-- The tree of a bound run is no higher than the run is long, since each rule takes a
token at least. -/
theorem height_le_length (h : Derives signature first second expected inner p)
    (hs : second = []) (hb : first.BoundIn Γ) : p.height ≤ first.length := by
  induction h with
  | abs hv =>
      subst hs
      simp [hb.candidate_eq_none] at hv
  | app _ _ hn => exact absurd hs hn
  | var | fn | truth | falsity | zero =>
      exact Proof.height_step_le_iff.2 ⟨_, rfl, by simp [Proof.height]⟩
  | unary _ _ _ ih =>
      exact height_unaryStep_le_iff.2 ⟨_, rfl, ih rfl (hb.mono (List.subset_cons_self _ _))⟩
  | @cond rest _ _ _ _ _ _ _ hsplit _ _ _ _ ihc iht ihr =>
      obtain ⟨hsc, hst, hsr⟩ := Conditional.subset_of_split hsplit
      have hc := ihc rfl (hb.mono hsc)
      have ht := iht rfl (hb.mono hst)
      have hr := ihr rfl (hb.mono hsr)
      have hl := congrArg List.length (Conditional.eq_of_split hsplit)
      simp only [List.length_append, List.length_cons] at hl
      refine Proof.height_step_le_iff.2 ⟨rest.length, rfl, ?_⟩
      simp only [List.mem_cons, List.not_mem_nil, or_false, forall_eq_or_imp, forall_eq]
      omega
  | @bracketed a b _ _ _ _ _ hr _ _ _ ih =>
      subst hr
      have hq := ih rfl (hb.mono (Run.subset_bracketed a b))
      refine Proof.height_step_le_iff.2 ⟨(a ++ .rparen :: b).length, rfl, ?_⟩
      simp only [List.mem_singleton, forall_eq, List.length_append, List.length_cons] at hq ⊢
      omega

end Derives

/-- **A typing is derived**: a bound run that reads as an expression of a type has a
derivation that fits the type, apart from flagged conditionals, if its variables are
declared as the context says. -/
theorem exists_derives_of_hasType (signature : Option Signature) (h : Reads .lambda run e)
    (hb : run.BoundIn Γ) (ht : HasType Γ e B) (hv : ∀ v ∈ e.occurrences, v.declared = Γ v.name)
    (inner : Bool) :
    ∃ p, Derives signature run [] [B] inner p ∧ p.FlaggedOnly .cond ∧ p.type = [B] := by
  induction h generalizing B inner with
  | truth =>
      cases ht
      exact ⟨_, .truth hb.candidate_eq_none, (Rule.flaggedOnly_literal (by decide)).2 (.inr rfl), rfl⟩
  | falsity =>
      cases ht
      exact ⟨_, .falsity hb.candidate_eq_none, (Rule.flaggedOnly_literal (by decide)).2 (.inr rfl), rfl⟩
  | zero =>
      cases ht
      exact ⟨_, .zero hb.candidate_eq_none, (Rule.flaggedOnly_literal (by decide)).2 (.inr rfl), rfl⟩
  | @var v =>
      cases ht with
      | var hΓ =>
          have hd : v.declared = some B := (hv v (by simp [Expr.occurrences])).trans hΓ
          have hctx : v.context = some B := (hb v (by simp)).2.trans hΓ
          exact ⟨_, .var hb.candidate_eq_none hd, flaggedOnly_occurrenceStep.2 ⟨rfl, hctx⟩, rfl⟩
  | @unary op _ _ _ hw _ ih =>
      cases ht with
      | unary ht =>
          have hsub := hb.mono (List.subset_cons_self _ _)
          obtain ⟨q, hq, hf, -⟩ := ih hsub ht hv op.nests
          have hd : op.demand [op.result] = [.nat] := by cases op <;> rfl
          rw [← hd] at hq
          exact ⟨_, .unary hw hb.candidate_eq_none hq, flaggedOnly_unaryStep.2 ⟨rfl, hf⟩,
            type_unaryStep⟩
  | cond hs _ _ _ ihc iht ihr =>
      simp only [Expr.occurrences, List.mem_append] at hv
      cases ht with
      | cond hct htt hrt =>
          obtain ⟨hsc, hst, hsr⟩ := Conditional.subset_of_split hs
          obtain ⟨pc, hpc, hfc, -⟩ := ihc (hb.mono hsc) hct (fun v h => hv v (.inl h)) _
          obtain ⟨pt, hpt, hft, hA⟩ := iht (hb.mono hst) htt (fun v h => hv v (.inr (.inl h))) _
          obtain ⟨pr, hpr, hfr, hA'⟩ := ihr (hb.mono hsr) hrt (fun v h => hv v (.inr (.inr h))) _
          exact ⟨_, .cond hb.candidate_eq_none hs hpc hpt hpr (by rw [hA, hA']),
            Rule.flaggedOnly_conditionalStep.2 ⟨hfc, hft, hfr⟩, hA⟩
  | @bracketed a b _ _ hr hl hbal _ ih =>
      subst hr
      cases ht with
      | bracketed ht =>
          have hsub := hb.mono (Run.subset_bracketed a b)
          obtain ⟨q, hq, hf, hA⟩ := ih hsub ht hv false
          exact ⟨_, .bracketed hb.candidate_eq_none rfl hl hbal hq,
            Rule.flaggedOnly_bracketedStep.2 hf, Rule.type_bracketedStep hA (.inr rfl)⟩

/-! ### Expressions under binders -/

/-- Binding every name of a run to its type in the bindings makes it a bound run. -/
theorem boundIn_bind {bs : Bindings}
    (h : ∀ v ∈ run.occurrences, (bs.find? v.name).isSome = true) :
    (run.bind bs).BoundIn bs.find? := by
  intro v hv
  have hocc : v ∈ (run.bind bs).occurrences := List.mem_filterMap.2 ⟨_, hv, rfl⟩
  rw [Run.occurrences_bind] at hocc
  obtain ⟨w, hw, rfl⟩ := List.mem_map.1 hocc
  obtain ⟨A, hA⟩ := Option.isSome_iff_exists.1 (h w hw)
  rw [Variable.name_bind, hA, Variable.bind, hA]
  exact ⟨rfl, rfl⟩

section Domains

variable {domains : List BaseType}

/-- With a domain for each name, the bound expression is a bound run. -/
theorem boundIn_run_bind (hk : domains.length = e.names.length) :
    (e.bind (e.names.zip domains)).run.BoundIn (Bindings.find? (e.names.zip domains)) := by
  rw [Expr.run_bind]
  refine boundIn_bind fun v hv => Bindings.isSome_find?_zip hk ?_
  rw [Expr.occurrences_run] at hv
  exact List.mem_eraseDups.2 (List.mem_map_of_mem hv)

/-- **The domains go to the names in the order of their first occurrences**, and what is
derived then is the bound expression against the result. -/
theorem derives_run_iff (hb : Token.lparen ∉ e.run)
    (hv : ∀ v ∈ e.occurrences, v.abstracted = false) (hk : domains.length = e.names.length) :
    Derives signature e.run [] (domains ++ [B]) inner p ↔
      ∃ body, Derives signature (e.bind (e.names.zip domains)).run [] [B]
          (inner && (e.names.zip domains).isEmpty) body ∧
        p = spine e.run [] (e.names.zip domains) [B] body := by
  have hpending : Run.pending e.run [] = (e.names.zip domains).map (·.1) := by
    rw [Expr.pending_run hb hv, List.map_fst_zip (Nat.le_of_eq hk.symm)]
  have hdomains : domains = (e.names.zip domains).map (·.2) :=
    (List.map_snd_zip (Nat.le_of_eq hk)).symm
  have hspine := @derives_iff_exists_spine signature e.run [] [B] inner p _ hpending
    (List.cons_ne_nil B [])
  rw [← hdomains, ← Expr.run_bind] at hspine
  exact hspine

/-- A derivation that fits types the expression in the domains, and the occurrences are
declared with them. -/
theorem Derives.hasType_in_domains (hb : Token.lparen ∉ e.run)
    (hv : ∀ v ∈ e.occurrences, v.abstracted = false) (hk : domains.length = e.names.length)
    (hp : Derives signature e.run [] (domains ++ [B]) inner p) (hf : p.FlaggedOnly .cond) :
    ((∀ v ∈ e.occurrences, v.declared = Bindings.find? (e.names.zip domains) v.name) ∧
        HasType (Bindings.find? (e.names.zip domains)) e B) ∧
      p.type = domains ++ [B] ∧
      p.rules = List.replicate domains.length Rule.abs.name ++
        (e.rules .lambda).map Rule.name := by
  obtain ⟨body, hd, rfl⟩ := (derives_run_iff hb hv hk).1 hp
  rw [flaggedOnly_spine (by decide)] at hf
  obtain ⟨e', hread, ht, hdecl, hA, hr⟩ :=
    hd.hasType rfl (boundIn_run_bind hk) (Expr.fn_notMem_run _) rfl hf
  obtain rfl := hread.eq_of_run
  rw [Expr.occurrences_bind, List.forall_mem_map] at hdecl
  simp only [Variable.declared_bind, Variable.name_bind] at hdecl
  rw [Expr.rules_bind] at hr
  refine ⟨⟨hdecl, (Expr.hasType_bind _ _).1 ht⟩, ?_, ?_⟩
  · rw [type_spine (by simp [hA]), hA, List.map_snd_zip (Nat.le_of_eq hk)]
  · rw [rules_spine, hr, List.length_zip, hk, Nat.min_self]

/-- An expression of the result type in the domains has a derivation that fits, if its
occurrences are declared with them, and it needs a level for each token and name. -/
theorem exists_derives_in_domains (signature : Option Signature) (inner : Bool)
    (hb : Token.lparen ∉ e.run) (he : e.Splittable)
    (hv : ∀ v ∈ e.occurrences, v.abstracted = false) (hk : domains.length = e.names.length)
    (hdecl : ∀ v ∈ e.occurrences, v.declared = Bindings.find? (e.names.zip domains) v.name)
    (ht : HasType (Bindings.find? (e.names.zip domains)) e B) :
    ∃ p, Derives signature e.run [] (domains ++ [B]) inner p ∧ p.FlaggedOnly .cond ∧
      p.height ≤ e.run.length + domains.length := by
  have hread : Reads .lambda (e.bind (e.names.zip domains)).run (e.bind (e.names.zip domains)) :=
    reads_run ((Expr.splittable_bind _ _).2 he) fun h => by cases h
  have hdecl' : ∀ v ∈ (e.bind (e.names.zip domains)).occurrences,
      v.declared = Bindings.find? (e.names.zip domains) v.name := by
    rw [Expr.occurrences_bind, List.forall_mem_map]
    simpa using hdecl
  obtain ⟨body, hd, hf, -⟩ := exists_derives_of_hasType signature hread (boundIn_run_bind hk)
    ((Expr.hasType_bind _ _).2 ht) hdecl' (inner && (e.names.zip domains).isEmpty)
  refine ⟨_, (derives_run_iff hb hv hk).2 ⟨body, hd, rfl⟩, (flaggedOnly_spine (by decide)).2 hf, ?_⟩
  have hh := hd.height_le_length rfl (boundIn_run_bind hk)
  rw [Expr.run_bind, Run.length_bind] at hh
  rw [height_spine, List.length_zip, hk, Nat.min_self]
  omega

/-- **The engine decides typing under binders.**  Take the flat form of a splittable
expression without brackets whose variables are unbound, a domain for each of their
names and a result, and a limit that lets as many rules stand on each other as there
are tokens and names.  A derivation is found that fits apart from flagged conditionals
if and only if every occurrence is declared with the domain of its name and the
expression has the result type in the domains.  The derivation then has the type it was
asked for, and names an abstraction for each domain before the rules of the syntax
tree. -/
theorem tree_run_fits_iff_hasType_in_domains (s : Settings) (signature : Option Signature)
    (inner : Bool) {e : Expr} (hb : Token.lparen ∉ e.run) (he : e.Splittable)
    (hv : ∀ v ∈ e.occurrences, v.abstracted = false) {domains : List BaseType}
    (hk : domains.length = e.names.length) (B : BaseType)
    (hl : (e.run.length : Int) + domains.length ≤ s.maxDepth) :
    ((∃ p, (tree s signature e.run [] (domains ++ [B]) inner).outcome = .ok p ∧
          p.FlaggedOnly .cond) ↔
        (∀ v ∈ e.occurrences, v.declared = Bindings.find? (e.names.zip domains) v.name) ∧
          HasType (Bindings.find? (e.names.zip domains)) e B) ∧
      ∀ p, (tree s signature e.run [] (domains ++ [B]) inner).outcome = .ok p →
        p.FlaggedOnly .cond →
        p.type = domains ++ [B] ∧
          p.rules = List.replicate domains.length Rule.abs.name ++
            (e.rules .lambda).map Rule.name := by
  refine ⟨⟨?_, ?_⟩, ?_⟩
  · rintro ⟨p, hp, hf⟩
    exact (Derives.hasType_in_domains hb hv hk (derive_eq_ok_iff.1 hp).1 hf).1
  · rintro ⟨hdecl, ht⟩
    obtain ⟨p, hp, hf, hh⟩ := exists_derives_in_domains signature inner hb he hv hk hdecl ht
    have hlevels : p.height ≤ Depth.levels s.maxDepth := by
      unfold Depth.levels
      omega
    exact ⟨p, derive_eq_ok_iff.2 ⟨hp, hlevels⟩, hf⟩
  · intro p hp hf
    exact (Derives.hasType_in_domains hb hv hk (derive_eq_ok_iff.1 hp).1 hf).2

/-- The expression `if iszero x then if y then x else 0 else succ x` over two unbound
variables; a `Nat` expected of the whole flags the conditional inside. -/
def nestedChoice : Expr :=
  let x : Expr := .var { name := "x", declared := some .nat }
  let y : Expr := .var { name := "y", declared := some .bool }
  .cond (.unary .iszero x) (.cond y x .zero) (.unary .succ x)

theorem tree_run_fits_nestedChoice_in_domains :
    Token.lparen ∉ nestedChoice.run ∧ nestedChoice.Splittable ∧
      nestedChoice.names = ["x", "y"] ∧
      ∃ p, (tree {} none nestedChoice.run [] [.nat, .bool, .nat] false).outcome = .ok p ∧
        p.FlaggedOnly .cond ∧ p.type = [.nat, .bool, .nat] ∧
        p.rules = ["T-abs", "T-abs", "T-if", "T-iszero", "T-var", "T-if", "T-var", "T-var",
          "T-zero", "T-succ", "T-var"] := by
  have hb : Token.lparen ∉ nestedChoice.run := by decide
  have hs : nestedChoice.Splittable := by decide
  have hnames : nestedChoice.names = ["x", "y"] := by decide
  have hk : [BaseType.nat, .bool].length = nestedChoice.names.length := by rw [hnames]; rfl
  have hdecl : ∀ v ∈ nestedChoice.occurrences,
      v.declared = Bindings.find? (nestedChoice.names.zip [.nat, .bool]) v.name := by
    rw [hnames]
    decide
  have ht : HasType (Bindings.find? (nestedChoice.names.zip [.nat, .bool])) nestedChoice .nat := by
    rw [hnames]
    have hx : HasType (Bindings.find? [("x", .nat), ("y", .bool)])
        (.var { name := "x", declared := some .nat }) .nat := .var (by decide)
    exact .cond (.unary hx) (.cond (.var (by decide)) hx .zero) (.unary hx)
  have h := tree_run_fits_iff_hasType_in_domains {} none false hb hs (by decide) hk .nat
    (by decide)
  obtain ⟨p, hp, hf⟩ := h.1.2 ⟨hdecl, ht⟩
  exact ⟨hb, hs, hnames, p, hp, hf, h.2 p hp hf⟩

end Domains

end Lambda
end TypeDeduction

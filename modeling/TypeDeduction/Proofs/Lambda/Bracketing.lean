/-
# Brackets around a subexpression

Once all variables of an expression are bound, brackets around one of its subexpressions
add a step to its derivation and change nothing else (`exists_gains_of_bracketing`): each
rule hands on what it is handed, and a step fits with the brackets if it did without.

While variables are open the brackets matter, since the search for a variable to abstract
starts at the last left one.  An expression without mismatch has had all its names bound at
the types they were declared with.  With the brackets the same types meet the names that
are in scope now.  So there is no mismatch again exactly if these are declared with the same
types in the same order (`tree_bracketing_exact_iff`); names that the brackets leave out of
the scope are missing from that list.
-/

import Mathlib.Data.List.Perm.Subperm
import TypeDeduction.Proofs.Lambda.ExactExpressions

namespace TypeDeduction

/-! ### One pair of brackets more -/

/-- The second expression is the first one with brackets around one of its
subexpressions. -/
inductive Expr.Bracketing : Expr → Expr → Prop where
  | here (e : Expr) : Bracketing e (.bracketed e)
  | unary {op : UnaryOp} {e e' : Expr} (h : Bracketing e e') :
      Bracketing (.unary op e) (.unary op e')
  | condition {c c' t r : Expr} (h : Bracketing c c') : Bracketing (.cond c t r) (.cond c' t r)
  | thenBranch {c t t' r : Expr} (h : Bracketing t t') : Bracketing (.cond c t r) (.cond c t' r)
  | elseBranch {c t r r' : Expr} (h : Bracketing r r') : Bracketing (.cond c t r) (.cond c t r')
  | inside {e e' : Expr} (h : Bracketing e e') : Bracketing (.bracketed e) (.bracketed e')

namespace Expr

variable {e e' : Expr}

namespace Bracketing

theorem occurrences_eq (h : Bracketing e e') : e'.occurrences = e.occurrences := by
  induction h with
  | here => rfl
  | unary _ ih | inside _ ih => exact ih
  | condition _ ih | thenBranch _ ih | elseBranch _ ih => simp only [occurrences, ih]

theorem conditionals_eq (h : Bracketing e e') : e'.conditionals = e.conditionals := by
  induction h with
  | here => rfl
  | unary _ ih | inside _ ih => exact ih
  | condition _ ih | thenBranch _ ih | elseBranch _ ih => simp only [conditionals, ih]

theorem splittable (h : Bracketing e e') (he : e.Splittable) : e'.Splittable := by
  induction h with
  | here => exact he
  | unary _ ih | inside _ ih => exact ih he
  | condition h ih =>
      obtain ⟨hc, ht, hsc, hst, hsr⟩ := he
      exact ⟨h.conditionals_eq ▸ hc, ht, ih hsc, hst, hsr⟩
  | thenBranch h ih =>
      obtain ⟨hc, ht, hsc, hst, hsr⟩ := he
      exact ⟨hc, h.conditionals_eq ▸ ht, hsc, ih hst, hsr⟩
  | elseBranch h ih =>
      obtain ⟨hc, ht, hsc, hst, hsr⟩ := he
      exact ⟨hc, ht, hsc, hst, ih hsr⟩

theorem bind (h : Bracketing e e') (bs : Bindings) : Bracketing (e.bind bs) (e'.bind bs) := by
  induction h with
  | here e => exact .here (e.bind bs)
  | unary _ ih => exact .unary ih
  | condition _ ih => exact .condition ih
  | thenBranch _ ih => exact .thenBranch ih
  | elseBranch _ ih => exact .elseBranch ih
  | inside _ ih => exact .inside ih

/-- Brackets do not change whether a clause holds a conditional. -/
theorem contains_cond_eq (h : Bracketing e e') :
    e'.run.contains .cond = e.run.contains .cond := by
  have hmem (e : Expr) : Token.cond ∈ e.run ↔ 0 < e.conditionals := by
    rw [← count_cond_run, List.count_pos_iff]
  rw [Bool.eq_iff_iff, List.contains_iff_mem, List.contains_iff_mem, hmem, hmem,
    h.conditionals_eq]

end Bracketing

/-- Where all variables are bound nothing is left to be abstracted, with the brackets or
without. -/
theorem Bracketing.candidate_eq_none (h : Bracketing e e')
    (hv : ∀ v ∈ e.occurrences, v.abstracted = true) :
    e.run.candidate = none ∧ e'.run.candidate = none := by
  have hv' : ∀ v ∈ e'.occurrences, v.abstracted = true := h.occurrences_eq ▸ hv
  exact ⟨candidate_run_eq_none_iff.2 fun v hs => hv v (e.scope_subset hs),
    candidate_run_eq_none_iff.2 fun v hs => hv' v (e'.scope_subset hs)⟩

/-- Bindings that give the names of an expression the same types bind it alike. -/
theorem bind_congr {bs bs' : Bindings}
    (h : ∀ v ∈ e.occurrences, bs.find? v.name = bs'.find? v.name) : e.bind bs = e.bind bs' := by
  induction e with
  | truth | falsity | zero => rfl
  | var v => rw [bind, bind, Variable.bind, Variable.bind, h v (List.mem_singleton_self v)]
  | unary op e ih | bracketed e ih => rw [bind, bind, ih h]
  | cond c t r ihc iht ihr =>
      simp only [occurrences, List.mem_append] at h
      rw [bind, bind, ihc fun v hv => h v (.inl hv), iht fun v hv => h v (.inr (.inl hv)),
        ihr fun v hv => h v (.inr (.inr hv))]

end Expr

/-! ### Bindings in another order -/

namespace Bindings

/-- Names that are found with types, one by one, are found with the types paired to them. -/
theorem eq_some_of_mem_zip {find : String → Option BaseType} {names : List String}
    {types : List BaseType} (h : names.map find = types.map some) {x : String} {A : BaseType}
    (hx : (x, A) ∈ names.zip types) : find x = some A := by
  induction names generalizing types with
  | nil => cases hx
  | cons y names ih =>
      cases types with
      | nil => cases hx
      | cons B types =>
          obtain ⟨hy, htail⟩ := List.cons.inj h
          rcases List.mem_cons.1 hx with heq | hx
          · obtain ⟨rfl, rfl⟩ := Prod.mk.inj heq
            exact hy
          · exact ih htail hx

/-- If names without repetition are found with the types of the bindings, in the same order,
the types can be bound to these names instead, and every name keeps its type. -/
theorem exists_reordered {bs : Bindings} {names : List String} (hn : names.Nodup)
    (h : names.map bs.find? = (bs.map (·.2)).map some) :
    ∃ bs' : Bindings, names = bs'.map (·.1) ∧ bs'.map (·.2) = bs.map (·.2) ∧
      ∀ x ∈ bs.map (·.1), bs'.find? x = bs.find? x := by
  have hlen : names.length = (bs.map (·.2)).length := by
    simpa using congrArg List.length h
  -- The names are as many as the bindings have, so they are all of these.
  have hall : bs.map (·.1) ⊆ names := by
    have hsub : names ⊆ bs.map (·.1) := by
      intro x hx
      have hmem : bs.find? x ∈ (bs.map (·.2)).map some := h ▸ List.mem_map_of_mem hx
      obtain ⟨A, -, hA⟩ := List.mem_map.1 hmem
      exact List.mem_map_of_mem (mem_of_find? hA.symm)
    have hperm := (hn.subperm hsub).perm_of_length_le (by simp [hlen])
    exact hperm.symm.subset
  refine ⟨names.zip (bs.map (·.2)), (List.map_fst_zip (Nat.le_of_eq hlen)).symm,
    List.map_snd_zip (Nat.le_of_eq hlen.symm), ?_⟩
  intro x hx
  obtain ⟨A, hA⟩ := Option.isSome_iff_exists.1 (isSome_find?_zip hlen.symm (hall hx))
  rw [hA, eq_some_of_mem_zip h (mem_of_find? hA)]

end Bindings

/-! ### One step more -/

/-- The second tree hands on the same type, fits, and applies the rule once more than the
first, on at most one level more. -/
structure Proof.Gains (rule : Rule) (p q : Proof) : Prop where
  type_eq : q.type = p.type
  fits : q.hasMismatch = false
  rules : ∃ before after, p.rules = before ++ after ∧ q.rules = before ++ rule.name :: after
  height_le : q.height ≤ p.height + 1

/-- A step takes over what one of its premises gains. -/
theorem Proof.Gains.step {rule : Rule} {p q : Proof} (h : p.Gains rule q) {i j : Inference}
    (l r : List Proof) (hrule : j.rule = i.rule) (htype : j.type = i.type)
    (hstatus : j.status = .exact) (hothers : ∀ x ∈ l ++ r, x.hasMismatch = false) :
    (Proof.step i (l ++ p :: r)).Gains rule (Proof.step j (l ++ q :: r)) := by
  have hmem {x y : Proof} (hx : x ∈ l ++ y :: r) : x = y ∨ x ∈ l ++ r := by
    simp only [List.mem_append, List.mem_cons] at hx ⊢
    tauto
  refine ⟨htype, Proof.hasMismatch_step.2 ⟨hstatus, fun x hx => ?_⟩, ?_, ?_⟩
  · rcases hmem hx with rfl | hx
    · exact h.fits
    · exact hothers x hx
  · obtain ⟨before, after, hp, hq⟩ := h.rules
    refine ⟨i.rule :: (l.flatMap Proof.rules ++ before), after ++ r.flatMap Proof.rules, ?_, ?_⟩
    · simp [Proof.rules_step, hp]
    · simp [Proof.rules_step, hq, hrule]
  · have hpremise : ∀ x ∈ l ++ p :: r, x.height ≤ Proof.heightAll (l ++ p :: r) :=
      Proof.heightAll_le_iff.1 (Nat.le_refl _)
    rw [Proof.height, Proof.height]
    refine Nat.succ_le_succ (Proof.heightAll_le_iff.2 fun x hx => ?_)
    rcases hmem hx with rfl | hx
    · have hp := hpremise p (by simp)
      have hgain := h.height_le
      omega
    · have hx' : x ∈ l ++ p :: r := by
        simp only [List.mem_append, List.mem_cons] at hx ⊢
        tauto
      have hp := hpremise x hx'
      omega

namespace Lambda

variable {signature : Option Signature} {first second first' second' : Run}
  {expected result : Signature} {inner : Bool} {p q q' body body' : Proof} {e e' : Expr}
  {rule : Rule}

theorem gains_unaryStep {op : UnaryOp} {conclude conclude' : Signature → Judgment}
    (h : q.Gains rule q') (hm : (unaryStep op conclude expected q).hasMismatch = false) :
    (unaryStep op conclude expected q).Gains rule (unaryStep op conclude' expected q') := by
  have hnone : ∀ x ∈ ([] ++ [] : List Proof), x.hasMismatch = false := List.forall_mem_nil _
  cases op with
  | succ | pred =>
      have hstatus := (Proof.hasMismatch_step.1 hm).1
      simp only [← h.type_eq] at hstatus
      refine h.step [] [] rfl ?_ hstatus hnone
      simp only [h.type_eq]
  | iszero =>
      have hstatus := (Proof.hasMismatch_step.1 hm).1
      simp only [← h.type_eq] at hstatus
      exact h.step [] [] rfl rfl hstatus hnone

theorem gains_bracketedStep {conclude conclude' : Signature → Judgment} (h : q.Gains rule q') :
    (Rule.bracketedStep .lambda conclude expected q).Gains rule
      (Rule.bracketedStep .lambda conclude' expected q') := by
  refine h.step [] [] rfl ?_ rfl (List.forall_mem_nil _)
  simp only [h.type_eq]

/-- A spine takes over what its body gains, if it binds the same types. -/
theorem gains_spine {bs bs' : Bindings} (hbs : bs'.map (·.2) = bs.map (·.2))
    (h : body.Gains rule body') :
    (spine first second bs result body).Gains rule (spine first' second' bs' result body') := by
  induction bs generalizing bs' first second first' second' with
  | nil =>
      obtain rfl := List.map_eq_nil_iff.1 hbs
      exact h
  | cons b bs ih =>
      obtain ⟨x, A⟩ := b
      obtain ⟨⟨y, B⟩, bs', rfl, hb, htail⟩ := List.map_eq_cons_iff.1 hbs
      obtain rfl : B = A := hb
      have hspine := @ih (first.bind [(x, B)]) (second.bind [(x, B)]) (first'.bind [(y, B)])
        (second'.bind [(y, B)]) bs' htail
      refine hspine.step [] [] rfl ?_ rfl (List.forall_mem_nil _)
      simp only [hspine.type_eq, htail]

/-! ### Bound expressions -/

/-- What is derived without mismatch as an inner run is derived as an outer one too, up to
the types that its conclusions show. -/
theorem Derives.exists_outer (h : Derives signature first second expected inner p)
    (hm : p.hasMismatch = false) :
    ∃ q, Derives signature first second expected false q ∧ q.hasMismatch = false ∧
      q.type = p.type ∧ q.rules = p.rules ∧ q.height = p.height := by
  cases h with
  | abs hv hd => exact ⟨_, .abs hv hd, hm, rfl, rfl, rfl⟩
  | app hf hs hn ha hfun => exact ⟨_, .app hf hs hn ha hfun, hm, rfl, rfl, rfl⟩
  | var hc hd => exact ⟨_, .var hc hd, hm, rfl, rfl, rfl⟩
  | fn hs => exact ⟨_, .fn hs, hm, rfl, rfl, rfl⟩
  | truth hc => exact ⟨_, .truth hc, hm, rfl, rfl, rfl⟩
  | falsity hc => exact ⟨_, .falsity hc, hm, rfl, rfl, rfl⟩
  | zero hc => exact ⟨_, .zero hc, hm, rfl, rfl, rfl⟩
  | unary hw hc hq => exact ⟨_, .unary hw hc hq, hm, rfl, rfl, rfl⟩
  | cond hc hs hpc hpt hpr heq =>
      refine ⟨_, .cond hc hs hpc hpt hpr heq, ?_, rfl, ?_, rfl⟩
      · refine hasMismatch_conditionalStep.2 ⟨?_, (hasMismatch_conditionalStep.1 hm).2⟩
        simp
      · simp only [Rule.conditionalStep, Proof.rules_step]
  | bracketed hc hr hlast hb hq => exact ⟨_, .bracketed hc hr hlast hb hq, hm, rfl, rfl, rfl⟩

/-- **Brackets in a bound expression add one step.**  The induction is on the place of the
brackets; every rule on the way down to it makes the same step as before. -/
theorem exists_gains_of_bracketing (hb : e.Bracketing e') (he : e.Splittable)
    (hv : ∀ v ∈ e.occurrences, v.abstracted = true)
    (h : Derives signature e.run [] expected inner p) (hm : p.hasMismatch = false) :
    ∃ q, Derives signature e'.run [] expected inner q ∧ p.Gains (.brackets .lambda) q := by
  induction hb generalizing expected inner p with
  | here e =>
      obtain ⟨-, hc'⟩ := (Expr.Bracketing.here e).candidate_eq_none hv
      obtain ⟨q, hq, hqm, htype, hrules, hheight⟩ := h.exists_outer hm
      refine ⟨_, .run_bracketed hc' hq, ?_, hasMismatch_bracketedStep.2 hqm, ?_, ?_⟩
      · show (if expected = [] then q.type else expected) = p.type
        split
        · exact htype
        · rename_i hne
          exact (h.checked hne hm).type_eq.symm
      · refine ⟨[], p.rules, rfl, ?_⟩
        rw [Rule.bracketedStep, Proof.rules_step, List.flatMap_singleton, hrules]
        rfl
      · rw [← hheight]
        exact Proof.height_step_le_iff.2 ⟨q.height, rfl, by simp⟩
  | @unary op e e' hb ih =>
      obtain ⟨hc, hc'⟩ := (@Expr.Bracketing.unary op e e' hb).candidate_eq_none hv
      obtain ⟨q, hq, rfl⟩ := h.of_unary hc
      obtain ⟨-, hqm⟩ := admits_of_hasMismatch_unaryStep hm
      obtain ⟨q', hq', hgains⟩ := ih he hv hq hqm
      exact ⟨_, .unary rfl hc' hq', gains_unaryStep hgains hm⟩
  | @condition c c' t r hb ih =>
      obtain ⟨hc, hc'⟩ := (Expr.Bracketing.condition hb).candidate_eq_none hv
      obtain ⟨hcl, htl, hec, -, -⟩ := he
      obtain ⟨pc, pt, pr, hpc, hpt, hpr, heq, rfl⟩ := h.of_cond hcl htl hc
      obtain ⟨-, hmc, hmt, hmr⟩ := hasMismatch_conditionalStep.1 hm
      obtain ⟨pc', hpc', hgains⟩ := ih hec
        (fun v hocc => hv v (List.mem_append_left _ hocc)) hpc hmc
      rw [← hb.contains_cond_eq] at hpc'
      refine ⟨_, .run_cond (hb.conditionals_eq ▸ hcl) htl hc' hpc' hpt hpr heq, ?_⟩
      refine hgains.step [] [pt, pr] rfl rfl ?_ (by simp [hmt, hmr])
      exact (Proof.hasMismatch_step.1 hm).1
  | @thenBranch c t t' r hb ih =>
      obtain ⟨hc, hc'⟩ := (Expr.Bracketing.thenBranch hb).candidate_eq_none hv
      obtain ⟨hcl, htl, -, het, -⟩ := he
      obtain ⟨pc, pt, pr, hpc, hpt, hpr, heq, rfl⟩ := h.of_cond hcl htl hc
      obtain ⟨-, hmc, hmt, hmr⟩ := hasMismatch_conditionalStep.1 hm
      obtain ⟨pt', hpt', hgains⟩ := ih het
        (fun v hocc => hv v (List.mem_append_right _ (List.mem_append_left _ hocc))) hpt hmt
      rw [← hb.contains_cond_eq] at hpt'
      refine ⟨_, .run_cond hcl (hb.conditionals_eq ▸ htl) hc' hpc hpt' hpr
        (hgains.type_eq ▸ heq), ?_⟩
      refine hgains.step [pc] [pr] rfl hgains.type_eq ?_ (by simp [hmc, hmr])
      exact (Proof.hasMismatch_step.1 hm).1
  | @elseBranch c t r r' hb ih =>
      obtain ⟨hc, hc'⟩ := (Expr.Bracketing.elseBranch hb).candidate_eq_none hv
      obtain ⟨hcl, htl, -, -, her⟩ := he
      obtain ⟨pc, pt, pr, hpc, hpt, hpr, heq, rfl⟩ := h.of_cond hcl htl hc
      obtain ⟨-, hmc, hmt, hmr⟩ := hasMismatch_conditionalStep.1 hm
      obtain ⟨pr', hpr', hgains⟩ := ih her
        (fun v hocc => hv v (List.mem_append_right _ (List.mem_append_right _ hocc))) hpr hmr
      rw [← hb.contains_cond_eq] at hpr'
      refine ⟨_, .run_cond hcl htl hc' hpc hpt hpr' (hgains.type_eq ▸ heq), ?_⟩
      refine hgains.step [pc, pt] [] rfl rfl ?_ (by simp [hmc, hmt])
      exact (Proof.hasMismatch_step.1 hm).1
  | inside hb ih =>
      obtain ⟨hc, hc'⟩ := hb.inside.candidate_eq_none hv
      obtain ⟨q, hq, rfl⟩ := h.of_bracketed hc
      obtain ⟨q', hq', hgains⟩ := ih he hv hq (hasMismatch_bracketedStep.1 hm)
      exact ⟨_, .run_bracketed hc' hq', gains_bracketedStep hgains⟩

/-! ### Open expressions -/

/-- **Brackets that keep the domains add one step.** -/
theorem exists_gains_of_domains_eq (hb : e.Bracketing e') (he : e.Splittable)
    (hv : ∀ v ∈ e.occurrences, v.abstracted = false)
    (h : Derives signature e.run [] expected inner p) (hm : p.hasMismatch = false)
    (hd : e'.domains = e.domains) :
    ∃ q, Derives signature e'.run [] expected inner q ∧ p.Gains (.brackets .lambda) q := by
  obtain ⟨bs, result, body, hs⟩ := h.exists_exactSpine he hv hm
  have hv' : ∀ v ∈ e'.occurrences, v.abstracted = false := hb.occurrences_eq ▸ hv
  -- The names in scope now, looked up in the bindings, have the types of the bindings.
  have hlookup : (Run.pending e'.run []).map bs.find? = (bs.map (·.2)).map some := by
    rw [Expr.pending_run_eq hv', hs.map_snd_eq, ← hs.domains_eq hv, ← hd, Expr.domains,
      List.map_map]
    refine List.map_congr_left fun v hfirst => ?_
    have hocc : v ∈ e'.occurrences := e'.scope_subset (Run.mem_of_mem_firstByName hfirst)
    obtain ⟨A, hdeclared, hfind⟩ := hs.declared v (hb.occurrences_eq ▸ hocc)
    exact hfind.trans hdeclared.symm
  have hnodup : (Run.pending e'.run []).Nodup := by
    rw [Expr.pending_run_eq hv']
    exact Run.nodup_map_name_firstByName e'.scope
  obtain ⟨bs', hnames, htypes, hsame⟩ := Bindings.exists_reordered hnodup hlookup
  have hbind : e'.bind bs = e'.bind bs' := by
    refine Expr.bind_congr fun v hocc => (hsame v.name ?_).symm
    obtain ⟨A, -, hfind⟩ := hs.declared v (hb.occurrences_eq ▸ hocc)
    exact List.mem_map_of_mem (Bindings.mem_of_find? hfind)
  have hbound : ∀ v ∈ (e.bind bs).occurrences, v.abstracted = true := by
    rw [Expr.occurrences_bind]
    rintro _ hmem
    obtain ⟨v, hocc, rfl⟩ := List.mem_map.1 hmem
    obtain ⟨A, -, hfind⟩ := hs.declared v hocc
    rw [Variable.abstracted_bind, hfind]
    simp
  obtain ⟨body', hbody', hgains⟩ := exists_gains_of_bracketing (hb.bind bs)
    ((e.splittable_bind bs).2 he) hbound hs.derived hs.fits
  rw [hbind, Expr.run_bind] at hbody'
  have hnil : bs' = [] ↔ bs = [] := by
    rw [← List.map_eq_nil_iff, htypes, List.map_eq_nil_iff]
  refine ⟨spine e'.run [] bs' result body', ?_, ?_⟩
  · have hempty : bs'.isEmpty = bs.isEmpty := by
      rw [Bool.eq_iff_iff, List.isEmpty_iff, List.isEmpty_iff, hnil]
    rw [hs.types, ← htypes]
    refine (derives_iff_exists_spine' hnames ?_).2 ⟨body', ?_, rfl⟩
    · rw [hnil]
      exact hs.enough
    · rw [hempty]
      exact hbody'
  · rw [hs.tree]
    exact gains_spine htypes hgains

/-- **When brackets around a subexpression do no harm.**  Let a splittable expression over
unbound variables have a derivation without mismatch against any type or none, and let the
limit exceed its height.  With brackets around one of its subexpressions it has one again
exactly if the brackets leave its domains as they are; and the derivation then has the same
type and the same rules in the same order, with the rule for brackets once more. -/
theorem tree_bracketing_exact_iff (s : Settings) (signature : Option Signature)
    (hb : e.Bracketing e') (he : e.Splittable) (hv : ∀ v ∈ e.occurrences, v.abstracted = false)
    (expected : Signature) (inner : Bool)
    (hp : (tree s signature e.run [] expected inner).outcome = .ok p)
    (hm : p.hasMismatch = false) (hl : (p.height : Int) < s.maxDepth) :
    ((∃ q, (tree s signature e'.run [] expected inner).outcome = .ok q ∧
        q.hasMismatch = false) ↔ e'.domains = e.domains) ∧
      ∀ q, (tree s signature e'.run [] expected inner).outcome = .ok q →
        q.hasMismatch = false → q.type = p.type ∧
          ∃ before after, p.rules = before ++ after ∧
            q.rules = before ++ (Rule.brackets .lambda).name :: after := by
  have hderived := (derive_eq_ok_iff.1 hp).1
  have hdomains {q : Proof} (hq : (tree s signature e'.run [] expected inner).outcome = .ok q)
      (hqm : q.hasMismatch = false) : e'.domains = e.domains := by
    have hv' : ∀ v ∈ e'.occurrences, v.abstracted = false := hb.occurrences_eq ▸ hv
    obtain ⟨_, _, _, hs⟩ := hderived.exists_exactSpine he hv hm
    obtain ⟨_, _, _, hs'⟩ :=
      (derive_eq_ok_iff.1 hq).1.exists_exactSpine (hb.splittable he) hv' hqm
    rw [hs.domains_eq hv, hs'.domains_eq hv']
  have hgains (hd : e'.domains = e.domains) :
      ∃ q, (tree s signature e'.run [] expected inner).outcome = .ok q ∧
        p.Gains (.brackets .lambda) q := by
    obtain ⟨q, hq, hgains⟩ := exists_gains_of_domains_eq hb he hv hderived hm hd
    refine ⟨q, derive_eq_ok_iff.2 ⟨hq, ?_⟩, hgains⟩
    have hheight := hgains.height_le
    unfold Depth.levels
    omega
  refine ⟨⟨fun ⟨q, hq, hqm⟩ => hdomains hq hqm, fun hd => ?_⟩, fun q hq hqm => ?_⟩
  · obtain ⟨q, hq, hgain⟩ := hgains hd
    exact ⟨q, hq, hgain.fits⟩
  · obtain ⟨q', hq', hgain⟩ := hgains (hdomains hq hqm)
    obtain rfl := Except.ok.inj (hq.symm.trans hq')
    exact ⟨hgain.type_eq, hgain.rules⟩

/-- The expression `if iszero n then succ n else n` over an unbound number. -/
def numberChoice : Expr :=
  let n : Expr := .var { name := "n", declared := some .nat }
  .cond (.unary .iszero n) (.unary .succ n) n

/-- The same with brackets around the second `n`. -/
def bracketedNumberChoice : Expr :=
  let n : Expr := .var { name := "n", declared := some .nat }
  .cond (.unary .iszero n) (.unary .succ (.bracketed n)) n

/-- Brackets around the second `n` keep the domains, and the derivation has one step more. -/
theorem tree_bracketing_exact_of_numberChoice :
    numberChoice.Bracketing bracketedNumberChoice ∧ numberChoice.Splittable ∧
      bracketedNumberChoice.domains = numberChoice.domains ∧
      ∃ p q, (tree {} none numberChoice.run [] [.nat, .nat] false).outcome = .ok p ∧
        p.hasMismatch = false ∧
        (tree {} none bracketedNumberChoice.run [] [.nat, .nat] false).outcome = .ok q ∧
        q.hasMismatch = false ∧ q.type = p.type ∧
        ∃ before after, p.rules = before ++ after ∧
          q.rules = before ++ (Rule.brackets .lambda).name :: after := by
  have hb : numberChoice.Bracketing bracketedNumberChoice := .thenBranch (.unary (.here _))
  have he : numberChoice.Splittable := by decide
  have hv : ∀ v ∈ numberChoice.occurrences, v.abstracted = false := by decide
  have hd : bracketedNumberChoice.domains = numberChoice.domains := by decide
  have h := tree_bracketing_exact_iff {} none hb he hv [.nat, .nat] false rfl rfl (by decide)
  obtain ⟨q, hq, hqm⟩ := h.1.2 hd
  obtain ⟨htype, hrules⟩ := h.2 q hq hqm
  exact ⟨hb, he, hd, _, q, rfl, rfl, hq, hqm, htype, hrules⟩

/-- The expression `if b then 0 else 0` over an unbound truth value. -/
def zeroChoice : Expr := .cond (.var { name := "b", declared := some .bool }) .zero .zero

/-- The same with brackets around the last `0`. -/
def bracketedZeroChoice : Expr :=
  .cond (.var { name := "b", declared := some .bool }) .zero (.bracketed .zero)

/-- Brackets can do harm: `if b then 0 else 0` has a derivation without mismatch against
`Bool -> Nat`, and with brackets around the last `0` the variable is out of scope, so that
no abstraction is made until the condition is derived against `Bool`. -/
theorem bracketing_can_unbind :
    zeroChoice.Bracketing bracketedZeroChoice ∧ zeroChoice.Splittable ∧
      (∃ p, (tree {} none zeroChoice.run [] [.bool, .nat] false).outcome = .ok p ∧
        p.hasMismatch = false) ∧
      (tree {} none bracketedZeroChoice.run [] [.bool, .nat] false).outcome =
        .error (.notFunctionType .bool) :=
  ⟨.elseBranch (.here _), by decide, ⟨_, rfl, rfl⟩, rfl⟩

end Lambda
end TypeDeduction

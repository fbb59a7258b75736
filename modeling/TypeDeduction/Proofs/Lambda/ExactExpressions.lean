/-
# Expressions derived without mismatch

A lookup fits only if the context has the declared type, so an expression that is derived
without mismatch has no variable left that is not bound, and none that is bound at another
type than it was declared with.  Once nothing is in scope any more this holds of all its
occurrences, those before the last left bracket included, and the type expected is then a
base type or none (`Derives.closed`).

So the abstractions over an expression bind all its names or there is a mismatch.  What is
left of the expected type for the body has at most one entry, and the entries before it
are the domains of the expression (`ExactSpine.domains_eq`).
-/

import TypeDeduction.Proofs.Domains
import TypeDeduction.Proofs.Lambda.Abstractions
import TypeDeduction.Proofs.Lambda.Soundness

namespace TypeDeduction

/-- Different operators have different words. -/
theorem UnaryOp.word_injective {op op' : UnaryOp} (h : op.word = op'.word) : op = op' := by
  revert h
  cases op <;> cases op' <;> decide

theorem Signature.Admits.length_le {s : Signature} {A : BaseType} (h : s.Admits A) :
    s.length ≤ 1 := by
  rcases h with rfl | rfl
  · exact Nat.zero_le 1
  · exact Nat.le_refl 1

/-- The occurrence is bound at the type it was declared with. -/
def Variable.Grounded (v : Variable) : Prop :=
  v.abstracted = true ∧ ∃ A, v.declared = some A ∧ v.context = some A

namespace Bindings

variable {bs : Bindings} {x : String} {A : BaseType}

/-- What is found for a name is one of its entries. -/
theorem mem_of_find? (h : bs.find? x = some A) : (x, A) ∈ bs := by
  induction bs with
  | nil => cases h
  | cons b bs ih =>
      rw [find?] at h
      split at h
      · rename_i later hlater
        exact List.mem_cons_of_mem b (ih (hlater.trans h))
      · split at h
        · rename_i hname
          obtain rfl := Option.some.inj h
          rw [← hname]
          exact List.mem_cons_self
        · cases h

/-- Where each name has one entry, that is the one found. -/
theorem find?_eq_some_of_mem {b : String × BaseType} (hn : (bs.map (·.1)).Nodup) (hb : b ∈ bs) :
    bs.find? b.1 = some b.2 := by
  induction bs with
  | nil => cases hb
  | cons c bs ih =>
      obtain ⟨hc, hn⟩ := List.nodup_cons.1 hn
      rcases List.mem_cons.1 hb with rfl | hb
      · have hnone : find? bs b.1 = none := by
          cases h : find? bs b.1 with
          | none => rfl
          | some A => exact absurd (List.mem_map_of_mem (mem_of_find? h)) hc
        rw [find?, hnone]
        exact if_pos rfl
      · rw [find?, ih hn hb]

end Bindings

namespace Lambda

variable {signature : Option Signature} {first second run : Run} {expected result : Signature}
  {inner : Bool} {p q body : Proof} {e : Expr}

/-! ### Derivations of flat forms -/

namespace Derives

/-- Against a base type, or against none, nothing is abstracted. -/
theorem candidate_eq_none (h : Derives signature run [] expected inner p)
    (hl : expected.length ≤ 1) : run.candidate = none := by
  cases h with
  | abs =>
      simp only [List.length_cons] at hl
      omega
  | app hf => exact hf
  | fn => rfl
  | var hc | truth hc | falsity hc | zero hc | unary _ hc | cond hc | bracketed hc => exact hc

/-- An operator over a run is derived by deriving the run. -/
theorem of_unary {op : UnaryOp} {rest : Run}
    (h : Derives signature (.word op.word :: rest) [] expected inner p)
    (hc : Run.candidate (.word op.word :: rest) = none) :
    ∃ q, Derives signature rest [] (op.demand expected) op.nests q ∧
      p = unaryStep op (conclude (.word op.word :: rest)) expected q := by
  generalize hw : op.word = w at h hc ⊢
  cases h with
  | abs hv => simp [hc] at hv
  | app _ _ hn => exact absurd rfl hn
  | truth | falsity | zero | cond | bracketed => cases op <;> cases hw
  | unary hw' _ hq =>
      obtain rfl := UnaryOp.word_injective (hw.trans hw')
      exact ⟨_, hq, rfl⟩

/-- The flat form of a conditional is derived by deriving those of its clauses. -/
theorem of_cond {c t r : Expr} (hsc : c.conditionals ≤ 1) (hst : t.conditionals ≤ 1)
    (h : Derives signature (Expr.cond c t r).run [] expected inner p)
    (hc : (Expr.cond c t r).run.candidate = none) :
    ∃ pc pt pr, Derives signature c.run [] .bool (c.run.contains .cond) pc ∧
      Derives signature t.run [] expected (t.run.contains .cond) pt ∧
      Derives signature r.run [] expected (r.run.contains .cond) pr ∧
      pt.type.head? = pr.type.head? ∧
      p = Rule.conditionalStep (conclude (Expr.cond c t r).run) expected inner pc pt pr := by
  have hsplit := Conditional.split_run r hsc hst
  rw [Expr.run] at h hc hsplit ⊢
  cases h with
  | abs hv => simp [hc] at hv
  | app _ _ hn => exact absurd rfl hn
  | @unary op _ _ _ _ _ hw => cases op <;> cases hw
  | cond _ hs hpc hpt hpr heq =>
      obtain rfl := Except.ok.inj (hsplit.symm.trans hs)
      exact ⟨_, _, _, hpc, hpt, hpr, heq, rfl⟩

theorem run_cond {c t r : Expr} (hsc : c.conditionals ≤ 1) (hst : t.conditionals ≤ 1)
    (hc : (Expr.cond c t r).run.candidate = none) {pc pt pr : Proof}
    (hpc : Derives signature c.run [] .bool (c.run.contains .cond) pc)
    (hpt : Derives signature t.run [] expected (t.run.contains .cond) pt)
    (hpr : Derives signature r.run [] expected (r.run.contains .cond) pr)
    (heq : pt.type.head? = pr.type.head?) :
    Derives signature (Expr.cond c t r).run [] expected inner
      (Rule.conditionalStep (conclude (Expr.cond c t r).run) expected inner pc pt pr) :=
  .cond hc (Conditional.split_run r hsc hst) hpc hpt hpr heq

/-- The flat form of a bracketed expression is derived by deriving that of the
expression. -/
theorem of_bracketed (h : Derives signature (Expr.bracketed e).run [] expected inner p)
    (hc : (Expr.bracketed e).run.candidate = none) :
    ∃ q, Derives signature e.run [] expected false q ∧
      p = Rule.bracketedStep .lambda (conclude (Expr.bracketed e).run) expected q := by
  have hstrip := e.strip_run
  rw [Expr.run] at h hc hstrip ⊢
  cases h with
  | abs hv => simp [hc] at hv
  | app _ _ hn => exact absurd rfl hn
  | @unary op _ _ _ _ _ hw => cases op <;> cases hw
  | @bracketed a b _ _ _ _ _ hr hlast _ hq =>
      rw [hr, Run.strip_eq_append a hlast] at hstrip
      rw [hstrip] at hq
      exact ⟨_, hq, rfl⟩

theorem run_bracketed (hc : (Expr.bracketed e).run.candidate = none)
    (hq : Derives signature e.run [] expected false q) :
    Derives signature (Expr.bracketed e).run [] expected inner
      (Rule.bracketedStep .lambda (conclude (Expr.bracketed e).run) expected q) := by
  have hnil := List.append_nil e.run
  refine .bracketed hc rfl List.not_mem_nil ?_ ?_
  · rw [hnil, e.balance_run]
  · rw [hnil]
    exact hq

end Derives

/-! ### Steps without mismatch -/

/-- An operator fits where the type of its result is admitted. -/
theorem admits_of_hasMismatch_unaryStep {op : UnaryOp} {conclude : Signature → Judgment}
    (hm : (unaryStep op conclude expected q).hasMismatch = false) :
    expected.Admits op.result ∧ q.hasMismatch = false := by
  by_cases hne : expected = []
  · refine ⟨.inl hne, ?_⟩
    cases op <;> exact (Proof.hasMismatch_step.1 hm).2 q (List.mem_singleton_self q)
  · obtain ⟨heq, hq⟩ := eq_of_hasMismatch_unaryStep hne hm
    exact ⟨.inr heq, hq⟩

/-- A variable fits where its declared type is admitted, and its lookup if the context
agrees. -/
theorem admits_of_hasMismatch_occurrenceStep {v : Variable} {declared : BaseType}
    (hm : (occurrenceStep v declared expected).hasMismatch = false) :
    expected.Admits declared ∧ v.context = some declared := by
  obtain ⟨hs, hl⟩ := Proof.hasMismatch_step.1 hm
  have hfit : expected = [] ∨ expected = [declared] := by simpa using hs
  refine ⟨hfit, ?_⟩
  simpa [Proof.hasMismatch_lookup, hfit] using hl

theorem hasMismatch_conditionalStep {conclude : Signature → Judgment} {pc pt pr : Proof} :
    (Rule.conditionalStep conclude expected inner pc pt pr).hasMismatch = false ↔
      ¬ (inner = true ∧ expected = .nat) ∧ pc.hasMismatch = false ∧ pt.hasMismatch = false ∧
        pr.hasMismatch = false := by
  rw [Rule.conditionalStep, Proof.hasMismatch_step]
  cases inner <;> simp

theorem hasMismatch_bracketedStep {conclude : Signature → Judgment} :
    (Rule.bracketedStep .lambda conclude expected q).hasMismatch = false ↔
      q.hasMismatch = false := by
  rw [Rule.bracketedStep, Proof.hasMismatch_step]
  simp

/-- A spine fits where its body does. -/
theorem hasMismatch_spine {bs : Bindings} :
    (spine first second bs result body).hasMismatch = false ↔ body.hasMismatch = false := by
  induction bs generalizing first second with
  | nil => rfl
  | cons b bs ih =>
      rw [spine, abstractionStep, Proof.hasMismatch_step]
      simp [ih]

/-! ### Closed expressions -/

/-- **Where nothing is in scope, an expression without mismatch is closed**: the type
expected of it has at most one entry, and all its occurrences are grounded.  The induction
is on the expression.  A clause that no longer sees what the whole has in scope is derived
against a base type, so nothing is abstracted in it either; that the branches are, comes
from the second one, whose scope belongs to that of the whole. -/
theorem Derives.closed (h : Derives signature e.run [] expected inner p) (he : e.Splittable)
    (hs : ∀ v ∈ e.scope, v.abstracted = true) (hm : p.hasMismatch = false) :
    expected.length ≤ 1 ∧ ∀ v ∈ e.occurrences, v.Grounded := by
  induction e generalizing expected inner p with
  | truth | falsity | zero =>
      have hc := Expr.candidate_run_eq_none_iff.2 hs
      refine ⟨?_, List.forall_mem_nil _⟩
      rw [Expr.run] at h hc
      cases h with
      | abs hv => simp [hc] at hv
      | app _ _ hn => exact absurd rfl hn
      | @unary op _ _ _ _ _ hw => cases op <;> cases hw
      | _ => exact (Rule.status_literal.1 (Proof.hasMismatch_step.1 hm).1).length_le
  | var v =>
      have hc := Expr.candidate_run_eq_none_iff.2 hs
      rw [Expr.run] at h hc
      cases h with
      | abs hv => simp [hc] at hv
      | app _ _ hn => exact absurd rfl hn
      | @var _ declared _ _ _ _ hd =>
          obtain ⟨hadmits, hctx⟩ := admits_of_hasMismatch_occurrenceStep hm
          refine ⟨hadmits.length_le, List.forall_mem_singleton.2 ⟨?_, declared, hd, hctx⟩⟩
          exact hs v (List.mem_singleton_self v)
  | unary op e ih =>
      obtain ⟨q, hq, rfl⟩ := h.of_unary (Expr.candidate_run_eq_none_iff.2 hs)
      rw [Expr.scope_unary] at hs
      obtain ⟨hadmits, hqm⟩ := admits_of_hasMismatch_unaryStep hm
      exact ⟨hadmits.length_le, (ih hq he hs hqm).2⟩
  | cond c t r ihc iht ihr =>
      obtain ⟨hcl, htl, hec, het, her⟩ := he
      obtain ⟨pc, pt, pr, hpc, hpt, hpr, -, rfl⟩ :=
        h.of_cond hcl htl (Expr.candidate_run_eq_none_iff.2 hs)
      obtain ⟨-, hmc, hmt, hmr⟩ := hasMismatch_conditionalStep.1 hm
      obtain ⟨hl, hvr⟩ := ihr hpr her (fun v hv => hs v (Expr.scope_subset_cond c t r hv)) hmr
      have hvc := (ihc hpc hec
        (Expr.candidate_run_eq_none_iff.1 (hpc.candidate_eq_none (Nat.le_refl 1))) hmc).2
      have hvt := (iht hpt het
        (Expr.candidate_run_eq_none_iff.1 (hpt.candidate_eq_none hl)) hmt).2
      refine ⟨hl, fun v hv => ?_⟩
      rw [Expr.occurrences, List.mem_append, List.mem_append] at hv
      rcases hv with hv | hv | hv
      · exact hvc v hv
      · exact hvt v hv
      · exact hvr v hv
  | bracketed e ih =>
      obtain ⟨q, hq, rfl⟩ := h.of_bracketed (Expr.candidate_run_eq_none_iff.2 hs)
      rw [Expr.scope_bracketed] at hs
      exact ih hq he hs (hasMismatch_bracketedStep.1 hm)

/-! ### Open expressions -/

/-- How an expression is derived without mismatch: under abstractions for the bindings,
which name what is pending and take their types off the expected one, the bound expression
has an exact derivation against what is left, and all its occurrences are declared with the
types of the bindings. -/
structure ExactSpine (signature : Option Signature) (e : Expr) (expected : Signature)
    (inner : Bool) (p : Proof) (bs : Bindings) (result : Signature) (body : Proof) : Prop where
  names : Run.pending e.run [] = bs.map (·.1)
  types : expected = bs.map (·.2) ++ result
  enough : bs = [] ∨ result ≠ []
  derived : Derives signature (e.bind bs).run [] result (inner && bs.isEmpty) body
  fits : body.hasMismatch = false
  tree : p = spine e.run [] bs result body
  length_le : result.length ≤ 1
  declared : ∀ v ∈ e.occurrences, ∃ A, v.declared = some A ∧ bs.find? v.name = some A

/-- Whatever is derived has types enough for the names pending. -/
theorem Derives.pending_length (h : Derives signature first second expected inner p) :
    Run.pending first second = [] ∨ (Run.pending first second).length < expected.length := by
  have hnil {first second : Run} (hc : first.candidate.or second.candidate = none) :
      Run.pending first second = [] := by
    rw [← List.head?_eq_none_iff, ← Run.map_name_candidate, hc]
    rfl
  induction h with
  | @abs first second domain result rest inner v body hv _ ih =>
      obtain ⟨names, hp⟩ : ∃ names, Run.pending first second = v.name :: names := by
        rw [← List.head?_eq_some_iff, ← Run.map_name_candidate, hv]
        rfl
      rw [Run.pending_bind first second hp domain] at ih
      rw [hp]
      right
      rcases ih with rfl | hlt
      · simp
      · rw [List.length_cons, List.length_cons]
        omega
  | app hf hs => exact .inl (hnil (by rw [hf, hs]; rfl))
  | fn => exact .inl (hnil rfl)
  | var hc | truth hc | falsity hc | zero hc | unary _ hc | cond hc | bracketed hc =>
      exact .inl (hnil (by rw [hc]; rfl))

/-- **An open expression without mismatch is derived by binding all its names** at the types
they were declared with. -/
theorem Derives.exists_exactSpine (h : Derives signature e.run [] expected inner p)
    (he : e.Splittable) (hv : ∀ v ∈ e.occurrences, v.abstracted = false)
    (hm : p.hasMismatch = false) :
    ∃ bs result body, ExactSpine signature e expected inner p bs result body := by
  obtain ⟨bs, result, body, hnames, htypes, henough, hbody, rfl⟩ :=
    h.exists_spine h.pending_length
  have hfits := hasMismatch_spine.1 hm
  have hnone := (Run.candidate_eq_none_of_pending (Run.pending_bind_eq_nil _ _ hnames)).1
  rw [← Expr.run_bind] at hbody hnone
  obtain ⟨hl, hgrounded⟩ := hbody.closed ((e.splittable_bind bs).2 he)
    (Expr.candidate_run_eq_none_iff.1 hnone) hfits
  refine ⟨bs, result, body, hnames, htypes, henough, hbody, hfits, rfl, hl, fun v hocc => ?_⟩
  have hbound : v.bind bs ∈ (e.bind bs).occurrences := by
    rw [Expr.occurrences_bind]
    exact List.mem_map_of_mem hocc
  obtain ⟨habstracted, A, hdeclared, hcontext⟩ := hgrounded _ hbound
  rw [Variable.declared_bind] at hdeclared
  rw [Variable.abstracted_bind, hv v hocc, Bool.false_or] at habstracted
  obtain ⟨B, hB⟩ := Option.isSome_iff_exists.1 habstracted
  rw [Variable.bind, hB] at hcontext
  obtain rfl := Option.some.inj hcontext
  exact ⟨B, hdeclared, hB⟩

namespace ExactSpine

variable {bs : Bindings}

/-- The abstractions use up the expected type but for its last entry. -/
theorem map_snd_eq (h : ExactSpine signature e expected inner p bs result body) :
    bs.map (·.2) = expected.dropLast := by
  obtain ⟨-, rfl, henough, -, -, -, hl, -⟩ := h
  rcases result with _ | ⟨B, _ | ⟨_, _⟩⟩
  · obtain rfl := henough.resolve_right (not_not_intro rfl)
    rfl
  · rw [List.dropLast_concat]
  · simp only [List.length_cons] at hl
    omega

/-- **The domains of an expression without mismatch are the expected types** but for the
last entry. -/
theorem domains_eq (h : ExactSpine signature e expected inner p bs result body)
    (hv : ∀ v ∈ e.occurrences, v.abstracted = false) :
    e.domains = expected.dropLast.map some := by
  have hnames := h.names
  rw [Expr.pending_run_eq hv] at hnames
  have hnodup := Run.nodup_map_name_firstByName e.scope
  have hdeclared : ∀ v ∈ Run.firstByName e.scope, v.declared = bs.find? v.name := by
    intro v hfirst
    obtain ⟨A, hA, hfind⟩ := h.declared v (e.scope_subset (Run.mem_of_mem_firstByName hfirst))
    rw [hA, hfind]
  have hfind : ∀ b ∈ bs, bs.find? b.1 = some b.2 := by
    rw [hnames] at hnodup
    exact fun b hb => Bindings.find?_eq_some_of_mem hnodup hb
  calc e.domains = (Run.firstByName e.scope).map fun v => bs.find? v.name :=
        List.map_congr_left hdeclared
    _ = ((Run.firstByName e.scope).map (·.name)).map bs.find? := by rw [List.map_map]; rfl
    _ = bs.map fun b => bs.find? b.1 := by rw [hnames, List.map_map]; rfl
    _ = (bs.map (·.2)).map some := by rw [List.map_congr_left hfind, List.map_map]; rfl
    _ = expected.dropLast.map some := by rw [h.map_snd_eq]

end ExactSpine
end Lambda
end TypeDeduction

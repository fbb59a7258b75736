/-
# The abstractions in front of a body

As long as names are pending, a derivation binds them, one abstraction over the
other, and takes the domains off the expected type.  What is left is a body: the
runs with all these names bound, against the rest of the type
(`derives_iff_exists_spine`).  The abstractions make a *spine*, which fits whenever
the body does and adds nothing to it but their rules, their domains and their
number of levels.
-/

import TypeDeduction.Proofs.Lambda.Derivation
import TypeDeduction.Proofs.Scope

namespace TypeDeduction
namespace Lambda

variable {signature : Option Signature} {first second : Run} {expected result : Signature}
  {inner : Bool} {p body : Proof}

/-- A body under an abstraction for each binding, the first one outermost. -/
def spine : Run → Run → Bindings → Signature → Proof → Proof
  | _, _, [], _, body => body
  | first, second, (x, A) :: bs, result, body =>
    abstractionStep first second A (A :: (bs.map (·.2) ++ result))
      (spine (first.bind [(x, A)]) (second.bind [(x, A)]) bs result body)

/-- Runs with a candidate are derived as an abstraction and in no other way. -/
theorem derives_iff_of_candidate {v : Variable}
    (hv : first.candidate.or second.candidate = some v) :
    Derives signature first second expected inner p ↔
      ∃ domain result rest body, expected = domain :: result :: rest ∧
        Derives signature (first.bind [(v.name, domain)]) (second.bind [(v.name, domain)])
          (result :: rest) false body ∧
        p = abstractionStep first second domain expected body := by
  constructor
  · intro h
    cases h with
    | abs hv' hd =>
        obtain rfl := Option.some.inj (hv.symm.trans hv')
        exact ⟨_, _, _, _, rfl, hd, rfl⟩
    | app h₁ h₂ => simp [h₁, h₂] at hv
    | fn => cases hv
    | var hc | truth hc | falsity hc | zero hc | unary _ hc | cond hc | bracketed hc =>
        simp [hc] at hv
  · rintro ⟨domain, result, rest, body, rfl, hd, rfl⟩
    exact .abs hv hd

/-- **A derivation binds all pending names and then derives the body.** -/
theorem derives_iff_exists_spine {bs : Bindings}
    (hp : Run.pending first second = bs.map (·.1)) (hr : result ≠ []) :
    Derives signature first second (bs.map (·.2) ++ result) inner p ↔
      ∃ body, Derives signature (first.bind bs) (second.bind bs) result (inner && bs.isEmpty)
        body ∧ p = spine first second bs result body := by
  induction bs generalizing first second inner p with
  | nil => simp [spine]
  | cons b bs ih =>
      obtain ⟨x, A⟩ := b
      obtain ⟨v, hv, rfl⟩ := Run.exists_candidate hp
      have htail := Run.pending_bind first second hp A
      have hbind (run : Run) : (run.bind [(v.name, A)]).bind bs = run.bind ((v.name, A) :: bs) :=
        Run.bind_bind _ _ _
      obtain ⟨r, rest, hcons⟩ : ∃ r rest, bs.map (·.2) ++ result = r :: rest :=
        List.exists_cons_of_ne_nil (by simp [hr])
      rw [List.map_cons, List.cons_append, derives_iff_of_candidate hv]
      constructor
      · rintro ⟨domain, r', rest', q, heq, hd, rfl⟩
        obtain ⟨rfl, htl⟩ := List.cons.inj heq
        rw [← htl] at hd
        obtain ⟨body, hbody, rfl⟩ := (ih htail).1 hd
        rw [hbind, hbind, Bool.false_and] at hbody
        exact ⟨body, by simpa using hbody, rfl⟩
      · rintro ⟨body, hbody, rfl⟩
        rw [List.isEmpty_cons, Bool.and_false, ← hbind, ← hbind] at hbody
        refine ⟨A, r, rest, _, by rw [hcons], ?_, rfl⟩
        rw [← hcons]
        exact (ih htail).2 ⟨body, by simpa using hbody, rfl⟩

/-- The same where no type needs to be left because no name is pending. -/
theorem derives_iff_exists_spine' {bs : Bindings}
    (hp : Run.pending first second = bs.map (·.1)) (hr : bs = [] ∨ result ≠ []) :
    Derives signature first second (bs.map (·.2) ++ result) inner p ↔
      ∃ body, Derives signature (first.bind bs) (second.bind bs) result (inner && bs.isEmpty)
        body ∧ p = spine first second bs result body := by
  rcases hr with rfl | hr
  · simp [spine]
  · exact derives_iff_exists_spine hp hr

/-! ### What a spine adds -/

variable {bs : Bindings}

/-- A spine is not flagged. -/
theorem flaggedOnly_spine {rule : Rule} (h : Rule.abs.name ≠ rule.name) :
    (spine first second bs result body).FlaggedOnly rule ↔ body.FlaggedOnly rule := by
  induction bs generalizing first second with
  | nil => rfl
  | cons b bs ih =>
      rw [spine, abstractionStep, Proof.flaggedOnly_step_of_ne rfl h]
      simp [ih]

/-- A spine names the rule for abstractions once for each binding. -/
theorem rules_spine :
    (spine first second bs result body).rules =
      List.replicate bs.length Rule.abs.name ++ body.rules := by
  induction bs generalizing first second with
  | nil => rfl
  | cons b bs ih =>
      rw [spine, abstractionStep, Proof.rules_step, List.flatMap_singleton, ih]
      rfl

/-- A spine puts its domains in front of the type of the body. -/
theorem type_spine (hb : body.type ≠ []) :
    (spine first second bs result body).type = bs.map (·.2) ++ body.type := by
  induction bs generalizing first second with
  | nil => rfl
  | cons b bs ih =>
      rw [spine, abstractionStep, Proof.type_step, ih, if_neg (by simp [hb])]
      rfl

/-- A spine needs a level for each binding. -/
theorem height_spine :
    (spine first second bs result body).height = body.height + bs.length := by
  induction bs generalizing first second with
  | nil => rfl
  | cons b bs ih =>
      rw [spine, abstractionStep, Proof.height, Proof.heightAll, Proof.heightAll, ih,
        List.length_cons]
      omega

end Lambda
end TypeDeduction

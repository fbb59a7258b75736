/-
# Where writing a tree fails

A step is written after its premises, and these are written from left to right.  So the
conclusions of a tree are come to in post-order (`Proof.conclusions`), other than its nodes,
which are listed in pre-order everywhere else.  The first conclusion that shows no type is
what the writing fails for, and nothing else can fail.

The two sides are compared as options.  Of two computations one after the other the first
one that fails counts (`refusal_bind`), and of two lists one after the other the first one
with an untyped conclusion counts (`firstRefusal_append`); so a tree is refused for the
first untyped conclusion if its premises are (`Proof.refusal_markup`).

Colours, statuses, rules and the types that are handed on do not occur among the
conclusions, which is why none of them matters.
-/

import TypeDeduction.Proof.Draft
import TypeDeduction.Proofs.Reports

namespace TypeDeduction

/-! ### Refusals -/

/-- What an outcome fails for, if it does. -/
def refusal {α : Type} : Except Failure α → Option Failure
  | .ok _ => none
  | .error f => some f

theorem refusal_eq_some_iff {α : Type} {x : Except Failure α} {f : Failure} :
    refusal x = some f ↔ x = .error f := by
  cases x <;> simp [refusal]

/-- A sequence is refused for what its first part is, or else for what its second part is
whatever the first one answers. -/
theorem refusal_bind {α β : Type} {x : Except Failure α} {f : α → Except Failure β}
    {r : Option Failure} (hf : ∀ a, refusal (f a) = r) : refusal (x >>= f) = (refusal x).or r := by
  cases x with
  | ok a => exact hf a
  | error e => rfl

theorem refusal_bind_pure {α β : Type} {x : Except Failure α} {f : α → β} :
    refusal (x >>= fun a => pure (f a)) = refusal x := by
  cases x <;> rfl

/-- What a list of judgments is refused for: the first of them that shows no type. -/
def firstRefusal (js : List Judgment) : Option Failure :=
  (js.find? (·.type = [])).map fun j => .untypedConclusion j.subject

theorem firstRefusal_append (js js' : List Judgment) :
    firstRefusal (js ++ js') = (firstRefusal js).or (firstRefusal js') := by
  rw [firstRefusal, List.find?_append, Option.map_or]
  rfl

/-- Where a list is refused, it comes apart at the first judgment that shows no type. -/
theorem exists_of_firstRefusal {js : List Judgment} {f : Failure} (h : firstRefusal js = some f) :
    ∃ before j after, js = before ++ j :: after ∧ (∀ k ∈ before, k.type ≠ []) ∧ j.type = [] ∧
      f = .untypedConclusion j.subject := by
  obtain ⟨j, hj, rfl⟩ := Option.map_eq_some_iff.1 h
  obtain ⟨hnil, before, after, rfl, hbefore⟩ := List.find?_eq_some_iff_append.1 hj
  exact ⟨before, j, after, rfl, by simpa using hbefore, by simpa using hnil, rfl⟩

theorem Judgment.refusal_markup (j : Judgment) : refusal j.markup = firstRefusal [j] := by
  rw [markup, firstRefusal]
  by_cases h : j.type = [] <;> simp [h, refusal]

theorem Inference.refusal_markup (s : Settings) (i : Inference) (above : List String) :
    refusal (i.markup s above) = firstRefusal [i.conclusion] := by
  rw [markup, refusal_bind_pure, Judgment.refusal_markup]

/-! ### The conclusions in the order of writing -/

namespace Proof

mutual

/-- The conclusions of a tree in post-order: those of the premises from left to right, then
that of the step. -/
def conclusions : Proof → List Judgment
  | .step i ps => conclusionsAll ps ++ [i.conclusion]
  | .lookup _ => []

/-- The conclusions of several trees, one tree after the other. -/
def conclusionsAll : List Proof → List Judgment
  | [] => []
  | p :: ps => conclusions p ++ conclusionsAll ps

end

mutual

/-- **A tree is refused for the first of its conclusions that shows no type.** -/
theorem refusal_markup (s : Settings) : ∀ p : Proof,
    refusal (p.markup s) = firstRefusal p.conclusions
  | .step i ps => by
      rw [markup, conclusions, firstRefusal_append, ← refusal_markupAll s ps]
      exact refusal_bind fun above => i.refusal_markup s above
  | .lookup _ => rfl

theorem refusal_markupAll (s : Settings) : ∀ ps : List Proof,
    refusal (markupAll s ps) = firstRefusal (conclusionsAll ps)
  | [] => rfl
  | p :: ps => by
      rw [markupAll, conclusionsAll, firstRefusal_append, ← refusal_markup s p,
        ← refusal_markupAll s ps]
      exact refusal_bind fun first => refusal_bind_pure

end

end Proof

/-! ### Drafts -/

namespace Draft

mutual

/-- A draft without alien values is written as the proof that it is. -/
theorem markup_of_toProof? (s : Settings) : ∀ (d : Draft) {p : Proof}, d.toProof? = some p →
    d.markup s = (p.markup s).mapError .failure
  | .step i ds, p, h => by
      obtain ⟨ps, hps, hp⟩ := Option.bind_eq_some_iff.1 h
      obtain rfl := Option.some.inj hp
      rw [markup, markupAll_of_toProofs? s ds hps, Proof.markup]
      cases Proof.markupAll s ps <;> rfl
  | .lookup _, p, h => by
      obtain rfl := Option.some.inj h
      rfl
  | .alien _, _, h => by cases h

theorem markupAll_of_toProofs? (s : Settings) : ∀ (ds : List Draft) {ps : List Proof},
    toProofs? ds = some ps → markupAll s ds = (Proof.markupAll s ps).mapError .failure
  | [], ps, h => by
      obtain rfl := Option.some.inj h
      rfl
  | d :: ds, ps, h => by
      obtain ⟨p, hp, h⟩ := Option.bind_eq_some_iff.1 h
      obtain ⟨qs, hqs, h⟩ := Option.bind_eq_some_iff.1 h
      obtain rfl := Option.some.inj h
      rw [markupAll, markup_of_toProof? s d hp, markupAll_of_toProofs? s ds hqs, Proof.markupAll]
      cases p.markup s with
      | error f => rfl
      | ok first => cases Proof.markupAll s qs <;> rfl

end

end Draft

/-! ### Rendering -/

/-- **Writing a tree fails exactly at the first conclusion in post-order that shows no
type.**  A tree can be written if all its conclusions show a type.  Otherwise its
conclusions come apart at the first one that shows none, and the writing fails with the code
for a missing type and the subject of that conclusion.  Nothing else plays a part: a tree
with the same conclusions, under any settings, can be written just as well or fails alike.
All this is true of drafts without alien values as well. -/
theorem markup_fails_at_first_untyped (s : Settings) (p : Proof) :
    ((∃ text, p.markup s = .ok text) ↔ p.Typed) ∧
      (¬ p.Typed → ∃ before j after, p.conclusions = before ++ j :: after ∧
        (∀ k ∈ before, k.type ≠ []) ∧ j.type = [] ∧
        ∃ f, p.markup s = .error f ∧
          f.alert = ⟨Code.expressionType, some (" ".intercalate j.subject)⟩) ∧
      (∀ (s' : Settings) (q : Proof), q.conclusions = p.conclusions →
        refusal (q.markup s') = refusal (p.markup s)) ∧
      ∀ d : Draft, d.toProof? = some p → d.markup s = (p.markup s).mapError .failure := by
  refine ⟨Proof.exists_markup_iff_typed, fun h => ?_, fun s' q hq => ?_, fun d hd => ?_⟩
  · cases hp : p.markup s with
    | ok text => exact absurd (Proof.exists_markup_iff_typed.1 ⟨text, hp⟩) h
    | error f =>
        have hfirst := p.refusal_markup s
        rw [refusal_eq_some_iff.2 hp] at hfirst
        obtain ⟨before, j, after, hcon, hbefore, hj, rfl⟩ := exists_of_firstRefusal hfirst.symm
        exact ⟨before, j, after, hcon, hbefore, hj, _, rfl, rfl⟩
  · rw [q.refusal_markup, p.refusal_markup, hq]
  · exact d.markup_of_toProof? s hd

/-- A tree about `succ ( f x )` in which only the variables show a type.  In pre-order the
root would be the first that shows none. -/
def openSuccessor : Proof :=
  let x : Proof := .step ⟨Rule.var.name, { subject := ["x"], type := .nat }, .nat, .exact⟩
    [.lookup { name := "x", type := .nat, status := .mismatched }]
  let f : Proof := .step ⟨Rule.var.name, { subject := ["f"], type := [.nat, .nat] }, [], .exact⟩ []
  let fx : Proof := .step ⟨Rule.app.name, { subject := ["f", "x"], type := [] }, [], .exact⟩ [f, x]
  let inBrackets : Proof := .step ⟨(Rule.brackets .lambda).name,
    { subject := ["(", "f", "x", ")"], type := [] }, .nat, .exact⟩ [fx]
  .step ⟨Rule.succ.name, { subject := ["succ", "(", "f", "x", ")"], type := [] }, .nat,
    .mismatched⟩ [inBrackets]

theorem markup_fails_at_openSuccessor :
    ¬ openSuccessor.Typed ∧ ∃ before j after, openSuccessor.conclusions = before ++ j :: after ∧
      (∀ k ∈ before, k.type ≠ []) ∧ j.type = [] ∧ ∃ f, openSuccessor.markup {} = .error f ∧
        f.alert = ⟨Code.expressionType, some (" ".intercalate j.subject)⟩ ∧
        f.detail = some "f x" := by
  have hopen : ¬ openSuccessor.Typed := fun h => (Proof.typed_step.1 h).1 rfl
  obtain ⟨before, j, after, hcon, hbefore, hj, f, hf, halert⟩ :=
    (markup_fails_at_first_untyped {} openSuccessor).2.1 hopen
  refine ⟨hopen, before, j, after, hcon, hbefore, hj, f, hf, halert, ?_⟩
  obtain rfl := Except.error.inj hf
  rfl

end TypeDeduction

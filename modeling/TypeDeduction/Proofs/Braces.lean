/-
# Written trees have well-nested braces

In LaTeX a group stands between braces, and a brace that nothing closes spoils the whole
page.  Of all that a written tree consists of, only fractions add braces, and they enclose
by them what is written before: the premises in one group and the conclusion in another.
Every other text comes from the tree itself, its rule names, turnstiles, binders, subjects
and looked-up names (`Proof.texts`), or is one of the colour marks.  So the braces of the
whole are well nested if those of these texts are (`Proof.braced_markup`).

A derivation makes no texts of its own but the names of rules and turnstiles.  All others
are tokens of its runs (`Arithmetic.Derives.forall_texts`, `Lambda.Derives.forall_texts`),
and of these only variables can have a brace.
-/

import TypeDeduction.Proofs.Decoration
import TypeDeduction.Proofs.Lambda.Scoping

namespace TypeDeduction

/-! ### Braced texts -/

/-- Every brace of the text has its partner: the whole text closes all it opens, and no part
from the start closes more than it opens. -/
def Braced (text : String) : Prop :=
  text.toList.count '}' = text.toList.count '{' ∧
    ∀ n, (text.toList.take n).count '}' ≤ (text.toList.take n).count '{'

/-- It is enough to look at the parts that are shorter than the text. -/
theorem braced_iff {text : String} :
    Braced text ↔ text.toList.count '}' = text.toList.count '{' ∧
      ∀ n < text.toList.length, (text.toList.take n).count '}' ≤ (text.toList.take n).count '{' := by
  refine and_congr_right fun htotal => ⟨fun h n _ => h n, fun h n => ?_⟩
  by_cases hn : n < text.toList.length
  · exact h n hn
  · rw [List.take_of_length_le (Nat.le_of_not_lt hn), htotal]

instance (text : String) : Decidable (Braced text) := decidable_of_iff' _ braced_iff

namespace Braced

variable {a b : String}

theorem append (ha : Braced a) (hb : Braced b) : Braced (a ++ b) := by
  refine ⟨?_, fun n => ?_⟩
  · rw [String.toList_append, List.count_append, List.count_append, ha.1, hb.1]
  · rw [String.toList_append, List.take_append, List.count_append, List.count_append]
    exact Nat.add_le_add (ha.2 n) (hb.2 _)

/-- A pair of braces may be put around. -/
theorem enclosed (ha : Braced a) : Braced ("\x7b" ++ a ++ "\x7d") := by
  have hlist : ("\x7b" ++ a ++ "\x7d").toList = '{' :: (a.toList ++ ['}']) := by
    rw [String.toList_append, String.toList_append]
    rfl
  refine ⟨?_, fun n => ?_⟩
  · rw [hlist, List.count_cons, List.count_cons, List.count_append, List.count_append, ha.1]
    rfl
  · rw [hlist]
    cases n with
    | zero => exact Nat.le_refl 0
    | succ n =>
        -- The brace in front makes up for the one at the end.
        have hlast : (['}'].take (n - a.toList.length)).count '}' ≤ 1 :=
          List.count_le_length.trans (List.length_take_le' _ _)
        have hinside := ha.2 n
        rw [List.take_succ_cons, List.take_append, List.count_cons_self,
          List.count_cons_of_ne (by decide), List.count_append, List.count_append]
        omega

theorem intercalate (ha : Braced a) {texts : List String} (h : ∀ t ∈ texts, Braced t) :
    Braced (a.intercalate texts) := by
  induction texts with
  | nil =>
      rw [String.intercalate_nil]
      decide
  | cons first rest ih =>
      obtain ⟨hfirst, hrest⟩ := List.forall_mem_cons.1 h
      cases rest with
      | nil => simpa using hfirst
      | cons second others =>
          rw [String.intercalate_cons_cons]
          exact (hfirst.append ha).append (ih hrest)

theorem join {texts : List String} (h : ∀ t ∈ texts, Braced t) : Braced (String.join texts) := by
  induction texts with
  | nil => decide
  | cons first rest ih =>
      obtain ⟨hfirst, hrest⟩ := List.forall_mem_cons.1 h
      rw [String.join_cons]
      exact hfirst.append (ih hrest)

/-- Colour marks that are braced keep a text so. -/
theorem mark (ha : Braced a) {s : Settings} (herror : Braced s.errorColor)
    (hreset : Braced s.resetColor) (status : Status) : Braced (s.mark status a) := by
  cases status with
  | exact => exact ha
  | mismatched => exact (herror.append ha).append hreset

end Braced

/-! ### Texts of a tree -/

/-- The texts that a judgment is written with, apart from its types. -/
def Judgment.texts (j : Judgment) : List String := j.turnstile :: (j.binders.map (·.1) ++ j.subject)

/-- The texts that a node is written with, apart from its types. -/
def Proof.Node.texts : Proof.Node → List String
  | .inference i => i.rule :: i.conclusion.texts
  | .lookup l => [l.name]

/-- The texts that a tree is written with, apart from its types. -/
def Proof.texts (p : Proof) : List String := p.nodes.flatMap Proof.Node.texts

theorem Proof.forall_texts_step {P : String → Prop} {i : Inference} {ps : List Proof} :
    (∀ t ∈ (Proof.step i ps).texts, P t) ↔
      (P i.rule ∧ ∀ t ∈ i.conclusion.texts, P t) ∧ ∀ q ∈ ps, ∀ t ∈ q.texts, P t := by
  simp only [texts, List.forall_mem_flatMap]
  rw [forall_nodes_step, Node.texts, List.forall_mem_cons]

theorem Proof.forall_texts_lookup {P : String → Prop} {l : Lookup} :
    (∀ t ∈ (Proof.lookup l).texts, P t) ↔ P l.name := by
  simp [texts, nodes, Node.texts]

/-! ### Written trees -/

theorem Signature.braced_markup (type : Signature) : Braced type.markup := by
  refine .intercalate (by decide) ?_
  rw [List.forall_mem_map]
  intro A _
  cases A <;> decide

theorem braced_gap : Braced gap := by decide

theorem Judgment.braced_binderMarkup {b : String × BaseType} (h : Braced b.1) :
    Braced (binderMarkup b) := by
  have htype : Braced b.2.name := by cases b.2 <;> decide
  have hlambda : Braced "\\lambda " := by decide
  have hcolon : Braced ":" := by decide
  have hdot : Braced ". " := by decide
  exact (((hlambda.append h).append hcolon).append htype).append hdot

theorem Judgment.braced_markup {j : Judgment} {text : String} (h : ∀ t ∈ j.texts, Braced t)
    (hj : j.markup = .ok text) : Braced text := by
  rw [texts, List.forall_mem_cons, List.forall_mem_append, List.forall_mem_map] at h
  obtain ⟨hturnstile, hbinders, hsubject⟩ := h
  rw [markup] at hj
  split at hj
  · cases hj
  · obtain rfl := Except.ok.inj hj
    have hlambdas : Braced (String.join (j.binders.map binderMarkup)) := by
      refine .join ?_
      rw [List.forall_mem_map]
      exact fun b hb => braced_binderMarkup (hbinders b hb)
    have hcolon : Braced " : " := by decide
    exact (((hturnstile.append hlambdas).append (braced_gap.intercalate hsubject)).append
      hcolon).append j.type.braced_markup

theorem Lookup.braced_markup {l : Lookup} (h : Braced l.name) : Braced l.markup := by
  have hcolon : Braced " : " := by decide
  have hcontext : Braced " \\in \\Gamma" := by decide
  exact ((h.append hcolon).append l.type.braced_markup).append hcontext

/-- A fraction groups its premises and its conclusion by braces of its own. -/
theorem Inference.braced_fraction {i : Inference} {above : List String} {below : String}
    (hrule : Braced i.rule) (habove : ∀ t ∈ above, Braced t) (hbelow : Braced below) :
    Braced (i.fraction above below) := by
  have hgroups : i.fraction above below =
      "\\dfrac" ++ ("\x7b" ++ gap.intercalate above ++ "\x7d") ++ ("\x7b" ++ below ++ "\x7d") ++
        " (" ++ i.rule ++ ")" := by
    have hopen : "\\dfrac\x7b" = "\\dfrac" ++ "\x7b" := rfl
    have hmiddle : "\x7d\x7b" = "\x7d" ++ "\x7b" := rfl
    have hclose : "\x7d (" = "\x7d" ++ " (" := rfl
    rw [fraction, hopen, hmiddle, hclose]
    simp only [String.append_assoc]
  have hfraction : Braced "\\dfrac" := by decide
  have hleft : Braced " (" := by decide
  have hright : Braced ")" := by decide
  rw [hgroups]
  exact ((((hfraction.append (braced_gap.intercalate habove).enclosed).append
    hbelow.enclosed).append hleft).append hrule).append hright

namespace Proof

variable {s : Settings}

mutual

/-- **A written tree is braced if its texts and the colours are.** -/
theorem braced_markup (herror : Braced s.errorColor) (hreset : Braced s.resetColor) :
    ∀ (p : Proof) {text : String}, (∀ t ∈ p.texts, Braced t) → p.markup s = .ok text → Braced text
  | .step i ps, text, h, hp => by
      obtain ⟨⟨hrule, hconclusion⟩, hps⟩ := forall_texts_step.1 h
      obtain ⟨above, below, habove, hbelow, rfl⟩ := markup_step_eq_ok_iff.1 hp
      have hpremises := braced_markupAll herror hreset ps hps habove
      have hbraced := Judgment.braced_markup hconclusion hbelow
      exact (Inference.braced_fraction hrule hpremises hbraced).mark herror hreset i.status
  | .lookup l, text, h, hp => by
      obtain rfl := Except.ok.inj hp
      exact (Lookup.braced_markup (forall_texts_lookup.1 h)).mark herror hreset l.status

theorem braced_markupAll (herror : Braced s.errorColor) (hreset : Braced s.resetColor) :
    ∀ (ps : List Proof) {texts : List String}, (∀ q ∈ ps, ∀ t ∈ q.texts, Braced t) →
      markupAll s ps = .ok texts → ∀ t ∈ texts, Braced t
  | [], texts, _, hps => by
      obtain rfl := Except.ok.inj hps
      exact List.forall_mem_nil _
  | p :: ps, texts, h, hps => by
      obtain ⟨hp, hrest⟩ := List.forall_mem_cons.1 h
      obtain ⟨first, rest, hfirst, hothers, rfl⟩ := markupAll_cons_eq_ok_iff.1 hps
      exact List.forall_mem_cons.2 ⟨braced_markup herror hreset p hp hfirst,
        braced_markupAll herror hreset ps hrest hothers⟩

end

end Proof

/-! ### Texts of a derivation -/

/-- The names of rules have no braces. -/
theorem Rule.braced_name (r : Rule) : Braced r.name := by
  cases r with
  | brackets calculus => cases calculus <;> decide
  | _ => decide

theorem Presentation.braced_turnstile (style : Presentation) : Braced style.turnstile := by
  cases style <;> decide

theorem braced_contextTurnstile : Braced contextTurnstile := by decide

/-- Of the tokens of a run only variables can have a brace. -/
theorem Run.braced_subject {run : Run} (h : ∀ v, Token.var v ∈ run → Braced v.name) :
    ∀ t ∈ run.subject, Braced t := by
  rw [subject, List.forall_mem_map]
  intro t ht
  cases t with
  | word w => cases w <;> decide
  | ascription A => cases A <;> decide
  | var v => exact h v ht
  | fn => decide

section Derivations

variable {P : String → Prop} {expected : Signature} {inner : Bool} {p : Proof}

/-- **The texts of an arithmetic tree are rule names, the turnstile and tokens of the run.** -/
theorem Arithmetic.Derives.forall_texts {style : Presentation} {run : Run}
    (h : Derives style run expected inner p) (hrule : ∀ r : Rule, P r.name)
    (hturnstile : P style.turnstile) (hrun : ∀ t ∈ run.subject, P t) : ∀ t ∈ p.texts, P t := by
  have hconclude {run : Run} (hrun : ∀ t ∈ run.subject, P t) (type : Signature) :
      ∀ t ∈ (conclude style run type).texts, P t :=
    List.forall_mem_cons.2 ⟨hturnstile, hrun⟩
  induction h with
  | truth => exact Proof.forall_texts_step.2 ⟨⟨hrule .truth, hconclude hrun _⟩, by simp⟩
  | falsity => exact Proof.forall_texts_step.2 ⟨⟨hrule .falsity, hconclude hrun _⟩, by simp⟩
  | zero => exact Proof.forall_texts_step.2 ⟨⟨hrule .zero, hconclude hrun _⟩, by simp⟩
  | @unary op _ _ _ q _ ih =>
      have hq : ∀ r ∈ [q], ∀ t ∈ r.texts, P t :=
        List.forall_mem_singleton.2 (ih (List.forall_mem_cons.1 hrun).2)
      have hop := hrule op.rule
      cases op <;> exact Proof.forall_texts_step.2 ⟨⟨hop, hconclude hrun _⟩, hq⟩
  | cond hs _ _ _ _ ihc iht ihr =>
      obtain ⟨hsc, hst, hsr⟩ := Conditional.subset_of_split hs
      refine Proof.forall_texts_step.2 ⟨⟨hrule .cond, hconclude hrun _⟩, ?_⟩
      rw [List.forall_mem_cons, List.forall_mem_cons, List.forall_mem_singleton]
      exact ⟨ihc fun t ht => hrun t (List.map_subset _ hsc ht),
        iht fun t ht => hrun t (List.map_subset _ hst ht),
        ihr fun t ht => hrun t (List.map_subset _ hsr ht)⟩
  | @bracketed a b _ _ _ _ _ ih =>
      have hq := ih fun t ht => hrun t (List.map_subset _ (Run.subset_bracketed a b) ht)
      exact Proof.forall_texts_step.2
        ⟨⟨hrule (.brackets .arithmetic), hconclude hrun _⟩, List.forall_mem_singleton.2 hq⟩

/-- What a conclusion lists as binders are names of tokens. -/
theorem Run.mem_subject_of_binders {run : Run} {x : String} (h : x ∈ run.binders.map (·.1)) :
    x ∈ run.subject := by
  obtain ⟨v, hv, -, rfl⟩ := mem_openNames.1 (mem_openNames_of_binders h)
  exact List.mem_map_of_mem hv

/-- A step over the lookup of a name has that name besides its rule and the turnstile. -/
theorem Lambda.forall_texts_lookedUp {i : Inference} {l : Lookup} (hrule : P i.rule)
    (hi : i.conclusion.texts = [contextTurnstile, l.name]) (hturnstile : P contextTurnstile)
    (hname : P l.name) : ∀ t ∈ (Proof.step i [.lookup l]).texts, P t := by
  rw [Proof.forall_texts_step, hi, List.forall_mem_cons, List.forall_mem_singleton,
    List.forall_mem_singleton, Proof.forall_texts_lookup]
  exact ⟨⟨hrule, hturnstile, hname⟩, hname⟩

/-- **The texts of a lambda tree are rule names, the turnstile and tokens of the runs.** -/
theorem Lambda.Derives.forall_texts {signature : Option Signature} {first second : Run}
    (h : Derives signature first second expected inner p) (hrule : ∀ r : Rule, P r.name)
    (hturnstile : P contextTurnstile) (hrun : ∀ t ∈ (first ++ second).subject, P t) :
    ∀ t ∈ p.texts, P t := by
  have hconclude {run : Run} (hrun : ∀ t ∈ run.subject, P t) (type : Signature) :
      ∀ t ∈ (conclude run type).texts, P t := by
    refine List.forall_mem_cons.2 ⟨hturnstile, List.forall_mem_append.2 ⟨fun t ht => ?_, hrun⟩⟩
    exact hrun t (Run.mem_subject_of_binders ht)
  have hpart {part run : Run} (hrun : ∀ t ∈ run.subject, P t) (hp : part ⊆ run) :
      ∀ t ∈ part.subject, P t := fun t ht => hrun t (List.map_subset _ hp ht)
  induction h with
  | @abs first second domain _ _ _ v _ _ _ ih =>
      refine Proof.forall_texts_step.2 ⟨⟨hrule .abs, hconclude hrun _⟩, ?_⟩
      rw [List.forall_mem_singleton]
      refine ih ?_
      rw [← Run.bind_append, Run.subject_bind]
      exact hrun
  | app _ _ _ _ _ iha ihf =>
      refine Proof.forall_texts_step.2 ⟨⟨hrule .app, hconclude hrun _⟩, ?_⟩
      rw [List.forall_mem_cons, List.forall_mem_singleton]
      exact ⟨ihf (hpart hrun (by simp)), iha (hpart hrun (by simp))⟩
  | var | fn =>
      exact forall_texts_lookedUp (hrule .var) rfl hturnstile (hrun _ List.mem_cons_self)
  | truth =>
      rw [List.append_nil] at hrun
      exact Proof.forall_texts_step.2 ⟨⟨hrule .truth, hconclude hrun _⟩, by simp⟩
  | falsity =>
      rw [List.append_nil] at hrun
      exact Proof.forall_texts_step.2 ⟨⟨hrule .falsity, hconclude hrun _⟩, by simp⟩
  | zero =>
      rw [List.append_nil] at hrun
      exact Proof.forall_texts_step.2 ⟨⟨hrule .zero, hconclude hrun _⟩, by simp⟩
  | @unary op _ rest _ _ q _ _ _ ih =>
      rw [List.append_nil] at hrun ih
      have hq : ∀ r ∈ [q], ∀ t ∈ r.texts, P t :=
        List.forall_mem_singleton.2 (ih (List.forall_mem_cons.1 hrun).2)
      have hop := hrule op.rule
      cases op <;> exact Proof.forall_texts_step.2 ⟨⟨hop, hconclude hrun _⟩, hq⟩
  | cond _ hs _ _ _ _ ihc iht ihr =>
      rw [List.append_nil] at hrun ihc iht ihr
      obtain ⟨hsc, hst, hsr⟩ := Conditional.subset_of_split hs
      refine Proof.forall_texts_step.2 ⟨⟨hrule .cond, hconclude hrun _⟩, ?_⟩
      rw [List.forall_mem_cons, List.forall_mem_cons, List.forall_mem_singleton]
      exact ⟨ihc (hpart hrun hsc), iht (hpart hrun hst), ihr (hpart hrun hsr)⟩
  | @bracketed a b _ _ _ _ _ hr _ _ _ ih =>
      subst hr
      rw [List.append_nil] at hrun ih
      have hq := ih (hpart hrun (Run.subset_bracketed a b))
      exact Proof.forall_texts_step.2
        ⟨⟨hrule (.brackets .lambda), hconclude hrun _⟩, List.forall_mem_singleton.2 hq⟩

end Derivations

/-! ### Reports -/

/-- A report is braced if the texts of its tree and the colours are; a blank one is anyway. -/
theorem Report.braced_ofTraced {s : Settings} (herror : Braced s.errorColor)
    (hreset : Braced s.resetColor) {x : Traced Proof}
    (h : ∀ p, x.outcome = .ok p → ∀ t ∈ p.texts, Braced t) : Braced (ofTraced s x).proof := by
  have hblank : Braced " " := by decide
  cases ho : x.outcome with
  | error f =>
      rw [ofTraced_of_error ho]
      exact hblank
  | ok p =>
      cases hp : p.markup s with
      | error f =>
          rw [ofTraced_of_unwritten ho hp]
          exact hblank
      | ok text =>
          rw [ofTraced_of_written ho hp]
          exact p.braced_markup herror hreset (h p ho) hp

/-- **Written trees have well-nested braces**, under settings whose colours do.  A tree whose
rule names, turnstiles, binders, subjects and looked-up names are braced is written as a
braced text, and so is whatever a derivation in either calculus reports, if the names of the
variables in its runs are braced. -/
theorem written_braces_nest {s : Settings} (herror : Braced s.errorColor)
    (hreset : Braced s.resetColor) :
    (∀ (p : Proof) text, (∀ t ∈ p.texts, Braced t) → p.markup s = .ok text → Braced text) ∧
      (∀ style (run : Run) expected, (∀ v, Token.var v ∈ run → Braced v.name) →
        Braced (Arithmetic.report s style run expected).proof) ∧
      ∀ signature (first second : Run) expected inner,
        (∀ v, Token.var v ∈ first ++ second → Braced v.name) →
        Braced (Lambda.report s signature first second expected inner).proof := by
  refine ⟨fun p text h => p.braced_markup herror hreset h, fun style run expected h => ?_,
    fun signature first second expected inner h => ?_⟩
  · refine Report.braced_ofTraced herror hreset fun p hp => ?_
    exact (Arithmetic.derive_eq_ok_iff.1 hp).1.forall_texts Rule.braced_name
      style.braced_turnstile (Run.braced_subject h)
  · refine Report.braced_ofTraced herror hreset fun p hp => ?_
    exact (Lambda.derive_eq_ok_iff.1 hp).1.forall_texts Rule.braced_name
      braced_contextTurnstile (Run.braced_subject h)

/-- The run `iszero x_{1}` of a variable that is declared as a `Bool`. -/
def subscriptedOperand : Run :=
  [.word .iszero, .var { name := "x_\x7b1\x7d", declared := some .bool }]

/-- With the colours that are set by default, a tree with two flags is written as a braced
text, and so are the reports of `succ true` in arithmetic and of `iszero x_{1}`, which both
have a tree. -/
theorem written_braces_nest_at_subscript :
    (∃ text, flaggedSuccessor.markup {} = .ok text ∧ Braced text) ∧
      (Arithmetic.report {} .sequent [.word .succ, .word .truth] .nat).failed = false ∧
      Braced (Arithmetic.report {} .sequent [.word .succ, .word .truth] .nat).proof ∧
      (Lambda.report {} none subscriptedOperand [] [.nat, .bool] false).failed = false ∧
      Braced (Lambda.report {} none subscriptedOperand [] [.nat, .bool] false).proof := by
  have hcolours : Braced (Settings.errorColor {}) ∧ Braced (Settings.resetColor {}) := by decide
  obtain ⟨htree, harithmetic, hlambda⟩ := written_braces_nest hcolours.1 hcolours.2
  have htexts : ∀ t ∈ flaggedSuccessor.texts, Braced t := by decide
  have hnames : ∀ v, Token.var v ∈ subscriptedOperand ++ [] → Braced v.name := by
    intro v hv
    obtain rfl : v = { name := "x_\x7b1\x7d", declared := some .bool } := by
      simpa [subscriptedOperand] using hv
    decide
  refine ⟨⟨_, rfl, htree flaggedSuccessor _ htexts rfl⟩, rfl, ?_, rfl, ?_⟩
  · exact harithmetic .sequent _ .nat fun v hv => by simp at hv
  · exact hlambda none subscriptedOperand [] [.nat, .bool] false hnames

end TypeDeduction

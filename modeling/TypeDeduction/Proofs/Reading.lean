/-
# How a run is read

A derivation does not parse its run, but its rules, one after the other, read an
expression off it: `Reads calculus run e`.  On the flat form of a splittable
expression that is the expression itself (`reads_run`), and no run is read as two
expressions (`Reads.unique`).  Other runs are read too, for two reasons.

* The axiom for a literal looks at the first token alone, so any tokens may
  follow: `true true` reads as `true`.  In arithmetic their brackets have to
  balance.
* Brackets are taken off from both ends, so what follows the last right bracket
  moves inside: `( succ ) 0` reads as `( succ 0 )`.

A run is never shorter than the flat form of what it is read as
(`Reads.length_run_le`), and it is that flat form exactly if its parts are and no
tokens are left over (`Reads.cond_eq_run_iff`, `Run.bracketed_eq_run_iff`).  On a
flat form the reading cannot go wrong, whether the expression is splittable or not:
what is cut out of it too early is not read as anything (`Reads.not_of_cut`), so if
the whole is read, it is read as the expression (`Reads.eq_of_run`).
-/

import TypeDeduction.Proofs.Brackets
import TypeDeduction.Proofs.Clauses

namespace TypeDeduction

/-- The rules of the calculus read the run as the expression. -/
inductive Reads (calculus : Calculus) : Run → Expr → Prop where
  | truth {rest : Run} (hb : calculus = .arithmetic → rest.balance = 0) :
      Reads calculus (.word .truth :: rest) .truth
  | falsity {rest : Run} (hb : calculus = .arithmetic → rest.balance = 0) :
      Reads calculus (.word .falsity :: rest) .falsity
  | zero {rest : Run} (hb : calculus = .arithmetic → rest.balance = 0) :
      Reads calculus (.word .zero :: rest) .zero
  | var {v : Variable} {rest : Run} (hc : calculus = .lambda) :
      Reads calculus (.var v :: rest) (.var v)
  | unary {op : UnaryOp} {w : Word} {rest : Run} {e : Expr} (hw : w = op.word)
      (operand : Reads calculus rest e) : Reads calculus (.word w :: rest) (.unary op e)
  | cond {rest : Run} {parts : Conditional} {c t r : Expr}
      (split : Conditional.split (.cond :: rest) = .ok parts)
      (condition : Reads calculus parts.condition.run c)
      (thenBranch : Reads calculus parts.thenBranch.run t)
      (elseBranch : Reads calculus parts.elseBranch.run r) :
      Reads calculus (.cond :: rest) (.cond c t r)
  | bracketed {a b rest : Run} {e : Expr} (hr : rest = a ++ .rparen :: b)
      (last : Token.rparen ∉ b) (hb : (a ++ b).balance = 0) (inside : Reads calculus (a ++ b) e) :
      Reads calculus (.lparen :: rest) (.bracketed e)

variable {calculus : Calculus} {run : Run} {e : Expr}

/-- **The flat form of a splittable expression is read as the expression**, in
arithmetic if it has no variables. -/
theorem reads_run (hs : e.Splittable) (hv : calculus = .arithmetic → e.occurrences = []) :
    Reads calculus e.run e := by
  induction e with
  | truth => exact .truth fun _ => rfl
  | falsity => exact .falsity fun _ => rfl
  | zero => exact .zero fun _ => rfl
  | var v =>
      refine .var ?_
      cases calculus with
      | arithmetic => exact absurd (hv rfl) (List.cons_ne_nil _ _)
      | lambda => rfl
  | unary op e ih => exact .unary rfl (ih hs hv)
  | cond c t r ihc iht ihr =>
      obtain ⟨hc, ht, hsc, hst, hsr⟩ := hs
      simp only [Expr.occurrences, List.append_eq_nil_iff] at hv
      exact .cond (Conditional.split_run r hc ht) (ihc hsc fun h => (hv h).1)
        (iht hst fun h => (hv h).2.1) (ihr hsr fun h => (hv h).2.2)
  | bracketed e ih =>
      refine .bracketed rfl List.not_mem_nil ?_ ?_
      · rw [List.append_nil, e.balance_run]
      · rw [List.append_nil]
        exact ih hs hv

namespace Reads

theorem ne_nil (h : Reads calculus run e) : run ≠ [] := by
  cases h <;> exact List.cons_ne_nil _ _

/-- The word of an operator is read as the operator. -/
theorem of_unary {op : UnaryOp} {rest : Run} (h : Reads calculus (.word op.word :: rest) e) :
    ∃ e', e = .unary op e' ∧ Reads calculus rest e' := by
  cases op <;> cases h with
  | @unary op' _ _ e' hw h => cases op' <;> first | exact ⟨e', rfl, h⟩ | cases hw

/-- **No run is read as two expressions.** -/
theorem unique {e' : Expr} (h : Reads calculus run e) (h' : Reads calculus run e') : e = e' := by
  induction h generalizing e' with
  | truth | falsity | zero =>
      cases h' with
      | @unary op _ _ _ hw => cases op <;> cases hw
      | _ => rfl
  | var => cases h'; rfl
  | unary hw _ ih =>
      subst hw
      obtain ⟨e', rfl, hop⟩ := h'.of_unary
      rw [ih hop]
  | cond hs _ _ _ ihc iht ihr =>
      cases h' with
      | @unary op _ _ _ hw => cases op <;> cases hw
      | cond hs' hc ht hr =>
          obtain rfl := Except.ok.inj (hs.symm.trans hs')
          rw [ihc hc, iht ht, ihr hr]
  | @bracketed a b _ _ hr hl _ _ ih =>
      cases h' with
      | @unary op _ _ _ hw => cases op <;> cases hw
      | @bracketed a' b' _ _ hr' hl' _ h' =>
          have hab : a' ++ b' = a ++ b := by
            rw [← Run.strip_eq_append a hl, ← Run.strip_eq_append a' hl', ← hr, ← hr']
          rw [hab] at h'
          rw [ih h']

/-- A part of a flat form that ends before a stop word inside it is not read as anything.
The induction is on the expression that is cut.  The clauses of a cut conditional are
those of the whole, or one of them is cut; inside cut brackets one of them stays open. -/
theorem not_of_cut {stop : Stop} {cut more : Run} {e' : Expr}
    (hcut : e.run = cut ++ stop.token :: more) : ¬ Reads calculus cut e' := by
  induction e generalizing stop cut more e' with
  | truth | falsity | zero | var =>
      intro h
      have hl := congrArg List.length hcut
      have hpos := List.length_pos_iff.2 h.ne_nil
      simp only [Expr.run, List.length_append, List.length_cons, List.length_nil] at hl
      omega
  | unary op e ih =>
      intro h
      obtain ⟨head, cut, rfl⟩ := List.exists_cons_of_ne_nil h.ne_nil
      rw [Expr.run, List.cons_append] at hcut
      obtain ⟨rfl, htail⟩ := List.cons.inj hcut
      obtain ⟨_, -, h⟩ := h.of_unary
      exact ih htail h
  | cond c t r ihc iht ihr =>
      intro h
      obtain ⟨head, cut, rfl⟩ := List.exists_cons_of_ne_nil h.ne_nil
      rw [Expr.run, List.cons_append] at hcut
      obtain ⟨rfl, htail⟩ := List.cons.inj hcut
      cases h with
      | @unary op _ _ _ hw => cases op <;> cases hw
      | cond hs hc ht hr =>
          rcases Conditional.split_cases hs htail.symm with ⟨a, ha⟩ | ⟨a, ha⟩ | ⟨-, -, ha⟩
          · exact ihc ha hc
          · exact iht ha ht
          · exact ihr ha.symm hr
  | bracketed e =>
      intro h
      obtain ⟨head, cut, rfl⟩ := List.exists_cons_of_ne_nil h.ne_nil
      rw [Expr.run, List.cons_append] at hcut
      obtain ⟨rfl, htail⟩ := List.cons.inj hcut
      cases h with
      | @unary op _ _ _ hw => cases op <;> cases hw
      | @bracketed a b _ _ hrun _ hb =>
          -- What is left in front of the cut closes a bracket that it does not open.
          have hclose : Run.balance cut = -1 := by
            rw [hrun, Run.balance_append, Run.balance]
            rw [Run.balance_append] at hb
            have hw : Run.weight .rparen = -1 := rfl
            omega
          have hlen : cut.length ≤ e.run.length := by
            have := congrArg List.length htail
            simp only [List.length_append, List.length_cons, List.length_nil] at this
            omega
          have hopen := e.wellNested_run.2 cut.length
          rw [← List.take_append_of_le_length hlen, htail, List.take_left, hclose] at hopen
          omega

/-- **A flat form that is read as something is read as what it is the flat form of.** -/
theorem eq_of_run {e' : Expr} (h : Reads calculus e.run e') : e' = e := by
  induction e generalizing e' with
  | truth | falsity | zero =>
      cases h with
      | @unary op _ _ _ hw => cases op <;> cases hw
      | _ => rfl
  | var => cases h; rfl
  | unary op e ih =>
      obtain ⟨e', rfl, hop⟩ := h.of_unary
      rw [ih hop]
  | cond c t r ihc iht ihr =>
      cases h with
      | @unary op _ _ _ hw => cases op <;> cases hw
      | cond hs hc ht hr =>
          rcases Conditional.split_cases hs (List.append_nil _) with
            ⟨a, ha⟩ | ⟨a, ha⟩ | ⟨hc', ht', hr'⟩
          · exact absurd hc (not_of_cut ha)
          · exact absurd ht (not_of_cut ha)
          · rw [List.append_nil] at hr'
            rw [hc'] at hc
            rw [ht'] at ht
            rw [hr'] at hr
            rw [ihc hc, iht ht, ihr hr]
  | bracketed e ih =>
      cases h with
      | @unary op _ _ _ hw => cases op <;> cases hw
      | @bracketed a b _ _ hrun hl _ h =>
          have hab : a ++ b = e.run := by
            rw [← Run.strip_eq_append a hl, ← hrun, ← Expr.run, e.strip_run]
          rw [hab] at h
          rw [ih h]

/-- A run is at least as long as the flat form of what it is read as. -/
theorem length_run_le (h : Reads calculus run e) : e.run.length ≤ run.length := by
  induction h with
  | truth | falsity | zero | var => simp [Expr.run]
  | unary _ _ ih => simpa [Expr.run] using ih
  | cond hs _ _ _ ihc iht ihr =>
      rw [Conditional.eq_of_split hs]
      simp only [Expr.run, List.length_cons, List.length_append]
      omega
  | bracketed hr _ _ _ ih =>
      rw [hr]
      simp only [Expr.run, List.length_cons, List.length_append, List.length_nil] at ih ⊢
      omega

/-- A conditional is read off its own flat form exactly if its parts are.  No part is
shorter than what it is read as, so the parts cannot make up for each other. -/
theorem cond_eq_run_iff {rest : Run} {parts : Conditional} {c t r : Expr}
    (hs : Conditional.split (.cond :: rest) = .ok parts)
    (hc : Reads calculus parts.condition.run c) (ht : Reads calculus parts.thenBranch.run t)
    (hr : Reads calculus parts.elseBranch.run r) :
    Token.cond :: rest = (Expr.cond c t r).run ↔
      parts.condition.run = c.run ∧ parts.thenBranch.run = t.run ∧
        parts.elseBranch.run = r.run := by
  rw [Conditional.eq_of_split hs, Expr.run]
  constructor
  · intro h
    have hlen := congrArg List.length h
    have hlc := hc.length_run_le
    have hlt := ht.length_run_le
    have hlr := hr.length_run_le
    simp only [List.length_cons, List.length_append] at hlen
    obtain ⟨hc', h⟩ := List.append_inj (List.cons.inj h).2 (by omega)
    obtain ⟨ht', h⟩ := List.append_inj (List.cons.inj h).2 (by omega)
    exact ⟨hc', ht', (List.cons.inj h).2⟩
  · rintro ⟨hc', ht', hr'⟩
    rw [hc', ht', hr']

end Reads

/-- Brackets are read off their own flat form exactly if nothing follows them and what they
enclose is. -/
theorem Run.bracketed_eq_run_iff {a b : Run} (hb : Token.rparen ∉ b) :
    Token.lparen :: (a ++ .rparen :: b) = (Expr.bracketed e).run ↔ b = [] ∧ a ++ b = e.run := by
  rw [Expr.run, List.cons.injEq, eq_self, true_and]
  rcases List.eq_nil_or_concat b with rfl | ⟨b, t, rfl⟩
  · simp
  · have ht : t ≠ .rparen := fun h => hb (by simp [h])
    have hne : a ++ .rparen :: (b ++ [t]) ≠ e.run ++ [.rparen] := fun h =>
      ht (by simpa [List.getLast?_cons] using congrArg List.getLast? h)
    simpa using hne

end TypeDeduction

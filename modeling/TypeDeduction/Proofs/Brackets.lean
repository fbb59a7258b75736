/-
# What stripping takes off

A run that starts with a left bracket and balances has a right bracket, hence a
last one: it reads `( a ) b` with no right bracket in `b`
(`Run.exists_lastClose_of_balance`), and stripping it leaves `a b`
(`Run.strip_eq_append`).  Nothing says that the two brackets are partners; they
are when `b` is empty and `a` is well nested, as in the flat form of a bracketed
expression (`Expr.strip_run`, `Expr.wellNested_run`).
-/

import TypeDeduction.Expression

namespace TypeDeduction
namespace Run

/-- The balance counts the left brackets and takes the right brackets off. -/
theorem balance_eq_count_sub (run : Run) :
    run.balance = (run.count .lparen : Int) - run.count .rparen := by
  induction run with
  | nil => rfl
  | cons t run ih =>
      rw [balance, weight, ih]
      by_cases hl : t = .lparen
      · rw [if_pos hl, hl, List.count_cons_self, List.count_cons_of_ne (by decide)]
        omega
      · rw [if_neg hl, List.count_cons_of_ne hl]
        by_cases hr : t = .rparen
        · rw [if_pos hr, hr, List.count_cons_self]
          omega
        · rw [if_neg hr, List.count_cons_of_ne hr, Int.zero_add]

/-- A run without right brackets does not close more than it opens. -/
theorem balance_nonneg_of_rparen_notMem {run : Run} (h : Token.rparen ∉ run) :
    0 ≤ balance run := by
  induction run with
  | nil => simp [balance]
  | cons t run ih =>
      obtain ⟨ht, hr⟩ := not_or.1 (mt List.mem_cons.2 h)
      have := ih hr
      rw [balance, weight, if_neg (Ne.symm ht)]
      split <;> omega

/-- A run with a right bracket has a last one. -/
theorem exists_lastClose {run : Run} (h : Token.rparen ∈ run) :
    ∃ a b, run = a ++ .rparen :: b ∧ Token.rparen ∉ b := by
  induction run with
  | nil => exact absurd h List.not_mem_nil
  | cons t run ih =>
      by_cases hr : Token.rparen ∈ run
      · obtain ⟨a, b, rfl, hb⟩ := ih hr
        exact ⟨t :: a, b, rfl, hb⟩
      · rcases List.mem_cons.1 h with rfl | hm
        · exact ⟨[], run, rfl, hr⟩
        · exact absurd hm hr

/-- A run that opens with a bracket and balances has a last right bracket. -/
theorem exists_lastClose_of_balance {rest : Run} (h : balance (.lparen :: rest) = 0) :
    ∃ a b, rest = a ++ .rparen :: b ∧ Token.rparen ∉ b := by
  refine exists_lastClose (Decidable.byContradiction fun hr => ?_)
  have := balance_nonneg_of_rparen_notMem hr
  rw [balance, weight, if_pos rfl] at h
  omega

/-- The last right bracket is the one that is dropped. -/
theorem dropLastClose_append (a : Run) {b : Run} (hb : Token.rparen ∉ b) :
    dropLastClose (a ++ .rparen :: b) = some (a ++ b) := by
  induction a with
  | nil => simp [dropLastClose, (dropLastClose_eq_none_iff b).2 hb]
  | cons t a ih => simp [dropLastClose, ih]

/-- **Stripping takes off the first bracket and the last right one.** -/
theorem strip_eq_append (a : Run) {b : Run} (hb : Token.rparen ∉ b) :
    strip (.lparen :: (a ++ .rparen :: b)) = a ++ b := by
  rw [strip, if_pos rfl, dropLastClose_append a hb, Option.getD_some]

/-- A pair of brackets, wherever the right one stands, does not change the balance. -/
theorem balance_bracketed (a b : Run) :
    balance (.lparen :: (a ++ .rparen :: b)) = balance (a ++ b) := by
  have hw : weight .lparen = 1 ∧ weight .rparen = -1 := ⟨rfl, rfl⟩
  rw [balance, balance_append, balance, balance_append, hw.1, hw.2]
  omega

/-- What stripping leaves is a part of the run. -/
theorem subset_bracketed (a b : Run) : a ++ b ⊆ .lparen :: (a ++ .rparen :: b) := by
  intro t ht
  rcases List.mem_append.1 ht with ht | ht <;> simp [ht]

/-! ### Well-nested runs -/

namespace WellNested

/-- A token that is no bracket may stand in front. -/
theorem cons {t : Token} {run : Run} (ht : weight t = 0) (h : WellNested run) :
    WellNested (t :: run) := by
  refine ⟨by rw [balance, ht, h.1, Int.add_zero], fun n => ?_⟩
  cases n with
  | zero => exact Int.le_refl 0
  | succ n => rw [List.take_succ_cons, balance, ht, Int.zero_add]; exact h.2 n

theorem append {a b : Run} (ha : WellNested a) (hb : WellNested b) : WellNested (a ++ b) := by
  refine ⟨by rw [balance_append, ha.1, hb.1, Int.add_zero], fun n => ?_⟩
  rw [List.take_append, balance_append]
  have h₁ := ha.2 n
  have h₂ := hb.2 (n - a.length)
  omega

/-- A pair of brackets may be put around. -/
theorem bracketed {run : Run} (h : WellNested run) :
    WellNested (.lparen :: (run ++ [.rparen])) := by
  have hw : weight .lparen = 1 ∧ weight .rparen = -1 := ⟨rfl, rfl⟩
  refine ⟨by simp [balance, balance_append, hw, h.1], fun n => ?_⟩
  cases n with
  | zero => exact Int.le_refl 0
  | succ n =>
      rw [List.take_succ_cons, balance, hw.1, List.take_append, balance_append]
      have h₁ := h.2 n
      have h₂ : -1 ≤ balance ([Token.rparen].take (n - run.length)) := by
        cases n - run.length <;> simp [balance, hw.2]
      omega

end WellNested

end Run

/-- The brackets of a flat form are well nested. -/
theorem Expr.wellNested_run (e : Expr) : e.run.WellNested := by
  have hnil : Run.WellNested [] := ⟨rfl, fun n => by simp [Run.balance]⟩
  induction e with
  | truth | falsity | zero | var => exact hnil.cons rfl
  | unary op e ih => exact ih.cons (by cases op <;> rfl)
  | cond c t r hc ht hr => exact (hc.append ((ht.append (hr.cons rfl)).cons rfl)).cons rfl
  | bracketed e ih => exact ih.bracketed

/-- The flat form of a bracketed expression strips to that of the expression. -/
theorem Expr.strip_run (e : Expr) : (Expr.bracketed e).run.strip = e.run := by
  rw [Expr.run, Run.strip_eq_append _ List.not_mem_nil, List.append_nil]

end TypeDeduction

/-
# The variables that abstractions over an expression bind

The search for a variable to abstract starts at the last left bracket that nothing closes.
In a run whose brackets are well nested there is none (`Run.WellNested.lastUnmatched`), so
it starts at the last left bracket, and only what comes from there on is in scope
(`Run.fromLastOpen`).

For the flat form of an expression that is the *scope* of the expression.  The abstractions
over it bind the names in its scope, in the order of their first occurrences
(`Expr.pending_run_eq`), and the types that these occurrences are declared with are the
*domains* of the expression.  Brackets around a subexpression can change both: they leave
what stands before them out of the scope.  Brackets around all of a well-nested run change
neither (`Run.WellNested.candidate_bracketed`).
-/

import TypeDeduction.Proofs.Brackets
import TypeDeduction.Proofs.Scope

namespace TypeDeduction

/-! ### Scopes of well-nested runs -/

namespace Run

variable {run : Run}

/-- If nothing at the end of a run opens more than it closes, every left bracket is closed,
and the right brackets left over make up for the balance. -/
theorem unmatched_of_balance_drop_le (h : ∀ n, balance (run.drop n) ≤ 0) :
    run.lastUnmatched = none ∧ (run.surplus : Int) = -run.balance := by
  induction run with
  | nil => exact ⟨rfl, rfl⟩
  | cons t run ih =>
      obtain ⟨hnone, hsurplus⟩ := ih fun n => h (n + 1)
      have hwhole : balance (t :: run) ≤ 0 := h 0
      rw [lastUnmatched_cons, surplus_cons, hnone]
      rw [balance, weight] at hwhole ⊢
      dsimp only
      by_cases hl : t = .lparen
      · rw [if_pos hl] at hwhole ⊢
        rw [if_neg fun hzero => ?_, if_pos hl]
        · exact ⟨rfl, by omega⟩
        · have hpos := hzero.2
          omega
      · rw [if_neg hl] at hwhole ⊢
        rw [if_neg fun hopen => hl hopen.1, if_neg hl]
        refine ⟨rfl, ?_⟩
        split <;> omega

/-- **In a well-nested run every left bracket is closed.** -/
theorem WellNested.lastUnmatched (h : run.WellNested) : run.lastUnmatched = none := by
  have hdrop (n : Nat) : balance (run.drop n) ≤ 0 := by
    have hsum := balance_append (run.take n) (run.drop n)
    have htake := h.2 n
    rw [List.take_append_drop, h.1] at hsum
    omega
  exact (unmatched_of_balance_drop_le hdrop).1

/-- The run from its last left bracket on, or all of it if it has none. -/
def fromLastOpen : Run → Run
  | [] => []
  | t :: run => if .lparen ∈ run then fromLastOpen run else t :: run

theorem fromLastOpen_of_notMem (h : Token.lparen ∉ run) : run.fromLastOpen = run := by
  cases run with
  | nil => rfl
  | cons t run => exact if_neg (mt (List.mem_cons_of_mem t) h)

theorem fromLastOpen_append_of_mem (a : Run) {b : Run} (h : Token.lparen ∈ b) :
    fromLastOpen (a ++ b) = b.fromLastOpen := by
  induction a with
  | nil => rfl
  | cons t a ih =>
      rw [List.cons_append, fromLastOpen, if_pos (List.mem_append_right a h), ih]

theorem fromLastOpen_append_of_notMem (a : Run) {b : Run} (h : Token.lparen ∉ b) :
    fromLastOpen (a ++ b) = a.fromLastOpen ++ b := by
  induction a with
  | nil => exact fromLastOpen_of_notMem h
  | cons t a ih =>
      have hmem : Token.lparen ∈ a ++ b ↔ Token.lparen ∈ a := by simp [h]
      rw [List.cons_append, fromLastOpen, fromLastOpen, ih]
      simp only [hmem]
      split <;> rfl

theorem fromLastOpen_suffix (run : Run) : run.fromLastOpen <:+ run := by
  induction run with
  | nil => exact List.suffix_rfl
  | cons t run ih =>
      rw [fromLastOpen]
      split
      · exact ih.trans (List.suffix_cons t run)
      · exact List.suffix_rfl

theorem lastOpen_eq_none_iff : lastOpen run = none ↔ Token.lparen ∉ run := by
  induction run with
  | nil => simp [lastOpen]
  | cons t run ih =>
      have hsymm : Token.lparen = t ↔ t = .lparen := eq_comm
      rw [lastOpen, List.mem_cons, not_or, ← ih]
      cases lastOpen run with
      | some i => simp
      | none => by_cases ht : t = .lparen <;> simp [hsymm, ht]

/-- **The scope of a well-nested run starts at its last left bracket.** -/
theorem WellNested.drop_scopeStart (h : run.WellNested) :
    run.drop run.scopeStart = run.fromLastOpen := by
  rw [scopeStart, h.lastUnmatched, Option.none_or]
  clear h
  induction run with
  | nil => rfl
  | cons t run ih =>
      rw [fromLastOpen]
      by_cases hmem : Token.lparen ∈ run
      · have hsome := mt lastOpen_eq_none_iff.1 (not_not_intro hmem)
        obtain ⟨i, hi⟩ := Option.ne_none_iff_exists'.1 hsome
        rw [if_pos hmem, ← ih, lastOpen, hi]
        rfl
      · have hnone := lastOpen_eq_none_iff.2 hmem
        rw [if_neg hmem, lastOpen, hnone]
        dsimp only
        split <;> rfl

/-- A word in front changes nothing about the variables in scope. -/
theorem occurrences_fromLastOpen_word (w : Word) (run : Run) :
    occurrences (fromLastOpen (.word w :: run)) = occurrences run.fromLastOpen := by
  rw [fromLastOpen]
  split
  · rfl
  · rename_i hnot
    rw [fromLastOpen_of_notMem hnot, occurrences_word]

/-- No more do brackets around the run. -/
theorem occurrences_fromLastOpen_bracketed (run : Run) :
    occurrences (fromLastOpen (.lparen :: (run ++ [.rparen]))) =
      occurrences run.fromLastOpen := by
  have hnot : Token.lparen ∉ [Token.rparen] := by decide
  rw [occurrences_fromLastOpen_word, fromLastOpen_append_of_notMem _ hnot, occurrences_append]
  exact List.append_nil _

/-- **Brackets around a well-nested run leave its candidate as it is.** -/
theorem WellNested.candidate_bracketed (h : run.WellNested) :
    candidate (.lparen :: (run ++ [.rparen])) = run.candidate := by
  rw [candidate, candidate, h.bracketed.drop_scopeStart, h.drop_scopeStart,
    occurrences_fromLastOpen_bracketed]

theorem balance_bind (bindings : Bindings) (run : Run) :
    (run.bind bindings).balance = run.balance := by
  induction run with
  | nil => rfl
  | cons t run ih =>
      rw [bind] at ih
      simp only [bind, List.map_cons, balance, weight, ih, Token.bind_eq_word_iff]

/-- Binding changes no bracket, so a well-nested run stays one. -/
theorem WellNested.bind (h : run.WellNested) (bindings : Bindings) :
    (run.bind bindings).WellNested := by
  refine ⟨by rw [balance_bind, h.1], fun n => ?_⟩
  have htake : (run.bind bindings).take n = Run.bind bindings (run.take n) := List.map_take.symm
  rw [htake, balance_bind]
  exact h.2 n

/-! ### First occurrences -/

/-- The first occurrences have the names of all, each once, in the same order. -/
theorem map_name_firstByName (vs : List Variable) :
    (firstByName vs).map (·.name) = (vs.map (·.name)).eraseDups := by
  induction hn : vs.length using Nat.strongRecOn generalizing vs with
  | ind n ih =>
      cases vs with
      | nil => rfl
      | cons v vs =>
          have hlen : (vs.filter (·.name ≠ v.name)).length < n := by
            have := List.length_filter_le (fun w => decide (w.name ≠ v.name)) vs
            rw [List.length_cons] at hn
            omega
          have hfilter : (vs.map (·.name)).filter (fun x => !x == v.name) =
              (vs.filter (·.name ≠ v.name)).map (·.name) := by
            rw [List.filter_map]
            congr 2
            funext w
            rw [Bool.eq_iff_iff]
            simp
          rw [firstByName, ← firstByName_filter, List.map_cons, ih _ hlen _ rfl, List.map_cons,
            List.eraseDups_cons, hfilter]

theorem nodup_map_name_firstByName (vs : List Variable) :
    ((firstByName vs).map (·.name)).Nodup := by
  induction vs with
  | nil => exact List.nodup_nil
  | cons v vs ih =>
      rw [firstByName, List.map_cons, List.nodup_cons]
      refine ⟨?_, ih.sublist (List.filter_sublist.map _)⟩
      simp

end Run

/-! ### Scopes of expressions -/

namespace Expr

variable {e : Expr}

/-- The occurrences from the last left bracket on, or all of them if there is none. -/
def scope (e : Expr) : List Variable := Run.occurrences e.run.fromLastOpen

/-- The types that the variables in scope are declared with, each name at its first
occurrence there. -/
def domains (e : Expr) : List (Option BaseType) := (Run.firstByName e.scope).map (·.declared)

theorem scope_subset (e : Expr) : e.scope ⊆ e.occurrences := by
  intro v hv
  rw [← occurrences_run]
  exact Run.mem_occurrences.2 (e.run.fromLastOpen_suffix.subset (Run.mem_occurrences.1 hv))

@[simp]
theorem scope_unary (op : UnaryOp) (e : Expr) : (Expr.unary op e).scope = e.scope :=
  Run.occurrences_fromLastOpen_word op.word e.run

@[simp]
theorem scope_bracketed (e : Expr) : (Expr.bracketed e).scope = e.scope :=
  Run.occurrences_fromLastOpen_bracketed e.run

/-- What is in scope in the second branch of a conditional is in scope in all of it. -/
theorem scope_subset_cond (c t r : Expr) : r.scope ⊆ (Expr.cond c t r).scope := by
  have hrun : (Expr.cond c t r).run =
      (.cond :: (c.run ++ .word .thenBranch :: (t.run ++ [.word .elseBranch]))) ++ r.run := by
    simp [run]
  rw [scope, scope, hrun]
  by_cases hmem : Token.lparen ∈ r.run
  · rw [Run.fromLastOpen_append_of_mem _ hmem]
    exact List.Subset.refl _
  · rw [Run.fromLastOpen_append_of_notMem _ hmem, Run.fromLastOpen_of_notMem hmem,
      Run.occurrences_append]
    exact List.subset_append_right _ _

/-- There is something to abstract exactly if a variable in scope is unbound. -/
theorem candidate_run_eq_none_iff :
    e.run.candidate = none ↔ ∀ v ∈ e.scope, v.abstracted = true := by
  rw [Run.candidate, e.wellNested_run.drop_scopeStart, List.find?_eq_none]
  simp [scope]

/-- **Abstractions over an expression bind the names in its scope**, in the order of their
first occurrences there. -/
theorem pending_run_eq (hv : ∀ v ∈ e.occurrences, v.abstracted = false) :
    Run.pending e.run [] = (Run.firstByName e.scope).map (·.name) := by
  have hfilter : e.scope.filter (fun v => ¬ v.abstracted) = e.scope :=
    List.filter_eq_self.2 fun v h => by simp [hv v (e.scope_subset h)]
  have hnil : Run.unbound [] = [] := rfl
  rw [Run.pending, hnil, List.append_nil, Run.unbound, e.wellNested_run.drop_scopeStart,
    Run.map_name_firstByName]
  exact congrArg (fun vs : List Variable => (vs.map (·.name)).eraseDups) hfilter

end Expr
end TypeDeduction

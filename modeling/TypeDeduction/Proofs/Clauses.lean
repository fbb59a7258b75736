/-
# Where clauses end

The stop word of a clause is found by counting.  Two facts make the count usable.

* What `Clause.take` takes off is the part of the run up to a stop word, with one
  more stop word inside if it starts nested, and something follows
  (`Clause.take_eq_ok_iff`).  So a split loses nothing but the two stop words
  (`Conditional.eq_of_split`).
* The flat form of an expression has one `then` and one `else` for each `if`,
  and its first `if` comes before both (`Clause.startsNested_run`).  So a clause
  is never cut too late (`Clause.take_run_cases`), one that holds at most one
  conditional ends where it should (`Clause.take_run`), and the flat form of a
  conditional is split into the flat forms of its parts (`Conditional.split_run`).
-/

import TypeDeduction.Conditional
import TypeDeduction.Expression

namespace TypeDeduction
namespace Run

/-- **The `n`-th occurrence of a word** stands after `n - 1` others. -/
theorem nthIndex_eq_some_iff {w : Word} {run : Run} {n : Int} {i : Nat} :
    nthIndex (.word w) run n = some i ↔
      ∃ a b, run = a ++ .word w :: b ∧ a.length = i ∧ (a.count (.word w) : Int) + 1 = n := by
  constructor
  · intro h
    induction run generalizing n i with
    | nil => simp [nthIndex] at h
    | cons t run ih =>
        rw [nthIndex] at h
        split at h
        · rename_i ht
          obtain rfl := (Token.kind_eq_word_iff t w).1 ht
          split at h
          · obtain rfl := Option.some.inj h
            exact ⟨[], run, rfl, rfl, by simp [*]⟩
          · obtain ⟨j, hj, rfl⟩ := Option.map_eq_some_iff.1 h
            obtain ⟨a, b, rfl, rfl, hn⟩ := ih hj
            refine ⟨.word w :: a, b, rfl, rfl, ?_⟩
            rw [List.count_cons_self]
            omega
        · rename_i ht
          obtain ⟨j, hj, rfl⟩ := Option.map_eq_some_iff.1 h
          obtain ⟨a, b, rfl, rfl, hn⟩ := ih hj
          refine ⟨t :: a, b, rfl, rfl, ?_⟩
          rw [List.count_cons_of_ne (mt (Token.kind_eq_word_iff t w).2 ht), hn]
  · rintro ⟨a, b, rfl, rfl, rfl⟩
    induction a with
    | nil => simp [nthIndex, Token.kind]
    | cons t a ih =>
        rw [List.cons_append, nthIndex]
        by_cases ht : t = .word w
        · subst ht
          have hn : ((a.count (.word w) + 1 : Nat) : Int) + 1 ≠ 1 := by omega
          have hn' : ((a.count (.word w) + 1 : Nat) : Int) + 1 - 1 = a.count (.word w) + 1 := by
            omega
          rw [List.count_cons_self, if_pos ((Token.kind_eq_word_iff _ w).2 rfl), if_neg hn, hn',
            ih, Option.map_some, List.length_cons]
        · rw [List.count_cons_of_ne ht, if_neg (mt (Token.kind_eq_word_iff t w).1 ht), ih,
            Option.map_some, List.length_cons]

end Run

namespace Stop

/-- A stop word is neither `if` nor the word of an operator nor a bracket. -/
theorem token_ne (stop : Stop) :
    stop.token ≠ .cond ∧ stop.token ≠ .lparen ∧ stop.token ≠ .rparen ∧
      ∀ op : UnaryOp, stop.token ≠ .word op.word := by
  cases stop <;> exact ⟨by decide, by decide, by decide, fun op => by cases op <;> decide⟩

/-- The flat form has each stop word once for each conditional. -/
theorem count_run (stop : Stop) (e : Expr) : e.run.count stop.token = e.conditionals := by
  induction e with
  | truth | falsity | zero | var => cases stop <;> rfl
  | unary op e ih =>
      rw [Expr.run, Expr.conditionals, List.count_cons_of_ne (stop.token_ne.2.2.2 op).symm, ih]
  | cond c t r hc ht hr =>
      cases stop <;>
        simp only [token] at hc ht hr <;>
        simp [Expr.run, Expr.conditionals, token, hc, ht, hr] <;> omega
  | bracketed e ih =>
      rw [Expr.run, Expr.conditionals, List.count_cons_of_ne stop.token_ne.2.1.symm,
        List.count_append, ih, List.count_singleton]
      simp [stop.token_ne.2.2.1.symm]

end Stop

namespace Clause

/-- Reading on past a token that is not the stop word. -/
theorem startsNested_cons (stop : Stop) (t : Token) (run : Run) :
    startsNested stop (t :: run) =
      if t = stop.token then false else decide (t = .cond) || startsNested stop run := by
  by_cases h : t = stop.token
  · simp [startsNested, h]
  · simp [startsNested, h, eq_comm]

/-- Whether an `if` comes first is settled before the stop word. -/
theorem startsNested_append (stop : Stop) (a b : Run) :
    startsNested stop (a ++ stop.token :: b) = startsNested stop a := by
  induction a with
  | nil => simp [startsNested]
  | cons t a ih => rw [List.cons_append, startsNested_cons, startsNested_cons, ih]

/-- What comes later does not matter once an `if` has come first. -/
theorem startsNested_append_of_startsNested {stop : Stop} {a : Run}
    (h : startsNested stop a = true) (b : Run) : startsNested stop (a ++ b) = true := by
  induction a with
  | nil => simp [startsNested] at h
  | cons t a ih =>
      rw [startsNested_cons] at h
      rw [List.cons_append, startsNested_cons]
      split at h
      · exact absurd h Bool.false_ne_true
      · rename_i ht
        rw [if_neg ht]
        rcases Bool.or_eq_true _ _ ▸ h with hc | hn
        · rw [hc, Bool.true_or]
        · rw [ih hn, Bool.or_true]

/-- **In a flat form the first `if` comes before every stop word**, so that a clause
starts nested exactly if it holds a conditional. -/
theorem startsNested_run (stop : Stop) (e : Expr) :
    startsNested stop e.run = e.run.contains .cond := by
  induction e with
  | truth | falsity | zero | var => cases stop <;> rfl
  | unary op e ih =>
      rw [Expr.run, startsNested_cons, if_neg (stop.token_ne.2.2.2 op).symm, ih]
      cases op <;> simp [UnaryOp.word]
  | cond c t r =>
      rw [Expr.run, startsNested_cons, if_neg stop.token_ne.1.symm]
      simp
  | bracketed e ih =>
      rw [Expr.run, startsNested_cons, if_neg stop.token_ne.2.1.symm]
      by_cases h : startsNested stop e.run = true
      · have hc : Token.cond ∈ e.run := by simpa using ih.symm.trans h
        simp [startsNested_append_of_startsNested h, hc]
      · have hc : Token.cond ∉ e.run := by simpa using mt ih.trans h
        have hn : Token.cond ∉ e.run ++ [Token.rparen] := by simp [hc]
        have hw : Token.cond ∉ (e.run ++ [Token.rparen]).takeWhile (· ≠ stop.token) :=
          fun hm => hn ((List.takeWhile_prefix _).subset hm)
        simp only [startsNested, List.contains_eq_mem, hw, hn, List.mem_cons]
        simp

/-- The clause ends at the stop word that has one other before it if the clause starts
nested, and none otherwise. -/
theorem boundary_eq_some_iff {stop : Stop} {run : Run} {i : Nat} :
    boundary stop run = some i ↔
      ∃ a b, run = a ++ stop.token :: b ∧ a.length = i ∧
        a.count stop.token = if startsNested stop run then 1 else 0 := by
  have hnth : boundary stop run = some i ↔ ∃ a b, run = a ++ stop.token :: b ∧ a.length = i ∧
      (a.count stop.token : Int) + 1 = if startsNested stop run then 2 else 1 := by
    cases stop <;> exact Run.nthIndex_eq_some_iff
  have hcount (a : Run) : ((a.count stop.token : Int) + 1 =
      if startsNested stop run then 2 else 1) ↔
        a.count stop.token = if startsNested stop run then 1 else 0 := by
    split <;> omega
  simp only [hnth, hcount]

/-- **What is taken off a run is its part up to a stop word**, with more after it.  The
part holds one stop word if it starts nested and none otherwise. -/
theorem take_eq_ok_iff {stop : Stop} {run rest : Run} {c : Clause} :
    take stop run = .ok (c, rest) ↔
      run = c.run ++ stop.token :: rest ∧ rest ≠ [] ∧ c.nested = startsNested stop run ∧
        c.run.count stop.token = if startsNested stop run then 1 else 0 := by
  constructor
  · intro h
    rw [take] at h
    cases hb : boundary stop run with
    | none => simp [hb] at h
    | some i =>
        obtain ⟨a, b, hrun, rfl, hcount⟩ := boundary_eq_some_iff.1 hb
        have htake : run.take a.length = a := by rw [hrun, List.take_left]
        have hdrop : run.drop (a.length + 1) = b := by simp [hrun]
        rw [hb] at h
        dsimp only at h
        split at h
        · simp at h
        · rename_i hl
          obtain ⟨rfl, rfl⟩ := Prod.mk.inj (Except.ok.inj h)
          refine ⟨?_, ?_, rfl, ?_⟩
          · rw [htake, hdrop, hrun]
          · intro hnil
            rw [hdrop] at hnil
            simp [hrun, hnil] at hl
          · rw [htake, hcount]
  · rintro ⟨hrun, hne, hn, hcount⟩
    have hb := boundary_eq_some_iff.2 ⟨c.run, rest, hrun, rfl, hcount⟩
    have hl : c.run.length + 1 ≠ run.length := by
      have := List.length_pos_iff.2 hne
      rw [hrun, List.length_append, List.length_cons]
      omega
    rw [take, hb]
    dsimp only
    rw [if_neg hl, ← hn]
    simp [hrun]

/-- What follows a run does not change where its first clause ends. -/
theorem take_append {stop : Stop} {run rest : Run} {c : Clause}
    (h : take stop run = .ok (c, rest)) (more : Run) :
    take stop (run ++ more) = .ok (c, rest ++ more) := by
  obtain ⟨hrun, hne, hn, hcount⟩ := take_eq_ok_iff.1 h
  have hstart : startsNested stop (run ++ more) = startsNested stop run := by
    rw [hrun, List.append_assoc, List.cons_append, startsNested_append, startsNested_append]
  refine take_eq_ok_iff.2 ⟨?_, ?_, ?_, ?_⟩
  · rw [hrun, List.append_assoc, List.cons_append]
  · exact List.append_ne_nil_of_left_ne_nil hne more
  · rw [hstart, hn]
  · rw [hstart, hcount]

/-- **A clause is never cut too late**: what is cut off a flat form and its stop word is
the flat form, or ends at a stop word inside it. -/
theorem take_run_cases {stop : Stop} {e : Expr} {rest rest' : Run} {c : Clause}
    (h : take stop (e.run ++ stop.token :: rest) = .ok (c, rest')) :
    (c.run = e.run ∧ rest' = rest) ∨ ∃ more, e.run = c.run ++ stop.token :: more := by
  obtain ⟨heq, -, -, hcount⟩ := take_eq_ok_iff.1 h
  rw [startsNested_append, startsNested_run] at hcount
  rcases List.append_eq_append_iff.1 heq with ⟨more, hc, hr⟩ | ⟨more, he, hr⟩
  · cases more with
    | nil => exact .inl ⟨by simpa using hc, by simpa using hr.symm⟩
    | cons t more =>
        -- The clause would hold the stop words of the flat form and one more.
        obtain ⟨rfl, -⟩ := List.cons.inj hr
        rw [hc, List.count_append, Stop.count_run, List.count_cons_self] at hcount
        split at hcount
        · rename_i hm
          have hpos : 0 < e.run.count .cond := List.count_pos_iff.2 (by simpa using hm)
          rw [Expr.count_cond_run] at hpos
          omega
        · omega
  · cases more with
    | nil => exact .inl ⟨by simpa using he.symm, by simpa using hr⟩
    | cons t more =>
        obtain ⟨rfl, -⟩ := List.cons.inj hr
        exact .inr ⟨more, he⟩

/-- **A clause with at most one conditional ends where it should.** -/
theorem take_run (stop : Stop) {e : Expr} (he : e.conditionals ≤ 1) {rest : Run}
    (hr : rest ≠ []) :
    take stop (e.run ++ stop.token :: rest) = .ok (⟨e.run, e.run.contains .cond⟩, rest) := by
  have hn : startsNested stop (e.run ++ stop.token :: rest) = e.run.contains .cond := by
    rw [startsNested_append, startsNested_run]
  refine take_eq_ok_iff.2 ⟨rfl, hr, hn.symm, ?_⟩
  rw [hn, Stop.count_run]
  by_cases hc : Token.cond ∈ e.run
  · have := List.count_pos_iff.2 hc
    rw [Expr.count_cond_run] at this
    simp only [List.contains_eq_mem, hc, decide_true, if_true]
    omega
  · have := List.count_eq_zero.2 hc
    rw [Expr.count_cond_run] at this
    simp [hc, this]

end Clause

namespace Conditional

/-- A run splits if its first two clauses can be taken one after the other. -/
theorem split_eq_ok_iff_take {run : Run} (hne : run ≠ []) {parts : Conditional} :
    split run = .ok parts ↔
      ∃ more, Clause.take .thenBranch (afterIf run) = .ok (parts.condition, more) ∧
        Clause.take .elseBranch more = .ok (parts.thenBranch, parts.elseBranch.run) ∧
        parts.elseBranch.nested = parts.elseBranch.run.contains .cond := by
  rw [split, if_neg hne]
  simp only [bind, Except.bind, pure, Except.pure]
  constructor
  · intro h
    cases h₁ : Clause.take .thenBranch (afterIf run) with
    | error e => simp [h₁] at h
    | ok one =>
        cases h₂ : Clause.take .elseBranch one.2 with
        | error e => simp [h₁, h₂] at h
        | ok two =>
            simp only [h₁, h₂] at h
            obtain rfl := Except.ok.inj h
            exact ⟨one.2, rfl, h₂, rfl⟩
  · rintro ⟨more, h₁, h₂, h₃⟩
    simp only [h₁, h₂, ← h₃]

/-- A run does not split if one of its first two clauses cannot be taken. -/
theorem split_eq_error_iff_take {run : Run} (hne : run ≠ []) {f : Failure} :
    split run = .error f ↔
      Clause.take .thenBranch (afterIf run) = .error f ∨
        ∃ c more, Clause.take .thenBranch (afterIf run) = .ok (c, more) ∧
          Clause.take .elseBranch more = .error f := by
  rw [split, if_neg hne]
  simp only [bind, Except.bind, pure, Except.pure]
  cases h₁ : Clause.take .thenBranch (afterIf run) with
  | error e => simp
  | ok one =>
      obtain ⟨c, more⟩ := one
      cases h₂ : Clause.take .elseBranch more <;> simp [h₂, and_assoc]

/-- A conditional splits if its first two clauses can be taken one after the other. -/
theorem split_eq_ok_iff {rest : Run} {parts : Conditional} :
    split (.cond :: rest) = .ok parts ↔
      ∃ more, Clause.take .thenBranch rest = .ok (parts.condition, more) ∧
        Clause.take .elseBranch more = .ok (parts.thenBranch, parts.elseBranch.run) ∧
        parts.elseBranch.nested = parts.elseBranch.run.contains .cond :=
  split_eq_ok_iff_take (List.cons_ne_nil _ _)

/-- **A split loses nothing but the stop words.** -/
theorem eq_of_split {rest : Run} {parts : Conditional}
    (h : split (.cond :: rest) = .ok parts) :
    rest = parts.condition.run ++ .word .thenBranch ::
      (parts.thenBranch.run ++ .word .elseBranch :: parts.elseBranch.run) := by
  obtain ⟨more, h₁, h₂, -⟩ := split_eq_ok_iff.1 h
  rw [(Clause.take_eq_ok_iff.1 h₁).1, (Clause.take_eq_ok_iff.1 h₂).1]
  rfl

/-- The clauses of a conditional are parts of it. -/
theorem subset_of_split {rest : Run} {parts : Conditional}
    (h : split (.cond :: rest) = .ok parts) :
    parts.condition.run ⊆ .cond :: rest ∧ parts.thenBranch.run ⊆ .cond :: rest ∧
      parts.elseBranch.run ⊆ .cond :: rest := by
  rw [eq_of_split h]
  refine ⟨fun t ht => ?_, fun t ht => ?_, fun t ht => ?_⟩ <;> simp [ht]

/-- **A split of a part of a flat form** finds the condition and the first branch of the
conditional, or one of the two is cut at a stop word inside it. -/
theorem split_cases {rest more tail : Run} {parts : Conditional} {c t : Expr}
    (h : split (.cond :: rest) = .ok parts)
    (hrun : rest ++ more =
      c.run ++ .word .thenBranch :: (t.run ++ .word .elseBranch :: tail)) :
    (∃ a, c.run = parts.condition.run ++ Stop.thenBranch.token :: a) ∨
      (∃ a, t.run = parts.thenBranch.run ++ Stop.elseBranch.token :: a) ∨
      parts.condition.run = c.run ∧ parts.thenBranch.run = t.run ∧
        parts.elseBranch.run ++ more = tail := by
  obtain ⟨rest', h₁, h₂, -⟩ := split_eq_ok_iff.1 h
  have h₁' := Clause.take_append h₁ more
  have h₂' := Clause.take_append h₂ more
  rw [hrun] at h₁'
  rcases Clause.take_run_cases h₁' with ⟨hc, hrest⟩ | hcut
  · rw [hrest] at h₂'
    rcases Clause.take_run_cases h₂' with ⟨ht, htail⟩ | hcut
    · exact .inr (.inr ⟨hc, ht, htail⟩)
    · exact .inr (.inl hcut)
  · exact .inl hcut

/-- **The flat form of a conditional is split into the flat forms of its parts**, if
neither the condition nor the first branch holds more than one conditional. -/
theorem split_run {c t : Expr} (r : Expr) (hc : c.conditionals ≤ 1) (ht : t.conditionals ≤ 1) :
    split (Expr.cond c t r).run =
      .ok ⟨⟨c.run, c.run.contains .cond⟩, ⟨t.run, t.run.contains .cond⟩,
        ⟨r.run, r.run.contains .cond⟩⟩ := by
  have h₁ := Clause.take_run .thenBranch hc
    (show t.run ++ .word .elseBranch :: r.run ≠ [] by simp)
  exact split_eq_ok_iff.2 ⟨_, h₁, Clause.take_run .elseBranch ht r.run_ne_nil, rfl⟩

end Conditional
end TypeDeduction

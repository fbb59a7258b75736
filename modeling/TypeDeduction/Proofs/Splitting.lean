/-
# What the clauses of a conditional are

Clauses are found by scanning for stop words.  Here is what is found, said without a
scan.  A part of a run is *closed* for a stop word (`Clause.Closed`) if

* it holds neither the stop word nor an `if`, or
* it holds an `if` and, after its first `if`, the stop word exactly once.

A run has at most one closed part before a stop word with more tokens after it, and that
is the clause taken off (`Clause.take_eq_ok_iff_closed`).  Hence a run splits exactly if
it is divided by a `then` and an `else` into a part closed for `then`, a part closed for
`else` and a part that is not empty, and then in one way only (`Conditional.Divides`).

The flat form of an expression is closed for either stop word exactly if it holds at most
one conditional (`Clause.closed_run_iff`).  So counting words finds the clauses of a
conditional exactly up to that limit, for the condition and the first branch alike; the
second branch takes what is left and has no limit (`Conditional.split_run_iff`).
-/

import TypeDeduction.Proofs.Steps

namespace TypeDeduction

/-! ### Closed parts -/

namespace Clause

variable {stop : Stop} {run rest : Run}

/-- The run holds neither an `if` nor the stop word, or it holds an `if`, no stop word
before its first `if`, and the stop word exactly once. -/
def Closed (stop : Stop) (run : Run) : Prop :=
  (Token.cond ∉ run ∧ stop.token ∉ run) ∨
    ∃ a b, run = a ++ .cond :: b ∧ Token.cond ∉ a ∧ stop.token ∉ a ∧ run.count stop.token = 1

/-- A run starts nested if up to its first `if` there is no stop word. -/
theorem startsNested_iff :
    startsNested stop run = true ↔
      ∃ a b, run = a ++ .cond :: b ∧ Token.cond ∉ a ∧ stop.token ∉ a := by
  constructor
  · intro h
    induction run with
    | nil => simp [startsNested] at h
    | cons t run ih =>
        rw [startsNested_cons] at h
        split at h
        · exact absurd h Bool.false_ne_true
        · rename_i hstop
          by_cases hcond : t = .cond
          · exact ⟨[], run, by rw [hcond]; rfl, List.not_mem_nil, List.not_mem_nil⟩
          · obtain ⟨a, b, rfl, ha, hs⟩ := ih (by simpa [hcond] using h)
            refine ⟨t :: a, b, rfl, ?_, ?_⟩
            · simp [Ne.symm hcond, ha]
            · simp [Ne.symm hstop, hs]
  · rintro ⟨a, b, rfl, -, hs⟩
    induction a with
    | nil => simp [startsNested_cons, stop.token_ne.1.symm]
    | cons t a ih =>
        rw [List.mem_cons, not_or] at hs
        rw [List.cons_append, startsNested_cons, if_neg (Ne.symm hs.1), ih hs.2, Bool.or_true]

/-- Without the stop word the whole run counts. -/
theorem startsNested_of_notMem (h : stop.token ∉ run) :
    startsNested stop run = run.contains .cond := by
  induction run with
  | nil => rfl
  | cons t run ih =>
      rw [List.mem_cons, not_or] at h
      rw [startsNested_cons, if_neg (Ne.symm h.1), ih h.2]
      simp [eq_comm]

/-- **Closed parts are those with the number of stop words that the scan looks for.** -/
theorem closed_iff_count :
    Closed stop run ↔ run.count stop.token = if startsNested stop run then 1 else 0 := by
  cases hn : startsNested stop run with
  | false =>
      have hscan : ¬ ∃ a b, run = a ++ .cond :: b ∧ Token.cond ∉ a ∧ stop.token ∉ a :=
        fun h => Bool.false_ne_true (hn.symm.trans (startsNested_iff.2 h))
      rw [if_neg Bool.false_ne_true, List.count_eq_zero]
      constructor
      · rintro (⟨-, hs⟩ | ⟨a, b, hrun, ha, hs, -⟩)
        · exact hs
        · exact absurd ⟨a, b, hrun, ha, hs⟩ hscan
      · intro hs
        rw [startsNested_of_notMem hs] at hn
        exact .inl ⟨by simpa using hn, hs⟩
  | true =>
      obtain ⟨a, b, hrun, ha, hs⟩ := startsNested_iff.1 hn
      rw [if_pos rfl]
      constructor
      · rintro (⟨hc, -⟩ | ⟨_, _, -, -, -, hcount⟩)
        · exact absurd (by simp [hrun]) hc
        · exact hcount
      · exact fun hcount => .inr ⟨a, b, hrun, ha, hs, hcount⟩

/-- A closed part starts nested if it holds an `if` at all. -/
theorem Closed.startsNested_eq (h : Closed stop run) :
    startsNested stop run = run.contains .cond := by
  rcases h with ⟨-, hs⟩ | ⟨a, b, rfl, ha, hs, -⟩
  · exact startsNested_of_notMem hs
  · rw [startsNested_iff.2 ⟨a, b, rfl, ha, hs⟩]
    simp

/-- **The clause taken off a run is its closed part before a stop word** with more tokens
after it; it is nested if it holds an `if`. -/
theorem take_eq_ok_iff_closed {c : Clause} :
    take stop run = .ok (c, rest) ↔
      run = c.run ++ stop.token :: rest ∧ Closed stop c.run ∧ rest ≠ [] ∧
        c.nested = c.run.contains .cond := by
  rw [take_eq_ok_iff]
  constructor
  · rintro ⟨hrun, hrest, hnested, hcount⟩
    rw [hrun, startsNested_append] at hnested hcount
    have hclosed := closed_iff_count.2 hcount
    exact ⟨hrun, hclosed, hrest, hnested.trans hclosed.startsNested_eq⟩
  · rintro ⟨hrun, hclosed, hrest, hnested⟩
    have hstart : startsNested stop run = startsNested stop c.run := by
      rw [hrun, startsNested_append]
    rw [hstart]
    exact ⟨hrun, hrest, hnested.trans hclosed.startsNested_eq.symm, closed_iff_count.1 hclosed⟩

/-- A closed part of the run stands before a stop word with more tokens after it. -/
def Delimited (stop : Stop) (run : Run) : Prop :=
  ∃ c rest, run = c ++ stop.token :: rest ∧ Closed stop c ∧ rest ≠ []

/-- A clause can be taken off a run exactly if one is delimited in it. -/
theorem delimited_iff_take :
    Delimited stop run ↔ ∃ c rest, take stop run = .ok (c, rest) := by
  constructor
  · rintro ⟨c, rest, hrun, hclosed, hrest⟩
    exact ⟨⟨c, c.contains .cond⟩, rest, take_eq_ok_iff_closed.2 ⟨hrun, hclosed, hrest, rfl⟩⟩
  · rintro ⟨c, rest, h⟩
    obtain ⟨hrun, hclosed, hrest, -⟩ := take_eq_ok_iff_closed.1 h
    exact ⟨c.run, rest, hrun, hclosed, hrest⟩

/-- **A flat form is closed exactly if it holds at most one conditional**, whichever the
stop word: it has the stop word once for each. -/
theorem closed_run_iff (stop : Stop) (e : Expr) : Closed stop e.run ↔ e.conditionals ≤ 1 := by
  rw [closed_iff_count, startsNested_run, Stop.count_run, ← Expr.count_cond_run]
  by_cases hc : Token.cond ∈ e.run
  · have hpos := List.count_pos_iff.2 hc
    simp only [List.contains_eq_mem, hc, decide_true, if_true]
    omega
  · have hzero := List.count_eq_zero.2 hc
    simp [hc, hzero]

end Clause

/-! ### Divided runs -/

namespace Conditional

/-- A `then` and an `else` divide the run into a part closed for `then`, a part closed for
`else` and a part that is not empty. -/
structure Divides (run condition thenBranch elseBranch : Run) : Prop where
  eq : run =
    condition ++ .word .thenBranch :: (thenBranch ++ .word .elseBranch :: elseBranch)
  closed_condition : Clause.Closed .thenBranch condition
  closed_thenBranch : Clause.Closed .elseBranch thenBranch
  elseBranch_ne_nil : elseBranch ≠ []

variable {run rest c t e c' t' e' : Run}

/-- The clauses of a divided run can be taken one after the other. -/
theorem Divides.take_eq (h : Divides rest c t e) :
    Clause.take .thenBranch rest =
        .ok (⟨c, c.contains .cond⟩, t ++ .word .elseBranch :: e) ∧
      Clause.take .elseBranch (t ++ .word .elseBranch :: e) = .ok (⟨t, t.contains .cond⟩, e) := by
  refine ⟨Clause.take_eq_ok_iff_closed.2 ⟨h.eq, h.closed_condition, by simp, rfl⟩, ?_⟩
  exact Clause.take_eq_ok_iff_closed.2 ⟨rfl, h.closed_thenBranch, h.elseBranch_ne_nil, rfl⟩

/-- **A run is divided in one way at most.** -/
theorem Divides.unique (h : Divides rest c t e) (h' : Divides rest c' t' e') :
    c = c' ∧ t = t' ∧ e = e' := by
  obtain ⟨h₁, h₂⟩ := h.take_eq
  obtain ⟨h₁', h₂'⟩ := h'.take_eq
  obtain ⟨hc, hmore⟩ := Prod.mk.inj (Except.ok.inj (h₁.symm.trans h₁'))
  rw [← hmore] at h₂'
  obtain ⟨ht, he⟩ := Prod.mk.inj (Except.ok.inj (h₂.symm.trans h₂'))
  exact ⟨congrArg Clause.run hc, congrArg Clause.run ht, he⟩

/-- **A run splits into the clauses that divide it**, each nested if it holds an `if`. -/
theorem split_eq_ok_iff_divides (hne : run ≠ []) {parts : Conditional} :
    split run = .ok parts ↔
      Divides (afterIf run) parts.condition.run parts.thenBranch.run parts.elseBranch.run ∧
        parts.condition.nested = parts.condition.run.contains .cond ∧
        parts.thenBranch.nested = parts.thenBranch.run.contains .cond ∧
        parts.elseBranch.nested = parts.elseBranch.run.contains .cond := by
  rw [split_eq_ok_iff_take hne]
  constructor
  · rintro ⟨more, h₁, h₂, hn⟩
    obtain ⟨hrun, hc, -, hnc⟩ := Clause.take_eq_ok_iff_closed.1 h₁
    obtain ⟨rfl, ht, he, hnt⟩ := Clause.take_eq_ok_iff_closed.1 h₂
    exact ⟨⟨hrun, hc, ht, he⟩, hnc, hnt, hn⟩
  · rintro ⟨hd, hnc, hnt, hn⟩
    obtain ⟨h₁, h₂⟩ := hd.take_eq
    rw [← hnc] at h₁
    rw [← hnt] at h₂
    exact ⟨_, h₁, h₂, hn⟩

/-- A divided run splits, and a run that splits is divided. -/
theorem exists_split_iff_divides (hne : run ≠ []) :
    (∃ parts, split run = .ok parts ∧ parts.condition.run = c ∧ parts.thenBranch.run = t ∧
        parts.elseBranch.run = e) ↔ Divides (afterIf run) c t e := by
  constructor
  · rintro ⟨parts, hs, rfl, rfl, rfl⟩
    exact ((split_eq_ok_iff_divides hne).1 hs).1
  · intro hd
    refine ⟨⟨⟨c, c.contains .cond⟩, ⟨t, t.contains .cond⟩, ⟨e, e.contains .cond⟩⟩, ?_,
      rfl, rfl, rfl⟩
    exact (split_eq_ok_iff_divides hne).2 ⟨hd, rfl, rfl, rfl⟩

/-- **A run that does not split** has no delimited condition, or it has one and what follows
has no delimited first branch. -/
theorem split_eq_error_cases (hne : run ≠ []) {f : Failure} (hs : split run = .error f) :
    (¬ Clause.Delimited .thenBranch (afterIf run) ∧ (f = .thenMissing ∨ f = .thenEmpty)) ∨
      (Clause.Delimited .thenBranch (afterIf run) ∧ (f = .elseMissing ∨ f = .elseEmpty)) := by
  rw [Clause.delimited_iff_take]
  rcases (split_eq_error_iff_take hne).1 hs with h₁ | ⟨c, more, h₁, h₂⟩
  · refine .inl ⟨?_, Clause.take_eq_error h₁⟩
    rintro ⟨c, more, h⟩
    cases h₁.symm.trans h
  · exact .inr ⟨⟨c, more, h₁⟩, Clause.take_eq_error h₂⟩

/-- **The declarative specification of a split.**  Take a run that is not empty, without its
leading `if` if it has one.  It splits into a condition, a first and a second branch exactly
if these divide it, and it is divided in one way at most.  A clause is nested exactly if it
holds an `if`.  If nothing divides the run, the split fails: for a missing or empty `then`
clause if no part closed for `then` stands before a `then` with more tokens after it, and
for a missing or empty `else` clause if there is such a part. -/
theorem split_specified_by_closed_parts {run : Run} (hne : run ≠ []) :
    (∀ c t e, (∃ parts, split run = .ok parts ∧ parts.condition.run = c ∧
        parts.thenBranch.run = t ∧ parts.elseBranch.run = e) ↔ Divides (afterIf run) c t e) ∧
      (∀ c t e c' t' e', Divides (afterIf run) c t e → Divides (afterIf run) c' t' e' →
        c = c' ∧ t = t' ∧ e = e') ∧
      (∀ parts, split run = .ok parts →
        (parts.condition.nested = true ↔ Token.cond ∈ parts.condition.run) ∧
          (parts.thenBranch.nested = true ↔ Token.cond ∈ parts.thenBranch.run) ∧
          (parts.elseBranch.nested = true ↔ Token.cond ∈ parts.elseBranch.run)) ∧
      ((¬ ∃ c t e, Divides (afterIf run) c t e) →
        ∃ f, split run = .error f ∧
          (¬ Clause.Delimited .thenBranch (afterIf run) →
            f.code = Code.thenMissing ∨ f.code = Code.thenEmpty) ∧
          (Clause.Delimited .thenBranch (afterIf run) →
            f.code = Code.elseMissing ∨ f.code = Code.elseEmpty)) := by
  refine ⟨fun c t e => exists_split_iff_divides hne, fun c t e c' t' e' => Divides.unique,
    fun parts hs => ?_, fun hnone => ?_⟩
  · obtain ⟨-, hc, ht, he⟩ := (split_eq_ok_iff_divides hne).1 hs
    rw [hc, ht, he]
    simp only [List.contains_iff_mem, and_self]
  · cases hs : split run with
    | ok parts => exact absurd ⟨_, _, _, ((split_eq_ok_iff_divides hne).1 hs).1⟩ hnone
    | error f =>
        refine ⟨f, rfl, ?_⟩
        rcases split_eq_error_cases hne hs with ⟨hno, rfl | rfl⟩ | ⟨hdel, rfl | rfl⟩
        · exact ⟨fun _ => .inl rfl, fun h => absurd h hno⟩
        · exact ⟨fun _ => .inr rfl, fun h => absurd h hno⟩
        · exact ⟨fun h => absurd hdel h, fun _ => .inl rfl⟩
        · exact ⟨fun h => absurd hdel h, fun _ => .inr rfl⟩

/-- The run `if if true then false else true then 0 else succ 0`. -/
def chosenCondition : Run :=
  (Expr.cond (.cond .truth .falsity .truth) .zero (.unary .succ .zero)).run

/-- The run `if 0 then if then else`, whose first branch holds an `if` and one `else`, which
is its own. -/
def openBranch : Run :=
  [.cond, .word .zero, .word .thenBranch, .cond, .word .thenBranch, .word .elseBranch]

theorem split_specified_at_chosenCondition :
    chosenCondition ≠ [] ∧ openBranch ≠ [] ∧
      Divides (afterIf chosenCondition) (Expr.cond .truth .falsity .truth).run [.word .zero]
        [.word .succ, .word .zero] ∧
      ∃ f, split openBranch = .error f ∧
        (f.code = Code.elseMissing ∨ f.code = Code.elseEmpty) := by
  have hchosen : chosenCondition ≠ [] := by decide
  have hopen : openBranch ≠ [] := by decide
  obtain ⟨hiff, -⟩ := split_specified_by_closed_parts hchosen
  obtain ⟨hiff', -, -, hfails⟩ := split_specified_by_closed_parts hopen
  refine ⟨hchosen, hopen, (hiff _ _ _).1 ⟨_, rfl, rfl, rfl, rfl⟩, ?_⟩
  have hnone : ¬ ∃ c t e, Divides (afterIf openBranch) c t e := by
    rintro ⟨c, t, e, hd⟩
    obtain ⟨parts, hs, -⟩ := (hiff' c t e).2 hd
    cases hs
  obtain ⟨f, hf, -, helse⟩ := hfails hnone
  refine ⟨f, hf, helse ⟨[.word .zero], _, rfl, ?_, by decide⟩⟩
  exact .inl ⟨by decide, by decide⟩

/-- **The exact limit of counting words.**  The flat form of a conditional is split into the
flat forms of its parts if and only if neither its condition nor its first branch holds more
than one conditional; the second branch may hold any number. -/
theorem split_run_iff (c t r : Expr) :
    (∃ parts, split (Expr.cond c t r).run = .ok parts ∧ parts.condition.run = c.run ∧
        parts.thenBranch.run = t.run ∧ parts.elseBranch.run = r.run) ↔
      c.conditionals ≤ 1 ∧ t.conditionals ≤ 1 := by
  rw [exists_split_iff_divides (Expr.run_ne_nil _), ← Clause.closed_run_iff .thenBranch c,
    ← Clause.closed_run_iff .elseBranch t]
  constructor
  · exact fun h => ⟨h.closed_condition, h.closed_thenBranch⟩
  · exact fun ⟨hc, ht⟩ => ⟨rfl, hc, ht, r.run_ne_nil⟩

/-- With two conditionals in the condition `if if true then true else true then true else true`
the condition ends at the second `then`, which is its own. -/
example :
    split (Expr.cond (.cond (.cond .truth .truth .truth) .truth .truth) .zero .zero).run =
      .ok ⟨⟨.cond :: (Expr.cond .truth .truth .truth).run, true⟩, ⟨[.word .truth], false⟩,
        ⟨[.word .truth, .word .thenBranch, .word .zero, .word .elseBranch, .word .zero], false⟩⟩ :=
  rfl

end Conditional
end TypeDeduction

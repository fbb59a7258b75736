/-
# Brackets that stay open

A left bracket *stays open* in a run if every segment that starts with it has more left
brackets than right ones (`Run.StaysOpen`).  Whether it does is decided by the surplus of what
follows it, that is by how many right brackets there close nothing.  The surplus is the
furthest that the balance falls below zero (`Run.surplus_le_iff`), and the bracket stays open
exactly if after it the balance never does (`Run.staysOpen_iff_drop`).

`Run.lastUnmatched` reads a run from its end and keeps the surplus of what it has read, so what
it finds is the last bracket that stays open (`Run.lastUnmatched_eq_some_iff`).  A reading from
the start, with a stack of the positions that are open, ends with the same bracket on top
(`Run.head?_openPositions`).  Neither asks that the brackets are well nested.
-/

import TypeDeduction.Proofs.Domains

namespace TypeDeduction
namespace Run

variable {run : Run} {i : Nat}

/-- The tokens from one position of a run up to another, both included. -/
def segment (run : Run) (i j : Nat) : Run := (run.drop i).take (j + 1 - i)

/-- At this position stands a left bracket that nothing closes: wherever the run is cut off
after it, more brackets are opened from there on than closed. -/
def StaysOpen (run : Run) (i : Nat) : Prop :=
  run[i]? = some .lparen ∧
    ∀ j, i ≤ j → (run.segment i j).count .rparen < (run.segment i j).count .lparen

/-! ### The surplus -/

/-- A token takes its weight off the surplus of what follows it, but never below zero. -/
theorem surplus_cons_le_iff (t : Token) (run : Run) (m : Int) :
    (surplus (t :: run) : Int) ≤ m ↔ 0 ≤ m ∧ (surplus run : Int) ≤ m + weight t := by
  rw [surplus_cons, weight]
  by_cases hl : t = .lparen
  · rw [if_pos hl, if_pos hl]
    omega
  · rw [if_neg hl, if_neg hl]
    split <;> omega

/-- **The surplus is how far the balance falls below zero** when a run is read from its
start. -/
theorem surplus_le_iff (run : Run) (m : Int) :
    (run.surplus : Int) ≤ m ↔ ∀ n, -m ≤ balance (run.take n) := by
  induction run generalizing m with
  | nil => simp [surplus, unmatched, balance]
  | cons t run ih =>
      rw [surplus_cons_le_iff, ih]
      constructor
      · rintro ⟨hm, hrest⟩ (_ | n)
        · rw [List.take_zero, balance]
          omega
        · have hn := hrest n
          rw [List.take_succ_cons, balance]
          omega
      · intro h
        refine ⟨?_, fun n => ?_⟩
        · have hnone := h 0
          rw [List.take_zero, balance] at hnone
          omega
        · have hn := h (n + 1)
          rw [List.take_succ_cons, balance] at hn
          omega

theorem surplus_eq_zero_iff : run.surplus = 0 ↔ ∀ n, 0 ≤ balance (run.take n) := by
  have hle := surplus_le_iff run 0
  rw [Int.neg_zero] at hle
  rw [← hle]
  omega

/-! ### Brackets that stay open -/

theorem drop_of_lparen (h : run[i]? = some .lparen) : ∃ rest, run.drop i = .lparen :: rest := by
  rw [← List.head?_drop] at h
  exact List.head?_eq_some_iff.1 h

/-- A left bracket stays open exactly if nothing after it is to spare to close it. -/
theorem staysOpen_iff_drop :
    run.StaysOpen i ↔ ∃ rest, run.drop i = .lparen :: rest ∧ surplus rest = 0 := by
  have hsegment (rest : Run) (hdrop : run.drop i = .lparen :: rest) (n : Nat) :
      ((run.segment i (i + n)).count .lparen : Int) - (run.segment i (i + n)).count .rparen =
        1 + balance (rest.take n) := by
    have hlast : i + n + 1 - i = n + 1 := by omega
    rw [← balance_eq_count_sub, segment, hdrop, hlast, List.take_succ_cons, balance]
    rfl
  constructor
  · rintro ⟨hopen, hmore⟩
    obtain ⟨rest, hdrop⟩ := drop_of_lparen hopen
    refine ⟨rest, hdrop, surplus_eq_zero_iff.2 fun n => ?_⟩
    have hcount := hmore (i + n) (Nat.le_add_right i n)
    have hbalance := hsegment rest hdrop n
    omega
  · rintro ⟨rest, hdrop, hsurplus⟩
    refine ⟨by rw [← List.head?_drop, hdrop, List.head?_cons], fun j hj => ?_⟩
    obtain ⟨n, rfl⟩ := Nat.exists_eq_add_of_le hj
    have hnonneg := surplus_eq_zero_iff.1 hsurplus n
    have hbalance := hsegment rest hdrop n
    omega

theorem staysOpen_cons_zero (t : Token) (run : Run) :
    StaysOpen (t :: run) 0 ↔ t = .lparen ∧ run.surplus = 0 := by
  rw [staysOpen_iff_drop, List.drop_zero]
  constructor
  · rintro ⟨rest, hcons, hsurplus⟩
    obtain ⟨rfl, rfl⟩ := List.cons.inj hcons
    exact ⟨rfl, hsurplus⟩
  · rintro ⟨rfl, hsurplus⟩
    exact ⟨run, rfl, hsurplus⟩

theorem staysOpen_cons_succ (t : Token) (run : Run) (i : Nat) :
    StaysOpen (t :: run) (i + 1) ↔ run.StaysOpen i := by
  rw [staysOpen_iff_drop, staysOpen_iff_drop, List.drop_succ_cons]

theorem lastUnmatched_eq_none_iff : run.lastUnmatched = none ↔ ∀ i, ¬ run.StaysOpen i := by
  induction run with
  | nil =>
      refine ⟨fun _ i hopen => ?_, fun _ => rfl⟩
      obtain ⟨rest, hdrop, -⟩ := staysOpen_iff_drop.1 hopen
      rw [List.drop_nil] at hdrop
      cases hdrop
  | cons t run ih =>
      have hcases : (∀ i, ¬ StaysOpen (t :: run) i) ↔
          ¬ (t = .lparen ∧ surplus run = 0) ∧ lastUnmatched run = none := by
        rw [ih, ← staysOpen_cons_zero]
        refine ⟨fun h => ⟨h 0, fun i hi => h (i + 1) ((staysOpen_cons_succ t run i).2 hi)⟩, ?_⟩
        rintro ⟨hfirst, hlater⟩ (_ | i) hopen
        · exact hfirst hopen
        · exact hlater i ((staysOpen_cons_succ t run i).1 hopen)
      rw [hcases, lastUnmatched_cons]
      cases lastUnmatched run with
      | some i => simp
      | none => simp

/-- **What is found stays open, and nothing after it does.** -/
theorem staysOpen_of_lastUnmatched (h : run.lastUnmatched = some i) :
    run.StaysOpen i ∧ ∀ k, run.StaysOpen k → k ≤ i := by
  induction run generalizing i with
  | nil => cases h
  | cons t run ih =>
      rw [lastUnmatched_cons] at h
      cases hlater : lastUnmatched run with
      | some j =>
          rw [hlater] at h
          obtain rfl := Option.some.inj h
          obtain ⟨hopen, hlast⟩ := ih hlater
          refine ⟨(staysOpen_cons_succ t run j).2 hopen, ?_⟩
          rintro (_ | k) hk
          · exact Nat.zero_le _
          · exact Nat.succ_le_succ (hlast k ((staysOpen_cons_succ t run k).1 hk))
      | none =>
          rw [hlater] at h
          dsimp only at h
          split at h
          · rename_i hfirst
            obtain rfl := Option.some.inj h
            refine ⟨(staysOpen_cons_zero t run).2 hfirst, ?_⟩
            rintro (_ | k) hk
            · exact Nat.le_refl 0
            · exact absurd ((staysOpen_cons_succ t run k).1 hk)
                (lastUnmatched_eq_none_iff.1 hlater k)
          · cases h

theorem lastUnmatched_eq_some_iff :
    run.lastUnmatched = some i ↔ run.StaysOpen i ∧ ∀ k, run.StaysOpen k → k ≤ i := by
  refine ⟨staysOpen_of_lastUnmatched, fun ⟨hopen, hlast⟩ => ?_⟩
  cases hfound : run.lastUnmatched with
  | none => exact absurd hopen (lastUnmatched_eq_none_iff.1 hfound i)
  | some j =>
      obtain ⟨hopen', hlast'⟩ := staysOpen_of_lastUnmatched hfound
      rw [Nat.le_antisymm (hlast' i hopen) (hlast j hopen')]

/-- The positions of the brackets that are open when a run has been read from its start, the
latest on top of the stack.  The run starts at position `n`, with a stack left by what stands
before it.  A right bracket takes one position off, if there is one. -/
def openPositions (n : Nat) (stack : List Nat) : Run → List Nat
  | [] => stack
  | t :: run =>
    if t = .lparen then openPositions (n + 1) (n :: stack) run
    else if t = .rparen then openPositions (n + 1) stack.tail run
    else openPositions (n + 1) stack run

/-- **What lies on top of the stack in the end**: the last bracket of the run that is not
closed in it, or what the right brackets to spare leave of the stack that was there before. -/
theorem head?_openPositions (n : Nat) (stack : List Nat) (run : Run) :
    (openPositions n stack run).head? =
      (run.lastUnmatched.map (n + ·)).or (stack.drop run.surplus).head? := by
  induction run generalizing n stack with
  | nil => rfl
  | cons t run ih =>
      have hshift (i : Nat) : n + 1 + i = n + (i + 1) := by omega
      rw [openPositions, lastUnmatched_cons, surplus_cons]
      by_cases hl : t = .lparen
      · rw [if_pos hl, if_pos hl, ih]
        cases lastUnmatched run with
        | some i => simp [hshift]
        | none =>
            -- A right bracket to spare closes this one, and the stack below it comes to light.
            cases surplus run with
            | zero => simp [hl]
            | succ m => simp
      · rw [if_neg hl, if_neg hl]
        by_cases hr : t = .rparen
        · rw [if_pos hr, if_pos hr, ih, List.drop_tail]
          cases lastUnmatched run with
          | some i => simp [hshift]
          | none => simp [hl]
        · rw [if_neg hr, if_neg hr, ih]
          cases lastUnmatched run with
          | some i => simp [hshift]
          | none => simp [hl]

/-- **The last unmatched bracket is the last one that stays open.**  In every run, however its
brackets stand, it is the largest position with a left bracket from which on every segment has
more left brackets than right ones, and there is none exactly if no position is such; a
well-nested run in particular has none.  It is what reading the run from its start leaves on
top of the stack of open positions. -/
theorem lastUnmatched_specified_by_segments (run : Run) :
    (∀ i, run.lastUnmatched = some i ↔ run.StaysOpen i ∧ ∀ k, run.StaysOpen k → k ≤ i) ∧
      (run.lastUnmatched = none ↔ ∀ i, ¬ run.StaysOpen i) ∧
      (run.WellNested → run.lastUnmatched = none) ∧
      run.lastUnmatched = (openPositions 0 [] run).head? := by
  refine ⟨fun i => lastUnmatched_eq_some_iff, lastUnmatched_eq_none_iff,
    WellNested.lastUnmatched, ?_⟩
  rw [head?_openPositions, List.drop_nil, List.head?_nil, Option.or_none]
  cases run.lastUnmatched with
  | none => rfl
  | some i => rw [Option.map_some, Nat.zero_add]

/-- The run `) ( ( 0 )`, with a right bracket that closes nothing and a left one that nothing
closes. -/
def strayClose : Run := [.rparen, .lparen, .lparen, .word .zero, .rparen]

theorem lastUnmatched_of_strayClose_and_brackets :
    strayClose.StaysOpen 1 ∧ ¬ strayClose.StaysOpen 2 ∧
      lastUnmatched (Expr.bracketed .zero).run = none := by
  obtain ⟨hsome, -, -, -⟩ := lastUnmatched_specified_by_segments strayClose
  obtain ⟨-, -, hnone, -⟩ := lastUnmatched_specified_by_segments (Expr.bracketed .zero).run
  obtain ⟨hopen, hlast⟩ := (hsome 1).1 rfl
  exact ⟨hopen, fun h => absurd (hlast 2 h) (by decide), hnone (Expr.wellNested_run _)⟩

end Run
end TypeDeduction

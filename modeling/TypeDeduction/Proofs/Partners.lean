/-
# Brackets and their partners

A left and a right bracket are *partners* if what stands between them is well nested.  Every
left bracket either stays open or has a partner (`Run.exists_partners_iff`), and it has no
second one (`Run.Partners.unique`).  In a well-nested run all left brackets have partners.

Stripping looks for no partners.  It takes off the first left bracket and the last right one,
wherever they stand, which keeps the balance (`Run.balance_strip`), but what it leaves of a
well-nested run is well nested only if the two are partners (`Run.wellNested_strip_iff`).
-/

import TypeDeduction.Proofs.Unmatched

namespace TypeDeduction
namespace Run

variable {run : Run} {i k : Nat}

/-- At the two positions stand a left bracket and the right bracket that closes it: all that
is opened between them is closed between them. -/
structure Partners (run : Run) (i k : Nat) : Prop where
  opens : run[i]? = some .lparen
  closes : run[k]? = some .rparen
  lt : i < k
  nested : (run.segment (i + 1) (k - 1)).WellNested

/-- At this position stands the last right bracket. -/
def LastClose (run : Run) (k : Nat) : Prop :=
  run[k]? = some .rparen ∧ ∀ j, k < j → run[j]? ≠ some .rparen

/-! ### Right brackets to spare -/

theorem wellNested_iff_surplus : run.WellNested ↔ run.balance = 0 ∧ run.surplus = 0 := by
  rw [surplus_eq_zero_iff, WellNested]

/-- Without right brackets there is none to spare. -/
theorem surplus_of_rparen_notMem (h : Token.rparen ∉ run) : run.surplus = 0 := by
  rw [surplus_eq_zero_iff]
  intro n
  exact balance_nonneg_of_rparen_notMem fun hmem => h (List.mem_of_mem_take hmem)

/-- A right bracket after a part that leaves nothing open has no partner. -/
theorem surplus_pos_of_balance {a : Run} (h : a.balance = 0) (b : Run) :
    0 < surplus (a ++ .rparen :: b) := by
  refine Nat.pos_of_ne_zero fun hzero => ?_
  have hclosed := surplus_eq_zero_iff.1 hzero (a.length + 1)
  have hw : weight .rparen = -1 := rfl
  rw [List.take_length_add_append, List.take_succ_cons, List.take_zero, balance_append, h,
    balance, balance, hw] at hclosed
  omega

/-- So a well-nested run does not go on after it. -/
theorem not_wellNested_append {a : Run} (h : a.balance = 0) (b : Run) :
    ¬ WellNested (a ++ .rparen :: b) := by
  intro hnested
  have hpos := surplus_pos_of_balance h b
  have hzero := (wellNested_iff_surplus.1 hnested).2
  omega

/-- A run with more than `m` right brackets to spare has the first of them beyond `m`: what
stands before it has closed `m` brackets more than it opened, and at no point more than that. -/
theorem exists_of_lt_surplus {m : Int} (hm : 0 ≤ m) (h : m < run.surplus) :
    ∃ a b, run = a ++ .rparen :: b ∧ balance a = -m ∧ (surplus a : Int) ≤ m := by
  induction run generalizing m with
  | nil => exact absurd h (Int.not_lt.2 hm)
  | cons t run ih =>
      have hlater : m + weight t < surplus run := by
        have hle := surplus_cons_le_iff t run m
        omega
      by_cases hfirst : 0 ≤ m + weight t
      · obtain ⟨a, b, rfl, hbalance, hsurplus⟩ := ih hfirst hlater
        refine ⟨t :: a, b, rfl, ?_, (surplus_cons_le_iff t a m).2 ⟨hm, hsurplus⟩⟩
        rw [balance, hbalance]
        omega
      · -- Only a right bracket takes the balance down, and it is the one looked for.
        have hclose : t = .rparen ∧ m = 0 := by
          rw [weight] at hfirst
          split at hfirst
          · omega
          · split at hfirst
            · exact ⟨‹_›, by omega⟩
            · omega
        obtain ⟨rfl, rfl⟩ := hclose
        exact ⟨[], run, rfl, rfl, Int.le_refl 0⟩

/-! ### Partners -/

theorem drop_succ_of_drop {t : Token} {rest : Run} (h : run.drop i = t :: rest) :
    run.drop (i + 1) = rest := by
  rw [← List.drop_drop, h, List.drop_one, List.tail_cons]

/-- Partners enclose a well-nested part of what follows the left bracket. -/
theorem partners_iff_drop :
    run.Partners i k ↔
      ∃ a b, run.drop i = .lparen :: (a ++ .rparen :: b) ∧ WellNested a ∧
        k = i + a.length + 1 := by
  constructor
  · rintro ⟨hopen, hclose, hlt, hnested⟩
    obtain ⟨rest, hdrop⟩ := drop_of_lparen hopen
    obtain ⟨m, rfl⟩ := Nat.exists_eq_add_of_lt hlt
    have hrest := drop_succ_of_drop hdrop
    have hclose' : rest[m]? = some .rparen := by
      rw [← hrest, List.getElem?_drop, ← hclose]
      congr 1
      omega
    obtain ⟨hm, hget⟩ := List.getElem?_eq_some_iff.1 hclose'
    have hlast : i + m + 1 - 1 + 1 - (i + 1) = m := by omega
    rw [segment, hrest, hlast] at hnested
    refine ⟨rest.take m, rest.drop (m + 1), ?_, hnested, ?_⟩
    · rw [hdrop, ← hget, ← List.drop_eq_getElem_cons hm, List.take_append_drop]
    · rw [List.length_take, Nat.min_eq_left (Nat.le_of_lt hm)]
  · rintro ⟨a, b, hdrop, hnested, rfl⟩
    have hrest := drop_succ_of_drop hdrop
    refine ⟨by rw [← List.head?_drop, hdrop, List.head?_cons], ?_, by omega, ?_⟩
    · have hindex : i + a.length + 1 = i + 1 + a.length := by omega
      rw [hindex, ← List.getElem?_drop, hrest, List.getElem?_append_right (Nat.le_refl _),
        Nat.sub_self, List.getElem?_cons_zero]
    · have hlast : i + a.length + 1 - 1 + 1 - (i + 1) = a.length := by omega
      rwa [segment, hrest, hlast, List.take_left]

/-- Only one well-nested part can stand before a right bracket. -/
theorem WellNested.eq_of_append {a a' b b' : Run} (ha : a.WellNested) (ha' : a'.WellNested)
    (h : a ++ .rparen :: b = a' ++ .rparen :: b') : a = a' := by
  -- The longer of the two would go on after a right bracket that has no partner in it.
  rcases List.append_eq_append_iff.1 h with ⟨_ | ⟨t, c⟩, hlong, hrest⟩ | ⟨_ | ⟨t, c⟩, hlong, hrest⟩
  · rw [hlong, List.append_nil]
  · obtain ⟨rfl, -⟩ := List.cons.inj hrest
    rw [hlong] at ha'
    exact absurd ha' (not_wellNested_append ha.1 c)
  · rw [hlong, List.append_nil]
  · obtain ⟨rfl, -⟩ := List.cons.inj hrest
    rw [hlong] at ha
    exact absurd ha (not_wellNested_append ha'.1 c)

/-- **A left bracket has at most one partner.** -/
theorem Partners.unique {l : Nat} (hk : run.Partners i k) (hl : run.Partners i l) : k = l := by
  obtain ⟨a, b, hdrop, ha, rfl⟩ := partners_iff_drop.1 hk
  obtain ⟨a', b', hdrop', ha', rfl⟩ := partners_iff_drop.1 hl
  rw [hdrop] at hdrop'
  rw [ha.eq_of_append ha' (List.cons.inj hdrop').2]

/-- **A left bracket has a partner exactly if it does not stay open.** -/
theorem exists_partners_iff (h : run[i]? = some .lparen) :
    (∃ k, run.Partners i k) ↔ ¬ run.StaysOpen i := by
  rw [staysOpen_iff_drop]
  constructor
  · rintro ⟨k, hpartners⟩ ⟨rest, hdrop, hsurplus⟩
    obtain ⟨a, b, hdrop', ha, -⟩ := partners_iff_drop.1 hpartners
    obtain rfl := (List.cons.inj (hdrop.symm.trans hdrop')).2
    have hpos := surplus_pos_of_balance ha.1 b
    omega
  · intro hclosed
    obtain ⟨rest, hdrop⟩ := drop_of_lparen h
    have hne : surplus rest ≠ 0 := fun hzero => hclosed ⟨rest, hdrop, hzero⟩
    have hpos : (0 : Int) < surplus rest := by omega
    obtain ⟨a, b, rfl, hbalance, hsurplus⟩ := exists_of_lt_surplus (Int.le_refl 0) hpos
    have ha : WellNested a := wellNested_iff_surplus.2 ⟨hbalance, by omega⟩
    exact ⟨i + a.length + 1, partners_iff_drop.2 ⟨a, b, hdrop, ha, rfl⟩⟩

/-- In a well-nested run every left bracket has a partner. -/
theorem WellNested.exists_partners (hrun : run.WellNested) (h : run[i]? = some .lparen) :
    ∃ k, run.Partners i k :=
  (exists_partners_iff h).2 (lastUnmatched_eq_none_iff.1 hrun.lastUnmatched i)

/-! ### Stripping -/

/-- What stripping does to a run: nothing, or a left bracket and a later right bracket are
taken out. -/
theorem strip_cases (run : Run) :
    run.strip = run ∨
      ∃ front a b, run = front ++ .lparen :: (a ++ .rparen :: b) ∧
        run.strip = front ++ (a ++ b) := by
  induction run with
  | nil => exact .inl rfl
  | cons t run ih =>
      rw [strip]
      by_cases hl : t = .lparen
      · rw [if_pos hl]
        by_cases hr : Token.rparen ∈ run
        · obtain ⟨a, b, rfl, hb⟩ := exists_lastClose hr
          rw [dropLastClose_append a hb, Option.getD_some]
          exact .inr ⟨[], a, b, by rw [hl, List.nil_append], rfl⟩
        · rw [(dropLastClose_eq_none_iff run).2 hr, Option.getD_none]
          exact .inl rfl
      · rw [if_neg hl]
        rcases ih with hsame | ⟨front, a, b, hrun, hstrip⟩
        · exact .inl (by rw [hsame])
        · exact .inr ⟨t :: front, a, b, by rw [hrun]; rfl, by rw [hstrip]; rfl⟩

theorem balance_strip (run : Run) : run.strip.balance = run.balance := by
  rcases strip_cases run with hsame | ⟨front, a, b, hrun, hstrip⟩
  · rw [hsame]
  · rw [hstrip, hrun, balance_append front, balance_append front, balance_bracketed]

theorem lastClose_append_iff (a b : Run) :
    LastClose (a ++ .rparen :: b) a.length ↔ Token.rparen ∉ b := by
  have hhere : (a ++ .rparen :: b)[a.length]? = some .rparen := by
    rw [List.getElem?_append_right (Nat.le_refl _), Nat.sub_self, List.getElem?_cons_zero]
  have hlater (n : Nat) : (a ++ .rparen :: b)[a.length + 1 + n]? = b[n]? := by
    have hindex : a.length + 1 + n - a.length = n + 1 := by omega
    rw [List.getElem?_append_right (by omega), hindex, List.getElem?_cons_succ]
  constructor
  · rintro ⟨-, hnone⟩ hmem
    obtain ⟨n, hn⟩ := List.mem_iff_getElem?.1 hmem
    exact hnone (a.length + 1 + n) (by omega) ((hlater n).trans hn)
  · refine fun hb => ⟨hhere, fun j hj hclose => hb ?_⟩
    obtain ⟨n, rfl⟩ := Nat.exists_eq_add_of_le (Nat.succ_le_of_lt hj)
    exact List.mem_iff_getElem?.2 ⟨n, (hlater n).symm.trans hclose⟩

/-- **Stripping keeps a run well nested exactly if it takes off partners**, that is if the
partner of its first bracket is its last right bracket. -/
theorem wellNested_strip_iff (hrun : run.WellNested) (h : run.Partners 0 k) :
    run.strip.WellNested ↔ run.LastClose k := by
  obtain ⟨a, b, hdrop, ha, rfl⟩ := partners_iff_drop.1 h
  rw [List.drop_zero] at hdrop
  subst hdrop
  have hlast := lastClose_append_iff (.lparen :: a) b
  rw [List.length_cons, List.cons_append] at hlast
  rw [Nat.zero_add, hlast]
  constructor
  · -- A right bracket in `b` would be taken off instead and leave the partner behind.
    intro hstrip hmem
    obtain ⟨c, d, rfl, hd⟩ := exists_lastClose hmem
    have hleft := strip_eq_append (a ++ .rparen :: c) hd
    rw [List.append_assoc, List.cons_append, List.append_assoc, List.cons_append] at hleft
    rw [hleft] at hstrip
    exact not_wellNested_append ha.1 (c ++ d) hstrip
  · intro hb
    have hsum := hrun.1
    rw [balance_bracketed, balance_append, ha.1, Int.zero_add] at hsum
    rw [strip_eq_append a hb]
    exact ha.append (wellNested_iff_surplus.2 ⟨hsum, surplus_of_rparen_notMem hb⟩)

/-- **What stripping does to brackets.**  It never changes the balance of a run.  From a run
that starts with a left bracket and balances it takes out two tokens, that bracket and the
last right bracket, and leaves the others in their order.  The first bracket of a well-nested
run has exactly one partner, and what stripping leaves is well nested exactly if that partner
is the last right bracket of the run. -/
theorem strip_specified_by_partners (run : Run) :
    run.strip.balance = run.balance ∧
      (run.head? = some .lparen → run.balance = 0 →
        ∃ a b, run = .lparen :: (a ++ .rparen :: b) ∧ Token.rparen ∉ b ∧ run.strip = a ++ b) ∧
      (run.head? = some .lparen → run.WellNested →
        ∃ k, run.Partners 0 k ∧ (∀ l, run.Partners 0 l → l = k) ∧
          (run.strip.WellNested ↔ run.LastClose k)) := by
  refine ⟨balance_strip run, fun hhead hbalance => ?_, fun hhead hrun => ?_⟩
  · obtain ⟨rest, rfl⟩ := List.head?_eq_some_iff.1 hhead
    obtain ⟨a, b, rfl, hb⟩ := exists_lastClose_of_balance hbalance
    exact ⟨a, b, rfl, hb, strip_eq_append a hb⟩
  · rw [List.head?_eq_getElem?] at hhead
    obtain ⟨k, hk⟩ := hrun.exists_partners hhead
    exact ⟨k, hk, fun l hl => hl.unique hk, wellNested_strip_iff hrun hk⟩

/-- The run `( 0 ) ( 0 )`, whose first bracket is not closed by its last. -/
def twoPairs : Run := (Expr.bracketed .zero).run ++ (Expr.bracketed .zero).run

theorem strip_of_twoPairs :
    twoPairs.strip = [.word .zero, .rparen, .lparen, .word .zero] ∧
      twoPairs.strip.balance = twoPairs.balance ∧
      (∃ a b, twoPairs = .lparen :: (a ++ .rparen :: b) ∧ Token.rparen ∉ b ∧
        twoPairs.strip = a ++ b) ∧
      ¬ twoPairs.strip.WellNested := by
  have hnested : twoPairs.WellNested := (Expr.wellNested_run _).append (Expr.wellNested_run _)
  obtain ⟨hbalance, htaken, hpartner⟩ := strip_specified_by_partners twoPairs
  obtain ⟨k, hk, hunique, hiff⟩ := hpartner rfl hnested
  refine ⟨rfl, hbalance, htaken rfl hnested.1, fun hstrip => ?_⟩
  have hfirst : twoPairs.Partners 0 2 :=
    partners_iff_drop.2 ⟨[.word .zero], _, rfl, Expr.wellNested_run .zero, rfl⟩
  rw [← hunique 2 hfirst] at hiff
  exact (hiff.1 hstrip).2 5 (by decide) rfl

end Run
end TypeDeduction

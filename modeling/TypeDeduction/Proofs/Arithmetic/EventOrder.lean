/-
# Events come in the order of the tree

The arithmetic engine leaves an event for each run before it derives it, so an event comes
before those of the parts of the run, while the step over the parts is made afterwards.  The
tree is thus built from the leaves down, but its events list it from the root up: they are
the steps in pre-order, each with its depth (`Proof.visits`).  An event *announces* its step
(`Announces`): it names the word that the run of the step starts with and the depth, in its
data and in the line that is written for it.

On success this is shown along the derivation (`Derives.announced`).  A rule adds no event to
those of its premises, and it derives these from left to right (`Rule.events_conditional`,
`Rule.events_bracketed`).  Before a failure nothing but such announcements is left
(`derive_leavesOnly`), whichever run fails and on whichever level.
-/

import Mathlib.Data.List.Forall2
import TypeDeduction.Proofs.Arithmetic.Accounting
import TypeDeduction.Proofs.Reports
import TypeDeduction.Proofs.Steps

namespace TypeDeduction

/-! ### Steps in pre-order -/

namespace Proof

mutual

/-- The steps of a tree in pre-order, each with its depth, the root being at the given one
and a premise one below its step. -/
def visits (depth : Nat) : Proof → List (Inference × Nat)
  | .step i ps => (i, depth) :: visitsAll (depth + 1) ps
  | .lookup _ => []

/-- The steps of several trees, one tree after the other, their roots being at the given
depth. -/
def visitsAll (depth : Nat) : List Proof → List (Inference × Nat)
  | [] => []
  | p :: ps => visits depth p ++ visitsAll depth ps

end

theorem visitsAll_eq_flatMap (depth : Nat) (ps : List Proof) :
    visitsAll depth ps = ps.flatMap (visits depth) := by
  induction ps with
  | nil => rfl
  | cons p ps ih => rw [visitsAll, ih, List.flatMap_cons]

theorem visits_step (depth : Nat) (i : Inference) (ps : List Proof) :
    (Proof.step i ps).visits depth = (i, depth) :: ps.flatMap (visits (depth + 1)) := by
  rw [visits, visitsAll_eq_flatMap]

/-- The visits are the nodes at which a rule is applied, in their order. -/
theorem map_visits (depth : Nat) (p : Proof) :
    (p.visits depth).map (fun visit => Node.inference visit.1) =
      p.nodes.filter (·.rule?.isSome) := by
  induction p using induct generalizing depth with
  | step i ps ih =>
      rw [visits_step, nodes_step, List.map_cons, List.map_flatMap, List.filter_cons_of_pos rfl,
        List.filter_flatMap, List.flatMap_congr fun q hq => ih q hq (depth + 1)]
  | lookup l => rfl

end Proof

/-! ### The lines of events -/

/-- The event is written by the logger, on the level and as the line that are given. -/
structure Event.WrittenAs (event : Event) (logger : String) (level : Event.Level)
    (line : String) : Prop where
  logger_eq : event.logger = logger
  level_eq : event.level = level
  message_eq : event.message = line

/-- The event says that a run of arithmetic is derived at the depth of the visit, and names
the word that the run starts with; its line names both. -/
def Announces (visit : Inference × Nat) (event : Event) : Prop :=
  ∃ (w : Word) (expected : Signature),
    event = .dispatch .arithmetic (.word w) expected visit.2 ∧
      visit.1.conclusion.subject.head? = some w.text ∧
      event.WrittenAs "derivtree.rules.common" .debug
        ("common: " ++ w.text ++ " against " ++ expected.text ++
          " (depth " ++ toString visit.2 ++ ")")

/-- An alert is the text of its code, with the detail after a colon. -/
theorem Alert.message_eq_append (a : Alert) :
    a.message = a.code.message ++ a.detail.elim "" (": " ++ ·) := by
  obtain ⟨code, detail⟩ := a
  cases detail with
  | none => exact String.append_empty.symm
  | some detail => exact String.append_assoc

/-! ### Events of the shared rules -/

namespace Rule

variable {conclude : Signature → Judgment} {run : Run} {expected : Signature} {inner : Bool}

/-- A conditional that succeeds leaves the events of its clauses. -/
theorem events_conditional {derive : Run → Signature → Bool → Traced Proof} {parts : Conditional}
    {pc pt pr : Proof} (hs : Conditional.split run = .ok parts)
    (hc : (derive parts.condition.run .bool parts.condition.nested).outcome = .ok pc)
    (ht : (derive parts.thenBranch.run expected parts.thenBranch.nested).outcome = .ok pt)
    (hr : (derive parts.elseBranch.run expected parts.elseBranch.nested).outcome = .ok pr)
    (agree : pt.type.head? = pr.type.head?) :
    (conditional derive conclude run expected inner).events =
      (derive parts.condition.run .bool parts.condition.nested).events ++
        ((derive parts.thenBranch.run expected parts.thenBranch.nested).events ++
          (derive parts.elseBranch.run expected parts.elseBranch.nested).events) := by
  have hlift : (Traced.lift (Conditional.split run)).outcome = .ok parts := hs
  rw [conditional, Traced.events_bind hlift, Traced.events_bind hc, Traced.events_bind ht,
    Traced.events_bind hr, if_neg (Decidable.not_not.2 agree)]
  simp [Traced.lift, Pure.pure, Traced.pure]

/-- Brackets that succeed leave the events of what they enclose. -/
theorem events_bracketed {calculus : Calculus} {derive : Run → Signature → Traced Proof}
    {q : Proof} (hl : 3 ≤ run.length) (hb : run.balance = 0)
    (hq : (derive run.strip expected).outcome = .ok q) :
    (bracketed calculus derive conclude run expected).events =
      (derive run.strip expected).events := by
  rw [bracketed, if_neg (by omega), if_neg (Decidable.not_not.2 hb), Traced.events_bind hq]
  exact List.append_nil _

end Rule

namespace Arithmetic

variable {limit : Int} {style : Presentation} {left depth : Nat} {run rest : Run}
  {expected : Signature} {inner : Bool} {p : Proof}

/-! ### Derivations that succeed -/

/-- A run is announced before its parts are derived. -/
theorem announced_step {w : Word} {i : Inference} {ps : List Proof}
    (hb : Run.balance (.word w :: rest) = 0) (hd : depth + (left + 1) = Depth.levels limit + 1)
    (hi : i.conclusion.subject = Run.subject (.word w :: rest))
    (hps : List.Forall₂ Announces (ps.flatMap (Proof.visits (depth + 1)))
      (dispatch style (derive limit style left) (.word w) rest expected inner).events) :
    List.Forall₂ Announces ((Proof.step i ps).visits depth)
      (derive limit style (left + 1) (.word w :: rest) expected inner).events := by
  have hdepth : Depth.reached limit left = depth := by
    unfold Depth.reached
    omega
  rw [derive_cons hb, Traced.events_bind rfl, Proof.visits_step, hdepth]
  have hhead : i.conclusion.subject.head? = some w.text := by
    rw [hi]
    rfl
  exact .cons ⟨w, expected, rfl, hhead, rfl, rfl, rfl⟩ hps

/-- **A derivation that is found was announced step by step, in pre-order.**  The induction is
on the derivation; the levels left and the depth add up to one more than the limit. -/
theorem Derives.announced (h : Derives style run expected inner p) (hl : p.height ≤ left)
    (hd : depth + left = Depth.levels limit + 1) :
    List.Forall₂ Announces (p.visits depth)
      (derive limit style left run expected inner).events := by
  have hb := h.balance_eq_zero
  induction h generalizing left depth with
  | truth | falsity | zero =>
      obtain ⟨l, rfl, -⟩ := Proof.height_step_le_iff.1 hl
      exact announced_step hb hd rfl .nil
  | @unary op rest expected inner q operand ih =>
      obtain ⟨l, rfl, hm⟩ := height_unaryStep_le_iff.1 hl
      obtain ⟨i, hstep, -, hsubject⟩ := exists_unaryStep_eq op
      rw [hstep]
      refine announced_step hb hd hsubject ?_
      rw [dispatch_unary operand.ne_nil, Traced.events_bind (operand.outcome_eq hm)]
      have hbelow : depth + 1 + l = Depth.levels limit + 1 := by omega
      have hq := ih hm hbelow operand.balance_eq_zero
      simpa [Pure.pure, Traced.pure] using hq
  | @cond rest parts expected inner pc pt pr hs hc ht hr agree ihc iht ihr =>
      obtain ⟨l, rfl, hm⟩ := Proof.height_step_le_iff.1 hl
      simp only [List.mem_cons, List.not_mem_nil, or_false, forall_eq_or_imp, forall_eq] at hm
      obtain ⟨hmc, hmt, hmr⟩ := hm
      refine announced_step hb hd rfl ?_
      rw [dispatch, Rule.events_conditional hs (hc.outcome_eq hmc) (ht.outcome_eq hmt)
        (hr.outcome_eq hmr) agree]
      have hbelow : depth + 1 + l = Depth.levels limit + 1 := by omega
      have hclauses := List.rel_append (ihc hmc hbelow hc.balance_eq_zero)
        (List.rel_append (iht hmt hbelow ht.balance_eq_zero) (ihr hmr hbelow hr.balance_eq_zero))
      simpa using hclauses
  | @bracketed a b expected inner q hlast hq ih =>
      obtain ⟨l, rfl, hm⟩ := Proof.height_step_le_iff.1 hl
      have hmq := hm q (List.mem_singleton_self q)
      have hlen : 3 ≤ (Token.lparen :: (a ++ .rparen :: b)).length := by
        have := List.length_pos_iff.2 hq.ne_nil
        simp only [List.length_append, List.length_cons] at this ⊢
        omega
      have hstrip : Run.strip (.lparen :: (a ++ .rparen :: b)) = a ++ b :=
        Run.strip_eq_append a hlast
      refine announced_step hb hd rfl ?_
      rw [dispatch, Rule.events_bracketed hlen hb (by rw [hstrip]; exact hq.outcome_eq hmq), hstrip]
      have hbelow : depth + 1 + l = Depth.levels limit + 1 := by omega
      simpa using ih hmq hbelow hq.balance_eq_zero

end Arithmetic

/-! ### Events on the way to a failure -/

/-- The event says that a run of arithmetic is derived. -/
def Event.IsDispatch (event : Event) : Prop :=
  ∃ head expected depth, event = .dispatch .arithmetic head expected depth

theorem Event.IsDispatch.logger_and_level {event : Event} (h : event.IsDispatch) :
    event.logger = "derivtree.rules.common" ∧ event.level = .debug := by
  obtain ⟨head, expected, depth, rfl⟩ := h
  exact ⟨rfl, rfl⟩

/-- **A derivation leaves nothing but the events of the runs that it derives**, whether it
succeeds or not. -/
theorem Arithmetic.derive_leavesOnly (limit : Int) (style : Presentation) (left : Nat) (run : Run)
    (expected : Signature) (inner : Bool) :
    (derive limit style left run expected inner).LeavesOnly Event.IsDispatch := by
  induction left generalizing run expected inner with
  | zero =>
      refine .of_events_nil ?_
      cases run with
      | nil => rfl
      | cons head rest =>
          rw [derive]
          split <;> rfl
  | succ left ih =>
      exact derive_succ_inherits Traced.LeavesOnly.inherited
        (fun _ _ _ => .of_events_nil rfl) (fun head e n => .note ⟨head, e, n, rfl⟩)
        fun part e i _ => ih part e i

/-! ### Reports -/

namespace Arithmetic

/-- **The events of a report list its tree in pre-order.**  If there is a tree, its steps are
announced in pre-order, one event each with the word that the run of the step starts with and
the depth, where the root is at depth one and a premise one below its step.  If and only if
something does not fit, one more event says so, and no event is a warning.  If there is no
tree, the last event is the only warning.  It has the alert of the failure, and a listener is
told that alert without its detail.  The announcements are written by the logger of the
calculus, and what is said of the whole derivation by the shared one. -/
theorem events_list_tree_in_preorder (s : Settings) (style : Presentation) (run : Run)
    (expected : Signature) :
    (∀ p, (report s style run expected).tree = some p →
      ∃ announced, (report s style run expected).events =
          announced ++ (if p.hasMismatch then [.flagged p.type] else []) ∧
        List.Forall₂ Announces (p.visits 1) announced ∧
        (p.visits 1).map (fun visit => Proof.Node.inference visit.1) =
          p.nodes.filter (·.rule?.isSome) ∧
        (Event.flagged p.type).WrittenAs "derivtree.rules.base" .debug
          ("derivation of type " ++ p.type.text ++ " has mismatched steps") ∧
        ∀ event ∈ (report s style run expected).events, event.level = .debug) ∧
      ((report s style run expected).tree = none →
        ∃ before f, (tree s style run expected).outcome = .error f ∧
          (report s style run expected).events = before ++ [.failed f.alert] ∧
          (∀ event ∈ before,
            event.logger = "derivtree.rules.common" ∧ event.level = .debug) ∧
          (Event.failed f.alert).WrittenAs "derivtree.rules.base" .warning
            ("derivation failed: " ++ f.alert.message) ∧
          f.alert.message = f.alert.code.message ++ f.alert.detail.elim "" (": " ++ ·) ∧
          (report s style run expected).notices =
            [Alert.message { f.alert with detail := none }] ∧
          (report s style run expected).notices = [f.alert.code.message]) := by
  have hdispatches : (tree s style run expected).LeavesOnly Event.IsDispatch :=
    derive_leavesOnly _ _ _ _ _ _
  cases ho : (tree s style run expected).outcome with
  | error f =>
      have hreport : report s style run expected = _ := Report.ofTraced_of_error ho
      rw [hreport]
      refine ⟨fun p hp => (by cases hp), fun _ => ?_⟩
      exact ⟨_, f, rfl, rfl, fun event h => (hdispatches event h).logger_and_level,
        ⟨rfl, rfl, rfl⟩, f.alert.message_eq_append, rfl, rfl⟩
  | ok p =>
      obtain ⟨hd, hheight⟩ := derive_eq_ok_iff.1 ho
      obtain ⟨text, htext⟩ := (Proof.exists_markup_iff_typed (s := s)).2 hd.typed.1
      have hreport : report s style run expected = _ := Report.ofTraced_of_written ho htext
      rw [hreport]
      refine ⟨fun q hq => ?_, fun h => by cases h⟩
      obtain rfl := Option.some.inj hq
      refine ⟨_, rfl, hd.announced hheight (Nat.add_comm _ _), p.map_visits 1, ⟨rfl, rfl, rfl⟩,
        fun event h => ?_⟩
      rcases List.mem_append.1 h with h | h
      · exact (hdispatches event h).logger_and_level.2
      · split at h
        · rw [List.mem_singleton.1 h]
          rfl
        · cases h

/-- The run `if iszero 0 then succ true else 0`, whose first branch has an operand that does
not fit. -/
def flaggedBranch : Run :=
  [.cond, .word .iszero, .word .zero, .word .thenBranch, .word .succ, .word .truth,
    .word .elseBranch, .word .zero]

/-- The run `iszero succ then`, in which no term starts with the innermost word. -/
def misplacedThen : Run := [.word .iszero, .word .succ, .word .thenBranch]

theorem events_of_flaggedBranch_and_misplacedThen :
    (∃ p announced, (report {} .bare flaggedBranch .nat).tree = some p ∧
      (report {} .bare flaggedBranch .nat).events = announced ++ [.flagged p.type] ∧
      List.Forall₂ Announces (p.visits 1) announced ∧
      (p.visits 1).map (·.2) = [1, 2, 3, 2, 3, 2] ∧
      (Event.flagged p.type).WrittenAs "derivtree.rules.base" .debug
        "derivation of type Nat has mismatched steps" ∧
      announced.map (·.message) =
        ["common: if against Nat (depth 1)", "common: iszero against Bool (depth 2)",
          "common: 0 against Nat (depth 3)", "common: succ against Nat (depth 2)",
          "common: true against Nat (depth 3)", "common: 0 against Nat (depth 2)"]) ∧
    ∃ before f, (report {} .bare misplacedThen .bool).tree = none ∧
      (tree {} .bare misplacedThen .bool).outcome = .error f ∧ f.alert.detail ≠ none ∧
      (report {} .bare misplacedThen .bool).events = before ++ [.failed f.alert] ∧
      (∀ event ∈ before, event.logger = "derivtree.rules.common" ∧ event.level = .debug) ∧
      (Event.failed f.alert).WrittenAs "derivtree.rules.base" .warning
        "derivation failed: Undefined error (#001.3): cannot start with 'then'" ∧
      (report {} .bare misplacedThen .bool).notices = ["Undefined error (#001.3)"] := by
  constructor
  · obtain ⟨announced, hevents, hannounced, -, hflagged, -⟩ :=
      (events_list_tree_in_preorder {} .bare flaggedBranch .nat).1 _ rfl
    refine ⟨_, announced, rfl, hevents, hannounced, rfl, hflagged, ?_⟩
    obtain rfl := List.append_cancel_right hevents
    rfl
  · obtain ⟨before, f, hf, hevents, hbefore, hfailed, -, -, hnotices⟩ :=
      (events_list_tree_in_preorder {} .bare misplacedThen .bool).2 rfl
    obtain rfl := Except.error.inj hf
    exact ⟨before, _, rfl, rfl, by decide, hevents, hbefore, hfailed, hnotices⟩

end Arithmetic
end TypeDeduction

/-
# Reading a tree node by node

A statement about a whole derivation is a statement about each of its nodes, or
about each of its steps together with the premises above it.  The first kind
ranges over `Proof.nodes`, the second over `Proof.subproofs`, the trees that hang
at the nodes.  Both come apart at a step into the step itself and its premises
(`forall_nodes_step`, `mem_subproofs_step`), so that an induction over a
derivation never looks into the lists.

A property of steps and their premises holds of a tree if it holds `Everywhere` in it.
What is shown of a step from its premises holds of all trees (`Proof.induct`).

Two conditions on statuses recur.  A derivation without mismatch has only exact
nodes (`hasMismatch_eq_false_iff`).  A weaker one lets the steps of a single rule
be flagged (`FlaggedOnly`); no lookup is flagged then.  Trees that differ in such flags
alone are the same once these are taken off (`unflag`).
-/

import TypeDeduction.Proof

namespace TypeDeduction

namespace Status

@[simp]
theorem ofFit_eq_exact_iff (fits : Bool) : ofFit fits = .exact ↔ fits = true := by
  cases fits <;> simp [ofFit]

@[simp]
theorem ofFit_eq_mismatched_iff (fits : Bool) : ofFit fits = .mismatched ↔ fits = false := by
  cases fits <;> simp [ofFit]

/-- A node that is not flagged is exact. -/
theorem ne_mismatched_iff (s : Status) : s ≠ .mismatched ↔ s = .exact := by
  cases s <;> simp

end Status

namespace Proof

@[simp]
theorem type_step (i : Inference) (ps : List Proof) : (Proof.step i ps).type = i.type := rfl

@[simp]
theorem status_step (i : Inference) (ps : List Proof) : (Proof.step i ps).status = i.status := rfl

mutual

/-- What holds of lookups, and of a step as soon as of its premises, holds of all trees. -/
theorem induct {motive : Proof → Prop}
    (step : ∀ i ps, (∀ q ∈ ps, motive q) → motive (.step i ps))
    (lookup : ∀ l, motive (.lookup l)) : ∀ p, motive p
  | .step i ps => step i ps (inductAll step lookup ps)
  | .lookup l => lookup l

theorem inductAll {motive : Proof → Prop}
    (step : ∀ i ps, (∀ q ∈ ps, motive q) → motive (.step i ps))
    (lookup : ∀ l, motive (.lookup l)) : ∀ ps : List Proof, ∀ q ∈ ps, motive q
  | [] => List.forall_mem_nil _
  | p :: ps => List.forall_mem_cons.2 ⟨induct step lookup p, inductAll step lookup ps⟩

end

/-- A property of all nodes of a step is one of the step and of its premises' nodes. -/
theorem forall_nodes_step {P : Node → Prop} {i : Inference} {ps : List Proof} :
    (∀ n ∈ (Proof.step i ps).nodes, P n) ↔ P (.inference i) ∧ ∀ q ∈ ps, ∀ n ∈ q.nodes, P n := by
  rw [nodes_step, List.forall_mem_cons, List.forall_mem_flatMap]

/-! ### Statuses -/

/-- Of all nodes only steps of the given rule are flagged. -/
def FlaggedOnly (rule : Rule) (p : Proof) : Prop :=
  ∀ n ∈ p.nodes, n.status = .mismatched → n.rule? = some rule.name

instance (rule : Rule) (p : Proof) : Decidable (p.FlaggedOnly rule) :=
  inferInstanceAs (Decidable (∀ n ∈ p.nodes, _))

/-- A step of the given rule may be flagged or not. -/
theorem flaggedOnly_step_of_eq {rule : Rule} {i : Inference} {ps : List Proof}
    (h : i.rule = rule.name) :
    (Proof.step i ps).FlaggedOnly rule ↔ ∀ q ∈ ps, q.FlaggedOnly rule := by
  rw [FlaggedOnly, forall_nodes_step]
  simp only [Node.rule?, h, implies_true, true_and]
  rfl

/-- A step of another rule may not. -/
theorem flaggedOnly_step_of_ne {rule r : Rule} {i : Inference} {ps : List Proof}
    (hi : i.rule = r.name) (h : r.name ≠ rule.name) :
    (Proof.step i ps).FlaggedOnly rule ↔ i.status = .exact ∧ ∀ q ∈ ps, q.FlaggedOnly rule := by
  rw [FlaggedOnly, forall_nodes_step]
  simp only [Node.status, Node.rule?, Option.some.injEq, hi, h, imp_false,
    Status.ne_mismatched_iff]
  rfl

theorem flaggedOnly_lookup {rule : Rule} {l : Lookup} :
    (Proof.lookup l).FlaggedOnly rule ↔ l.status = .exact := by
  simp [FlaggedOnly, nodes, Node.status, Node.rule?, Status.ne_mismatched_iff]

/-- There is no mismatch if every node is exact. -/
theorem hasMismatch_eq_false_iff {p : Proof} :
    p.hasMismatch = false ↔ ∀ n ∈ p.nodes, n.status = .exact := by
  simp [hasMismatch, Status.ne_mismatched_iff]

/-- A derivation without mismatch has no flag at all. -/
theorem flaggedOnly_of_hasMismatch_eq_false {p : Proof} (h : p.hasMismatch = false)
    (rule : Rule) : p.FlaggedOnly rule := by
  intro n hn hm
  rw [hasMismatch_eq_false_iff.1 h n hn] at hm
  cases hm

theorem hasMismatch_step {i : Inference} {ps : List Proof} :
    (Proof.step i ps).hasMismatch = false ↔
      i.status = .exact ∧ ∀ q ∈ ps, q.hasMismatch = false := by
  simp only [hasMismatch_eq_false_iff, forall_nodes_step, Node.status]

theorem hasMismatch_lookup {l : Lookup} :
    (Proof.lookup l).hasMismatch = false ↔ l.status = .exact := by
  simp [hasMismatch_eq_false_iff, nodes, Node.status]

/-! ### Rules -/

theorem rules_step (i : Inference) (ps : List Proof) :
    (Proof.step i ps).rules = i.rule :: ps.flatMap rules := by
  rw [rules, nodes_step, List.filterMap_cons, List.filterMap_flatMap]
  rfl

theorem rules_lookup (l : Lookup) : (Proof.lookup l).rules = [] := rfl

/-- A rule that is not applied is applied neither at the root nor above it. -/
theorem notMem_rules_iff {name : String} {p : Proof} :
    name ∉ p.rules ↔ p.root.rule? ≠ some name ∧ ∀ q ∈ p.premises, name ∉ q.rules := by
  cases p with
  | step i ps =>
      rw [rules_step, List.mem_cons, List.mem_flatMap, not_or]
      simp [root, Node.rule?, premises, eq_comm]
  | lookup l => simp [rules, nodes, root, Node.rule?, premises]

/-! ### Subproofs -/

mutual

/-- The trees that hang at the nodes of a tree, in pre-order. -/
def subproofs : Proof → List Proof
  | .step i ps => .step i ps :: subproofsAll ps
  | .lookup l => [.lookup l]

/-- The subproofs of several trees, one tree after the other. -/
def subproofsAll : List Proof → List Proof
  | [] => []
  | p :: ps => subproofs p ++ subproofsAll ps

end

theorem subproofsAll_eq_flatMap (ps : List Proof) : subproofsAll ps = ps.flatMap subproofs := by
  induction ps with
  | nil => rfl
  | cons p ps ih => rw [subproofsAll, ih, List.flatMap_cons]

/-- A subproof of a step is the step or one of its premises' subproofs. -/
theorem mem_subproofs_step {r : Proof} {i : Inference} {ps : List Proof} :
    r ∈ (Proof.step i ps).subproofs ↔ r = .step i ps ∨ ∃ q ∈ ps, r ∈ q.subproofs := by
  rw [subproofs, subproofsAll_eq_flatMap, List.mem_cons, List.mem_flatMap]

mutual

/-- The nodes of a tree are the roots of its subproofs. -/
theorem map_root_subproofs : ∀ p : Proof, p.subproofs.map root = p.nodes
  | .step i ps => by
      rw [subproofs, nodes, List.map_cons, map_root_subproofsAll ps]
      rfl
  | .lookup _ => rfl

theorem map_root_subproofsAll : ∀ ps : List Proof, (subproofsAll ps).map root = nodesAll ps
  | [] => rfl
  | p :: ps => by
      rw [subproofsAll, nodesAll, List.map_append, map_root_subproofs p,
        map_root_subproofsAll ps]

end

/-- The rule of a step in a tree is applied in it. -/
theorem rule_mem_rules {p : Proof} {i : Inference} {ps : List Proof}
    (h : Proof.step i ps ∈ p.subproofs) : i.rule ∈ p.rules := by
  rw [rules, ← map_root_subproofs, List.mem_filterMap]
  exact ⟨.inference i, List.mem_map_of_mem h, rfl⟩

/-- The steps of a tree all have a property. -/
def Everywhere (P : Inference → List Proof → Prop) (p : Proof) : Prop :=
  ∀ i ps, Proof.step i ps ∈ p.subproofs → P i ps

theorem everywhere_step {P : Inference → List Proof → Prop} {i : Inference} {ps : List Proof} :
    (Proof.step i ps).Everywhere P ↔ P i ps ∧ ∀ q ∈ ps, q.Everywhere P := by
  constructor
  · intro h
    refine ⟨h i ps (mem_subproofs_step.2 (.inl rfl)), fun q hq j qs hj => ?_⟩
    exact h j qs (mem_subproofs_step.2 (.inr ⟨q, hq, hj⟩))
  · rintro ⟨hi, hps⟩ j qs hj
    rcases mem_subproofs_step.1 hj with heq | ⟨q, hq, hj⟩
    · obtain ⟨rfl, rfl⟩ := Proof.step.inj heq
      exact hi
    · exact hps q hq j qs hj

theorem everywhere_lookup {P : Inference → List Proof → Prop} (l : Lookup) :
    (Proof.lookup l).Everywhere P := by
  intro i ps h
  simp [subproofs] at h

/-- The tree under steps of one premise each, the first of them at the root. -/
def under (top : Proof) : List Inference → Proof
  | [] => top
  | i :: is => .step i [top.under is]

/-! ### Height -/

mutual

/-- The largest number of steps on a path from the root to a leaf. -/
def height : Proof → Nat
  | .step _ ps => heightAll ps + 1
  | .lookup _ => 0

/-- The largest height of several trees. -/
def heightAll : List Proof → Nat
  | [] => 0
  | p :: ps => max (height p) (heightAll ps)

end

theorem heightAll_le_iff {ps : List Proof} {n : Nat} :
    heightAll ps ≤ n ↔ ∀ q ∈ ps, q.height ≤ n := by
  induction ps with
  | nil => simp [heightAll]
  | cons p ps ih => rw [heightAll, Nat.max_le, ih, List.forall_mem_cons]

/-- A step fits below a limit if a level is left for it and its premises fit below. -/
theorem height_step_le_iff {i : Inference} {ps : List Proof} {n : Nat} :
    (Proof.step i ps).height ≤ n ↔ ∃ l, n = l + 1 ∧ ∀ q ∈ ps, q.height ≤ l := by
  rw [height]
  constructor
  · intro h
    exact ⟨n - 1, by omega, heightAll_le_iff.1 (by omega)⟩
  · rintro ⟨l, rfl, h⟩
    exact Nat.succ_le_succ (heightAll_le_iff.2 h)

/-! ### Relabelling -/

mutual

/-- The tree with its steps and its lookups changed, each for itself. -/
def relabel (onStep : Inference → Inference) (onLookup : Lookup → Lookup) : Proof → Proof
  | .step i ps => .step (onStep i) (relabelAll onStep onLookup ps)
  | .lookup l => .lookup (onLookup l)

/-- Several trees with their steps and lookups changed. -/
def relabelAll (onStep : Inference → Inference) (onLookup : Lookup → Lookup) :
    List Proof → List Proof
  | [] => []
  | p :: ps => relabel onStep onLookup p :: relabelAll onStep onLookup ps

end

variable {onStep : Inference → Inference} {onLookup : Lookup → Lookup}

theorem relabelAll_eq_map (ps : List Proof) :
    relabelAll onStep onLookup ps = ps.map (relabel onStep onLookup) := by
  induction ps with
  | nil => rfl
  | cons p ps ih => rw [relabelAll, ih, List.map_cons]

theorem relabel_step (i : Inference) (ps : List Proof) :
    relabel onStep onLookup (.step i ps) =
      .step (onStep i) (ps.map (relabel onStep onLookup)) := by
  rw [relabel, relabelAll_eq_map]

/-- Relabelling twice is relabelling once. -/
theorem relabel_relabel (onStep' : Inference → Inference) (onLookup' : Lookup → Lookup)
    (p : Proof) :
    (p.relabel onStep onLookup).relabel onStep' onLookup' =
      p.relabel (onStep' ∘ onStep) (onLookup' ∘ onLookup) := by
  induction p using induct with
  | step i ps ih =>
      have hps := List.map_congr_left ih
      rw [relabel_step, relabel_step, relabel_step, List.map_map, ← hps]
      rfl
  | lookup l => rfl

/-- What all relabelled steps have holds everywhere in a relabelled tree. -/
theorem everywhere_relabel {P : Inference → Prop} (h : ∀ i, P (onStep i)) (p : Proof) :
    (p.relabel onStep onLookup).Everywhere fun i _ => P i := by
  induction p using induct with
  | step i ps ih =>
      rw [relabel_step]
      exact everywhere_step.2 ⟨h i, List.forall_mem_map.2 ih⟩
  | lookup l => exact everywhere_lookup _

/-- Relabelling does not change the shape of a tree, hence not its height. -/
theorem height_relabel_le_iff {p : Proof} {n : Nat} :
    (p.relabel onStep onLookup).height ≤ n ↔ p.height ≤ n := by
  induction p using induct generalizing n with
  | step i ps ih =>
      rw [relabel_step, height_step_le_iff, height_step_le_iff]
      simp only [List.forall_mem_map]
      constructor
      · rintro ⟨l, rfl, h⟩
        exact ⟨l, rfl, fun q hq => (ih q hq).1 (h q hq)⟩
      · rintro ⟨l, rfl, h⟩
        exact ⟨l, rfl, fun q hq => (ih q hq).2 (h q hq)⟩
  | lookup l => rfl

end Proof

/-- The step without its flag, if it is one of the given rule. -/
def Inference.unflag (rule : Rule) (i : Inference) : Inference :=
  if i.rule = rule.name then { i with status := .exact } else i

namespace Proof

/-- The tree with the flags of the given rule taken off. -/
def unflag (rule : Rule) (p : Proof) : Proof := p.relabel (Inference.unflag rule) id

theorem unflag_step (rule : Rule) (i : Inference) (ps : List Proof) :
    (Proof.step i ps).unflag rule = .step (i.unflag rule) (ps.map (unflag rule)) :=
  relabel_step i ps

theorem type_unflag (rule : Rule) (p : Proof) : (p.unflag rule).type = p.type := by
  cases p with
  | step i ps =>
      rw [unflag_step, type_step, type_step, Inference.unflag]
      split <;> rfl
  | lookup l => rfl

theorem type_eq_of_unflag_eq {rule : Rule} {p q : Proof} (h : p.unflag rule = q.unflag rule) :
    p.type = q.type := by
  rw [← type_unflag rule p, h, type_unflag]

/-- There is nothing to take off where nothing is flagged. -/
theorem unflag_eq_self {p : Proof} (h : p.hasMismatch = false) (rule : Rule) :
    p.unflag rule = p := by
  induction p using induct with
  | step i ps ih =>
      obtain ⟨hstatus, hps⟩ := hasMismatch_step.1 h
      have hi : i.unflag rule = i := by
        rw [Inference.unflag, ← hstatus, ite_self]
      have hmap : ps.map (unflag rule) = ps := by
        rw [List.map_congr_left fun q hq => ih q hq (hps q hq), List.map_id']
      rw [unflag_step, hi, hmap]
  | lookup l => rfl

end Proof
end TypeDeduction

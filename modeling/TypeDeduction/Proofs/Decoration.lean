/-
# Colours only decorate

A node that does not fit is written between two colour marks, and the marked text goes
into the text of the step below, possibly to be marked again.  So marks nest, and they
stand at places that depend on the whole tree.  What they amount to is simple all the same:
the marked text is the plain one with pairs of marks put into it, one pair for each node
that does not fit (`Decorated`).

A decorated text stays one when texts are put together: one after the other
(`Decorated.append`), in a line with gaps (`DecoratedAll.intercalate`) or in a fraction
(`Decorated.fraction`).  The pairs add up, as the flagged nodes of a tree do over its
premises, and a flagged node adds the pair of its own (`Decorated.mark`).
-/

import TypeDeduction.Proofs.Reports

namespace TypeDeduction

/-! ### Texts of steps -/

/-- The text of a step over its written premises and conclusion, without colour marks. -/
def Inference.fraction (i : Inference) (above : List String) (below : String) : String :=
  "\\dfrac\x7b" ++ gap.intercalate above ++ "\x7d\x7b" ++ below ++ "\x7d (" ++ i.rule ++ ")"

/-- Two writings in a row succeed if the first one does and the second one then does. -/
theorem written_bind_iff {α β : Type} {x : Except Failure α} {f : α → Except Failure β} {b : β} :
    (x >>= f) = .ok b ↔ ∃ a, x = .ok a ∧ f a = .ok b := by
  cases x with
  | error e => simp [Bind.bind, Except.bind]
  | ok a => simp [Bind.bind, Except.bind]

namespace Proof

variable {s : Settings} {p : Proof} {ps : List Proof} {i : Inference}

/-- A step is written over its premises and its conclusion, as their fraction marked by its
status. -/
theorem markup_step_eq_ok_iff {text : String} :
    (Proof.step i ps).markup s = .ok text ↔
      ∃ above below, markupAll s ps = .ok above ∧ i.conclusion.markup = .ok below ∧
        s.mark i.status (i.fraction above below) = text := by
  simp only [markup, Inference.markup, written_bind_iff, Inference.fraction, Pure.pure,
    Except.pure, Except.ok.injEq, exists_and_left]

theorem markupAll_cons_eq_ok_iff {texts : List String} :
    markupAll s (p :: ps) = .ok texts ↔
      ∃ first rest, p.markup s = .ok first ∧ markupAll s ps = .ok rest ∧ first :: rest = texts := by
  simp only [markupAll, written_bind_iff, Pure.pure, Except.pure, Except.ok.injEq, exists_and_left]

end Proof

/-! ### Decorated texts -/

/-- The text is the plain one with so many pairs of colour marks put into it. -/
structure Decorated (s : Settings) (plain text : String) (pairs : Nat) : Prop where
  sublist : plain.toList.Sublist text.toList
  length_eq : text.length = plain.length + (s.errorColor.length + s.resetColor.length) * pairs

namespace Decorated

variable {s : Settings} {plain plain' text text' : String} {m n : Nat}

theorem refl (s : Settings) (text : String) : Decorated s text text 0 :=
  ⟨List.Sublist.refl _, rfl⟩

theorem append (h : Decorated s plain text m) (h' : Decorated s plain' text' n) :
    Decorated s (plain ++ plain') (text ++ text') (m + n) := by
  constructor
  · rw [String.toList_append, String.toList_append]
    exact h.sublist.append h'.sublist
  · rw [String.length_append, String.length_append, h.length_eq, h'.length_eq, Nat.mul_add]
    omega

/-- A text that does not fit gets a pair of marks more. -/
theorem mark (h : Decorated s plain text n) (status : Status) :
    Decorated s plain (s.mark status text) (n + if status = .mismatched then 1 else 0) := by
  cases status with
  | exact => exact h
  | mismatched =>
      constructor
      · rw [Settings.mark, String.toList_append, String.toList_append]
        exact (h.sublist.trans (List.sublist_append_right _ _)).trans (List.sublist_append_left _ _)
      · rw [Settings.mark, String.length_append, String.length_append, h.length_eq, if_pos rfl,
          Nat.mul_add, Nat.mul_one]
        omega

/-- Without a pair of marks the text is plain. -/
theorem eq_of_length (h : Decorated s plain text n) (hl : text.length = plain.length) :
    text = plain := by
  refine String.toList_inj.1 (h.sublist.eq_of_length ?_).symm
  rw [String.length_toList, String.length_toList, hl]

/-- Where there is a mark to be seen, the text differs from the plain one if and only if it
has one. -/
theorem ne_iff (h : Decorated s plain text n) (hs : s.errorColor ≠ "") : text ≠ plain ↔ 0 < n := by
  have hcolour : 0 < s.errorColor.length := by
    rw [Nat.pos_iff_ne_zero, ne_eq, String.length_eq_zero_iff]
    exact hs
  constructor
  · intro hne
    refine Nat.pos_of_ne_zero fun hn => hne (h.eq_of_length ?_)
    rw [h.length_eq, hn, Nat.mul_zero, Nat.add_zero]
  · rintro hn rfl
    have hpos : 0 < (s.errorColor.length + s.resetColor.length) * n :=
      Nat.mul_pos (by omega) hn
    have hlength := h.length_eq
    omega

end Decorated

/-- The texts are the plain ones, each with pairs of colour marks put into it; the pairs are
counted together. -/
inductive DecoratedAll (s : Settings) : List String → List String → Nat → Prop where
  | nil : DecoratedAll s [] [] 0
  | cons {plain text : String} {plains texts : List String} {m n : Nat}
      (first : Decorated s plain text m) (rest : DecoratedAll s plains texts n) :
      DecoratedAll s (plain :: plains) (text :: texts) (m + n)

/-- A line of decorated texts is decorated. -/
theorem DecoratedAll.intercalate {s : Settings} {plains texts : List String} {n : Nat}
    (h : DecoratedAll s plains texts n) (between : String) :
    Decorated s (between.intercalate plains) (between.intercalate texts) n := by
  induction h with
  | nil => exact .refl s ""
  | cons first rest ih =>
      cases rest with
      | nil => simpa using first
      | cons second others =>
          rw [String.intercalate_cons_cons, String.intercalate_cons_cons]
          exact (first.append (.refl s between)).append ih

/-- A fraction over decorated premises is decorated. -/
theorem Decorated.fraction {s : Settings} {plains texts : List String} {n : Nat}
    (h : DecoratedAll s plains texts n) (i : Inference) (below : String) :
    Decorated s (i.fraction plains below) (i.fraction texts below) n := by
  have hline := h.intercalate gap
  have hopen := (Decorated.refl s "\\dfrac\x7b").append hline
  rw [Nat.zero_add] at hopen
  exact ((((hopen.append (.refl s "\x7d\x7b")).append (.refl s below)).append
    (.refl s "\x7d (")).append (.refl s i.rule)).append (.refl s ")")

/-! ### Trees without flags -/

namespace Proof

/-- The tree with every status set to exact. -/
def allExact (p : Proof) : Proof :=
  p.relabel (fun i => { i with status := .exact }) fun l => { l with status := .exact }

theorem allExact_step (i : Inference) (ps : List Proof) :
    (Proof.step i ps).allExact = .step { i with status := .exact } (ps.map allExact) :=
  relabel_step i ps

/-- How many of the nodes do not fit, steps and lookups. -/
def mismatches (nodes : List Node) : Nat := nodes.countP (·.status = .mismatched)

theorem mismatches_cons (node : Node) (nodes : List Node) :
    mismatches (node :: nodes) =
      mismatches nodes + if node.status = .mismatched then 1 else 0 := by
  rw [mismatches, List.countP_cons]
  simp only [decide_eq_true_eq]
  rfl

/-- Something does not fit if and only if a node is counted. -/
theorem hasMismatch_iff_mismatches {p : Proof} :
    p.hasMismatch = true ↔ 0 < mismatches p.nodes := by
  rw [hasMismatch, mismatches, List.countP_pos_iff, List.any_eq_true]

mutual

/-- **A written tree is decorated with a pair of marks for each node that does not fit**,
and without them it is the tree with every status set to exact, whatever its colours. -/
theorem exists_decorated (s : Settings) : ∀ (p : Proof) {text : String}, p.markup s = .ok text →
    ∃ plain, (∀ s', p.allExact.markup s' = .ok plain) ∧ Decorated s plain text (mismatches p.nodes)
  | .step i ps, text, h => by
      obtain ⟨texts, below, htexts, hbelow, rfl⟩ := markup_step_eq_ok_iff.1 h
      obtain ⟨plains, hplains, hall⟩ := exists_decoratedAll s ps htexts
      refine ⟨i.fraction plains below, fun s' => ?_, ?_⟩
      · rw [allExact_step]
        exact markup_step_eq_ok_iff.2 ⟨plains, below, hplains s', hbelow, rfl⟩
      · rw [nodes_step, mismatches_cons]
        exact (Decorated.fraction hall i below).mark i.status
  | .lookup l, text, h => by
      obtain rfl := Except.ok.inj h
      refine ⟨l.markup, fun _ => rfl, ?_⟩
      rw [nodes, mismatches_cons]
      exact (Decorated.refl s l.markup).mark l.status

theorem exists_decoratedAll (s : Settings) : ∀ (ps : List Proof) {texts : List String},
    markupAll s ps = .ok texts →
    ∃ plains, (∀ s', markupAll s' (ps.map allExact) = .ok plains) ∧
      DecoratedAll s plains texts (mismatches (ps.flatMap nodes))
  | [], texts, h => by
      obtain rfl := Except.ok.inj h
      exact ⟨[], fun _ => rfl, .nil⟩
  | p :: ps, texts, h => by
      obtain ⟨first, rest, hfirst, hrest, rfl⟩ := markupAll_cons_eq_ok_iff.1 h
      obtain ⟨plain, hplain, hp⟩ := exists_decorated s p hfirst
      obtain ⟨plains, hplains, hps⟩ := exists_decoratedAll s ps hrest
      refine ⟨plain :: plains, fun s' => ?_, ?_⟩
      · exact markupAll_cons_eq_ok_iff.2 ⟨plain, plains, hplain s', hplains s', rfl⟩
      · rw [List.flatMap_cons, mismatches, List.countP_append]
        exact .cons hp hps

end

end Proof

/-- **Colours are decoration, one pair for each node that does not fit.**  A tree that can
be written under some settings can be under all.  There is one plain text: the tree has it
without colours, and with every status set to exact it has it under any colours.  Under given
colours the text is the plain one with marks put into it, and it is longer by one pair of
marks for each step and each lookup that does not fit.  So where there is a colour to be
seen, the text differs from the plain one if and only if something does not fit. -/
theorem colours_only_decorate (s₀ : Settings) (p : Proof) {text₀ : String}
    (h : p.markup s₀ = .ok text₀) :
    ∃ plain,
      (∀ s : Settings, s.errorColor = "" → s.resetColor = "" → p.markup s = .ok plain) ∧
      (∀ s, p.allExact.markup s = .ok plain) ∧
      ∀ s : Settings, ∃ text, p.markup s = .ok text ∧
        plain.toList.Sublist text.toList ∧
        text.length = plain.length + (s.errorColor.length + s.resetColor.length) *
          p.nodes.countP (·.status = .mismatched) ∧
        (s.errorColor ≠ "" → (text ≠ plain ↔ p.hasMismatch = true)) := by
  obtain ⟨plain, hplain, -⟩ := p.exists_decorated s₀ h
  have hwritten (s : Settings) :
      ∃ text, p.markup s = .ok text ∧ Decorated s plain text (Proof.mismatches p.nodes) := by
    obtain ⟨text, htext⟩ := (Proof.exists_markup_iff_typed (s := s)).2
      (Proof.exists_markup_iff_typed.1 ⟨text₀, h⟩)
    obtain ⟨plain', hplain', hdecorated⟩ := p.exists_decorated s htext
    obtain rfl : plain = plain' := Except.ok.inj ((hplain s).symm.trans (hplain' s))
    exact ⟨text, htext, hdecorated⟩
  refine ⟨plain, fun s herror hreset => ?_, hplain, fun s => ?_⟩
  · obtain ⟨text, htext, hdecorated⟩ := hwritten s
    have hlength := hdecorated.length_eq
    rw [herror, hreset, String.length_empty, Nat.zero_mul, Nat.add_zero] at hlength
    rw [htext, hdecorated.eq_of_length hlength]
  · obtain ⟨text, htext, hdecorated⟩ := hwritten s
    refine ⟨text, htext, hdecorated.sublist, hdecorated.length_eq, fun hs => ?_⟩
    rw [hdecorated.ne_iff hs, Proof.hasMismatch_iff_mismatches]

/-- A tree about `succ x` in which the root and the lookup do not fit, but the step between
them does. -/
def flaggedSuccessor : Proof :=
  let x : Proof := .step ⟨Rule.var.name, { subject := ["x"], type := .nat }, .nat, .exact⟩
    [.lookup { name := "x", type := .bool, status := .mismatched }]
  .step ⟨Rule.succ.name, { subject := ["succ", "x"], type := .bool }, .bool, .mismatched⟩ [x]

theorem colours_only_decorate_flaggedSuccessor :
    ∃ plain text, flaggedSuccessor.markup {} = .ok text ∧
      flaggedSuccessor.allExact.markup {} = .ok plain ∧
      flaggedSuccessor.markup { errorColor := "", resetColor := "" } = .ok plain ∧
      plain.toList.Sublist text.toList ∧ text.length = plain.length + (15 + 15) * 2 ∧
      text ≠ plain := by
  obtain ⟨plain, hplain, hexact, htext⟩ :=
    colours_only_decorate {} flaggedSuccessor rfl
  obtain ⟨text, hmarkup, hsublist, hlength, hne⟩ := htext {}
  exact ⟨plain, text, hmarkup, hexact {}, hplain _ rfl rfl, hsublist, hlength,
    (hne (by decide)).2 rfl⟩

end TypeDeduction

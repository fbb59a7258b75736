/-
# Names keep their binding

An abstraction binds its name by rewriting the tokens of both runs.  Afterwards the runs
are split into clauses, stripped of brackets and rewritten by further abstractions, in any
order.  The binding survives all of it: a rule derives some of the tokens it is given, and
another abstraction binds another name, since a name that is bound everywhere is no
candidate.  So the name stays *settled* (`Run.Settles`), and

* every lookup of the name gives the type that it was bound at (`Derives.holdsAt`);
* what is still open is all that can be bound (`derive_bindsOnly`), which the name is not.
-/

import TypeDeduction.Proofs.LevelBounds

namespace TypeDeduction

/-! ### Settled names -/

namespace Run

variable {run : Run} {x : String} {A : BaseType}

/-- All occurrences of the name in the run are bound at the type, and the opaque function
does not stand for it there. -/
structure Settles (x : String) (A : BaseType) (run : Run) : Prop where
  bound : ∀ v, Token.var v ∈ run → v.name = x → v.abstracted = true ∧ v.context = some A
  apart : Token.fn ∈ run → Token.fn.markup ≠ x

theorem Settles.mono (h : run.Settles x A) {part : Run} (hp : part ⊆ run) : part.Settles x A :=
  ⟨fun v hv => h.bound v (hp hv), fun hf => h.apart (hp hf)⟩

/-- Binding turns occurrences into occurrences. -/
theorem var_mem_bind {bindings : Bindings} {w : Variable} :
    Token.var w ∈ run.bind bindings ↔ ∃ v, Token.var v ∈ run ∧ v.bind bindings = w := by
  simp only [← mem_occurrences, occurrences_bind, List.mem_map]

/-- Binding neither makes nor takes away the opaque function. -/
theorem fn_mem_bind {bindings : Bindings} : Token.fn ∈ run.bind bindings ↔ Token.fn ∈ run := by
  have hfn (t : Token) : t.bind bindings = .fn ↔ t = .fn := by
    cases t <;> simp [Token.bind]
    split <;> simp
  simp [bind, hfn]

/-- Binding a name settles it. -/
theorem settles_bind (hf : x ≠ Token.fn.markup ∨ Token.fn ∉ run) (A : BaseType) :
    (run.bind [(x, A)]).Settles x A := by
  constructor
  · intro w hw hname
    obtain ⟨v, -, rfl⟩ := var_mem_bind.1 hw
    have hx : x = v.name := by rw [← hname, Variable.name_bind]
    simp [Variable.bind, Bindings.find?, hx, Variable.bound]
  · intro hmem
    rcases hf with hne | hnot
    · exact hne.symm
    · exact absurd (fn_mem_bind.1 hmem) hnot

/-- A settled name is not affected when another one is bound. -/
theorem Settles.bind (h : run.Settles x A) {y : String} (hy : y ≠ x) (B : BaseType) :
    (run.bind [(y, B)]).Settles x A := by
  refine ⟨fun w hw hname => ?_, fun hmem => h.apart (fn_mem_bind.1 hmem)⟩
  obtain ⟨v, hv, rfl⟩ := var_mem_bind.1 hw
  rw [Variable.name_bind] at hname
  have hsame : v.bind [(y, B)] = v := by
    simp [Variable.bind, Bindings.find?, hname, hy]
  rw [hsame]
  exact h.bound v hv hname

/-- A settled name is not open. -/
theorem Settles.notMem_openNames (h : run.Settles x A) : x ∉ run.openNames := by
  intro hx
  obtain ⟨v, hv, hopen, rfl⟩ := mem_openNames.1 hx
  rw [(h.bound v hv rfl).1] at hopen
  cases hopen

/-- What a conclusion lists as binders is open. -/
theorem mem_openNames_of_binders (h : x ∈ run.binders.map (·.1)) : x ∈ run.openNames := by
  obtain ⟨b, hb, rfl⟩ := List.mem_map.1 h
  obtain ⟨v, hv, hdeclared⟩ := List.mem_filterMap.1 hb
  obtain ⟨hocc, hfree⟩ := List.mem_filter.1 (mem_of_mem_firstByName hv)
  obtain ⟨A, -, rfl⟩ := Option.map_eq_some_iff.1 hdeclared
  have hopen : v.abstracted = false := by simpa using (of_decide_eq_true hfree).1
  exact mem_openNames.2 ⟨v, mem_occurrences.1 hocc, hopen, rfl⟩

end Run

/-! ### Names that a computation binds -/

namespace Traced

variable {α : Type} {names : Finset String}

/-- The computation binds none but the given names. -/
def BindsOnly (names : Finset String) (x : Traced α) : Prop :=
  ∀ y A, Event.binding y A ∈ x.events → y ∈ names

/-- Only some names are bound if every event that binds a name binds one of them. -/
theorem bindsOnly_iff {x : Traced α} :
    x.BindsOnly names ↔ x.LeavesOnly fun event => ∀ y A, event = .binding y A → y ∈ names :=
  ⟨fun h _ hevent y A hy => h y A (hy ▸ hevent), fun h y A hy => h _ hy y A rfl⟩

namespace BindsOnly

theorem of_events_nil {x : Traced α} (h : x.events = []) : x.BindsOnly names :=
  bindsOnly_iff.2 (.of_events_nil h)

/-- A sequence binds what its parts bind. -/
theorem inherited : Inherited fun α => @BindsOnly α names where
  pure _ := of_events_nil rfl
  bind hx hf := bindsOnly_iff.2 (LeavesOnly.inherited.bind (bindsOnly_iff.1 hx)
    fun a ha => bindsOnly_iff.1 (hf a ha))

theorem mono {x : Traced α} (h : x.BindsOnly names) {more : Finset String}
    (hm : names ⊆ more) : x.BindsOnly more :=
  fun y A hy => hm (h y A hy)

theorem note {event : Event} (h : ∀ y A, event = .binding y A → y ∈ names) :
    (Traced.note event).BindsOnly names :=
  bindsOnly_iff.2 (.note h)

end BindsOnly
end Traced

namespace Lambda

variable {limit : Int} {signature : Option Signature} {left : Nat} {first second : Run}
  {expected : Signature} {inner : Bool} {p : Proof}

/-- **A derivation binds only names that are open in its runs.**  The induction is on the
levels: what is derived one level down has no other names open. -/
theorem derive_bindsOnly :
    (derive limit signature left first second expected inner).BindsOnly
      (first ++ second).openNames := by
  induction left generalizing first second expected inner with
  | zero => exact .of_events_nil rfl
  | succ left ih =>
      refine derive_succ_inherits Traced.BindsOnly.inherited (fun _ _ _ => .of_events_nil rfl)
        (fun _ _ _ => .note fun _ _ h => ?_) (fun v A e hv => ⟨.note fun y B h => ?_, ?_⟩)
        (fun _ _ e => ⟨?_, ?_⟩) fun part e i hp => ?_
      · cases h
      · cases h
        exact Run.name_mem_openNames hv
      · have hbody : (derive limit signature left (first.bind [(v.name, A)])
            (second.bind [(v.name, A)]) e false).BindsOnly _ := ih
        rw [← Run.bind_append, Run.openNames_bind] at hbody
        exact hbody.mono (Finset.erase_subset _ _)
      · refine ih.mono (Run.openNames_mono ?_)
        simp
      · refine ih.mono (Run.openNames_mono ?_)
        simp
      · refine ih.mono (Run.openNames_mono ?_)
        rw [List.append_nil]
        exact fun t ht => List.mem_append_left second (hp.subset ht)

end Lambda

/-! ### Nodes that keep to a binding -/

/-- A lookup of the name gives the type, and no conclusion lists the name as a binder. -/
def Proof.Node.HoldsAt (x : String) (A : BaseType) : Proof.Node → Prop
  | .inference i => x ∉ i.conclusion.binders.map (·.1)
  | .lookup l => l.name = x → l.type = [A]

namespace Lambda

variable {signature : Option Signature} {first second : Run} {expected : Signature} {inner : Bool}
  {p : Proof} {x : String} {A : BaseType}

/-- **Where a name is settled, the whole tree keeps to its binding.**  The induction is on
the derivation; the name stays settled in all that is derived one level down. -/
theorem Derives.holdsAt (h : Derives signature first second expected inner p)
    (hx : (first ++ second).Settles x A) : ∀ n ∈ p.nodes, n.HoldsAt x A := by
  have hbinders {run : Run} (h : run.Settles x A) : x ∉ run.binders.map (·.1) :=
    fun hmem => h.notMem_openNames (Run.mem_openNames_of_binders hmem)
  induction h with
  | @abs first second domain result rest inner v body hv _ ih =>
      have hne : v.name ≠ x := by
        rintro rfl
        exact hx.notMem_openNames (Run.name_mem_openNames hv)
      refine Proof.forall_nodes_step.2 ⟨hbinders hx, ?_⟩
      rw [List.forall_mem_singleton]
      refine ih ?_
      rw [← Run.bind_append]
      exact hx.bind hne domain
  | app hf hs hn _ _ iha ihf =>
      refine Proof.forall_nodes_step.2 ⟨hbinders hx, ?_⟩
      rw [List.forall_mem_cons, List.forall_mem_singleton]
      exact ⟨ihf (hx.mono (by simp)), iha (hx.mono (by simp))⟩
  | @var v declared rest expected inner hc hd =>
      have hmem : Token.var v ∈ .var v :: rest ++ [] := List.mem_cons_self
      refine Proof.forall_nodes_step.2 ⟨List.not_mem_nil, ?_⟩
      rw [List.forall_mem_singleton]
      simp only [Proof.nodes, List.forall_mem_singleton, Proof.Node.HoldsAt]
      intro hname
      rw [(hx.bound v hmem hname).2]
      rfl
  | fn hs =>
      refine Proof.forall_nodes_step.2 ⟨List.not_mem_nil, ?_⟩
      rw [List.forall_mem_singleton]
      simp only [Proof.nodes, List.forall_mem_singleton, Proof.Node.HoldsAt]
      exact fun hname => absurd hname (hx.apart List.mem_cons_self)
  | truth hc | falsity hc | zero hc =>
      rw [List.append_nil] at hx
      exact Proof.forall_nodes_step.2 ⟨hbinders hx, List.forall_mem_nil _⟩
  | @unary op w rest expected inner q hw hc _ ih =>
      rw [List.append_nil] at hx ih
      have hq := ih (hx.mono (List.subset_cons_self _ _))
      cases op <;>
        exact Proof.forall_nodes_step.2 ⟨hbinders hx, List.forall_mem_singleton.2 hq⟩
  | cond hc hs _ _ _ _ ihc iht ihr =>
      rw [List.append_nil] at hx ihc iht ihr
      obtain ⟨hsc, hst, hsr⟩ := Conditional.subset_of_split hs
      refine Proof.forall_nodes_step.2 ⟨hbinders hx, ?_⟩
      rw [List.forall_mem_cons, List.forall_mem_cons, List.forall_mem_singleton]
      exact ⟨ihc (hx.mono hsc), iht (hx.mono hst), ihr (hx.mono hsr)⟩
  | @bracketed a b rest expected inner q hc hr hlast hb _ ih =>
      subst hr
      rw [List.append_nil] at hx ih
      refine Proof.forall_nodes_step.2 ⟨hbinders hx, ?_⟩
      rw [List.forall_mem_singleton]
      exact ih (hx.mono (Run.subset_bracketed a b))

/-- **Abstractions scope lexically.**  Whenever an abstraction over two runs, or over one,
is derived against a type with the given domain, on any level, and the name that it binds
is not that of an opaque function in the runs, every lookup of the name in its tree gives
the domain.  Nothing above the abstraction lists the name as a binder, and what is bound
after it has other names.  The runs may hold occurrences of the name that were bound
before, at any type. -/
theorem abstraction_scopes_its_name {limit : Int} {left : Nat} {v : Variable}
    (hv : first.candidate.or second.candidate = some v)
    (hf : v.name ≠ Token.fn.markup ∨ Token.fn ∉ first ++ second) {domain : BaseType}
    {rest : Signature}
    (hp : (derive limit signature left first second (domain :: rest) inner).outcome = .ok p) :
    (∀ l, .lookup l ∈ p.nodes → l.name = v.name → l.type = [domain]) ∧
      (∃ i body, p = .step i [body] ∧ i.rule = Rule.abs.name ∧
        ∀ j, .inference j ∈ body.nodes → v.name ∉ j.conclusion.binders.map (·.1)) ∧
      ∃ later, (derive limit signature left first second (domain :: rest) inner).events =
          .binding v.name domain :: later ∧
        ∀ B, .binding v.name B ∉ later := by
  obtain ⟨left, rfl⟩ : ∃ l, left = l + 1 := by
    cases left with
    | zero => simp [derive] at hp
    | succ l => exact ⟨l, rfl⟩
  rw [derive_of_candidate hv] at hp ⊢
  obtain ⟨_, result, rest, body, heq, hbody, rfl⟩ := (abstraction_eq_ok_iff hv).1 hp
  obtain ⟨rfl, rfl⟩ := List.cons.inj heq
  have hsettles := Run.settles_bind hf domain
  rw [Run.bind_append] at hsettles
  have hnodes := (derive_eq_ok_iff.1 hbody).1.holdsAt hsettles
  refine ⟨?_, ⟨_, body, rfl, rfl, fun j hj => hnodes _ hj⟩, ?_⟩
  · intro l hl hname
    rw [abstractionStep, Proof.nodes_step] at hl
    have hmem : Proof.Node.lookup l ∈ body.nodes := by simpa using hl
    exact hnodes _ hmem hname
  · refine ⟨(derive limit signature left (first.bind [(v.name, domain)])
      (second.bind [(v.name, domain)]) (result :: rest) false).events, ?_, fun B hB => ?_⟩
    · rw [abstraction_eq hv, Traced.events_bind rfl, Traced.events_bind hbody]
      simp [Traced.note, Pure.pure, Traced.pure]
    · exact hsettles.notMem_openNames (derive_bindsOnly _ _ hB)

/-- The run `if iszero x then x else y` of an open `x` and an `x` that was bound at `Bool`
before. -/
def reboundChoice : Run :=
  [.cond, .word .iszero, .var { name := "x", declared := some .nat }, .word .thenBranch,
    .var { name := "x", declared := some .nat, abstracted := true, context := some .bool },
    .word .elseBranch, .var { name := "y", declared := some .nat }]

/-- Applied to `if iszero x then x else y`, the opaque function is derived with both
occurrences of `x` looked up at `Nat`, and `y` is bound after `x`. -/
theorem abstraction_scopes_reboundChoice :
    ∃ p, (derive 10 (some [.nat, .nat]) 10 [.fn] reboundChoice [.nat, .nat, .nat] false).outcome =
        .ok p ∧
      p.hasMismatch = false ∧
      (∀ l, .lookup l ∈ p.nodes → l.name = "x" → l.type = [.nat]) ∧
      (∃ i body, p = .step i [body] ∧ i.rule = Rule.abs.name ∧
        ∀ j, .inference j ∈ body.nodes → "x" ∉ j.conclusion.binders.map (·.1)) ∧
      ∃ later, (derive 10 (some [.nat, .nat]) 10 [.fn] reboundChoice [.nat, .nat, .nat]
          false).events = .binding "x" .nat :: later ∧
        ∀ B, .binding "x" B ∉ later := by
  have hv : (Run.candidate [.fn]).or reboundChoice.candidate =
      some { name := "x", declared := some .nat } := rfl
  refine ⟨_, rfl, rfl, ?_⟩
  exact abstraction_scopes_its_name hv (.inl (by decide)) rfl

end Lambda
end TypeDeduction

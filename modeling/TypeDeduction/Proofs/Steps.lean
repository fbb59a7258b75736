/-
# What one step of an engine does

An engine leaves events, derives some runs one level down and then answers, or fails for a
reason of its own.  So a property of computations that sequences inherit from their parts
(`Traced.Inherited`) holds of a derivation as soon as it holds of what its rule does: of
the event that it leaves, of the failures that its calculus knows (`Failure.arisesIn`) and
of the derivations one level down.

A rule derives *parts* of its run (`Run.Part`): some of its tokens, never all, and never
the only one.  An abstraction derives both its runs with a name bound, and an application
each of the two.

The two step lemmas (`Arithmetic.derive_succ_inherits`, `Lambda.derive_succ_inherits`) go
through the rules once for all such properties.
-/

import TypeDeduction.Proofs.Arithmetic.Derivation
import TypeDeduction.Proofs.Lambda.Derivation

namespace TypeDeduction

/-! ### Properties of computations -/

namespace Traced

/-- A property of computations that answers have and sequences take from their parts. -/
structure Inherited (P : (α : Type) → Traced α → Prop) : Prop where
  pure : ∀ {α : Type} (a : α), P α (Pure.pure a)
  bind : ∀ {α β : Type} {x : Traced α} {f : α → Traced β}, P α x →
    (∀ a, x.outcome = .ok a → P β (f a)) → P β (x >>= f)

namespace Inherited

variable {P : (α : Type) → Traced α → Prop} {α β : Type}

/-- An answer made from another one has the property if that one has it. -/
theorem bind_pure (hP : Inherited P) {x : Traced α} (hx : P α x) (f : α → β) :
    P β (x >>= fun a => Pure.pure (f a)) :=
  hP.bind hx fun a _ => hP.pure (f a)

/-- An outcome without events has the property if its failure has it. -/
theorem lift (hP : Inherited P) {x : Except Failure α}
    (hx : ∀ f, x = .error f → P α (Traced.fail f)) : P α (Traced.lift x) := by
  cases x with
  | ok a => exact hP.pure a
  | error f => exact hx f rfl

end Inherited

/-- What a sequence leaves is left by its first part, or by its second if the first
succeeds. -/
theorem mem_events_bind {α β : Type} {x : Traced α} {f : α → Traced β} {event : Event}
    (h : event ∈ (x >>= f).events) :
    event ∈ x.events ∨ ∃ a, x.outcome = .ok a ∧ event ∈ (f a).events := by
  cases ho : x.outcome with
  | error e =>
      have hevents : (x >>= f).events = x.events := by
        show (Traced.bind x f).events = x.events
        rw [Traced.bind, ho]
      rw [hevents] at h
      exact .inl h
  | ok a =>
      rw [events_bind ho, List.mem_append] at h
      exact h.imp_right fun hf => ⟨a, rfl, hf⟩

/-- The computation leaves none but events of the given sort. -/
def LeavesOnly {α : Type} (sort : Event → Prop) (x : Traced α) : Prop :=
  ∀ event ∈ x.events, sort event

namespace LeavesOnly

variable {α : Type} {sort : Event → Prop}

theorem of_events_nil {x : Traced α} (h : x.events = []) : x.LeavesOnly sort := by
  intro event hevent
  rw [h] at hevent
  cases hevent

/-- **A sequence leaves what its parts leave.** -/
theorem inherited : Inherited fun α => @LeavesOnly α sort where
  pure _ := of_events_nil rfl
  bind hx hf := by
    intro event hevent
    rcases mem_events_bind hevent with hevent | ⟨a, ha, hevent⟩
    · exact hx event hevent
    · exact hf a ha event hevent

theorem note {event : Event} (h : sort event) : (Traced.note event).LeavesOnly sort :=
  List.forall_mem_singleton.2 h

end LeavesOnly
end Traced

/-! ### Clauses that are missing -/

/-- A clause cannot be taken if its stop word is missing or the last token. -/
theorem Clause.take_eq_error {stop : Stop} {run : Run} {f : Failure}
    (h : take stop run = .error f) : f = stop.missing ∨ f = stop.empty := by
  rw [take] at h
  split at h
  · exact .inl (Except.error.inj h).symm
  · split at h
    · exact .inr (Except.error.inj h).symm
    · cases h

/-- A conditional run cannot be split if one of its first two clauses cannot be taken. -/
theorem Conditional.split_eq_error {rest : Run} {f : Failure}
    (h : split (.cond :: rest) = .error f) : ∃ stop : Stop, f = stop.missing ∨ f = stop.empty := by
  rcases (split_eq_error_iff_take (List.cons_ne_nil _ _)).1 h with h₁ | ⟨_, _, -, h₂⟩
  · exact ⟨.thenBranch, Clause.take_eq_error h₁⟩
  · exact ⟨.elseBranch, Clause.take_eq_error h₂⟩

/-! ### Parts of a run -/

/-- What a rule derives of a run: some of its tokens, fewer than all, out of two at
least. -/
structure Run.Part (part run : Run) : Prop where
  subset : part ⊆ run
  length_lt : max 1 part.length < run.length

namespace Run.Part

theorem tail {head : Token} {rest : Run} (h : rest ≠ []) : Part rest (head :: rest) := by
  have hpos := List.length_pos_iff.2 h
  refine ⟨List.subset_cons_self head rest, ?_⟩
  rw [List.length_cons]
  omega

/-- The clauses of a conditional are parts of it. -/
theorem of_split {rest : Run} {parts : Conditional}
    (h : Conditional.split (.cond :: rest) = .ok parts) :
    Part parts.condition.run (.cond :: rest) ∧ Part parts.thenBranch.run (.cond :: rest) ∧
      Part parts.elseBranch.run (.cond :: rest) := by
  obtain ⟨hc, ht, hr⟩ := Conditional.subset_of_split h
  have hl := congrArg List.length (Conditional.eq_of_split h)
  simp only [List.length_append, List.length_cons] at hl
  refine ⟨⟨hc, ?_⟩, ⟨ht, ?_⟩, ⟨hr, ?_⟩⟩ <;> rw [List.length_cons] <;> omega

/-- What brackets enclose is a part of them. -/
theorem strip {rest : Run} (hl : 3 ≤ (Token.lparen :: rest).length)
    (hb : Run.balance (.lparen :: rest) = 0) :
    Part (Run.strip (.lparen :: rest)) (.lparen :: rest) := by
  obtain ⟨a, b, rfl, hlast⟩ := Run.exists_lastClose_of_balance hb
  rw [Run.strip_eq_append a hlast]
  refine ⟨Run.subset_bracketed a b, ?_⟩
  simp only [List.length_append, List.length_cons] at hl ⊢
  omega

end Run.Part

/-! ### Causes and rules -/

/-- Whether derivations in the calculus can fail for the cause, the limit apart. -/
def Failure.arisesIn (calculus : Calculus) : Failure → Bool
  | .emptyExpression | .missingOperand _ | .thenMissing | .thenEmpty | .elseMissing
  | .elseEmpty | .branchMismatch _ _ => true
  | .undefinedHead c _ | .bracketsTooShort c => c = calculus
  | .bracketsMismatch _ => calculus = .arithmetic
  | .bracketsUnbalanced c _ => c = .lambda ∧ calculus = .lambda
  | .noSignature | .emptyFunction | .notFunctionType _ | .untypedVariable _
  | .functionNotAlone => calculus = .lambda
  | .untypedConclusion _ | .ascriptionRequired | .ascriptionMissing | .noVariable _
  | .emptyConditional | .tooDeep _ => false

/-- Missing and empty clauses arise in both calculi. -/
theorem Stop.arisesIn (stop : Stop) (calculus : Calculus) :
    stop.missing.arisesIn calculus = true ∧ stop.empty.arisesIn calculus = true := by
  cases stop <;> exact ⟨rfl, rfl⟩

variable {P : (α : Type) → Traced α → Prop} {calculus : Calculus}
  {conclude : Signature → Judgment} {expected : Signature} {inner : Bool}

namespace Rule

/-- A conditional has what its clauses have, and the failures of its own. -/
theorem conditional_inherits (hP : Traced.Inherited P)
    {derive : Run → Signature → Bool → Traced Proof} {run : Run}
    (hsplit : ∀ f, Conditional.split run = .error f → P Conditional (Traced.fail f))
    (hbranch : ∀ t r, P Proof (Traced.fail (.branchMismatch t r)))
    (hderive : ∀ parts, Conditional.split run = .ok parts →
      (∀ e i, P Proof (derive parts.condition.run e i)) ∧
        (∀ e i, P Proof (derive parts.thenBranch.run e i)) ∧
        ∀ e i, P Proof (derive parts.elseBranch.run e i)) :
    P Proof (conditional derive conclude run expected inner) := by
  refine hP.bind (hP.lift hsplit) fun parts hparts => ?_
  obtain ⟨hc, ht, hr⟩ := hderive parts hparts
  refine hP.bind (hc _ _) fun condition _ => ?_
  refine hP.bind (ht _ _) fun thenProof _ => ?_
  refine hP.bind (hr _ _) fun elseProof _ => ?_
  split
  · exact hbranch _ _
  · exact hP.pure _

/-- A bracketed run has what its inside has, and the failures of its own. -/
theorem bracketed_inherits (hP : Traced.Inherited P) {derive : Run → Signature → Traced Proof}
    {run : Run} (hshort : run.length < 3 → P Proof (Traced.fail (.bracketsTooShort calculus)))
    (hbalance : run.balance ≠ 0 →
      P Proof (Traced.fail (.bracketsUnbalanced calculus run.balance)))
    (hderive : 3 ≤ run.length → run.balance = 0 → ∀ e, P Proof (derive run.strip e)) :
    P Proof (bracketed calculus derive conclude run expected) := by
  unfold bracketed
  split
  · rename_i hl
    exact hshort hl
  · rename_i hl
    split
    · rename_i hb
      exact hbalance hb
    · rename_i hb
      exact hP.bind_pure (hderive (by omega) (Decidable.not_not.1 hb) _) _

/-- A conditional has what its parts have, if the failures of its calculus have it too. -/
theorem conditional_inherits_of_part (hP : Traced.Inherited P)
    {derive : Run → Signature → Bool → Traced Proof} {rest : Run}
    (hown : ∀ (α : Type) (f : Failure), f.arisesIn calculus = true → P α (Traced.fail f))
    (hpart : ∀ part e i, Run.Part part (.cond :: rest) → P Proof (derive part e i)) :
    P Proof (conditional derive conclude (.cond :: rest) expected inner) := by
  refine conditional_inherits hP (fun f hf => ?_) (fun t r => hown _ _ rfl) fun parts hparts => ?_
  · obtain ⟨stop, hstop⟩ := Conditional.split_eq_error hf
    obtain ⟨hmissing, hempty⟩ := stop.arisesIn calculus
    rcases hstop with rfl | rfl
    · exact hown _ _ hmissing
    · exact hown _ _ hempty
  · obtain ⟨hc, ht, hr⟩ := Run.Part.of_split hparts
    exact ⟨fun e i => hpart _ e i hc, fun e i => hpart _ e i ht, fun e i => hpart _ e i hr⟩

end Rule

/-! ### Steps of the engines -/

variable {limit : Int} {left : Nat}

namespace Arithmetic

variable {style : Presentation} {run : Run}

/-- A run that balances is derived by the rule of its first token. -/
theorem derive_cons {head : Token} {rest : Run} (hb : Run.balance (head :: rest) = 0) :
    derive limit style (left + 1) (head :: rest) expected inner =
      (Traced.note (.dispatch .arithmetic head.kind expected (Depth.reached limit left)) >>=
        fun _ => dispatch style (derive limit style left) head rest expected inner) := by
  rw [derive.eq_def]
  simp [hb]

/-- The rule of the first token has what the parts of the run have, if the failures of
arithmetic have it too. -/
theorem dispatch_inherits (hP : Traced.Inherited P)
    {derive : Run → Signature → Bool → Traced Proof} {head : Token} {rest : Run}
    (hown : ∀ (α : Type) (f : Failure), f.arisesIn .arithmetic = true → P α (Traced.fail f))
    (hb : Run.balance (head :: rest) = 0)
    (hpart : ∀ part e i, Run.Part part (head :: rest) → P Proof (derive part e i)) :
    P Proof (dispatch style derive head rest expected inner) := by
  have unary (op : UnaryOp)
      (hpart : ∀ part e i, Run.Part part (.word op.word :: rest) → P Proof (derive part e i)) :
      P Proof (dispatch style derive (.word op.word) rest expected inner) := by
    by_cases hr : rest = []
    · subst hr
      rw [dispatch_unary_nil]
      exact hown _ _ rfl
    · rw [dispatch_unary hr]
      exact hP.bind_pure (hpart _ _ _ (.tail hr)) _
  cases head with
  | ascription | var | fn => exact hown _ _ rfl
  | word w =>
      cases w with
      | truth | falsity | zero => exact hP.pure _
      | thenBranch | elseBranch | rparen => exact hown _ _ rfl
      | succ => exact unary .succ hpart
      | pred => exact unary .pred hpart
      | iszero => exact unary .iszero hpart
      | cond => exact Rule.conditional_inherits_of_part hP hown hpart
      | lparen =>
          -- The engine has counted the brackets before.
          rw [dispatch]
          refine Rule.bracketed_inherits hP (fun _ => ?_) (fun hn => absurd hb hn) fun hl _ e => ?_
          · exact hown _ _ rfl
          · exact hpart _ e false (.strip hl hb)

/-- **With a level left** a run has what its parts have one level down, if the events and
the failures of arithmetic have it too. -/
theorem derive_succ_inherits (hP : Traced.Inherited P)
    (hown : ∀ (α : Type) (f : Failure), f.arisesIn .arithmetic = true → P α (Traced.fail f))
    (hnote : ∀ head e n, P Unit (Traced.note (.dispatch .arithmetic head e n)))
    (hpart : ∀ part e i, Run.Part part run → P Proof (derive limit style left part e i)) :
    P Proof (derive limit style (left + 1) run expected inner) := by
  cases run with
  | nil => exact hown _ _ rfl
  | cons head rest =>
      by_cases hb : Run.balance (head :: rest) = 0
      · rw [derive_cons hb]
        exact hP.bind (hnote _ _ _) fun _ _ => dispatch_inherits hP hown hb hpart
      · rw [derive.eq_def]
        dsimp only
        rw [if_pos hb]
        exact hown _ _ rfl

end Arithmetic

namespace Lambda

variable {signature : Option Signature} {first second : Run}

/-- The rule of the first token has what the parts of the run have, if the failures of the
lambda calculus have it too. -/
theorem dispatch_inherits (hP : Traced.Inherited P)
    {derive : Run → Signature → Bool → Traced Proof} {head : Token} {rest : Run}
    (hown : ∀ (α : Type) (f : Failure), f.arisesIn .lambda = true → P α (Traced.fail f))
    (hpart : ∀ part e i, Run.Part part (head :: rest) → P Proof (derive part e i)) :
    P Proof (dispatch signature derive head rest expected inner) := by
  have unary (op : UnaryOp)
      (hpart : ∀ part e i, Run.Part part (.word op.word :: rest) → P Proof (derive part e i)) :
      P Proof (dispatch signature derive (.word op.word) rest expected inner) := by
    by_cases hr : rest = []
    · subst hr
      rw [dispatch_unary_nil]
      exact hown _ _ rfl
    · rw [dispatch_unary hr]
      exact hP.bind_pure (hpart _ _ _ (.tail hr)) _
  cases head with
  | ascription => exact hown _ _ rfl
  | var v =>
      rw [dispatch, occurrence]
      split
      · exact hown _ _ rfl
      · exact hP.pure _
  | fn =>
      rw [dispatch, function.eq_def]
      split
      · exact hown _ _ rfl
      · split
        · exact hown _ _ rfl
        · exact hP.pure _
  | word w =>
      cases w with
      | truth | falsity | zero => exact hP.pure _
      | thenBranch | elseBranch | rparen => exact hown _ _ rfl
      | succ => exact unary .succ hpart
      | pred => exact unary .pred hpart
      | iszero => exact unary .iszero hpart
      | cond => exact Rule.conditional_inherits_of_part hP hown hpart
      | lparen =>
          rw [dispatch]
          refine Rule.bracketed_inherits hP (fun _ => ?_) (fun _ => ?_) fun hl hb e => ?_
          · exact hown _ _ rfl
          · exact hown _ _ rfl
          · exact hpart _ e false (.strip hl hb)

/-- **With a level left** runs have what is derived one level down has, if the events and
the failures of the lambda calculus have it too: both runs with their candidate bound,
each of two runs without a candidate, or the parts of a single one. -/
theorem derive_succ_inherits (hP : Traced.Inherited P)
    (hown : ∀ (α : Type) (f : Failure), f.arisesIn .lambda = true → P α (Traced.fail f))
    (hnote : ∀ head e n, P Unit (Traced.note (.dispatch .lambda head e n)))
    (hbody : ∀ v A e, first.candidate.or second.candidate = some v →
      P Unit (Traced.note (.binding v.name A)) ∧
        P Proof (derive limit signature left (first.bind [(v.name, A)])
          (second.bind [(v.name, A)]) e false))
    (happ : first ≠ [] → second ≠ [] → ∀ e,
      P Proof (derive limit signature left first [] e false) ∧
        P Proof (derive limit signature left second [] e false))
    (hpart : ∀ part e i, Run.Part part first →
      P Proof (derive limit signature left part [] e i)) :
    P Proof (derive limit signature (left + 1) first second expected inner) := by
  cases hv : first.candidate.or second.candidate with
  | some v =>
      rw [derive_of_candidate hv]
      rcases expected with _ | ⟨domain, _ | ⟨result, rest⟩⟩
      · exact hown _ _ rfl
      · exact hown _ _ rfl
      · obtain ⟨hbinding, hderived⟩ := hbody v domain (result :: rest) hv
        rw [abstraction_eq hv]
        exact hP.bind hbinding fun _ _ => hP.bind_pure hderived _
  | none =>
      obtain ⟨h₁, h₂⟩ := Option.or_eq_none_iff.1 hv
      have habs : ¬ (first.isAbstraction = true ∨ second.isAbstraction = true) := by
        simp [Run.isAbstraction, h₁, h₂]
      rw [derive.eq_def]
      dsimp only
      rw [if_neg habs]
      by_cases hs : second = []
      · rw [if_neg (not_not_intro hs)]
        cases first with
        | nil => exact hown _ _ rfl
        | cons head rest => exact hP.bind (hnote _ _ _) fun _ _ => dispatch_inherits hP hown hpart
      · rw [if_pos hs]
        by_cases hf : first = []
        · rw [if_pos hf]
          exact hown _ _ rfl
        · rw [if_neg hf]
          obtain ⟨-, hargument⟩ := happ hf hs expected
          refine hP.bind hargument fun argument _ => ?_
          exact hP.bind_pure (happ hf hs _).1 _

end Lambda
end TypeDeduction

/-
# Traced computations

While a derivation is built, the rules leave a trace of *events*: which rule is
tried against which type and how deep, which variable an abstraction binds, and
at the end whether steps did not fit or the derivation failed.  A `Traced`
computation is an outcome together with the events on the way to it.  The events
before a failure are kept.

| event | logger | message |
| --- | --- | --- |
| `dispatch` | that of the calculus | `common: succ against Nat (depth 2)` |
| `binding` | `derivtree.rules.stlc` | `stlc: binding x : Nat` |
| `flagged` | `derivtree.rules.base` | `derivation of type Nat has mismatched steps` |
| `failed` | `derivtree.rules.base` | `derivation failed: Brackets mismatch (#001.2): balance 1` |
-/

import TypeDeduction.Failure

namespace TypeDeduction

/-- Something that happened while a derivation was built. -/
inductive Event where
  /-- A run that starts with the given kind is derived against a type. -/
  | dispatch (calculus : Calculus) (head : Kind) (expected : Signature) (depth : Nat)
  /-- An abstraction binds a name. -/
  | binding (name : String) (domain : BaseType)
  /-- A finished derivation has steps that do not fit. -/
  | flagged (type : Signature)
  /-- A derivation failed. -/
  | failed (alert : Alert)
  deriving DecidableEq, Repr

/-- How much an event matters. -/
inductive Event.Level where
  | debug
  | warning
  deriving DecidableEq, Repr

namespace Event

/-- Only a failure deserves a warning. -/
def level : Event → Level
  | .failed _ => .warning
  | _ => .debug

/-- The name under which an event is written: each calculus has its own, and what
concerns a derivation as a whole is written under a shared one. -/
def logger : Event → String
  | .dispatch .arithmetic _ _ _ => "derivtree.rules.common"
  | .dispatch .lambda _ _ _ | .binding _ _ => "derivtree.rules.stlc"
  | .flagged _ | .failed _ => "derivtree.rules.base"

/-- The event as one line. -/
def message : Event → String
  | .dispatch calculus head expected depth =>
    calculus.label ++ ": " ++ head.text ++ " against " ++ expected.text ++
      " (depth " ++ toString depth ++ ")"
  | .binding name domain => Calculus.lambda.label ++ ": binding " ++ name ++ " : " ++ domain.name
  | .flagged type => "derivation of type " ++ type.text ++ " has mismatched steps"
  | .failed alert => "derivation failed: " ++ alert.message

end Event

/-- An outcome with the events on the way to it. -/
structure Traced (α : Type) where
  events : List Event
  outcome : Except Failure α

namespace Traced

variable {α β : Type}

/-- The computation that only answers. -/
def pure (a : α) : Traced α := ⟨[], .ok a⟩

/-- One computation after another; the second runs if the first succeeds. -/
def bind (x : Traced α) (f : α → Traced β) : Traced β :=
  match x.outcome with
  | .ok a => ⟨x.events ++ (f a).events, (f a).outcome⟩
  | .error e => ⟨x.events, .error e⟩

instance : Monad Traced where
  pure := pure
  bind := bind

/-- Traced computations in a row may be grouped in any way. -/
instance : LawfulMonad Traced := LawfulMonad.mk' Traced
  (by
    rintro α ⟨events, outcome⟩
    cases outcome <;> simp [Functor.map, bind, pure])
  (by
    intro α β a f
    simp [Bind.bind, Pure.pure, bind, pure])
  (by
    rintro α β γ ⟨events, outcome⟩ f g
    cases outcome with
    | error e => rfl
    | ok a =>
      simp only [Bind.bind, bind]
      cases (f a).outcome <;> simp [List.append_assoc])

/-- The computation that only fails. -/
def fail (e : Failure) : Traced α := ⟨[], .error e⟩

/-- The computation that only leaves an event. -/
def note (event : Event) : Traced Unit := ⟨[event], .ok ()⟩

/-- An outcome reached without events. -/
def lift (x : Except Failure α) : Traced α := ⟨[], x⟩

/-- The outcome of a sequence is the sequence of the outcomes. -/
@[simp]
theorem outcome_bind (x : Traced α) (f : α → Traced β) :
    (x >>= f).outcome = x.outcome.bind fun a => (f a).outcome := by
  show (bind x f).outcome = _
  rw [bind]
  cases x.outcome <;> rfl

/-- A sequence succeeds exactly if its first part does and the second then does. -/
theorem outcome_bind_eq_ok_iff (x : Traced α) (f : α → Traced β) (b : β) :
    (x >>= f).outcome = .ok b ↔ ∃ a, x.outcome = .ok a ∧ (f a).outcome = .ok b := by
  rw [outcome_bind]
  cases x.outcome <;> simp [Except.bind]

/-- When the first part of a sequence succeeds, its events come before the rest. -/
theorem events_bind {x : Traced α} {a : α} (h : x.outcome = .ok a) (f : α → Traced β) :
    (x >>= f).events = x.events ++ (f a).events := by
  show (bind x f).events = _
  rw [bind, h]

@[simp]
theorem outcome_pure (a : α) : (Pure.pure a : Traced α).outcome = .ok a := rfl

@[simp]
theorem outcome_fail (e : Failure) : (fail e : Traced α).outcome = .error e := rfl

@[simp]
theorem outcome_note (event : Event) : (note event).outcome = .ok () := rfl

@[simp]
theorem outcome_lift (x : Except Failure α) : (lift x).outcome = x := rfl

end Traced
end TypeDeduction

/-
# The order in which variables are bound

Abstractions over runs bind names one after the other: each time the first unbound
one from the start of the scope on, in the first run and then in the second, and
never the same name again.  So the names still to be bound can be listed in
advance (`Run.pending`): the next candidate is the head of the list
(`Run.map_name_candidate`), and binding it leaves the tail (`Run.pending_bind`).
Binding changes no bracket, so the scope starts where it did
(`Run.scopeStart_bind`), and binding twice is binding once to both lists
(`Run.bind_bind`).

For a run that is the flat form of an expression, binding is done in the expression
(`Expr.run_bind`).  That changes neither its structure nor its types, since a context
goes by names (`Expr.hasType_bind`).
-/

import TypeDeduction.Scope
import TypeDeduction.Typing

namespace TypeDeduction

/-- The occurrence under bindings. -/
def Variable.bind (bindings : Bindings) (v : Variable) : Variable :=
  match bindings.find? v.name with
  | some b => v.bound b
  | none => v

namespace Variable

variable (bindings : Bindings) (v : Variable)

@[simp]
theorem name_bind : (v.bind bindings).name = v.name := by
  unfold bind
  split <;> rfl

@[simp]
theorem declared_bind : (v.bind bindings).declared = v.declared := by
  unfold bind
  split <;> rfl

/-- An occurrence is bound if it was before or is named by the bindings. -/
theorem abstracted_bind :
    (v.bind bindings).abstracted = (v.abstracted || (bindings.find? v.name).isSome) := by
  unfold bind
  split <;> simp [*, bound]

end Variable

namespace Token

variable (bindings : Bindings)

@[simp]
theorem bind_var (v : Variable) : Token.bind bindings (.var v) = .var (v.bind bindings) := by
  cases h : bindings.find? v.name <;> simp [Token.bind, Variable.bind, h]

/-- Binding keeps reserved words and makes none. -/
theorem bind_eq_word_iff (t : Token) (w : Word) : t.bind bindings = .word w ↔ t = .word w := by
  cases t <;> simp [Token.bind]
  split <;> simp

end Token

/-- Names that are paired with types are all found. -/
theorem Bindings.isSome_find?_zip {names : List String} {types : List BaseType}
    (hl : types.length = names.length) {x : String} (hx : x ∈ names) :
    (Bindings.find? (names.zip types) x).isSome = true := by
  induction names generalizing types with
  | nil => exact absurd hx List.not_mem_nil
  | cons y names ih =>
      cases types with
      | nil => simp at hl
      | cons A types =>
          rw [List.zip_cons_cons, Bindings.find?]
          rcases List.mem_cons.1 hx with rfl | hm
          · split <;> simp
          · have := ih (Nat.succ.inj hl) hm
            split <;> simp_all

namespace Run

variable (bindings : Bindings) (run first second : Run)

@[simp]
theorem bind_nil : Run.bind [] run = run := by
  rw [bind, List.map_congr_left, List.map_id]
  intro t _
  cases t <;> simp [Token.bind, Bindings.find?]

theorem bind_append :
    (first ++ second).bind bindings = first.bind bindings ++ second.bind bindings :=
  List.map_append

/-- Binding one list after the other is binding to both at once. -/
theorem bind_bind (bindings' : Bindings) :
    (run.bind bindings).bind bindings' = run.bind (bindings ++ bindings') := by
  rw [bind, bind, bind, List.map_map, List.map_congr_left]
  intro t _
  cases t with
  | word | ascription | fn => rfl
  | var v =>
      simp only [Function.comp, Token.bind_var, Variable.bind, Bindings.find?_append]
      cases h : Bindings.find? bindings v.name with
      | none => simp
      | some b => cases h' : Bindings.find? bindings' v.name <;> simp [Variable.bound, h']

/-- Without brackets the scope is the whole run. -/
theorem scopeStart_eq_zero {run : Run} (h : Token.lparen ∉ run) : run.scopeStart = 0 := by
  have hopen : run.lastUnmatched = none ∧ run.lastOpen = none := by
    induction run with
    | nil => exact ⟨rfl, rfl⟩
    | cons t run ih =>
        obtain ⟨ht, hr⟩ := not_or.1 (mt List.mem_cons.2 h)
        obtain ⟨hu, ho⟩ := ih hr
        simp [lastUnmatched_cons, lastOpen, hu, ho, Ne.symm ht]
  rw [scopeStart, hopen.1, hopen.2]
  rfl

/-- Binding changes no bracket, so it leaves the start of the scope where it is. -/
theorem scopeStart_bind : (run.bind bindings).scopeStart = run.scopeStart := by
  have hu : (run.bind bindings).unmatched = run.unmatched := by
    induction run with
    | nil => rfl
    | cons t run ih =>
        rw [bind] at ih
        simp only [bind, List.map_cons, unmatched, ih, Token.bind_eq_word_iff]
  have ho : (run.bind bindings).lastOpen = run.lastOpen := by
    clear hu
    induction run with
    | nil => rfl
    | cons t run ih =>
        rw [bind] at ih
        simp only [bind, List.map_cons, lastOpen, ih, Token.bind_eq_word_iff]
  rw [scopeStart, scopeStart, lastUnmatched, lastUnmatched, hu, ho]

@[simp]
theorem occurrences_word (w : Word) : occurrences (.word w :: run) = run.occurrences := rfl

@[simp]
theorem occurrences_append (a b : Run) : occurrences (a ++ b) = a.occurrences ++ b.occurrences :=
  List.filterMap_append

theorem occurrences_bind :
    (run.bind bindings).occurrences = run.occurrences.map (Variable.bind bindings) := by
  have hvar : (fun t => Token.asVariable (Token.bind bindings t)) =
      fun t => t.asVariable.map (Variable.bind bindings) := by
    funext t
    cases t with
    | var v => rw [Token.bind_var]; rfl
    | word | ascription | fn => rfl
  rw [occurrences, bind, List.filterMap_map, occurrences, List.map_filterMap, ← hvar]
  rfl

theorem mem_occurrences {run : Run} {v : Variable} : v ∈ run.occurrences ↔ Token.var v ∈ run := by
  rw [occurrences, List.mem_filterMap]
  constructor
  · rintro ⟨t, ht, hv⟩
    cases t with
    | var w =>
        obtain rfl := Option.some.inj hv
        exact ht
    | word | ascription | fn => cases hv
  · exact fun h => ⟨.var v, h, rfl⟩

/-- Where every variable is bound, no abstraction is left to be made. -/
theorem candidate_eq_none {run : Run} (h : ∀ v, Token.var v ∈ run → v.abstracted = true) :
    run.candidate = none := by
  rw [candidate, List.find?_eq_none]
  intro v hv
  simp [h v (List.mem_of_mem_drop (mem_occurrences.1 hv))]

/-- A candidate is an unbound variable of the run. -/
theorem var_mem_of_candidate {run : Run} {v : Variable} (h : run.candidate = some v) :
    Token.var v ∈ run ∧ v.abstracted = false := by
  have hfree : v.abstracted = false := by simpa using List.find?_some h
  have hocc := mem_occurrences.1 (List.mem_of_find?_eq_some h)
  exact ⟨List.mem_of_mem_drop hocc, hfree⟩

/-! ### Names to be bound -/

/-- The names of the unbound variables from the start of the scope on. -/
def unbound (run : Run) : List String :=
  ((occurrences (run.drop run.scopeStart)).filter fun v => ¬ v.abstracted).map (·.name)

/-- The names that abstractions over the two runs bind, in this order. -/
def pending (first second : Run) : List String := (first.unbound ++ second.unbound).eraseDups

/-- The next variable to be bound is the first one pending. -/
theorem map_name_candidate :
    (first.candidate.or second.candidate).map (·.name) = (pending first second).head? := by
  have hone (run : Run) : run.candidate.map (·.name) = run.unbound.head? := by
    rw [candidate, unbound, List.head?_map, List.head?_filter]
  have hhead (names : List String) : names.eraseDups.head? = names.head? := by
    cases names <;> simp [List.eraseDups_cons]
  rw [pending, hhead, List.head?_append, ← hone, ← hone]
  cases first.candidate <;> rfl

/-- Where a name is pending there is a candidate of that name. -/
theorem exists_candidate {first second : Run} {x : String} {names : List String}
    (h : pending first second = x :: names) :
    ∃ v, first.candidate.or second.candidate = some v ∧ v.name = x := by
  rw [← Option.map_eq_some_iff, map_name_candidate, h]
  rfl

/-- Where no name is pending there is no candidate. -/
theorem candidate_eq_none_of_pending {first second : Run} (h : pending first second = []) :
    first.candidate = none ∧ second.candidate = none := by
  rw [← Option.or_eq_none_iff, ← Option.map_eq_none_iff, map_name_candidate, h]
  rfl

/-- Where there is no candidate no name is pending. -/
theorem pending_eq_nil_of_candidate {first second : Run}
    (h : first.candidate.or second.candidate = none) : pending first second = [] := by
  rw [← List.head?_eq_none_iff, ← map_name_candidate, h]
  rfl

/-- Of some occurrences, binding a name takes it off the names of the unbound ones. -/
theorem map_name_filter_bind (x : String) (A : BaseType) (vs : List Variable) :
    ((vs.map (Variable.bind [(x, A)])).filter fun v => ¬ v.abstracted).map (·.name) =
      ((vs.filter fun v => ¬ v.abstracted).map (·.name)).filter (· ≠ x) := by
  induction vs with
  | nil => rfl
  | cons v vs ih =>
      rw [List.map_cons, List.filter_cons, List.filter_cons, Variable.abstracted_bind]
      by_cases hv : v.abstracted = true
      · simpa [hv] using ih
      · by_cases hx : x = v.name
        · simpa [hv, ← hx, Bindings.find?] using ih
        · simpa [hv, hx, Ne.symm hx, Bindings.find?] using ih

/-- Binding a name takes it off the unbound ones. -/
theorem unbound_bind (x : String) (A : BaseType) :
    (run.bind [(x, A)]).unbound = run.unbound.filter (· ≠ x) := by
  have hdrop : (run.bind [(x, A)]).drop run.scopeStart =
      Run.bind [(x, A)] (run.drop run.scopeStart) := List.map_drop.symm
  rw [unbound, scopeStart_bind, hdrop, occurrences_bind, unbound]
  exact map_name_filter_bind x A _

/-- **Binding the first name pending leaves the others.** -/
theorem pending_bind {x : String} {names : List String} (h : pending first second = x :: names)
    (A : BaseType) : pending (first.bind [(x, A)]) (second.bind [(x, A)]) = names := by
  rw [pending] at h
  rw [pending, unbound_bind, unbound_bind, ← List.filter_append]
  cases hl : first.unbound ++ second.unbound with
  | nil => simp [hl] at h
  | cons y rest =>
      rw [hl, List.eraseDups_cons] at h
      obtain ⟨rfl, rfl⟩ := List.cons.inj h
      rw [List.filter_cons, if_neg (by simp)]
      simp only [ne_eq, decide_not]
      rfl

/-- Once all names pending are bound, none is left. -/
theorem pending_bind_eq_nil {bs : Bindings} (h : pending first second = bs.map (·.1)) :
    pending (first.bind bs) (second.bind bs) = [] := by
  induction bs generalizing first second with
  | nil => simpa using h
  | cons b bs ih =>
      have htail := pending_bind first second h b.2
      have hrest := ih _ _ htail
      rw [bind_bind, bind_bind] at hrest
      exact hrest

/-! ### Binders of a conclusion -/

/-- Binding changes no name, so a run looks as it did. -/
@[simp]
theorem subject_bind : (run.bind bindings).subject = run.subject := by
  rw [subject, subject, bind, List.map_map, List.map_congr_left]
  intro t _
  cases t with
  | word | ascription | fn => rfl
  | var v => simp [Token.markup]

theorem mem_of_mem_firstByName {v : Variable} {vs : List Variable} (h : v ∈ firstByName vs) :
    v ∈ vs := by
  induction vs with
  | nil => cases h
  | cons w vs ih =>
      rcases List.mem_cons.1 h with rfl | h
      · exact List.mem_cons_self
      · exact List.mem_cons_of_mem w (ih (List.mem_filter.1 h).1)

theorem firstByName_filter (x : String) (vs : List Variable) :
    firstByName (vs.filter (·.name ≠ x)) = (firstByName vs).filter (·.name ≠ x) := by
  induction vs with
  | nil => rfl
  | cons v vs ih =>
      by_cases hx : v.name = x
      · rw [List.filter_cons_of_neg (by simp [hx]), ih, firstByName,
          List.filter_cons_of_neg (by simp [hx]), hx, List.filter_filter]
        simp only [Bool.and_self]
      · rw [List.filter_cons_of_pos (by simp [hx]), firstByName, ih, firstByName,
          List.filter_cons_of_pos (by simp [hx]), List.filter_filter, List.filter_filter]
        simp only [Bool.and_comm]

/-- Binding a name takes it off the free variables. -/
theorem freeVariables_bind (x : String) (A : BaseType) :
    (run.bind [(x, A)]).freeVariables = run.freeVariables.filter (·.name ≠ x) := by
  rw [freeVariables, freeVariables, ← firstByName_filter, occurrences_bind]
  congr 1
  induction run.occurrences with
  | nil => rfl
  | cons v vs ih =>
      by_cases hx : v.name = x
      · have hbound : (v.bind [(x, A)]).abstracted = true := by
          simp [Variable.abstracted_bind, Bindings.find?, hx]
        rw [List.map_cons, List.filter_cons_of_neg (by simp [hbound]), ih, List.filter_filter,
          List.filter_filter, List.filter_cons_of_neg (by simp [hx])]
      · have hsame : v.bind [(x, A)] = v := by
          simp [Variable.bind, Bindings.find?, Ne.symm hx]
        by_cases hfree : ¬ v.abstracted = true ∧ v.declared.isSome = true
        · rw [List.map_cons, hsame, List.filter_cons_of_pos (by simpa using hfree),
            List.filter_cons_of_pos (by simpa using hfree),
            List.filter_cons_of_pos (by simp [hx]), ih]
        · rw [List.map_cons, hsame, List.filter_cons_of_neg (by simpa using hfree),
            List.filter_cons_of_neg (by simpa using hfree), ih]

/-- **Binding a name takes its binder off.** -/
theorem binders_bind (x : String) (A : BaseType) :
    (run.bind [(x, A)]).binders = run.binders.filter (·.1 ≠ x) := by
  have hentry (v : Variable) : (if decide (v.name ≠ x) then v.declared.map (v.name, ·) else none) =
      (v.declared.map (v.name, ·)).filter (·.1 ≠ x) := by
    cases v.declared <;> by_cases hx : v.name = x <;> simp [Option.filter, hx]
  rw [binders, binders, freeVariables_bind, List.filterMap_filter, List.filter_filterMap]
  simp only [hentry]

end Run

/-! ### Expressions under bindings -/

namespace Expr

/-- The expression with every variable that the bindings name bound. -/
def bind (bindings : Bindings) : Expr → Expr
  | .truth => .truth
  | .falsity => .falsity
  | .zero => .zero
  | .var v => .var (v.bind bindings)
  | .unary op e => .unary op (e.bind bindings)
  | .cond c t r => .cond (c.bind bindings) (t.bind bindings) (r.bind bindings)
  | .bracketed e => .bracketed (e.bind bindings)

variable (bindings : Bindings) (e : Expr)

theorem run_bind : (e.bind bindings).run = e.run.bind bindings := by
  induction e with
  | truth | falsity | zero => rfl
  | var v => simp [bind, run, Run.bind]
  | unary op e ih | bracketed e ih => simp_all [bind, run, Run.bind, Token.bind]
  | cond c t r hc ht hr => simp_all [bind, run, Run.bind, Token.bind]

theorem conditionals_bind : (e.bind bindings).conditionals = e.conditionals := by
  induction e with
  | truth | falsity | zero | var => rfl
  | unary op e ih | bracketed e ih => simpa [bind, conditionals] using ih
  | cond c t r hc ht hr => simp [bind, conditionals, hc, ht, hr]

theorem splittable_bind : (e.bind bindings).Splittable ↔ e.Splittable := by
  induction e with
  | truth | falsity | zero | var => rfl
  | unary op e ih | bracketed e ih => simpa [bind, Splittable] using ih
  | cond c t r hc ht hr => simp [bind, Splittable, conditionals_bind, hc, ht, hr]

theorem rules_bind (calculus : Calculus) :
    (e.bind bindings).rules calculus = e.rules calculus := by
  induction e with
  | truth | falsity | zero | var => rfl
  | unary op e ih | bracketed e ih => simpa [bind, rules] using ih
  | cond c t r hc ht hr => simp [bind, rules, hc, ht, hr]

theorem occurrences_bind :
    (e.bind bindings).occurrences = e.occurrences.map (Variable.bind bindings) := by
  induction e with
  | truth | falsity | zero | var => rfl
  | unary op e ih | bracketed e ih => simpa [bind, occurrences] using ih
  | cond c t r hc ht hr => simp [bind, occurrences, hc, ht, hr]

/-- Binding does not change the types of an expression. -/
theorem hasType_bind {Γ : Context} {A : BaseType} :
    HasType Γ (e.bind bindings) A ↔ HasType Γ e A := by
  induction e generalizing A with
  | truth | falsity | zero => rfl
  | var v =>
      constructor
      · intro h
        cases h with | var h => exact .var (by simpa using h)
      · intro h
        cases h with | var h => exact .var (by simpa using h)
  | unary op e ih =>
      constructor
      · intro h
        cases h with | unary h => exact .unary (ih.1 h)
      · intro h
        cases h with | unary h => exact .unary (ih.2 h)
  | cond c t r ihc iht ihr =>
      constructor
      · intro h
        cases h with | cond hc ht hr => exact .cond (ihc.1 hc) (iht.1 ht) (ihr.1 hr)
      · intro h
        cases h with | cond hc ht hr => exact .cond (ihc.2 hc) (iht.2 ht) (ihr.2 hr)
  | bracketed e ih =>
      constructor
      · intro h
        cases h with | bracketed h => exact .bracketed (ih.1 h)
      · intro h
        cases h with | bracketed h => exact .bracketed (ih.2 h)

/-- The flat form has the occurrences of the expression. -/
theorem occurrences_run : e.run.occurrences = e.occurrences := by
  induction e with
  | truth | falsity | zero | var => rfl
  | unary op e ih => rw [run, Run.occurrences_word, ih, occurrences]
  | cond c t r hc ht hr => simp [run, occurrences, hc, ht, hr]
  | bracketed e ih =>
      rw [run, Run.occurrences_word, Run.occurrences_append, ih]
      exact List.append_nil _

/-- The names of the variables of an expression, in the order of their first
occurrences. -/
def names (e : Expr) : List String := (e.occurrences.map (·.name)).eraseDups

variable {e}

/-- **Without brackets all names are pending**, in the order of their first occurrences. -/
theorem pending_run (hb : Token.lparen ∉ e.run)
    (hv : ∀ v ∈ e.occurrences, v.abstracted = false) : Run.pending e.run [] = e.names := by
  have hfilter : e.occurrences.filter (fun v => ¬ v.abstracted) = e.occurrences :=
    List.filter_eq_self.2 fun v h => by simp [hv v h]
  have hnil : Run.unbound [] = [] := rfl
  rw [Run.pending, hnil, List.append_nil, Run.unbound, Run.scopeStart_eq_zero hb, List.drop_zero,
    occurrences_run, hfilter, names]

/-- A flat form does not hold the opaque function. -/
theorem fn_notMem_run (e : Expr) : Token.fn ∉ e.run := by
  induction e with
  | truth | falsity | zero | var => simp [run]
  | unary op e ih | bracketed e ih => simpa [run] using ih
  | cond c t r hc ht hr => simp [run, hc, ht, hr]

end Expr
end TypeDeduction

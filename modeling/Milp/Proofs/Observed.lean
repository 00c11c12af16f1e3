import Milp.Proofs.Soundness

/-! An adapter observed from outside: the hooks that were called, what they were given and what they
answered. -/
namespace Milp

variable {α β η κ ω : Type}

/-- A hook with what it is called with. -/
inductive Request (α η : Type)
  | model (id : String)
  | var (v : Variable α)
  | constraint (c : Constraint α) (row : Row α) (columns : Handles η)
  | objective (o : Objective α) (columns : Handles η)
  | compute (columns : Handles η)
  | extract (columns : Handles η)

namespace Request

/-- What the hook gives back. -/
abbrev Value (κ : Type) : Request α η → Type
  | .model _ => Unit
  | .var _ => η
  | .constraint .. => κ
  | .objective .. => Unit
  | .compute _ => Solution α × List (Event α)
  | .extract _ => Table α

/-- Every variable that the request names has a handle in the map that comes with it. -/
def Resolved : Request α η → Prop
  | .constraint _ row columns => ∀ id ∈ row.terms.map (·.1), columns.contains id = true
  | .objective o columns => ∀ id ∈ o.expression.names, columns.contains id = true
  | _ => True

/-- A request of solving, after initialization. -/
def IsSolving : Request α η → Prop
  | .compute _ | .extract _ => True
  | _ => False

/-- A variable is asked for without its result. -/
def forget : Request α η → Request α η
  | .var v => .var v.forget
  | q => q

theorem IsSolving.resolved {q : Request α η} (h : q.IsSolving) : q.Resolved := by
  cases q with
  | compute => trivial
  | extract => trivial
  | _ => exact h.elim

theorem IsSolving.forget {q : Request α η} (h : q.IsSolving) : q.forget.IsSolving := by
  cases q with
  | var => exact h.elim
  | _ => exact h

end Request

/-- A call of a hook and its answer. -/
structure Exchange (α η κ : Type) where
  request : Request α η
  answer : Except AdapterError (request.Value κ)

/-- The hook could not find a handle. -/
def Exchange.Missing (x : Exchange α η κ) : Prop := ∃ id, x.answer = .error (.missingHandle id)

namespace Adapter

variable (A : Adapter α η κ)

/-- The hooks as one function. -/
def answer : (q : Request α η) → Hook A.State (q.Value κ)
  | .model id => A.initModel id
  | .var v => A.initVariable v
  | .constraint c row columns => A.initConstraint c row columns
  | .objective o columns => A.initObjective o columns
  | .compute columns => A.compute columns
  | .extract columns => A.extract columns

def observe (q : Request α η) : Hook (A.State × List (Exchange α η κ)) (q.Value κ) := fun s =>
  ((A.answer q s.1).1, (A.answer q s.1).2, s.2 ++ [⟨q, (A.answer q s.1).1⟩])

/-- The same adapter, with every exchange on record. -/
abbrev observed : Adapter α η κ where
  State := A.State × List (Exchange α η κ)
  name s := A.name s.1
  variableFactory s := A.variableFactory s.1
  constraintFactory s := A.constraintFactory s.1
  initModel id := A.observe (.model id)
  initVariable v := A.observe (.var v)
  initConstraint c row columns := A.observe (.constraint c row columns)
  initObjective o columns := A.observe (.objective o columns)
  compute columns := A.observe (.compute columns)
  extract columns := A.observe (.extract columns)

/-- The adapter answers so, one exchange after the other, from one state to another. -/
def Answers : A.State → List (Exchange α η κ) → A.State → Prop
  | σ, [], τ => τ = σ
  | σ, x :: xs, τ => x.answer = (A.answer x.request σ).1 ∧ Answers (A.answer x.request σ).2 xs τ

/-- The adapter asks only for handles of the variables that a row or an objective names. -/
structure LooksUpGiven : Prop where
  model : ∀ id s n, (A.initModel id s).1 ≠ .error (.missingHandle n)
  var : ∀ v s n, (A.initVariable v s).1 ≠ .error (.missingHandle n)
  constraint : ∀ c row columns s n, (A.initConstraint c row columns s).1 =
    .error (.missingHandle n) → n ∈ row.terms.map (·.1) ∧ columns.contains n = false
  objective : ∀ o columns s n, (A.initObjective o columns s).1 = .error (.missingHandle n) →
    n ∈ o.expression.names ∧ columns.contains n = false
  compute : ∀ columns s n, (A.compute columns s).1 ≠ .error (.missingHandle n)
  extract : ∀ columns s n, (A.extract columns s).1 ≠ .error (.missingHandle n)

variable {A}

theorem LooksUpGiven.answer (h : A.LooksUpGiven) {q : Request α η} (hq : q.Resolved) (s : A.State)
    (n : String) :
    (A.answer q s).1 ≠ .error (.missingHandle n) := by
  intro he
  cases q with
  | model id => exact h.model id s n he
  | var v => exact h.var v s n he
  | constraint c row columns =>
    obtain ⟨hn, hc⟩ := h.constraint c row columns s n he
    exact absurd (hq n hn) (by simp [hc])
  | objective o columns =>
    obtain ⟨hn, hc⟩ := h.objective o columns s n he
    exact absurd (hq n hn) (by simp [hc])
  | compute columns => exact h.compute columns s n he
  | extract columns => exact h.extract columns s n he

theorem answer_observed (q : Request α η) : A.observed.answer q = A.observe q := by
  cases q <;> rfl

theorem observe_eq {q : Request α η} {σ τ : A.State × List (Exchange α η κ)}
    {r : Except AdapterError (q.Value κ)} (h : A.observe q σ = (r, τ)) :
    A.answer q σ.1 = (r, τ.1) ∧ τ.2 = σ.2 ++ [⟨q, r⟩] := by
  cases h
  exact ⟨rfl, rfl⟩

theorem answers_append {xs ys : List (Exchange α η κ)} {σ τ : A.State} :
    A.Answers σ (xs ++ ys) τ ↔ ∃ ρ, A.Answers σ xs ρ ∧ A.Answers ρ ys τ := by
  induction xs generalizing σ with
  | nil => simp [Answers]
  | cons x xs ih => simp [Answers, ih, and_assoc]

theorem Answers.exists_state {xs : List (Exchange α η κ)} {σ τ : A.State} (h : A.Answers σ xs τ) :
    ∀ x ∈ xs, ∃ ρ, x.answer = (A.answer x.request ρ).1 := by
  induction xs generalizing σ with
  | nil => simp
  | cons x xs ih =>
    intro y hy
    rcases List.mem_cons.mp hy with rfl | hy
    · exact ⟨σ, h.1⟩
    · exact ih h.2 y hy

end Adapter

namespace Model

variable {A : Adapter α η κ}

/-- What the adapter of a model was asked, and what it answered. -/
def exchanges (m : Model A.observed) : List (Exchange α η κ) := m.adapter.2

def requests (m : Model A.observed) : List (Request α η) := m.exchanges.map (·.request)

end Model
end Milp

import Milp.Issues
import Milp.Proofs.CanonicalRow
import Milp.Proofs.Growth

/-! Models without issues, and models that differ only in what a solve left. -/
namespace Milp

variable {α η κ : Type} {A : Adapter α η κ}

/-- A variable as it was declared, without its result. -/
def Variable.forget (v : Variable α) : Variable α := { v with result := none }

namespace Model

/-- The variables as they were declared, by identifier. -/
def declaredVars (m : Model A) : List (String × Variable α) :=
  m.vars.entities.entries.map fun e => (e.1, e.2.entity.forget)

theorem keys_declaredVars (m : Model A) : m.declaredVars.map Prod.fst = m.vars.entities.keys := by
  simp [declaredVars, Table.keys, Function.comp_def]

/-- Only what a solve leaves, the stage and the adapter may differ. -/
structure Alike (m m' : Model A) : Prop where
  identifier : m'.identifier = m.identifier
  token : m'.token = m.token
  vars : m'.declaredVars = m.declaredVars
  constraints : m'.constraints = m.constraints
  objective : m'.objective = m.objective
  columns : m'.columns = m.columns
  lines : m'.lines = m.lines

variable {m m' : Model A}

theorem alike_with (m : Model A) (adapter : A.State) (stage : Stage) (solution : Solution α) :
    m.Alike { m with adapter, stage, solution } := ⟨rfl, rfl, rfl, rfl, rfl, rfl, rfl⟩

theorem Alike.trans {m'' : Model A} (h : m.Alike m') (h' : m'.Alike m'') : m.Alike m'' where
  identifier := h'.identifier.trans h.identifier
  token := h'.token.trans h.token
  vars := h'.vars.trans h.vars
  constraints := h'.constraints.trans h.constraints
  objective := h'.objective.trans h.objective
  columns := h'.columns.trans h.columns
  lines := h'.lines.trans h.lines

theorem Alike.contains (h : m.Alike m') (id : String) :
    m'.vars.contains id = m.vars.contains id := by
  have hk : m'.vars.entities.keys = m.vars.entities.keys := by
    rw [← keys_declaredVars, ← keys_declaredVars, h.vars]
  rw [Bool.eq_iff_iff]
  exact Table.mem_keys.symm.trans (hk ▸ Table.mem_keys)

theorem Alike.ownsObjective (h : m.Alike m') (ho : m.OwnsObjective) : m'.OwnsObjective :=
  fun o hm =>
  ⟨(ho o (h.objective ▸ hm)).1.trans h.token.symm, fun id hid =>
    h.contains id ▸ (ho o (h.objective ▸ hm)).2 id hid⟩

/-- Declarations that are closed do not change any more. -/
theorem Grows.alike (h : m.Grows m') (hv : m.stage.admits .var = false)
    (hc : m.stage.admits .constraint = false) (ho : m.stage.admitsObjective = false) :
    m.Alike m' where
  identifier := h.identifier
  token := h.token
  vars := by rw [declaredVars, h.closedVars hv]; rfl
  constraints := h.closedConstraints hc
  objective := h.closedObjective ho
  columns := h.columns
  lines := h.lines

section Issues

variable [Scalar α]

theorem constraintIssues_eq_nil {c : Constraint α} :
    m.constraintIssues c = [] ↔ c.row.hasVariables = true ∧ ∀ id ∈ c.left.names ++ c.right.names,
      m.vars.contains id = true := by
  simp only [constraintIssues, unknownNames, List.append_eq_nil_iff, List.map_eq_nil_iff,
    ← List.filter_append, List.filter_eq_nil_iff, Bool.not_eq_true', Bool.not_eq_false]
  constructor
  · intro h
    exact ⟨by have := h.1; simp_all, h.2⟩
  · intro h
    exact ⟨by simp [h.1], h.2⟩

theorem issues_eq_nil :
    m.issues = [] ↔ (∀ e ∈ m.declaredVars, e.2.issue? = none) ∧
      (∀ e ∈ m.constraints.entities.entries, e.2.entity.row.hasVariables = true ∧
        ∀ id ∈ e.2.entity.left.names ++ e.2.entity.right.names, m.vars.contains id = true) ∧
      ∀ o ∈ m.objective, ∀ id ∈ o.expression.names, m.vars.contains id = true := by
  have hv : m.vars.values.filterMap Variable.issue? = [] ↔
      ∀ e ∈ m.declaredVars, e.2.issue? = none := by
    simp only [declaredVars, Registry.values, Table.values, List.filterMap_eq_nil_iff,
      List.forall_mem_map]
    rfl
  have hc : m.constraints.values.flatMap m.constraintIssues = [] ↔
      ∀ e ∈ m.constraints.entities.entries, m.constraintIssues e.2.entity = [] := by
    simp only [Registry.values, Table.values, List.flatMap_eq_nil_iff, List.forall_mem_map]
  simp only [constraintIssues_eq_nil] at hc
  rw [issues, List.append_eq_nil_iff, List.append_eq_nil_iff, hv, hc, and_assoc]
  cases m.objective <;> simp [unknownNames]

theorem Alike.issues (h : m.Alike m') (hm : m.issues = []) : m'.issues = [] := by
  rw [issues_eq_nil] at hm ⊢
  simpa only [h.vars, h.constraints, h.objective, h.contains] using hm

/-- A constraint without issues names only known variables in its row. -/
theorem contains_of_row (h : m.issues = []) {e : String × Placed (Constraint α)}
    (he : e ∈ m.constraints.entities.entries) {id : String}
    (hid : id ∈ e.2.entity.row.terms.map (·.1)) :
    m.vars.contains id = true := by
  have hn : e.2.entity.row.terms.map (·.1) = _ := e.2.entity.names_row
  rw [hn, List.mem_eraseDups] at hid
  exact ((issues_eq_nil.mp h).2.1 e he).2 id hid

end Issues
end Model
end Milp

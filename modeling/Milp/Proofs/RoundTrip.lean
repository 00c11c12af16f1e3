import Milp.Adapter.Recorder
import Milp.Proofs.Restored

/-! A captured model comes back on a fresh one, and is captured there as the same document. -/
namespace Milp

variable {η κ η' κ' ω : Type} {A : Adapter Extended η κ} {A' : Adapter Extended η' κ'}

/-- A new registry that takes over another one is a copy of it. -/
theorem Registry.Regular.merge_new {k : Kind} {E F : Type} {name : E → String} {r : Registry k E}
    (h : r.Regular name) (f : E → F) : (Registry.new k F).merge (r.copy f) = r.copy f := by
  have hg : (Registry.new k F).groups.union (r.copy f).groups = (r.copy f).groups := by
    apply Table.ext_find?
    intro id
    rw [Table.find?_union, new, Table.find?_insert]
    split
    next hid =>
      rw [copy, Table.find?_map, hid, h.default]
      rfl
    next => rfl
  have he : (Registry.new k F).entities.union (r.copy f).entities = (r.copy f).entities := by
    apply Table.ext_find?
    intro id
    rw [Table.find?_union]
    rfl
  rw [merge, hg, he]

namespace Model

/-- No number of the model is lost when it is stored: net coefficients have values, and a bound that
is not finite leaves its side open. -/
structure Exact (m : Model A) : Prop where
  bounds : ∀ id p, m.vars.entities.find? id = some p →
    p.entity.lower ≠ .infinite false ∧ p.entity.upper ≠ .infinite true
  sides : ∀ id p, m.constraints.entities.find? id = some p →
    p.entity.left.Defined ∧ p.entity.right.Defined
  objective : ∀ o, m.objective = some o → o.expression.Defined

/-- The other model holds the same: groups and members, entities, objective, and what was solved. -/
structure SameAs (m : Model A) (m' : Model A') : Prop where
  identifier : m'.identifier = m.identifier
  groupIds : ∀ k, m'.groupIds k = m.groupIds k
  groups : ∀ k id g, (m.registry k).groups.find? id = some g →
    ∃ g', (m'.registry k).groups.find? id = some g' ∧ g'.identifier = g.identifier ∧
      g'.description = g.description
  members : ∀ k id, m'.members k id = m.members k id
  ids : ∀ k, (m'.registry k).entities.keys = (m.registry k).entities.keys
  vars : ∀ id p, m.vars.entities.find? id = some p → ∃ p', m'.vars.entities.find? id = some p' ∧
    p'.entity.identifier = p.entity.identifier ∧ p'.entity.varType = p.entity.varType ∧
    p'.entity.lower = p.entity.lower ∧ p'.entity.upper = p.entity.upper ∧
    p'.entity.result = p.entity.result
  constraints : ∀ id p, m.constraints.entities.find? id = some p →
    ∃ p', m'.constraints.entities.find? id = some p' ∧ p'.entity.identifier = p.entity.identifier ∧
      p'.entity.comparison = p.entity.comparison ∧
    p'.entity.left.equivalent p.entity.left = true ∧
    p'.entity.right.equivalent p.entity.right = true ∧ p'.entity.row = p.entity.row
  constants : ∀ id p, m.constants.entities.find? id = some p →
    ∃ p', m'.constants.entities.find? id = some p' ∧ p'.entity.identifier = p.entity.identifier ∧
      p'.entity.value = p.entity.value
  objective : ∀ o, m.objective = some o → ∃ o', m'.objective = some o' ∧
    o'.direction = o.direction ∧ o'.expression.equivalent o.expression = true
  noObjective : m.objective = none → m'.objective = none
  solution : m'.solution = m.solution

variable {m : Model A} {m' : Model A'}

/-- Bounds are in order, so neither is without a value. -/
theorem Regular.storable_of_bounds (hm : m.Regular) {id : String} {p : Placed (Variable Extended)}
    (hp : m.vars.entities.find? id = some p) (hl : p.entity.lower ≠ .infinite false)
    (hu : p.entity.upper ≠ .infinite true) : p.entity.Storable := by
  obtain ⟨hle, -⟩ := hm.bounds id p hp
  obtain ⟨group, identifier, varType, lower, upper, owner, result⟩ := p
  constructor
  · cases lower with
    | finite x => rfl
    | infinite negative =>
      cases negative with
      | true => rfl
      | false => exact absurd rfl hl
    | undefined => cases hle
  · cases upper with
    | finite x => rfl
    | infinite negative =>
      cases negative with
      | true => exact absurd rfl hu
      | false => rfl
    | undefined => cases lower <;> cases hle

theorem Regular.storable (hm : m.Regular) (he : m.Exact) {id : String}
    {p : Placed (Variable Extended)} (hp : m.vars.entities.find? id = some p) :
    p.entity.Storable :=
  hm.storable_of_bounds hp (he.bounds id p hp).1 (he.bounds id p hp).2

/-- The registries of the second model are copies of those of the first. -/
structure CopyOf (m' : Model A') (m : Model A) : Prop where
  identifier : m'.identifier = m.identifier
  vars : m'.vars = m.vars.copy (Variable.moveTo m'.token)
  constraints : m'.constraints = m.constraints.copy (Constraint.collected m'.token)
  constants : m'.constants = m.constants.copy fun c => c
  objective : m'.objective = m.objective.map fun o => ⟨o.expression.collected m'.token, o.direction⟩
  solution : m'.solution = m.solution

theorem copyOf_takeOver (hm : m.Regular) (token : Token) (adapter : A'.State) :
    CopyOf ((Model.new token m.identifier adapter : Model A').takeOver m) m where
  identifier := rfl
  vars := hm.vars.merge_new _
  constraints := hm.constraints.merge_new _
  constants := hm.constants.merge_new _
  objective := Option.or_none
  solution := rfl

namespace CopyOf

theorem registry (h : m'.CopyOf m) (k : Kind) :
    ∃ f : k.Entity Extended → k.Entity Extended, m'.registry k = (m.registry k).copy f := by
  cases k with
  | var => exact ⟨_, h.vars⟩
  | constraint => exact ⟨_, h.constraints⟩
  | constant => exact ⟨_, h.constants⟩

theorem members (h : m'.CopyOf m) (k : Kind) (id : String) : m'.members k id = m.members k id := by
  obtain ⟨f, hf⟩ := h.registry k
  have hmembers : ((m.registry k).copy f).members id = (m.registry k).members id := by
    simp [Registry.copy, Registry.members, Table.map, Table.filter, Table.keys, List.filter_map,
      Function.comp_def]
  rw [Model.members, Model.members, Model.group, Model.group, Registry.group, Registry.group,
    hf, hmembers]
  rw [Registry.copy, Table.find?_map]
  cases (m.registry k).groups.find? id <;> rfl

/-- A copy is captured as the same document. -/
theorem document (h : m'.CopyOf m) : m'.document = m.document := by
  have hvars : m'.vars.stored Variable.store = m.vars.stored Variable.store := by
    rw [h.vars]
    exact Registry.stored_copy fun _ _ _ => rfl
  have hconstraints : m'.constraints.stored Constraint.store =
      m.constraints.stored Constraint.store := by
    rw [h.constraints]
    exact Registry.stored_copy fun _ p _ => p.entity.store_collected _
  have hconstants : m'.constants.stored Constant.store = m.constants.stored Constant.store := by
    rw [h.constants]
    exact Registry.stored_copy fun _ _ _ => rfl
  have hobjective : m'.objective.map (·.expression.store) =
      m.objective.map (·.expression.store) := by
    rw [h.objective]
    cases m.objective with
    | none => rfl
    | some o => exact congrArg some (o.expression.store_collected _)
  have hdirection : m'.objective.map (·.direction) = m.objective.map (·.direction) := by
    rw [h.objective]
    cases m.objective <;> rfl
  have hheader : m'.storeHeader = m.storeHeader := by
    rw [storeHeader, storeHeader, hobjective, hdirection, h.identifier, h.solution, h.vars,
      h.constraints, h.constants]
    simp only [Registry.copy, Table.map_map]
  rw [Model.document, Model.document, hvars, hconstraints, hconstants, hheader]

theorem sameAs (h : m'.CopyOf m) (he : m.Exact) : m.SameAs m' where
  identifier := h.identifier
  groupIds k := by
    obtain ⟨f, hf⟩ := h.registry k
    rw [groupIds, groupIds, hf]
    exact Table.keys_map ..
  groups k id g hg := by
    obtain ⟨f, hf⟩ := h.registry k
    rw [hf, Registry.copy, Table.find?_map, hg]
    exact ⟨_, rfl, rfl, rfl⟩
  members := h.members
  ids k := by
    obtain ⟨f, hf⟩ := h.registry k
    rw [hf]
    exact Table.keys_map ..
  vars id p hp := by
    rw [h.vars, Registry.copy, Table.find?_map, hp]
    exact ⟨_, rfl, rfl, rfl, rfl, rfl, rfl⟩
  constraints id p hp := by
    rw [h.constraints, Registry.copy, Table.find?_map, hp]
    obtain ⟨hl, hr⟩ := he.sides id p hp
    exact ⟨_, rfl, rfl, rfl, Expression.equivalent_collected _ hl,
      Expression.equivalent_collected _ hr, p.entity.row_collected _⟩
  constants id p hp := by
    rw [h.constants, Registry.copy, Table.find?_map, hp]
    exact ⟨_, rfl, rfl, rfl⟩
  objective o ho := by
    rw [h.objective, ho]
    exact ⟨_, rfl, rfl, Expression.equivalent_collected _ (he.objective o ho)⟩
  noObjective ho := by rw [h.objective, ho]; rfl
  solution := h.solution

/-- A copy goes by the same names. -/
theorem capture (h : m'.CopyOf m) (hm : m.Regular) : m'.capture = .ok m.document := by
  have hnamed {k : Kind} {E F : Type} {r : Registry k E} {name : E → String} (hr : r.Regular name)
      (f : E → F) : (r.copy f).Named := by
    intro id g hg
    rw [Registry.copy, Table.find?_map] at hg
    obtain ⟨g', hg', rfl⟩ := Option.map_eq_some_iff.mp hg
    exact (hr.groups id g' hg').1
  rw [capture_eq, h.document]
  · rw [h.vars]
    exact hnamed hm.vars _
  · rw [h.constraints]
    exact hnamed hm.constraints _
  · rw [h.constants]
    exact hnamed hm.constants _

end CopyOf
end Model

/-- In every life of a model that uses the usual factories, it can be captured, and its document
restored on a fresh model. There the same is found, and captured again. -/
theorem Run.restore_capture (hA : A.Usual) (hA' : A'.Usual) {start : A.State} {s : Run A ω}
    (h : s.Reachable start) (he : s.model.Exact) (token : Token) (adapter : A'.State)
    (journal : List (Event Extended)) :
    ∃ d, s.model.capture = .ok d ∧ ∃ m' journal',
      Edit.restore d ((Model.new token s.model.identifier adapter : Model A'), journal) =
        (.ok (), m', journal') ∧ s.model.SameAs m' ∧ m'.capture = .ok d := by
  have hm := h.regular hA
  let fresh : Model A' := Model.new token s.model.identifier adapter
  have hcopy : (fresh.takeOver s.model).CopyOf s.model := Model.copyOf_takeOver hm token adapter
  have hrestore : Edit.Leads fresh (Edit.restore s.model.document) () (fresh.takeOver s.model) :=
    leads_restore (Model.regular_new hA' _ _ _) rfl hm (fun _ _ hp => hm.storable he hp)
      fun k _ _ => by cases k <;> rfl
  obtain ⟨journal', hj⟩ := hrestore journal
  exact ⟨s.model.document, Model.capture_eq hm.vars.named hm.constraints.named hm.constants.named,
    _, journal', hj, hcopy.sameAs he, hcopy.capture hm⟩

/-- A group of its own, an open bound, and a side that comes to nothing. -/
def Program.depot {A : Adapter Extended Nat Nat} : Program A Unit .group :=
  .act (.createGroup .var "cargo" "what is sent" none) fun
    | .error e => .finish (.error e)
    | .ok g =>
      .act (.createVariable "boxes" .integer (.finite 0) (.infinite false) g) fun
        | .error e => .finish (.error e)
        | .ok x =>
          let nothing : Expression Extended :=
            ⟨x.owner, [.constant (.finite 1), .constant (.finite (-1))]⟩
          let boxes : Expression Extended :=
            ⟨x.owner, [.ofVariable (.finite 2) x, .ofVariable (.finite 1) x]⟩
          .act (.addConstraint "some" nothing .lessEqual boxes (.default .constraint)) fun
            | .error e => .finish (.error e)
            | .ok _ => .act (.setObjective boxes .minimize) fun r => .finish r

def Run.depot : Run (recorder Extended) Unit :=
  (new ⟨0⟩ "depot" ({} : Recorder.State Extended) ()).after (.declare Program.depot)

theorem Run.restore_capture_depot :
    (recorder Extended).Usual ∧ depot.Reachable ({} : Recorder.State Extended) ∧ depot.model.Exact ∧
      ∃ d, depot.model.capture = .ok d ∧ ∃ m' journal',
        Edit.restore d ((Model.new ⟨1⟩ "depot" {} : Model (recorder Extended)), []) =
          (.ok (), m', journal') ∧
          depot.model.SameAs m' ∧ m'.capture = .ok d := by
  have hA : (recorder Extended).Usual := fun _ => ⟨rfl, rfl⟩
  have hs : depot.Reachable ({} : Recorder.State Extended) := (Reachable.new _ _ _).after _
  have he : depot.model.Exact := by
    have hv : ∀ e ∈ depot.model.vars.entities.entries,
        e.2.entity.lower ≠ .infinite false ∧ e.2.entity.upper ≠ .infinite true := by decide
    have hc : ∀ e ∈ depot.model.constraints.entities.entries,
        (∀ t ∈ e.2.entity.left.terms, Unbounded.isFinite t.coefficient = true) ∧
          ∀ t ∈ e.2.entity.right.terms, Unbounded.isFinite t.coefficient = true := by decide
    have ho : ∀ o ∈ depot.model.objective.toList,
        ∀ t ∈ o.expression.terms, Unbounded.isFinite t.coefficient = true := by decide
    refine ⟨fun id p hp => hv _ (Table.find?_eq_some_iff.mp hp), fun id p hp => ?_, fun o h => ?_⟩
    · obtain ⟨hl, hr⟩ := hc _ (Table.find?_eq_some_iff.mp hp)
      exact ⟨.of_finite hl, .of_finite hr⟩
    · exact .of_finite (ho o (by simp [h]))
  exact ⟨hA, hs, he, restore_capture hA hA hs he ⟨1⟩ {} []⟩

end Milp

import Milp.Proofs.Invariance

/-! Models built with the usual factories: every entity is registered under its own name, in a group
that is there, and speaks of registered variables only. -/
namespace Milp

variable {α β η κ ω E : Type} {A : Adapter α η κ} {k : Kind}

theorem isBlank_defaultGroup (k : Kind) : Text.isBlank k.defaultGroup = false := by
  cases k <;> decide

/-- Groups and entities are kept under their own identifiers, and each entity in a group that is
there. -/
structure Registry.Regular (r : Registry k E) (name : E → String) : Prop where
  groups : ∀ id g, r.groups.find? id = some g → g.identifier = id ∧ Text.isBlank id = false
  default : r.groups.find? k.defaultGroup = some (Group.default k)
  entities : ∀ id p, r.entities.find? id = some p →
    r.groups.contains p.group = true ∧ name p.entity = id ∧ Text.isBlank id = false

namespace Registry

variable {r : Registry k E} {name : E → String}

theorem regular_new : (Registry.new k E).Regular name where
  groups id g h := by
    rw [new, Table.find?_insert] at h
    split at h
    next hid =>
      cases h
      exact ⟨hid.symm, hid ▸ isBlank_defaultGroup k⟩
    next => cases h
  default := by simp [new, Table.find?_insert]
  entities id p h := by cases h

theorem Regular.addGroup (h : r.Regular name) {id : String} {g : Group k}
    (hn : r.groups.contains id = false) (hid : g.identifier = id) (hb : Text.isBlank id = false) :
    Regular { r with groups := r.groups.insert id g } name where
  groups id' g' hg' := by
    rw [Table.find?_insert] at hg'
    split at hg'
    next h =>
      cases hg'
      exact ⟨hid.trans h.symm, h ▸ hb⟩
    next => exact h.groups id' g' hg'
  default := by
    rw [Table.find?_insert]
    split
    next hk => simp [← hk, Table.contains_of_find? h.default] at hn
    next => exact h.default
  entities id p hp := by
    obtain ⟨hp, hn⟩ := h.entities id p hp
    exact ⟨by simp [hp], hn⟩

theorem Regular.insert (h : r.Regular name) {group id : String} {entity : E}
    (hg : r.groups.contains group = true) (hn : name entity = id) (hb : Text.isBlank id = false) :
    Regular { r with entities := r.entities.insert id ⟨group, entity⟩ } name where
  groups := h.groups
  default := h.default
  entities id' p hp := by
    rw [Table.find?_insert] at hp
    split at hp
    next hid =>
      cases hp
      exact ⟨hg, hn.trans hid.symm, hid ▸ hb⟩
    next => exact h.entities id' p hp

/-- Entities may change as long as their names stay. -/
theorem Regular.map (h : r.Regular name) {f : String → Placed E → Placed E}
    (hf : ∀ id p, (f id p).group = p.group ∧ name (f id p).entity = name p.entity) :
    Regular { r with entities := r.entities.map f } name where
  groups := h.groups
  default := h.default
  entities id p hp := by
    rw [Table.find?_map] at hp
    obtain ⟨q, hq, rfl⟩ := Option.map_eq_some_iff.mp hp
    obtain ⟨hg, hn, hb⟩ := h.entities id q hq
    exact ⟨(hf id q).1 ▸ hg, (hf id q).2.trans hn, hb⟩

end Registry

/-- The factories of this library, which check what they are given and add nothing. -/
def Adapter.Usual [Scalar α] (A : Adapter α η κ) : Prop :=
  ∀ σ, A.variableFactory σ = Variable.new ∧ A.constraintFactory σ = Constraint.new

namespace Model

variable [Scalar α]

structure Regular (m : Model A) : Prop where
  variableFactory : m.variableFactory = Variable.new
  constraintFactory : m.constraintFactory = Constraint.new
  vars : m.vars.Regular (·.identifier)
  constraints : m.constraints.Regular (·.identifier)
  constants : m.constants.Regular (·.identifier)
  bounds : ∀ id p, m.vars.entities.find? id = some p →
    Scalar.le p.entity.lower p.entity.upper = true ∧ p.entity.owner = m.token
  sides : ∀ id p, m.constraints.entities.find? id = some p →
    m.Owns p.entity.left ∧ m.Owns p.entity.right ∧
      (p.entity.left.isEmpty && p.entity.right.isEmpty) = false
  objective : m.OwnsObjective

variable {m m' : Model A}

theorem regular_new (hA : A.Usual) (token : Token) (id : String) (adapter : A.State) :
    (Model.new token id adapter : Model A).Regular where
  variableFactory := (hA adapter).1
  constraintFactory := (hA adapter).2
  vars := Registry.regular_new
  constraints := Registry.regular_new
  constants := Registry.regular_new
  bounds id p h := by cases h
  sides id p h := by cases h
  objective o h := by cases h

theorem Regular.createGroup (h : m.Regular) {k : Kind} {id description : String}
    {generator : Option Naming.Namer} {g : Group k}
    (hm : m.createGroup k id description generator = .ok (g, m')) : m'.Regular := by
  have hg := Grows.createGroup hm
  obtain ⟨-, hb, hn, rfl, rfl⟩ := createGroup_eq_ok.mp hm
  cases k with
  | var => exact { h with
      vars := h.vars.addGroup hn rfl hb
      sides := fun id p hp => ⟨hg.owns (h.sides id p hp).1, hg.owns (h.sides id p hp).2.1,
        (h.sides id p hp).2.2⟩
      objective := hg.objective h.objective }
  | constraint => exact { h with constraints := h.constraints.addGroup hn rfl hb }
  | constant => exact { h with constants := h.constants.addGroup hn rfl hb }

theorem Regular.createVariable (h : m.Regular) {id : String} {varType : VarType} {lower upper : α}
    {group : Group .var} {v : Variable α}
    (hm : m.createVariable id varType lower upper group = .ok (v, m')) :
    m'.Regular := by
  have hg := Grows.createVariable hm
  obtain ⟨-, hgroup, -, hv, rfl⟩ := createVariable_eq_ok.mp hm
  rw [h.variableFactory, Variable.new_eq_ok] at hv
  obtain ⟨hb, hle, rfl⟩ := hv
  exact { h with
    vars := h.vars.insert hgroup rfl hb
    bounds := fun id' p hp => by
      rw [Table.find?_insert] at hp
      split at hp
      · cases hp
        exact ⟨hle, rfl⟩
      · exact h.bounds id' p hp
    sides := fun id p hp => ⟨hg.owns (h.sides id p hp).1, hg.owns (h.sides id p hp).2.1,
      (h.sides id p hp).2.2⟩
    objective := hg.objective h.objective }

/-- Variables may change as long as they keep their names, groups and owners and their bounds are in order. -/
theorem Regular.changeVars (h : m.Regular) {f : String → Placed (Variable α) → Placed (Variable α)}
    (hf : ∀ id p, (f id p).group = p.group ∧ (f id p).entity.identifier = p.entity.identifier ∧
      (f id p).entity.owner = p.entity.owner)
    (hb : ∀ id p, m.vars.entities.find? id = some p →
      Scalar.le (f id p).entity.lower (f id p).entity.upper = true) :
    Regular { m with vars := { m.vars with entities := m.vars.entities.map f } } := by
  have hc (id : String) : (m.vars.entities.map f).contains id = m.vars.entities.contains id :=
    Table.contains_map ..
  have ho (e : Expression α) (he : m.Owns e) :
      Owns { m with vars := { m.vars with entities := m.vars.entities.map f } } e :=
    ⟨he.1, fun id hid => (hc id).trans (he.2 id hid)⟩
  exact { h with
    vars := h.vars.map fun id p => ⟨(hf id p).1, (hf id p).2.1⟩
    bounds := fun id p hp => by
      rw [Table.find?_map] at hp
      obtain ⟨q, hq, rfl⟩ := Option.map_eq_some_iff.mp hp
      exact ⟨hb id q hq, (hf id q).2.2.trans (h.bounds id q hq).2⟩
    sides := fun id p hp => ⟨ho _ (h.sides id p hp).1, ho _ (h.sides id p hp).2.1,
      (h.sides id p hp).2.2⟩
    objective := fun o hm => ho _ (h.objective o hm) }

/-- Variables may get or lose results. -/
theorem Regular.mapVars (h : m.Regular) {f : String → Placed (Variable α) → Placed (Variable α)}
    (hf : ∀ id p, ∃ r, f id p = { p with entity := { p.entity with result := r } }) :
    Regular { m with vars := { m.vars with entities := m.vars.entities.map f } } := by
  refine h.changeVars (fun id p => ?_) fun id p hp => ?_
  · obtain ⟨r, hr⟩ := hf id p
    rw [hr]
    exact ⟨rfl, rfl, rfl⟩
  · obtain ⟨r, hr⟩ := hf id p
    rw [hr]
    exact (h.bounds id p hp).1

theorem Regular.giveResult (h : m.Regular) (id : String) (x : α) : (m.giveResult id x).Regular :=
  h.mapVars fun _ p => by
    split
    · exact ⟨some x, rfl⟩
    · exact ⟨p.entity.result, rfl⟩

theorem Regular.addConstraint (h : m.Regular) {id : String} {left right : Expression α}
    {comparison : Comparison} {group : Group .constraint} {c : Constraint α}
    (hm : m.addConstraint id left comparison right group = .ok (c, m')) : m'.Regular := by
  obtain ⟨-, hl, hr, hgroup, -, hc, rfl⟩ := addConstraint_eq_ok.mp hm
  rw [h.constraintFactory, Constraint.new_eq_ok] at hc
  obtain ⟨hb, -, hne, rfl⟩ := hc
  exact { h with
    constraints := h.constraints.insert hgroup rfl hb
    sides := fun id' p hp => by
      rw [Table.find?_insert] at hp
      split at hp
      · cases hp
        exact ⟨hl, hr, hne⟩
      · exact h.sides id' p hp }

theorem Regular.createConstant (h : m.Regular) {id : String} {value : α} {group : Group .constant}
    {c : Constant α} (hm : m.createConstant id value group = .ok (c, m')) : m'.Regular := by
  obtain ⟨-, hb, hgroup, -, rfl, rfl⟩ := createConstant_eq_ok.mp hm
  exact { h with constants := h.constants.insert hgroup rfl hb }

theorem Regular.setConstant (h : m.Regular) {id : String} {value : α}
    (hm : m.setConstant id value = .ok m') :
    m'.Regular := by
  obtain ⟨-, rfl⟩ := setConstant_eq_ok.mp hm
  exact { h with constants := h.constants.map fun _ _ => by split <;> exact ⟨rfl, rfl⟩ }

theorem Regular.setObjective (h : m.Regular) {e : Expression α} {direction : Direction}
    (hm : m.setObjective e direction = .ok m') : m'.Regular := by
  have hg := Grows.setObjective hm
  obtain ⟨-, -, rfl⟩ := setObjective_eq_ok.mp hm
  exact { h with objective := hg.objective h.objective }

theorem Regular.change (h : m.Regular) (hc : Change m m') : m'.Regular := by
  cases hc with
  | declared hd =>
    cases hd with
    | group hm => exact h.createGroup hm
    | var hm => exact h.createVariable hm
    | constraint hm => exact h.addConstraint hm
    | constant hm => exact h.createConstant hm
    | value hm => exact h.setConstant hm
    | objective hm => exact h.setObjective hm
  | restored hm x => exact (h.createVariable hm).giveResult _ x
  | solution s => exact { h with }

theorem Regular.tick (h : m.Regular) (ht : Tick m m') : m'.Regular := by
  cases ht with
  | change hc => exact h.change hc
  | cleared =>
    have hv := h.mapVars (f := fun _ p => { p with entity := { p.entity with result := none } })
        fun _ _ => ⟨none, rfl⟩
    exact { hv with }
  | result id x => exact h.giveResult id x
  | _ => exact { h with }

/-- With the usual factories a model is regular at any time. -/
theorem Attained.regular (hA : A.Usual) (h : m.Attained) : m.Regular :=
  h.invariant (fun _ _ ht hm => hm.tick ht) (regular_new hA)

end Model

theorem Run.Reachable.regular [Unbounded α] (hA : A.Usual) {start : A.State} {s : Run A ω}
    (h : s.Reachable start) : s.model.Regular := h.attained.regular hA

end Milp

import Milp.Initialization
import Milp.Proofs.Change

/-! What changes leave alone: the setting of a model, and what is declared on it. -/
namespace Milp

open Relation

variable {α η κ ω : Type} {A : Adapter α η κ}

namespace Model

/-- The expression is this model's, and names registered variables. -/
def Owns (m : Model A) (e : Expression α) : Prop :=
  e.owner = m.token ∧ ∀ id ∈ e.names, m.vars.contains id = true

def OwnsObjective (m : Model A) : Prop := ∀ o ∈ m.objective, m.Owns o.expression

/-- A later model keeps what was declared; only results and the values of constants may differ. -/
structure Grows (m m' : Model A) : Prop where
  identifier : m'.identifier = m.identifier
  token : m'.token = m.token
  adapter : m'.adapter = m.adapter
  variableFactory : m'.variableFactory = m.variableFactory
  constraintFactory : m'.constraintFactory = m.constraintFactory
  columns : m'.columns = m.columns
  lines : m'.lines = m.lines
  stage : m'.stage = m.stage
  groups : ∀ k id g, (m.registry k).groups.find? id = some g →
    (m'.registry k).groups.find? id = some g
  vars : ∀ id p, m.vars.entities.find? id = some p →
    ∃ r, m'.vars.entities.find? id = some { p with entity := { p.entity with result := r } }
  constraints : ∀ id p, m.constraints.entities.find? id = some p →
    m'.constraints.entities.find? id = some p
  constants : ∀ id p, m.constants.entities.find? id = some p →
    ∃ x, m'.constants.entities.find? id = some { p with entity := { p.entity with value := x } }
  objective : m.OwnsObjective → m'.OwnsObjective
  closedVars : m.stage.admits .var = false → m'.vars = m.vars
  closedConstraints : m.stage.admits .constraint = false → m'.constraints = m.constraints
  closedObjective : m.stage.admitsObjective = false → m'.objective = m.objective

variable {m m' m'' : Model A}

theorem Grows.refl (m : Model A) : m.Grows m where
  identifier := rfl
  token := rfl
  adapter := rfl
  variableFactory := rfl
  constraintFactory := rfl
  columns := rfl
  lines := rfl
  stage := rfl
  groups _ _ _ h := h
  vars _ p h := ⟨p.entity.result, h⟩
  constraints _ _ h := h
  constants _ p h := ⟨p.entity.value, h⟩
  objective h := h
  closedVars _ := rfl
  closedConstraints _ := rfl
  closedObjective _ := rfl

theorem Grows.trans (h : m.Grows m') (h' : m'.Grows m'') : m.Grows m'' where
  identifier := h'.identifier.trans h.identifier
  token := h'.token.trans h.token
  adapter := h'.adapter.trans h.adapter
  variableFactory := h'.variableFactory.trans h.variableFactory
  constraintFactory := h'.constraintFactory.trans h.constraintFactory
  columns := h'.columns.trans h.columns
  lines := h'.lines.trans h.lines
  stage := h'.stage.trans h.stage
  groups k id g hg := h'.groups k id g (h.groups k id g hg)
  vars id p hp := by
    obtain ⟨r, hr⟩ := h.vars id p hp
    obtain ⟨r', hr'⟩ := h'.vars id _ hr
    exact ⟨r', hr'⟩
  constraints id p hp := h'.constraints id p (h.constraints id p hp)
  constants id p hp := by
    obtain ⟨x, hx⟩ := h.constants id p hp
    obtain ⟨x', hx'⟩ := h'.constants id _ hx
    exact ⟨x', hx'⟩
  objective ho := h'.objective (h.objective ho)
  closedVars hs := (h'.closedVars (h.stage ▸ hs)).trans (h.closedVars hs)
  closedConstraints hs := (h'.closedConstraints (h.stage ▸ hs)).trans (h.closedConstraints hs)
  closedObjective hs := (h'.closedObjective (h.stage ▸ hs)).trans (h.closedObjective hs)

theorem Grows.contains (h : m.Grows m') {id : String} (hid : m.vars.contains id = true) :
    m'.vars.contains id = true := by
  obtain ⟨p, hp⟩ := Table.contains_iff.mp hid
  obtain ⟨r, hr⟩ := h.vars id p hp
  exact Table.contains_of_find? hr

theorem Grows.owns (h : m.Grows m') {e : Expression α} (he : m.Owns e) : m'.Owns e :=
  ⟨he.1.trans h.token.symm, fun id hid => h.contains (he.2 id hid)⟩

theorem ne_of_absent {β : Type} {t : Table β} {k k' : String} {w : β} (h : t.contains k = false)
    (hw : t.find? k' = some w) : k' ≠ k := by
  rintro rfl
  rw [Table.find?_eq_none_iff.mpr h] at hw
  cases hw

theorem find?_insert_of_absent {β : Type} {t : Table β} {k k' : String} {v w : β}
    (h : t.contains k = false) (hw : t.find? k' = some w) : (t.insert k v).find? k' = some w := by
  rw [Table.find?_insert, if_neg (ne_of_absent h hw)]
  exact hw

theorem Grows.createGroup {k : Kind} {id description : String} {generator : Option Naming.Namer}
    {g : Group k} (h : m.createGroup k id description generator = .ok (g, m')) : m.Grows m' := by
  obtain ⟨ho, -, ha, -, rfl⟩ := createGroup_eq_ok.mp h
  cases k with
  | var =>
    exact { Grows.refl m with
      groups := fun k id g hg => by
        cases k with
        | var => exact find?_insert_of_absent ha hg
        | constraint => exact hg
        | constant => exact hg
      closedVars := fun hs => absurd ho (by simp [hs]) }
  | constraint =>
    exact { Grows.refl m with
      groups := fun k id g hg => by
        cases k with
        | var => exact hg
        | constraint => exact find?_insert_of_absent ha hg
        | constant => exact hg
      closedConstraints := fun hs => absurd ho (by simp [hs]) }
  | constant =>
    exact { Grows.refl m with
      groups := fun k id g hg => by
        cases k with
        | var => exact hg
        | constraint => exact hg
        | constant => exact find?_insert_of_absent ha hg }

theorem Grows.createVariable {id : String} {varType : VarType} {lower upper : α}
    {group : Group .var} {v : Variable α}
    (h : m.createVariable id varType lower upper group = .ok (v, m')) : m.Grows m' := by
  obtain ⟨ho, -, ha, -, rfl⟩ := createVariable_eq_ok.mp h
  exact { Grows.refl m with
    groups := fun k id g hg => by cases k <;> exact hg
    vars := fun n p hp => ⟨p.entity.result, find?_insert_of_absent ha hp⟩
    objective := fun hm o h => ⟨(hm o h).1, fun n hn => by
      have := (hm o h).2 n hn
      simp_all [Registry.contains]⟩
    closedVars := fun hs => absurd ho (by simp [hs]) }

theorem Grows.addConstraint {id : String} {left right : Expression α} {comparison : Comparison}
    {group : Group .constraint} {c : Constraint α}
    (h : m.addConstraint id left comparison right group = .ok (c, m')) :
    m.Grows m' := by
  obtain ⟨ho, -, -, -, ha, -, rfl⟩ := addConstraint_eq_ok.mp h
  exact { Grows.refl m with
    groups := fun k id g hg => by cases k <;> exact hg
    constraints := fun n p hp => find?_insert_of_absent ha hp
    closedConstraints := fun hs => absurd ho (by simp [hs]) }

theorem Grows.createConstant {id : String} {value : α} {group : Group .constant} {c : Constant α}
    (h : m.createConstant id value group = .ok (c, m')) : m.Grows m' := by
  obtain ⟨-, -, -, ha, -, rfl⟩ := createConstant_eq_ok.mp h
  exact { Grows.refl m with
    groups := fun k id g hg => by cases k <;> exact hg
    constants := fun n p hp => ⟨p.entity.value, find?_insert_of_absent ha hp⟩ }

theorem Grows.setConstant {id : String} {value : α} (h : m.setConstant id value = .ok m') :
    m.Grows m' := by
  obtain ⟨-, rfl⟩ := setConstant_eq_ok.mp h
  exact { Grows.refl m with
    groups := fun k id g hg => by cases k <;> exact hg
    constants := fun n p hp => by
      simp only [Registry.modify, Table.find?_modify, hp]
      split
      · exact ⟨value, rfl⟩
      · exact ⟨p.entity.value, rfl⟩ }

theorem Grows.setObjective {e : Expression α} {direction : Direction}
    (h : m.setObjective e direction = .ok m') :
    m.Grows m' := by
  obtain ⟨ho, he, rfl⟩ := setObjective_eq_ok.mp h
  exact { Grows.refl m with
    groups := fun k id g hg => by cases k <;> exact hg
    objective := fun _ o h => by cases h; exact he
    closedObjective := fun hs => absurd ho (by simp [hs]) }

theorem Declared.grows (h : Declared m m') : m.Grows m' := by
  cases h with
  | group h => exact .createGroup h
  | var h => exact .createVariable h
  | constraint h => exact .addConstraint h
  | constant h => exact .createConstant h
  | value h => exact .setConstant h
  | objective h => exact .setObjective h

/-- While variables are closed, only one that was just declared is given a result. -/
theorem Change.grows (h : Change m m') : m.Grows m' := by
  cases h with
  | declared h => exact h.grows
  | @restored m' id _ _ _ _ _ h x =>
    have hg : m.Grows m' := .createVariable h
    exact { hg with
      groups := fun k id g h => by
        have := hg.groups k id g h
        cases k <;> exact this
      vars := fun n p hp => by
        obtain ⟨r, hr⟩ := hg.vars n p hp
        simp only [giveResult, Registry.modify, Table.find?_modify, hr]
        split
        · exact ⟨some x, rfl⟩
        · exact ⟨r, rfl⟩
      objective := fun ho o h => ⟨(hg.objective ho o h).1, fun n hn => by
        have := (hg.objective ho o h).2 n hn
        simpa [giveResult, Registry.contains, Registry.modify] using this⟩
      closedVars := fun hs => absurd (createVariable_eq_ok.mp h).1 (by simp [hs]) }
  | solution => exact { Grows.refl m with groups := fun k id g hg => by cases k <;> exact hg }

theorem grows_of_changes (h : ReflTransGen Change m m') : m.Grows m' := by
  induction h with
  | refl => exact .refl m
  | tail _ h ih => exact ih.trans h.grows

end Model

namespace Program

variable [Unbounded α]

theorem changes_run {p : Purpose} (P : Program A ω p) (s : Run A ω) :
    ReflTransGen Model.Change s.model (P.run s).2.model := by
  induction P generalizing s with
  | finish r => exact .refl
  | read next ih => exact ih _ _
  | share f next ih => exact ih s.world { s with world := f s.world }
  | note events next ih => exact ih (s.record events)
  | act a next ih =>
    exact (Edit.moves_perform a (s.model, s.journal)).trans
      (ih (Run.edit a.perform s).1 (Run.edit a.perform s).2)
  | spawn k id description generator program next _ ih =>
    have h := (Edit.moves_createGroup k id description generator).change (s.model, s.journal)
    simp only [run]
    split
    next g t ht =>
      refine .trans ?_ (ih _ _)
      have : t.model = ((Run.edit (Edit.createGroup k id description generator) s).2).model := by
        rw [ht]
      rw [Run.withPrograms, this]
      exact h
    next e t ht =>
      refine .trans ?_ (ih _ _)
      have : t.model = ((Run.edit (Edit.createGroup k id description generator) s).2).model := by
        rw [ht]
      rw [this]
      exact h
  | attach direction program next _ ih =>
    simp only [run]
    split
    · exact ih (.ok ()) { s with
        agenda := { s.agenda with objective := some (direction, program) } }
    · exact ih _ s

theorem changes_runAll (phase : Phase) (ps : List (String × Program A ω .group)) (s : Run A ω) :
    ReflTransGen Model.Change s.model (runAll phase ps s).2.model := by
  induction ps generalizing s with
  | nil => exact .refl
  | cons p rest ih =>
    obtain ⟨group, P⟩ := p
    have h := changes_run P (s.record [.initializerStarted phase group])
    simp only [runAll]
    split
    next t ht => rw [ht] at h; exact .trans h (ih t)
    next e t ht => rw [ht] at h; exact h

theorem changes_rounds (phase : Phase) (k : Kind) (done : List (String × Program A ω .group))
    (s : Run A ω) :
    ReflTransGen Model.Change s.model (rounds phase k done s).2.model := by
  fun_induction rounds phase k done s with
  | case1 => exact .refl
  | case2 done s pending _ done' t ht ih =>
    have h := changes_runAll phase pending.entries (s.withPrograms k .empty)
    rw [ht] at h
    exact .trans h ih
  | case3 done s pending _ done' e t ht =>
    have h := changes_runAll phase pending.entries (s.withPrograms k .empty)
    rw [ht] at h
    exact h

end Program
end Milp

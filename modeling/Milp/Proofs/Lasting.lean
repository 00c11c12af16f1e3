import Milp.Proofs.Invariance

/-! What is declared on a model lasts: a later model has all of it, as it was, except for the results of
variables and for the values that constants were given since. -/
namespace Milp

variable {α η κ : Type} {A : Adapter α η κ}

/-- A constant of the model under a key was given a value. -/
structure Setting (α : Type) where
  key : String
  id : String
  value : α
deriving DecidableEq

/-- The value that a constant of the model under a key was given last. -/
def Setting.last (ss : List (Setting α)) (key id : String) : Option α :=
  (ss.filter fun s => s.key == key && s.id == id).getLast?.map (·.value)

theorem Setting.last_append (ss ts : List (Setting α)) (key id : String) :
    last (ss ++ ts) key id = (last ts key id).or (last ss key id) := by
  unfold last
  rw [List.filter_append, List.getLast?_append, Option.map_or]

theorem Setting.last_eq_none {ss : List (Setting α)} {key : String} (h : ∀ s ∈ ss, s.key ≠ key)
    (id : String) : last ss key id = none := by
  have hfilter : ss.filter (fun s => s.key == key && s.id == id) = [] := by
    rw [List.filter_eq_nil_iff]
    intro s hs
    simp [h s hs]
  unfold last
  rw [hfilter]
  rfl

namespace Model

/-- The later model has whatever the first one has: its groups, its constraints, its variables but for
their results, and its constants, with the values that they were given last. -/
structure Lasts (m : Model A) (ss : List (Setting α)) (key : String) (m' : Model A) : Prop where
  groups : ∀ k id g, (m.registry k).groups.find? id = some g →
    (m'.registry k).groups.find? id = some g
  vars : ∀ id p, m.vars.entities.find? id = some p →
    ∃ r, m'.vars.entities.find? id = some { p with entity := { p.entity with result := r } }
  constraints : ∀ id p, m.constraints.entities.find? id = some p →
    m'.constraints.entities.find? id = some p
  constants : ∀ id p, m.constants.entities.find? id = some p →
    m'.constants.entities.find? id = some { p with
      entity := { p.entity with value := (Setting.last ss key id).getD p.entity.value } }

variable {m m' m'' : Model A} {ss ts : List (Setting α)} {key : String}

theorem Lasts.trans (h : m.Lasts ss key m') (h' : m'.Lasts ts key m'') :
    m.Lasts (ss ++ ts) key m'' where
  groups k id g hg := h'.groups k id g (h.groups k id g hg)
  vars id p hp := by
    obtain ⟨r, hr⟩ := h.vars id p hp
    obtain ⟨r', hr'⟩ := h'.vars id _ hr
    exact ⟨r', hr'⟩
  constraints id p hp := h'.constraints id p (h.constraints id p hp)
  constants id p hp := by
    rw [h'.constants id _ (h.constants id p hp), Setting.last_append]
    cases Setting.last ts key id <;> rfl

/-- Values that were given to the constants of other models do not matter. -/
theorem Lasts.append (h : m.Lasts ss key m') (hts : ∀ s ∈ ts, s.key ≠ key) :
    m.Lasts (ss ++ ts) key m' where
  groups := h.groups
  vars := h.vars
  constraints := h.constraints
  constants id p hp := by
    rw [h.constants id p hp, Setting.last_append, Setting.last_eq_none hts]
    rfl

theorem lasts_of_grows (h : m.Grows m')
    (hc : ∀ id p, m.constants.entities.find? id = some p →
      m'.constants.entities.find? id = some p) : m.Lasts [] key m' where
  groups := h.groups
  vars := h.vars
  constraints := h.constraints
  constants := hc

theorem Lasts.refl (m : Model A) (key : String) : m.Lasts [] key m :=
  lasts_of_grows (.refl m) fun _ _ h => h

/-- Restoring gives no constant that is there another value. -/
theorem covers_lasts (key : String) :
    Edit.Covers fun m m' : Model A => m.Lasts [] key m' where
  group h := by
    have hg := Grows.createGroup h
    obtain ⟨-, -, -, -, rfl⟩ := createGroup_eq_ok.mp h
    refine lasts_of_grows hg fun id p hp => ?_
    rename_i k _ _ _ _
    cases k <;> exact hp
  var h := by
    have hg := Grows.createVariable h
    obtain ⟨-, -, -, -, rfl⟩ := createVariable_eq_ok.mp h
    exact lasts_of_grows hg fun _ _ hp => hp
  restored h x := by
    have hg := (Change.restored h x).grows
    obtain ⟨-, -, -, -, rfl⟩ := createVariable_eq_ok.mp h
    exact lasts_of_grows hg fun _ _ hp => hp
  constraint h := by
    have hg := Grows.addConstraint h
    obtain ⟨-, -, -, -, -, -, rfl⟩ := addConstraint_eq_ok.mp h
    exact lasts_of_grows hg fun _ _ hp => hp
  constant h := by
    have hg := Grows.createConstant h
    obtain ⟨-, -, -, ha, -, rfl⟩ := createConstant_eq_ok.mp h
    exact lasts_of_grows hg fun _ _ hp => find?_insert_of_absent ha hp
  objective h := by
    have hg := Grows.setObjective h
    obtain ⟨-, -, rfl⟩ := setObjective_eq_ok.mp h
    exact lasts_of_grows hg fun _ _ hp => hp
  solution m s := lasts_of_grows (Change.solution m s).grows fun _ _ hp => hp

/-- A constant that is given a value keeps all but its value; the others stay as they are. -/
theorem lasts_setConstant {id : String} {x : α} (h : m.setConstant id x = .ok m') (key : String) :
    m.Lasts [⟨key, id, x⟩] key m' := by
  have hg := Grows.setConstant h
  obtain ⟨-, rfl⟩ := setConstant_eq_ok.mp h
  refine ⟨hg.groups, hg.vars, hg.constraints, fun n p hp => ?_⟩
  simp only [Registry.modify, Table.find?_modify, hp, Setting.last]
  by_cases hn : n = id
  · subst hn
    simp
  · simp [hn, Ne.symm hn]

/-- The model with another adapter, other handles and another solution has the same declared on it at
any stage. -/
theorem lasts_with (m : Model A) (key : String) (adapter : A.State) (columns : Handles η)
    (lines : Handles κ) (stage : Stage) (solution : Solution α) :
    m.Lasts [] key { m with adapter, columns, lines, stage, solution } where
  groups k _ _ h := by cases k <;> exact h
  vars _ p h := ⟨p.entity.result, h⟩
  constraints _ _ h := h
  constants _ _ h := h

end Model

namespace Run

theorem lasts_clearSolution (m : Model A) (key : String) : m.Lasts [] key (clearSolution m) where
  groups k _ _ h := by cases k <;> exact h
  vars id p h := by
    refine ⟨none, ?_⟩
    simp [clearSolution, Registry.mapEntities, Table.find?_map, h]
  constraints _ _ h := h
  constants _ _ h := h

theorem lasts_withResults (m : Model A) (values : Table α) (key : String) :
    m.Lasts [] key (m.withResults values) where
  groups k _ _ h := by cases k <;> exact h
  vars id p h := by
    refine ⟨(values.find? id).or p.entity.result, ?_⟩
    rw [Model.find?_withResults, h]
    rfl
  constraints _ _ h := h
  constants _ _ h := h

end Run
end Milp

import Milp.Proofs.Coherence

/-! Single declarations: exactly when one is accepted, all that an accepted one changes, and that one
that is refused changes nothing. -/
namespace Milp

variable {α η κ ω : Type} {A : Adapter α η κ} {k : Kind}

/-- The name under which something is declared; there is one objective. -/
inductive Place
  | group (k : Kind) (id : String)
  | entity (k : Kind) (id : String)
  | objective
deriving DecidableEq

/-- Whether something may be declared there. -/
def Place.opens : Place → Stage → Bool
  | .group k _, s | .entity k _, s => s.admits k
  | .objective, s => s.admitsObjective

/-- A declaration with all that it is given. A group may come with a program, which is run when the turn
of its kind comes. -/
inductive Declaration {α η κ : Type} (A : Adapter α η κ) (ω : Type)
  | group (k : Kind) (id description : String) (generator : Option Naming.Namer)
      (program : Option (Group k → Program A ω .group))
  | var (id : String) (varType : VarType) (lower upper : α) (group : Group .var)
  | constraint (id : String) (left : Expression α) (comparison : Comparison)
      (right : Expression α) (group : Group .constraint)
  | constant (id : String) (value : α) (group : Group .constant)
  | objective (e : Expression α) (direction : Direction)

namespace Declaration

/-- Makes the declaration and stops, with an error if it is refused. -/
def program : Declaration A ω → Program A ω .group
  | .group k id description generator none =>
    .act (.createGroup k id description generator) fun r => .finish (discard r)
  | .group k id description generator (some program) =>
    .spawn k id description generator program fun r => .finish (discard r)
  | .var id varType lower upper g =>
    .act (.createVariable id varType lower upper g) fun r => .finish (discard r)
  | .constraint id left comparison right g =>
    .act (.addConstraint id left comparison right g) fun r => .finish (discard r)
  | .constant id value g => .act (.createConstant id value g) fun r => .finish (discard r)
  | .objective e direction => .act (.setObjective e direction) fun r => .finish r

def place : Declaration A ω → Place
  | .group k id .. => .group k id
  | .var id .. => .entity .var id
  | .constraint id .. => .entity .constraint id
  | .constant id .. => .entity .constant id
  | .objective .. => .objective

/-- The kind, the group and the name of the entity that is declared. -/
def member? : Declaration A ω → Option (Kind × String × String)
  | .var id _ _ _ g => some (.var, g.identifier, id)
  | .constraint id _ _ _ g => some (.constraint, g.identifier, id)
  | .constant id _ g => some (.constant, g.identifier, id)
  | .group .. | .objective .. => none

/-- The kind and the name of the group that comes with a program. -/
def programmed? : Declaration A ω → Option (Kind × String)
  | .group k id _ _ (some _) => some (k, id)
  | _ => none

def expressions : Declaration A ω → List (Expression α)
  | .constraint _ left _ right _ => [left, right]
  | .objective e _ => [e]
  | _ => []

/-- What a model itself asks of a declaration. -/
structure Fits (d : Declaration A ω) (m : Model A) : Prop where
  timely : d.place.opens m.stage = true
  group : ∀ k id, d.place = .group k id →
    Text.isBlank id = false ∧ (m.registry k).groups.contains id = false
  member : ∀ k group id, d.member? = some (k, group, id) →
    (m.registry k).groups.contains group = true ∧ (m.registry k).entities.contains id = false
  owned : ∀ e ∈ d.expressions, m.Owns e

/-- The factory of the entity accepts it. -/
def Accepted (m : Model A) : Declaration A ω → Prop
  | .var id varType lower upper _ =>
    ∃ v, m.variableFactory m.token id varType lower upper = .ok v
  | .constraint id left comparison right _ =>
    ∃ c, m.constraintFactory id left comparison right = .ok c
  | .constant id value _ => ∃ c, (Constant.new id value : Except (ModelError α) _) = .ok c
  | .group .. | .objective .. => True

/-- What the usual factories accept. -/
def Proper [Scalar α] : Declaration A ω → Prop
  | .var id _ lower upper _ => Text.isBlank id = false ∧ Scalar.le lower upper = true
  | .constraint id left _ right _ =>
    Text.isBlank id = false ∧ (left.isEmpty && right.isEmpty) = false
  | .constant id .. => Text.isBlank id = false
  | .group .. | .objective .. => True

/-- The model has what is declared. -/
def Held (m : Model A) : Declaration A ω → Prop
  | .group k id description generator _ =>
    (m.registry k).groups.find? id = some ⟨id, description, generator⟩
  | .var id varType lower upper g =>
    ∃ v, m.variableFactory m.token id varType lower upper = .ok v ∧
      m.vars.entities.find? id = some ⟨g.identifier, v⟩
  | .constraint id left comparison right g =>
    ∃ c, m.constraintFactory id left comparison right = .ok c ∧
      m.constraints.entities.find? id = some ⟨g.identifier, c⟩
  | .constant id value g => m.constants.entities.find? id = some ⟨g.identifier, id, value⟩
  | .objective e direction => m.objective = some ⟨e, direction⟩

/-- The later model has what is declared, and differs in nothing else. -/
structure Adds (d : Declaration A ω) (m m' : Model A) : Prop where
  held : d.Held m'
  groups : ∀ k id, d.place ≠ .group k id →
    (m'.registry k).groups.find? id = (m.registry k).groups.find? id
  entities : ∀ k id, d.place ≠ .entity k id →
    (m'.registry k).entities.find? id = (m.registry k).entities.find? id
  members : ∀ k group id, id ∈ (m'.registry k).members group ↔
    id ∈ (m.registry k).members group ∨ d.member? = some (k, group, id)
  objective : d.place ≠ .objective → m'.objective = m.objective
  setting : { m' with
    vars := m.vars, constraints := m.constraints, constants := m.constants
    objective := m.objective } = m

/-- And on the agenda there is the program that the group came with, and nothing else is new. -/
structure Enters (d : Declaration A ω) (s t : Run A ω) : Prop where
  model : d.Adds s.model t.model
  program : ∀ k id description generator P, d = .group k id description generator (some P) →
    (t.agenda.programs k).find? id = some (P ⟨id, description, generator⟩)
  programs : ∀ k id, d.programmed? ≠ some (k, id) →
    (t.agenda.programs k).find? id = (s.agenda.programs k).find? id
  builder : t.agenda.objective = s.agenda.objective
  world : t.world = s.world

end Declaration

theorem eq_ok_of_isOk {ε : Type} {r : Except ε Unit} (h : r.isOk = true) : r = .ok () := by
  cases r with
  | ok u => rfl
  | error e => cases h

namespace Declaration

variable {d : Declaration A ω} {m m' : Model A}

theorem adds_group {id : String} {g : Group k} (hplace : d.place = .group k id)
    (hmember : d.member? = none)
    (hheld : d.Held (m.withRegistry k { m.registry k with
      groups := (m.registry k).groups.insert id g })) :
    d.Adds m (m.withRegistry k { m.registry k with
      groups := (m.registry k).groups.insert id g }) where
  held := hheld
  groups k' id' hne := by
    by_cases hk : k' = k
    · subst hk
      have hid : id' ≠ id := fun h => hne (by rw [hplace, h])
      rw [Model.registry_withRegistry, Table.find?_insert, if_neg hid]
    · rw [Model.registry_withRegistry_of_ne m hk]
  entities k' id' _ := by
    by_cases hk : k' = k
    · subst hk
      rw [Model.registry_withRegistry]
    · rw [Model.registry_withRegistry_of_ne m hk]
  members k' group id' := by
    rw [hmember]
    by_cases hk : k' = k
    · subst hk
      simp [Registry.members]
    · simp [Model.registry_withRegistry_of_ne m hk]
  objective _ := by cases k <;> rfl
  setting := by cases k <;> rfl

theorem adds_entity {group id : String} {e : k.Entity α} (hplace : d.place = .entity k id)
    (hmember : d.member? = some (k, group, id))
    (habsent : (m.registry k).entities.contains id = false)
    (hheld : d.Held (m.withRegistry k { m.registry k with
      entities := (m.registry k).entities.insert id ⟨group, e⟩ })) :
    d.Adds m (m.withRegistry k { m.registry k with
      entities := (m.registry k).entities.insert id ⟨group, e⟩ }) where
  held := hheld
  groups k' id' _ := by
    by_cases hk : k' = k
    · subst hk
      rw [Model.registry_withRegistry]
    · rw [Model.registry_withRegistry_of_ne m hk]
  entities k' id' hne := by
    by_cases hk : k' = k
    · subst hk
      have hid : id' ≠ id := fun h => hne (by rw [hplace, h])
      rw [Model.registry_withRegistry, Table.find?_insert, if_neg hid]
    · rw [Model.registry_withRegistry_of_ne m hk]
  members k' group' id' := by
    rw [hmember]
    by_cases hk : k' = k
    · subst hk
      rw [Model.registry_withRegistry, Registry.mem_members, Registry.mem_members,
        Table.find?_insert]
      by_cases hid : id' = id
      · subst hid
        simp [Table.find?_eq_none_iff.mpr habsent]
      · simp [hid, Ne.symm hid]
    · simp [Model.registry_withRegistry_of_ne m hk, Ne.symm hk]
  objective _ := by cases k <;> rfl
  setting := by cases k <;> rfl

/-- The model accepts the declaration and becomes another one. -/
def Made (m m' : Model A) : Declaration A ω → Prop
  | .group k id description generator _ =>
    ∃ g, m.createGroup k id description generator = .ok (g, m')
  | .var id varType lower upper g =>
    ∃ v, m.createVariable id varType lower upper g = .ok (v, m')
  | .constraint id left comparison right g =>
    ∃ c, m.addConstraint id left comparison right g = .ok (c, m')
  | .constant id value g => ∃ c, m.createConstant id value g = .ok (c, m')
  | .objective e direction => m.setObjective e direction = .ok m'

theorem Made.declared (h : d.Made m m') : m.Declared m' := by
  cases d with
  | group =>
    obtain ⟨g, h⟩ := h
    exact .group h
  | var =>
    obtain ⟨v, h⟩ := h
    exact .var h
  | constraint =>
    obtain ⟨c, h⟩ := h
    exact .constraint h
  | constant =>
    obtain ⟨c, h⟩ := h
    exact .constant h
  | objective => exact .objective h

theorem Made.adds (h : d.Made m m') : d.Adds m m' := by
  cases d with
  | group k id description generator program =>
    obtain ⟨g, h⟩ := h
    obtain ⟨-, -, -, rfl, rfl⟩ := Model.createGroup_eq_ok.mp h
    refine adds_group rfl rfl ?_
    simp [Held, Table.find?_insert]
  | var id varType lower upper group =>
    obtain ⟨v, h⟩ := h
    obtain ⟨-, -, habsent, hv, rfl⟩ := Model.createVariable_eq_ok.mp h
    refine adds_entity (k := .var) rfl rfl habsent ⟨v, hv, ?_⟩
    exact (Table.find?_insert ..).trans (if_pos rfl)
  | constraint id left comparison right group =>
    obtain ⟨c, h⟩ := h
    obtain ⟨-, -, -, -, habsent, hc, rfl⟩ := Model.addConstraint_eq_ok.mp h
    refine adds_entity (k := .constraint) rfl rfl habsent ⟨c, hc, ?_⟩
    exact (Table.find?_insert ..).trans (if_pos rfl)
  | constant id value group =>
    obtain ⟨c, h⟩ := h
    obtain ⟨-, -, -, habsent, rfl, rfl⟩ := Model.createConstant_eq_ok.mp h
    refine adds_entity (k := .constant) rfl rfl habsent ?_
    exact (Table.find?_insert ..).trans (if_pos rfl)
  | objective e direction =>
    obtain ⟨-, -, rfl⟩ := Model.setObjective_eq_ok.mp h
    exact {
      held := rfl
      groups := fun k _ _ => by cases k <;> rfl
      entities := fun k _ _ => by cases k <;> rfl
      members := fun k _ _ => by cases k <;> simp [member?, Model.registry]
      objective := fun hne => absurd rfl hne
      setting := rfl }

theorem exists_made_iff : (∃ m', d.Made m m') ↔ d.Fits m ∧ d.Accepted m := by
  constructor
  · rintro ⟨m', h⟩
    cases d with
    | group k id description generator program =>
      obtain ⟨g, h⟩ := h
      obtain ⟨hopen, hblank, habsent, -, -⟩ := Model.createGroup_eq_ok.mp h
      refine ⟨⟨hopen, ?_, by simp [member?], by simp [expressions]⟩, trivial⟩
      intro k' id' hplace
      cases hplace
      exact ⟨hblank, habsent⟩
    | var id varType lower upper group =>
      obtain ⟨v, h⟩ := h
      obtain ⟨hopen, hgroup, habsent, hv, -⟩ := Model.createVariable_eq_ok.mp h
      refine ⟨⟨hopen, by simp [place], ?_, by simp [expressions]⟩, v, hv⟩
      intro k' group' id' hmember
      cases hmember
      exact ⟨hgroup, habsent⟩
    | constraint id left comparison right group =>
      obtain ⟨c, h⟩ := h
      obtain ⟨hopen, hleft, hright, hgroup, habsent, hc, -⟩ := Model.addConstraint_eq_ok.mp h
      refine ⟨⟨hopen, by simp [place], ?_, ?_⟩, c, hc⟩
      · intro k' group' id' hmember
        cases hmember
        exact ⟨hgroup, habsent⟩
      · intro e he
        rcases List.mem_pair.mp he with rfl | rfl
        · exact hleft
        · exact hright
    | constant id value group =>
      obtain ⟨c, h⟩ := h
      obtain ⟨hopen, hblank, hgroup, habsent, -, -⟩ := Model.createConstant_eq_ok.mp h
      refine ⟨⟨hopen, by simp [place], ?_, by simp [expressions]⟩, ?_⟩
      · intro k' group' id' hmember
        cases hmember
        exact ⟨hgroup, habsent⟩
      · exact ⟨_, Constant.new_eq_ok.mpr ⟨hblank, rfl⟩⟩
    | objective e direction =>
      obtain ⟨hopen, howned, -⟩ := Model.setObjective_eq_ok.mp h
      refine ⟨⟨hopen, by simp [place], by simp [member?], fun e' he' => ?_⟩, trivial⟩
      rw [List.mem_singleton.mp he']
      exact howned
  · rintro ⟨hf, ha⟩
    cases d with
    | group k id description generator program =>
      obtain ⟨hblank, habsent⟩ := hf.group k id rfl
      exact ⟨_, _, Model.createGroup_eq_ok.mpr ⟨hf.timely, hblank, habsent, rfl, rfl⟩⟩
    | var id varType lower upper group =>
      obtain ⟨hgroup, habsent⟩ := hf.member _ _ _ rfl
      obtain ⟨v, hv⟩ := ha
      exact ⟨_, v, Model.createVariable_eq_ok.mpr ⟨hf.timely, hgroup, habsent, hv, rfl⟩⟩
    | constraint id left comparison right group =>
      obtain ⟨hgroup, habsent⟩ := hf.member _ _ _ rfl
      obtain ⟨c, hc⟩ := ha
      have hleft := hf.owned left (by simp [expressions])
      have hright := hf.owned right (by simp [expressions])
      exact ⟨_, c, Model.addConstraint_eq_ok.mpr
        ⟨hf.timely, hleft, hright, hgroup, habsent, hc, rfl⟩⟩
    | constant id value group =>
      obtain ⟨hgroup, habsent⟩ := hf.member _ _ _ rfl
      obtain ⟨c, hc⟩ := ha
      obtain ⟨hblank, -⟩ := Constant.new_eq_ok.mp hc
      exact ⟨_, _, Model.createConstant_eq_ok.mpr
        ⟨hf.timely, hblank, hgroup, habsent, rfl, rfl⟩⟩
    | objective e direction =>
      have howned := hf.owned e (by simp [expressions])
      exact ⟨_, Model.setObjective_eq_ok.mpr ⟨hf.timely, howned, rfl⟩⟩

end Declaration

namespace Run

variable {β : Type}

theorem edit_declare (f : Model A → Except (ModelError α) (β × Model A))
    (events : β → List (Event α)) (s : Run A ω) :
    edit (Edit.declare f events) s = match f s.model with
      | .ok (b, m) => (.ok b, { s with model := m, journal := s.journal ++ events b })
      | .error e => (.error e, s) := by
  unfold edit
  rw [Edit.declare_apply]
  cases f s.model <;> rfl

theorem edit_change (f : Model A → Except (ModelError α) (Model A)) (s : Run A ω) :
    edit (Edit.change f) s = match f s.model with
      | .ok m => (.ok (), { s with model := m })
      | .error e => (.error e, s) := by
  unfold edit
  rw [Edit.change_apply]
  cases f s.model <;> rfl

end Run

namespace Declaration

variable {d : Declaration A ω} {m m' : Model A} {s : Run A ω}

/-- A declaration is made, or it is refused and the whole run is as it was. -/
inductive Outcome (d : Declaration A ω) (s : Run A ω) :
    Except (ModelError α) Unit × Run A ω → Prop
  | made {t : Run A ω} (hm : d.Made s.model t.model) (ht : d.Enters s t) : Outcome d s (.ok (), t)
  | refused (e : ModelError α) (hm : ∀ m', ¬d.Made s.model m') : Outcome d s (.error e, s)

theorem enters_of_made (hm : d.Made s.model m') (hd : d.programmed? = none)
    (journal : List (Event α)) : d.Enters s { s with model := m', journal } where
  model := hm.adds
  program k id description generator P h := by
    rw [h] at hd
    cases hd
  programs _ _ _ := rfl
  builder := rfl
  world := rfl

theorem outcome_of_declare {β : Type} {f : Model A → Except (ModelError α) (β × Model A)}
    {events : β → List (Event α)} (hd : d.programmed? = none)
    (hmade : ∀ m', d.Made s.model m' ↔ ∃ b, f s.model = .ok (b, m')) :
    d.Outcome s (discard (Run.edit (Edit.declare f events) s).1,
      (Run.edit (Edit.declare f events) s).2) := by
  rw [Run.edit_declare]
  cases hf : f s.model with
  | error e =>
    refine .refused e fun m' hm => ?_
    obtain ⟨b, hb⟩ := (hmade m').mp hm
    cases hf.symm.trans hb
  | ok r =>
    have hm : d.Made s.model r.2 := (hmade r.2).mpr ⟨r.1, hf⟩
    exact .made hm (enters_of_made hm hd _)

variable [Unbounded α]

/-- The program that a group comes with is put on the agenda under the name of the group. -/
theorem outcome_programmed (k : Kind) (id description : String)
    (generator : Option Naming.Namer) (P : Group k → Program A ω .group) (s : Run A ω) :
    (group k id description generator (some P)).Outcome s
      ((group k id description generator (some P)).program.run s) := by
  simp only [program, Program.run, Edit.createGroup, Run.edit_declare]
  cases hf : s.model.createGroup k id description generator with
  | error e =>
    refine .refused e fun m' hm => ?_
    obtain ⟨g, hg⟩ := hm
    cases hf.symm.trans hg
  | ok r =>
    obtain ⟨g, m'⟩ := r
    have hm : (group k id description generator (some P)).Made s.model m' := ⟨g, hf⟩
    obtain ⟨-, -, -, rfl, -⟩ := Model.createGroup_eq_ok.mp hf
    refine .made hm ⟨hm.adds, ?_, ?_, ?_, rfl⟩
    · intro k' id' description' generator' P' h
      cases h
      simp [Run.withPrograms, Table.find?_insert]
    · intro k' id' hne
      by_cases hk : k' = k
      · subst hk
        have hid : id' ≠ id := fun h => hne (by rw [h]; rfl)
        simp [Run.withPrograms, Table.find?_insert, hid]
      · simp only [Run.withPrograms, Agenda.programs_withPrograms_of_ne _ hk]
    · cases k <;> rfl

theorem outcome (d : Declaration A ω) (s : Run A ω) : d.Outcome s (d.program.run s) := by
  cases d with
  | group k id description generator P =>
    cases P with
    | none => exact outcome_of_declare rfl fun m' => Iff.rfl
    | some P => exact outcome_programmed k id description generator P s
  | var => exact outcome_of_declare rfl fun m' => Iff.rfl
  | constraint => exact outcome_of_declare rfl fun m' => Iff.rfl
  | constant => exact outcome_of_declare rfl fun m' => Iff.rfl
  | objective e direction =>
    simp only [program, Program.run, Action.perform, Edit.setObjective, Run.edit_change]
    cases hf : s.model.setObjective e direction with
    | error x => exact .refused x fun m' hm => by cases hf.symm.trans hm
    | ok m' =>
      have hm : (objective e direction : Declaration A ω).Made s.model m' := hf
      exact .made hm (enters_of_made hm rfl s.journal)

theorem run_eq_ok : (d.program.run s).1 = .ok () ↔ d.Fits s.model ∧ d.Accepted s.model := by
  rw [← exists_made_iff]
  have houtcome := d.outcome s
  generalize d.program.run s = o at houtcome
  cases houtcome with
  | made hm ht => exact ⟨fun _ => ⟨_, hm⟩, fun _ => rfl⟩
  | refused e hm =>
    constructor
    · intro h
      cases h
    · rintro ⟨m', h⟩
      exact absurd h (hm m')

theorem made_of_run (h : (d.program.run s).1 = .ok ()) :
    d.Made s.model (d.program.run s).2.model ∧ d.Enters s (d.program.run s).2 := by
  have houtcome := d.outcome s
  generalize d.program.run s = o at h houtcome
  cases houtcome with
  | made hm ht => exact ⟨hm, ht⟩
  | refused e hm => cases h

theorem run_eq_of_error {e : ModelError α} (h : (d.program.run s).1 = .error e) :
    (d.program.run s).2 = s := by
  have houtcome := d.outcome s
  generalize d.program.run s = o at h houtcome
  cases houtcome with
  | made hm ht => cases h
  | refused e hm => rfl

/-- With the usual factories a declaration is accepted when what it is given is in order. -/
theorem accepted_iff_proper (hv : m.variableFactory = Variable.new)
    (hc : m.constraintFactory = Constraint.new) (hf : d.Fits m) : d.Accepted m ↔ d.Proper := by
  cases d with
  | group => exact Iff.rfl
  | var id varType lower upper g =>
    simp only [Accepted, Proper, hv, Variable.new_eq_ok]
    exact ⟨fun ⟨_, hb, hle, _⟩ => ⟨hb, hle⟩, fun ⟨hb, hle⟩ => ⟨_, hb, hle, rfl⟩⟩
  | constraint id left comparison right g =>
    have hleft := hf.owned left (by simp [expressions])
    have hright := hf.owned right (by simp [expressions])
    have howner : left.owner = right.owner := hleft.1.trans hright.1.symm
    simp only [Accepted, Proper, hc, Constraint.new_eq_ok]
    exact ⟨fun ⟨_, hb, _, hne, _⟩ => ⟨hb, hne⟩, fun ⟨hb, hne⟩ => ⟨_, hb, howner, hne, rfl⟩⟩
  | constant id value g =>
    simp only [Accepted, Proper, Constant.new_eq_ok]
    exact ⟨fun ⟨_, hb, _⟩ => hb, fun hb => ⟨_, hb, rfl⟩⟩
  | objective => exact Iff.rfl

/-- In any state of a model, during initialization too, and with any factories: a declaration is
accepted exactly when its kind is open, its group is there and its name is not, or the new group has a
name that is not blank and not taken, when its expressions are of the model and name registered variables,
and the factory accepts it. One that is accepted adds what it declares and changes nothing else, and one
that is refused changes nothing. The usual factories ask for a name that is not blank, for bounds in order,
and for two sides that are not both empty. -/
theorem made_or_refused (d : Declaration A ω) (s : Run A ω) :
    ((d.program.run s).1 = .ok () ↔ d.Fits s.model ∧ d.Accepted s.model) ∧
    ((d.program.run s).1 = .ok () → d.Enters s (d.program.run s).2) ∧
    (∀ e, (d.program.run s).1 = .error e → (d.program.run s).2 = s) ∧
    (s.model.variableFactory = Variable.new → s.model.constraintFactory = Constraint.new →
      ((d.program.run s).1 = .ok () ↔ d.Fits s.model ∧ d.Proper)) := by
  refine ⟨run_eq_ok, fun h => (made_of_run h).2, fun e h => run_eq_of_error h, fun hv hc => ?_⟩
  exact run_eq_ok.trans (and_congr_right fun hf => accepted_iff_proper hv hc hf)

/-- Boxes are declared once; declared again they are refused, and so is a variable whose bounds are in
the wrong order. -/
theorem made_or_refused_boxes :
    let boxes : Declaration (recorder Float) Unit := .var "boxes" .integer 0 3 (.default .var)
    let crates : Declaration (recorder Float) Unit := .var "crates" .integer 3 0 (.default .var)
    let s : Run (recorder Float) Unit := .new ⟨0⟩ "depot" {} ()
    let t := (boxes.program.run s).2
    boxes.Fits s.model ∧ boxes.Proper ∧ "boxes" ∈ (t.model.registry .var).members "Default" ∧
      ¬boxes.Fits t.model ∧ (boxes.program.run t).2 = t ∧ ¬crates.Proper ∧
      (crates.program.run t).2 = t := by
  intro boxes crates s t
  have hfirst : (boxes.program.run s).1 = .ok () := eq_ok_of_isOk rfl
  obtain ⟨-, hadds, -, hproper⟩ := made_or_refused boxes s
  obtain ⟨hfits, hgiven⟩ := (hproper rfl rfl).mp hfirst
  have hboxes := (hadds hfirst).model
  have hagain : ¬boxes.Fits t.model := by
    intro h
    obtain ⟨v, -, hv⟩ := hboxes.held
    have habsent := (h.member .var "Default" "boxes" rfl).2
    cases habsent.symm.trans (Table.contains_of_find? hv)
  have hcrates : ¬crates.Proper := by
    intro h
    cases h.2.symm.trans (show Scalar.le (3 : Float) 0 = false by decide)
  have hvariables : t.model.variableFactory = Variable.new :=
    congrArg Model.variableFactory hboxes.setting
  have hconstraints : t.model.constraintFactory = Constraint.new :=
    congrArg Model.constraintFactory hboxes.setting
  refine ⟨hfits, hgiven, (hboxes.members ..).mpr (.inr rfl), hagain, ?_, hcrates, ?_⟩
  · obtain ⟨hiff, -, hrefused, -⟩ := made_or_refused boxes t
    cases hr : (boxes.program.run t).1 with
    | ok u => exact absurd (hiff.mp hr).1 hagain
    | error e => exact hrefused e hr
  · obtain ⟨-, -, hrefused, hproper⟩ := made_or_refused crates t
    cases hr : (crates.program.run t).1 with
    | ok u => exact absurd ((hproper hvariables hconstraints).mp hr).2 hcrates
    | error e => exact hrefused e hr

end Declaration
end Milp

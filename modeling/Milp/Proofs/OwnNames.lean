import Milp.Adapter.Recorder
import Milp.Adapter.Scripted
import Milp.Proofs.Regular

/-! Entities under their own names. A model registers an entity under the name that was asked for, and
the factory of its adapter decides what the entity is called: the two agree as far as the factory
lets them. -/
namespace Milp

open Relation

variable {α η κ : Type} {A : Adapter α η κ}

/-- What is built has the name that it was asked for. -/
def VariableFactory.KeepsNames (f : VariableFactory α) : Prop :=
  ∀ owner id varType lower upper v, f owner id varType lower upper = .ok v → v.identifier = id

/-- What is built is of the model that it was asked for. -/
def VariableFactory.KeepsOwners (f : VariableFactory α) : Prop :=
  ∀ owner id varType lower upper v, f owner id varType lower upper = .ok v → v.owner = owner

def ConstraintFactory.KeepsNames (f : ConstraintFactory α) : Prop :=
  ∀ id left comparison right c, f id left comparison right = .ok c → c.identifier = id

namespace Model

variable {m m' : Model A} {id : String}

/-- The factory built the variable for that name, and nothing but its result has changed since. -/
def Built (m : Model A) (id : String) (v : Variable α) : Prop :=
  ∃ varType lower upper w r, m.variableFactory m.token id varType lower upper = .ok w ∧
    v = { w with result := r }

/-- Whatever is registered was built by a factory of the model, for the name that it is registered
under. -/
structure Genuine (m : Model A) : Prop where
  vars : ∀ id p, m.vars.entities.find? id = some p → m.Built id p.entity
  constraints : ∀ id p, m.constraints.entities.find? id = some p →
    ∃ left comparison right, m.constraintFactory id left comparison right = .ok p.entity

theorem genuine_new (token : Token) (id : String) (adapter : A.State) :
    (Model.new token id adapter : Model A).Genuine where
  vars id p h := by cases h
  constraints id p h := by cases h

theorem Genuine.createVariable (h : m.Genuine) {varType : VarType} {lower upper : α}
    {group : Group .var} {v : Variable α}
    (hm : m.createVariable id varType lower upper group = .ok (v, m')) : m'.Genuine := by
  obtain ⟨-, -, -, hv, rfl⟩ := createVariable_eq_ok.mp hm
  exact { h with
    vars := fun id' p hp => by
      rw [Table.find?_insert] at hp
      split at hp
      next hid =>
        cases hp
        exact ⟨varType, lower, upper, v, v.result, hid ▸ hv, rfl⟩
      next => exact h.vars id' p hp }

/-- Variables may get or lose results. -/
theorem Genuine.mapVars (h : m.Genuine) {f : String → Placed (Variable α) → Placed (Variable α)}
    (hf : ∀ id p, ∃ r, f id p = { p with entity := { p.entity with result := r } }) :
    Genuine { m with vars := { m.vars with entities := m.vars.entities.map f } } :=
  { h with
    vars := fun id p hp => by
      rw [Table.find?_map] at hp
      obtain ⟨q, hq, rfl⟩ := Option.map_eq_some_iff.mp hp
      obtain ⟨r, hr⟩ := hf id q
      obtain ⟨varType, lower, upper, w, _, hw, hbuilt⟩ := h.vars id q hq
      rw [hr]
      exact ⟨varType, lower, upper, w, r, hw, by rw [hbuilt]⟩ }

theorem Genuine.giveResult (h : m.Genuine) (id : String) (x : α) : (m.giveResult id x).Genuine :=
  h.mapVars fun _ p => by
    split
    · exact ⟨some x, rfl⟩
    · exact ⟨p.entity.result, rfl⟩

theorem Genuine.declared (h : m.Genuine) (hd : Declared m m') : m'.Genuine := by
  cases hd with
  | @group k id description generator g hm =>
    obtain ⟨-, -, -, -, rfl⟩ := createGroup_eq_ok.mp hm
    cases k <;> exact { h with }
  | var hm => exact h.createVariable hm
  | constraint hm =>
    obtain ⟨-, -, -, -, -, hc, rfl⟩ := addConstraint_eq_ok.mp hm
    exact { h with
      constraints := fun id' p hp => by
        rw [Table.find?_insert] at hp
        split at hp
        next hid =>
          cases hp
          exact ⟨_, _, _, hid ▸ hc⟩
        next => exact h.constraints id' p hp }
  | constant hm =>
    obtain ⟨-, -, -, -, -, rfl⟩ := createConstant_eq_ok.mp hm
    exact { h with }
  | value hm =>
    obtain ⟨-, rfl⟩ := setConstant_eq_ok.mp hm
    exact { h with }
  | objective hm =>
    obtain ⟨-, -, rfl⟩ := setObjective_eq_ok.mp hm
    exact { h with }

theorem Genuine.tick (h : m.Genuine) (ht : Tick m m') : m'.Genuine := by
  cases ht with
  | change hc =>
    cases hc with
    | declared hd => exact h.declared hd
    | restored hm x => exact (h.createVariable hm).giveResult _ x
    | solution s => exact { h with }
  | cleared =>
    have hv := h.mapVars (f := fun _ p => { p with entity := { p.entity with result := none } })
        fun _ _ => ⟨none, rfl⟩
    exact { hv with }
  | result id x => exact h.giveResult id x
  | _ => exact { h with }

theorem Attained.genuine (h : m.Attained) : m.Genuine :=
  h.invariant (fun _ _ ht hm => hm.tick ht) genuine_new

/-- An expression of the model stays one. -/
theorem Tick.owns (h : Tick m m') {e : Expression α} (he : m.Owns e) : m'.Owns e := by
  cases h with
  | change h => exact h.grows.owns he
  | cleared =>
    refine ⟨he.1, fun id hid => ?_⟩
    exact (Table.contains_map ..).trans (he.2 id hid)
  | result id' x =>
    refine ⟨he.1, fun id hid => ?_⟩
    exact (Table.contains_modify ..).trans (he.2 id hid)
  | _ => exact he

section Use

variable {e : Expression α} {v : Variable α}

theorem Owns.addScaled (he : m.Owns e) (howner : v.owner = m.token)
    (hv : m.vars.contains v.identifier = true) (c : α) :
    ∃ e', e.addScaled c v = .ok e' ∧ m.Owns e' := by
  have hsame : v.owner = e.owner := howner.trans he.1.symm
  refine ⟨{ e with terms := e.terms ++ [.ofVariable c v] }, ?_, he.1, fun id hid => ?_⟩
  · simp only [Expression.addScaled, Expression.addTerm, Term.ofVariable, if_pos hsame]
  · rw [Expression.names, List.filterMap_append, List.mem_append] at hid
    rcases hid with hid | hid
    · exact he.2 id hid
    · have hname : id = v.identifier := by simpa [Term.ofVariable, Term.name?] using hid
      exact hname ▸ hv

/-- Where an objective of the model is refused, it is because of the stage. -/
theorem Owns.setObjective (he : m.Owns e) (direction : Direction) :
    (m.stage.admitsObjective = true → ∃ m', m.setObjective e direction = .ok m') ∧
      ∀ name, m.setObjective e direction ≠ .error (.foreignVariable name) := by
  by_cases hopen : m.stage.admitsObjective = true
  · have hset : ∃ m', m.setObjective e direction = .ok m' :=
      ⟨_, setObjective_eq_ok.mpr ⟨hopen, he, rfl⟩⟩
    refine ⟨fun _ => hset, fun name hname => ?_⟩
    obtain ⟨m', hm'⟩ := hset
    cases hm'.symm.trans hname
  · have hset : m.setObjective e direction = .error (.lifecycle (.objectiveClosed m.stage)) := by
      simp only [Model.setObjective, checkObjectiveOpen, if_neg hopen]
      rfl
    refine ⟨fun h => absurd h hopen, fun name hname => ?_⟩
    cases hset.symm.trans hname

/-- A variable that was declared is one of the model from then on, under the name that it has. -/
theorem known_of_createVariable (hnames : m.variableFactory.KeepsNames)
    (howners : m.variableFactory.KeepsOwners) {varType : VarType} {lower upper : α}
    {group : Group .var} (hm : m.createVariable id varType lower upper group = .ok (v, m'))
    {n : Model A} (hn : ReflTransGen Tick m' n) :
    v.owner = n.token ∧ n.vars.contains v.identifier = true := by
  obtain ⟨-, -, -, hv, rfl⟩ := createVariable_eq_ok.mp hm
  have hname : v.identifier = id := hnames _ _ _ _ _ _ hv
  have howner : v.owner = m.token := howners _ _ _ _ _ _ hv
  -- The expression of this variable alone is one of the model, and stays one.
  have hstart : Owns { m with vars := { m.vars with
      entities := m.vars.entities.insert id ⟨group.identifier, v⟩ } }
      (⟨m.token, [.ofVariable v.lower v]⟩ : Expression α) := by
    refine ⟨rfl, fun id' hid' => ?_⟩
    have hid : id' = id := by
      simpa [Expression.names, Term.ofVariable, Term.name?, hname] using hid'
    simp [Registry.contains, hid]
  have hlater : n.Owns ⟨m.token, [.ofVariable v.lower v]⟩ := by
    induction hn with
    | refl => exact hstart
    | tail _ ht ih => exact ht.owns ih
  refine ⟨howner.trans hlater.1, hlater.2 v.identifier ?_⟩
  simp [Expression.names, Term.ofVariable, Term.name?]

end Use

/-- What the factory keeps, the model keeps: a registered variable is known under its own name if the
variable factory builds it under the name that it is asked for, and so is a constraint. If the variable
factory keeps the owner too, then a variable that was just declared is one to be used: at any later time it
can be added to any expression of the model, and that one is accepted as an objective while the objective may
change, and never refused for a variable. -/
theorem Attained.known_by_name (h : m.Attained) :
    (m.variableFactory.KeepsNames → ∀ id v, m.entity .var id = .ok v → v.identifier = id) ∧
    (m.constraintFactory.KeepsNames →
      ∀ id c, m.entity .constraint id = .ok c → c.identifier = id) ∧
    (m.variableFactory.KeepsNames → m.variableFactory.KeepsOwners →
      ∀ id varType lower upper group v m',
        m.createVariable id varType lower upper group = .ok (v, m') →
      ∀ n, ReflTransGen Tick m' n → ∀ e c, n.Owns e →
        ∃ e', e.addScaled c v = .ok e' ∧ n.Owns e' ∧ ∀ direction,
          (n.stage.admitsObjective = true → ∃ n', n.setObjective e' direction = .ok n') ∧
          ∀ name, n.setObjective e' direction ≠ .error (.foreignVariable name)) := by
  refine ⟨fun hnames id v hv => ?_, fun hnames id c hc => ?_, ?_⟩
  · obtain ⟨p, hp, rfl⟩ := Registry.entity_eq_ok.mp hv
    obtain ⟨varType, lower, upper, w, r, hw, hbuilt⟩ := h.genuine.vars id p hp
    have hname : w.identifier = id := hnames _ _ _ _ _ _ hw
    rw [hbuilt]
    exact hname
  · obtain ⟨p, hp, rfl⟩ := Registry.entity_eq_ok.mp hc
    obtain ⟨left, comparison, right, hbuilt⟩ := h.genuine.constraints id p hp
    exact hnames _ _ _ _ _ hbuilt
  · intro hnames howners id varType lower upper group v m' hm n hn e c he
    obtain ⟨howner, hknown⟩ := known_of_createVariable hnames howners hm hn
    obtain ⟨e', hadd, howns⟩ := he.addScaled howner hknown c
    exact ⟨e', hadd, howns, howns.setObjective⟩

/-- A factory that refuses some names keeps those that it takes. -/
theorem Attained.known_by_name_strict :
    let m : Model (.scripted (recorder Float)) := .new ⟨0⟩ "depot" ({}, { building := .strict })
    m.variableFactory.KeepsNames ∧ m.variableFactory.KeepsOwners ∧
      m.constraintFactory.KeepsNames ∧ ∃ v m',
        m.createVariable "boxes" .integer 0 3 (.default .var) = .ok (v, m') ∧
        m'.entity .var "boxes" = .ok v ∧ v.identifier = "boxes" ∧
        ∃ e' n, m'.expression.addScaled 2 v = .ok e' ∧ m'.setObjective e' .minimize = .ok n := by
  intro m
  have hnames : m.variableFactory.KeepsNames := by
    intro owner id varType lower upper v hv
    obtain ⟨u, -, hnew⟩ := bind_eq_ok.mp hv
    obtain ⟨-, -, rfl⟩ := Variable.new_eq_ok.mp hnew
    rfl
  have howners : m.variableFactory.KeepsOwners := by
    intro owner id varType lower upper v hv
    obtain ⟨u, -, hnew⟩ := bind_eq_ok.mp hv
    obtain ⟨-, -, rfl⟩ := Variable.new_eq_ok.mp hnew
    rfl
  have hrows : m.constraintFactory.KeepsNames := by
    intro id left comparison right c hc
    obtain ⟨u, -, hnew⟩ := bind_eq_ok.mp hc
    obtain ⟨-, -, -, rfl⟩ := Constraint.new_eq_ok.mp hnew
    rfl
  let v : Variable Float := ⟨"boxes", .integer, 0, 3, ⟨0⟩, none⟩
  have hle : Scalar.le (0 : Float) 3 = true := rfl
  have htaken : Building.refuse (α := Float) "boxes" = .ok () := if_neg (by decide)
  have hv : m.variableFactory m.token "boxes" .integer 0 3 = .ok v :=
    bind_eq_ok.mpr ⟨(), htaken, Variable.new_eq_ok.mpr ⟨by decide, hle, rfl⟩⟩
  obtain ⟨m', hm⟩ : ∃ m', m.createVariable "boxes" .integer 0 3 (.default .var) = .ok (v, m') :=
    ⟨_, createVariable_eq_ok.mpr ⟨rfl, rfl, rfl, hv, rfl⟩⟩
  have hlater : m'.entity .var "boxes" = .ok v ∧ m'.variableFactory = m.variableFactory ∧
      m'.stage.admitsObjective = true := by
    obtain ⟨-, -, -, -, rfl⟩ := createVariable_eq_ok.mp hm
    exact ⟨rfl, rfl, rfl⟩
  have hstart : m.Attained := attained_new ..
  obtain ⟨-, -, huse⟩ := hstart.known_by_name
  obtain ⟨hname, -⟩ := (hstart.tick (.change (.declared (.var hm)))).known_by_name
  obtain ⟨e', hadd, -, hset⟩ :=
    huse hnames howners _ _ _ _ _ _ _ hm m' .refl m'.expression 2 ⟨rfl, by simp [expression, Expression.names]⟩
  obtain ⟨n, hn⟩ := (hset .minimize).1 hlater.2.2
  exact ⟨hnames, howners, hrows, v, m', hm, hlater.1,
    hname (hlater.2.1 ▸ hnames) "boxes" v hlater.1, e', n, hadd, hn⟩

/-- A factory that builds under another name, or for another owner, is not checked: the entity is found
under the name that was asked for and is called something else, its terms are refused as those of a variable
that is not there, or the variable cannot be added to any expression of the model. -/
theorem known_by_other_name :
    let renamed : Model (.scripted (recorder Float)) :=
      .new ⟨0⟩ "depot" ({}, { building := .renaming })
    let rows : Adapter Float Nat Nat := { recorder Float with
      constraintFactory := fun _ id left comparison right =>
        Constraint.new ("row_" ++ id) left comparison right }
    let strangers : Adapter Float Nat Nat := { recorder Float with
      variableFactory := fun _ owner id varType lower upper =>
        Variable.new ⟨owner.number + 1⟩ id varType lower upper }
    (∃ v m' e, renamed.createVariable "boxes" .integer 0 3 (.default .var) = .ok (v, m') ∧
      m'.Attained ∧ m'.entity .var "boxes" = .ok v ∧ v.identifier ≠ "boxes" ∧
      m'.expression.addScaled 2 v = .ok e ∧ m'.stage.admitsObjective = true ∧
      m'.setObjective e .minimize = .error (.foreignVariable "col_boxes")) ∧
    (∃ c m', (Model.new ⟨0⟩ "depot" {} : Model rows).addConstraint "limit" ⟨⟨0⟩, [.constant 1]⟩
        .lessEqual ⟨⟨0⟩, []⟩ (.default .constraint) = .ok (c, m') ∧
      m'.Attained ∧ m'.entity .constraint "limit" = .ok c ∧ c.identifier ≠ "limit") ∧
    ∃ v m', (Model.new ⟨0⟩ "depot" {} : Model strangers).createVariable "boxes" .integer 0 3
        (.default .var) = .ok (v, m') ∧
      v.identifier = "boxes" ∧
      m'.expression.addScaled 2 v = .error (.foreignVariable "boxes") := by
  intro renamed rows strangers
  have hle : Scalar.le (0 : Float) 3 = true := rfl
  refine ⟨?_, ?_, ?_⟩
  · let v : Variable Float := ⟨"col_boxes", .integer, 0, 3, ⟨0⟩, none⟩
    have hv : renamed.variableFactory renamed.token "boxes" .integer 0 3 = .ok v :=
      Variable.new_eq_ok.mpr ⟨by decide, hle, rfl⟩
    have hm : renamed.createVariable "boxes" .integer 0 3 (.default .var) = .ok (v, _) :=
      createVariable_eq_ok.mpr ⟨rfl, rfl, rfl, hv, rfl⟩
    exact ⟨v, _, _, hm, (attained_new ..).tick (.change (.declared (.var hm))), rfl, by decide, rfl,
      rfl, rfl⟩
  · let c : Constraint Float := ⟨"row_limit", ⟨⟨0⟩, [.constant 1]⟩, .lessEqual, ⟨⟨0⟩, []⟩⟩
    have hc : (Model.new ⟨0⟩ "depot" {} : Model rows).constraintFactory "limit"
        ⟨⟨0⟩, [.constant 1]⟩ .lessEqual ⟨⟨0⟩, []⟩ = .ok c :=
      Constraint.new_eq_ok.mpr ⟨by decide, rfl, rfl, rfl⟩
    have hm : (Model.new ⟨0⟩ "depot" {} : Model rows).addConstraint "limit" ⟨⟨0⟩, [.constant 1]⟩
        .lessEqual ⟨⟨0⟩, []⟩ (.default .constraint) = .ok (c, _) :=
      addConstraint_eq_ok.mpr ⟨rfl, ⟨rfl, by simp [Expression.names, Term.name?]⟩,
        ⟨rfl, by simp [Expression.names]⟩, rfl, rfl, hc, rfl⟩
    exact ⟨c, _, hm, (attained_new ..).tick (.change (.declared (.constraint hm))), rfl, by decide⟩
  · let v : Variable Float := ⟨"boxes", .integer, 0, 3, ⟨1⟩, none⟩
    have hv : (Model.new ⟨0⟩ "depot" {} : Model strangers).variableFactory ⟨0⟩ "boxes" .integer 0 3 =
        .ok v := Variable.new_eq_ok.mpr ⟨by decide, hle, rfl⟩
    exact ⟨v, _, createVariable_eq_ok.mpr ⟨rfl, rfl, rfl, hv, rfl⟩, rfl, rfl⟩

end Model
end Milp

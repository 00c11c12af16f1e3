import Milp.Declaration
import Milp.Proofs.Table

/-! When a declaration succeeds, and what it then changes. -/
namespace Milp

section Guards

variable {ε β γ : Type}

/-- Steps in sequence succeed when each does in turn. -/
theorem bind_eq_ok {x : Except ε β} {f : β → Except ε γ} {c : γ} :
    (x >>= f) = .ok c ↔ ∃ b, x = .ok b ∧ f b = .ok c := by
  cases x <;> simp [bind, Except.bind]

theorem discard_eq_ok {x : Except ε β} {u : Unit} : discard x = .ok u ↔ ∃ b, x = .ok b := by
  cases x <;> simp [discard, Functor.discard, Functor.mapConst, Except.map]

theorem forM_eq_ok {l : List β} {f : β → Except ε Unit} {u : Unit} :
    l.forM f = .ok u ↔ ∀ b ∈ l, f b = .ok () := by
  induction l with
  | nil => simp [List.forM, pure, Except.pure]
  | cons b rest ih =>
    change (f b >>= fun _ => rest.forM f) = _ ↔ _
    rw [bind_eq_ok, List.forall_mem_cons, ih]
    exact ⟨fun ⟨_, h, hr⟩ => ⟨h, hr⟩, fun ⟨h, hr⟩ => ⟨_, h, hr⟩⟩

/-- A loop fails at the first element that does; all before it succeed. -/
theorem forM_eq_error {l : List β} {f : β → Except ε Unit} {e : ε} (h : l.forM f = .error e) :
    ∃ before b after, l = before ++ b :: after ∧ (∀ a ∈ before, f a = .ok ()) ∧ f b = .error e := by
  induction l with
  | nil => cases h
  | cons b rest ih =>
    change (f b >>= fun _ => rest.forM f) = _ at h
    cases hb : f b with
    | error e' =>
      rw [hb] at h
      cases h
      exact ⟨[], b, rest, rfl, by simp, hb⟩
    | ok u =>
      rw [hb] at h
      obtain ⟨before, c, after, rfl, hbefore, hc⟩ := ih h
      exact ⟨b :: before, c, after, rfl, List.forall_mem_cons.mpr ⟨hb, hbefore⟩, hc⟩

theorem exists_of_forM_eq_error {l : List β} {f : β → Except ε Unit} {e : ε}
    (h : l.forM f = .error e) :
    ∃ b ∈ l, f b = .error e := by
  obtain ⟨before, b, after, rfl, -, hb⟩ := forM_eq_error h
  exact ⟨b, by simp, hb⟩

/-- What holds of the start, and after each step of what is done by then, holds after all of them. -/
theorem foldlM_induct {f : β → γ → Except ε β} {I : List γ → β → Prop} {b b' : β} {l : List γ}
    (hnil : I [] b) (hstep : ∀ done c b b', I done b → f b c = .ok b' → I (done ++ [c]) b')
    (h : l.foldlM f b = .ok b') : I l b' := by
  have hrun (done rest : List γ) (b : β) (hb : I done b) (h : rest.foldlM f b = .ok b') :
      I (done ++ rest) b' := by
    induction rest generalizing done b with
    | nil =>
      cases h
      simpa using hb
    | cons c rest ih =>
      rw [List.foldlM_cons] at h
      obtain ⟨b₁, h₁, h⟩ := bind_eq_ok.mp h
      simpa using ih (done ++ [c]) b₁ (hstep done c b b₁ hb h₁) h
  exact hrun [] l b hnil h

end Guards

theorem checkIdentifier_eq_ok {α : Type} {k : Kind} {id : String} {u : Unit} :
    (checkIdentifier k id : Except (ModelError α) Unit) = .ok u ↔ Text.isBlank id = false := by
  unfold checkIdentifier
  split <;> simp_all

theorem Variable.new_eq_ok {α : Type} [Scalar α] {token : Token} {id : String} {varType : VarType}
    {lower upper : α} {v : Variable α} :
    Variable.new token id varType lower upper = .ok v ↔ Text.isBlank id = false ∧
      Scalar.le lower upper = true ∧
      v = ⟨id, varType, lower, upper, token, none⟩ := by
  simp only [new, bind_eq_ok, checkIdentifier_eq_ok]
  split
  next h =>
    simp only [h, Except.ok.injEq, true_and]
    exact ⟨fun ⟨_, hb, hv⟩ => ⟨hb, hv.symm⟩, fun ⟨hb, hv⟩ => ⟨(), hb, hv.symm⟩⟩
  next h => simp [h]

theorem Constraint.new_eq_ok {α : Type} {id : String} {left right : Expression α}
    {comparison : Comparison} {c : Constraint α} :
    Constraint.new id left comparison right = .ok c ↔ Text.isBlank id = false ∧
      left.owner = right.owner ∧
      (left.isEmpty && right.isEmpty) = false ∧ c = ⟨id, left, comparison, right⟩ := by
  simp only [new, bind_eq_ok, checkIdentifier_eq_ok]
  split
  next h => simp [h]
  next h =>
    split
    next he => simp [he]
    next he =>
      simp only [not_not.mp h, Bool.not_eq_true _ ▸ he, Except.ok.injEq, true_and]
      exact ⟨fun ⟨_, hb, hc⟩ => ⟨hb, hc.symm⟩, fun ⟨hb, hc⟩ => ⟨(), hb, hc.symm⟩⟩

theorem Constant.new_eq_ok {α : Type} {id : String} {value : α} {c : Constant α} :
    Constant.new id value = .ok c ↔ Text.isBlank id = false ∧ c = ⟨id, value⟩ := by
  simp only [new, bind_eq_ok, checkIdentifier_eq_ok, pure, Except.pure, Except.ok.injEq]
  exact ⟨fun ⟨_, hb, hc⟩ => ⟨hb, hc.symm⟩, fun ⟨hb, hc⟩ => ⟨(), hb, hc.symm⟩⟩

namespace Registry

variable {k : Kind} {E α : Type} {r r' : Registry k E}

theorem group_eq_ok {id : String} {g : Group k} :
    (r.group id : Except (ModelError α) (Group k)) = .ok g ↔ r.groups.find? id = some g := by
  unfold group
  split <;> simp_all

theorem addGroup_eq_ok {g : Group k} :
    (r.addGroup g : Except (ModelError α) (Registry k E)) = .ok r' ↔
      r.groups.contains g.identifier = false ∧
        r' = { r with groups := r.groups.insert g.identifier g } := by
  unfold addGroup
  split
  next h => simp [h]
  next h => simpa [h] using eq_comm

theorem ensureAbsent_eq_ok {id : String} {u : Unit} :
    (r.ensureAbsent id : Except (ModelError α) Unit) = .ok u ↔ r.entities.contains id = false := by
  unfold ensureAbsent
  split <;> simp_all

theorem insert_eq_ok {group id : String} {entity : E} :
    (r.insert group id entity : Except (ModelError α) (Registry k E)) = .ok r' ↔
      r.groups.contains group = true ∧ r.entities.contains id = false ∧
        r' = { r with entities := r.entities.insert id ⟨group, entity⟩ } := by
  simp only [insert, bind_eq_ok, discard_eq_ok, group_eq_ok, ensureAbsent_eq_ok,
    Table.contains_iff, pure, Except.pure, Except.ok.injEq, exists_and_left, exists_const]
  grind

theorem entity_eq_ok {id : String} {e : E} :
    (r.entity id : Except (ModelError α) E) = .ok e ↔ ∃ p, r.entities.find? id = some p ∧
      p.entity = e := by
  unfold entity
  split <;> simp_all

end Registry

namespace Model

variable {α η κ : Type} {A : Adapter α η κ} {m m' : Model A}

theorem checkOpen_eq_ok {k : Kind} {u : Unit} :
    m.checkOpen k = .ok u ↔ m.stage.admits k = true := by
  unfold checkOpen
  split <;> simp_all

theorem checkObjectiveOpen_eq_ok {u : Unit} :
    m.checkObjectiveOpen = .ok u ↔ m.stage.admitsObjective = true := by
  unfold checkObjectiveOpen
  split <;> simp_all

theorem checkOwned_eq_ok {e : Expression α} {u : Unit} :
    m.checkOwned e = .ok u ↔ e.owner = m.token ∧ ∀ id ∈ e.names, m.vars.contains id = true := by
  unfold checkOwned
  split
  next h =>
    split
    next id hid =>
      have hm := List.mem_of_find?_eq_some hid
      have hc := List.find?_some hid
      simp only [reduceCtorEq, false_iff, not_and, not_forall]
      exact fun _ => ⟨id, hm, by simpa using hc⟩
    next hn => simpa [h] using List.find?_eq_none.mp hn
  next h => simp [h]

theorem createGroup_eq_ok {k : Kind} {id description : String} {generator : Option Naming.Namer}
    {g : Group k} :
    m.createGroup k id description generator = .ok (g, m') ↔
      m.stage.admits k = true ∧ Text.isBlank id = false ∧
        (m.registry k).groups.contains id = false ∧
        g = ⟨id, description, generator⟩ ∧
        m' = m.withRegistry k { m.registry k with
          groups := (m.registry k).groups.insert id g } := by
  simp only [createGroup, bind_eq_ok, checkOpen_eq_ok, checkIdentifier_eq_ok,
    Registry.addGroup_eq_ok, pure, Except.pure, Except.ok.injEq, Prod.mk.injEq]
  grind

theorem createVariable_eq_ok {id : String} {varType : VarType} {lower upper : α}
    {group : Group .var} {v : Variable α} :
    m.createVariable id varType lower upper group = .ok (v, m') ↔
      m.stage.admits .var = true ∧ m.vars.groups.contains group.identifier = true ∧
        m.vars.entities.contains id = false ∧
          m.variableFactory m.token id varType lower upper = .ok v ∧
        m' = { m with vars := { m.vars with
          entities := m.vars.entities.insert id ⟨group.identifier, v⟩ } } := by
  simp only [createVariable, bind_eq_ok, discard_eq_ok, checkOpen_eq_ok,
    Registry.ensureAbsent_eq_ok, Registry.insert_eq_ok, Registry.group_eq_ok, Table.contains_iff,
    pure, Except.pure, Except.ok.injEq, Prod.mk.injEq]
  grind

theorem addConstraint_eq_ok {id : String} {left right : Expression α} {comparison : Comparison}
    {group : Group .constraint} {c : Constraint α} :
    m.addConstraint id left comparison right group = .ok (c, m') ↔
      m.stage.admits .constraint = true ∧
        (left.owner = m.token ∧ ∀ n ∈ left.names, m.vars.contains n = true) ∧
        (right.owner = m.token ∧ ∀ n ∈ right.names, m.vars.contains n = true) ∧
        m.constraints.groups.contains group.identifier = true ∧
          m.constraints.entities.contains id = false ∧
        m.constraintFactory id left comparison right = .ok c ∧
        m' = { m with constraints := { m.constraints with
          entities := m.constraints.entities.insert id ⟨group.identifier, c⟩ } } := by
  simp only [addConstraint, bind_eq_ok, discard_eq_ok, checkOpen_eq_ok, checkOwned_eq_ok,
    Registry.ensureAbsent_eq_ok, Registry.insert_eq_ok, Registry.group_eq_ok, Table.contains_iff,
    pure, Except.pure, Except.ok.injEq, Prod.mk.injEq]
  grind

theorem createConstant_eq_ok {id : String} {value : α} {group : Group .constant} {c : Constant α} :
    m.createConstant id value group = .ok (c, m') ↔
      m.stage.admits .constant = true ∧ Text.isBlank id = false ∧
        m.constants.groups.contains group.identifier = true ∧
          m.constants.entities.contains id = false ∧
        c = ⟨id, value⟩ ∧
        m' = { m with constants := { m.constants with
          entities := m.constants.entities.insert id ⟨group.identifier, c⟩ } } := by
  simp only [createConstant, Constant.new, bind_eq_ok, checkOpen_eq_ok, checkIdentifier_eq_ok,
    Registry.insert_eq_ok, pure, Except.pure, Except.ok.injEq, Prod.mk.injEq]
  grind

theorem setConstant_eq_ok {id : String} {value : α} :
    m.setConstant id value = .ok m' ↔
      m.constants.entities.contains id = true ∧
        m' = { m with constants := m.constants.modify id fun c => { c with value } } := by
  simp only [setConstant, bind_eq_ok, discard_eq_ok, Registry.entity_eq_ok, Table.contains_iff,
    pure, Except.pure, Except.ok.injEq]
  grind

theorem setObjective_eq_ok {e : Expression α} {direction : Direction} :
    m.setObjective e direction = .ok m' ↔
      m.stage.admitsObjective = true ∧
        (e.owner = m.token ∧ ∀ n ∈ e.names, m.vars.contains n = true) ∧
        m' = { m with objective := some ⟨e, direction⟩ } := by
  simp only [setObjective, bind_eq_ok, checkObjectiveOpen_eq_ok, checkOwned_eq_ok, pure,
    Except.pure, Except.ok.injEq]
  grind

end Model
end Milp

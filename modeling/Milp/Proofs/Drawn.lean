import Milp.Proofs.Numbers
import Milp.Proofs.Regular

/-! Models that were drawn from a document: whatever is restored of it, and wherever that stops, every number
of the model stands in the document, under the name that it has on the model. -/
namespace Milp

variable {α η κ β : Type} {A : Adapter α η κ} {k : Kind}

/-- The terms of an expression as they stand. -/
def Expression.written (e : Expression α) : Stored.Expression α := ⟨e.terms.map fun t => ⟨t.coefficient, t.name?⟩⟩

def Constraint.written (c : Constraint α) : Stored.Constraint α :=
  ⟨c.identifier, c.left.written, c.comparison, c.right.written⟩

namespace Model

variable [Unbounded α]

/-- The model is built with the usual factories, of what stands in the document, bounds apart. -/
structure Drawn (d : Document α) (m : Model A) : Prop extends m.Regular where
  results : ∀ id p, m.vars.entities.find? id = some p → ∀ x ∈ p.entity.result,
    ∃ v ∈ d.vars, v.identifier = id ∧ v.result = some x
  written : ∀ c ∈ m.entities .constraint, c.written ∈ d.constraints
  stored : ∀ c ∈ m.entities .constant, c.store ∈ d.constants
  aim : ∀ o ∈ m.objective, d.header.objective = some o.expression.written
  figures : m.solution = {} ∨ m.solution = d.header.solution

variable {d : Document α} {m m' : Model A}

theorem drawn_new (hA : A.Usual) (token : Token) (id : String) (adapter : A.State) (d : Document α) :
    (Model.new token id adapter : Model A).Drawn d where
  toRegular := regular_new hA token id adapter
  results _ _ h := by cases h
  written := nofun
  stored := nofun
  aim := nofun
  figures := .inl rfl

theorem Drawn.createGroup (h : m.Drawn d) {id description : String} {generator : Option Naming.Namer} {g : Group k}
    (hm : m.createGroup k id description generator = .ok (g, m')) : m'.Drawn d := by
  have hregular := h.toRegular.createGroup hm
  obtain ⟨-, -, -, -, rfl⟩ := createGroup_eq_ok.mp hm
  cases k <;> exact ⟨hregular, h.results, h.written, h.stored, h.aim, h.figures⟩

theorem Drawn.createVariable (h : m.Drawn d) {id : String} {varType : VarType} {lower upper : α} {group : Group .var}
    {v : Variable α} (hm : m.createVariable id varType lower upper group = .ok (v, m')) : m'.Drawn d := by
  have hregular := h.toRegular.createVariable hm
  obtain ⟨-, -, -, hv, rfl⟩ := createVariable_eq_ok.mp hm
  rw [h.variableFactory, Variable.new_eq_ok] at hv
  obtain ⟨-, -, rfl⟩ := hv
  refine ⟨hregular, fun id' p hp x hx => ?_, h.written, h.stored, h.aim, h.figures⟩
  rw [Table.find?_insert] at hp
  split at hp
  · cases hp
    cases hx
  · exact h.results id' p hp x hx

theorem Drawn.giveResult (h : m.Drawn d) {v : Stored.Variable α} (hv : v ∈ d.vars) {x : α}
    (hx : v.result = some x) : (m.giveResult v.identifier x).Drawn d := by
  refine ⟨h.toRegular.giveResult _ _, fun id p hp y hy => ?_, h.written, h.stored, h.aim, h.figures⟩
  rw [Model.giveResult, Registry.modify, Table.find?_modify] at hp
  split at hp
  next hid =>
    obtain ⟨q, -, rfl⟩ := Option.map_eq_some_iff.mp hp
    cases hy
    exact ⟨v, hv, hid.symm, hx⟩
  next => exact h.results id p hp y hy

theorem Drawn.addConstraint (h : m.Drawn d) {s : Stored.Constraint α} (hs : s ∈ d.constraints)
    {left right : Expression α} (hleft : left.written = s.left) (hright : right.written = s.right)
    {group : Group .constraint} {c : Constraint α}
    (hm : m.addConstraint s.identifier left s.comparison right group = .ok (c, m')) : m'.Drawn d := by
  have hregular := h.toRegular.addConstraint hm
  obtain ⟨-, -, -, -, -, hc, rfl⟩ := addConstraint_eq_ok.mp hm
  rw [h.constraintFactory, Constraint.new_eq_ok] at hc
  obtain ⟨-, -, -, rfl⟩ := hc
  refine ⟨hregular, h.results, Registry.forall_values_insert h.written ?_, h.stored, h.aim, h.figures⟩
  simpa only [Constraint.written, hleft, hright] using hs

theorem Drawn.createConstant (h : m.Drawn d) {s : Stored.Constant α} (hs : s ∈ d.constants) {group : Group .constant}
    {c : Constant α} (hm : m.createConstant s.identifier s.value group = .ok (c, m')) : m'.Drawn d := by
  have hregular := h.toRegular.createConstant hm
  obtain ⟨-, -, -, -, rfl, rfl⟩ := createConstant_eq_ok.mp hm
  exact ⟨hregular, h.results, h.written, Registry.forall_values_insert h.stored hs, h.aim, h.figures⟩

theorem Drawn.setObjective (h : m.Drawn d) {s : Stored.Expression α} (hs : d.header.objective = some s)
    {e : Expression α} (he : e.written = s) {direction : Direction} (hm : m.setObjective e direction = .ok m') :
    m'.Drawn d := by
  have hregular := h.toRegular.setObjective hm
  obtain ⟨-, -, rfl⟩ := setObjective_eq_ok.mp hm
  refine ⟨hregular, h.results, h.written, h.stored, fun o ho => ?_, h.figures⟩
  cases ho
  rw [hs, he]

/-- The terms of an expression that is built of stored ones are those. -/
theorem Regular.written_restoreExpression (h : m.Regular) {s : Stored.Expression α} {e : Expression α}
    (hs : m.restoreExpression s = .ok e) : e.written = s := by
  refine congrArg Stored.Expression.mk (foldlM_induct (I := fun done e =>
    e.terms.map (fun t => (⟨t.coefficient, t.name?⟩ : Stored.Term α)) = done) rfl (fun done t e₀ e₁ h₀ h₁ => ?_) hs)
  obtain ⟨c, id⟩ := t
  rw [← h₀]
  cases id with
  | none =>
    cases h₁
    exact List.map_append
  | some id =>
    obtain ⟨v, hv, h₁⟩ := bind_eq_ok.mp h₁
    obtain ⟨p, hp, rfl⟩ := Registry.entity_eq_ok.mp hv
    rw [Expression.addScaled, Term.ofVariable, Expression.addTerm] at h₁
    split at h₁
    · cases h₁
      rw [List.map_append, (h.vars.entities id p hp).2.1]
      rfl
    · cases h₁

end Model

namespace Edit

theorem keeps_forM_mem {γ : Type} {J : Model A → Prop} {l : List γ} {f : γ → Edit A Unit}
    (h : ∀ c ∈ l, Keeps J (f c)) : Keeps J (l.forM f) :=
  Triple.forM (fun _ (s : Model A × List (Event α)) => J s.1) fun _ c _ hl => h c (by simp [hl])

variable [Unbounded α] {d : Document α} {F : Type}

/-- The edit leaves a model that was drawn from the document one. -/
abbrev Draws (d : Document α) (e : Edit A β) : Prop := Keeps (Model.Drawn d) e

theorem draws_restoreGroup {s : Stored.Group F} {member : Group k → F → Edit A Unit}
    (h : ∀ g, ∀ e ∈ s.members, Draws d (member g e)) : Draws d (restoreGroup k s member) := by
  have hcreate (id description : String) (generator : Option Naming.Namer) :
      Draws d (createGroup k id description generator : Edit A (Group k)) :=
    declare_triple (fun _ _ _ h hm => h.createGroup hm) fun _ h => h
  have hmembers (g : Group k) : Draws d (s.members.forM (member g)) := keeps_forM_mem (h g)
  refine keeps_model.bind fun m => ?_
  dsimp only
  split
  · exact (keeps_pure _).bind hmembers
  · exact (hcreate _ _ _).bind hmembers

theorem draws_restoreConstant {c : Stored.Constant α} (hc : c ∈ d.constants) (g : Group .constant) :
    Draws d (restoreConstant g c : Edit A Unit) := by
  have hcreate : Draws d (createConstant c.identifier c.value g : Edit A (Constant α)) :=
    declare_triple (fun _ _ _ h hm => h.createConstant hc hm) fun _ h => h
  exact hcreate.discard

theorem draws_restoreVariable {v : Stored.Variable α} (hv : v ∈ d.vars) (g : Group .var) :
    Draws d (restoreVariable g v : Edit A Unit) := by
  have hcreate : Draws d (createVariable v.identifier v.varType (v.lower.getD Unbounded.negativeInfinity)
      (v.upper.getD Unbounded.infinity) g : Edit A (Variable α)) :=
    declare_triple (fun _ _ _ h hm => h.createVariable hm) fun _ h => h
  refine hcreate.discard.bind fun _ => ?_
  split
  next x hx =>
    refine change_triple (fun m m' h hm => ?_) fun _ h => h
    obtain ⟨-, -, hm⟩ := bind_eq_ok.mp hm
    cases hm
    exact h.giveResult hv hx
  next => exact keeps_pure _

/-- What is built of a stored expression has its terms. -/
theorem look_written (s : Stored.Expression α) :
    Triple (fun t => t.1.Drawn d) (look (·.restoreExpression s) : Edit A (Expression α))
      (fun e t => t.1.Drawn d ∧ e.written = s) fun _ t => t.1.Drawn d :=
  look_triple (P := Model.Drawn d) fun _ _ h => h.toRegular.written_restoreExpression

theorem draws_restoreConstraint {c : Stored.Constraint α} (hc : c ∈ d.constraints) (g : Group .constraint) :
    Draws d (restoreConstraint g c : Edit A Unit) := by
  refine Triple.bind (look_written c.left) fun left t ht => ?_
  refine Triple.bind (look_written c.right) (fun right u hu => ?_) t ht.1
  have hadd : Draws d (addConstraint c.identifier left c.comparison right g : Edit A (Constraint α)) :=
    declare_triple (fun _ _ _ h hm => h.addConstraint hc ht.2 hu.2 hm) fun _ h => h
  exact hadd.discard u hu.1

theorem draws_restoreHeader : Draws d (restoreHeader d.header : Edit A Unit) := by
  have hsolution : Draws d (setSolution d.header.solution : Edit A Unit) :=
    fun t ht => ⟨{ ht.toRegular with }, ht.results, ht.written, ht.stored, ht.aim, .inr rfl⟩
  unfold restoreHeader
  split
  next e direction he hd =>
    refine Triple.bind (look_written e) fun e t ht => ?_
    have hset : Draws d (setObjective e direction : Edit A Unit) :=
      change_triple (fun _ _ h hm => h.setObjective he ht.2 hm) fun _ h => h
    exact hset.bind (fun _ => hsolution) t ht.1
  next => exact (keeps_record _).bind fun _ => hsolution
  next => exact hsolution

theorem draws_restore (d : Document α) : Draws d (restore d : Edit A Unit) := by
  have hconstants : ∀ g ∈ d.constantGroups, Draws d (restoreConstants g : Edit A Unit) := fun g hg =>
    draws_restoreGroup fun group c hc => draws_restoreConstant (List.mem_flatMap.mpr ⟨g, hg, hc⟩) group
  have hvars : ∀ g ∈ d.variableGroups, Draws d (restoreVariables g : Edit A Unit) := fun g hg =>
    draws_restoreGroup fun group v hv => draws_restoreVariable (List.mem_flatMap.mpr ⟨g, hg, hv⟩) group
  have hconstraints : ∀ g ∈ d.constraintGroups, Draws d (restoreConstraints g : Edit A Unit) := fun g hg =>
    draws_restoreGroup fun group c hc => draws_restoreConstraint (List.mem_flatMap.mpr ⟨g, hg, hc⟩) group
  exact (keeps_forM_mem hconstants).bind fun _ => (keeps_forM_mem hvars).bind fun _ =>
    (keeps_forM_mem hconstraints).bind fun _ => draws_restoreHeader

end Edit

/-- What is restored of a document on a fresh model is drawn from it. -/
theorem Model.drawn_of_restore [Unbounded α] (hA : A.Usual) {d : Document α} {token : Token} {id : String}
    {adapter : A.State} {m : Model A} {journal journal' : List (Event α)}
    (hr : Edit.restore d ((Model.new token id adapter : Model A), journal) = (.ok (), m, journal')) : m.Drawn d :=
  (Edit.draws_restore d).ok (drawn_new hA token id adapter d) hr

end Milp

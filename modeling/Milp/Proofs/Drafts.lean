import Milp.Proofs.Regular
import Milp.Proofs.Workspaces

/-! Expressions as their owners build them: each variable term carries the token of the expression, and
so do those of every constraint and objective that is declared with such expressions. -/
namespace Milp

variable {α β η κ : Type} {A : Adapter α η κ}

/-- The variable terms are all of one model. -/
def TermsOf (owner : Token) (ts : List (Term α)) : Prop :=
  ∀ c id o, Term.linear c id o ∈ ts → o = owner

namespace TermsOf

variable {owner : Token} {ts us : List (Term α)}

theorem nil : TermsOf owner ([] : List (Term α)) := nofun

theorem constant (c : α) : TermsOf owner [Term.constant c] := by
  intro c' id o h
  simp at h

theorem linear (c : α) (id : String) : TermsOf owner [Term.linear c id owner] := by
  intro c' id' o h
  obtain ⟨-, -, rfl⟩ := Term.linear.inj (List.mem_singleton.mp h)
  rfl

theorem append (h : TermsOf owner ts) (h' : TermsOf owner us) : TermsOf owner (ts ++ us) :=
  fun c id o ht => (List.mem_append.mp ht).elim (h c id o) (h' c id o)

theorem cons {t : Term α} (h : TermsOf owner [t]) (h' : TermsOf owner ts) :
    TermsOf owner (t :: ts) := h.append h'

theorem tail {t : Term α} (h : TermsOf owner (t :: ts)) : TermsOf owner ts :=
  fun c id o ht => h c id o (List.mem_cons_of_mem _ ht)

theorem scale [Mul α] (h : TermsOf owner ts) (s : α) : TermsOf owner (ts.map (Term.scale s)) := by
  intro c id o ht
  obtain ⟨t, hmem, hs⟩ := List.mem_map.mp ht
  cases t with
  | constant => cases hs
  | linear c' id' o' =>
    obtain ⟨-, -, rfl⟩ := Term.linear.inj hs
    exact h c' id' _ hmem

theorem absorb [Add α] (h : TermsOf owner ts) (c : α) (id : String) :
    TermsOf owner (Expression.absorb c id owner ts) := by
  induction ts with
  | nil => exact .linear c id
  | cons t rest ih =>
    cases t with
    | constant c' => exact cons (.constant c') (ih h.tail)
    | linear c' id' o =>
      obtain rfl : o = owner := h c' id' o List.mem_cons_self
      rw [Expression.absorb]
      split
      · exact cons (.linear _ _) h.tail
      · exact cons (.linear _ _) (ih h.tail)

theorem linearTerms [Add α] (h : TermsOf owner ts) : TermsOf owner (Expression.linearTerms ts) := by
  induction ts using List.reverseRecOn with
  | nil => exact nil
  | append_singleton ts t ih =>
    have hts : TermsOf owner ts := fun c id o ht => h c id o (List.mem_append_left _ ht)
    rw [Expression.linearTerms_concat]
    cases t with
    | constant => exact ih hts
    | linear c id o =>
      obtain rfl : o = owner := h c id o (by simp)
      exact (ih hts).absorb c id

end TermsOf

namespace Expression

/-- Each variable term carries the token of the expression. -/
def Homogeneous (e : Expression α) : Prop := TermsOf e.owner e.terms

variable {e e' other : Expression α}

theorem homogeneous_empty (owner : Token) : (⟨owner, []⟩ : Expression α).Homogeneous := .nil

theorem Homogeneous.addConstant (h : e.Homogeneous) (c : α) : (e.addConstant c).Homogeneous :=
  TermsOf.append h (.constant c)

theorem Homogeneous.addTerm (h : e.Homogeneous) {t : Term α} (he : e.addTerm t = .ok e') :
    e'.Homogeneous := by
  cases t with
  | constant c =>
    cases he
    exact TermsOf.append h (.constant c)
  | linear c id owner =>
    rw [Expression.addTerm] at he
    split at he
    next ho =>
      cases he
      rw [ho]
      exact TermsOf.append h (.linear c id)
    next => cases he

theorem Homogeneous.add (h : e.Homogeneous) (ho : other.Homogeneous) (he : e.add other = .ok e') :
    e'.Homogeneous := by
  unfold Expression.add at he
  split at he
  next heq =>
    cases he
    have ho : TermsOf e.owner other.terms := heq ▸ ho
    exact TermsOf.append h ho
  next => cases he

theorem Homogeneous.scale [Mul α] (h : e.Homogeneous) (s : α) : (e.scale s).Homogeneous :=
  TermsOf.scale h s

theorem Homogeneous.reduce [Scalar α] (h : e.Homogeneous) : e.reduce.Homogeneous := by
  refine TermsOf.append (TermsOf.linearTerms h) ?_
  split
  · exact .nil
  · exact .constant _

end Expression

namespace Model

/-- The expressions that are declared on the model are homogeneous, and so are those that will be. -/
structure Homogeneous (m : Model A) : Prop where
  factory : m.constraintFactory = Constraint.new
  sides : ∀ id p, m.constraints.entities.find? id = some p →
    p.entity.left.Homogeneous ∧ p.entity.right.Homogeneous
  objective : ∀ o, m.objective = some o → o.expression.Homogeneous

variable {m m' : Model A}

/-- Nothing else of the model matters. -/
theorem Homogeneous.of_eq (h : m.Homogeneous) (hf : m'.constraintFactory = m.constraintFactory)
    (hc : m'.constraints.entities = m.constraints.entities) (ho : m'.objective = m.objective) :
    m'.Homogeneous where
  factory := hf.trans h.factory
  sides := hc ▸ h.sides
  objective := ho ▸ h.objective

theorem homogeneous_new [Scalar α] (hA : A.Usual) (token : Token) (id : String)
    (adapter : A.State) : (Model.new token id adapter : Model A).Homogeneous where
  factory := (hA adapter).2
  sides id p h := by cases h
  objective o h := by cases h

theorem Homogeneous.createGroup (h : m.Homogeneous) {k : Kind} {id description : String}
    {generator : Option Naming.Namer} {g : Group k}
    (hm : m.createGroup k id description generator = .ok (g, m')) : m'.Homogeneous := by
  obtain ⟨-, -, -, -, rfl⟩ := createGroup_eq_ok.mp hm
  cases k <;> exact h.of_eq rfl rfl rfl

theorem Homogeneous.createVariable (h : m.Homogeneous) {id : String} {varType : VarType}
    {lower upper : α} {group : Group .var} {v : Variable α}
    (hm : m.createVariable id varType lower upper group = .ok (v, m')) : m'.Homogeneous := by
  obtain ⟨-, -, -, -, rfl⟩ := createVariable_eq_ok.mp hm
  exact h.of_eq rfl rfl rfl

theorem Homogeneous.addConstraint (h : m.Homogeneous) {id : String} {left right : Expression α}
    {comparison : Comparison} {group : Group .constraint} {c : Constraint α}
    (hl : left.Homogeneous) (hr : right.Homogeneous)
    (hm : m.addConstraint id left comparison right group = .ok (c, m')) : m'.Homogeneous := by
  obtain ⟨-, -, -, -, -, hc, rfl⟩ := addConstraint_eq_ok.mp hm
  rw [h.factory, Constraint.new_eq_ok] at hc
  obtain ⟨-, -, -, rfl⟩ := hc
  refine ⟨h.factory, fun id' p hp => ?_, h.objective⟩
  rw [Table.find?_insert] at hp
  split at hp
  · cases hp
    exact ⟨hl, hr⟩
  · exact h.sides id' p hp

theorem Homogeneous.createConstant (h : m.Homogeneous) {id : String} {value : α}
    {group : Group .constant} {c : Constant α}
    (hm : m.createConstant id value group = .ok (c, m')) : m'.Homogeneous := by
  obtain ⟨-, -, -, -, -, rfl⟩ := createConstant_eq_ok.mp hm
  exact h.of_eq rfl rfl rfl

theorem Homogeneous.setConstant (h : m.Homogeneous) {id : String} {value : α}
    (hm : m.setConstant id value = .ok m') : m'.Homogeneous := by
  obtain ⟨-, rfl⟩ := setConstant_eq_ok.mp hm
  exact h.of_eq rfl rfl rfl

theorem Homogeneous.setObjective (h : m.Homogeneous) {e : Expression α} {direction : Direction}
    (he : e.Homogeneous) (hm : m.setObjective e direction = .ok m') : m'.Homogeneous := by
  obtain ⟨-, -, rfl⟩ := setObjective_eq_ok.mp hm
  refine ⟨h.factory, h.sides, fun o ho => ?_⟩
  cases ho
  exact he

/-- What is built of stored terms is homogeneous. -/
theorem homogeneous_restoreExpression {s : Stored.Expression α} {e : Expression α}
    (h : m.restoreExpression s = .ok e) : e.Homogeneous := by
  refine foldlM_induct (I := fun _ e => e.Homogeneous) (Expression.homogeneous_empty m.token)
    (fun _ t e₀ e₁ h₀ h₁ => ?_) h
  split at h₁
  · cases h₁
    exact h₀.addConstant _
  · obtain ⟨v, -, h₁⟩ := bind_eq_ok.mp h₁
    exact h₀.addTerm h₁

end Model

namespace Edit

/-- The edit leaves homogeneous what was so. -/
abbrev Even (e : Edit A β) : Prop := Keeps Model.Homogeneous e

theorem even_createGroup (k : Kind) (id description : String)
    (generator : Option Naming.Namer) :
    Even (createGroup k id description generator : Edit A (Group k)) :=
  declare_triple (fun _ _ _ h hm => h.createGroup hm) fun _ h => h

theorem even_createVariable (id : String) (varType : VarType) (lower upper : α)
    (group : Group .var) :
    Even (createVariable id varType lower upper group : Edit A (Variable α)) :=
  declare_triple (fun _ _ _ h hm => h.createVariable hm) fun _ h => h

theorem even_createConstant (id : String) (value : α) (group : Group .constant) :
    Even (createConstant id value group : Edit A (Constant α)) :=
  declare_triple (fun _ _ _ h hm => h.createConstant hm) fun _ h => h

theorem even_setConstant (id : String) (value : α) :
    Even (setConstant id value : Edit A Unit) :=
  change_triple (fun _ _ h hm => h.setConstant hm) fun _ h => h

theorem even_addConstraint {left right : Expression α} (hl : left.Homogeneous)
    (hr : right.Homogeneous) (id : String) (comparison : Comparison) (group : Group .constraint) :
    Even (addConstraint id left comparison right group : Edit A (Constraint α)) :=
  declare_triple (fun _ _ _ h hm => h.addConstraint hl hr hm) fun _ h => h

theorem even_setObjective {e : Expression α} (he : e.Homogeneous) (direction : Direction) :
    Even (setObjective e direction : Edit A Unit) :=
  change_triple (fun _ _ h hm => h.setObjective he hm) fun _ h => h

theorem even_setSolution (x : Solution α) : Even (setSolution x : Edit A Unit) :=
  fun _ h => h.of_eq rfl rfl rfl

theorem even_setResult (id : String) (x : α) : Even (setResult id x : Edit A Unit) := by
  refine change_triple (fun m m' h hm => ?_) fun _ h => h
  obtain ⟨-, -, hm⟩ := bind_eq_ok.mp hm
  cases hm
  exact h.of_eq rfl rfl rfl

theorem even_restoreGroup {E : Type} (k : Kind) (s : Stored.Group E)
    {member : Group k → E → Edit A Unit} (h : ∀ g e, Even (member g e)) :
    Even (restoreGroup k s member) := by
  refine keeps_model.bind fun m => ?_
  have hm (g : Group k) : Even (s.members.forM (member g)) := keeps_forM (h g)
  dsimp only
  split
  · exact (keeps_pure _).bind hm
  · exact (even_createGroup _ _ _ _).bind hm

theorem even_restoreConstants (s : Stored.Group (Stored.Constant α)) :
    Even (restoreConstants s : Edit A Unit) :=
  even_restoreGroup _ _ fun _ _ => (even_createConstant _ _ _).discard

theorem even_restoreVariables [Unbounded α] (s : Stored.Group (Stored.Variable α)) :
    Even (restoreVariables s : Edit A Unit) := by
  refine even_restoreGroup _ _ fun g v => (even_createVariable _ _ _ _ _).discard.bind fun _ => ?_
  split
  · exact even_setResult _ _
  · exact keeps_pure _

/-- Stored sides are built again, by the rules. -/
theorem even_restoreConstraints (s : Stored.Group (Stored.Constraint α)) :
    Even (restoreConstraints s : Edit A Unit) := by
  refine even_restoreGroup _ _ fun g c => ?_
  have hlook (s : Stored.Expression α) := look_triple (A := A) (f := (·.restoreExpression s))
    (P := Model.Homogeneous) (G := Expression.Homogeneous)
    fun _ _ _ h => Model.homogeneous_restoreExpression h
  refine (hlook c.left).bind fun left => ?_
  intro t ht
  refine Triple.bind (hlook c.right) (fun right => ?_) t ht.1
  intro u hu
  exact (even_addConstraint ht.2 hu.2 _ _ _).discard u hu.1

theorem even_restoreHeader (s : Stored.Header α) : Even (restoreHeader s : Edit A Unit) := by
  unfold restoreHeader
  split
  · refine Triple.bind (look_triple (P := Model.Homogeneous) (G := Expression.Homogeneous)
      fun _ _ _ h => Model.homogeneous_restoreExpression h) fun e => ?_
    intro t ht
    exact (even_setObjective ht.2 _).bind (fun _ => even_setSolution _) t ht.1
  · exact (keeps_record _).bind fun _ => even_setSolution _
  · exact even_setSolution _

theorem even_restore [Unbounded α] (d : Document α) : Even (restore d : Edit A Unit) :=
  (keeps_forM even_restoreConstants).bind fun _ => (keeps_forM even_restoreVariables).bind fun _ =>
    (keeps_forM even_restoreConstraints).bind fun _ => even_restoreHeader _

end Edit

/-- The action is given no expression. -/
def Action.Formless : Action α → Prop
  | .addConstraint .. | .setObjective .. => False
  | _ => True

theorem Edit.even_perform [Unbounded α] {a : Action α} (h : a.Formless) :
    Even (a.perform : Edit A a.Value) := by
  cases a with
  | createGroup => exact even_createGroup _ _ _ _
  | createVariable => exact even_createVariable _ _ _ _ _
  | addConstraint => exact h.elim
  | createConstant => exact even_createConstant _ _ _
  | setConstant => exact even_setConstant _ _
  | setObjective => exact h.elim
  | restore => exact even_restore _
  | restoreVariables => exact even_restoreVariables _
  | restoreConstraints => exact even_restoreConstraints _
  | restoreConstants => exact even_restoreConstants _
  | restoreHeader => exact even_restoreHeader _

end Milp

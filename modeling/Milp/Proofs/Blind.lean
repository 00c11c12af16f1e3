import Milp.Proofs.Observed

/-! Edits do not look at the adapter: observed or plain, they do the same to the model. -/
namespace Milp

variable {α β γ δ η κ ω ε : Type} {A : Adapter α η κ}

theorem map_bind_except (x : Except ε β) (f : β → Except ε γ) (g : γ → δ) :
    (x >>= f).map g = x >>= fun b => (f b).map g := by
  cases x <;> rfl

namespace Model

/-- The model with the plain adapter. -/
def unobserved (m : Model A.observed) : Model A where
  identifier := m.identifier
  token := m.token
  adapter := m.adapter.1
  variableFactory := m.variableFactory
  constraintFactory := m.constraintFactory
  vars := m.vars
  constraints := m.constraints
  constants := m.constants
  objective := m.objective
  solution := m.solution
  columns := m.columns
  lines := m.lines
  stage := m.stage

/-- Declarations do not look at the adapter. -/
def Blind (f : Model A.observed → Except (ModelError α) (β × Model A.observed))
    (f' : Model A → Except (ModelError α) (β × Model A)) : Prop :=
  ∀ m, f' m.unobserved = (f m).map fun r => (r.1, r.2.unobserved)

theorem blind_createGroup (k : Kind) (id description : String)
    (generator : Option Naming.Namer) :
    Blind (A := A) (·.createGroup k id description generator)
      (·.createGroup k id description generator) := by
  intro m
  simp only [createGroup, map_bind_except]
  cases k <;> rfl

theorem blind_createVariable (id : String) (varType : VarType) (lower upper : α)
    (group : Group .var) :
    Blind (A := A) (·.createVariable id varType lower upper group)
      (·.createVariable id varType lower upper group) := by
  intro m
  simp only [createVariable, map_bind_except]
  rfl

theorem blind_addConstraint (id : String) (left : Expression α) (comparison : Comparison)
    (right : Expression α) (group : Group .constraint) :
    Blind (A := A) (·.addConstraint id left comparison right group)
      (·.addConstraint id left comparison right group) := by
  intro m
  simp only [addConstraint, map_bind_except]
  rfl

theorem blind_createConstant (id : String) (value : α) (group : Group .constant) :
    Blind (A := A) (·.createConstant id value group) (·.createConstant id value group) := by
  intro m
  simp only [createConstant, map_bind_except]
  rfl

end Model

namespace Edit

/-- Two edits that do the same, one with the adapter observed. -/
def Same (e : Edit A.observed β) (e' : Edit A β) : Prop :=
  ∀ s, e' (s.1.unobserved, s.2) = ((e s).1, (e s).2.1.unobserved, (e s).2.2)

theorem same_pure (b : β) : Same (pure b : Edit A.observed β) (pure b) := fun _ => rfl

theorem same_bind {e : Edit A.observed β} {e' : Edit A β} {f : β → Edit A.observed γ}
    {f' : β → Edit A γ} (he : Same e e') (hf : ∀ b, Same (f b) (f' b)) :
    Same (e >>= f) (e' >>= f') := by
  intro s
  have hs := he s
  rw [bind_apply, bind_apply, hs]
  match e s with
  | (.ok b, t) => exact hf b t
  | (.error _, _) => rfl

theorem same_discard {e : Edit A.observed β} {e' : Edit A β} (he : Same e e') :
    Same (discard e) (discard e') :=
  same_bind he fun _ => same_pure _

theorem same_forM {l : List γ} {f : γ → Edit A.observed Unit} {f' : γ → Edit A Unit}
    (hf : ∀ c, Same (f c) (f' c)) :
    Same (l.forM f) (l.forM f') := by
  induction l with
  | nil => exact same_pure _
  | cons c rest ih => exact same_bind (hf c) fun _ => ih

theorem same_record (events : List (Event α)) :
    Same (record events : Edit A.observed Unit) (record events) :=
  fun _ => rfl

theorem same_look {f : Model A.observed → Except (ModelError α) β}
    {f' : Model A → Except (ModelError α) β} (hf : ∀ m, f' m.unobserved = f m) :
    Same (look f) (look f') := by
  intro s
  rw [look_apply, look_apply, hf]

theorem same_declare {f : Model A.observed → Except (ModelError α) (β × Model A.observed)}
    {f' : Model A → Except (ModelError α) (β × Model A)} {events : β → List (Event α)}
    (hf : Model.Blind f f') :
    Same (declare f events) (declare f' events) := by
  intro s
  rw [declare_apply, declare_apply, hf]
  cases f s.1 <;> rfl

theorem same_change {f : Model A.observed → Except (ModelError α) (Model A.observed)}
    {f' : Model A → Except (ModelError α) (Model A)}
    (hf : ∀ m, f' m.unobserved = (f m).map Model.unobserved) :
    Same (change f) (change f') := by
  intro s
  rw [change_apply, change_apply, hf]
  cases f s.1 <;> rfl

theorem same_createGroup (k : Kind) (id description : String)
    (generator : Option Naming.Namer) :
    Same (createGroup (A := A.observed) k id description generator)
      (createGroup k id description generator) :=
  same_declare (Model.blind_createGroup k id description generator)

theorem same_createVariable (id : String) (varType : VarType) (lower upper : α)
    (group : Group .var) : Same (createVariable (A := A.observed) id varType lower upper group)
      (createVariable id varType lower upper group) :=
  same_declare (Model.blind_createVariable id varType lower upper group)

theorem same_addConstraint (id : String) (left : Expression α) (comparison : Comparison)
    (right : Expression α) (group : Group .constraint) :
    Same (addConstraint (A := A.observed) id left comparison right group)
      (addConstraint id left comparison right group) :=
  same_declare (Model.blind_addConstraint id left comparison right group)

theorem same_createConstant (id : String) (value : α) (group : Group .constant) :
    Same (createConstant (A := A.observed) id value group) (createConstant id value group) :=
  same_declare (Model.blind_createConstant id value group)

theorem same_setConstant (id : String) (value : α) :
    Same (setConstant (A := A.observed) id value) (setConstant id value) :=
  same_change fun m => by
    simp only [Model.setConstant, map_bind_except]
    rfl

theorem same_setObjective (e : Expression α) (direction : Direction) :
    Same (setObjective (A := A.observed) e direction) (setObjective e direction) :=
  same_change fun m => by
    simp only [Model.setObjective, map_bind_except]
    rfl

theorem same_restoreGroup {E : Type} (k : Kind) (s : Stored.Group E)
    {member : Group k → E → Edit A.observed Unit} {member' : Group k → E → Edit A Unit}
    (h : ∀ g e, Same (member g e) (member' g e)) :
    Same (restoreGroup k s member) (restoreGroup k s member') := by
  intro t
  have hm : (model : Edit A.observed (Model A.observed)) t = (.ok t.1, t) := rfl
  have hm' : (model : Edit A (Model A)) (t.1.unobserved, t.2) =
      (.ok t.1.unobserved, t.1.unobserved, t.2) := rfl
  have hg : t.1.unobserved.group k s.identifier = t.1.group k s.identifier := by cases k <;> rfl
  simp only [restoreGroup, bind_apply, hm, hm', hg]
  cases t.1.group k s.identifier with
  | ok g => exact same_forM (h g) t
  | error e =>
    exact same_bind (same_createGroup k s.identifier s.description none)
      (fun g => same_forM (h g)) t

theorem same_restoreVariable [Unbounded α] (g : Group .var) (v : Stored.Variable α) :
    Same (restoreVariable (A := A.observed) g v) (restoreVariable g v) := by
  refine same_bind (same_discard (same_createVariable _ _ _ _ _)) fun _ => ?_
  cases v.result with
  | none => exact same_pure _
  | some x =>
    refine same_change fun m => ?_
    simp only [map_bind_except]
    rfl

theorem same_restoreExpression (m : Model A.observed) (s : Stored.Expression α) :
    m.unobserved.restoreExpression s = m.restoreExpression s := rfl

theorem same_restoreConstraint (g : Group .constraint) (c : Stored.Constraint α) :
    Same (restoreConstraint (A := A.observed) g c) (restoreConstraint g c) :=
  same_bind (same_look fun m => same_restoreExpression m c.left) fun _ =>
    same_bind (same_look fun m => same_restoreExpression m c.right) fun _ =>
      same_discard (same_addConstraint _ _ _ _ _)

theorem same_restoreConstants (s : Stored.Group (Stored.Constant α)) :
    Same (restoreConstants (A := A.observed) s) (restoreConstants s) :=
  same_restoreGroup _ _ fun _ _ => same_discard (same_createConstant _ _ _)

theorem same_restoreHeader (s : Stored.Header α) :
    Same (restoreHeader (A := A.observed) s) (restoreHeader s) := by
  unfold restoreHeader
  split
  · exact same_bind (same_look fun m => same_restoreExpression m _) fun _ =>
      same_bind (same_setObjective _ _) fun _ _ => rfl
  · exact same_bind (same_record _) fun _ _ => rfl
  · exact fun _ => rfl

theorem same_restore [Unbounded α] (d : Document α) :
    Same (restore (A := A.observed) d) (restore d) :=
  same_bind (same_forM same_restoreConstants) fun _ =>
    same_bind (same_forM fun s => same_restoreGroup _ s same_restoreVariable) fun _ =>
      same_bind (same_forM fun s => same_restoreGroup _ s same_restoreConstraint) fun _ =>
        same_restoreHeader _

theorem same_perform [Unbounded α] (a : Action α) :
    Same (a.perform : Edit A.observed a.Value) a.perform := by
  cases a with
  | createGroup => exact same_createGroup _ _ _ _
  | createVariable => exact same_createVariable _ _ _ _ _
  | addConstraint => exact same_addConstraint _ _ _ _ _
  | createConstant => exact same_createConstant _ _ _
  | setConstant => exact same_setConstant _ _
  | setObjective => exact same_setObjective _ _
  | restore => exact same_restore _
  | restoreVariables => exact same_restoreGroup _ _ same_restoreVariable
  | restoreConstraints => exact same_restoreGroup _ _ same_restoreConstraint
  | restoreConstants => exact same_restoreConstants _
  | restoreHeader => exact same_restoreHeader _

end Edit

end Milp

import Milp.Run
import Milp.Proofs.Declaration
import Milp.Proofs.Triple
import Mathlib.Logic.Relation

/-! What edits and programs do to a model: a sequence of single changes. -/
namespace Milp

open Relation

variable {α η κ ω β γ : Type} {A : Adapter α η κ}

namespace Model

/-- A declaration that succeeded. -/
inductive Declared : Model A → Model A → Prop
  | group {m m' : Model A} {k : Kind} {id description : String}
      {generator : Option Naming.Namer} {g : Group k}
      (h : m.createGroup k id description generator = .ok (g, m')) : Declared m m'
  | var {m m' : Model A} {id : String} {varType : VarType} {lower upper : α} {group : Group .var}
      {v : Variable α} (h : m.createVariable id varType lower upper group = .ok (v, m')) :
      Declared m m'
  | constraint {m m' : Model A} {id : String} {left right : Expression α} {comparison : Comparison}
      {group : Group .constraint} {c : Constraint α}
      (h : m.addConstraint id left comparison right group = .ok (c, m')) : Declared m m'
  | constant {m m' : Model A} {id : String} {value : α} {group : Group .constant} {c : Constant α}
      (h : m.createConstant id value group = .ok (c, m')) : Declared m m'
  | value {m m' : Model A} {id : String} {value : α} (h : m.setConstant id value = .ok m') :
      Declared m m'
  | objective {m m' : Model A} {e : Expression α} {direction : Direction}
      (h : m.setObjective e direction = .ok m') : Declared m m'

/-- The model with a result for one of its variables. -/
def giveResult (m : Model A) (id : String) (x : α) : Model A :=
  { m with vars := m.vars.modify id fun v => { v with result := some x } }

/-- A single change: a declaration, a variable declared with a result, or the figures of a stored
solve. -/
inductive Change : Model A → Model A → Prop
  | declared {m m' : Model A} (h : Declared m m') : Change m m'
  | restored {m m' : Model A} {id : String} {varType : VarType} {lower upper : α}
      {group : Group .var} {v : Variable α}
      (h : m.createVariable id varType lower upper group = .ok (v, m')) (x : α) :
      Change m (m'.giveResult id x)
  | solution (m : Model A) (s : Solution α) : Change m { m with solution := s }

end Model

namespace Edit

/-- The model only moves along a relation, whether the edit fails or not. -/
def Moves (R : Model A → Model A → Prop) (e : Edit A β) : Prop := ∀ s, ReflTransGen R s.1 (e s).2.1

variable {R : Model A → Model A → Prop}

theorem Moves.mono {S : Model A → Model A → Prop} {e : Edit A β} (h : Moves R e)
    (hRS : ∀ m m', R m m' → S m m') :
    Moves S e := fun s => ReflTransGen.mono hRS _ _ (h s)

theorem moves_pure (b : β) : Moves R (pure b : Edit A β) := fun _ => .refl

theorem moves_bind {e : Edit A β} {f : β → Edit A γ} (he : Moves R e) (hf : ∀ b, Moves R (f b)) :
    Moves R (e >>= f) := by
  intro s
  have hs := he s
  revert hs
  rw [bind_apply]
  match e s with
  | (.ok b, t) => exact fun hs => hs.trans (hf b t)
  | (.error _, _) => exact id

theorem discard_apply (e : Edit A β) (s : Model A × List (Event α)) :
    discard e s = match e s with
      | (.ok _, t) => (.ok (), t)
      | (.error x, t) => (.error x, t) := by
  change (e >>= fun _ => pure ()) s = _
  rw [bind_apply]
  rcases e s with ⟨_ | _, _⟩ <;> rfl

theorem moves_discard {e : Edit A β} (he : Moves R e) : Moves R (discard e) :=
  moves_bind he fun _ => moves_pure _

theorem moves_model : Moves R (model : Edit A (Model A)) := fun _ => .refl

theorem moves_forM {l : List γ} {f : γ → Edit A Unit} (hf : ∀ c ∈ l, Moves R (f c)) :
    Moves R (l.forM f) := by
  induction l with
  | nil => exact moves_pure _
  | cons c rest ih => exact moves_bind (hf c (by simp)) fun _ => ih fun d hd => hf d (by simp [hd])

theorem moves_record (events : List (Event α)) : Moves R (record events : Edit A Unit) :=
  fun _ => .refl

theorem look_apply (f : Model A → Except (ModelError α) β) (s : Model A × List (Event α)) :
    look f s = (f s.1, s) := by
  have hm : (model : Edit A (Model A)) s = (.ok s.1, s) := rfl
  simp only [look, bind_apply, hm]
  cases f s.1 <;> rfl

theorem moves_look (f : Model A → Except (ModelError α) β) : Moves R (look f : Edit A β) := by
  intro s
  rw [look_apply]

theorem declare_apply (f : Model A → Except (ModelError α) (β × Model A))
    (events : β → List (Event α)) (s : Model A × List (Event α)) :
    declare f events s = match f s.1 with
      | .ok (b, m) => (.ok b, m, s.2 ++ events b)
      | .error e => (.error e, s) := by
  rw [declare, bind_apply, look_apply]
  cases f s.1 <;> rfl

theorem moves_declare {f : Model A → Except (ModelError α) (β × Model A)}
    {events : β → List (Event α)} (hf : ∀ m b m', f m = .ok (b, m') → R m m') :
    Moves R (declare f events) := by
  intro s
  rw [declare_apply]
  split
  next b m h => exact .single (hf _ _ _ h)
  next => exact .refl

theorem change_apply (f : Model A → Except (ModelError α) (Model A))
    (s : Model A × List (Event α)) : change f s = match f s.1 with
      | .ok m => (.ok (), m, s.2)
      | .error e => (.error e, s) := by
  rw [change, bind_apply, look_apply]
  cases f s.1 <;> rfl

theorem moves_change {f : Model A → Except (ModelError α) (Model A)}
    (hf : ∀ m m', f m = .ok m' → R m m') :
    Moves R (change f) := by
  intro s
  rw [change_apply]
  split
  next m h => exact .single (hf _ _ h)
  next => exact .refl

open Model (Declared Change)

theorem moves_createGroup (k : Kind) (id description : String)
    (generator : Option Naming.Namer) :
    Moves Declared (createGroup k id description generator : Edit A (Group k)) :=
  moves_declare fun _ _ _ h => .group h

theorem moves_createVariable (id : String) (varType : VarType) (lower upper : α)
    (group : Group .var) :
    Moves Declared (createVariable id varType lower upper group : Edit A (Variable α)) :=
  moves_declare fun _ _ _ h => .var h

theorem moves_addConstraint (id : String) (left : Expression α) (comparison : Comparison)
    (right : Expression α) (group : Group .constraint) :
    Moves Declared (addConstraint id left comparison right group : Edit A (Constraint α)) :=
  moves_declare fun _ _ _ h => .constraint h

theorem moves_createConstant (id : String) (value : α) (group : Group .constant) :
    Moves Declared (createConstant id value group : Edit A (Constant α)) :=
  moves_declare fun _ _ _ h => .constant h

theorem moves_setConstant (id : String) (value : α) :
    Moves Declared (setConstant id value : Edit A Unit) :=
  moves_change fun _ _ h => .value h

theorem moves_setObjective (e : Expression α) (direction : Direction) :
    Moves Declared (setObjective e direction : Edit A Unit) :=
  moves_change fun _ _ h => .objective h

theorem Moves.change {e : Edit A β} (h : Moves Declared e) : Moves Change e :=
  h.mono fun _ _ => .declared

/-- The relation has the single changes that restoring groups comes down to, -/
structure CoversGroups (R : Model A → Model A → Prop) : Prop where
  group : ∀ {m m' : Model A} {k : Kind} {id description : String}
    {generator : Option Naming.Namer} {g : Group k},
    m.createGroup k id description generator = .ok (g, m') → R m m'
  var : ∀ {m m' : Model A} {id : String} {varType : VarType} {lower upper : α} {group : Group .var}
    {v : Variable α}, m.createVariable id varType lower upper group = .ok (v, m') → R m m'
  restored : ∀ {m m' : Model A} {id : String} {varType : VarType} {lower upper : α}
    {group : Group .var} {v : Variable α},
    m.createVariable id varType lower upper group = .ok (v, m') → ∀ x, R m (m'.giveResult id x)
  constraint : ∀ {m m' : Model A} {id : String} {left right : Expression α}
    {comparison : Comparison} {group : Group .constraint} {c : Constraint α},
    m.addConstraint id left comparison right group = .ok (c, m') → R m m'
  constant : ∀ {m m' : Model A} {id : String} {value : α} {group : Group .constant}
    {c : Constant α}, m.createConstant id value group = .ok (c, m') → R m m'

/-- and those of restoring a header. -/
structure Covers (R : Model A → Model A → Prop) : Prop extends CoversGroups R where
  objective : ∀ {m m' : Model A} {e : Expression α} {direction : Direction},
    m.setObjective e direction = .ok m' → R m m'
  solution : ∀ (m : Model A) (s : Solution α), R m { m with solution := s }

theorem covers_change : Covers (A := A) Change where
  group h := .declared (.group h)
  var h := .declared (.var h)
  restored h x := .restored h x
  constraint h := .declared (.constraint h)
  constant h := .declared (.constant h)
  objective h := .declared (.objective h)
  solution m s := .solution m s

theorem setResult_apply (id : String) (x : α) (s : Model A × List (Event α)) :
    setResult id x s = match s.1.vars.entity id with
      | .ok _ => (.ok (), s.1.giveResult id x, s.2)
      | .error e => (.error e, s) := by
  rw [setResult, change_apply]
  cases h : s.1.vars.entity id <;> rfl

section CoversGroups

variable (hR : CoversGroups R)

include hR

theorem moves_restoreGroup {E : Type} (k : Kind) (s : Stored.Group E)
    {member : Group k → E → Edit A Unit} (h : ∀ g e, Moves R (member g e)) :
    Moves R (restoreGroup k s member) := by
  refine moves_bind moves_model fun m => ?_
  have hm (g : Group k) : Moves R (s.members.forM (member g)) := moves_forM fun e _ => h g e
  dsimp only
  split
  · exact moves_bind (moves_pure _) hm
  · exact moves_bind (moves_declare fun _ _ _ hg => hR.group hg) hm

theorem moves_restoreConstants (s : Stored.Group (Stored.Constant α)) :
    Moves R (restoreConstants s : Edit A Unit) :=
  moves_restoreGroup hR _ _ fun _ _ => moves_discard (moves_declare fun _ _ _ h => hR.constant h)

/-- A result is given only to a variable that was declared just before. -/
theorem moves_restoreVariable [Unbounded α] (g : Group .var) (v : Stored.Variable α) :
    Moves R (restoreVariable g v : Edit A Unit) := by
  intro s
  rw [restoreVariable, bind_apply, discard_apply, createVariable, declare_apply]
  cases h : s.1.createVariable v.identifier v.varType (v.lower.getD Unbounded.negativeInfinity)
    (v.upper.getD Unbounded.infinity) g with
  | error e => exact .refl
  | ok r =>
    obtain ⟨w, m⟩ := r
    cases v.result with
    | none => exact .single (hR.var h)
    | some x =>
      simp only [setResult_apply]
      split
      · exact .single (hR.restored h x)
      · exact .single (hR.var h)

theorem moves_restoreVariables [Unbounded α] (s : Stored.Group (Stored.Variable α)) :
    Moves R (restoreVariables s : Edit A Unit) :=
  moves_restoreGroup hR _ _ (moves_restoreVariable hR)

theorem moves_restoreConstraints (s : Stored.Group (Stored.Constraint α)) :
    Moves R (restoreConstraints s : Edit A Unit) :=
  moves_restoreGroup hR _ _ fun _ _ => moves_bind (moves_look _) fun _ =>
    moves_bind (moves_look _) fun _ =>
    moves_discard (moves_declare fun _ _ _ h => hR.constraint h)

end CoversGroups

section Covers

variable (hR : Covers R)

include hR

theorem moves_restoreHeader (s : Stored.Header α) : Moves R (restoreHeader s : Edit A Unit) := by
  have hfigures : Moves R (setSolution s.solution : Edit A Unit) := fun t =>
    .single (hR.solution t.1 s.solution)
  unfold restoreHeader
  split
  · exact moves_bind (moves_look _) fun _ =>
      moves_bind (moves_change fun _ _ h => hR.objective h) fun _ => hfigures
  · exact moves_bind (moves_record _) fun _ => hfigures
  · exact hfigures

theorem moves_restore [Unbounded α] (d : Document α) : Moves R (restore d : Edit A Unit) :=
  moves_bind (moves_forM fun s _ => moves_restoreConstants hR.toCoversGroups s) fun _ =>
    moves_bind (moves_forM fun s _ => moves_restoreVariables hR.toCoversGroups s) fun _ =>
      moves_bind (moves_forM fun s _ => moves_restoreConstraints hR.toCoversGroups s) fun _ =>
        moves_restoreHeader hR _

/-- Every action but one comes down to the same single changes. -/
theorem moves_perform_of_ne [Unbounded α] {a : Action α} (ha : ∀ id x, a ≠ .setConstant id x) :
    Moves R (a.perform : Edit A a.Value) := by
  unfold Action.perform
  cases a with
  | createGroup => exact moves_declare fun _ _ _ h => hR.group h
  | createVariable => exact moves_declare fun _ _ _ h => hR.var h
  | addConstraint => exact moves_declare fun _ _ _ h => hR.constraint h
  | createConstant => exact moves_declare fun _ _ _ h => hR.constant h
  | setConstant id x => exact absurd rfl (ha id x)
  | setObjective => exact moves_change fun _ _ h => hR.objective h
  | restore => exact moves_restore hR _
  | restoreVariables => exact moves_restoreVariables hR.toCoversGroups _
  | restoreConstraints => exact moves_restoreConstraints hR.toCoversGroups _
  | restoreConstants => exact moves_restoreConstants hR.toCoversGroups _
  | restoreHeader => exact moves_restoreHeader hR _

end Covers

theorem moves_perform [Unbounded α] (a : Action α) : Moves Change (a.perform : Edit A a.Value) := by
  cases a with
  | setConstant => exact (moves_setConstant _ _).change
  | _ => exact moves_perform_of_ne covers_change nofun

end Edit
end Milp

import Milp.Adapter.Recorder
import Milp.Proofs.Drafts
import Milp.Proofs.Waiting
import Milp.Proofs.Workspaces

/-! Sketches: programs that make expressions only by the operations on expressions, out of those that
they have or find declared. Whatever such programs do to several models side by side, no term of one
model gets into another. -/
namespace Milp

variable {α η κ ω : Type}

/-- The expressions that are at hand, by name, and what else programs share. -/
structure Desk (α ω : Type) where
  expressions : Table (Expression α) := .empty
  state : ω

/-- Where nothing was put there is an empty expression. -/
def Desk.expression (d : Desk α ω) (name : String) : Expression α :=
  (d.expressions.find? name).getD ⟨⟨0⟩, []⟩

def Desk.put (d : Desk α ω) (name : String) (e : Expression α) : Desk α ω :=
  { d with expressions := d.expressions.insert name e }

/-- How an expression is made. Variables may be of any model, registered or not. -/
inductive Formula (α : Type)
  | new (owner : Token)
  | copy (name : String)
  | addConstant (name : String) (c : α)
  | addTerm (name : String) (t : Term α)
  | addScaled (name : String) (c : α) (v : Variable α)
  | addVariable (name : String) (v : Variable α)
  | add (name other : String)
  | scale (name : String) (s : α)
  | reduce (name : String)
  | left (constraint : String)
  | right (constraint : String)
  | objective
  | stored (s : Stored.Expression α)

def Formula.make [Scalar α] {A : Adapter α η κ} (f : Formula α) (m : Model A) (d : Desk α ω) :
    Except (ModelError α) (Expression α) :=
  match f with
  | .new owner => .ok ⟨owner, []⟩
  | .copy name => .ok (d.expression name)
  | .addConstant name c => .ok ((d.expression name).addConstant c)
  | .addTerm name t => (d.expression name).addTerm t
  | .addScaled name c v => (d.expression name).addScaled c v
  | .addVariable name v => (d.expression name).addVariable v
  | .add name other => (d.expression name).add (d.expression other)
  | .scale name s => .ok ((d.expression name).scale s)
  | .reduce name => .ok (d.expression name).reduce
  | .left constraint => do return (← m.constraints.entity constraint).left
  | .right constraint => do return (← m.constraints.entity constraint).right
  | .objective => do return (← m.getObjective).expression
  | .stored s => m.restoreExpression s

/-- A program whose expressions are on the desk: it may look at all of them, but what it hands over
goes by a name. -/
inductive Sketch (A : Adapter α η κ) (ω : Type) : Purpose → Type
  | finish (r : Except (ModelError α) Unit) : Sketch A ω .group
  /-- Ends with an expression for the objective. -/
  | hand (r : Except (ModelError α) String) : Sketch A ω .objective
  | read {p : Purpose} (next : Model A → Sketch A ω p) : Sketch A ω p
  | share {p : Purpose} (f : ω → ω) (next : Desk α ω → Sketch A ω p) : Sketch A ω p
  | note {p : Purpose} (events : List (Event α)) (next : Sketch A ω p) : Sketch A ω p
  /-- Puts an expression on the desk, if it can be made. -/
  | draft {p : Purpose} (name : String) (f : Formula α)
      (next : Except (ModelError α) (Expression α) → Sketch A ω p) : Sketch A ω p
  | act {p : Purpose} (a : Action α) (h : a.Formless)
      (next : Except (ModelError α) a.Value → Sketch A ω p) : Sketch A ω p
  | addConstraint {p : Purpose} (id left : String) (comparison : Comparison) (right : String)
      (group : Group .constraint) (next : Except (ModelError α) (Constraint α) → Sketch A ω p) :
      Sketch A ω p
  | setObjective {p : Purpose} (name : String) (direction : Direction)
      (next : Except (ModelError α) Unit → Sketch A ω p) : Sketch A ω p
  | spawn {p : Purpose} (k : Kind) (id description : String)
      (generator : Option Naming.Namer) (sketch : Group k → Sketch A ω .group)
      (next : Except (ModelError α) (Group k) → Sketch A ω p) : Sketch A ω p
  | attach {p : Purpose} (direction : Direction) (sketch : Sketch A ω .objective)
      (next : Except (ModelError α) Unit → Sketch A ω p) : Sketch A ω p

/-- What the sketch is as a program. -/
def Sketch.program [Scalar α] {A : Adapter α η κ} :
    {p : Purpose} → Sketch A ω p → Program A (Desk α ω) p
  | _, .finish r => .finish r
  | _, .hand r => .share id fun d => .finish (r.map d.expression)
  | _, .read next => .read fun m => (next m).program
  | _, .share f next => .share (fun d => { d with state := f d.state }) fun d => (next d).program
  | _, .note events next => .note events next.program
  | _, .draft name f next => .read fun m => .share
    (fun d => ((f.make m d).map (d.put name)).toOption.getD d) fun d => (next (f.make m d)).program
  | _, .act a _ next => .act a fun r => (next r).program
  | _, .addConstraint id left comparison right group next => .share (fun d => d) fun d =>
    .act (.addConstraint id (d.expression left) comparison (d.expression right) group) fun r =>
      (next r).program
  | _, .setObjective name direction next => .share (fun d => d) fun d =>
    .act (.setObjective (d.expression name) direction) fun r => (next r).program
  | _, .spawn k id description generator sketch next =>
    .spawn k id description generator (fun g => (sketch g).program) fun r => (next r).program
  | _, .attach direction sketch next => .attach direction sketch.program fun r => (next r).program

def Program.Sketched [Scalar α] {A : Adapter α η κ} {p : Purpose} (P : Program A (Desk α ω) p) :
    Prop := ∃ S : Sketch A ω p, P = S.program

/-- Every expression on the desk is homogeneous. -/
def Desk.Homogeneous (d : Desk α ω) : Prop := ∀ name, (d.expression name).Homogeneous

theorem Desk.homogeneous_empty (state : ω) : ({ state } : Desk α ω).Homogeneous :=
  fun _ => Expression.homogeneous_empty _

theorem Desk.Homogeneous.put {d : Desk α ω} (h : d.Homogeneous) (name : String)
    {e : Expression α} (he : e.Homogeneous) : (d.put name e).Homogeneous := by
  intro name'
  unfold Desk.expression Desk.put
  rw [Table.find?_insert]
  split
  · exact he
  · exact h name'

theorem Model.getObjective_eq_ok {A : Adapter α η κ} {m : Model A} {o : Objective α} :
    m.getObjective = .ok o ↔ m.objective = some o := by
  unfold getObjective
  split <;> simp_all

section Sketched

variable [Unbounded α] {A : Adapter α η κ} {m : Model A} {d : Desk α ω}

/-- Whatever the operations make of homogeneous expressions is homogeneous. -/
theorem Formula.homogeneous_make {f : Formula α} {e : Expression α} (hm : m.Homogeneous)
    (hd : d.Homogeneous) (h : f.make m d = .ok e) : e.Homogeneous := by
  cases f with
  | new owner =>
    cases h
    exact Expression.homogeneous_empty owner
  | copy name =>
    cases h
    exact hd name
  | addConstant name c =>
    cases h
    exact (hd name).addConstant c
  | addTerm name t => exact (hd name).addTerm h
  | addScaled name c v => exact (hd name).addTerm (t := .ofVariable c v) h
  | addVariable name v => exact (hd name).addTerm (t := .ofVariable Scalar.one v) h
  | add name other => exact (hd name).add (hd other) h
  | scale name s =>
    cases h
    exact (hd name).scale s
  | reduce name =>
    cases h
    exact (hd name).reduce
  | left constraint =>
    obtain ⟨c, hc, h⟩ := bind_eq_ok.mp h
    obtain ⟨p, hp, rfl⟩ := Registry.entity_eq_ok.mp hc
    cases h
    exact (hm.sides _ p hp).1
  | right constraint =>
    obtain ⟨c, hc, h⟩ := bind_eq_ok.mp h
    obtain ⟨p, hp, rfl⟩ := Registry.entity_eq_ok.mp hc
    cases h
    exact (hm.sides _ p hp).2
  | objective =>
    obtain ⟨o, ho, h⟩ := bind_eq_ok.mp h
    cases h
    exact hm.objective o (Model.getObjective_eq_ok.mp ho)
  | stored s => exact Model.homogeneous_restoreExpression h

/-- The model and the desk are homogeneous. -/
def Tidy (m : Model A) (d : Desk α ω) : Prop := m.Homogeneous ∧ d.Homogeneous

open Run (Orderly)

/-- What a program hands over at its end. -/
def Purpose.Value.Homogeneous : {p : Purpose} → p.Value α → Prop
  | .group, _ => True
  | .objective, e => Expression.Homogeneous e

theorem Edit.Keeps.orderly {β : Type} {e : Edit A β} (he : e.Even) {s : Run A (Desk α ω)}
    (hs : s.Orderly Program.Sketched Tidy) :
    (Run.edit e s).2.Orderly Program.Sketched Tidy :=
  ⟨hs.agenda, Triple.after he (s := (s.model, s.journal)) hs.state.1, hs.state.2⟩

/-- A sketch leaves everything homogeneous, and hands over nothing else. -/
theorem Sketch.orderly_run {p : Purpose} (S : Sketch A ω p) {s : Run A (Desk α ω)}
    (hs : s.Orderly Program.Sketched Tidy) :
    (S.program.run s).2.Orderly Program.Sketched Tidy ∧
      ∀ v, (S.program.run s).1 = .ok v → Purpose.Value.Homogeneous v := by
  induction S generalizing s with
  | finish r => exact ⟨hs, fun _ _ => trivial⟩
  | hand r =>
    refine ⟨hs, fun v hv => ?_⟩
    have hv : r.map s.world.expression = .ok v := hv
    cases r with
    | error e => cases hv
    | ok name =>
      cases hv
      exact hs.state.2 name
  | read next ih => exact ih _ hs
  | share f next ih => exact ih _ ⟨hs.agenda, hs.state.1, hs.state.2⟩
  | note events next ih => exact ih (hs.record events)
  | draft name f next ih =>
    refine ih _ ⟨hs.agenda, hs.state.1, ?_⟩
    change Desk.Homogeneous (((f.make s.model s.world).map (s.world.put name)).toOption.getD s.world)
    cases he : f.make s.model s.world with
    | error x => exact hs.state.2
    | ok e => exact hs.state.2.put name (f.homogeneous_make hs.state.1 hs.state.2 he)
  | act a h next ih => exact ih _ ((Edit.even_perform h).orderly hs)
  | addConstraint id left comparison right group next ih =>
    have hd := hs.state.2
    exact ih _ ((Edit.even_addConstraint (hd left) (hd right) _ _ _).orderly hs)
  | setObjective name direction next ih =>
    exact ih _ ((Edit.even_setObjective (hs.state.2 name) _).orderly hs)
  | spawn k id description generator sketch next _ ih =>
    have hg := (Edit.even_createGroup k id description generator).orderly hs
    simp only [Sketch.program, Program.run]
    split
    next g t ht =>
      rw [ht] at hg
      exact ih _ ⟨hg.agenda.insert k id ⟨sketch g, rfl⟩, hg.state⟩
    next e t ht =>
      rw [ht] at hg
      exact ih _ hg
  | attach direction sketch next _ ih =>
    simp only [Sketch.program, Program.run]
    split
    · exact ih _ ⟨hs.agenda.attach direction ⟨sketch, rfl⟩, hs.state⟩
    · exact ih _ hs

theorem discipline_sketched :
    Run.Discipline (ω := Desk α ω) (A := A) Program.Sketched Tidy Expression.Homogeneous where
  run := by
    rintro p P ⟨S, rfl⟩ s hs
    exact (S.orderly_run hs).1
  built := by
    rintro P ⟨S, rfl⟩ s e hs he
    exact (S.orderly_run hs).2 e he
  objective m m' w e direction h he hm := ⟨h.1.setObjective he hm, h.2⟩
  plain m w adapter columns lines stage h := ⟨h.1.of_eq rfl rfl rfl, h.2⟩

end Sketched

end Milp

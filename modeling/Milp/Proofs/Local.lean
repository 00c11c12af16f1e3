import Milp.Proofs.Change
import Milp.Solving

/-! Steps that work on the model and the journal only: whatever programs wait, and whatever these
share, such a step does the same. -/
namespace Milp.Run

variable {α β γ η κ : Type} {A : Adapter α η κ}

/-- One edit is the step in every run. -/
def Local (x : ∀ ω, Step A ω β) : Prop := ∃ e : Edit A β, ∀ ω, x ω = Run.edit e

theorem edit_bind (ω : Type) (e : Edit A β) (f : β → Edit A γ) :
    (Run.edit (e >>= f) : Step A ω γ) = Run.edit e >>= fun b => Run.edit (f b) := by
  funext s
  rw [bind_apply (Run.edit e)]
  unfold Run.edit
  simp only [bind_apply]
  match e (s.model, s.journal) with
  | (.ok b, t) => rfl
  | (.error x, t) => rfl

theorem local_edit (e : Edit A β) : Local fun _ => Run.edit e := ⟨e, fun _ => rfl⟩

theorem local_pure (b : β) : Local (A := A) fun _ => pure b := ⟨pure b, fun _ => rfl⟩

theorem local_throw (e : ModelError α) : Local (A := A) (β := β) fun _ => throw e :=
  ⟨throw e, fun _ => rfl⟩

theorem Local.bind {x : ∀ ω, Step A ω β} {f : ∀ ω, β → Step A ω γ} (h : Local x)
    (hf : ∀ b, Local fun ω => f ω b) : Local fun ω => x ω >>= f ω := by
  obtain ⟨e, he⟩ := h
  choose g hg using hf
  refine ⟨e >>= g, fun ω => ?_⟩
  have hf : f ω = fun b => Run.edit (g b) := funext fun b => hg b ω
  rw [edit_bind, ← he ω, ← hf]

/-- Of the run, only the model is looked at. -/
theorem local_get {f : Model A → ∀ ω, Step A ω β} (h : ∀ m, Local (f m)) :
    Local fun ω => get >>= fun s => f s.model ω := by
  choose g hg using h
  refine ⟨Edit.model >>= g, fun ω => ?_⟩
  rw [edit_bind]
  funext s
  exact congrFun (hg s.model ω) s

theorem local_forM {l : List γ} {f : ∀ ω, γ → Step A ω Unit} (h : ∀ c, Local fun ω => f ω c) :
    Local fun ω => l.forM (f ω) := by
  induction l with
  | nil => exact local_pure ()
  | cons c rest ih => exact (h c).bind fun _ => ih

theorem local_log (events : List (Event α)) : Local (A := A) fun _ => Run.log events :=
  local_edit (Edit.record events)

theorem local_modifyModel (f : Model A → Model A) : Local fun _ => Run.modifyModel f :=
  ⟨modify fun s => (f s.1, s.2), fun _ => rfl⟩

theorem local_setStage (stage : Stage) : Local (A := A) fun _ => Run.setStage stage :=
  local_modifyModel _

theorem local_enter (phase : Phase) : Local (A := A) fun _ => Run.enter phase :=
  (local_setStage _).bind fun _ => local_log _

theorem local_attempt (h : Hook A.State β) : Local fun _ => Run.attempt h :=
  ⟨fun s => (.ok (h s.1.adapter).1, { s.1 with adapter := (h s.1.adapter).2 }, s.2), fun _ => rfl⟩

theorem local_call (occasion : Occasion) (h : Hook A.State β) : Local fun _ => Run.call occasion h :=
  (local_attempt h).bind fun r => by
    cases r with
    | ok b => exact local_pure b
    | error e => exact local_throw _

theorem local_initModel : Local (A := A) fun _ => Run.initModel :=
  (local_enter .model).bind fun _ =>
    local_get (f := fun m _ => Run.call (.phase .model) (A.initModel m.identifier)) fun _ =>
      local_call _ _

theorem local_initVariables : Local (A := A) fun _ => Run.initVariables := by
  have hcolumn (e : String × Placed (Variable α)) : Local fun _ => (do
      let column ← Run.call (.phase .vars) (A.initVariable e.2.entity)
      Run.modifyModel fun m => { m with columns := m.columns.insert e.1 column }) :=
    (local_call _ _).bind fun _ => local_modifyModel _
  have hlog : Local (A := A) fun _ => (do
      Run.log [.variablesMaterialized (← get).model.columns.size]) :=
    local_get (f := fun m _ => Run.log [.variablesMaterialized m.columns.size]) fun _ => local_log _
  have hloop (m : Model A) := (local_forM (l := m.vars.entities.entries) hcolumn).bind fun _ => hlog
  exact (local_enter .vars).bind fun _ => local_get hloop

variable [Scalar α]

theorem local_ensureSound : Local (A := A) fun _ => Run.ensureSound := by
  have hcheck (m : Model A) : Local (A := A) fun _ => (do
      unless m.issues.isEmpty do
        Run.log (m.issues.map .issueFound)
        throw (.invalid m.issues)) := by
    cases m.issues.isEmpty with
    | true => exact local_pure ()
    | false => exact (local_log _).bind fun _ => local_throw _
  exact local_get hcheck

theorem local_initConstraints : Local (A := A) fun _ => Run.initConstraints := by
  have hcall (e : String × Placed (Constraint α)) (m : Model A) : Local fun _ => (do
      let line ← Run.call (.phase .constraints)
        (A.initConstraint e.2.entity e.2.entity.row m.columns)
      Run.modifyModel fun m => { m with lines := m.lines.insert e.1 line }) :=
    (local_call _ _).bind fun _ => local_modifyModel _
  have hlog : Local (A := A) fun _ => (do
      Run.log [.constraintsMaterialized (← get).model.lines.size]) :=
    local_get (f := fun m _ => Run.log [.constraintsMaterialized m.lines.size]) fun _ => local_log _
  have hloop (m : Model A) :=
    (local_forM (l := m.constraints.entities.entries) fun e => local_get (hcall e)).bind fun _ => hlog
  exact (local_enter .constraints).bind fun _ => local_get hloop

omit [Scalar α] in
theorem local_handObjective : Local (A := A) fun _ => Run.handObjective := by
  have hcall (m : Model A) : Local fun _ => m.objective.elim (Run.log [.objectiveMissing]) fun o =>
      Run.call (.phase .objective) (A.initObjective o m.columns) := by
    cases m.objective with
    | some o => exact local_call _ _
    | none => exact local_log _
  have helim (ω : Type) : (Run.handObjective : Step A ω Unit) = get >>= fun s =>
      s.model.objective.elim (Run.log [.objectiveMissing]) fun o =>
        Run.call (.phase .objective) (A.initObjective o s.model.columns) := by
    refine congrArg (get >>= ·) (funext fun s => ?_)
    dsimp only
    cases s.model.objective <;> rfl
  rw [funext helim]
  exact local_get hcall

omit [Scalar α] in
theorem local_initFailed (e : ModelError α) : Local (A := A) fun _ => (do
    Run.log [.initFailed (← get).model.stage e]
    Run.setStage .failed
    throw e : Step A _ Unit) := by
  have hfail (m : Model A) : Local (A := A) fun _ => (do
      Run.log [.initFailed m.stage e]
      Run.setStage .failed
      throw e : Step A _ Unit) :=
    (local_log _).bind fun _ => (local_setStage _).bind fun _ => local_throw e
  exact local_get hfail

omit [Scalar α] in
theorem local_initFinished : Local (A := A) fun _ => (do
    Run.setStage .initialized
    let m := (← get).model
    Run.log [.initFinished m.columns.size m.lines.size] : Step A _ Unit) :=
  (local_setStage _).bind fun _ =>
    local_get (f := fun m _ => Run.log [.initFinished m.columns.size m.lines.size]) fun _ =>
      local_log _

omit [Scalar α] in
theorem Local.guard {x : ∀ ω, Step A ω β} (h : Local x) {c : Prop} [Decidable c]
    {e : ModelError α} : Local fun ω => if c then throw e >>= fun _ : PUnit => x ω else x ω := by
  by_cases hc : c
  · simpa only [if_pos hc] using (local_throw e).bind fun _ => h
  · simpa only [if_neg hc] using h

omit [Scalar α] in
theorem local_compute : Local (A := A) fun _ => Run.compute := by
  obtain ⟨answer, hanswer, hsolve⟩ : ∃ answer : ∀ ω, Except AdapterError (Solution α × List (Event α)) →
      Step A ω Status, (∀ r, Local fun ω => answer ω r) ∧ ∀ ω, Run.solve = (do
        Run.log [.computeStarted]
        Run.modifyModel Run.clearSolution
        answer ω (← Run.attempt (A.compute (← get).model.columns))) := by
    refine ⟨_, fun r => ?_, fun _ => rfl⟩
    cases r with
    | error e =>
      exact (local_setStage _).bind fun _ => (local_log _).bind fun _ => local_throw _
    | ok r =>
      exact (local_modifyModel _).bind fun _ => (local_log _).bind fun _ => local_pure _
  have hsolve : Local (A := A) fun _ => Run.solve := by
    rw [funext hsolve]
    exact (local_log _).bind fun _ => (local_modifyModel _).bind fun _ =>
      local_get fun m => (local_attempt (A.compute m.columns)).bind hanswer
  have hguard (m : Model A) := hsolve.guard (c := m.stage ≠ .initialized ∧ m.stage ≠ .solved)
    (e := .lifecycle (.cannotCompute m.stage))
  exact local_get hguard

omit [Scalar α] in
theorem local_extract : Local (A := A) fun _ => Run.extract := by
  have hresult (e : String × α) : Local (A := A) fun _ => Run.takeResult e.1 e.2 := by
    have hknown (m : Model A) : Local (A := A) fun _ => (do
        if m.vars.contains e.1 then
          Run.modifyModel fun m =>
            { m with vars := m.vars.modify e.1 ({ · with result := some e.2 }) }
        else Run.log [.unknownVariable e.1] : Step A _ Unit) := by
      by_cases hc : m.vars.contains e.1 = true
      · simpa only [if_pos hc] using local_modifyModel _
      · simpa only [if_neg hc] using local_log _
    exact local_get hknown
  have hvalues (m : Model A) := (local_call .extract (A.extract m.columns)).bind fun values =>
    (local_forM (l := values.entries) hresult).bind fun _ =>
      local_log (A := A) [.resultsExtracted values.size]
  have hguard (m : Model A) := (local_get hvalues).guard (c := m.stage ≠ .solved)
    (e := .lifecycle (.cannotExtract m.stage))
  exact local_get hguard

end Milp.Run

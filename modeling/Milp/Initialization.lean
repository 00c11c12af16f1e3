import Milp.Run

/-! Handing a model to its adapter: seven phases, in which the programs of the groups run. -/
namespace Milp

namespace Program

variable {α η κ ω : Type} {A : Adapter α η κ} [Unbounded α]

/-- Runs the programs of some groups in turn, up to the first that fails. Each was made for its group when
that was created, and groups are never removed, so none is looked up and none is missing. -/
def runAll (phase : Phase) : List (String × Program A ω .group) → Step A ω Unit
  | [], s => (.ok (), s)
  | (group, P) :: rest, s =>
    match P.run (s.record [.initializerStarted phase group]) with
    | (.ok _, s) => runAll phase rest s
    | (.error e, s) => (.error e, s.record [.initializerFailed phase group e])

/-- What a round leaves on the agenda was there before it, or left behind by a program of the round. -/
theorem mem_programs_runAll (phase : Phase) (k : Kind) (ps : List (String × Program A ω .group))
    (s : Run A ω) : ∀ Q ∈ ((runAll phase ps s).2.agenda.programs k).values,
      Q ∈ (s.agenda.programs k).values ∨ ∃ P ∈ ps.map (·.2), Spawns P Q := by
  induction ps generalizing s with
  | nil => intro Q h; exact .inl h
  | cons p rest ih =>
    obtain ⟨group, P⟩ := p
    intro Q h
    have hr := mem_programs_run P k (s.record [.initializerStarted phase group]) Q
    simp only [runAll] at h
    split at h
    next s' hs =>
      rw [hs] at hr
      rcases ih _ Q h with h | ⟨P', hP', h⟩
      · exact (hr h).imp id fun h => ⟨P, by simp, h⟩
      · exact .inr ⟨P', by simp [hP'], h⟩
    next e s' hs =>
      rw [hs] at hr
      exact (hr h).imp id fun h => ⟨P, by simp, h⟩

/-- Runs the programs of a kind in rounds: those that wait, then those that they left behind, and so
on. In the end, or at the first failure, all programs are on the agenda again. -/
def rounds (phase : Phase) (k : Kind) (done : List (String × Program A ω .group)) (s : Run A ω) :
    Except (ModelError α) Unit × Run A ω :=
  let pending := s.agenda.programs k
  if pending.isEmpty then (.ok (), s.withPrograms k (pending.insertAll done))
  else
    let done := done ++ pending.entries
    match _h : runAll phase pending.entries (s.withPrograms k .empty) with
    | (.ok (), t) => rounds phase k done t
    | (.error e, t) => (.error e, t.withPrograms k ((t.agenda.programs k).insertAll done))
termination_by (s.agenda.programs k).values
decreasing_by
  rename_i hne
  refine ⟨fun he => hne ?_, fun Q hQ => ?_⟩
  · simpa [Table.isEmpty, Table.values] using he
  · have := mem_programs_runAll phase k pending.entries (s.withPrograms k .empty) Q
    rw [_h] at this
    rcases this hQ with hQ | hQ
    · simp [Run.withPrograms, Table.values, Table.empty] at hQ
    · exact hQ

end Program

namespace Run

variable {α η κ ω β : Type} {A : Adapter α η κ}

def log (events : List (Event α)) : Step A ω Unit := modify (·.record events)

/-- Calls a hook of the adapter, which may refuse. -/
def attempt (h : Hook A.State β) : Step A ω (Except AdapterError β) := fun s =>
  let r := h s.model.adapter
  (.ok r.1, { s with model := { s.model with adapter := r.2 } })

/-- Calls a hook of the adapter; its refusal is an error. -/
def call (occasion : Occasion) (h : Hook A.State β) : Step A ω β := do
  match ← attempt h with
  | .ok b => return b
  | .error e => throw (.adapter occasion e)

def modifyModel (f : Model A → Model A) : Step A ω Unit := modify fun s => { s with model := f s.model }

def setStage (stage : Stage) : Step A ω Unit := modifyModel ({ · with stage })

def enter (phase : Phase) : Step A ω Unit := do
  setStage (.initializing phase)
  log [.phaseEntered phase]

/-- Stops if the model has issues, and reports each of them. -/
def ensureSound [Scalar α] : Step A ω Unit := do
  let issues := (← get).model.issues
  unless issues.isEmpty do
    log (issues.map .issueFound)
    throw (.invalid issues)

def initModel : Step A ω Unit := do
  enter .model
  call (.phase .model) (A.initModel (← get).model.identifier)

def runGroups [Unbounded α] (phase : Phase) (k : Kind) : Step A ω Unit := do
  enter phase
  Program.rounds phase k []

/-- Gives each variable a column, in ascending order. -/
def initVariables : Step A ω Unit := do
  enter .vars
  (← get).model.vars.entities.entries.forM fun e => do
    let column ← call (.phase .vars) (A.initVariable e.2.entity)
    modifyModel fun m => { m with columns := m.columns.insert e.1 column }
  log [.variablesMaterialized (← get).model.columns.size]

/-- Gives each constraint a row, in ascending order. -/
def initConstraints [Scalar α] : Step A ω Unit := do
  enter .constraints
  (← get).model.constraints.entities.entries.forM fun e => do
    let c := e.2.entity
    let line ← call (.phase .constraints) (A.initConstraint c c.row (← get).model.columns)
    modifyModel fun m => { m with lines := m.lines.insert e.1 line }
  log [.constraintsMaterialized (← get).model.lines.size]

/-- Builds the objective, if a program is attached for it. -/
def buildObjective [Unbounded α] : Step A ω Unit := do
  match (← get).agenda.objective with
  | some (direction, program) =>
    let e ← program.run
    edit (Edit.setObjective e direction)
  | none => pure ()

/-- Hands over what objective there is. -/
def handObjective : Step A ω Unit := do
  let m := (← get).model
  match m.objective with
  | some o => call (.phase .objective) (A.initObjective o m.columns)
  | none => log [.objectiveMissing]

def initObjective [Unbounded α] : Step A ω Unit := do
  enter .objective
  buildObjective
  handObjective

/-- The seven phases. The model is looked at again once the constraint groups are filled. -/
def phases [Unbounded α] : Step A ω Unit := do
  initModel
  runGroups .constantGroups .constant
  runGroups .variableGroups .var
  initVariables
  runGroups .constraintGroups .constraint
  ensureSound
  initConstraints
  initObjective

/-- Hands a sound model to its adapter. An unsound one stays as it is; any later failure is final. -/
def handOver [Unbounded α] : Step A ω Unit := do
  ensureSound
  log [.initStarted (← get).model.adapterName]
  tryCatch phases fun e => do
    log [.initFailed (← get).model.stage e]
    setStage .failed
    throw e
  setStage .initialized
  let m := (← get).model
  log [.initFinished m.columns.size m.lines.size]

/-- Initializes a model that is still being declared. -/
def init [Unbounded α] : Step A ω Unit := do
  let stage := (← get).model.stage
  if stage ≠ .declaring then throw (.lifecycle (.cannotInit stage))
  handOver

end Run
end Milp

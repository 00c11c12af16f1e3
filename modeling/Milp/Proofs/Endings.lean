import Milp.Proofs.Idle
import Milp.Proofs.Scheduled

/-! How initialization ends: it is refused and nothing happened, or the model is initialized, or it failed. -/
namespace Milp

variable {α η κ ω : Type} {A : Adapter α η κ}

/-- The model with its adapter observed from now on. -/
def Model.observed (m : Model A) : Model A.observed where
  identifier := m.identifier
  token := m.token
  adapter := (m.adapter, [])
  variableFactory := m.variableFactory
  constraintFactory := m.constraintFactory
  vars := m.vars
  constraints := m.constraints
  constants := m.constants
  objective := m.objective
  solution := m.solution
  columns := m.columns
  lines := m.lines
  stage := m.stage

namespace Run

/-- The run with its adapter observed from now on, -/
def observed (s : Run A ω) : Run A.observed ω where
  model := s.model.observed
  agenda := s.agenda.observed
  world := s.world
  journal := s.journal

theorem observes_observed (s : Run A ω) : s.observed.Observes s := ⟨rfl, rfl, rfl, rfl⟩

/-- and with a diary of its programs as well. -/
def recorded (s : Run A ω) : Run A.observed (ω × Diary A.observed ω) where
  model := s.model.observed
  agenda := logging.agenda s.agenda.observed
  world := (s.world, [])
  journal := s.journal

theorem follows_recorded (s : Run A ω) : logging.Follows s.recorded s.observed := ⟨rfl, rfl, rfl, rfl⟩

variable [Unbounded α]

/-- What is recorded is the initialization itself. -/
theorem init_recorded (s : Run A ω) : (Run.init s.recorded).1 = (Run.init s).1 ∧
    (Run.init s.recorded).2.model.unobserved = (Run.init s).2.model := by
  obtain ⟨hsame, hobserves⟩ := same_init s.observed s s.observes_observed
  obtain ⟨hagrees, hfollows⟩ := faithful_logging.init s.recorded s.observed s.follows_recorded
  refine ⟨hagrees.trans hsame, ?_⟩
  rw [hfollows.model]
  exact hobserves.model

/-- A sound model is initialized in the end, or it failed. -/
theorem init_sound {s : Run A ω} (hs : s.model.stage = .declaring) (hi : s.model.issues = []) :
    (Run.init s).1 = .ok () ∧ (Run.init s).2.model.stage = .initialized ∨
      ∃ e, (Run.init s).1 = .error e ∧ (Run.init s).2.model.stage = .failed := by
  have hsound : Triple (fun t : Run A ω => t.model.issues = []) ensureSound (fun _ _ => True)
      fun _ t => t.model.stage = .failed := by
    intro t ht
    rw [ensureSound_apply (List.isEmpty_iff.mpr ht)]
    trivial
  have hends := handOver_ends hsound (fun _ => id) s hi
  rw [init_apply hs]
  revert hends
  match handOver s with
  | (.ok (), t) => exact fun ht => .inl ⟨rfl, ht⟩
  | (.error e, t) => exact fun ht => .inr ⟨e, rfl, ht⟩

/-- Initialization of a model that is past declaring is refused and changes nothing. If the model has issues,
it is refused for them, and all it does is to report them: the adapter was asked nothing, and no program began.
Otherwise the model is initialized in the end, or there is an error and the model failed. -/
theorem init_outcome (s : Run A ω) :
    ((Run.init s.recorded).1 = (Run.init s).1 ∧
      (Run.init s.recorded).2.model.unobserved = (Run.init s).2.model) ∧
    (s.model.stage ≠ .declaring ∧ Run.init s = (.error (.lifecycle (.cannotInit s.model.stage)), s) ∨
      s.model.stage = .declaring ∧ s.model.issues ≠ [] ∧
        Run.init s = (.error (.invalid s.model.issues), s.record (s.model.issues.map .issueFound)) ∧
        (Run.init s.recorded).2.model.exchanges = [] ∧ (Run.init s.recorded).2.diary = [] ∨
      s.model.stage = .declaring ∧ s.model.issues = [] ∧
        ((Run.init s).1 = .ok () ∧ (Run.init s).2.model.stage = .initialized ∨
          ∃ e, (Run.init s).1 = .error e ∧ (Run.init s).2.model.stage = .failed)) := by
  refine ⟨init_recorded s, ?_⟩
  by_cases hs : s.model.stage = .declaring
  · by_cases hi : s.model.issues = []
    · exact .inr (.inr ⟨hs, hi, init_sound hs hi⟩)
    · have hissues : s.model.issues.isEmpty = false := by simpa using hi
      have hrecorded := init_unsound (s := s.recorded) hs hissues
      refine .inr (.inl ⟨hs, hi, init_unsound hs hissues, ?_, ?_⟩)
      · rw [hrecorded]
        rfl
      · rw [hrecorded]
        rfl
  · exact .inl ⟨hs, init_closed hs⟩

end Run
end Milp

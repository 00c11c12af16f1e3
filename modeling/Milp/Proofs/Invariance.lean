import Milp.Proofs.Lifecycle

/-! What initialization leaves alone, and single steps to which everything in the life of a model
comes down. -/
namespace Milp

open Relation

variable {α β γ η κ ω : Type} {A : Adapter α η κ}

namespace Run

variable {I : Run A ω → Prop}

/-- The step leaves the run with a property that it had. -/
def Preserves (I : Run A ω → Prop) (x : Step A ω β) : Prop := Triple I x (fun _ => I) fun _ => I

theorem preserves_bind {x : Step A ω β} {f : β → Step A ω γ} (h : Preserves I x)
    (hf : ∀ b, Preserves I (f b)) : Preserves I (x >>= f) := Triple.bind h hf

theorem preserves_get {f : Run A ω → Step A ω β} (h : ∀ s, Preserves I (f s)) :
    Preserves I (get >>= f) :=
  Triple.get_bind fun s hs => (h s).from_state hs

theorem preserves_pure (b : β) : Preserves I (pure b : Step A ω β) := Triple.pure fun _ h => h

theorem preserves_throw (e : ModelError α) : Preserves I (throw e : Step A ω β) :=
  Triple.throw fun _ h => h

theorem preserves_forM {l : List γ} {f : γ → Step A ω Unit} (h : ∀ c, Preserves I (f c)) :
    Preserves I (l.forM f) :=
  Triple.forM (fun _ => I) fun _ c _ _ => h c

theorem preserves_guard {x : Step A ω β} (h : Preserves I x) {c : Prop} [Decidable c]
    {e : ModelError α} : Preserves I (if c then throw e >>= fun _ : PUnit => x else x) :=
  Triple.guard (fun _ _ h => h) fun _ => h

theorem preserves_modifyModel {f : Model A → Model A}
    (hf : ∀ s, I s → I { s with model := f s.model }) :
    Preserves I (modifyModel f : Step A ω Unit) := hf

theorem preserves_attempt {q : Request α η}
    (hq : ∀ s, I s → I (s.withAdapter (A.answer q s.model.adapter).2)) :
    Preserves I (attempt (A.answer q) : Step A ω _) := hq

theorem preserves_call (occasion : Occasion) {q : Request α η}
    (hq : ∀ s, I s → I (s.withAdapter (A.answer q s.model.adapter).2)) :
    Preserves I (call occasion (A.answer q) : Step A ω _) :=
  preserves_bind (preserves_attempt hq) fun r => by
    cases r with
    | ok b => exact preserves_pure b
    | error e => exact preserves_throw _

variable [Unbounded α]

/-- A property that every part of initialization leaves alone. -/
structure Enduring (I : Run A ω → Prop) : Prop where
  log : ∀ s events, I s → I (s.record events)
  stage : ∀ s stage, I s → I { s with model := { s.model with stage } }
  answer : ∀ s q, ¬q.IsSolving → I s → I (s.withAdapter (A.answer q s.model.adapter).2)
  column : ∀ s id handle, I s →
    I { s with model := { s.model with columns := s.model.columns.insert id handle } }
  line : ∀ s id handle, I s →
    I { s with model := { s.model with lines := s.model.lines.insert id handle } }
  rounds : ∀ phase k, Preserves I (Program.rounds phase k [] : Step A ω Unit)
  objective : Preserves I (buildObjective : Step A ω Unit)

namespace Enduring

variable (h : Enduring I)
include h

theorem keepsLog (events : List (Event α)) : Preserves I (Run.log events : Step A ω Unit) :=
  fun s hs => h.log s events hs

theorem setStage (stage : Stage) : Preserves I (Run.setStage stage : Step A ω Unit) :=
  preserves_modifyModel fun s hs => h.stage s stage hs

theorem enter (phase : Phase) : Preserves I (Run.enter phase : Step A ω Unit) :=
  preserves_bind (h.setStage _) fun _ => h.keepsLog _

theorem ensureSound : Preserves I (Run.ensureSound : Step A ω Unit) := by
  refine preserves_get fun s => ?_
  dsimp only
  split
  · exact preserves_pure _
  · exact preserves_bind (h.keepsLog _) fun _ => preserves_throw _

theorem initModel : Preserves I (Run.initModel : Step A ω Unit) :=
  preserves_bind (h.enter _) fun _ => preserves_get fun s =>
    preserves_call _ (h.answer · (.model s.model.identifier) not_false)

theorem runGroups (phase : Phase) (k : Kind) :
    Preserves I (Run.runGroups phase k : Step A ω Unit) :=
  preserves_bind (h.enter phase) fun _ => h.rounds phase k

theorem initVariables : Preserves I (Run.initVariables : Step A ω Unit) := by
  refine preserves_bind (h.enter .vars) fun _ => preserves_get fun s =>
    preserves_bind (preserves_forM fun e => ?_) fun _ => preserves_get fun _ => h.keepsLog _
  exact preserves_bind (preserves_call _ (h.answer · (.var e.2.entity) not_false)) fun column =>
    preserves_modifyModel fun s => h.column s e.1 column

theorem initConstraints : Preserves I (Run.initConstraints : Step A ω Unit) := by
  refine preserves_bind (h.enter .constraints) fun _ => preserves_get fun s =>
    preserves_bind (preserves_forM fun e => preserves_get fun s => ?_) fun _ =>
      preserves_get fun _ => h.keepsLog _
  let q : Request α η := .constraint e.2.entity e.2.entity.row s.model.columns
  exact preserves_bind (preserves_call _ (h.answer · q not_false)) fun line =>
    preserves_modifyModel fun s => h.line s e.1 line

theorem handObjective : Preserves I (Run.handObjective : Step A ω Unit) := by
  refine preserves_get fun s => ?_
  dsimp only
  split
  next o _ => exact preserves_call _ (h.answer · (.objective o s.model.columns) not_false)
  next => exact h.keepsLog _

theorem phases : Preserves I (Run.phases : Step A ω Unit) :=
  preserves_bind h.initModel fun _ => preserves_bind (h.runGroups _ _) fun _ =>
    preserves_bind (h.runGroups _ _) fun _ => preserves_bind h.initVariables fun _ =>
      preserves_bind (h.runGroups _ _) fun _ => preserves_bind h.ensureSound fun _ =>
        preserves_bind h.initConstraints fun _ => preserves_bind (h.enter _) fun _ =>
          preserves_bind h.objective fun _ => h.handObjective

theorem handOver : Preserves I (Run.handOver : Step A ω Unit) := by
  refine preserves_bind h.ensureSound fun _ => preserves_get fun _ =>
    preserves_bind (h.keepsLog _) fun _ =>
      preserves_bind (Triple.tryCatch h.phases fun e => ?_) fun _ =>
        preserves_bind (h.setStage _) fun _ => preserves_get fun _ => h.keepsLog _
  exact preserves_get fun _ => preserves_bind (h.keepsLog _) fun _ =>
    preserves_bind (h.setStage _) fun _ => preserves_throw e

theorem init : Preserves I (Run.init : Step A ω Unit) :=
  preserves_get fun _ => preserves_guard h.handOver

end Enduring

/-- Once the model was found sound, initialization leaves it initialized or failed. -/
theorem handOver_ends {P E : Run A ω → Prop}
    (hsound : Triple P ensureSound (fun _ _ => True) fun _ s => E s)
    (hfailed : ∀ s, s.model.stage = .failed → E s) :
    Triple P handOver (fun _ s => s.model.stage = .initialized) fun _ s => E s := by
  refine hsound.bind fun _ => Triple.get_bind fun s _ => ?_
  have hphases : Triple (fun _ : Run A ω => True) phases (fun _ _ => True) fun _ _ => True := by
    intro t _
    split <;> trivial
  refine Triple.bind (Q := fun _ _ => True) (fun _ _ => trivial) fun _ =>
    Triple.bind (Q := fun _ _ => True) (hphases.tryCatch fun e => ?_) fun _ => ?_
  · intro t _
    exact hfailed _ rfl
  · intro t _
    exact rfl

/-- Initialization that begins leaves a model declaring, if it is not sound, or else initialized or
failed. -/
theorem handOver_stage :
    Triple (fun s : Run A ω => s.model.stage = .declaring) handOver
      (fun _ s => s.model.stage = .initialized)
      (fun _ s => s.model.stage = .declaring ∨ s.model.stage = .failed) := by
  have hsound : Triple (fun s : Run A ω => s.model.stage = .declaring) ensureSound
      (fun _ _ => True) (fun _ s => s.model.stage = .declaring ∨ s.model.stage = .failed) :=
    (ensureSound_triple (J := fun m => m.stage = .declaring)).imp (fun _ h => h)
      (fun _ _ _ => trivial) (fun _ _ h => .inl h)
  exact handOver_ends hsound fun _ => .inr

theorem handOver_not_solved {s : Run A ω} (hs : s.model.stage = .declaring) :
    (handOver s).2.model.stage ≠ .solved := by
  refine Triple.after (I := fun t => t.model.stage ≠ .solved)
    (handOver_stage.imp (fun _ h => h) ?_ ?_) hs
  · intro _ t ht
    simp [ht]
  · rintro _ t (ht | ht) <;> simp [ht]

end Run

/-- One step in the life of a model. -/
inductive Model.Tick : Model A → Model A → Prop
  | change {m m' : Model A} (h : Change m m') : Tick m m'
  | answer (m : Model A) (q : Request α η) : Tick m { m with adapter := (A.answer q m.adapter).2 }
  | stage (m : Model A) (stage : Stage) : Tick m { m with stage }
  | column (m : Model A) (id : String) (handle : η) :
    Tick m { m with columns := m.columns.insert id handle }
  | line (m : Model A) (id : String) (handle : κ) :
    Tick m { m with lines := m.lines.insert id handle }
  | cleared (m : Model A) : Tick m (Run.clearSolution m)
  | solved (m : Model A) (solution : Solution α) : Tick m { m with solution, stage := .solved }
  | result (m : Model A) (id : String) (x : α) : Tick m (m.giveResult id x)

namespace Run

/-- What a solve and a reading keep: to solve is to clear the results, to ask the adapter, and to store the
solution or to fail; to read is to ask the adapter, and to store the results. -/
structure Settling (J : Model A → Prop) : Prop where
  cleared : ∀ m, J m → J (clearSolution m)
  answer : ∀ (m : Model A) (q : Request α η), J m → J { m with adapter := (A.answer q m.adapter).2 }
  solved : ∀ (m : Model A) (solution : Solution α), J m → J { m with solution, stage := .solved }
  failed : ∀ m : Model A, J m → J { m with stage := .failed }
  results : ∀ m values, J m → J (m.withResults values)

namespace Settling

variable {J : Model A → Prop} {s : Run A ω}

theorem compute (h : Settling J) (hs : J s.model) : J (Run.compute s).2.model := by
  have hanswered := h.answer (clearSolution s.model) (.compute s.model.columns) (h.cleared _ hs)
  rcases compute_cases s with ⟨-, ht⟩ |
    ⟨-, ⟨solution, events, state, journal, hr, ht⟩ | ⟨e, state, journal, hr, ht⟩⟩
  · rw [ht]
    exact hs
  · obtain rfl : _ = state := congrArg Prod.snd hr
    rw [ht]
    exact h.solved _ solution hanswered
  · obtain rfl : _ = state := congrArg Prod.snd hr
    rw [ht]
    exact h.failed _ hanswered

theorem extract (h : Settling J) (hs : J s.model) : J (Run.extract s).2.model := by
  have hanswered := h.answer s.model (.extract s.model.columns) hs
  rcases extract_cases s with ⟨-, ht⟩ |
    ⟨-, ⟨values, state, journal, hr, ht⟩ | ⟨e, state, hr, ht⟩⟩
  · rw [ht]
    exact hs
  · obtain rfl : _ = state := congrArg Prod.snd hr
    rw [ht]
    exact h.results _ values hanswered
  · obtain rfl : _ = state := congrArg Prod.snd hr
    rw [ht]
    exact hanswered

end Settling

section Ticks

variable {J : Model A → Prop} (hJ : ∀ m m', Model.Tick m m' → J m → J m')
include hJ

theorem keeps_withResults {m : Model A} (hm : J m) (values : Table α) :
    J (m.withResults values) := by
  have hfold (es : List (String × α)) (m : Model A) (hm : J m) :
      J (es.foldl (fun m e => m.giveResult e.1 e.2) m) := by
    induction es generalizing m with
    | nil => exact hm
    | cons e rest ih => exact ih _ (hJ _ _ (.result m e.1 e.2) hm)
  have := hfold values.entries m hm
  rwa [Model.foldl_giveResult m values.ascending] at this

theorem settling_of_ticks : Settling J where
  cleared m hm := hJ _ _ (.cleared m) hm
  answer m q hm := hJ _ _ (.answer m q) hm
  solved m solution hm := hJ _ _ (.solved m solution) hm
  failed m hm := hJ _ _ (.stage m .failed) hm
  results _ values hm := keeps_withResults hJ hm values

theorem of_changes {m m' : Model A} (h : ReflTransGen Model.Change m m') (hm : J m) : J m' := by
  induction h with
  | refl => exact hm
  | tail _ h ih => exact hJ _ _ (.change h) ih

variable [Unbounded α]

theorem enduring_of_ticks : Enduring (ω := ω) fun s => J s.model where
  log _ _ hs := hs
  stage s stage := hJ _ _ (.stage s.model stage)
  answer s q _ := hJ _ _ (.answer s.model q)
  column s id handle := hJ _ _ (.column s.model id handle)
  line s id handle := hJ _ _ (.line s.model id handle)
  rounds phase k := Triple.of_after fun s hs =>
    of_changes hJ (Program.changes_rounds phase k [] s) hs
  objective := by
    refine preserves_get fun s => ?_
    split
    next direction program _ =>
      refine preserves_bind (Triple.of_after fun t ht => ?_) fun e => Triple.of_after fun t ht => ?_
      · exact of_changes hJ (Program.changes_run program t) ht
      · exact of_changes hJ ((Edit.moves_setObjective e direction).change (t.model, t.journal)) ht
    next => exact preserves_pure _

/-- What every single step keeps is kept by every operation, -/
theorem keeps_after {s : Run A ω} (hs : J s.model) (o : Operation A ω) : J (s.after o).model := by
  cases o with
  | declare P => exact of_changes hJ (Program.changes_run P s) hs
  | init => exact Triple.after (enduring_of_ticks hJ).init hs
  | compute => exact (settling_of_ticks hJ).compute hs
  | extract => exact (settling_of_ticks hJ).extract hs

/-- and so it holds at any time, if it does at the start. -/
theorem Reachable.invariant {start : A.State} (hstart : ∀ token id, J (.new token id start))
    {s : Run A ω} (h : s.Reachable start) : J s.model := by
  induction h with
  | new token id _ => exact hstart token id
  | after _ o ih => exact keeps_after hJ ih o

end Ticks

end Run

namespace Model

variable {m m' : Model A}

/-- Single steps lead to the model from a new one, also into the middle of an operation. -/
def Attained (m : Model A) : Prop :=
  ∃ (token : Token) (id : String) (adapter : A.State), ReflTransGen Tick (.new token id adapter) m

theorem attained_new (token : Token) (id : String) (adapter : A.State) :
    (Model.new token id adapter : Model A).Attained := ⟨token, id, adapter, .refl⟩

theorem Attained.tick (h : m.Attained) (ht : Tick m m') : m'.Attained := by
  obtain ⟨token, id, adapter, hm⟩ := h
  exact ⟨token, id, adapter, hm.tail ht⟩

theorem Attained.invariant {J : Model A → Prop} (hJ : ∀ m m', Tick m m' → J m → J m')
    (hnew : ∀ token id adapter, J (.new token id adapter)) (h : m.Attained) : J m := by
  obtain ⟨token, id, adapter, hm⟩ := h
  induction hm with
  | refl => exact hnew token id adapter
  | tail _ ht ih => exact hJ _ _ ht ih

end Model

theorem Run.Reachable.attained [Unbounded α] {start : A.State} {s : Run A ω}
    (h : s.Reachable start) : s.model.Attained :=
  h.invariant (J := Model.Attained) (fun _ _ ht hm => hm.tick ht) fun token id =>
    Model.attained_new token id start

end Milp

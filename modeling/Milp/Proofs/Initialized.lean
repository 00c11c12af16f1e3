import Milp.Initialization
import Milp.Proofs.Phases

/-! Initialization as a whole: the adapter is asked for the script of the model, in its order. -/
namespace Milp

variable {α β η κ ω : Type} {A : Adapter α η κ}

namespace Model

variable [Scalar α]

/-- The adapter was not asked for anything. -/
structure Untouched (m : Model A.observed) : Prop where
  objective : m.OwnsObjective
  exchanges : m.exchanges = []
  columns : m.columns = .empty
  lines : m.lines = .empty

/-- The adapter has the model, but nothing in it. -/
structure Begun (m : Model A.observed) : Prop where
  objective : m.OwnsObjective
  served : m.Served .empty .empty []

/-- Variables are closed, and every one of them is with the adapter. -/
structure Populated (m : Model A.observed) : Prop where
  objective : m.OwnsObjective
  closed : m.stage.admits .var = false
  columns : ∃ columns, m.Served columns .empty [] ∧
    HandedFor Variable.forget columns m.vars.entities.entries

/-- Every variable and every constraint is with the adapter, which then answered the rest. -/
structure Materialized (m : Model A.observed) (columns : Table (Variable α × η))
    (lines : Table (Constraint α × κ)) (rest : List (Exchange α η κ)) : Prop where
  served : m.Served columns lines rest
  vars : HandedFor Variable.forget columns m.vars.entities.entries
  constraints : HandedFor (fun c => c) lines m.constraints.entities.entries
  objective : m.OwnsObjective
  sound : m.issues = []

/-- The exchange in which the objective is handed over, if there is one. -/
def objectiveExchanges (m : Model A.observed) : List (Exchange α η κ) :=
  m.objective.toList.map fun o => ⟨.objective o m.columns, .ok ()⟩

variable {m m' : Model A.observed} {columns : Table (Variable α × η)}
  {lines : Table (Constraint α × κ)} {rest : List (Exchange α η κ)}

omit [Scalar α] in
theorem Untouched.grows (h : m.Untouched) (hg : m.Grows m') : m'.Untouched where
  objective := hg.objective h.objective
  exchanges := (congrArg Prod.snd hg.adapter).trans h.exchanges
  columns := hg.columns.trans h.columns
  lines := hg.lines.trans h.lines

theorem Begun.grows (h : m.Begun) (hg : m.Grows m') : m'.Begun :=
  ⟨hg.objective h.objective, h.served.grows hg⟩

theorem Begun.stopped (h : m.Begun) : m.Stopped := by
  refine h.served.stopped h.objective .empty .empty (by simp) (by simp) (by simp) ?_
  simp [script]

theorem Populated.grows (h : m.Populated) (hg : m.Grows m') : m'.Populated := by
  obtain ⟨ho, hs, columns, hm, hc⟩ := h
  exact ⟨hg.objective ho, hg.stage ▸ hs, columns, hm.grows hg, hg.closedVars hs ▸ hc⟩

theorem Populated.stopped (h : m.Populated) : m.Stopped := by
  obtain ⟨ho, -, columns, hm, hc⟩ := h
  refine hm.stopped ho hc .empty (by simp) (by simp) (by simp) ?_
  simp [script, declaredVars, Function.comp_def]

/-- While variables and constraints are closed, programs change nothing that the adapter has. -/
theorem Materialized.grows (h : m.Materialized columns lines rest) (hg : m.Grows m')
    (hv : m.stage.admits .var = false) (hc : m.stage.admits .constraint = false) :
    m'.Materialized columns lines rest where
  served := h.served.grows hg
  vars := hg.closedVars hv ▸ h.vars
  constraints := hg.closedConstraints hc ▸ h.constraints
  objective := hg.objective h.objective
  sound := by
    have hs := issues_eq_nil.mp h.sound
    rw [issues_eq_nil, declaredVars, hg.closedVars hv, hg.closedConstraints hc]
    exact ⟨hs.1, hs.2.1, fun o ho id hid =>
      hg.closedVars hv ▸ (hg.objective h.objective o ho).2 id hid⟩

theorem Materialized.contains_of_row (h : m.Materialized columns lines rest)
    (e : String × Placed (Constraint α)) (he : e ∈ m.constraints.entities.entries) (id : String)
    (hid : id ∈ e.2.entity.row.terms.map (·.1)) :
    columns.contains id = true :=
  (contains_of_handed h.vars id).trans (Model.contains_of_row h.sound he hid)

theorem Materialized.stopped (h : m.Materialized columns lines rest) (hrest : rest.length ≤ 1)
    (hr : ∀ x ∈ rest, x.request.Resolved)
    (hp : rest.map (fun x => x.request.forget) <+:
      m.objective.toList.map fun o => .objective o m.columns) :
    m.Stopped := by
  refine h.served.stopped h.objective h.vars h.constraints h.contains_of_row hrest hr ?_
  simpa [script, declaredVars, h.served.columns, Function.comp_def] using hp

end Model

namespace Run

theorem ensureSound_triple [Scalar α] {J : Model A → Prop} :
    Triple (fun s : Run A ω => J s.model) ensureSound (fun _ s => J s.model ∧ s.model.issues = [])
      (fun _ s => J s.model) := by
  refine Triple.get_bind fun s hs => ?_
  cases hi : s.model.issues with
  | nil =>
    rintro t rfl
    exact ⟨hs, hi⟩
  | cons i rest =>
    rintro t rfl
    exact hs

variable [Unbounded α]

/-- What holds of a model whatever a program does to it holds after the programs of some groups. -/
theorem runGroups_triple {J : Model A → Prop} (hJ : ∀ m m', m.Grows m' → J m → J m') (phase : Phase)
    (k : Kind) :
    Triple (fun s : Run A ω => J { s.model with stage := .initializing phase }) (runGroups phase k)
      (fun _ s => J s.model) (fun _ s => J s.model) := by
  have henter : Triple (fun s : Run A ω => J { s.model with stage := .initializing phase })
      (enter phase) (fun _ s => J s.model) (fun _ s => J s.model) := fun s hs => hs
  refine henter.bind fun _ => Triple.of_after fun s hs => ?_
  exact hJ _ _ (Model.grows_of_changes (Program.changes_rounds phase k [] s)) hs

theorem initModel_triple :
    Triple (fun s : Run A.observed ω => s.model.Untouched) initModel
      (fun _ s => s.model.Begun) (fun _ s => s.model.Stopped) := by
  have henter : Triple (fun s : Run A.observed ω => s.model.Untouched) (enter .model)
      (fun _ s => s.model.Untouched) (fun _ s => s.model.Stopped) := fun _ hs =>
    ⟨hs.objective, hs.exchanges, hs.columns, hs.lines⟩
  refine henter.bind fun _ => Triple.get_bind fun s hs => call_triple ?_ ?_
  · rintro t b state rfl -
    obtain ⟨ho, hx, hc, hl⟩ := hs
    refine ⟨ho, ?_, hc, hl⟩
    rw [hx]
    rfl
  · rintro t e state rfl -
    obtain ⟨ho, hx, hc, hl⟩ := hs
    rw [hx]
    exact
      { objective := ho
        requests := ⟨[], by simp,
          by simp [Model.requests, Model.exchanges, withAdapter, Model.script, Request.forget]⟩
        resolved := by simp [Model.requests, Model.exchanges, withAdapter, Request.Resolved]
        refused := by simp [Model.exchanges, withAdapter] }

/-- The same of the program that builds the objective. -/
theorem buildObjective_triple {J : Model A → Prop} (hJ : ∀ m m', m.Grows m' → J m → J m') :
    Triple (fun s : Run A ω => J s.model) buildObjective (fun _ s => J s.model)
      (fun _ s => J s.model) := by
  refine Triple.get_bind fun s hs => ?_
  split
  next direction program _ =>
    refine Triple.bind (Q := fun _ t => J t.model) (Triple.of_after ?_) fun e =>
      Triple.of_after fun t ht => ?_
    · rintro t rfl
      exact hJ _ _ (Model.grows_of_changes (Program.changes_run program t)) hs
    · exact hJ _ _ (Model.grows_of_changes
        ((Edit.moves_setObjective e direction).change (t.model, t.journal))) ht
  next =>
    rintro t rfl
    exact hs

theorem handObjective_triple :
    Triple (fun s : Run A.observed ω => ∃ columns lines, s.model.Materialized columns lines [])
      handObjective
      (fun _ s => ∃ columns lines, s.model.Materialized columns lines s.model.objectiveExchanges)
      (fun _ s => s.model.Stopped) := by
  refine Triple.get_bind fun s hs => ?_
  obtain ⟨columns, lines, hm⟩ := hs
  cases ho : s.model.objective with
  | none =>
    simp only [ho]
    rintro t rfl
    have hx : t.model.objectiveExchanges = [] := by simp [Model.objectiveExchanges, ho]
    exact ⟨columns, lines, hx ▸ hm⟩
  | some o =>
    have hnamed (id : String) (hid : id ∈ o.expression.names) :
        s.model.columns.contains id = true := by
      have hc := (hm.objective o ho).2 id hid
      rw [hm.served.columns, Table.handles, Table.contains_map,
        Model.contains_of_handed hm.vars, hc]
    simp only [ho]
    refine call_triple ?_ ?_
    · rintro t b state rfl -
      refine ⟨columns, lines, ⟨?_, hm.served.columns, hm.served.lines⟩, hm.vars, hm.constraints,
        hm.objective, hm.sound⟩
      rw [hm.served.exchanges, List.append_nil]
      simp [withAdapter, Model.exchanges, Model.objectiveExchanges, ho]
    · rintro t e state rfl -
      let refusal : Exchange α η κ := ⟨.objective o t.model.columns, .error e⟩
      have hr : Model.Materialized (t.withAdapter (state, t.model.exchanges ++ [refusal])).model
          columns lines [refusal] := by
        refine ⟨⟨?_, hm.served.columns, hm.served.lines⟩, hm.vars, hm.constraints,
          hm.objective, hm.sound⟩
        rw [hm.served.exchanges, List.append_nil]
        rfl
      refine hr.stopped ?_ ?_ ?_
      · simp [refusal]
      · simpa [Request.Resolved] using hnamed
      · simp [withAdapter, ho, Request.forget, refusal]

theorem initObjective_triple :
    Triple (fun s : Run A.observed ω => ∃ columns lines, s.model.Materialized columns lines [])
      initObjective
      (fun _ s => ∃ columns lines, s.model.Materialized columns lines s.model.objectiveExchanges)
      (fun _ s => s.model.Stopped) := by
  let J (m : Model A.observed) : Prop :=
    m.stage = .initializing .objective ∧ ∃ columns lines, m.Materialized columns lines []
  have hJ (m m' : Model A.observed) (hg : m.Grows m') (h : J m) : J m' := by
    obtain ⟨hs, columns, lines, hm⟩ := h
    exact ⟨hg.stage.trans hs, columns, lines, hm.grows hg (by rw [hs]; rfl) (by rw [hs]; rfl)⟩
  have henter : Triple (fun s : Run A.observed ω =>
      ∃ columns lines, s.model.Materialized columns lines []) (enter .objective)
        (fun _ s => J s.model) (fun _ s => s.model.Stopped) := by
    rintro s ⟨columns, lines, hm⟩
    exact ⟨rfl, columns, lines,
      ⟨⟨hm.served.exchanges, hm.served.columns, hm.served.lines⟩, hm.vars, hm.constraints,
      hm.objective, hm.sound⟩⟩
  refine henter.bind fun _ =>
    ((buildObjective_triple hJ).imp (fun _ h => h) (fun _ _ h => h) ?_).bind fun _ =>
    handObjective_triple.imp (fun _ h => h.2) (fun _ _ h => h) (fun _ _ h => h)
  rintro e s ⟨-, columns, lines, hm⟩
  exact hm.stopped (by simp) (by simp) (by simp)

theorem phases_triple :
    Triple (fun s : Run A.observed ω => s.model.Untouched) phases
      (fun _ s => ∃ columns lines, s.model.Materialized columns lines s.model.objectiveExchanges)
      (fun _ s => s.model.Stopped) := by
  have hgroups (phase : Phase) (k : Kind) :
      Triple (fun s : Run A.observed ω => s.model.Begun) (runGroups phase k)
        (fun _ s => s.model.Begun) (fun _ s => s.model.Stopped) :=
    (runGroups_triple (fun _ _ hg h => h.grows hg) phase k).imp
      (fun _ hs => ⟨hs.objective, hs.served.exchanges, hs.served.columns, hs.served.lines⟩)
      (fun _ _ h => h) (fun _ _ h => h.stopped)
  have hvars : Triple (fun s : Run A.observed ω => s.model.Begun) initVariables
      (fun _ s => Model.Populated { s.model with stage := .initializing .constraintGroups })
      (fun _ s => s.model.Stopped) := by
    refine Triple.at_state fun s hs => ?_
    refine (initVariables_triple hs.served hs.objective).imp (by rintro t rfl; rfl) ?_
      (fun _ _ h => h)
    rintro _ t ⟨state, columns, hm, hc⟩
    rw [hm]
    exact ⟨hs.objective, rfl, columns, ⟨rfl, rfl, rfl⟩, hc⟩
  have hconstraintGroups : Triple
      (fun s : Run A.observed ω => Model.Populated { s.model with
        stage := .initializing .constraintGroups })
      (runGroups .constraintGroups .constraint) (fun _ s => s.model.Populated)
        (fun _ s => s.model.Stopped) :=
    (runGroups_triple (fun _ _ hg h => h.grows hg) .constraintGroups .constraint).imp (fun _ h => h)
      (fun _ _ h => h) (fun _ _ h => h.stopped)
  have hsound : Triple (fun s : Run A.observed ω => s.model.Populated) ensureSound
      (fun _ s => s.model.Populated ∧ s.model.issues = []) (fun _ s => s.model.Stopped) :=
    ensureSound_triple.imp (fun _ h => h) (fun _ _ h => h) (fun _ _ h => h.stopped)
  have hconstraints : Triple (fun s : Run A.observed ω => s.model.Populated ∧ s.model.issues = [])
      initConstraints (fun _ s => ∃ columns lines, s.model.Materialized columns lines [])
        (fun _ s => s.model.Stopped) := by
    refine Triple.at_state fun s hs => ?_
    obtain ⟨⟨ho, -, columns, hm, hc⟩, hi⟩ := hs
    have hnamed (e : String × Placed (Constraint α)) (he : e ∈ s.model.constraints.entities.entries)
        (id : String) (hid : id ∈ e.2.entity.row.terms.map (·.1)) : columns.contains id = true :=
      (Model.contains_of_handed hc id).trans (Model.contains_of_row hi he hid)
    refine (initConstraints_triple hm ho hc hnamed).imp (by rintro t rfl; rfl) ?_ (fun _ _ h => h)
    rintro _ t ⟨state, lines, ht, hl⟩
    rw [ht]
    exact ⟨columns, lines, ⟨rfl, rfl, rfl⟩, hc, hl, ho, hi⟩
  refine initModel_triple.bind fun _ => (hgroups .constantGroups .constant).bind fun _ =>
    (hgroups .variableGroups .var).bind fun _ => hvars.bind fun _ =>
      hconstraintGroups.bind fun _ => ?_
  exact hsound.bind fun _ => hconstraints.bind fun _ => initObjective_triple

end Run
end Milp

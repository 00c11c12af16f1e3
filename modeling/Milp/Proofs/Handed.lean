import Milp.Adapter.Recorder
import Milp.Proofs.Closed
import Milp.Proofs.Order

/-! What an initialized model has handed over is what it shows: its variables, its constraints and its
objective, whatever was declared while it was initialized and whatever was done with it since. -/
namespace Milp

variable {α β γ η κ ω : Type} {A : Adapter α η κ}

namespace Run

variable [Unbounded α]

/-- The phases up to the start of the last one: all but the objective is with the adapter. -/
def beforeObjective : Step A ω Unit := do
  initModel
  runGroups .constantGroups .constant
  runGroups .variableGroups .var
  initVariables
  runGroups .constraintGroups .constraint
  ensureSound
  initConstraints
  enter .objective

theorem phases_eq :
    (phases : Step A ω Unit) = beforeObjective >>= fun _ => buildObjective >>= fun _ => handObjective := by
  simp only [phases, beforeObjective, initObjective, bind_assoc]

/-- The objective that a run in its last phase comes to: what the attached program builds, or, if
there is none, the objective that the model has. -/
def ComesTo (v : Run A ω) (o : Option (Objective α)) : Prop :=
  match v.agenda.objective with
  | some (direction, program) => ∃ e w, program.run v = (.ok e, w) ∧ o = some ⟨e, direction⟩
  | none => o = v.model.objective

theorem comesTo_of_build {v t : Run A ω} (h : buildObjective v = (.ok (), t)) :
    v.ComesTo t.model.objective := by
  unfold buildObjective at h
  rw [bind_apply, get_apply] at h
  unfold ComesTo
  cases ho : v.agenda.objective with
  | none =>
    simp only [ho] at h
    cases h
    rfl
  | some o =>
    obtain ⟨direction, program⟩ := o
    simp only [ho] at h
    obtain ⟨e, w, hrun, hset⟩ := apply_bind_eq_ok h
    refine ⟨e, w, hrun, ?_⟩
    cases hm : w.model.setObjective e direction with
    | error x =>
      simp only [edit, Edit.setObjective, Edit.change_apply, hm] at hset
      cases hset
    | ok m =>
      obtain ⟨-, -, rfl⟩ := Model.setObjective_eq_ok.mp hm
      simp only [edit, Edit.setObjective, Edit.change_apply, hm] at hset
      cases hset
      rfl

omit [Unbounded α] in
theorem objective_of_hand {v t : Run A ω} (h : handObjective v = (.ok (), t)) :
    t.model.objective = v.model.objective := by
  have hkeeps : Preserves (fun s => s.model.objective = v.model.objective)
      (handObjective : Step A ω Unit) := by
    refine preserves_get fun s => ?_
    dsimp only
    split
    next o _ =>
      exact preserves_call (.phase .objective) (q := .objective o s.model.columns) fun _ h => h
    next => exact fun _ h => h
  exact hkeeps.ok rfl h

/-- The last phase hands over the objective that it comes to. -/
theorem comesTo_of_phases {s t : Run A ω} (h : phases s = (.ok (), t)) :
    ∃ v, beforeObjective s = (.ok (), v) ∧ v.ComesTo t.model.objective := by
  rw [phases_eq] at h
  obtain ⟨_, v, hv, h⟩ := apply_bind_eq_ok h
  obtain ⟨_, w, hw, h⟩ := apply_bind_eq_ok h
  exact ⟨v, hv, objective_of_hand h ▸ comesTo_of_build hw⟩

omit [Unbounded α] in
theorem eq_of_ensureSound [Scalar α] {s t : Run A ω} (h : ensureSound s = (.ok (), t)) : t = s := by
  change ((if s.model.issues.isEmpty = true then _ else _ : Step A ω Unit) s) = _ at h
  split at h
  next =>
    cases h
    rfl
  next => cases h

/-- An initialization that succeeds came through all phases. -/
theorem init_eq_ok {s t : Run A ω} (h : Run.init s = (.ok (), t)) :
    s.model.stage = .declaring ∧ ∃ u, phases (s.record [.initStarted s.model.adapterName]) = (.ok (), u) ∧
      t.model = { u.model with stage := .initialized } := by
  by_cases hs : s.model.stage = .declaring
  · rw [init_apply hs] at h
    obtain ⟨_, s', hsound, h⟩ := apply_bind_eq_ok h
    rw [eq_of_ensureSound hsound, bind_apply, get_apply] at h
    dsimp only at h
    obtain ⟨_, s'', hlog, h⟩ := apply_bind_eq_ok h
    cases hlog
    obtain ⟨_, u, hphases, h⟩ := apply_bind_eq_ok h
    cases h
    refine ⟨hs, u, ?_, rfl⟩
    rw [tryCatch_apply] at hphases
    match hp : phases (s.record [.initStarted s.model.adapterName]) with
    | (.ok (), u') =>
      rw [hp] at hphases
      cases hphases
      rfl
    | (.error e, u') =>
      rw [hp] at hphases
      cases hphases
  · rw [init_closed hs] at h
    cases h

omit [Unbounded α] in
/-- A solve and a reading change only what a solve leaves, and a closed model stays closed. -/
theorem settling_alike (m : Model A) :
    Settling fun m' => m'.stage.isClosed = true ∧ m.Alike m' where
  cleared m' h := ⟨h.1, h.2.trans (alike_clearSolution m')⟩
  answer _ _ h := ⟨h.1, h.2.trans (Model.alike_with ..)⟩
  solved _ _ h := ⟨rfl, h.2.trans (Model.alike_with ..)⟩
  failed _ h := ⟨rfl, h.2.trans (Model.alike_with ..)⟩
  results m' values h := ⟨h.1, h.2.trans (alike_withResults m' values)⟩

/-- On a closed model, operations change only what a solve leaves. -/
theorem closed_after {s : Run A ω} (hs : s.model.stage.isClosed = true) (o : Operation A ω) :
    (s.after o).model.stage.isClosed = true ∧ s.model.Alike (s.after o).model := by
  have hstart : s.model.stage.isClosed = true ∧ s.model.Alike s.model := ⟨hs, Model.alike_with ..⟩
  cases o with
  | declare P =>
    have hg := Model.grows_of_changes (Program.changes_run P s)
    refine ⟨?_, hg.alike ?_ ?_ ?_⟩
    · exact (congrArg Stage.isClosed hg.stage).trans hs
    · exact Stage.admits_of_isClosed hs _
    · exact Stage.admits_of_isClosed hs _
    · exact Stage.admitsObjective_of_isClosed hs
  | init =>
    have hne : s.model.stage ≠ .declaring := by
      intro h
      rw [h] at hs
      cases hs
    rw [after, init_closed hne]
    exact hstart
  | compute => exact (settling_alike s.model).compute hstart
  | extract => exact (settling_alike s.model).extract hstart

theorem closed_afterAll {s : Run A ω} (hs : s.model.stage.isClosed = true)
    (os : List (Operation A ω)) :
    (s.afterAll os).model.stage.isClosed = true ∧ s.model.Alike (s.afterAll os).model := by
  induction os generalizing s with
  | nil => exact ⟨hs, Model.alike_with ..⟩
  | cons o rest ih =>
    obtain ⟨hclosed, halike⟩ := closed_after hs o
    exact (ih hclosed).imp_right halike.trans

/-- A model leaves declaring only in an initialization, and does not come back. -/
theorem exists_init {s : Run A ω} (hs : s.model.stage = .declaring) {os : List (Operation A ω)}
    (h : (s.afterAll os).model.stage = .initialized ∨ (s.afterAll os).model.stage = .solved) :
    ∃ os₁ os₂ t, os = os₁ ++ .init :: os₂ ∧ Run.init (s.afterAll os₁) = (.ok (), t) ∧
      s.afterAll os = t.afterAll os₂ := by
  induction os generalizing s with
  | nil =>
    rcases h with h | h
    · cases hs.symm.trans h
    · cases hs.symm.trans h
  | cons o rest ih =>
    by_cases hd : (s.after o).model.stage = .declaring
    · obtain ⟨os₁, os₂, t, rfl, hinit, hrest⟩ := ih hd h
      exact ⟨o :: os₁, os₂, t, rfl, hinit, hrest⟩
    cases o with
    | declare P =>
      have hg := Model.grows_of_changes (Program.changes_run P s)
      exact absurd (hg.stage.trans hs) hd
    | compute =>
      rw [after, compute_closed (by simp [hs])] at hd
      exact absurd hs hd
    | extract =>
      rw [after, extract_closed (by simp [hs])] at hd
      exact absurd hs hd
    | init =>
      rcases hinit : Run.init s with ⟨r, t⟩
      cases r with
      | ok =>
        refine ⟨[], rest, t, rfl, hinit, ?_⟩
        change (Run.init s).2.afterAll rest = _
        rw [hinit]
      | error e =>
        have hafter : s.after .init = t := congrArg Prod.snd hinit
        rw [init_apply hs] at hinit
        rcases handOver_stage.error hs hinit with ht | ht
        · exact absurd (hafter ▸ ht) hd
        · have hfailed : (s.afterAll (.init :: rest)).model.stage = .failed := by
            change ((s.after .init).afterAll rest).model.stage = _
            rw [hafter]
            exact (failed_afterAll ht rest).1
          rw [hfailed] at h
          simp at h

/-- An initialized model was initialized once, and shows the objective that its last phase came to. -/
theorem exists_beforeObjective {s : Run A ω} (hs : s.model.stage = .declaring)
    {os : List (Operation A ω)}
    (h : (s.afterAll os).model.stage = .initialized ∨ (s.afterAll os).model.stage = .solved) :
    ∃ os₁ os₂ v, os = os₁ ++ .init :: os₂ ∧ (s.afterAll os₁).model.stage = .declaring ∧
      (Run.init (s.afterAll os₁)).1 = .ok () ∧
      beforeObjective ((s.afterAll os₁).record
        [.initStarted (s.afterAll os₁).model.adapterName]) = (.ok (), v) ∧
      v.ComesTo (s.afterAll os).model.objective := by
  obtain ⟨os₁, os₂, t, rfl, hinit, hrest⟩ := exists_init hs h
  obtain ⟨hdeclaring, u, hphases, ht⟩ := init_eq_ok hinit
  obtain ⟨v, hv, hcomes⟩ := comesTo_of_phases hphases
  have hclosed : t.model.stage.isClosed = true := by
    rw [ht]
    rfl
  refine ⟨os₁, os₂, v, rfl, hdeclaring, congrArg Prod.fst hinit, hv, ?_⟩
  have hobjective : t.model.objective = u.model.objective := by rw [ht]
  rw [hrest, (closed_afterAll hclosed os₂).2.objective, hobjective]
  exact hcomes

/-- In every life of a model that is initialized or solved, its handles are those of just the
registered variables and constraints, each given out in the one call that was made for it: for a
variable as it still is, apart from its result, and for a constraint with its canonical row. The
objective that was handed over, if any, is the one that the model shows; it is the one that was
built in the last phase, when a program was attached for it, and else the one that was set. -/
theorem handed_as_registered (token : Token) (id : String) (start : A.State) (world : ω)
    (os : List (Operation A ω))
    (h : ((new token id start world).afterAll os).model.stage = .initialized ∨
      ((new token id start world).afterAll os).model.stage = .solved) :
    let new := new token id start world
    let s := new.afterAll os
    let t := (Run.new (A := A.observed) token id (start, []) world).afterAll (os.map Operation.observed)
    t.Observes s ∧ A.Answers start t.model.exchanges t.model.adapter.1 ∧
      s.model.columns.keys = s.model.vars.entities.keys ∧
      s.model.lines.keys = s.model.constraints.entities.keys ∧
      (∃ (asked : Table (Variable α × η)) (lined : Table (Constraint α × κ))
          (solves : List (Exchange α η κ)),
        asked.entries.map (fun e => (e.1, e.2.1.forget)) =
          s.model.vars.entities.entries.map (fun e => (e.1, e.2.entity.forget)) ∧
        lined.entries.map (fun e => (e.1, e.2.1)) =
          s.model.constraints.entities.entries.map (fun e => (e.1, e.2.entity)) ∧
        s.model.columns = asked.map (fun _ e => e.2) ∧ s.model.lines = lined.map (fun _ e => e.2) ∧
        (∀ x ∈ solves, x.request.IsSolving) ∧
        t.model.exchanges = ⟨.model s.model.identifier, .ok ()⟩ ::
          asked.entries.map (fun e => ⟨.var e.2.1, .ok e.2.2⟩) ++
          lined.entries.map (fun e => ⟨.constraint e.2.1 e.2.1.row s.model.columns, .ok e.2.2⟩) ++
          s.model.objective.toList.map (fun o => ⟨.objective o s.model.columns, .ok ()⟩) ++ solves) ∧
      ∃ os₁ os₂ v, os = os₁ ++ .init :: os₂ ∧ (new.afterAll os₁).model.stage = .declaring ∧
        (Run.init (new.afterAll os₁)).1 = .ok () ∧
        beforeObjective ((new.afterAll os₁).record
          [.initStarted (new.afterAll os₁).model.adapterName]) = (.ok (), v) ∧
        v.ComesTo s.model.objective := by
  intro new s t
  have hts : t.Observes s := (observes_new token id start world).afterAll os
  have ht : t.Reachable (start, []) := (Reachable.new token id world).afterAll _
  obtain ⟨asked, lined, solves, hm, hsolves⟩ := ht.valid.toReady (hts.stage ▸ h)
  have hs : s.model = t.model.unobserved := hts.model.symm
  have hcolumns : s.model.columns = asked.handles := by
    rw [hs]
    exact hm.served.columns
  have hlines : s.model.lines = lined.handles := by
    rw [hs]
    exact hm.served.lines
  have hvars : HandedFor Variable.forget asked s.model.vars.entities.entries := by
    rw [hs]
    exact hm.vars
  have hconstraints : HandedFor (fun c => c) lined s.model.constraints.entities.entries := by
    rw [hs]
    exact hm.constraints
  refine ⟨hts, ht.answers, ?_, ?_, ⟨asked, lined, solves, hvars, hconstraints, hcolumns, hlines,
    fun x hx => (hsolves x hx).1, ?_⟩, exists_beforeObjective rfl h⟩
  · rw [hcolumns, Table.handles, Table.keys_map]
    exact hvars.keys
  · rw [hlines, Table.handles, Table.keys_map]
    exact hconstraints.keys
  · rw [hm.served.exchanges, Model.objectiveExchanges, hm.served.columns, hcolumns, hs,
      ← List.append_assoc]
    rfl

end Run

/-- An objective is set, and a program attached that builds another one. -/
def Program.revised {A : Adapter Extended Nat Nat} : Program A Unit .group :=
  .act (.createVariable "boxes" .integer (.finite 0) (.finite 3) (.default .var)) fun
    | .error e => .finish (.error e)
    | .ok x =>
      .act (.setObjective ⟨x.owner, [.ofVariable (.finite 1) x]⟩ .minimize) fun
        | .error e => .finish (.error e)
        | .ok () =>
          .attach .maximize (.finish (.ok ⟨x.owner, [.ofVariable (.finite 2) x]⟩)) fun r => .finish r

theorem Run.handed_as_registered_revised :
    let os : List (Operation (recorder Extended) Unit) := [.declare Program.revised, .init, .compute]
    let s := (new ⟨0⟩ "depot" ({} : Recorder.State Extended) ()).afterAll os
    s.model.stage = .solved ∧ s.model.columns.keys = ["boxes"] ∧
      s.model.objective.map (·.direction) = some .maximize ∧
      s.model.columns.keys = s.model.vars.entities.keys ∧
      ∃ os₁ os₂, os = os₁ ++ .init :: os₂ ∧
        ∃ v : Run (recorder Extended) Unit, v.ComesTo s.model.objective := by
  intro os s
  have hs : s = (((new ⟨0⟩ "depot" ({} : Recorder.State Extended) ()).after
    (.declare Program.revised)).after .init).after .compute := rfl
  rw [after_init_idle (fun k => by cases k <;> rfl) rfl
    rfl rfl] at hs
  have hstage : s.model.stage = .solved := by
    rw [hs]
    rfl
  have hkeys : s.model.columns.keys = ["boxes"] := by
    rw [hs]
    rfl
  have hdirection : s.model.objective.map (·.direction) = some .maximize := by
    rw [hs]
    rfl
  obtain ⟨-, -, hcolumns, -, -, os₁, os₂, v, hos, -, -, -, hcomes⟩ :=
    handed_as_registered (A := recorder Extended) ⟨0⟩ "depot" {} () os (.inr hstage)
  exact ⟨hstage, hkeys, hdirection, hcolumns, os₁, os₂, hos, v, hcomes⟩

end Milp

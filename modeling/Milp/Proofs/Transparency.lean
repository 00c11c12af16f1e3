import Milp.Proofs.Blind
import Milp.Proofs.Lifecycle

/-! Observing an adapter changes nothing: an observed run does what the run itself does. -/
namespace Milp

variable {α β γ η κ ω : Type} {A : Adapter α η κ}

/-- The program on an observed model; it does not see the exchanges. -/
def Program.observed : {p : Purpose} → Program A ω p → Program A.observed ω p
  | _, .finish r => .finish r
  | _, .read next => .read fun m => (next m.unobserved).observed
  | _, .share f next => .share f fun w => (next w).observed
  | _, .note events next => .note events next.observed
  | _, .act a next => .act a fun r => (next r).observed
  | _, .spawn k id description generator program next =>
    .spawn k id description generator (fun g => (program g).observed) fun r => (next r).observed
  | _, .attach direction program next => .attach direction program.observed fun r =>
    (next r).observed

def Operation.observed : Operation A ω → Operation A.observed ω
  | .declare P => .declare P.observed
  | .init => .init
  | .compute => .compute
  | .extract => .extract

def Agenda.observed (a : Agenda A ω) : Agenda A.observed ω where
  vars := a.vars.map fun _ P => P.observed
  constraints := a.constraints.map fun _ P => P.observed
  constants := a.constants.map fun _ P => P.observed
  objective := a.objective.map fun o => (o.1, o.2.observed)

theorem Agenda.programs_observed (a : Agenda A ω) (k : Kind) :
    a.observed.programs k = (a.programs k).map fun _ P => P.observed := by
  cases k <;> rfl

theorem Agenda.observed_withPrograms (a : Agenda A ω) (k : Kind) (t : Table (Program A ω .group)) :
    (a.withPrograms k t).observed = a.observed.withPrograms k (t.map fun _ P => P.observed) := by
  cases k <;> rfl

namespace Run

/-- The first run is the second with its adapter observed. -/
structure Observes (t : Run A.observed ω) (s : Run A ω) : Prop where
  model : t.model.unobserved = s.model
  agenda : t.agenda = s.agenda.observed
  world : t.world = s.world
  journal : t.journal = s.journal

/-- From these runs two steps answer the same, and leave runs of which one observes the other. -/
def SameAt (x : Step A.observed ω β) (y : Step A ω β) (t : Run A.observed ω) (s : Run A ω) : Prop :=
  (x t).1 = (y s).1 ∧ (x t).2.Observes (y s).2

def Same (x : Step A.observed ω β) (y : Step A ω β) : Prop := ∀ t s, t.Observes s → SameAt x y t s

theorem SameAt.outcomes {x : Step A.observed ω β} {y : Step A ω β} {t : Run A.observed ω}
    {s : Run A ω} (h : SameAt x y t s) :
    ∃ r t' s', x t = (r, t') ∧ y s = (r, s') ∧ t'.Observes s' :=
  ⟨(x t).1, (x t).2, (y s).2, rfl, Prod.ext h.1.symm rfl, h.2⟩

theorem SameAt.bind {x : Step A.observed ω β} {y : Step A ω β} {f : β → Step A.observed ω γ}
    {g : β → Step A ω γ} {t : Run A.observed ω} {s : Run A ω} (h : SameAt x y t s)
    (hf : ∀ b, Same (f b) (g b)) :
    SameAt (x >>= f) (y >>= g) t s := by
  obtain ⟨r, t', s', hx, hy, hs⟩ := h.outcomes
  rw [SameAt, bind_apply, bind_apply, hx, hy]
  cases r with
  | ok b => exact hf b t' s' hs
  | error e => exact ⟨rfl, hs⟩

theorem Same.bind {x : Step A.observed ω β} {y : Step A ω β} {f : β → Step A.observed ω γ}
    {g : β → Step A ω γ} (h : Same x y) (hf : ∀ b, Same (f b) (g b)) : Same (x >>= f) (y >>= g) :=
  fun t s hts => (h t s hts).bind hf

theorem same_get {f : Run A.observed ω → Step A.observed ω β} {g : Run A ω → Step A ω β}
    (h : ∀ t s, t.Observes s → SameAt (f t) (g s) t s) : Same (get >>= f) (get >>= g) := h

theorem same_forM {l : List γ} {f : γ → Step A.observed ω Unit} {g : γ → Step A ω Unit}
    (h : ∀ c, Same (f c) (g c)) :
    Same (l.forM f) (l.forM g) := by
  induction l with
  | nil => exact fun t s hts => ⟨rfl, hts⟩
  | cons c rest ih => exact (h c).bind fun _ => ih

theorem same_log (events : List (Event α)) :
    Same (log events : Step A.observed ω Unit) (log events) :=
  fun _ _ h => ⟨rfl, h.model, h.agenda, h.world, congrArg (· ++ events) h.journal⟩

theorem same_modifyModel {f : Model A.observed → Model A.observed} {g : Model A → Model A}
    (h : ∀ m, (f m).unobserved = g m.unobserved) :
    Same (modifyModel f : Step A.observed ω Unit) (modifyModel g) :=
  fun t _ hts => ⟨rfl, (h t.model).trans (congrArg g hts.model), hts.agenda, hts.world, hts.journal⟩

theorem same_edit {e : Edit A.observed β} {e' : Edit A β} (h : Edit.Same e e') :
    Same (edit e : Step A.observed ω β) (edit e') := by
  intro t s hts
  have := h (t.model, t.journal)
  rw [hts.model, hts.journal] at this
  simp only [SameAt, edit, this]
  rw [hts.journal]
  exact ⟨rfl, rfl, hts.agenda, hts.world, rfl⟩

theorem same_attempt (q : Request α η) :
    Same (attempt (A.observe q) : Step A.observed ω _) (attempt (A.answer q)) := by
  intro t s hts
  have hm : s.model = t.model.unobserved := hts.model.symm
  simp only [SameAt, attempt, hm]
  exact ⟨rfl, rfl, hts.agenda, hts.world, hts.journal⟩

end Run

namespace Program

open Run

theorem observes_insertAll {s : Run A ω} {t : Run A.observed ω} (h : t.Observes s) (k : Kind)
    (done : List (String × Program A ω .group)) :
    (t.withPrograms k ((t.agenda.programs k).insertAll
      (done.map fun e => (e.1, e.2.observed)))).Observes
      (s.withPrograms k ((s.agenda.programs k).insertAll done)) := by
  refine ⟨h.model, ?_, h.world, h.journal⟩
  have hi (ps : Table (Program A ω .group)) : (ps.insertAll done).map (fun _ P => P.observed) =
      (ps.map fun _ P => P.observed).insertAll (done.map fun e => (e.1, e.2.observed)) := by
    induction done generalizing ps with
    | nil => rfl
    | cons e rest ih => exact (ih _).trans (congrArg (Table.insertAll · _) (Table.map_insert ..))
  simp only [withPrograms, h.agenda, Agenda.observed_withPrograms, Agenda.programs_observed, hi]

variable [Unbounded α]

theorem same_run {p : Purpose} (P : Program A ω p) : Same P.observed.run P.run := by
  induction P with
  | finish r => exact fun t s hts => ⟨rfl, hts⟩
  | read next ih =>
    intro t s hts
    have h := ih t.model.unobserved t s hts
    simp only [hts.model] at h
    simpa only [SameAt, observed, run, hts.model] using h
  | share f next ih =>
    intro t s hts
    have h := ih s.world { t with world := f t.world } { s with world := f s.world }
      ⟨hts.model, hts.agenda, congrArg f hts.world, hts.journal⟩
    simpa only [SameAt, observed, run, hts.world] using h
  | note events next ih =>
    intro t s hts
    exact ih (t.record events) (s.record events)
      ⟨hts.model, hts.agenda, hts.world, congrArg (· ++ events) hts.journal⟩
  | act a next ih =>
    intro t s hts
    obtain ⟨r, t', s', hx, hy, hs⟩ := (same_edit (ω := ω) (Edit.same_perform a) t s hts).outcomes
    simp only [SameAt, observed, run, hx, hy]
    exact ih r t' s' hs
  | spawn k id description generator program next ihp ih =>
    intro t s hts
    obtain ⟨r, t', s', hx, hy, hs⟩ :=
      (same_edit (ω := ω) (Edit.same_createGroup k id description generator) t s hts).outcomes
    simp only [SameAt, observed, run, hx, hy]
    cases r with
    | ok g =>
      refine ih (.ok g) _ _ ⟨hs.model, ?_, hs.world, hs.journal⟩
      simp only [withPrograms, hs.agenda, Agenda.programs_observed, Agenda.observed_withPrograms,
        Table.map_insert]
    | error e => exact ih (.error e) _ _ hs
  | attach direction program next ihp ih =>
    intro t s hts
    have ho : s.model.checkObjectiveOpen = t.model.checkObjectiveOpen := by
      rw [← hts.model]
      rfl
    simp only [SameAt, observed, run, ho]
    cases t.model.checkObjectiveOpen with
    | ok u =>
      refine ih (.ok ()) _ _ ⟨hts.model, ?_, hts.world, hts.journal⟩
      simp only [hts.agenda, Agenda.observed, Option.map_some]
    | error e => exact ih (.error e) _ _ hts

theorem same_runAll (phase : Phase) (ps : List (String × Program A ω .group)) :
    Same (runAll phase (ps.map fun e => (e.1, e.2.observed))) (runAll phase ps) := by
  induction ps with
  | nil => exact fun t s hts => ⟨rfl, hts⟩
  | cons p rest ih =>
    obtain ⟨group, P⟩ := p
    intro t s hts
    have hstart : (t.record [.initializerStarted phase group]).Observes
        (s.record [.initializerStarted phase group]) :=
      ⟨hts.model, hts.agenda, hts.world, congrArg (· ++ _) hts.journal⟩
    obtain ⟨r, t', s', hx, hy, hs⟩ := (same_run P _ _ hstart).outcomes
    simp only [SameAt, List.map_cons, runAll, hx, hy]
    cases r with
    | ok u => exact ih t' s' hs
    | error e => exact ⟨rfl, hs.model, hs.agenda, hs.world, congrArg (· ++ _) hs.journal⟩

theorem rounds_empty {phase : Phase} {k : Kind} {done : List (String × Program A ω .group)}
    {s : Run A ω} (h : (s.agenda.programs k).isEmpty = true) :
    rounds phase k done s = (.ok (), s.withPrograms k ((s.agenda.programs k).insertAll done)) := by
  rw [rounds, if_pos h]

theorem rounds_ok {phase : Phase} {k : Kind} {done : List (String × Program A ω .group)}
    {s t : Run A ω} (h : (s.agenda.programs k).isEmpty = false)
    (hr : runAll phase (s.agenda.programs k).entries (s.withPrograms k .empty) = (.ok (), t)) :
    rounds phase k done s = rounds phase k (done ++ (s.agenda.programs k).entries) t := by
  rw [rounds, if_neg (by simp [h])]
  dsimp only
  split
  next hr' => rw [hr] at hr'; cases hr'; rfl
  next hr' => rw [hr] at hr'; cases hr'

theorem rounds_error {phase : Phase} {k : Kind} {done : List (String × Program A ω .group)}
    {s t : Run A ω} {e : ModelError α} (h : (s.agenda.programs k).isEmpty = false)
    (hr : runAll phase (s.agenda.programs k).entries (s.withPrograms k .empty) = (.error e, t)) :
    rounds phase k done s =
      (.error e, t.withPrograms k
        ((t.agenda.programs k).insertAll (done ++ (s.agenda.programs k).entries))) := by
  rw [rounds, if_neg (by simp [h])]
  dsimp only
  split
  next hr' => rw [hr] at hr'; cases hr'
  next hr' => rw [hr] at hr'; cases hr'; rfl

theorem same_rounds (phase : Phase) (k : Kind) (done : List (String × Program A ω .group))
    (s : Run A ω) (t : Run A.observed ω) (hts : t.Observes s) :
    SameAt (rounds phase k (done.map fun e => (e.1, e.2.observed))) (rounds phase k done) t s := by
  have hp (s : Run A ω) (t : Run A.observed ω) (h : t.Observes s) :
      t.agenda.programs k = (s.agenda.programs k).map fun _ P => P.observed := by
    rw [h.agenda, Agenda.programs_observed]
  have hempty (s : Run A ω) (t : Run A.observed ω) (h : t.Observes s) :
      (t.agenda.programs k).isEmpty = (s.agenda.programs k).isEmpty := by
    simp [hp s t h, Table.isEmpty, Table.map]
  have hall (s : Run A ω) (t : Run A.observed ω) (h : t.Observes s) :
      SameAt (runAll phase (t.agenda.programs k).entries)
        (runAll phase (s.agenda.programs k).entries) (t.withPrograms k .empty)
          (s.withPrograms k .empty) := by
    rw [hp s t h]
    refine same_runAll phase _ _ _ ⟨h.model, ?_, h.world, h.journal⟩
    simp only [withPrograms, h.agenda, Agenda.observed_withPrograms, Table.map_empty]
  unfold SameAt
  fun_induction rounds phase k done s generalizing t with
  | case1 done s pending he =>
    rw [rounds_empty ((hempty s t hts).trans he)]
    exact ⟨rfl, observes_insertAll hts k done⟩
  | case2 done s pending he done' s' hs' ih =>
    have he' : (t.agenda.programs k).isEmpty = false := (hempty s t hts).trans (by simpa using he)
    obtain ⟨r, t', u, ht', hu, hs⟩ := (hall s t hts).outcomes
    cases hs'.symm.trans hu
    have h := ih t' hs
    rw [List.map_append] at h
    rw [rounds_ok he' ht', hp s t hts]
    exact h
  | case3 done s pending he done' e s' hs' =>
    have he' : (t.agenda.programs k).isEmpty = false := (hempty s t hts).trans (by simpa using he)
    obtain ⟨r, t', u, ht', hu, hs⟩ := (hall s t hts).outcomes
    cases hs'.symm.trans hu
    have h := observes_insertAll hs k done'
    rw [List.map_append] at h
    rw [rounds_error he' ht', hp s t hts]
    exact ⟨rfl, h⟩

end Program

namespace Run

theorem observes_new (token : Token) (id : String) (start : A.State) (world : ω) :
    (new (A := A.observed) token id (start, []) world).Observes (new token id start world) :=
      ⟨rfl, rfl, rfl, rfl⟩

theorem same_pure (b : β) : Same (pure b : Step A.observed ω β) (pure b) := fun _ _ h => ⟨rfl, h⟩

theorem same_throw (e : ModelError α) : Same (throw e : Step A.observed ω β) (throw e) :=
  fun _ _ h => ⟨rfl, h⟩

theorem same_tryCatch {x : Step A.observed ω β} {y : Step A ω β}
    {f : ModelError α → Step A.observed ω β} {g : ModelError α → Step A ω β} (h : Same x y)
    (hf : ∀ e, Same (f e) (g e)) :
    Same (tryCatch x f) (tryCatch y g) := by
  intro t s hts
  obtain ⟨r, t', s', hx, hy, hs⟩ := (h t s hts).outcomes
  rw [SameAt, tryCatch_apply, tryCatch_apply, hx, hy]
  cases r with
  | ok b => exact ⟨rfl, hs⟩
  | error e => exact hf e t' s' hs

theorem same_call (occasion : Occasion) (q : Request α η) :
    Same (call occasion (A.observe q) : Step A.observed ω _) (call occasion (A.answer q)) :=
  (same_attempt q).bind fun r => by
    cases r with
    | ok b => exact same_pure b
    | error e => exact same_throw _

theorem same_setStage (stage : Stage) :
    Same (setStage stage : Step A.observed ω Unit) (setStage stage) :=
  same_modifyModel fun _ => rfl

theorem same_enter (phase : Phase) : Same (enter phase : Step A.observed ω Unit) (enter phase) :=
  (same_setStage _).bind fun _ => same_log _

theorem same_ensureSound [Scalar α] : Same (ensureSound : Step A.observed ω Unit) ensureSound := by
  refine same_get fun t s hts => ?_
  have hi : s.model.issues = t.model.issues := by
    rw [← hts.model]
    rfl
  simp only [hi]
  split
  · exact same_pure _ t s hts
  · exact (same_log _ t s hts).bind fun _ => same_throw _

theorem same_initModel : Same (initModel : Step A.observed ω Unit) initModel :=
  (same_enter .model).bind fun _ => same_get fun t s hts => by
    rw [← hts.model] at *
    exact same_call _ (.model t.model.identifier) t s hts

theorem same_initVariables : Same (initVariables : Step A.observed ω Unit) initVariables := by
  refine (same_enter .vars).bind fun _ => same_get fun t s hts => ?_
  have hm : s.model = t.model.unobserved := hts.model.symm
  rw [hm]
  refine SameAt.bind (same_forM (fun e => ?_) t s hts) fun _ => same_get fun t s hts => ?_
  · exact (same_call _ (.var e.2.entity)).bind fun column => same_modifyModel fun _ => rfl
  · rw [← hts.model]
    exact same_log _ t s hts

theorem same_initConstraints [Scalar α] :
    Same (initConstraints : Step A.observed ω Unit) initConstraints := by
  refine (same_enter .constraints).bind fun _ => same_get fun t s hts => ?_
  have hm : s.model = t.model.unobserved := hts.model.symm
  rw [hm]
  refine SameAt.bind (same_forM (fun e => same_get fun t s hts => ?_) t s hts) fun _ =>
    same_get fun t s hts => ?_
  · have hm : s.model = t.model.unobserved := hts.model.symm
    rw [hm]
    exact (same_call _ (.constraint e.2.entity e.2.entity.row t.model.columns) t s hts).bind
      fun line =>
      same_modifyModel fun _ => rfl
  · rw [← hts.model]
    exact same_log _ t s hts

theorem same_handObjective : Same (handObjective : Step A.observed ω Unit) handObjective := by
  refine same_get fun t s hts => ?_
  have hm : s.model = t.model.unobserved := hts.model.symm
  have ho : t.model.unobserved.objective = t.model.objective := rfl
  simp only [hm, ho]
  cases t.model.objective with
  | none => exact same_log _ t s hts
  | some o => exact same_call _ (.objective o t.model.columns) t s hts

theorem Observes.stage {t : Run A.observed ω} {s : Run A ω} (h : t.Observes s) :
    s.model.stage = t.model.stage := by
  rw [← h.model]
  rfl

theorem Same.guard {x : Step A.observed ω β} {y : Step A ω β} (h : Same x y) {c : Prop}
    [Decidable c] {e : ModelError α} :
    Same (if c then throw e >>= fun _ : PUnit => x else x)
      (if c then throw e >>= fun _ : PUnit => y else y) := by
  split
  · exact (same_throw e).bind fun _ => h
  · exact h

theorem same_solve : Same (solve : Step A.observed ω Status) solve := by
  refine (same_log _).bind fun _ => (same_modifyModel fun _ => rfl).bind fun _ =>
    same_get fun t s hts => ?_
  rw [← hts.model]
  refine (same_attempt (.compute t.model.columns) t s hts).bind fun r => ?_
  cases r with
  | ok r =>
    exact (same_modifyModel fun _ => rfl).bind fun _ => (same_log _).bind fun _ => same_pure _
  | error e => exact (same_setStage _).bind fun _ => (same_log _).bind fun _ => same_throw _

theorem same_takeResult (id : String) (x : α) :
    Same (takeResult id x : Step A.observed ω Unit) (takeResult id x) := by
  refine same_get fun t s hts => ?_
  have hm : s.model = t.model.unobserved := hts.model.symm
  have hv : t.model.unobserved.vars = t.model.vars := rfl
  simp only [hm, hv]
  split
  · exact same_modifyModel (fun _ => rfl) t s hts
  · exact same_log _ t s hts

theorem same_takeResults : Same (takeResults : Step A.observed ω Unit) takeResults := by
  refine same_get fun t s hts => ?_
  rw [← hts.model]
  refine (same_call .extract (.extract t.model.columns) t s hts).bind fun values => ?_
  have hstep (e : String × α) :
      Same (takeResult e.1 e.2 : Step A.observed ω Unit) (takeResult e.1 e.2) :=
    same_takeResult e.1 e.2
  have hloop : Same (values.entries.forM fun e => takeResult e.1 e.2 : Step A.observed ω Unit)
      (values.entries.forM fun e => takeResult e.1 e.2) := same_forM hstep
  exact hloop.bind fun _ => same_log [.resultsExtracted (Table.size values)]

theorem same_compute : Same (compute : Step A.observed ω Status) compute := by
  refine same_get fun t s hts => ?_
  rw [hts.stage]
  exact same_solve.guard t s hts

theorem same_extract : Same (extract : Step A.observed ω Unit) extract := by
  refine same_get fun t s hts => ?_
  rw [hts.stage]
  exact same_takeResults.guard t s hts

variable [Unbounded α]

theorem same_runGroups (phase : Phase) (k : Kind) :
    Same (runGroups phase k : Step A.observed ω Unit) (runGroups phase k) :=
  (same_enter phase).bind fun _ t s hts => Program.same_rounds phase k [] s t hts

theorem same_buildObjective : Same (buildObjective : Step A.observed ω Unit) buildObjective := by
  refine same_get fun t s hts => ?_
  rw [hts.agenda, Agenda.observed]
  cases s.agenda.objective with
  | none => exact same_pure _ t s hts
  | some o =>
    exact (Program.same_run o.2 t s hts).bind fun e => same_edit (Edit.same_setObjective e o.1)

theorem same_phases : Same (phases : Step A.observed ω Unit) phases :=
  same_initModel.bind fun _ => (same_runGroups _ _).bind fun _ => (same_runGroups _ _).bind fun _ =>
    same_initVariables.bind fun _ => (same_runGroups _ _).bind fun _ =>
      same_ensureSound.bind fun _ =>
      same_initConstraints.bind fun _ => (same_enter _).bind fun _ =>
        same_buildObjective.bind fun _ =>
        same_handObjective

theorem same_handOver : Same (handOver : Step A.observed ω Unit) handOver := by
  refine same_ensureSound.bind fun _ => same_get fun t s hts => ?_
  have hn : s.model.adapterName = t.model.adapterName := by
    rw [← hts.model]
    rfl
  rw [hn]
  refine (same_log _ t s hts).bind fun _ =>
    (same_tryCatch same_phases fun e => same_get fun t s hts => ?_).bind fun _ =>
      (same_setStage _).bind fun _ => same_get fun t s hts => ?_
  · rw [← hts.model]
    exact (same_log _ t s hts).bind fun _ => (same_setStage _).bind fun _ => same_throw e
  · simp only [← hts.model]
    exact same_log _ t s hts

theorem same_init : Same (Run.init : Step A.observed ω Unit) Run.init := by
  refine same_get fun t s hts => ?_
  rw [hts.stage]
  exact same_handOver.guard t s hts

theorem Observes.after {t : Run A.observed ω} {s : Run A ω} (h : t.Observes s) (o : Operation A ω) :
    (t.after o.observed).Observes (s.after o) := by
  cases o with
  | declare P => exact (Program.same_run P t s h).2
  | init => exact (same_init t s h).2
  | compute => exact (same_compute t s h).2
  | extract => exact (same_extract t s h).2

/-- An observed run does what the run itself does, operation by operation. -/
theorem Observes.afterAll {t : Run A.observed ω} {s : Run A ω} (h : t.Observes s)
    (os : List (Operation A ω)) :
    (t.afterAll (os.map Operation.observed)).Observes (s.afterAll os) := by
  induction os generalizing t s with
  | nil => exact h
  | cons o rest ih => exact ih (h.after o)

/-- Every life of a model can be observed. -/
theorem Reachable.observed {start : A.State} {s : Run A ω} (h : s.Reachable start) :
    ∃ t : Run A.observed ω, t.Reachable (start, []) ∧ t.Observes s := by
  induction h with
  | new token id world => exact ⟨_, .new token id world, observes_new token id start world⟩
  | after _ o ih =>
    obtain ⟨t, ht, hts⟩ := ih
    exact ⟨_, ht.after o.observed, hts.after o⟩

end Run
end Milp

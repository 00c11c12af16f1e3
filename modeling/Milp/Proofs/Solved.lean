import Milp.Proofs.Problem
import Milp.Proofs.Solves

/-! What a model shows once a matrix solver has answered: the figures and the values of this answer,
with an objective that comes to what its expression does at the values. -/
namespace Milp

variable {α β η κ ω : Type}

namespace Matrix

/-- The values of the variables, by their columns. -/
def readings (columns : Handles Nat) (values : List α) : Table α :=
  .ofList (columns.entries.filterMap fun e => values[e.2]?.map (e.1, ·))

theorem find?_readings (columns : Handles Nat) (values : List α) (id : String) :
    (readings columns values).find? id = (columns.find? id).bind (values[·]?) :=
  Table.find?_ofList_filterMap columns (values[·]?) id

theorem readings_map (columns : Handles Nat) (values : List α) (f : α → β) :
    readings columns (values.map f) = (readings columns values).map fun _ => f := by
  apply Table.ext_find?
  intro id
  rw [Table.find?_map, find?_readings, find?_readings]
  cases columns.find? id with
  | none => rfl
  | some i => exact List.getElem?_map

/-- The answer counts: its verdict is one that comes with values, and each column has one. -/
def Found (a : Answer α) (p : Problem α) : Prop :=
  hasValues a.verdict.toStatus = true ∧ a.values.length = p.columns.length

theorem Found.status {a : Answer α} {p : Problem α} (h : Found a p) :
    a.verdict.toStatus = .optimal ∨ a.verdict.toStatus = .timeLimit := by
  simpa [hasValues] using h.1

section Hooks

variable [Scalar α] {oracle : Oracle α} {σ : State α} {p : Problem α}

theorem compute_apply (oracle : Oracle α) (hp : σ.problem = some p) (hl : checkLines p = .ok ()) :
    ∃ events, compute oracle σ =
      let answer := oracle σ.config σ.solves p
      let status := answer.verdict.toStatus
      let found := hasValues status && answer.values.length == p.columns.length
      let solution : Solution α := { status := some (.status status), time := some (.millis 0) }
      (.ok (if found then
          { solution with objective := some (.float (objectiveAt p answer.values)) }
        else solution, events), { σ with
          values := if found then some answer.values else none
          solves := σ.solves + 1 }) := by
  rw [compute, bind_apply, problem_apply hp]
  dsimp only
  rw [bind_apply, hl]
  exact Exists.intro _ rfl

/-- An answer that counts is reported with its objective, and its values are kept. -/
theorem compute_of_found (hp : σ.problem = some p) (hl : checkLines p = .ok ())
    (hf : Found (oracle σ.config σ.solves p) p) :
    ∃ events, compute oracle σ =
      (.ok ({ status := some (.status (oracle σ.config σ.solves p).verdict.toStatus)
              objective := some (.float (objectiveAt p (oracle σ.config σ.solves p).values))
              time := some (.millis 0) }, events),
        { σ with values := some (oracle σ.config σ.solves p).values, solves := σ.solves + 1 }) := by
  obtain ⟨events, h⟩ := compute_apply oracle hp hl
  simp only [hf.1, hf.2, beq_self_eq_true, Bool.and_self, if_true] at h
  exact ⟨events, h⟩

/-- Of any other answer only the status is reported, and no values are kept. -/
theorem compute_of_not_found (hp : σ.problem = some p) (hl : checkLines p = .ok ())
    (hf : ¬Found (oracle σ.config σ.solves p) p) :
    ∃ events, compute oracle σ =
      (.ok ({ status := some (.status (oracle σ.config σ.solves p).verdict.toStatus)
              time := some (.millis 0) }, events),
        { σ with values := none, solves := σ.solves + 1 }) := by
  obtain ⟨events, h⟩ := compute_apply oracle hp hl
  have hfound : (hasValues (oracle σ.config σ.solves p).verdict.toStatus &&
      (oracle σ.config σ.solves p).values.length == p.columns.length) = false := by
    rw [Bool.eq_false_iff]
    intro h
    exact hf ⟨(Bool.and_eq_true_iff.mp h).1, beq_iff_eq.mp (Bool.and_eq_true_iff.mp h).2⟩
  simp only [hfound, Bool.false_eq_true, if_false] at h
  exact ⟨events, h⟩

omit [Scalar α] in
/-- Reading changes nothing about the adapter. -/
theorem extract_apply (hp : σ.problem = some p) (columns : Handles Nat) :
    extract columns σ =
      (.ok (σ.values.elim .empty fun values => readings columns values), σ) := by
  obtain ⟨config, _, values, solves⟩ := σ
  cases hp
  cases values <;> rfl

end Hooks

variable {oracle : Oracle Extended} {m : Model (matrix oracle)} {p : Problem Extended}

/-- With a value for each column, every variable has one, -/
theorem Assembles.find?_readings (h : Assembles m p) {values : List α}
    (hl : values.length = p.columns.length) {id : String} (hid : m.vars.contains id = true) :
    ∃ i x, m.columns.find? id = some i ∧ values[i]? = some x ∧
      (readings m.columns values).find? id = some x := by
  obtain ⟨i, hi⟩ : ∃ i, m.columns.find? id = some i := by
    rw [← Table.contains_iff, ← Table.mem_keys, h.columnKeys, Table.mem_keys]
    exact hid
  have hlt : i < values.length := by
    rw [hl, ← h.size_columns]
    exact h.numberedColumns.lt hi
  have hx : values[i]? = some values[i] := List.getElem?_eq_getElem hlt
  refine ⟨i, _, hi, hx, ?_⟩
  rw [Matrix.find?_readings, hi]
  exact hx

/-- and the objective comes to what its expression does at these values. -/
theorem Assembles.evaluate_readings (h : Assembles m p) (hm : m.OwnsObjective)
    {o : Objective Extended} (ho : m.objective = some o) (hf : Extended.FiniteTerms o.expression)
    {values : List Extended} (hv : ∀ x ∈ values, Unbounded.isFinite x = true)
    (hl : values.length = p.columns.length) :
    o.expression.evaluate (readings m.columns values) = some (objectiveAt p values) := by
  obtain ⟨qs, rfl⟩ : ∃ qs : List Rat, values = qs.map .finite := by
    clear hl
    induction values with
    | nil => exact ⟨[], rfl⟩
    | cons x rest ih =>
      obtain ⟨q, rfl⟩ := Extended.exists_finite (hv x List.mem_cons_self)
      obtain ⟨qs, rfl⟩ := ih fun y hy => hv y (List.mem_cons_of_mem _ hy)
      exact ⟨q :: qs, rfl⟩
  have hl : qs.length = p.columns.length := by rwa [List.length_map] at hl
  let x (id : String) : Rat := ((readings m.columns qs).find? id).getD 0
  have hx {id : String} (hid : m.vars.contains id = true) :
      (readings m.columns qs).find? id = some (x id) := by
    obtain ⟨i, q, -, -, hq⟩ := h.find?_readings hl hid
    rw [hq]
    exact congrArg some (by simp [x, hq])
  have hcolumn (id : String) (i : Nat) (hi : m.columns.find? id = some i) :
      qs[i]? = some (x id) := by
    have hid : m.vars.contains id = true := by
      rw [Registry.contains, ← Table.mem_keys, ← h.columnKeys, Table.mem_keys]
      exact Table.contains_of_find? hi
    rw [← hx hid, Matrix.find?_readings, hi]
    rfl
  have hp : Priced m.columns (some o) p := ho ▸ h.priced
  rw [readings_map]
  exact hp.evaluate hf hl hcolumn fun id hid => hx ((hm o ho).2 id hid)

end Matrix

namespace Model

variable {A : Adapter α η κ} {m : Model A} {values : Table α}

theorem withResults_withResults (m : Model A) (values : Table α) :
    (m.withResults values).withResults values = m.withResults values := by
  have hentities : ((m.withResults values).withResults values).vars.entities =
      (m.withResults values).vars.entities := by
    apply Table.ext_find?
    intro id
    rw [find?_withResults, find?_withResults, Option.map_map]
    cases m.vars.entities.find? id with
    | none => rfl
    | some p => cases values.find? id <;> rfl
  exact congrArg (fun t => { m with vars := { m.vars with entities := t } }) hentities

/-- The model once it is solved, with the values of this solve. -/
def answered (m : Model A) (adapter : A.State) (solution : Solution α) (values : Table α) :
    Model A :=
  { Run.clearSolution m with adapter, solution, stage := .solved }.withResults values

theorem find?_answered (m : Model A) (adapter : A.State) (solution : Solution α)
    (values : Table α) (id : String) :
    (m.answered adapter solution values).vars.entities.find? id =
      (m.vars.entities.find? id).map fun p =>
        { p with entity := { p.entity with result := values.find? id } } := by
  have hcleared : { Run.clearSolution m with adapter, solution, stage := .solved : Model A
      }.vars.entities.find? id = (m.vars.entities.find? id).map fun p =>
        { p with entity := { p.entity with result := none } } := Table.find?_map ..
  rw [answered, find?_withResults, hcleared, Option.map_map]
  congr 1
  funext p
  simp

/-- Results are the values that were read for registered variables. -/
theorem variableResult_answered {adapter : A.State} {solution : Solution α} {id : String} {x : α}
    (h : (m.answered adapter solution values).variableResult id = .ok (some x)) :
    values.find? id = some x := by
  obtain ⟨q, hq, hx⟩ := variableResult_eq_ok.mp h
  rw [find?_answered] at hq
  obtain ⟨p, -, rfl⟩ := Option.map_eq_some_iff.mp hq
  exact hx

theorem result_of_mem_answered {adapter : A.State} {solution : Solution α}
    {e : String × Placed (Variable α)}
    (h : e ∈ (m.answered adapter solution values).vars.entities.entries) :
    m.vars.contains e.1 = true ∧ e.2.entity.result = values.find? e.1 := by
  have he := Table.find?_eq_some_iff.mpr h
  rw [find?_answered] at he
  obtain ⟨p, hp, hpe⟩ := Option.map_eq_some_iff.mp he
  exact ⟨Table.contains_of_find? hp, by rw [← hpe]⟩

theorem results_answered_empty (m : Model A) (adapter : A.State) (solution : Solution α) :
    (m.answered adapter solution .empty).results = [] := by
  rw [results, List.filterMap_eq_nil_iff]
  intro e he
  rw [(result_of_mem_answered he).2]
  rfl

theorem find?_results_answered (m : Model A) (adapter : A.State) (solution : Solution α)
    (values : Table α) (id : String) :
    (Table.ofList (m.answered adapter solution values).results).find? id =
      if m.vars.contains id then values.find? id else none := by
  have hr := Table.find?_ofList_filterMap (m.answered adapter solution values).vars.entities
    (fun p => p.entity.result) id
  rw [find?_answered] at hr
  refine Eq.trans hr ?_
  rw [Registry.contains, Table.contains]
  cases m.vars.entities.find? id <;> rfl

end Model

/-- All that is read off the columns becomes a result. -/
theorem Matrix.Assembles.ofList_results [Scalar α] {oracle : Oracle α} {m : Model (matrix oracle)}
    {p : Problem α} (h : Assembles m p) (adapter : State α) (solution : Solution α)
    (values : List α) :
    Table.ofList (m.answered adapter solution (readings m.columns values)).results =
      readings m.columns values := by
  apply Table.ext_find?
  intro id
  rw [Model.find?_results_answered]
  split
  next => rfl
  next hid =>
    have hnone : m.columns.find? id = none := by
      rw [Table.find?_eq_none_iff, ← Bool.not_eq_true, ← Table.mem_keys, h.columnKeys,
        Table.mem_keys]
      exact hid
    rw [Matrix.find?_readings, hnone]
    rfl

namespace Run

variable [Unbounded α] {A : Adapter α η κ}

/-- To read again gives the same, if the adapter stays as it is. -/
theorem extract_again {s : Run A ω} {values : Table α} (hs : s.model.stage = .solved)
    (hr : A.extract s.model.columns s.model.adapter = (.ok values, s.model.adapter)) (n : Nat) :
    ∃ journal, Run.extract (s.afterAll (List.replicate n .extract)) =
      (.ok (), { s with model := s.model.withResults values, journal }) := by
  induction n generalizing s with
  | zero =>
    obtain ⟨journal, ht⟩ := takeResults_of_ok hr
    exact ⟨journal, (extract_apply hs).trans ht⟩
  | succ n ih =>
    obtain ⟨journal, ht⟩ := takeResults_of_ok hr
    have hs' : s.after .extract = { s with model := s.model.withResults values, journal } :=
      congrArg Prod.snd ((extract_apply hs).trans ht)
    obtain ⟨journal', h⟩ := ih (s := { s with model := s.model.withResults values, journal }) hs hr
    refine ⟨journal', ?_⟩
    rw [List.replicate_succ, afterAll, List.foldl_cons, hs']
    rw [Model.withResults_withResults] at h
    exact h

/-- After a solve on a matrix solver that may answer anything, reading succeeds any number of times.
Figures and results are then those of this one answer. Either every variable has a result, and the
objective value is that of the objective at the results, or there is neither. -/
theorem objective_of_results {oracle : Oracle Extended}
    (horacle : ∀ config solves p, ∀ x ∈ (oracle config solves p).values,
      Unbounded.isFinite x = true) {start : Matrix.State Extended} {s u : Run (matrix oracle) ω}
    (h : s.Reachable start) {o : Objective Extended} (ho : s.model.objective = some o)
    (hfinite : Extended.FiniteTerms o.expression) {status : Status}
    (hcompute : Run.compute s = (.ok status, u)) (n : Nat) :
    ∃ p events w, s.model.adapter.problem = some p ∧
      ((matrix oracle).compute s.model.columns s.model.adapter).1 =
        .ok (w.model.solution, events) ∧
      Run.extract (u.afterAll (List.replicate n .extract)) = (.ok (), w) ∧
      w.model.objective = some o ∧ w.model.status = .ok status ∧
      (∀ id x, w.model.variableResult id = .ok (some x) → ∃ i, s.model.columns.find? id = some i ∧
        (oracle s.model.adapter.config s.model.adapter.solves p).values[i]? = some x) ∧
      ((status = .optimal ∨ status = .timeLimit) ∧
          (∀ v ∈ w.model.vars.values, v.result.isSome = true) ∧
          (∃ x, w.model.objectiveValue = .ok x ∧
            o.expression.evaluate (Table.ofList w.model.results) = some x) ∨
        w.model.objectiveValue = .error (.missingSolution .objective) ∧ w.model.results = []) := by
  obtain ⟨hstage, solution, events, state, hr, rfl, hu⟩ := compute_eq_ok hcompute
  obtain ⟨p, hp, ha⟩ := h.assembles hstage
  have howns : s.model.OwnsObjective := (h.regular fun _ => ⟨rfl, rfl⟩).objective
  have hr : Matrix.compute oracle s.model.adapter = (.ok (solution, events), state) := hr
  have hkept : state.problem = some p := by
    have hproblem := Matrix.problem_compute oracle s.model.adapter
    rw [hr] at hproblem
    exact hproblem.trans hp
  let values := state.values.elim .empty (Matrix.readings s.model.columns)
  obtain ⟨w, hw, hm⟩ : ∃ w, Run.extract (u.afterAll (List.replicate n .extract)) = (.ok (), w) ∧
      w.model = s.model.answered state solution values := by
    have hstage' : u.model.stage = .solved := by rw [hu]
    have hread : (matrix oracle).extract u.model.columns u.model.adapter =
        (.ok values, u.model.adapter) := by
      rw [hu]
      exact Matrix.extract_apply hkept s.model.columns
    obtain ⟨journal, hw⟩ := extract_again hstage' hread n
    exact ⟨_, hw, by rw [hu]; rfl⟩
  refine ⟨p, events, w, hp, ?_, hw, ?_, ?_⟩
  · rw [hm]
    exact congrArg Prod.fst hr
  · rw [hm]
    exact ho
  by_cases hf : Matrix.Found (oracle s.model.adapter.config s.model.adapter.solves p) p
  · obtain ⟨events', hc⟩ := Matrix.compute_of_found hp ha.checked hf
    cases hr.symm.trans hc
    rw [hm]
    refine ⟨rfl, fun id x hx => ?_, .inl ⟨hf.status, fun v hv => ?_, _, rfl, ?_⟩⟩
    · have hfind := Model.variableResult_answered hx
      exact Option.bind_eq_some_iff.mp ((Matrix.find?_readings ..).symm.trans hfind)
    · obtain ⟨q, hq, rfl⟩ := List.mem_map.mp hv
      obtain ⟨e, he, rfl⟩ := List.mem_map.mp hq
      obtain ⟨hc, hresult⟩ := Model.result_of_mem_answered he
      obtain ⟨i, x, -, -, hx⟩ := ha.find?_readings hf.2 hc
      rw [hresult]
      exact Option.isSome_iff_exists.mpr ⟨x, hx⟩
    · have hevaluate := ha.evaluate_readings howns ho hfinite (horacle _ _ _) hf.2
      exact (congrArg o.expression.evaluate (ha.ofList_results ..)).trans hevaluate
  · obtain ⟨events', hc⟩ := Matrix.compute_of_not_found hp ha.checked hf
    cases hr.symm.trans hc
    rw [hm]
    refine ⟨rfl, fun id x hx => ?_, .inr ⟨rfl, Model.results_answered_empty ..⟩⟩
    cases Model.variableResult_answered hx

/-- A solver that answers three for every column. -/
def threes : Oracle Extended := fun _ _ p => ⟨.status .optimal, p.columns.map fun _ => .finite 3⟩

theorem objective_of_results_threes :
    let s : Run (matrix threes) Unit :=
      ((new ⟨0⟩ "load" ({} : Matrix.State Extended) ()).after (.declare Program.load)).after .init
    s.Reachable ({} : Matrix.State Extended) ∧ ∃ o u w, s.model.objective = some o ∧
      Extended.FiniteTerms o.expression ∧ Run.compute s = (.ok .optimal, u) ∧
      Run.extract u = (.ok (), w) ∧ w.model.results = [("boxes", .finite 3)] ∧
      ∃ x, w.model.objectiveValue = .ok x ∧
        o.expression.evaluate (Table.ofList w.model.results) = some x := by
  intro s
  have hs : s.Reachable ({} : Matrix.State Extended) := ((Reachable.new _ _ _).after _).after _
  have hinit : s = _ := after_init_idle (fun k => by cases k <;> rfl)
    rfl (by decide +kernel) (by decide +kernel)
  have hterms : s.model.objective.any (fun o =>
      o.expression.terms.all fun t => Unbounded.isFinite t.coefficient) = true := by
    rw [hinit]
    decide +kernel
  obtain ⟨o, ho, hall⟩ := (Option.any_eq_true _ _).mp hterms
  have hfinite : Extended.FiniteTerms o.expression := List.all_eq_true.mp hall
  have horacle : ∀ config solves p, ∀ x ∈ (threes config solves p).values,
      Unbounded.isFinite x = true := by
    intro config solves p x hx
    obtain ⟨c, -, rfl⟩ := List.mem_map.mp hx
    rfl
  have hstatus : (Run.compute s).1.toOption = some .optimal := by
    rw [hinit]
    decide +kernel
  have hok : (Run.compute s).1 = .ok .optimal := by
    cases hr : (Run.compute s).1 with
    | ok status => rw [hr] at hstatus; exact congrArg Except.ok (Option.some.inj hstatus)
    | error e => rw [hr] at hstatus; cases hstatus
  obtain ⟨u, hcompute⟩ : ∃ u, Run.compute s = (.ok .optimal, u) := ⟨_, Prod.ext hok rfl⟩
  obtain ⟨p, events, w, -, -, hw, -, -, -, hend⟩ :=
    objective_of_results horacle hs ho hfinite hcompute 0
  have hresults : w.model.results = [("boxes", .finite 3)] := by
    have hread : ((s.after .compute).after .extract).model.results = [("boxes", .finite 3)] := by
      rw [hinit]
      decide +kernel
    rwa [after, after, hcompute, show Run.extract u = (.ok (), w) from hw] at hread
  refine ⟨hs, o, u, w, ho, hfinite, hcompute, hw, hresults, ?_⟩
  rcases hend with ⟨-, -, hx⟩ | ⟨-, hnone⟩
  · exact hx
  · rw [hresults] at hnone
    cases hnone

end Run
end Milp

import Milp.Solving
import Milp.Proofs.Change

/-! Solving and reading as equations: what they leave of a run, and which stages refuse them. -/
namespace Milp

variable {α η κ ω : Type} {A : Adapter α η κ}

theorem get_apply {ε σ : Type} (s : σ) : (get : ExceptT ε (StateM σ) σ) s = (.ok s, s) := rfl

namespace Model

theorem variableResult_eq_ok {m : Model A} {id : String} {r : Option α} :
    m.variableResult id = .ok r ↔ ∃ p, m.vars.entities.find? id = some p ∧ p.entity.result = r := by
  simp only [variableResult, entity, registry, bind_eq_ok, Registry.entity_eq_ok, pure, Except.pure,
    Except.ok.injEq]
  constructor
  · rintro ⟨_, ⟨p, hp, rfl⟩, hr⟩
    exact ⟨p, hp, hr⟩
  · rintro ⟨p, hp, hr⟩
    exact ⟨p.entity, ⟨p, hp, rfl⟩, hr⟩

/-- The model with the results that were reported for its variables. -/
def withResults (m : Model A) (values : Table α) : Model A :=
  { m with vars := { m.vars with entities := m.vars.entities.map fun id p =>
      { p with entity := { p.entity with result := (values.find? id).or p.entity.result } } } }

theorem giveResult_of_absent {m : Model A} {id : String} (h : m.vars.contains id = false) (x : α) :
    m.giveResult id x = m := by
  have hm : m.vars.entities.modify id (fun p => { p with
      entity := { p.entity with result := some x } }) = m.vars.entities := by
    apply Table.ext_find?
    intro k
    rw [Table.find?_modify]
    split
    next hk => rw [hk, Table.find?_eq_none_iff.mpr h, Option.map_none]
    next => rfl
  rw [giveResult, Registry.modify, hm]

/-- Results that are given one after the other, in ascending order, are given all at once. -/
theorem foldl_giveResult (m : Model A) {es : List (String × α)}
    (h : es.Pairwise fun a b => a.1 < b.1) :
    es.foldl (fun m e => m.giveResult e.1 e.2) m = m.withResults ⟨es, h⟩ := by
  induction es generalizing m with
  | nil =>
    have hm : m.vars.entities.map (fun _ p => p) = m.vars.entities := Table.ext (List.map_id' _)
    exact congrArg (fun t => { m with vars := { m.vars with entities := t } }) hm.symm
  | cons e rest ih =>
    obtain ⟨he, hr⟩ := List.pairwise_cons.mp h
    rw [List.foldl_cons, ih _ hr]
    have hentities : (m.vars.entities.modify e.1 (fun p => { p with
        entity := { p.entity with result := some e.2 } })).map (fun id p => { p with
          entity := { p.entity with
            result := ((⟨rest, hr⟩ : Table α).find? id).or p.entity.result } }) =
        m.vars.entities.map fun id p => { p with entity := { p.entity with
          result := ((⟨e :: rest, h⟩ : Table α).find? id).or p.entity.result } } := by
      rw [Table.modify, Table.map_map]
      congr 1
      funext id p
      simp only [Table.find?, Table.lookup_cons_ite]
      split
      next hid =>
        have hnone : rest.lookup id = none := by
          rw [List.lookup_eq_none_iff]
          intro d hd
          simpa [hid] using Std.ne_of_lt (he d hd)
        rw [hnone]
        rfl
      next => rfl
    exact congrArg (fun t => { m with vars := { m.vars with entities := t } }) hentities

/-- A registered variable has the value that was reported for it, or else what it had. -/
theorem find?_withResults (m : Model A) (values : Table α) (id : String) :
    (m.withResults values).vars.entities.find? id = (m.vars.entities.find? id).map fun p =>
      { p with entity := { p.entity with result := (values.find? id).or p.entity.result } } :=
  Table.find?_map ..

/-- Values for names that are not registered change nothing. -/
theorem withResults_filter (m : Model A) (values : Table α) :
    m.withResults (values.filter fun id _ => m.vars.contains id) = m.withResults values := by
  have hentities : (m.withResults (values.filter fun id _ => m.vars.contains id)).vars.entities =
      (m.withResults values).vars.entities := by
    apply Table.ext_find?
    intro id
    rw [find?_withResults, find?_withResults]
    cases hp : m.vars.entities.find? id with
    | none => rfl
    | some p =>
      have hc : m.vars.contains id = true := Table.contains_of_find? hp
      rw [Table.find?_filter, hc]
      cases values.find? id <;> rfl
  exact congrArg (fun t => { m with vars := { m.vars with entities := t } }) hentities

end Model

namespace Run

theorem log_apply (events : List (Event α)) (s : Run A ω) :
    (log events : Step A ω Unit) s = (.ok (), s.record events) := rfl

theorem modifyModel_apply (f : Model A → Model A) (s : Run A ω) :
    (modifyModel f : Step A ω Unit) s = (.ok (), { s with model := f s.model }) := rfl

/-- What the adapter reports is all that the model has of a solution afterwards. -/
theorem solve_of_ok {s : Run A ω} {solution : Solution α} {events : List (Event α)}
    {state : A.State}
    (h : A.compute s.model.columns s.model.adapter = (.ok (solution, events), state)) :
    solve s = (.ok solution.outcome, { s with
      model := { clearSolution s.model with adapter := state, solution, stage := .solved }
      journal := s.journal ++ [.computeStarted] ++
        (events ++ [.computeFinished solution.outcome]) }) := by
  simp only [solve, bind_apply, log_apply, modifyModel_apply, get_apply, attempt, clearSolution,
    record, h]
  rfl

theorem solve_of_error {s : Run A ω} {e : AdapterError} {state : A.State}
    (h : A.compute s.model.columns s.model.adapter = (.error e, state)) :
    solve s = (.error (.adapter .compute e), { s with
      model := { clearSolution s.model with adapter := state, stage := .failed }
      journal := s.journal ++ [.computeStarted] ++ [.computeFailed e] }) := by
  simp only [solve, bind_apply, log_apply, modifyModel_apply, get_apply, attempt, clearSolution,
    record, h]
  rfl

theorem takeResult_apply (id : String) (x : α) (s : Run A ω) :
    ∃ journal, takeResult id x s =
      (.ok (), { s with model := s.model.giveResult id x, journal }) := by
  simp only [takeResult, bind_apply, get_apply]
  cases hc : s.model.vars.contains id with
  | true => exact ⟨s.journal, rfl⟩
  | false =>
    rw [Model.giveResult_of_absent hc]
    exact ⟨s.journal ++ [.unknownVariable id], rfl⟩

theorem forM_takeResult (es : List (String × α)) (s : Run A ω) :
    ∃ journal, (es.forM fun e => takeResult e.1 e.2 : Step A ω Unit) s =
      (.ok (), { s with
        model := es.foldl (fun m e => m.giveResult e.1 e.2) s.model, journal }) := by
  induction es generalizing s with
  | nil => exact ⟨s.journal, rfl⟩
  | cons e rest ih =>
    obtain ⟨journal, he⟩ := takeResult_apply e.1 e.2 s
    obtain ⟨journal', hr⟩ := ih { s with model := s.model.giveResult e.1 e.2, journal }
    refine ⟨journal', ?_⟩
    change (takeResult e.1 e.2 >>= fun _ => rest.forM fun e => takeResult e.1 e.2 :
      Step A ω Unit) s = _
    rw [bind_apply, he]
    exact hr

/-- Each registered variable gets the value that the adapter reports for it; nothing else of the
model changes. -/
theorem takeResults_of_ok {s : Run A ω} {values : Table α} {state : A.State}
    (h : A.extract s.model.columns s.model.adapter = (.ok values, state)) :
    ∃ journal, takeResults s = (.ok (), { s with
      model := { s.model with adapter := state }.withResults values, journal }) := by
  obtain ⟨journal, hj⟩ :=
    forM_takeResult values.entries { s with model := { s.model with adapter := state } }
  rw [Model.foldl_giveResult _ values.ascending] at hj
  have hcall : (call .extract (A.extract s.model.columns) : Step A ω _) s =
      (.ok values, { s with model := { s.model with adapter := state } }) := by
    simp only [call, bind_apply, attempt, h]
    rfl
  refine ⟨journal ++ [.resultsExtracted values.size], ?_⟩
  simp only [takeResults, bind_apply, get_apply, hcall, hj, log_apply, record]

theorem takeResults_of_error {s : Run A ω} {e : AdapterError} {state : A.State}
    (h : A.extract s.model.columns s.model.adapter = (.error e, state)) :
    takeResults s = (.error (.adapter .extract e), { s with
      model := { s.model with adapter := state } }) := by
  have hcall : (call .extract (A.extract s.model.columns) : Step A ω _) s =
      (.error (.adapter .extract e), { s with model := { s.model with adapter := state } }) := by
    simp only [call, bind_apply, attempt, h]
    rfl
  simp only [takeResults, bind_apply, get_apply, hcall]

section Stages

variable {s : Run A ω}

theorem compute_apply (hs : s.model.stage = .initialized ∨ s.model.stage = .solved) :
    Run.compute s = solve s := by
  have hguard : ¬(s.model.stage ≠ .initialized ∧ s.model.stage ≠ .solved) := by
    rcases hs with hs | hs <;> simp [hs]
  change (if s.model.stage ≠ .initialized ∧ s.model.stage ≠ .solved then _ else _ :
    Step A ω Status) s = _
  rw [if_neg hguard]

theorem compute_closed (hs : s.model.stage ≠ .initialized ∧ s.model.stage ≠ .solved) :
    Run.compute s = (.error (.lifecycle (.cannotCompute s.model.stage)), s) := by
  change (if s.model.stage ≠ .initialized ∧ s.model.stage ≠ .solved then _ else _ :
    Step A ω Status) s = _
  rw [if_pos hs]
  rfl

theorem extract_apply (hs : s.model.stage = .solved) : Run.extract s = takeResults s := by
  change (if s.model.stage ≠ .solved then _ else _ : Step A ω Unit) s = _
  rw [if_neg (by simp [hs])]

theorem extract_closed (hs : s.model.stage ≠ .solved) :
    Run.extract s = (.error (.lifecycle (.cannotExtract s.model.stage)), s) := by
  change (if s.model.stage ≠ .solved then _ else _ : Step A ω Unit) s = _
  rw [if_pos hs]
  rfl

/-- What solving can do to a run. -/
theorem compute_cases (s : Run A ω) :
    (s.model.stage ≠ .initialized ∧ s.model.stage ≠ .solved) ∧
      Run.compute s = (.error (.lifecycle (.cannotCompute s.model.stage)), s) ∨
    (s.model.stage = .initialized ∨ s.model.stage = .solved) ∧
      ((∃ solution events state journal,
        A.compute s.model.columns s.model.adapter = (.ok (solution, events), state) ∧
        Run.compute s = (.ok solution.outcome, { s with
          model := { clearSolution s.model with adapter := state, solution, stage := .solved }
          journal })) ∨
      ∃ e state journal, A.compute s.model.columns s.model.adapter = (.error e, state) ∧
        Run.compute s = (.error (.adapter .compute e), { s with
          model := { clearSolution s.model with adapter := state, stage := .failed }
          journal })) := by
  by_cases hs : s.model.stage = .initialized ∨ s.model.stage = .solved
  · refine .inr ⟨hs, ?_⟩
    rw [compute_apply hs]
    match hr : A.compute s.model.columns s.model.adapter with
    | (.ok (solution, events), state) =>
      exact .inl ⟨solution, events, state, _, rfl, solve_of_ok hr⟩
    | (.error e, state) => exact .inr ⟨e, state, _, rfl, solve_of_error hr⟩
  · exact .inl ⟨not_or.mp hs, compute_closed (not_or.mp hs)⟩

/-- What reading can do to a run. -/
theorem extract_cases (s : Run A ω) :
    s.model.stage ≠ .solved ∧
      Run.extract s = (.error (.lifecycle (.cannotExtract s.model.stage)), s) ∨
    s.model.stage = .solved ∧
      ((∃ values state journal,
        A.extract s.model.columns s.model.adapter = (.ok values, state) ∧
        Run.extract s = (.ok (), { s with
          model := { s.model with adapter := state }.withResults values, journal })) ∨
      ∃ e state, A.extract s.model.columns s.model.adapter = (.error e, state) ∧
        Run.extract s = (.error (.adapter .extract e), { s with
          model := { s.model with adapter := state } })) := by
  by_cases hs : s.model.stage = .solved
  · refine .inr ⟨hs, ?_⟩
    rw [extract_apply hs]
    match hr : A.extract s.model.columns s.model.adapter with
    | (.ok values, state) =>
      obtain ⟨journal, ht⟩ := takeResults_of_ok hr
      exact .inl ⟨values, state, journal, rfl, ht⟩
    | (.error e, state) => exact .inr ⟨e, state, rfl, takeResults_of_error hr⟩
  · exact .inl ⟨hs, extract_closed hs⟩

theorem compute_eq_ok {status : Status} {t : Run A ω} (h : Run.compute s = (.ok status, t)) :
    (s.model.stage = .initialized ∨ s.model.stage = .solved) ∧ ∃ solution events state,
      A.compute s.model.columns s.model.adapter = (.ok (solution, events), state) ∧
      status = solution.outcome ∧
      t.model = { clearSolution s.model with adapter := state, solution, stage := .solved } := by
  rcases compute_cases s with ⟨-, hm⟩ |
    ⟨hs, ⟨solution, events, state, journal, hr, hm⟩ | ⟨e, state, journal, -, hm⟩⟩
  · cases h.symm.trans hm
  · cases h.symm.trans hm
    exact ⟨hs, solution, events, state, hr, rfl, rfl⟩
  · cases h.symm.trans hm

theorem extract_eq_ok {t : Run A ω} (h : Run.extract s = (.ok (), t)) :
    s.model.stage = .solved ∧ ∃ values state,
      A.extract s.model.columns s.model.adapter = (.ok values, state) ∧
      t.model = { s.model with adapter := state }.withResults values := by
  rcases extract_cases s with ⟨-, hm⟩ |
    ⟨hs, ⟨values, state, journal, hr, hm⟩ | ⟨e, state, -, hm⟩⟩
  · cases h.symm.trans hm
  · cases h.symm.trans hm
    exact ⟨hs, values, state, hr, rfl⟩
  · cases h.symm.trans hm

variable [Unbounded α]

theorem init_apply (hs : s.model.stage = .declaring) : Run.init s = handOver s := by
  change (if s.model.stage ≠ .declaring then _ else _ : Step A ω Unit) s = _
  rw [if_neg (by simp [hs])]

theorem init_closed (hs : s.model.stage ≠ .declaring) :
    Run.init s = (.error (.lifecycle (.cannotInit s.model.stage)), s) := by
  change (if s.model.stage ≠ .declaring then _ else _ : Step A ω Unit) s = _
  rw [if_pos hs]
  rfl

end Stages

end Run
end Milp

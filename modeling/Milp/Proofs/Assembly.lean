import Milp.Proofs.Handles

/-! The problem of the matrix adapter once a model is handed over: a column for each variable, a
line for each constraint, and the costs of the objective. -/
namespace Milp

variable {α β ω : Type}

/-- The values of the table count its entries from zero on. -/
def Table.Numbered (t : Table Nat) : Prop := t.values = List.range t.size

/-- What is numbered is a bijection between the keys and their positions. -/
theorem Table.Numbered.find?_eq_some_iff {t : Table Nat} (h : t.Numbered) {k : String} {i : Nat} :
    t.find? k = some i ↔ t.keys[i]? = some k := by
  have hv (j : Nat) (e : String × Nat) (he : t.entries[j]? = some e) : e.2 = j := by
    have hj : t.values[j]? = some e.2 := by simp [values, he]
    rw [h, List.getElem?_range (by simpa [size] using (List.getElem?_eq_some_iff.mp he).1)] at hj
    exact (Option.some.inj hj).symm
  rw [Table.find?_eq_some_iff, keys, List.getElem?_map]
  constructor
  · intro hm
    obtain ⟨j, hj⟩ := List.mem_iff_getElem?.mp hm
    have hij : i = j := hv j _ hj
    rw [hij, hj]
    rfl
  · intro hk
    obtain ⟨e, he, hek⟩ := Option.map_eq_some_iff.mp hk
    have hei : e.2 = i := hv i e he
    rw [← hek, ← hei]
    exact List.mem_of_getElem? he

theorem Table.numbered_handles {E : Type} {t : Table (E × Nat)}
    (h : t.entries.map (·.2.2) = List.range' 0 t.entries.length) : t.handles.Numbered := by
  simpa [Table.Numbered, Table.handles, Table.values, Table.size, Table.map, List.range_eq_range',
    Function.comp_def] using h

theorem require_eq_ok {η : Type} {columns : Handles η} {id : String} {x : η} :
    columns.require id = .ok x ↔ columns.find? id = some x := by
  unfold Handles.require
  cases columns.find? id <;> simp

/-- The column that a variable is handed over as. -/
def Variable.column (v : Variable α) : Column α :=
  ⟨v.identifier, v.lower, v.upper, v.varType.isIntegral⟩

namespace Matrix

/-- The line is that of the constraint, with these columns for its variables. -/
structure LineFor [Scalar α] (columns : Handles Nat) (c : Constraint α) (l : Line α) : Prop where
  identifier : l.identifier = c.identifier
  factors : indexed c.row.terms columns = .ok l.factors
  comparison : l.comparison = c.comparison
  bound : l.bound = c.row.bound

theorem indexed_cons (t : String × α) (rest : List (String × α)) (columns : Handles Nat) :
    indexed (t :: rest) columns =
      columns.require t.1 >>= fun i => indexed rest columns >>= fun fs => .ok ((i, t.2) :: fs) := by
  rw [indexed, List.mapM_cons]
  cases columns.require t.1 <;> rfl

/-- Factors keep the order of their terms, and each has the column of its variable. -/
theorem indexed_eq_ok {terms : List (String × α)} {columns : Handles Nat}
    {factors : List (Nat × α)} : indexed terms columns = .ok factors ↔
      List.Forall₂ (fun t f => columns.find? t.1 = some f.1 ∧ f.2 = t.2) terms factors := by
  induction terms generalizing factors with
  | nil => cases factors <;> simp [indexed, pure, Except.pure]
  | cons t rest ih =>
    rw [indexed_cons, List.forall₂_cons_left_iff]
    simp only [bind_eq_ok, require_eq_ok, ih]
    constructor
    · rintro ⟨i, hi, fs, hfs, h⟩
      cases h
      exact ⟨_, _, ⟨hi, rfl⟩, hfs, rfl⟩
    · rintro ⟨⟨i, c⟩, fs, ⟨hi, rfl⟩, hfs, rfl⟩
      exact ⟨i, hi, fs, hfs, rfl⟩

section Hooks

variable {σ : State α} {p : Problem α}

theorem problem_apply (hp : σ.problem = some p) : problem σ = (.ok p, σ) := by
  obtain ⟨config, _, values, solves⟩ := σ
  cases hp
  rfl

theorem initVariable_apply [Scalar α] (hp : σ.problem = some p) (v : Variable α) :
    initVariable v σ = (.ok p.columns.length, { σ with
      problem := some { p with
        columns := p.columns ++ [v.column]
        costs := p.costs ++ [Scalar.zero] } }) := by
  rw [initVariable, bind_apply, problem_apply hp]
  rfl

theorem initConstraint_apply (hp : σ.problem = some p) (c : Constraint α) (row : Row α)
    (columns : Handles Nat) :
    initConstraint c row columns σ = match indexed row.terms columns with
      | .ok factors => (.ok p.lines.length, { σ with
          problem := some { p with
            lines := p.lines ++ [⟨c.identifier, factors, row.comparison, row.bound⟩] } })
      | .error e => (.error e, σ) := by
  rw [initConstraint, bind_apply]
  cases indexed row.terms columns with
  | error e => rfl
  | ok factors =>
    change (problem >>= _) σ = _
    rw [bind_apply, problem_apply hp]
    rfl

theorem initObjective_apply [Scalar α] (hp : σ.problem = some p) (o : Objective α)
    (columns : Handles Nat) :
    initObjective o columns σ = match indexed o.expression.reduce.linearPart.entries columns with
      | .ok terms => (.ok (), { σ with
          problem := some { p with
            costs := costsOf p.costs.length terms
            offset := o.expression.reduce.constantPart
            direction := some o.direction } })
      | .error e => (.error e, σ) := by
  rw [initObjective, bind_apply]
  cases indexed o.expression.reduce.linearPart.entries columns with
  | error e => rfl
  | ok terms =>
    change (problem >>= _) σ = _
    rw [bind_apply, problem_apply hp]
    rfl

/-- Solving leaves the problem as it is. -/
theorem problem_compute [Scalar α] (oracle : Oracle α) (σ : State α) :
    (compute oracle σ).2.problem = σ.problem := by
  rw [compute, bind_apply]
  cases hp : σ.problem with
  | none =>
    have he : problem σ = (.error .notInitialized, σ) := by
      obtain ⟨config, _, values, solves⟩ := σ
      cases hp
      rfl
    rw [he]
    exact hp
  | some p =>
    rw [problem_apply hp]
    dsimp only
    rw [bind_apply]
    cases checkLines p with
    | error e => exact hp
    | ok u => exact hp

theorem problem_extract (columns : Handles Nat) (σ : State α) :
    (extract columns σ).2.problem = σ.problem := by
  have hd : (discard problem σ).2 = σ := by
    obtain ⟨config, _ | p, values, solves⟩ := σ <;> rfl
  rw [extract, bind_apply]
  cases h : discard problem σ with
  | mk r s =>
    rw [h] at hd
    cases hd
    cases r with
    | error e => rfl
    | ok u =>
      obtain ⟨config, p, _ | values, solves⟩ := s <;> rfl

end Hooks

section Answers

variable [Scalar α] {oracle : Oracle α} {σ τ : State α} {p : Problem α}

theorem answers_columns {es : List (String × Variable α × Nat)} (hp : σ.problem = some p)
    (h : (matrix oracle).Answers σ (es.map fun e => ⟨.var e.2.1, .ok e.2.2⟩) τ) :
    τ.problem = some { p with
      columns := p.columns ++ es.map (·.2.1.column)
      costs := p.costs ++ es.map fun _ => Scalar.zero } ∧
    es.map (·.2.2) = List.range' p.columns.length es.length := by
  induction es generalizing σ p with
  | nil =>
    cases h
    simpa using hp
  | cons e rest ih =>
    have ha : (matrix oracle).answer (.var e.2.1) σ = _ := initVariable_apply hp e.2.1
    rw [List.map_cons, Adapter.Answers, ha] at h
    obtain ⟨he, hrest⟩ := h
    obtain ⟨hτ, hr⟩ := ih rfl hrest
    have hi : e.2.2 = p.columns.length := Except.ok.inj he
    refine ⟨by simpa using hτ, ?_⟩
    rw [List.map_cons, List.length_cons, List.range'_succ, hi, hr]
    simp

theorem answers_lines {es : List (String × Constraint α × Nat)} {columns : Handles Nat}
    (hp : σ.problem = some p)
    (h : (matrix oracle).Answers σ
      (es.map fun e => ⟨.constraint e.2.1 e.2.1.row columns, .ok e.2.2⟩) τ) :
    ∃ ls, τ.problem = some { p with lines := p.lines ++ ls } ∧
      List.Forall₂ (fun e l => LineFor columns e.2.1 l) es ls ∧
      es.map (·.2.2) = List.range' p.lines.length es.length := by
  induction es generalizing σ p with
  | nil =>
    cases h
    exact ⟨[], by simpa using hp, .nil, rfl⟩
  | cons e rest ih =>
    have ha : (matrix oracle).answer (.constraint e.2.1 e.2.1.row columns) σ = _ :=
      initConstraint_apply hp e.2.1 e.2.1.row columns
    rw [List.map_cons, Adapter.Answers, ha] at h
    cases hf : indexed e.2.1.row.terms columns with
    | error err =>
      rw [hf] at h
      cases h.1
    | ok factors =>
      rw [hf] at h
      obtain ⟨he, hrest⟩ := h
      obtain ⟨ls, hτ, hls, hr⟩ := ih rfl hrest
      have hi : e.2.2 = p.lines.length := Except.ok.inj he
      refine ⟨_ :: ls, by simpa using hτ, .cons ⟨rfl, hf, rfl, rfl⟩ hls, ?_⟩
      rw [List.map_cons, List.length_cons, List.range'_succ, hi, hr]
      simp

theorem answers_solves {xs : List (Exchange α Nat Nat)} (hx : ∀ x ∈ xs, x.request.IsSolving)
    (h : (matrix oracle).Answers σ xs τ) : τ.problem = σ.problem := by
  induction xs generalizing σ with
  | nil => rw [h]
  | cons x rest ih =>
    rw [ih (fun y hy => hx y (List.mem_cons_of_mem _ hy)) h.2]
    obtain ⟨request, answer⟩ := x
    cases request with
    | compute columns => exact problem_compute oracle σ
    | extract columns => exact problem_extract columns σ
    | _ => exact (hx _ (List.mem_cons_self ..)).elim

/-- The costs are those of the objective; without one there are none, and no direction. -/
def Priced (columns : Handles Nat) (objective : Option (Objective α)) (p : Problem α) : Prop :=
  match objective with
  | none => p.costs = List.replicate p.columns.length Scalar.zero ∧ p.offset = Scalar.zero ∧
    p.direction = none
  | some o => ∃ terms, indexed o.expression.reduce.linearPart.entries columns = .ok terms ∧
      p.costs = costsOf p.columns.length terms ∧ p.offset = o.expression.reduce.constantPart ∧
      p.direction = some o.direction

/-- Columns and lines stand in the order in which they were handed out, under the numbers that they
got. -/
structure Assembled (vars : Table (Variable α × Nat)) (constraints : Table (Constraint α × Nat))
    (objective : Option (Objective α)) (p : Problem α) : Prop where
  columns : p.columns = vars.entries.map (·.2.1.column)
  numbered : vars.handles.Numbered
  lines : List.Forall₂ (fun e l => LineFor vars.handles e.2.1 l) constraints.entries p.lines
  numberedLines : constraints.handles.Numbered
  priced : Priced vars.handles objective p

theorem answers_objective {objective : Option (Objective α)} {columns : Handles Nat}
    (hp : σ.problem = some p) (hc : p.costs = List.replicate p.columns.length Scalar.zero)
    (ho : p.offset = Scalar.zero) (hd : p.direction = none)
    (h : (matrix oracle).Answers σ
      (objective.toList.map fun o => ⟨.objective o columns, .ok ()⟩) τ) :
    ∃ costs offset direction, τ.problem = some { p with costs, offset, direction } ∧
      Priced columns objective { p with costs, offset, direction } := by
  cases objective with
  | none =>
    cases h
    exact ⟨p.costs, p.offset, p.direction, hp, hc, ho, hd⟩
  | some o =>
    have ha : (matrix oracle).answer (.objective o columns) σ = _ :=
      initObjective_apply hp o columns
    rw [Option.toList_some, List.map_singleton, Adapter.Answers, ha] at h
    cases hi : indexed o.expression.reduce.linearPart.entries columns with
    | error e =>
      rw [hi] at h
      cases h.1
    | ok terms =>
      rw [hi] at h
      cases h.2
      exact ⟨_, _, _, rfl, terms, hi, by rw [hc, List.length_replicate], rfl, rfl⟩

/-- An adapter that has answered all of the script has the problem assembled. -/
theorem assembled_of_answers {m : Model (matrix oracle).observed}
    {columns : Table (Variable α × Nat)} {lines : Table (Constraint α × Nat)}
    {solves : List (Exchange α Nat Nat)}
    (h : m.Served columns lines (m.objectiveExchanges ++ solves))
    (hs : ∀ x ∈ solves, x.request.IsSolving) (ha : (matrix oracle).Answers σ m.exchanges τ) :
    ∃ p, τ.problem = some p ∧ p.identifier = m.identifier ∧
      Assembled columns lines m.objective p := by
  rw [h.exchanges, transcript, Adapter.answers_append] at ha
  obtain ⟨σ₁, ha, hrest⟩ := ha
  obtain ⟨σ₂, ha, hlines⟩ := Adapter.answers_append.mp ha
  obtain ⟨σ₃, hobjective, hsolves⟩ := Adapter.answers_append.mp hrest
  obtain ⟨hcolumns, hnumbered⟩ :=
    answers_columns (p := { identifier := m.identifier, offset := Scalar.zero }) rfl ha.2
  obtain ⟨ls, hl, hfor, hnumberedLines⟩ := answers_lines hcolumns hlines
  unfold Model.objectiveExchanges at hobjective
  obtain ⟨costs, offset, direction, hτ, hpriced⟩ :=
    answers_objective hl (by simp [List.map_const']) rfl rfl hobjective
  rw [h.columns] at hpriced
  refine ⟨_, (answers_solves hs hsolves).trans hτ, rfl, rfl, Table.numbered_handles hnumbered, ?_,
    Table.numbered_handles hnumberedLines, hpriced⟩
  simpa using hfor

end Answers

/-- The problem of a model that is handed over: a column for each variable and a line for each
constraint, both in ascending order, and the costs of the objective. -/
structure Assembles [Scalar α] {oracle : Oracle α} (m : Model (matrix oracle))
    (p : Problem α) : Prop where
  identifier : p.identifier = m.identifier
  columns : p.columns = m.vars.entities.entries.map (·.2.entity.column)
  columnKeys : m.columns.keys = m.vars.entities.keys
  numberedColumns : m.columns.Numbered
  lines : List.Forall₂ (fun e l => LineFor m.columns e.2.entity l)
    m.constraints.entities.entries p.lines
  lineKeys : m.lines.keys = m.constraints.entities.keys
  numberedLines : m.lines.Numbered
  priced : Priced m.columns m.objective p

end Matrix

theorem Table.keys_handles {E : Type} (t : Table (E × β)) : t.handles.keys = t.keys := keys_map ..

namespace Run

variable [Unbounded α] {oracle : Oracle α}

theorem Reachable.assembles {start : Matrix.State α} {s : Run (matrix oracle) ω}
    (h : s.Reachable start) (hs : s.model.stage = .initialized ∨ s.model.stage = .solved) :
    ∃ p, s.model.adapter.problem = some p ∧ Matrix.Assembles s.model p := by
  obtain ⟨t, ht, hts⟩ := h.observed
  have hready : t.model.Ready := by
    cases Reachable.valid (A := matrix oracle) ht with
    | ready _ h => exact h
    | declaring hd => simp_all [hts.stage]
    | failed hf => simp_all [hts.stage]
  obtain ⟨vars, constraints, solves, hm, hsolves⟩ := hready
  obtain ⟨p, hp, hid, ha⟩ := Matrix.assembled_of_answers hm.served (fun x hx => (hsolves x hx).1)
    (Reachable.answers (A := matrix oracle) ht)
  rw [← hts.model]
  have hv : vars.entries.map (·.2.1.column) =
      t.model.vars.entities.entries.map (·.2.entity.column) := by
    have := congrArg (List.map fun e => e.2.column) hm.vars
    simpa [Function.comp_def, Variable.forget, Variable.column] using this
  have hc : constraints.entries.map (·.2.1) =
      t.model.constraints.entities.entries.map (·.2.entity) := by
    have := congrArg (List.map Prod.snd) hm.constraints
    simpa [Function.comp_def] using this
  have hl : List.Forall₂ (Matrix.LineFor vars.handles)
      (t.model.constraints.entities.entries.map (·.2.entity)) p.lines := by
    rw [← hc]
    exact List.forall₂_map_left_iff.mpr ha.lines
  refine ⟨p, hp, hid, ha.columns.trans hv, ?_, ?_, ?_, ?_, ?_, ?_⟩
  · exact (congrArg Table.keys hm.served.columns).trans (vars.keys_handles.trans hm.vars.keys)
  · exact hm.served.columns ▸ ha.numbered
  · exact hm.served.columns ▸ List.forall₂_map_left_iff.mp hl
  · exact (congrArg Table.keys hm.served.lines).trans
      (constraints.keys_handles.trans hm.constraints.keys)
  · exact hm.served.lines ▸ ha.numberedLines
  · exact hm.served.columns ▸ ha.priced

end Run
end Milp

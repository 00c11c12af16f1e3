import Milp.Proofs.Assembly

/-! The record of the recorder once a model is handed over: its variables and its rows in ascending order,
and its objective. -/
namespace Milp

variable {α γ ω : Type}

namespace Recorder

section Hooks

variable {σ : State α} {r : Record α}

theorem record_apply (hr : σ.record = some r) : record σ = (.ok r, σ) := by
  obtain ⟨_, outcome, results⟩ := σ
  cases hr
  rfl

theorem initVariable_apply (hr : σ.record = some r) (v : Variable α) :
    initVariable v σ = (.ok r.columns.length, { σ with
      record := some { r with columns := r.columns ++ [v.identifier] } }) := by
  rw [initVariable, bind_apply, record_apply hr]
  rfl

/-- Looking up handles changes nothing. -/
theorem lookups_apply (columns : Handles Nat) (f : γ → String) (l : List γ) (σ : State α) :
    (l.forM fun c => discard (liftExcept (columns.require (f c))) : Hook (State α) Unit) σ =
      (l.forM fun c => discard (columns.require (f c)), σ) := by
  induction l with
  | nil => rfl
  | cons c rest ih =>
    change (discard (liftExcept (columns.require (f c))) >>= fun _ => rest.forM _ :
        Hook (State α) Unit) σ = (discard (columns.require (f c)) >>= fun _ => rest.forM _, σ)
    rw [bind_apply]
    cases columns.require (f c) with
    | ok i => exact ih
    | error e => rfl

theorem lookups_eq_ok {columns : Handles Nat} {f : γ → String} {l : List γ}
    (h : ∀ c ∈ l, columns.contains (f c) = true) :
    (l.forM fun c => discard (columns.require (f c))) = .ok () := by
  induction l with
  | nil => rfl
  | cons c rest ih =>
    obtain ⟨i, hi⟩ := Table.contains_iff.mp (h c List.mem_cons_self)
    change (discard (columns.require (f c)) >>= fun _ => rest.forM _) = _
    rw [require_eq_ok.mpr hi]
    exact ih fun d hd => h d (List.mem_cons_of_mem _ hd)

theorem initConstraint_apply (hr : σ.record = some r) (row : Row α) (columns : Handles Nat) :
    initConstraint row columns σ =
      match row.terms.forM fun t => discard (columns.require t.1) with
      | .ok () => (.ok r.rows.length, { σ with record := some { r with rows := r.rows ++ [row] } })
      | .error e => (.error e, σ) := by
  rw [initConstraint, bind_apply, lookups_apply]
  cases row.terms.forM fun t => discard (columns.require t.1) with
  | error e => rfl
  | ok u =>
    change (record >>= _) σ = _
    rw [bind_apply, record_apply hr]
    rfl

theorem initObjective_apply [Scalar α] (hr : σ.record = some r) (o : Objective α)
    (columns : Handles Nat) :
    initObjective o columns σ =
      match o.expression.linearPart.keys.forM fun id => discard (columns.require id) with
      | .ok () => (.ok (), { σ with record := some { r with objective := some o } })
      | .error e => (.error e, σ) := by
  rw [initObjective, bind_apply, lookups_apply]
  cases o.expression.linearPart.keys.forM fun id => discard (columns.require id) with
  | error e => rfl
  | ok u =>
    change (record >>= _) σ = _
    rw [bind_apply, record_apply hr]
    rfl

/-- Solving leaves the record as it is. -/
theorem record_solving [Scalar α] {q : Request α Nat} (hq : q.IsSolving) (σ : State α) :
    ((recorder α).answer q σ).2.record = σ.record := by
  cases q with
  | compute columns => obtain ⟨_ | r, outcome, results⟩ := σ <;> rfl
  | extract columns => rfl
  | _ => exact hq.elim

end Hooks

section Answers

variable [Scalar α] {σ τ : State α} {r : Record α}

theorem answers_columns {es : List (String × Variable α × Nat)} (hr : σ.record = some r)
    (h : (recorder α).Answers σ (es.map fun e => ⟨.var e.2.1, .ok e.2.2⟩) τ) :
    τ.record = some { r with columns := r.columns ++ es.map (·.2.1.identifier) } := by
  induction es generalizing σ r with
  | nil =>
    cases h
    simpa using hr
  | cons e rest ih =>
    have ha : (recorder α).answer (.var e.2.1) σ = _ := initVariable_apply hr e.2.1
    rw [List.map_cons, Adapter.Answers, ha] at h
    simpa using ih rfl h.2

/-- A column's handle is its position in the record. -/
theorem answers_columns_numbered {es : List (String × Variable α × Nat)} (hr : σ.record = some r)
    (h : (recorder α).Answers σ (es.map fun e => ⟨.var e.2.1, .ok e.2.2⟩) τ) :
    es.map (·.2.2) = List.range' r.columns.length es.length := by
  induction es generalizing σ r with
  | nil => rfl
  | cons e rest ih =>
    have ha : (recorder α).answer (.var e.2.1) σ = _ := initVariable_apply hr e.2.1
    rw [List.map_cons, Adapter.Answers, ha] at h
    have hi : e.2.2 = r.columns.length := Except.ok.inj h.1
    rw [List.map_cons, List.length_cons, List.range'_succ, hi, ih rfl h.2]
    simp

theorem answers_rows {es : List (String × Constraint α × Nat)} {columns : Handles Nat}
    (hr : σ.record = some r)
    (h : (recorder α).Answers σ
      (es.map fun e => ⟨.constraint e.2.1 e.2.1.row columns, .ok e.2.2⟩) τ) :
    τ.record = some { r with rows := r.rows ++ es.map (·.2.1.row) } := by
  induction es generalizing σ r with
  | nil =>
    cases h
    simpa using hr
  | cons e rest ih =>
    have ha : (recorder α).answer (.constraint e.2.1 e.2.1.row columns) σ = _ :=
      initConstraint_apply hr e.2.1.row columns
    rw [List.map_cons, Adapter.Answers, ha] at h
    split at h
    · simpa using ih rfl h.2
    · cases h.1

theorem answers_rows_numbered {es : List (String × Constraint α × Nat)} {columns : Handles Nat}
    (hr : σ.record = some r)
    (h : (recorder α).Answers σ
      (es.map fun e => ⟨.constraint e.2.1 e.2.1.row columns, .ok e.2.2⟩) τ) :
    es.map (·.2.2) = List.range' r.rows.length es.length := by
  induction es generalizing σ r with
  | nil => rfl
  | cons e rest ih =>
    have ha : (recorder α).answer (.constraint e.2.1 e.2.1.row columns) σ = _ :=
      initConstraint_apply hr e.2.1.row columns
    rw [List.map_cons, Adapter.Answers, ha] at h
    split at h
    · have hi : e.2.2 = r.rows.length := Except.ok.inj h.1
      rw [List.map_cons, List.length_cons, List.range'_succ, hi, ih rfl h.2]
      simp
    · cases h.1

theorem answers_objective {objective : Option (Objective α)} {columns : Handles Nat}
    (hr : σ.record = some r) (hnone : r.objective = none)
    (h : (recorder α).Answers σ
      (objective.toList.map fun o => ⟨.objective o columns, .ok ()⟩) τ) :
    τ.record = some { r with objective } := by
  cases objective with
  | none =>
    cases h
    rw [hr, ← hnone]
  | some o =>
    have ha : (recorder α).answer (.objective o columns) σ = _ := initObjective_apply hr o columns
    rw [Option.toList_some, List.map_singleton, Adapter.Answers, ha] at h
    split at h
    · exact h.2 ▸ rfl
    · cases h.1

theorem answers_solves {xs : List (Exchange α Nat Nat)} (hx : ∀ x ∈ xs, x.request.IsSolving)
    (h : (recorder α).Answers σ xs τ) : τ.record = σ.record := by
  induction xs generalizing σ with
  | nil => rw [h]
  | cons x rest ih =>
    rw [ih (fun y hy => hx y (List.mem_cons_of_mem _ hy)) h.2]
    exact record_solving (hx x List.mem_cons_self) σ

end Answers

/-- The record of a model that is handed over. -/
structure Holds [Scalar α] (m : Model (recorder α)) (r : Record α) : Prop where
  identifier : r.identifier = m.identifier
  columns : r.columns = m.vars.entities.entries.map (·.2.entity.identifier)
  rows : r.rows = m.constraints.entities.entries.map (·.2.entity.row)
  objective : r.objective = m.objective

end Recorder

/-- What is recorded of a model that is initialized is what it has. -/
theorem Run.Reachable.holds [Unbounded α] {start : Recorder.State α} {s : Run (recorder α) ω}
    (h : s.Reachable start) (hs : s.model.stage = .initialized ∨ s.model.stage = .solved) :
    ∃ r, s.model.adapter.record = some r ∧ Recorder.Holds s.model r := by
  obtain ⟨t, ht, hts⟩ := h.observed
  obtain ⟨vars, constraints, solves, hm, hsolves⟩ := ht.valid.toReady (hts.stage ▸ hs)
  have ha := Reachable.answers (A := recorder α) ht
  rw [hm.served.exchanges, transcript, Adapter.answers_append] at ha
  obtain ⟨σ₁, ha, hrest⟩ := ha
  obtain ⟨σ₂, hcolumns, hrows⟩ := Adapter.answers_append.mp ha
  obtain ⟨σ₃, hobjective, hsolving⟩ := Adapter.answers_append.mp hrest
  have h₁ := Recorder.answers_columns (r := { identifier := t.model.identifier }) rfl hcolumns.2
  have h₂ := Recorder.answers_rows h₁ hrows
  have h₃ := Recorder.answers_objective h₂ rfl hobjective
  have h₄ := (Recorder.answers_solves (fun x hx => (hsolves x hx).1) hsolving).trans h₃
  have hv : vars.entries.map (·.2.1.identifier) =
      t.model.vars.entities.entries.map (·.2.entity.identifier) := by
    have := congrArg (List.map fun e => e.2.identifier) hm.vars
    simpa [Function.comp_def, Variable.forget] using this
  have hc : constraints.entries.map (·.2.1.row) =
      t.model.constraints.entities.entries.map (·.2.entity.row) := by
    have := congrArg (List.map fun e => e.2.row) hm.constraints
    simpa [Function.comp_def] using this
  rw [← hts.model]
  exact ⟨_, h₄, rfl, hv, hc, rfl⟩

/-- The handles of the recorder count the variables and the constraints, in ascending order. -/
theorem Run.Reachable.numbered [Unbounded α] {start : Recorder.State α} {s : Run (recorder α) ω}
    (h : s.Reachable start) (hs : s.model.stage = .initialized ∨ s.model.stage = .solved) :
    s.model.columns.Numbered ∧ s.model.columns.keys = s.model.vars.entities.keys ∧
      s.model.lines.Numbered ∧ s.model.lines.keys = s.model.constraints.entities.keys := by
  obtain ⟨t, ht, hts⟩ := h.observed
  obtain ⟨vars, constraints, solves, hm, -⟩ := ht.valid.toReady (hts.stage ▸ hs)
  have ha := Reachable.answers (A := recorder α) ht
  rw [hm.served.exchanges, transcript, Adapter.answers_append] at ha
  obtain ⟨σ₁, ha, -⟩ := ha
  obtain ⟨σ₂, hcolumns, hrows⟩ := Adapter.answers_append.mp ha
  have hrecord := Recorder.answers_columns (r := { identifier := t.model.identifier }) rfl hcolumns.2
  have hvars := Recorder.answers_columns_numbered (r := { identifier := t.model.identifier }) rfl
    hcolumns.2
  have hconstraints := Recorder.answers_rows_numbered hrecord hrows
  rw [← hts.model]
  refine ⟨?_, ?_, ?_, ?_⟩
  · exact hm.served.columns ▸ Table.numbered_handles hvars
  · exact (congrArg Table.keys hm.served.columns).trans (vars.keys_handles.trans hm.vars.keys)
  · exact hm.served.lines ▸ Table.numbered_handles hconstraints
  · exact (congrArg Table.keys hm.served.lines).trans
      (constraints.keys_handles.trans hm.constraints.keys)

end Milp

import Milp.Proofs.Idle
import Milp.Proofs.Recording

/-! Adapters that take whatever they are given, once they are told of a model. With such an adapter a sound
model on which no program waits is initialized, and nothing on it changes. -/
namespace Milp

variable {α β η κ ω : Type} {A : Adapter α η κ}

/-- Once it is told of a model, the adapter takes every variable, and every row and every objective that
comes with the handles of its variables. -/
structure Adapter.Obliging (A : Adapter α η κ) (Told : A.State → Prop) : Prop where
  model : ∀ id σ, ∃ τ, A.answer (.model id) σ = (.ok (), τ) ∧ Told τ
  takes : ∀ q σ, ¬q.IsSolving → q.Resolved → Told σ → ∃ b τ, A.answer q σ = (.ok b, τ) ∧ Told τ

namespace Run

/-- On its way through the phases the model stays as it is, and these variables have columns. -/
def Underway (m : Model A) (Told : A.State → Prop) (known : List String) (s : Run A ω) : Prop :=
  s.agenda.objective = none ∧ ∃ adapter columns lines stage, Told adapter ∧
    (∀ id ∈ known, columns.contains id = true) ∧ s.model = { m with adapter, columns, lines, stage }

/-- Without programs the step succeeds, and leaves the model on its way. -/
abbrev Passes (P : Run A ω → Prop) (x : Step A ω β) (Q : Run A ω → Prop) : Prop :=
  Triple P x (fun _ => Q) fun _ _ => False

variable {m : Model A} {Told : A.State → Prop} {known : List String}

theorem passes_enter (phase : Phase) :
    Passes (Underway m Told known) (enter phase : Step A ω Unit) (Underway m Told known) := by
  rintro s ⟨ho, adapter, columns, lines, stage, ht, hc, hm⟩
  refine ⟨ho, adapter, columns, lines, .initializing phase, ht, hc, ?_⟩
  change { s.model with stage := .initializing phase } = _
  rw [hm]

/-- A hook that answers leaves the adapter in another state, and all else as it is. -/
theorem passes_call {occasion : Occasion} {q : Request α η} {Told' : A.State → Prop}
    (hq : ∀ σ, Told σ → ∃ b τ, A.answer q σ = (.ok b, τ) ∧ Told' τ) :
    Passes (Underway m Told known) (call occasion (A.answer q) : Step A ω _)
      (Underway m Told' known) := by
  rintro s ⟨ho, adapter, columns, lines, stage, ht, hc, hm⟩
  obtain ⟨b, τ, hb, ht'⟩ := hq adapter ht
  have hcall : call occasion (A.answer q) s = (.ok b, s.withAdapter τ) := by
    have hadapter : s.model.adapter = adapter := by rw [hm]
    have hattempt : attempt (A.answer q) s = (.ok (.ok b), s.withAdapter τ) := by
      unfold attempt withAdapter
      rw [hadapter, hb]
    rw [call, bind_apply, hattempt]
    rfl
  rw [hcall]
  refine ⟨ho, τ, columns, lines, stage, ht', hc, ?_⟩
  change { s.model with adapter := τ } = _
  rw [hm]

theorem passes_initModel (hA : A.Obliging Told) :
    Passes (Underway m (fun _ => True) []) (initModel : Step A ω Unit) (Underway m Told []) := by
  refine (passes_enter .model).bind fun _ => Triple.get_bind fun s hs => ?_
  have hcall : Passes (Underway m (fun _ => True) [])
      (call (.phase .model) (A.answer (.model s.model.identifier)) : Step A ω _)
      (Underway m Told []) := by
    refine passes_call fun σ _ => ?_
    obtain ⟨τ, hτ, ht⟩ := hA.model s.model.identifier σ
    exact ⟨(), τ, hτ, ht⟩
  exact hcall.from_state hs

theorem passes_initVariables (hA : A.Obliging Told) :
    Passes (Underway m Told []) (initVariables : Step A ω Unit)
      (Underway m Told m.vars.entities.keys) := by
  refine (passes_enter .vars).bind fun _ => Triple.get_bind fun s hs => ?_
  have hvars : s.model.vars = m.vars := by
    obtain ⟨-, _, _, _, _, -, -, hm⟩ := hs
    rw [hm]
  rw [hvars]
  let I (done : List (String × Placed (Variable α))) : Run A ω → Prop :=
    Underway m Told (done.map (·.1))
  refine Triple.bind (Q := fun _ => I m.vars.entities.entries) ?_ fun _ => fun _ ht => ht
  refine Triple.from_state (P := I []) (Triple.forM I fun done e rest _ => ?_) hs
  refine (passes_call fun σ => hA.takes (.var e.2.entity) σ not_false trivial).bind fun column => ?_
  apply Triple.modify
  rintro t ⟨ho, adapter, columns, lines, stage, ht, hc, hm⟩
  refine ⟨ho, adapter, columns.insert e.1 column, lines, stage, ht, fun id hid => ?_, ?_⟩
  · rw [List.map_append, List.mem_append] at hid
    rw [Table.contains_insert]
    rcases hid with hid | hid
    · simp [hc id hid]
    · simp [List.mem_singleton.mp hid]
  · rw [hm]

variable [Unbounded α]

theorem passes_ensureSound (hi : m.issues = []) :
    Passes (Underway m Told known) (ensureSound : Step A ω Unit) (Underway m Told known) := by
  intro s hs
  have hissues : s.model.issues.isEmpty = true := by
    obtain ⟨-, _, _, _, _, -, -, hm⟩ := hs
    rw [hm]
    exact List.isEmpty_iff.mpr hi
  rw [ensureSound_apply hissues]
  exact hs

theorem passes_initConstraints (hA : A.Obliging Told) (hi : m.issues = []) :
    Passes (Underway m Told m.vars.entities.keys) (initConstraints : Step A ω Unit)
      (Underway m Told m.vars.entities.keys) := by
  refine (passes_enter .constraints).bind fun _ => Triple.get_bind fun s hs => ?_
  have hconstraints : s.model.constraints = m.constraints := by
    obtain ⟨-, _, _, _, _, -, -, hm⟩ := hs
    rw [hm]
  rw [hconstraints]
  refine Triple.bind (Q := fun _ => Underway m Told m.vars.entities.keys) ?_ fun _ => fun _ ht => ht
  refine Triple.from_state (Triple.forM (fun _ => Underway m Told m.vars.entities.keys)
    fun done e rest he => Triple.get_bind fun t ht => ?_) hs
  have hnamed : ∀ id ∈ e.2.entity.row.terms.map (·.1), t.model.columns.contains id = true := by
    obtain ⟨-, _, columns, _, _, -, hc, hm⟩ := ht
    intro id hid
    have hvar : m.vars.entities.contains id = true := Model.contains_of_row hi (by rw [he]; simp) hid
    rw [hm]
    exact hc id (Table.mem_keys.mpr hvar)
  let q : Request α η := .constraint e.2.entity e.2.entity.row t.model.columns
  have hcall : Passes (Underway m Told m.vars.entities.keys)
      (call (.phase .constraints) (A.answer q) : Step A ω _)
      (Underway m Told m.vars.entities.keys) :=
    passes_call fun σ => hA.takes q σ not_false hnamed
  refine (hcall.from_state ht).bind fun line => Triple.modify ?_
  rintro u ⟨ho, adapter, columns, lines, stage, ht, hc, hm⟩
  refine ⟨ho, adapter, columns, lines.insert e.1 line, stage, ht, hc, ?_⟩
  rw [hm]

theorem passes_handObjective (hA : A.Obliging Told) (hi : m.issues = []) :
    Passes (Underway m Told m.vars.entities.keys) (handObjective : Step A ω Unit)
      (Underway m Told m.vars.entities.keys) := by
  refine Triple.get_bind fun s hs => ?_
  dsimp only
  split
  next o ho =>
    have hnamed : ∀ id ∈ o.expression.names, s.model.columns.contains id = true := by
      obtain ⟨-, _, columns, _, _, -, hc, hm⟩ := hs
      rw [hm] at ho ⊢
      intro id hid
      have hvar : m.vars.contains id = true := (Model.issues_eq_nil.mp hi).2.2 o ho id hid
      exact hc id (Table.mem_keys.mpr hvar)
    have hcall : Passes (Underway m Told m.vars.entities.keys)
        (call (.phase .objective) (A.answer (.objective o s.model.columns)) : Step A ω _)
        (Underway m Told m.vars.entities.keys) :=
      passes_call fun σ => hA.takes (.objective o s.model.columns) σ not_false hnamed
    exact hcall.from_state hs
  next =>
    rintro t rfl
    exact hs

theorem passes_buildObjective :
    Passes (Underway m Told known) (buildObjective : Step A ω Unit) (Underway m Told known) := by
  refine Triple.get_bind fun s hs => ?_
  rw [hs.1]
  rintro t rfl
  exact hs

theorem passes_plainPhases (hA : A.Obliging Told) (hi : m.issues = []) :
    Passes (Underway m (fun _ => True) []) (plainPhases : Step A ω Unit)
      (Underway m Told m.vars.entities.keys) :=
  (passes_initModel hA).bind fun _ => (passes_enter .constantGroups).bind fun _ =>
    (passes_enter .variableGroups).bind fun _ => (passes_initVariables hA).bind fun _ =>
      (passes_enter .constraintGroups).bind fun _ => (passes_ensureSound hi).bind fun _ =>
        (passes_initConstraints hA hi).bind fun _ => (passes_enter .objective).bind fun _ =>
          passes_buildObjective.bind fun _ => passes_handObjective hA hi

/-- A sound model on which no program waits is initialized, and nothing that is declared on it changes. -/
theorem init_obliged (hA : A.Obliging Told) {s : Run A ω} (hs : s.model.stage = .declaring)
    (ha : ∀ k, (s.agenda.programs k).isEmpty = true) (ho : s.agenda.objective = none)
    (hi : s.model.issues = []) : ∃ t adapter columns lines, Run.init s = (.ok (), t) ∧
      t.model = { s.model with adapter, columns, lines, stage := .initialized } := by
  let start := s.record [.initStarted s.model.adapterName]
  have hstart : Underway s.model (fun _ => True) [] start :=
    ⟨ho, s.model.adapter, s.model.columns, s.model.lines, s.model.stage, trivial, nofun, rfl⟩
  have hphases := passes_plainPhases hA hi start hstart
  have hidle : phases start = plainPhases start := phases_idle ha
  match hr : plainPhases start with
  | (.ok (), t) =>
    rw [hr] at hphases
    obtain ⟨-, adapter, columns, lines, _, -, -, hm⟩ := hphases
    have hempty : s.model.issues.isEmpty = true := List.isEmpty_iff.mpr hi
    refine ⟨_, adapter, columns, lines, init_of_phases hs hempty (hidle.trans hr), ?_⟩
    change { t.model with stage := .initialized } = _
    rw [hm]
  | (.error e, t) =>
    rw [hr] at hphases
    exact hphases.elim

end Run

section Hooks

variable [Scalar α]

/-- The recorder is told of a model when it has a record. -/
theorem Recorder.obliging : (recorder α).Obliging fun σ => σ.record.isSome = true where
  model id σ := ⟨_, rfl, rfl⟩
  takes q σ hq hresolved htold := by
    obtain ⟨r, hr⟩ := Option.isSome_iff_exists.mp htold
    cases q with
    | model id => exact ⟨(), _, rfl, rfl⟩
    | var v => exact ⟨_, _, initVariable_apply hr v, rfl⟩
    | constraint c row columns =>
      have hlookups := lookups_eq_ok (f := Prod.fst) fun t ht =>
        hresolved t.1 (List.mem_map_of_mem (f := Prod.fst) ht)
      have ha := initConstraint_apply hr row columns
      rw [hlookups] at ha
      exact ⟨_, _, ha, rfl⟩
    | objective o columns =>
      have hlookups : (o.expression.linearPart.keys.forM fun id => discard (columns.require id)) =
          .ok () := lookups_eq_ok fun id hid =>
        hresolved id ((o.expression.contains_linearPart id).mp (Table.mem_keys.mp hid))
      have ha := initObjective_apply hr o columns
      rw [hlookups] at ha
      exact ⟨_, _, ha, rfl⟩
    | compute columns => exact absurd trivial hq
    | extract columns => exact absurd trivial hq

omit [Scalar α] in
theorem Matrix.exists_indexed {terms : List (String × α)} {columns : Handles Nat}
    (h : ∀ id ∈ terms.map (·.1), columns.contains id = true) :
    ∃ factors, indexed terms columns = .ok factors := by
  induction terms with
  | nil => exact ⟨[], rfl⟩
  | cons t rest ih =>
    obtain ⟨i, hi⟩ := Table.contains_iff.mp (h t.1 (by simp))
    obtain ⟨factors, hf⟩ := ih fun id hid => h id (List.mem_cons_of_mem _ hid)
    refine ⟨(i, t.2) :: factors, ?_⟩
    rw [indexed_cons, require_eq_ok.mpr hi, hf]
    rfl

theorem Matrix.obliging (oracle : Oracle α) :
    (matrix oracle).Obliging fun σ => σ.problem.isSome = true where
  model id σ := ⟨_, rfl, rfl⟩
  takes q σ hq hresolved htold := by
    obtain ⟨p, hp⟩ := Option.isSome_iff_exists.mp htold
    cases q with
    | model id => exact ⟨(), _, rfl, rfl⟩
    | var v => exact ⟨_, _, initVariable_apply hp v, rfl⟩
    | constraint c row columns =>
      obtain ⟨factors, hf⟩ := exists_indexed hresolved
      have ha := initConstraint_apply hp c row columns
      rw [hf] at ha
      exact ⟨_, _, ha, rfl⟩
    | objective o columns =>
      have hnames : ∀ id ∈ o.expression.reduce.linearPart.entries.map (·.1),
          columns.contains id = true := by
        intro id hid
        have hid : id ∈ o.expression.reduce.linearPart.keys := hid
        rw [Table.mem_keys, Expression.contains_linearPart, Expression.names_reduce,
          List.mem_eraseDups] at hid
        exact hresolved id hid
      obtain ⟨terms, ht⟩ := exists_indexed hnames
      have ha := initObjective_apply hp o columns
      rw [ht] at ha
      exact ⟨_, _, ha, rfl⟩
    | compute columns => exact absurd trivial hq
    | extract columns => exact absurd trivial hq

end Hooks
end Milp

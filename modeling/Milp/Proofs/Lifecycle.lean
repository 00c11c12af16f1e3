import Milp.Proofs.Initialized
import Milp.Proofs.Solves

/-! Whole lives of a model: operations in any order, and what the adapter has been asked at every
point. -/
namespace Milp

variable {α β γ η κ ω : Type} {A : Adapter α η κ}

/-- What the owner of a model does with it. A program stands for any declarations, restores and
lookups. -/
inductive Operation (A : Adapter α η κ) (ω : Type)
  | declare (P : Program A ω .group)
  | init
  | compute
  | extract

namespace Run

def new (token : Token) (id : String) (adapter : A.State) (world : ω) : Run A ω :=
  { model := .new token id adapter, world }

variable [Unbounded α]

/-- The run after an operation, whether it failed or not. -/
def after (s : Run A ω) : Operation A ω → Run A ω
  | .declare P => (P.run s).2
  | .init => (Run.init s).2
  | .compute => (Run.compute s).2
  | .extract => (Run.extract s).2

def afterAll (s : Run A ω) (os : List (Operation A ω)) : Run A ω := os.foldl after s

/-- A solve that leaves a model declaring was refused, -/
theorem after_compute_of_declaring {s : Run A ω} (h : (s.after .compute).model.stage = .declaring) :
    s.after .compute = s := by
  rcases compute_cases s with ⟨-, ht⟩ | ⟨-, ⟨_, _, _, _, -, ht⟩ | ⟨_, _, _, -, ht⟩⟩
  · exact congrArg Prod.snd ht
  all_goals
    rw [after, ht] at h
    cases h

/-- and so was a reading. -/
theorem after_extract_of_declaring {s : Run A ω} (h : (s.after .extract).model.stage = .declaring) :
    s.after .extract = s := by
  rcases extract_cases s with ⟨-, ht⟩ | ⟨hsolved, ⟨_, _, _, -, ht⟩ | ⟨_, _, -, ht⟩⟩
  · exact congrArg Prod.snd ht
  all_goals
    rw [after, ht] at h
    cases hsolved.symm.trans h

end Run

namespace Model

variable {m m' : Model A.observed}

theorem Alike.handedFor {columns : Table (Variable α × η)} (h : m.Alike m')
    (hc : HandedFor Variable.forget columns m.vars.entities.entries) :
    HandedFor Variable.forget columns m'.vars.entities.entries := by
  have hv : m'.declaredVars = m.declaredVars := h.vars
  exact Eq.trans hc hv.symm

variable [Scalar α]

theorem Alike.script (h : m.Alike m') : m'.script = m.script := by
  rw [Model.script, Model.script, h.identifier, h.vars, h.constraints, h.objective, h.columns]

theorem Alike.materialized {columns : Table (Variable α × η)} {lines : Table (Constraint α × κ)}
    {rest more : List (Exchange α η κ)} (h : m.Alike m') (hx : m'.exchanges = m.exchanges ++ more)
    (hm : m.Materialized columns lines rest) : m'.Materialized columns lines (rest ++ more) where
  served := ⟨by rw [hx, hm.served.exchanges, h.identifier, List.append_assoc],
    h.columns.trans hm.served.columns, h.lines.trans hm.served.lines⟩
  vars := h.handedFor hm.vars
  constraints := h.constraints ▸ hm.constraints
  objective := h.ownsObjective hm.objective
  sound := h.issues hm.sound

/-- An initialized model: the adapter was asked for the script, and then to solve some times. -/
def Ready (m : Model A.observed) : Prop :=
  ∃ columns lines solves, m.Materialized columns lines (m.objectiveExchanges ++ solves) ∧
    ∀ x ∈ solves, x.request.IsSolving ∧ ∀ e, x.answer = .error e →
      ∃ columns, x.request = .extract columns

theorem Ready.alike (h : m.Ready) (ha : m.Alike m') {more : List (Exchange α η κ)}
    (hx : m'.exchanges = m.exchanges ++ more)
    (hmore : ∀ x ∈ more, x.request.IsSolving ∧ ∀ e, x.answer = .error e →
      ∃ columns, x.request = .extract columns) :
    m'.Ready := by
  obtain ⟨columns, lines, solves, hm, hs⟩ := h
  refine ⟨columns, lines, solves ++ more, ?_, ?_⟩
  · have ho : m'.objectiveExchanges = m.objectiveExchanges := by
      rw [objectiveExchanges, objectiveExchanges, ha.objective, ha.columns]
    rw [ho, ← List.append_assoc]
    exact ha.materialized hx hm
  · intro x hx
    exact (List.mem_append.mp hx).elim (hs x) (hmore x)

theorem Ready.unasked (h : m.Ready) (ha : m.Alike m') (hx : m'.exchanges = m.exchanges) :
    m'.Ready := by
  have hmore : m'.exchanges = m.exchanges ++ [] := by rw [hx, List.append_nil]
  exact h.alike ha hmore (by simp)

theorem Stopped.alike (h : m.Stopped) (ha : m.Alike m') (hx : m'.exchanges = m.exchanges) :
    m'.Stopped where
  objective := ha.ownsObjective h.objective
  requests := by rw [Model.requests, hx, ha.script]; exact h.requests
  resolved := by rw [Model.requests, hx]; exact h.resolved
  refused := by rw [hx]; exact h.refused

theorem Ready.resolved (h : m.Ready) : ∀ q ∈ m.requests, q.Resolved := by
  obtain ⟨columns, lines, solves, hm, hs⟩ := h
  intro q hq
  obtain ⟨x, hx, rfl⟩ := List.mem_map.mp hq
  rw [hm.served.exchanges, List.mem_append, List.mem_append] at hx
  rcases hx with hx | hx | hx
  · exact resolved_transcript hm.constraints hm.contains_of_row x hx
  · obtain ⟨o, ho, rfl⟩ := List.mem_map.mp hx
    intro id hid
    have hc := (hm.objective o (Option.mem_toList.mp ho)).2 id hid
    rw [hm.served.columns, Table.handles, Table.contains_map, contains_of_handed hm.vars, hc]
  · exact (hs x hx).1.resolved

/-- The whole script was asked for, in its order, and then to solve. -/
theorem Ready.requests (h : m.Ready) : ∃ solves : List (Request α η), (∀ q ∈ solves, q.IsSolving) ∧
    m.requests.map Request.forget = m.script ++ solves := by
  obtain ⟨columns, lines, solves, hm, hs⟩ := h
  refine ⟨solves.map fun x => x.request.forget, ?_, ?_⟩
  · intro q hq
    obtain ⟨x, hx, rfl⟩ := List.mem_map.mp hq
    exact (hs x hx).1.forget
  · have hscript : m.exchanges.map (fun x => x.request.forget) =
        m.script ++ solves.map fun x => x.request.forget := by
      rw [hm.served.exchanges, List.map_append, requests_transcript hm.vars hm.constraints]
      simp [script, declaredVars, objectiveExchanges, Request.forget, hm.served.columns,
        Function.comp_def]
    rw [Model.requests, List.map_map]
    exact hscript

theorem Ready.refused (h : m.Ready) :
    ∀ x ∈ m.exchanges, (∃ e, x.answer = .error e) → ∃ columns, x.request = .extract columns := by
  obtain ⟨columns, lines, solves, hm, hs⟩ := h
  rintro x hx ⟨e, he⟩
  rw [hm.served.exchanges, List.mem_append, List.mem_append] at hx
  rcases hx with hx | hx | hx
  · exact absurd he (answer_transcript hx e)
  · obtain ⟨o, -, rfl⟩ := List.mem_map.mp hx
    cases he
  · exact (hs x hx).2 e he

theorem Ready.ownsObjective (h : m.Ready) : m.OwnsObjective := by
  obtain ⟨columns, lines, solves, hm, -⟩ := h
  exact hm.objective

/-- A solve that fails is the end. -/
theorem Ready.stopped (h : m.Ready) (ha : m.Alike m') {x : Exchange α η κ}
    (hx : m'.exchanges = m.exchanges ++ [x]) (hq : x.request.IsSolving) : m'.Stopped := by
  have hrequests : m'.requests = m.requests ++ [x.request] := by
    rw [Model.requests, hx, List.map_append]
    rfl
  obtain ⟨solves, hs, hscript⟩ := h.requests
  refine ⟨ha.ownsObjective h.ownsObjective, ⟨solves ++ [x.request.forget], ?_, ?_⟩, ?_, ?_⟩
  · simpa [or_imp, forall_and] using ⟨hs, hq.forget⟩
  · rw [hrequests, List.map_append, hscript, ha.script, List.append_assoc]
    exact List.prefix_rfl
  · rw [hrequests]
    simpa [or_imp, forall_and] using ⟨h.resolved, hq.resolved⟩
  · rw [hx, List.dropLast_concat]
    exact h.refused

/-- Where a model can stand between operations. -/
inductive Valid (m : Model A.observed) : Prop
  | declaring (hs : m.stage = .declaring) (h : m.Untouched)
  | ready (hs : m.stage = .initialized ∨ m.stage = .solved) (h : m.Ready)
  | failed (hs : m.stage = .failed) (h : m.Stopped)

theorem Valid.toReady (h : m.Valid) (hs : m.stage = .initialized ∨ m.stage = .solved) :
    m.Ready := by
  cases h with
  | declaring hs' => simp [hs'] at hs
  | ready _ h => exact h
  | failed hs' => simp [hs'] at hs

/-- What was asked for is a first part of the script, and after all of it only to solve. -/
theorem Valid.requests (h : m.Valid) : ∃ solves : List (Request α η), (∀ q ∈ solves, q.IsSolving) ∧
    m.requests.map Request.forget <+: m.script ++ solves := by
  cases h with
  | declaring _ h => exact ⟨[], by simp, by simp [Model.requests, h.exchanges]⟩
  | ready _ h =>
    obtain ⟨solves, hs, hr⟩ := h.requests
    exact ⟨solves, hs, hr ▸ List.prefix_rfl⟩
  | failed _ h => exact h.requests

/-- A refusal is the end, except that of values. -/
theorem Valid.refused (h : m.Valid) {before after : List (Exchange α η κ)} {x : Exchange α η κ}
    (hx : m.exchanges = before ++ x :: after) {e : AdapterError} (he : x.answer = .error e)
    (hq : ∀ columns, x.request ≠ .extract columns) : m.stage = .failed ∧ after = [] := by
  have hmem : x ∈ m.exchanges := by simp [hx]
  cases h with
  | declaring _ h => simp [h.exchanges] at hmem
  | ready _ h =>
    obtain ⟨columns, hc⟩ := h.refused x hmem ⟨e, he⟩
    exact absurd hc (hq columns)
  | failed hs h =>
    refine ⟨hs, by_contra fun hne => ?_⟩
    have hlast : x ∈ m.exchanges.dropLast := by
      rw [hx, List.dropLast_append_of_ne_nil (by simp), List.dropLast_cons_of_ne_nil hne]
      simp
    obtain ⟨columns, hc⟩ := h.refused x hlast ⟨e, he⟩
    exact absurd hc (hq columns)

theorem Valid.grows (h : m.Valid) (hg : m.Grows m') : m'.Valid := by
  have hx : m'.exchanges = m.exchanges := congrArg Prod.snd hg.adapter
  cases h with
  | declaring hs h => exact .declaring (hg.stage.trans hs) (h.grows hg)
  | ready hs h =>
    have ha : m.Alike m' := by
      rcases hs with hs | hs <;> exact hg.alike (by rw [hs]; rfl) (by rw [hs]; rfl)
        (by rw [hs]; rfl)
    exact .ready (hg.stage ▸ hs) (h.unasked ha hx)
  | failed hs h =>
    exact .failed (hg.stage.trans hs)
      (h.alike (hg.alike (by rw [hs]; rfl) (by rw [hs]; rfl) (by rw [hs]; rfl)) hx)

end Model

namespace Run

theorem alike_clearSolution (m : Model A) : m.Alike (clearSolution m) :=
  ⟨rfl, rfl, by simp [Model.declaredVars, clearSolution, Registry.mapEntities, Table.map,
    Variable.forget], rfl, rfl, rfl, rfl⟩

theorem alike_withResults (m : Model A) (values : Table α) : m.Alike (m.withResults values) := by
  refine ⟨rfl, rfl, ?_, rfl, rfl, rfl, rfl⟩
  simp [Model.declaredVars, Model.withResults, Table.map, Variable.forget]

variable [Unbounded α]

theorem handOver_triple :
    Triple (fun s : Run A.observed ω => s.model.stage = .declaring ∧ s.model.Untouched) handOver
      (fun _ s => s.model.Valid) (fun _ s => s.model.Valid) := by
  have hsound : Triple (fun s : Run A.observed ω => s.model.stage = .declaring ∧ s.model.Untouched)
      ensureSound (fun _ t => t.model.Untouched) (fun _ t => t.model.Valid) :=
    (ensureSound_triple (J := fun m => m.stage = .declaring ∧ m.Untouched)).imp (fun _ h => h)
      (fun _ _ h => h.1.2) fun _ _ h => .declaring h.1 h.2
  refine hsound.bind fun _ => Triple.get_bind fun t ht => ?_
  have hlog : Triple (fun u => u = t) (log [.initStarted t.model.adapterName])
      (fun _ u => u.model.Untouched) (fun _ u => u.model.Valid) := by
    rintro u rfl
    exact ht
  refine hlog.bind fun _ => Triple.bind (Q := fun _ u =>
    ∃ columns lines, u.model.Materialized columns lines u.model.objectiveExchanges) ?_ fun _ => ?_
  · refine phases_triple.tryCatch fun e => ?_
    intro u hu
    exact .failed rfl (hu.alike (Model.alike_with ..) rfl)
  · rintro u ⟨columns, lines, hm⟩
    refine .ready (.inl rfl) ⟨columns, lines, [], ?_, by simp⟩
    exact Model.Alike.materialized (Model.alike_with u.model ..) (List.append_nil _).symm hm

theorem init_triple :
    Triple (fun s : Run A.observed ω => s.model.Valid) Run.init (fun _ s => s.model.Valid)
    (fun _ s => s.model.Valid) := by
  refine Triple.get_bind fun s hs => Triple.guard (by rintro - t rfl; exact hs) fun hstage => ?_
  refine handOver_triple.imp ?_ (fun _ _ h => h) (fun _ _ h => h)
  rintro t rfl
  cases hs with
  | declaring hs h => exact ⟨hs, h⟩
  | ready hs => simp_all
  | failed hs => simp_all

theorem valid_compute {s : Run A.observed ω} (h : s.model.Valid) :
    (Run.compute s).2.model.Valid := by
  rcases compute_cases s with ⟨-, ht⟩ |
    ⟨hs, ⟨solution, events, state, journal, hr, ht⟩ | ⟨e, state, journal, hr, ht⟩⟩
  · rw [ht]
    exact h
  · obtain ⟨-, hx⟩ := Adapter.observe_eq hr
    have ha : s.model.Alike
        { clearSolution s.model with adapter := state, solution, stage := .solved } :=
      (alike_clearSolution s.model).trans (Model.alike_with ..)
    rw [ht]
    exact .ready (.inr rfl) ((h.toReady hs).alike ha hx (by simp [Request.IsSolving]))
  · obtain ⟨-, hx⟩ := Adapter.observe_eq hr
    have ha : s.model.Alike { clearSolution s.model with adapter := state, stage := .failed } :=
      (alike_clearSolution s.model).trans (Model.alike_with ..)
    rw [ht]
    exact .failed rfl ((h.toReady hs).stopped ha hx trivial)

theorem valid_extract {s : Run A.observed ω} (h : s.model.Valid) :
    (Run.extract s).2.model.Valid := by
  rcases extract_cases s with ⟨-, ht⟩ |
    ⟨hs, ⟨values, state, journal, hr, ht⟩ | ⟨e, state, hr, ht⟩⟩
  · rw [ht]
    exact h
  · obtain ⟨-, hx⟩ := Adapter.observe_eq hr
    have ha : s.model.Alike ({ s.model with adapter := state }.withResults values) :=
      (Model.alike_with ..).trans (alike_withResults _ values)
    rw [ht]
    exact .ready (.inr hs) ((h.toReady (.inr hs)).alike ha hx (by simp [Request.IsSolving]))
  · obtain ⟨-, hx⟩ := Adapter.observe_eq hr
    rw [ht]
    exact .ready (.inr hs)
      ((h.toReady (.inr hs)).alike (Model.alike_with ..) hx (by simp [Request.IsSolving]))

/-- Where a run can get from a new model, whose adapter starts in a given state, by operations in
any order. -/
inductive Reachable (start : A.State) : Run A ω → Prop
  | new (token : Token) (id : String) (world : ω) : Reachable start (new token id start world)
  | after {s : Run A ω} (h : Reachable start s) (o : Operation A ω) : Reachable start (s.after o)

theorem Reachable.afterAll {start : A.State} {s : Run A ω} (h : s.Reachable start)
    (os : List (Operation A ω)) :
    (s.afterAll os).Reachable start := by
  induction os generalizing s with
  | nil => exact h
  | cons o rest ih => exact ih (h.after o)

theorem Reachable.valid {start : A.State} {s : Run A.observed ω}
    (h : Reachable (A := A.observed) (start, []) s) :
    s.model.Valid := by
  induction h with
  | new token id world => exact .declaring rfl ⟨nofun, rfl, rfl, rfl⟩
  | after _ o ih =>
    cases o with
    | declare P => exact ih.grows (Model.grows_of_changes (Program.changes_run P _))
    | init => exact init_triple.after ih
    | compute => exact valid_compute ih
    | extract => exact valid_extract ih

end Run
end Milp

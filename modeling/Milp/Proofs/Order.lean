import Milp.Proofs.Handles
import Milp.Proofs.Solves

/-! The order in which a model calls its adapter over its whole life, and what a refusal ends. -/
namespace Milp

variable {α η κ ω : Type} {A : Adapter α η κ}

/-- What comes before an element that a first part of the list lacks has that part at its start. -/
theorem prefix_of_not_mem {β : Type} {l r before after : List β} {x : β}
    (h : before ++ x :: after <+: l ++ r) (hx : x ∉ l) : l <+: before := by
  obtain ⟨rest, h⟩ := h
  rw [List.append_assoc] at h
  rcases List.append_eq_append_iff.mp h with ⟨c, hl, hc⟩ | ⟨c, hb, -⟩
  · cases c with
    | nil => exact ⟨[], by rw [hl, List.append_nil, List.append_nil]⟩
    | cons y c =>
      obtain ⟨rfl, -⟩ := List.cons.inj hc
      exact absurd (hl ▸ by simp) hx
  · exact ⟨c, hb.symm⟩

namespace Request

theorem forget_of_isSolving {q : Request α η} (h : q.IsSolving) : q.forget = q := by
  cases q with
  | var => exact h.elim
  | _ => rfl

theorem isSolving_of_forget {q : Request α η} (h : q.forget.IsSolving) : q.IsSolving := by
  cases q <;> exact h

theorem forget_eq_var {q : Request α η} {v : Variable α} (h : q.forget = .var v) :
    ∃ w, q = .var w ∧ w.forget = v := by
  cases q with
  | var w => exact ⟨w, rfl, var.inj h⟩
  | _ => cases h

/-- Values are asked for only after a solve. -/
def Paced (qs : List (Request α η)) : Prop :=
  ∀ before columns after, qs = before ++ .extract columns :: after → ∃ c, .compute c ∈ before

theorem paced_of_not_isSolving {qs : List (Request α η)} (h : ∀ q ∈ qs, ¬q.IsSolving) :
    Paced qs := by
  rintro before columns after rfl
  exact absurd trivial (h (.extract columns) (by simp))

theorem Paced.concat {qs : List (Request α η)} (h : Paced qs) {q : Request α η}
    (hq : ∀ columns, q = .extract columns → ∃ c, .compute c ∈ qs) : Paced (qs ++ [q]) := by
  intro before columns after hqs
  rcases List.eq_nil_or_concat after with rfl | ⟨rest, last, rfl⟩
  · obtain ⟨rfl, hlast⟩ := List.append_inj' hqs rfl
    exact hq columns (List.singleton_inj.mp hlast)
  · rw [List.concat_eq_append, ← List.cons_append, ← List.append_assoc] at hqs
    exact h before columns rest (List.append_inj' hqs rfl).1

/-- Requests in the order of a script, with solves after it, begin to solve with a solve. -/
theorem Paced.prefix {qs script solves : List (Request α η)} (h : Paced qs)
    (hscript : ∀ q ∈ script, ¬q.IsSolving) (hsolves : ∀ q ∈ solves, q.IsSolving)
    (hp : qs.map forget <+: script ++ solves) :
    ∃ solves : List (Request α η), (∀ q ∈ solves, q.IsSolving) ∧
      (∀ q ∈ solves.head?, ∃ columns, q = .compute columns) ∧
      qs.map forget <+: script ++ solves := by
  obtain ⟨rest, hr⟩ := hp
  rcases List.append_eq_append_iff.mp hr with ⟨c, hc, -⟩ | ⟨c, hc, hs⟩
  · exact ⟨[], by simp, by simp, by rw [List.append_nil, hc]; exact List.prefix_append _ _⟩
  · refine ⟨c, fun q hq => hsolves q (by simp [hs, hq]), fun q hq => ?_, hc ▸ List.prefix_rfl⟩
    obtain ⟨c', rfl⟩ : ∃ c', c = q :: c' := List.head?_eq_some_iff.mp hq
    have hqs : q.IsSolving := hsolves q (by simp [hs])
    cases q with
    | compute columns => exact ⟨columns, rfl⟩
    | extract columns =>
      obtain ⟨before, last, rfl, hbefore, hlast⟩ := List.map_eq_append_iff.mp hc
      obtain ⟨x, after, rfl, hx, -⟩ := List.map_eq_cons_iff.mp hlast
      have hxs : x.IsSolving := isSolving_of_forget (hx ▸ trivial)
      rw [forget_of_isSolving hxs] at hx
      obtain ⟨columns', hm⟩ := h before columns after (by rw [hx])
      have : (Request.compute columns' : Request α η).forget ∈ script :=
        hbefore ▸ List.mem_map_of_mem hm
      exact absurd trivial (hscript _ this)
    | _ => exact hqs.elim

end Request

namespace Model

variable [Scalar α]

theorem not_isSolving_script {m : Model A.observed} : ∀ q ∈ m.script, ¬q.IsSolving := by
  intro q hq
  simp only [script, List.mem_append, List.mem_cons, List.mem_map] at hq
  rcases hq with ((rfl | ⟨e, -, rfl⟩) | ⟨e, -, rfl⟩) | ⟨o, -, rfl⟩ <;> exact not_false

/-- A constraint is asked for once every variable is there. -/
theorem Valid.materialized {m : Model A.observed} (h : m.Valid)
    {before after : List (Exchange α η κ)} {x : Exchange α η κ}
    (hx : m.exchanges = before ++ x :: after) {c : Constraint α} {row : Row α}
    {columns : Handles η} (hc : x.request = .constraint c row columns) :
    ∀ v ∈ m.vars.values, ∃ w handle, w.forget = v.forget ∧ ⟨.var w, .ok handle⟩ ∈ before := by
  intro v hv
  let opening : List (Request α η) := .model m.identifier :: m.declaredVars.map fun e => .var e.2
  obtain ⟨solves, -, hp⟩ := h.requests
  have hsplit : m.requests.map Request.forget = before.map (fun x => x.request.forget) ++
      .constraint c row columns :: after.map fun x => x.request.forget := by
    rw [Model.requests, hx, List.map_map, List.map_append, List.map_cons, Function.comp_apply, hc]
    rfl
  have hopening : opening <+: before.map fun x => x.request.forget := by
    rw [hsplit, script, List.append_assoc, List.append_assoc] at hp
    exact prefix_of_not_mem hp (by simp [opening])
  have hmem : Request.var v.forget ∈ opening := by
    obtain ⟨p, hp, rfl⟩ := List.mem_map.mp hv
    obtain ⟨e, he, rfl⟩ := List.mem_map.mp hp
    have hdeclared : (e.1, e.2.entity.forget) ∈ m.declaredVars := List.mem_map.mpr ⟨e, he, rfl⟩
    exact List.mem_cons_of_mem _ (List.mem_map.mpr ⟨_, hdeclared, rfl⟩)
  obtain ⟨y, hy, hyv⟩ := List.mem_map.mp (hopening.subset hmem)
  obtain ⟨w, hw, hforget⟩ := Request.forget_eq_var hyv
  obtain ⟨request, answer⟩ := y
  cases hw
  cases answer with
  | ok handle => exact ⟨w, handle, hforget, hy⟩
  | error e =>
    obtain ⟨b, b', rfl⟩ := List.append_of_mem hy
    rw [List.append_assoc] at hx
    have hend := (h.refused hx (x := ⟨.var w, .error e⟩) rfl (by simp)).2
    simp at hend

/-- At any time, values are asked for only after a solve, and a solved model had one. -/
structure Paced (m : Model A.observed) : Prop where
  requests : Request.Paced m.requests
  solved : m.stage = .solved → ∃ columns, .compute columns ∈ m.requests

omit [Scalar α] in
theorem Paced.unasked {m m' : Model A.observed} (h : m.Paced) (hx : m'.exchanges = m.exchanges)
    (hs : m'.stage = m.stage) : m'.Paced := by
  have hr : m'.requests = m.requests := by rw [Model.requests, hx, Model.requests]
  exact ⟨hr ▸ h.requests, fun h' => hr ▸ h.solved (hs ▸ h')⟩

end Model

namespace Run

theorem paced_compute {s : Run A.observed ω} (h : s.model.Paced) :
    (Run.compute s).2.model.Paced := by
  rcases compute_cases s with ⟨-, hm⟩ |
    ⟨-, ⟨solution, events, state, journal, hr, hm⟩ | ⟨e, state, journal, hr, hm⟩⟩
  · rw [hm]
    exact h
  all_goals
    obtain ⟨-, hx⟩ := Adapter.observe_eq hr
    have hrequests : (Run.compute s).2.model.requests =
        s.model.requests ++ [.compute s.model.columns] := by
      rw [hm, Model.requests, Model.exchanges, hx, List.map_append]
      rfl
    exact ⟨hrequests ▸ h.requests.concat (by simp),
      fun _ => ⟨s.model.columns, by simp [hrequests]⟩⟩

theorem paced_extract {s : Run A.observed ω} (h : s.model.Paced) :
    (Run.extract s).2.model.Paced := by
  rcases extract_cases s with ⟨-, hm⟩ |
    ⟨hs, ⟨values, state, journal, hr, hm⟩ | ⟨e, state, hr, hm⟩⟩
  · rw [hm]
    exact h
  all_goals
    obtain ⟨-, hx⟩ := Adapter.observe_eq hr
    have hrequests : (Run.extract s).2.model.requests =
        s.model.requests ++ [.extract s.model.columns] := by
      rw [hm, Model.requests]
      simp only [Model.withResults, Model.exchanges, hx, List.map_append]
      rfl
    obtain ⟨columns, hc⟩ := h.solved hs
    exact ⟨hrequests ▸ h.requests.concat fun _ _ => ⟨columns, hc⟩,
      fun _ => ⟨columns, by simp [hrequests, hc]⟩⟩

variable [Unbounded α]

/-- Initialization does not ask to solve. -/
theorem enduring_not_isSolving :
    Enduring fun s : Run A.observed ω => ∀ q ∈ s.model.requests, ¬q.IsSolving where
  log _ _ hs := hs
  stage _ _ hs := hs
  answer s q hq hs := by
    rw [Adapter.answer_observed]
    have hr : (s.withAdapter (A.observe q s.model.adapter).2).model.requests =
        s.model.requests ++ [q] := by
      simp [withAdapter, Model.requests, Model.exchanges, Adapter.observe]
    rw [hr]
    simpa [or_imp, forall_and] using ⟨hs, hq⟩
  column _ _ _ hs := hs
  line _ _ _ hs := hs
  rounds phase k := Triple.of_after fun s hs => by
    have ha := (Model.grows_of_changes (Program.changes_rounds phase k [] s)).adapter
    rw [Model.requests, Model.exchanges, ha]
    exact hs
  objective := by
    refine buildObjective_triple
      (J := fun m : Model A.observed => ∀ q ∈ m.requests, ¬q.IsSolving) fun m m' hg hm => ?_
    rw [Model.requests, Model.exchanges, hg.adapter]
    exact hm

theorem paced_init {s : Run A.observed ω} (hv : s.model.Valid) (h : s.model.Paced) :
    (Run.init s).2.model.Paced := by
  by_cases hs : s.model.stage = .declaring
  · have hnone : ∀ q ∈ s.model.requests, ¬q.IsSolving := by
      cases hv with
      | declaring _ hu => simp [Model.requests, hu.exchanges]
      | ready hs' => simp [hs] at hs'
      | failed hs' => simp [hs] at hs'
    rw [init_apply hs]
    exact ⟨Request.paced_of_not_isSolving (Triple.after enduring_not_isSolving.handOver hnone),
      fun h' => absurd h' (handOver_not_solved hs)⟩
  · rw [init_closed hs]
    exact h

theorem Reachable.paced {start : A.State} {s : Run A.observed ω}
    (h : Reachable (A := A.observed) (start, []) s) : s.model.Paced := by
  induction h with
  | new token id world => exact ⟨Request.paced_of_not_isSolving nofun, nofun⟩
  | @after s hr o ih =>
    cases o with
    | declare P =>
      have hg := Model.grows_of_changes (Program.changes_run P s)
      exact ih.unasked (congrArg Prod.snd hg.adapter) hg.stage
    | init => exact paced_init hr.valid ih
    | compute => exact paced_compute ih
    | extract => exact paced_extract ih

/-- A failed model stays failed, and leaves its adapter alone. -/
theorem failed_after {s : Run A ω} (h : s.model.stage = .failed) (o : Operation A ω) :
    (s.after o).model.stage = .failed ∧ (s.after o).model.adapter = s.model.adapter := by
  cases o with
  | declare P =>
    have hg := Model.grows_of_changes (Program.changes_run P s)
    exact ⟨hg.stage.trans h, hg.adapter⟩
  | init => rw [Run.after, init_closed (by simp [h])]; exact ⟨h, rfl⟩
  | compute => rw [Run.after, compute_closed (by simp [h])]; exact ⟨h, rfl⟩
  | extract => rw [Run.after, extract_closed (by simp [h])]; exact ⟨h, rfl⟩

theorem failed_afterAll {s : Run A ω} (h : s.model.stage = .failed) (os : List (Operation A ω)) :
    (s.afterAll os).model.stage = .failed ∧
      (s.afterAll os).model.adapter = s.model.adapter := by
  induction os generalizing s with
  | nil => exact ⟨h, rfl⟩
  | cons o rest ih =>
    obtain ⟨hs, ha⟩ := failed_after h o
    exact (ih hs).imp_right (·.trans ha)

/-- In every life of a model its adapter is asked in one order: for the model, for the variables,
for the constraints once every variable is there, for the objective, and then to solve and to read;
an initialized model has asked for all of it. A refusal, except one to read, is the last thing asked
for, and leaves the model failed. -/
theorem requests_in_order (token : Token) (id : String) (start : A.State) (world : ω)
    (os : List (Operation A ω)) :
    let s := (new token id start world).afterAll os
    let t := (new (A := A.observed) token id (start, []) world).afterAll (os.map Operation.observed)
    t.Observes s ∧ A.Answers start t.model.exchanges t.model.adapter.1 ∧
      (∃ solves : List (Request α η), (∀ q ∈ solves, q.IsSolving) ∧
        (∀ q ∈ solves.head?, ∃ columns, q = .compute columns) ∧
        t.model.requests.map Request.forget <+: t.model.script ++ solves) ∧
      (s.model.stage = .initialized ∨ s.model.stage = .solved →
        t.model.script <+: t.model.requests.map Request.forget) ∧
      (∀ before x after, t.model.exchanges = before ++ x :: after →
        (∃ c row columns, x.request = .constraint c row columns) →
        ∀ v ∈ t.model.vars.values, ∃ w handle, w.forget = v.forget ∧
          ⟨.var w, .ok handle⟩ ∈ before) ∧
      ∀ before x after, t.model.exchanges = before ++ x :: after → (∃ e, x.answer = .error e) →
        (∀ columns, x.request ≠ .extract columns) → after = [] ∧ ∀ os',
          let s' := s.afterAll os'
          let t' := t.afterAll (os'.map Operation.observed)
          t'.Observes s' ∧ t'.model.exchanges = t.model.exchanges ∧ s'.model.stage = .failed ∧
            Run.init s' = (.error (.lifecycle (.cannotInit .failed)), s') ∧
            Run.compute s' = (.error (.lifecycle (.cannotCompute .failed)), s') ∧
            Run.extract s' = (.error (.lifecycle (.cannotExtract .failed)), s') := by
  intro s t
  have hts : t.Observes s := (observes_new token id start world).afterAll os
  have ht : t.Reachable (start, []) := (Reachable.new token id world).afterAll _
  obtain ⟨solves, hsolves, hp⟩ := ht.valid.requests
  refine ⟨hts, ht.answers, ht.paced.requests.prefix Model.not_isSolving_script hsolves hp, ?_, ?_,
    ?_⟩
  · intro hs
    rw [hts.stage] at hs
    obtain ⟨_, -, hall⟩ := (ht.valid.toReady hs).requests
    rw [hall]
    exact List.prefix_append _ _
  · rintro before x after hx ⟨c, row, columns, hc⟩
    exact ht.valid.materialized hx hc
  · rintro before x after hx ⟨e, he⟩ hq
    obtain ⟨hfailed, hafter⟩ := ht.valid.refused hx he hq
    refine ⟨hafter, ?_⟩
    intro os' s' t'
    have hs' : s'.model.stage = .failed := (failed_afterAll (hts.stage.trans hfailed) os').1
    have hx' : t'.model.exchanges = t.model.exchanges :=
      congrArg Prod.snd (failed_afterAll hfailed _).2
    refine ⟨hts.afterAll os', hx', hs', ?_, ?_, ?_⟩
    · rw [init_closed (by simp [hs']), hs']
    · rw [compute_closed (by simp [hs']), hs']
    · rw [extract_closed (by simp [hs']), hs']

end Run
end Milp

import Milp.Proofs.CanonicalRow
import Milp.Proofs.Observed

/-! The seven phases: what the adapter is asked, and which handles the model is left with. -/
namespace Milp

variable {α β η κ ω E F : Type}

/-- The handles that were given out for some entities, each as `f` sees it, in ascending order. -/
def HandedFor (f : E → F) (handed : Table (E × β)) (entries : List (String × Placed E)) : Prop :=
  handed.entries.map (fun e => (e.1, f e.2.1)) = entries.map fun e => (e.1, f e.2.entity)

namespace HandedFor

variable {f : E → F} {handed : Table (E × β)} {entries : List (String × Placed E)}

theorem keys (h : HandedFor f handed entries) : handed.keys = entries.map (·.1) := by
  have := congrArg (List.map Prod.fst) h
  simpa [Table.keys, Function.comp_def] using this

theorem empty : HandedFor f (.empty : Table (E × β)) [] := rfl

/-- The next entity comes last. -/
theorem entries_insert (h : HandedFor f handed entries) {e : String × Placed E}
    (ha : (entries ++ [e]).Pairwise fun a b => a.1 < b.1) (x : β) :
    (handed.insert e.1 (e.2.entity, x)).entries = handed.entries ++ [(e.1, e.2.entity, x)] := by
  apply Table.entries_insert_of_last
  intro d hd
  have hk : d.1 ∈ entries.map (·.1) := h.keys ▸ List.mem_map_of_mem hd
  obtain ⟨d', hd', hdd⟩ := List.mem_map.mp hk
  exact hdd ▸ (List.pairwise_append.mp ha).2.2 d' hd' e (by simp)

theorem insert (h : HandedFor f handed entries) {e : String × Placed E}
    (ha : (entries ++ [e]).Pairwise fun a b => a.1 < b.1) (x : β) :
    HandedFor f (handed.insert e.1 (e.2.entity, x)) (entries ++ [e]) := by
  have hh : handed.entries.map (fun e => (e.1, f e.2.1)) = entries.map fun e =>
      (e.1, f e.2.entity) := h
  rw [HandedFor, h.entries_insert ha, List.map_append, List.map_append, hh]
  rfl

end HandedFor

variable {A : Adapter α η κ}

/-- The handles of a table of entities with handles. -/
def Table.handles (t : Table (E × β)) : Table β := t.map fun _ p => p.2

theorem Model.contains_of_handed {m : Model A} {columns : Table (Variable α × η)}
    (h : HandedFor Variable.forget columns m.vars.entities.entries) (id : String) :
    columns.contains id = m.vars.contains id := by
  rw [Bool.eq_iff_iff, ← Table.mem_keys, h.keys]
  exact Table.mem_keys

section Transcripts

variable [Scalar α]

/-- The exchanges in which the model is opened, and columns and lines are handed out. -/
def transcript (id : String) (columns : Table (Variable α × η)) (lines : Table (Constraint α × κ)) :
    List (Exchange α η κ) :=
  ⟨.model id, .ok ()⟩ :: columns.entries.map (fun e => ⟨.var e.2.1, .ok e.2.2⟩) ++
    lines.entries.map fun e => ⟨.constraint e.2.1 e.2.1.row columns.handles, .ok e.2.2⟩

namespace Model

/-- Everything that a model asks for while it is initialized, in order. -/
def script (m : Model A.observed) : List (Request α η) :=
  .model m.identifier :: m.declaredVars.map (fun e => .var e.2) ++
    m.constraints.entities.entries.map (fun e => .constraint e.2.entity e.2.entity.row m.columns) ++
    m.objective.toList.map fun o => .objective o m.columns

/-- The adapter has handed out just these columns and lines, and then answered the rest. -/
structure Served (m : Model A.observed) (columns : Table (Variable α × η))
    (lines : Table (Constraint α × κ)) (rest : List (Exchange α η κ)) : Prop where
  exchanges : m.exchanges = transcript m.identifier columns lines ++ rest
  columns : m.columns = columns.handles
  lines : m.lines = lines.handles

/-- The adapter was asked for a first part of the script, and perhaps to solve after all of it. Only
names that have handles were asked for, and a refusal was the end. -/
structure Stopped (m : Model A.observed) : Prop where
  objective : m.OwnsObjective
  requests : ∃ solves : List (Request α η), (∀ q ∈ solves, q.IsSolving) ∧
    m.requests.map Request.forget <+: m.script ++ solves
  resolved : ∀ q ∈ m.requests, q.Resolved
  refused : ∀ x ∈ m.exchanges.dropLast, (∃ e, x.answer = .error e) →
    ∃ columns, x.request = .extract columns

theorem Served.grows {m m' : Model A.observed} {columns : Table (Variable α × η)}
    {lines : Table (Constraint α × κ)} {rest : List (Exchange α η κ)}
    (h : m.Served columns lines rest) (hg : m.Grows m') :
    m'.Served columns lines rest where
  exchanges := by rw [Model.exchanges, hg.adapter, hg.identifier]; exact h.exchanges
  columns := hg.columns.trans h.columns
  lines := hg.lines.trans h.lines

/-- The model once the adapter has handed out these columns and lines, and nothing else happened to
it. -/
def serve (m : Model A.observed) (state : A.State) (columns : Table (Variable α × η))
    (lines : Table (Constraint α × κ)) (rest : List (Exchange α η κ)) : Model A.observed :=
  { m with
    adapter := (state, transcript m.identifier columns lines ++ rest)
    columns := columns.handles
    lines := lines.handles }

theorem served_serve (m : Model A.observed) (state : A.State) (columns : Table (Variable α × η))
    (lines : Table (Constraint α × κ)) (rest : List (Exchange α η κ)) :
    (m.serve state columns lines rest).Served columns lines rest := ⟨rfl, rfl, rfl⟩

theorem Served.serve_eq {m : Model A.observed} {columns : Table (Variable α × η)}
    {lines : Table (Constraint α × κ)} {rest : List (Exchange α η κ)}
    (h : m.Served columns lines rest) :
    m.serve m.adapter.1 columns lines rest = m := by
  have hx : transcript m.identifier columns lines ++ rest = m.adapter.2 := h.exchanges.symm
  rw [serve, hx, ← h.columns, ← h.lines]

end Model
end Transcripts

section Transcripts

variable [Scalar α] {id : String} {columns : Table (Variable α × η)}
  {lines : Table (Constraint α × κ)}

theorem transcript_column {k : String} {v : Variable α} {x : η}
    (h : (columns.insert k (v, x)).entries = columns.entries ++ [(k, v, x)]) :
    transcript id (columns.insert k (v, x)) (.empty : Table (Constraint α × κ)) =
      transcript id columns .empty ++ [⟨.var v, .ok x⟩] := by
  simp [transcript, h, Table.empty]

theorem transcript_line {k : String} {c : Constraint α} {x : κ}
    (h : (lines.insert k (c, x)).entries = lines.entries ++ [(k, c, x)]) :
    transcript id columns (lines.insert k (c, x)) =
      transcript id columns lines ++ [⟨.constraint c c.row columns.handles, .ok x⟩] := by
  simp [transcript, h]

theorem requests_transcript {vs : List (String × Placed (Variable α))}
    {cs : List (String × Placed (Constraint α))} (hv : HandedFor Variable.forget columns vs)
    (hc : HandedFor (fun c => c) lines cs) :
    (transcript id columns lines).map (fun x => x.request.forget) =
      .model id :: vs.map (fun e => .var e.2.entity.forget) ++
        cs.map fun e => .constraint e.2.entity e.2.entity.row columns.handles := by
  have h := congrArg (List.map fun e : String × Variable α => (Request.var e.2 : Request α η)) hv
  have h' := congrArg (List.map fun e : String × Constraint α =>
    (Request.constraint e.2 e.2.row columns.handles : Request α η)) hc
  simp only [List.map_map, Function.comp_def] at h h'
  simp [transcript, Request.forget, Function.comp_def, h, h']

theorem answer_transcript {x : Exchange α η κ} (h : x ∈ transcript id columns lines)
    (e : AdapterError) :
    x.answer ≠ .error e := by
  simp only [transcript, List.mem_cons, List.mem_append, List.mem_map] at h
  obtain (rfl | ⟨_, _, rfl⟩) | ⟨_, _, rfl⟩ := h <;> exact nofun

theorem resolved_transcript {cs : List (String × Placed (Constraint α))}
    (hc : HandedFor (fun c => c) lines cs)
    (h : ∀ e ∈ cs, ∀ n ∈ e.2.entity.row.terms.map (·.1), columns.contains n = true) :
    ∀ x ∈ transcript id columns lines, x.request.Resolved := by
  intro x hx
  simp only [transcript, List.mem_cons, List.mem_append, List.mem_map] at hx
  obtain (rfl | ⟨_, _, rfl⟩) | ⟨d, hd, rfl⟩ := hx
  · trivial
  · trivial
  · have hm : (d.1, d.2.1) ∈ cs.map fun e => (e.1, e.2.entity) := hc ▸ List.mem_map_of_mem hd
    obtain ⟨e, he, hed⟩ := List.mem_map.mp hm
    intro n hn
    rw [Table.handles, Table.contains_map]
    exact h e he n ((Prod.mk.inj hed).2 ▸ hn)

namespace Model

variable {m : Model A.observed}

/-- Work stops when a program fails, or at the first hook that does. -/
theorem Served.stopped {last : List (Exchange α η κ)} {vs : List (String × Placed (Variable α))}
    {cs : List (String × Placed (Constraint α))} (h : m.Served columns lines last)
    (ho : m.OwnsObjective) (hv : HandedFor Variable.forget columns vs)
    (hc : HandedFor (fun c => c) lines cs)
    (hn : ∀ e ∈ cs, ∀ n ∈ e.2.entity.row.terms.map (·.1), columns.contains n = true)
    (hlast : last.length ≤ 1) (hl : ∀ x ∈ last, x.request.Resolved)
    (hp : .model m.identifier :: vs.map (fun e => .var e.2.entity.forget) ++
      cs.map (fun e => .constraint e.2.entity e.2.entity.row columns.handles) ++
      last.map (fun x => x.request.forget) <+: m.script) : m.Stopped where
  objective := ho
  requests := by
    refine ⟨[], by simp, ?_⟩
    rw [Model.requests, List.map_map, h.exchanges, List.map_append, List.append_nil]
    have hr : (transcript m.identifier columns lines).map (fun x => x.request.forget) = _ :=
      requests_transcript hv hc
    exact hr ▸ hp
  resolved := by
    intro q hq
    obtain ⟨x, hx, rfl⟩ := List.mem_map.mp hq
    rw [h.exchanges, List.mem_append] at hx
    exact hx.elim (resolved_transcript hc hn x) (hl x)
  refused := by
    intro x hx
    have hT : x ∈ transcript m.identifier columns lines := by
      rw [h.exchanges] at hx
      cases last with
      | nil => exact List.dropLast_subset _ (by simpa using hx)
      | cons y rest =>
        have : rest = [] := List.eq_nil_of_length_eq_zero (by simpa using hlast)
        simpa [this] using hx
    rintro ⟨e, he⟩
    exact absurd he (answer_transcript hT e)

end Model
end Transcripts

theorem Table.handles_insert (t : Table (E × β)) (k : String) (x : E) (b : β) :
    (t.insert k (x, b)).handles = t.handles.insert k b := Table.map_insert ..

namespace Run

variable {P : Run A ω → Prop}

/-- The run with another state of the adapter. -/
def withAdapter (s : Run A ω) (state : A.State) : Run A ω :=
  { s with model := { s.model with adapter := state } }

/-- A hook of an observed adapter goes on record with its answer. -/
theorem call_triple {P : Run A.observed ω → Prop} {occasion : Occasion} {q : Request α η}
    {Q : q.Value κ → Run A.observed ω → Prop} {G : ModelError α → Run A.observed ω → Prop}
    (hok : ∀ s b state, P s → A.answer q s.model.adapter.1 = (.ok b, state) →
      Q b (s.withAdapter (state, s.model.exchanges ++ [⟨q, .ok b⟩])))
    (herr : ∀ s e state, P s → A.answer q s.model.adapter.1 = (.error e, state) →
      G (.adapter occasion e) (s.withAdapter (state, s.model.exchanges ++ [⟨q, .error e⟩]))) :
    Triple P (call occasion (A.observe q)) Q G := by
  intro s hs
  have ha : (attempt (A.observe q) : Step A.observed ω _) s = (.ok (A.answer q s.model.adapter.1).1,
    s.withAdapter ((A.answer q s.model.adapter.1).2,
      s.model.exchanges ++ [⟨q, (A.answer q s.model.adapter.1).1⟩])) := rfl
  simp only [call, bind_apply, ha]
  match hr : A.answer q s.model.adapter.1 with
  | (.ok b, state) => exact hok s b state hs hr
  | (.error e, state) => exact herr s e state hs hr

variable [Scalar α]

/-- One more answer of the adapter. -/
theorem model_withAdapter {n : Model A.observed} {s : Run A.observed ω} {state state' : A.State}
    {columns : Table (Variable α × η)} {lines : Table (Constraint α × κ)}
    (hm : s.model = n.serve state columns lines []) (x : Exchange α η κ) :
    (s.withAdapter (state', s.model.exchanges ++ [x])).model =
      n.serve state' columns lines [x] := by
  rw [withAdapter, hm, Model.exchanges, Model.serve, List.append_nil]
  rfl

theorem column_triple {n : Model A.observed} (ho : n.OwnsObjective)
    {e : String × Placed (Variable α)} {done rest : List (String × Placed (Variable α))}
    (he : n.vars.entities.entries = done ++ e :: rest) :
    Triple
      (fun s : Run A.observed ω => ∃ state columns, s.model = n.serve state columns .empty [] ∧
        HandedFor Variable.forget columns done)
      (do
        let column ← call (.phase .vars) (A.observed.initVariable e.2.entity)
        modifyModel fun m => { m with columns := m.columns.insert e.1 column })
      (fun _ s => ∃ state columns, s.model = n.serve state columns .empty [] ∧
        HandedFor Variable.forget columns (done ++ [e]))
      (fun _ s => s.model.Stopped) := by
  have ha : (done ++ [e]).Pairwise fun a b => a.1 < b.1 := Table.ascending_of_entries he
  refine Triple.bind (Q := fun column s => ∃ state columns,
    s.model = n.serve state columns .empty [⟨.var e.2.entity, .ok column⟩] ∧
    HandedFor Variable.forget columns done) (call_triple ?_ ?_) fun column => ?_
  · rintro s column state ⟨_, columns, hm, hc⟩ -
    exact ⟨state, columns, model_withAdapter hm _, hc⟩
  · rintro s err state ⟨_, columns, hm, hc⟩ -
    rw [model_withAdapter hm]
    refine (n.served_serve ..).stopped ho hc .empty (by simp) (by simp)
      (by simp [Request.Resolved]) ?_
    simp [Model.script, Model.serve, Model.declaredVars, he, List.append_assoc,
      List.prefix_append_right_inj, Function.comp_def, Request.forget]
  · refine Triple.modify ?_
    rintro s ⟨state, columns, hm, hc⟩
    refine ⟨state, columns.insert e.1 (e.2.entity, column), ?_, hc.insert ha column⟩
    rw [hm, Model.serve, Model.serve, transcript_column (hc.entries_insert ha column),
      Table.handles_insert, List.append_nil]

theorem initVariables_triple {m : Model A.observed} (hs : m.Served .empty .empty [])
    (ho : m.OwnsObjective) :
    Triple (fun s : Run A.observed ω => s.model = m) initVariables
      (fun _ s => ∃ state columns, s.model = { m with
        stage := .initializing .vars }.serve state columns .empty [] ∧
        HandedFor Variable.forget columns m.vars.entities.entries)
      (fun _ s => s.model.Stopped) := by
  let n : Model A.observed := { m with stage := .initializing .vars }
  have hn : n.Served .empty .empty [] := ⟨hs.exchanges, hs.columns, hs.lines⟩
  have henter : Triple (fun s : Run A.observed ω => s.model = m) (enter .vars)
      (fun _ s => s.model = n) (fun _ s => s.model.Stopped) := by
    rintro s rfl
    exact rfl
  let I (done : List (String × Placed (Variable α))) (s : Run A.observed ω) : Prop :=
    ∃ state columns, s.model = n.serve state columns .empty [] ∧
      HandedFor Variable.forget columns done
  refine henter.bind fun _ => Triple.get_bind fun s hs => ?_
  rw [hs]
  refine Triple.bind (Q := fun _ => I n.vars.entities.entries) ?_ fun _ => ?_
  · refine (Triple.forM I fun done e rest he => column_triple (n := n) ho he).imp ?_
      (fun _ _ h => h) (fun _ _ h => h)
    rintro t rfl
    exact ⟨n.adapter.1, .empty, hs.trans hn.serve_eq.symm, .empty⟩
  · intro s hs
    exact hs

theorem line_triple {n : Model A.observed} (ho : n.OwnsObjective) {columns : Table (Variable α × η)}
    (hv : HandedFor Variable.forget columns n.vars.entities.entries)
    (hn : ∀ e ∈ n.constraints.entities.entries, ∀ id ∈ e.2.entity.row.terms.map (·.1),
      columns.contains id = true)
    {e : String × Placed (Constraint α)} {done rest : List (String × Placed (Constraint α))}
    (he : n.constraints.entities.entries = done ++ e :: rest) :
    Triple
      (fun s : Run A.observed ω => ∃ state lines, s.model = n.serve state columns lines [] ∧
        HandedFor (fun c => c) lines done)
      (do
        let c := e.2.entity
        let line ← call (.phase .constraints)
          (A.observed.initConstraint c c.row (← get).model.columns)
        modifyModel fun m => { m with lines := m.lines.insert e.1 line })
      (fun _ s => ∃ state lines, s.model = n.serve state columns lines [] ∧
        HandedFor (fun c => c) lines (done ++ [e]))
      (fun _ s => s.model.Stopped) := by
  have ha : (done ++ [e]).Pairwise fun a b => a.1 < b.1 := Table.ascending_of_entries he
  refine Triple.get_bind fun s hs => ?_
  have hcolumns : s.model.columns = columns.handles := by
    obtain ⟨state, lines, hm, -⟩ := hs
    rw [hm, Model.serve]
  rw [hcolumns]
  refine Triple.bind (Q := fun line s => ∃ state lines,
    s.model = n.serve state columns lines
      [⟨.constraint e.2.entity e.2.entity.row columns.handles, .ok line⟩] ∧
        HandedFor (fun c => c) lines done) (call_triple ?_ ?_) fun line => ?_
  · rintro s line state rfl -
    obtain ⟨_, lines, hm, hc⟩ := hs
    exact ⟨state, lines, model_withAdapter hm _, hc⟩
  · rintro s err state rfl -
    obtain ⟨_, lines, hm, hc⟩ := hs
    rw [model_withAdapter hm]
    refine (n.served_serve ..).stopped ho hv hc (fun d hd => hn d (by simp [he, hd]))
      (by simp) ?_ ?_
    · simpa [Request.Resolved, Table.handles] using hn e (by simp [he])
    · simp [Model.script, Model.serve, Model.declaredVars, he, List.append_assoc,
        List.prefix_append_right_inj, Function.comp_def, Request.forget]
  · refine Triple.modify ?_
    rintro s ⟨state, lines, hm, hc⟩
    refine ⟨state, lines.insert e.1 (e.2.entity, line), ?_, hc.insert ha line⟩
    rw [hm, Model.serve, Model.serve, transcript_line (hc.entries_insert ha line),
      Table.handles_insert, List.append_nil]

theorem initConstraints_triple {m : Model A.observed} {columns : Table (Variable α × η)}
    (hs : m.Served columns .empty []) (ho : m.OwnsObjective)
    (hv : HandedFor Variable.forget columns m.vars.entities.entries)
    (hn : ∀ e ∈ m.constraints.entities.entries, ∀ id ∈ e.2.entity.row.terms.map (·.1),
      columns.contains id = true) :
    Triple (fun s : Run A.observed ω => s.model = m) initConstraints
      (fun _ s => ∃ state lines, s.model = { m with
        stage := .initializing .constraints }.serve state columns lines [] ∧
        HandedFor (fun c => c) lines m.constraints.entities.entries)
      (fun _ s => s.model.Stopped) := by
  let n : Model A.observed := { m with stage := .initializing .constraints }
  have hn' : n.Served columns .empty [] := ⟨hs.exchanges, hs.columns, hs.lines⟩
  have henter : Triple (fun s : Run A.observed ω => s.model = m) (enter .constraints)
      (fun _ s => s.model = n) (fun _ s => s.model.Stopped) := by
    rintro s rfl
    exact rfl
  let I (done : List (String × Placed (Constraint α))) (s : Run A.observed ω) : Prop :=
    ∃ state lines, s.model = n.serve state columns lines [] ∧ HandedFor (fun c => c) lines done
  refine henter.bind fun _ => Triple.get_bind fun s hs => ?_
  rw [hs]
  refine Triple.bind (Q := fun _ => I n.constraints.entities.entries) ?_ fun _ => ?_
  · refine (Triple.forM I fun done e rest he => line_triple (n := n) ho hv hn he).imp ?_
      (fun _ _ h => h) (fun _ _ h => h)
    rintro t rfl
    exact ⟨n.adapter.1, .empty, hs.trans hn'.serve_eq.symm, .empty⟩
  · intro s hs
    exact hs

end Run
end Milp

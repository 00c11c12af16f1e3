import Milp.Proofs.Obliging
import Milp.Proofs.Problem
import Milp.Proofs.RoundTrip

/-! A captured model that is restored on a fresh one is handed over as the model itself was, although it
has no programs, and only collected expressions. -/
namespace Milp

variable {α β η κ η' κ' ω ω' : Type}

/-- Numbered keys determine their table. -/
theorem Table.Numbered.eq {t u : Table Nat} (ht : t.Numbered) (hu : u.Numbered)
    (hk : u.keys = t.keys) : u = t := by
  apply Table.ext_find?
  intro id
  apply Option.ext
  intro i
  rw [hu.find?_eq_some_iff, ht.find?_eq_some_iff, hk]

/-- Who owns an expression does not matter to its net coefficients. -/
theorem Expression.linearPart_withOwner [Scalar α] (owner owner' : Token) (ts : List (Term α)) :
    (⟨owner, ts.map (Term.withOwner owner')⟩ : Expression α).linearPart =
      (⟨owner, ts⟩ : Expression α).linearPart := by
  unfold linearPart
  rw [List.foldl_map]
  congr 1
  funext t term
  cases term <;> rfl

namespace Objective

variable [Scalar α]

/-- What an adapter can see of an objective: its direction, its net coefficients, and its offset. -/
def net (o : Objective α) : Direction × Table α × α :=
  (o.direction, o.expression.reduce.linearPart, o.expression.reduce.constantPart)

end Objective

namespace Expression

variable (owner : Token) (e : Expression Extended)

theorem linearPart_reduce_collected :
    (e.collected owner).reduce.linearPart = e.reduce.linearPart := by
  rw [reduce_collected, linearPart_withOwner]
  rfl

theorem constantPart_reduce_collected :
    (e.collected owner).reduce.constantPart = e.reduce.constantPart := by
  have hconstants : (e.collected owner).reduce.constants = e.reduce.constants := by
    rw [reduce_collected, constants_eq, constants_eq, List.filterMap_map]
    exact List.filterMap_congr fun t _ => t.constant?_withOwner owner
  rw [constantPart, constantPart, hconstants]

end Expression

namespace Model.CopyOf

variable {A : Adapter Extended η κ} {A' : Adapter Extended η' κ'} {m : Model A} {m' : Model A'}

theorem contains (h : m'.CopyOf m) (id : String) : m'.vars.contains id = m.vars.contains id := by
  rw [h.vars]
  exact Table.contains_map ..

theorem keys (h : m'.CopyOf m) : m'.vars.entities.keys = m.vars.entities.keys := by
  rw [h.vars]
  exact Table.keys_map ..

/-- What is sound stays sound. -/
theorem issues (h : m'.CopyOf m) (hi : m.issues = []) : m'.issues = [] := by
  obtain ⟨hvars, hconstraints, hobjective⟩ := issues_eq_nil.mp hi
  refine issues_eq_nil.mpr ⟨fun e he => ?_, fun e he => ?_, fun o ho id hid => ?_⟩
  · rw [declaredVars, h.vars] at he
    obtain ⟨_, hcopied, rfl⟩ := List.mem_map.mp he
    obtain ⟨d, hd, rfl⟩ := List.mem_map.mp hcopied
    exact hvars (d.1, d.2.entity.forget) (List.mem_map_of_mem hd)
  · rw [h.constraints] at he
    obtain ⟨d, hd, rfl⟩ := List.mem_map.mp he
    obtain ⟨hrow, hnames⟩ := hconstraints d hd
    refine ⟨(congrArg Row.hasVariables (d.2.entity.row_collected _)).trans hrow, fun id hid => ?_⟩
    rw [h.contains]
    apply hnames
    rcases List.mem_append.mp hid with hid | hid
    · exact List.mem_append_left _ (Expression.names_collected _ _ id hid)
    · exact List.mem_append_right _ (Expression.names_collected _ _ id hid)
  · rw [h.objective] at ho
    obtain ⟨o', ho', rfl⟩ := Option.mem_map.mp ho
    rw [h.contains]
    exact hobjective o' ho' id (Expression.names_collected _ _ id hid)

/-- A copy stays one with another adapter, other handles, and at another stage. -/
theorem of_with (h : m'.CopyOf m) (adapter : A'.State) (columns : Handles η') (lines : Handles κ')
    (stage : Stage) : CopyOf { m' with adapter, columns, lines, stage } m :=
  ⟨h.identifier, h.vars, h.constraints, h.constants, h.objective, h.solution⟩

theorem columns (h : m'.CopyOf m) : m'.vars.entities.entries.map (·.2.entity.column) =
    m.vars.entities.entries.map (·.2.entity.column) := by
  rw [h.vars]
  simp [Registry.copy, Table.map, Function.comp_def, Variable.column, Variable.moveTo]

theorem net (h : m'.CopyOf m) : m'.objective.map Objective.net = m.objective.map Objective.net := by
  rw [h.objective]
  cases m.objective with
  | none => rfl
  | some o =>
    simp only [Option.map_some, Objective.net, Expression.linearPart_reduce_collected,
      Expression.constantPart_reduce_collected]

end Model.CopyOf

/-- The recorder has the same of a copy as of the original. -/
theorem Recorder.Holds.copy {m m' : Model (recorder Extended)} {r r' : Record Extended}
    (h : Holds m r) (h' : Holds m' r') (hm : m'.CopyOf m) :
    r'.identifier = r.identifier ∧ r'.columns = r.columns ∧ r'.rows = r.rows ∧
      r'.objective.map Objective.net = r.objective.map Objective.net := by
  refine ⟨?_, ?_, ?_, ?_⟩
  · rw [h.identifier, h'.identifier, hm.identifier]
  · rw [h.columns, h'.columns, hm.vars]
    simp [Registry.copy, Table.map, Function.comp_def, Variable.moveTo]
  · rw [h.rows, h'.rows, hm.constraints]
    simp [Registry.copy, Table.map, Function.comp_def, Constraint.row_collected]
  · rw [h.objective, h'.objective, hm.net]

namespace Matrix

theorem LineFor.unique [Scalar α] {columns : Handles Nat} {c : Constraint α} {l l' : Line α}
    (h : LineFor columns c l) (h' : LineFor columns c l') : l = l' := by
  have hfactors : l.factors = l'.factors := Except.ok.inj (h.factors.symm.trans h'.factors)
  cases l
  cases l'
  simp only [Line.mk.injEq]
  exact ⟨h.identifier.trans h'.identifier.symm, hfactors, h.comparison.trans h'.comparison.symm,
    h.bound.trans h'.bound.symm⟩

theorem LineFor.of_collected {columns : Handles Nat} {c : Constraint Extended} {owner : Token}
    {l : Line Extended} (h : LineFor columns (c.collected owner) l) : LineFor columns c l where
  identifier := h.identifier
  factors := c.row_collected owner ▸ h.factors
  comparison := h.comparison
  bound := c.row_collected owner ▸ h.bound

/-- The costs of a problem with so many columns depend on nothing but what can be seen of the objective. -/
theorem Priced.unique [Scalar α] {columns : Handles Nat} {o o' : Option (Objective α)}
    {p p' : Problem α} (h : Priced columns o p) (h' : Priced columns o' p')
    (ho : o'.map Objective.net = o.map Objective.net) (hp : p'.columns = p.columns) :
    p'.costs = p.costs ∧ p'.offset = p.offset ∧ p'.direction = p.direction := by
  cases o with
  | none =>
    obtain rfl : o' = none := Option.map_eq_none_iff.mp ho
    obtain ⟨hc, hoffset, hd⟩ := h
    obtain ⟨hc', hoffset', hd'⟩ := h'
    exact ⟨by rw [hc, hc', hp], hoffset'.trans hoffset.symm, hd'.trans hd.symm⟩
  | some o =>
    obtain ⟨o', rfl, hnet⟩ := Option.map_eq_some_iff.mp ho
    obtain ⟨hdirection, hlinear, hconstant⟩ : o'.direction = o.direction ∧
        o'.expression.reduce.linearPart = o.expression.reduce.linearPart ∧
        o'.expression.reduce.constantPart = o.expression.reduce.constantPart := by
      simpa [Objective.net] using hnet
    obtain ⟨terms, ht, hc, hoffset, hd⟩ := h
    obtain ⟨terms', ht', hc', hoffset', hd'⟩ := h'
    rw [hlinear] at ht'
    obtain rfl : terms' = terms := Except.ok.inj (ht'.symm.trans ht)
    refine ⟨by rw [hc, hc', hp], ?_, ?_⟩
    · rw [hoffset, hoffset', hconstant]
    · rw [hd, hd', hdirection]

/-- A copy is assembled into the same problem. -/
theorem Assembles.copy {oracle oracle' : Oracle Extended} {m : Model (matrix oracle)}
    {m' : Model (matrix oracle')} {p p' : Problem Extended} (h : Assembles m p)
    (h' : Assembles m' p') (hm : m'.CopyOf m) : p' = p := by
  have hcolumns : p'.columns = p.columns := by rw [h.columns, h'.columns, hm.columns]
  have hhandles : m'.columns = m.columns := by
    refine h.numberedColumns.eq h'.numberedColumns ?_
    rw [h.columnKeys, h'.columnKeys, hm.keys]
  have hlines : p'.lines = p.lines := by
    have hcopied := h'.lines
    rw [hhandles, hm.constraints] at hcopied
    have hall := (List.forall₂_map_left_iff.mp hcopied).imp fun _ _ hl => LineFor.of_collected hl
    exact List.right_unique_forall₂' (fun _ _ _ hl hl' => hl.unique hl') hall h.lines
  have hpriced := h.priced.unique (hhandles ▸ h'.priced) hm.net hcolumns
  cases p
  cases p'
  simp only [Problem.mk.injEq]
  exact ⟨h'.identifier.trans (hm.identifier.trans h.identifier.symm), hcolumns, hlines, hpriced⟩

end Matrix

/-- The column that a request asks for, if it asks for one. -/
def Request.column? : Request α η → Option (Column α)
  | .var v => some v.column
  | _ => none

theorem Request.column?_forget (q : Request α η) : q.forget.column? = q.column? := by
  cases q <;> rfl

theorem Request.IsSolving.column? {q : Request α η} (h : q.IsSolving) : q.column? = none := by
  cases q with
  | var => exact h.elim
  | _ => rfl

theorem Model.columns_script [Scalar α] {A : Adapter α η κ} (m : Model A.observed) :
    m.script.filterMap Request.column? = m.vars.entities.entries.map (·.2.entity.column) := by
  have hvars : (m.declaredVars.map fun e => (.var e.2 : Request α η)).filterMap Request.column? =
      m.vars.entities.entries.map (·.2.entity.column) := by
    rw [declaredVars, List.filterMap_map, List.filterMap_map]
    exact congrFun List.filterMap_eq_map _
  have hconstraints : (m.constraints.entities.entries.map fun e =>
      (.constraint e.2.entity e.2.entity.row m.columns : Request α η)).filterMap Request.column? =
      [] := by
    simp [List.filterMap_map, Function.comp_def, Request.column?]
  have hobjective : (m.objective.toList.map fun o =>
      (.objective o m.columns : Request α η)).filterMap Request.column? = [] := by
    simp [List.filterMap_map, Function.comp_def, Request.column?]
  rw [script, List.filterMap_append, List.filterMap_append, List.filterMap_cons, hvars, hconstraints,
    hobjective, List.append_nil, List.append_nil]
  rfl

namespace Run

section Asked

variable {A : Adapter α η κ} [Unbounded α]

/-- The columns that an adapter is asked for in the life of a model, in their order. -/
def askedColumns (token : Token) (id : String) (start : A.State) (world : ω)
    (os : List (Operation A ω)) : List (Column α) :=
  ((new (A := A.observed) token id (start, []) world).afterAll
    (os.map Operation.observed)).model.requests.filterMap Request.column?

/-- Once a model is initialized, there was one for each variable. -/
theorem askedColumns_eq (token : Token) (id : String) (start : A.State) (world : ω)
    (os : List (Operation A ω)) (hs : ((new token id start world).afterAll os).model.stage =
      .initialized ∨ ((new token id start world).afterAll os).model.stage = .solved) :
    askedColumns token id start world os =
      ((new token id start world).afterAll os).model.vars.entities.entries.map
        (·.2.entity.column) := by
  let t := (new (A := A.observed) token id (start, []) world).afterAll (os.map Operation.observed)
  have hts : t.Observes ((new token id start world).afterAll os) :=
    (observes_new token id start world).afterAll os
  have ht : t.Reachable (start, []) := (Reachable.new token id world).afterAll _
  obtain ⟨solves, hsolves, hrequests⟩ := (ht.valid.toReady (hts.stage ▸ hs)).requests
  have hcolumns : t.model.requests.filterMap Request.column? =
      (t.model.requests.map Request.forget).filterMap Request.column? := by
    rw [List.filterMap_map]
    exact List.filterMap_congr fun q _ => q.column?_forget.symm
  have hnone : solves.filterMap Request.column? = [] :=
    List.filterMap_eq_nil_iff.mpr fun q hq => (hsolves q hq).column?
  have hvars : t.model.vars = ((new token id start world).afterAll os).model.vars :=
    congrArg Model.vars hts.model
  unfold askedColumns
  rw [hcolumns, hrequests, List.filterMap_append, hnone, List.append_nil, t.model.columns_script, hvars]

end Asked
end Run

/-- Restores a document. -/
def Program.restoring {A : Adapter α η κ} (d : Document α) : Program A ω .group :=
  .act (.restore d) fun r => .finish r

namespace Run

/-- With the document of an initialized model restored on it, a fresh model is a copy of that one, and it
is initialized. -/
theorem copyOf_rebuilt {A : Adapter Extended η κ} {A' : Adapter Extended η' κ'} (hA : A.Usual)
    (hA' : A'.Usual) {Told : A'.State → Prop} (hO : A'.Obliging Told) {start : A.State} {s : Run A ω}
    (h : s.Reachable start) (hs : s.model.stage = .initialized ∨ s.model.stage = .solved)
    (hb : ∀ id p, s.model.vars.entities.find? id = some p →
      p.entity.lower ≠ .infinite false ∧ p.entity.upper ≠ .infinite true)
    (token : Token) (adapter : A'.State) (world : ω') :
    let P : Program A' ω' .group := .restoring s.model.document
    let fresh := new token s.model.identifier adapter world
    let t := fresh.afterAll [.declare P, .init]
    s.model.capture = .ok s.model.document ∧ (P.run fresh).1 = .ok () ∧
      (Run.init (fresh.after (.declare P))).1 = .ok () ∧ t.model.stage = .initialized ∧
      t.model.CopyOf s.model := by
  intro P fresh t
  have hm := h.regular hA
  have hrestore : Edit.Leads fresh.model (Edit.restore s.model.document) ()
      (fresh.model.takeOver s.model) :=
    leads_restore (Model.regular_new hA' _ _ _) rfl hm
      (fun id p hp => hm.storable_of_bounds hp (hb id p hp).1 (hb id p hp).2)
      fun k _ _ => by cases k <;> rfl
  obtain ⟨journal, hj⟩ := hrestore fresh.journal
  let restored : Run A' ω' := { fresh with model := fresh.model.takeOver s.model, journal }
  have hcopy : restored.model.CopyOf s.model := Model.copyOf_takeOver hm token adapter
  have hrun : P.run fresh = (.ok (), restored) := by
    simp only [P, restored, Program.restoring, Program.run, edit, Action.perform, hj]
  have hafter : fresh.after (.declare P) = restored := congrArg Prod.snd hrun
  obtain ⟨u, adapter', columns, lines, hinit, hu⟩ := init_obliged hO (s := restored) rfl
    (fun k => by cases k <;> rfl) rfl (hcopy.issues (h.sound hs))
  have ht : t = u := by
    change (fresh.after (.declare P)).after .init = u
    rw [hafter]
    exact congrArg Prod.snd hinit
  refine ⟨Model.capture_eq hm.vars.named hm.constraints.named hm.constants.named,
    congrArg Prod.fst hrun, ?_, ?_, ?_⟩
  · rw [hafter]
    exact congrArg Prod.fst hinit
  · rw [ht, hu]
  · rw [ht, hu]
    exact hcopy.of_with adapter' columns lines .initialized

/-- With the recorder and with the matrix adapter, whatever programs it was built by: an initialized model
whose lower bounds are less than infinity, and its upper bounds more than minus infinity, can be captured, and
restored on a fresh model of its name. That one is initialized, and its adapter is given the same: the
same columns and rows in the same order, and the same objective once like terms are collected, or none. -/
theorem rebuilt_as_handed (token token' : Token) (id : String) (world : ω) (world' : ω') :
    (∀ (start adapter : Recorder.State Extended) (os : List (Operation (recorder Extended) ω)),
      let s := (new token id start world).afterAll os
      (s.model.stage = .initialized ∨ s.model.stage = .solved) →
      (∀ id p, s.model.vars.entities.find? id = some p →
        p.entity.lower ≠ .infinite false ∧ p.entity.upper ≠ .infinite true) →
      ∃ d, s.model.capture = .ok d ∧
        let P : Program (recorder Extended) ω' .group := .restoring d
        let fresh := new token' s.model.identifier adapter world'
        let t := fresh.afterAll [.declare P, .init]
        (P.run fresh).1 = .ok () ∧ (Run.init (fresh.after (.declare P))).1 = .ok () ∧
          askedColumns (A := recorder Extended) token' s.model.identifier adapter world'
              [.declare P, .init] =
            askedColumns (A := recorder Extended) token id start world os ∧
          ∃ r r', s.model.adapter.record = some r ∧ t.model.adapter.record = some r' ∧
            r'.identifier = r.identifier ∧ r'.columns = r.columns ∧ r'.rows = r.rows ∧
            r'.objective.map Objective.net = r.objective.map Objective.net) ∧
    ∀ (oracle oracle' : Oracle Extended) (start adapter : Matrix.State Extended)
      (os : List (Operation (matrix oracle) ω)),
      let s := (new token id start world).afterAll os
      (s.model.stage = .initialized ∨ s.model.stage = .solved) →
      (∀ id p, s.model.vars.entities.find? id = some p →
        p.entity.lower ≠ .infinite false ∧ p.entity.upper ≠ .infinite true) →
      ∃ d, s.model.capture = .ok d ∧
        let P : Program (matrix oracle') ω' .group := .restoring d
        let fresh := new token' s.model.identifier adapter world'
        let t := fresh.afterAll [.declare P, .init]
        (P.run fresh).1 = .ok () ∧ (Run.init (fresh.after (.declare P))).1 = .ok () ∧
          ∃ p, s.model.adapter.problem = some p ∧ t.model.adapter.problem = some p := by
  constructor
  · intro start adapter os s hs hb
    have hA : (recorder Extended).Usual := fun _ => ⟨rfl, rfl⟩
    have hreachable : s.Reachable start := (Reachable.new token id world).afterAll os
    obtain ⟨hcapture, hrun, hinit, hstage, hcopy⟩ :=
      copyOf_rebuilt hA hA Recorder.obliging hreachable hs hb token' adapter world'
    have hreachable' : ((new token' s.model.identifier adapter world').afterAll
        [.declare (.restoring s.model.document), .init] : Run (recorder Extended) ω').Reachable adapter :=
      (Reachable.new token' _ world').afterAll _
    obtain ⟨r, hr, hholds⟩ := hreachable.holds hs
    obtain ⟨r', hr', hholds'⟩ := hreachable'.holds (.inl hstage)
    refine ⟨s.model.document, hcapture, hrun, hinit, ?_, r, r', hr, hr', hholds.copy hholds' hcopy⟩
    rw [askedColumns_eq _ _ _ _ _ hs, askedColumns_eq _ _ _ _ _ (.inl hstage)]
    exact hcopy.columns
  · intro oracle oracle' start adapter os s hs hb
    have hA (oracle : Oracle Extended) : (matrix oracle).Usual := fun _ => ⟨rfl, rfl⟩
    have hreachable : s.Reachable start := (Reachable.new token id world).afterAll os
    obtain ⟨hcapture, hrun, hinit, hstage, hcopy⟩ := copyOf_rebuilt (hA oracle) (hA oracle')
      (Matrix.obliging oracle') hreachable hs hb token' adapter world'
    have hreachable' : ((new token' s.model.identifier adapter world').afterAll
        [.declare (.restoring s.model.document), .init] : Run (matrix oracle') ω').Reachable adapter :=
      (Reachable.new token' _ world').afterAll _
    obtain ⟨p, hp, hassembles⟩ := hreachable.assembles hs
    obtain ⟨p', hp', hassembles'⟩ := hreachable'.assembles (.inl hstage)
    have hsame : p' = p := hassembles.copy hassembles' hcopy
    exact ⟨s.model.document, hcapture, hrun, hinit, p, hp, hsame ▸ hp'⟩

/-- A load that is limited: what is on both sides of the limit is collected, and an upper bound is open. -/
theorem rebuilt_as_handed_load :
    let oracle : Oracle Extended := fun _ _ _ => ⟨.status .optimal, []⟩
    let s : Run (recorder Extended) Unit :=
      (new ⟨0⟩ "load" ({} : Recorder.State Extended) ()).afterAll [.declare Program.load, .init]
    let u : Run (matrix oracle) Unit :=
      (new ⟨0⟩ "load" ({} : Matrix.State Extended) ()).afterAll [.declare Program.load, .init]
    s.model.stage = .initialized ∧ u.model.stage = .initialized ∧
      (∃ d r', s.model.capture = .ok d ∧
        ((new ⟨1⟩ "load" ({} : Recorder.State Extended) ()).afterAll
          [.declare (.restoring d), .init] : Run (recorder Extended) Unit).model.adapter.record =
            some r' ∧ r'.columns = ["boxes"]) ∧
      ∃ d p, u.model.capture = .ok d ∧ u.model.adapter.problem = some p ∧
        p.columns.map (fun c => (c.identifier, c.integer)) = [("boxes", true)] ∧
        p.lines.map (·.identifier) = ["limit"] ∧
        ((new ⟨1⟩ "load" ({} : Matrix.State Extended) ()).afterAll
          [.declare (.restoring d), .init] : Run (matrix oracle) Unit).model.adapter.problem =
            some p := by
  intro oracle s u
  have hs : s = ((new ⟨0⟩ "load" ({} : Recorder.State Extended) ()).after
    (.declare Program.load)).after .init := rfl
  have hu : u = (loaded.after .init) := rfl
  rw [after_init_idle (fun k => by cases k <;> rfl) rfl
    (by decide +kernel) (by decide +kernel)] at hs
  rw [after_init_idle (fun k => by cases k <;> rfl) rfl
    (by decide +kernel) (by decide +kernel)] at hu
  have hstage : s.model.stage = .initialized := by rw [hs]
  have hstage' : u.model.stage = .initialized := by rw [hu]
  have hbounds : ∀ e ∈ s.model.vars.entities.entries,
      e.2.entity.lower ≠ .infinite false ∧ e.2.entity.upper ≠ .infinite true := by
    rw [hs]
    decide +kernel
  have hbounds' : ∀ e ∈ u.model.vars.entities.entries,
      e.2.entity.lower ≠ .infinite false ∧ e.2.entity.upper ≠ .infinite true := by
    rw [hu]
    decide +kernel
  have hcolumns : s.model.adapter.record.map (·.columns) = some ["boxes"] := by
    rw [hs]
    decide +kernel
  have hproblem : u.model.adapter.problem.map (fun p => (p.columns.map fun c => (c.identifier, c.integer),
      p.lines.map (·.identifier))) = some ([("boxes", true)], ["limit"]) := by
    rw [hu]
    decide +kernel
  have hname : s.model.identifier = "load" := by
    rw [hs]
    decide +kernel
  have hname' : u.model.identifier = "load" := by
    rw [hu]
    decide +kernel
  obtain ⟨hrecorder, hmatrix⟩ := rebuilt_as_handed ⟨0⟩ ⟨1⟩ "load" () ()
  have hrecorded := hrecorder {} {} [.declare Program.load, .init]
  have hassembled := hmatrix oracle oracle {} {} [.declare Program.load, .init]
  rw [show afterAll _ _ = s from rfl] at hrecorded
  rw [show afterAll _ _ = u from rfl] at hassembled
  -- From here on it does not matter which runs these are.
  clear_value s u
  obtain ⟨d, hd, -, -, -, r, r', hr, hr', -, hc, -⟩ := hrecorded (.inl hstage) fun id p hp =>
    hbounds _ (Table.find?_eq_some_iff.mp hp)
  obtain ⟨d', hd', -, -, p, hp, hp'⟩ := hassembled (.inl hstage') fun id p hp =>
    hbounds' _ (Table.find?_eq_some_iff.mp hp)
  rw [hname] at hr'
  rw [hname'] at hp'
  rw [hr] at hcolumns
  rw [hp] at hproblem
  obtain ⟨hpc, hpl⟩ := Prod.mk.inj (Option.some.inj hproblem)
  exact ⟨hstage, hstage', ⟨d, r', hd, hr', hc.trans (Option.some.inj hcolumns)⟩, d', p, hd', hp, hpc, hpl, hp'⟩

end Run
end Milp

import Milp.Proofs.Activity
import Milp.Proofs.Idle
import Milp.Proofs.Regular

/-! The assembled problem states the model: its columns, its lines and its costs mean what was
declared. -/
namespace Milp

variable {ω : Type}

/-- A bijection between the registered names and the positions of a list. -/
structure Handles.Bijective (handles : Handles Nat) (registered : String → Bool)
    (count : Nat) : Prop where
  contains : ∀ id, handles.contains id = registered id
  lt : ∀ id i, handles.find? id = some i → i < count
  existsUnique : ∀ i, i < count → ∃! id, handles.find? id = some i

theorem Handles.bijective_of_numbered {handles : Handles Nat} {E : Type} {t : Table E}
    (hn : handles.Numbered) (hk : handles.keys = t.keys) {count : Nat} (hc : count = t.size) :
    handles.Bijective t.contains count where
  contains id := by rw [Bool.eq_iff_iff, ← Table.mem_keys, ← Table.mem_keys, hk]
  lt id i hi := by
    have hlt := hn.lt hi
    rwa [← Table.length_keys, hk, Table.length_keys, ← hc] at hlt
  existsUnique i hi := by
    have hlen : handles.keys.length = count := by rw [hk, hc, Table.length_keys]
    have hlt : i < handles.keys.length := hlen ▸ hi
    refine ⟨handles.keys[i], hn.find?_eq_some_iff.mpr (List.getElem?_eq_getElem hlt),
      fun id hid => ?_⟩
    exact (List.getElem?_eq_some_iff.mp (hn.find?_eq_some_iff.mp hid)).2.symm

/-- The values that an assignment gives the variables of a model. -/
def Model.assigned {oracle : Oracle Extended} (m : Model (matrix oracle)) (x : String → Rat) :
    Table Extended :=
  (m.vars.entities.map fun id _ => x id).map fun _ => .finite

/-- The values that it gives the columns of a problem. -/
def Problem.assigned (p : Problem Extended) (x : String → Rat) : List Extended :=
  (p.columns.map fun c => x c.identifier).map .finite

/-- The problem means what the model declares: columns are its variables, lines hold when its
constraints do, and costs come to the value of its objective. -/
structure Problem.States {oracle : Oracle Extended} (p : Problem Extended)
    (m : Model (matrix oracle)) : Prop where
  identifier : p.identifier = m.identifier
  columns : m.columns.Bijective m.vars.contains p.columns.length
  column : ∀ id q i, m.vars.entities.find? id = some q → m.columns.find? id = some i →
    p.columns[i]? = some ⟨id, q.entity.lower, q.entity.upper, q.entity.varType.isIntegral⟩
  lines : m.lines.Bijective m.constraints.contains p.lines.length
  line : ∀ id q i, m.constraints.entities.find? id = some q → m.lines.find? id = some i →
    ∃ l, p.lines[i]? = some l ∧ l.identifier = id ∧
      (Extended.FiniteTerms q.entity.left → Extended.FiniteTerms q.entity.right →
        ∀ x : String → Rat, ∃ a b v,
          q.entity.left.evaluate (m.assigned x) = some a ∧
          q.entity.right.evaluate (m.assigned x) = some b ∧
          l.activity (p.assigned x) = some v ∧
          ∀ t, q.entity.comparison.holds a b (.finite t) = l.comparison.holds v l.bound (.finite t))
  factors : ∀ l ∈ p.lines, (l.factors.map Prod.fst).Nodup ∧ ∀ i ∈ l.factors.map Prod.fst,
    i < p.columns.length
  checked : Matrix.checkLines p = .ok ()
  objective : ∀ o, m.objective = some o →
    p.direction = some o.direction ∧ p.costs.length = p.columns.length ∧
    (∀ id c, o.expression.reduce.linearPart.find? id = some c →
      ∃ i, m.columns.find? id = some i ∧ p.costs[i]? = some c) ∧
    (Extended.FiniteTerms o.expression → ∀ x : String → Rat,
      o.expression.evaluate (m.assigned x) = some (Matrix.objectiveAt p (p.assigned x)))
  noObjective : m.objective = none →
    p.direction = none ∧ p.costs = List.replicate p.columns.length (.finite 0) ∧
      p.offset = .finite 0

namespace Matrix

variable {oracle : Oracle Extended} {m : Model (matrix oracle)} {p : Problem Extended}

namespace Assembles

theorem column (h : Assembles m p) (hm : m.Regular) {id : String} {q : Placed (Variable Extended)}
    {i : Nat} (hq : m.vars.entities.find? id = some q) (hi : m.columns.find? id = some i) :
    p.columns[i]? = some ⟨id, q.entity.lower, q.entity.upper, q.entity.varType.isIntegral⟩ := by
  have he := Table.getElem?_entries hq (h.columnKeys ▸ h.numberedColumns.find?_eq_some_iff.mp hi)
  have hid : q.entity.identifier = id := (hm.vars.entities id q hq).2.1
  rw [h.columns, List.getElem?_map, he, Option.map_some, Variable.column, hid]

/-- A column has the value of its variable. -/
theorem assigned (h : Assembles m p) (hm : m.Regular) (x : String → Rat) {id : String} {i : Nat}
    (hi : m.columns.find? id = some i) :
    (p.columns.map fun c => x c.identifier)[i]? = some (x id) := by
  have hc : m.vars.entities.contains id = true := by
    rw [← Table.mem_keys, ← h.columnKeys, Table.mem_keys]
    exact Table.contains_of_find? hi
  obtain ⟨q, hq⟩ := Table.contains_iff.mp hc
  rw [List.getElem?_map, h.column hm hq hi]
  rfl

theorem find?_assigned {x : String → Rat} {id : String} (h : m.vars.contains id = true) :
    (m.vars.entities.map fun id _ => x id).find? id = some (x id) := by
  obtain ⟨q, hq⟩ := Table.contains_iff.mp h
  rw [Table.find?_map, hq]
  rfl

/-- The line of a constraint holds when the constraint does. -/
theorem line (h : Assembles m p) (hm : m.Regular) {id : String} {q : Placed (Constraint Extended)}
    {i : Nat} (hq : m.constraints.entities.find? id = some q) (hi : m.lines.find? id = some i) :
    ∃ l, p.lines[i]? = some l ∧ l.identifier = id ∧
      (Extended.FiniteTerms q.entity.left → Extended.FiniteTerms q.entity.right →
        ∀ x : String → Rat, ∃ a b v,
          q.entity.left.evaluate (m.assigned x) = some a ∧
          q.entity.right.evaluate (m.assigned x) = some b ∧
          l.activity (p.assigned x) = some v ∧
          ∀ t, q.entity.comparison.holds a b (.finite t) =
            l.comparison.holds v l.bound (.finite t)) := by
  have he := Table.getElem?_entries hq (h.lineKeys ▸ h.numberedLines.find?_eq_some_iff.mp hi)
  obtain ⟨hlt, hei⟩ := List.getElem?_eq_some_iff.mp he
  have hlt' : i < p.lines.length := h.lines.length_eq ▸ hlt
  have hl : LineFor m.columns q.entity p.lines[i] := by
    have := h.lines.get hlt hlt'
    rwa [List.get_eq_getElem, hei] at this
  obtain ⟨hleft, hright, -⟩ := hm.sides id q hq
  refine ⟨p.lines[i], List.getElem?_eq_getElem hlt',
    hl.identifier.trans (hm.constraints.entities id q hq).2.1, ?_⟩
  intro hfl hfr x
  have hx (n : String) (hn : n ∈ q.entity.left.names ++ q.entity.right.names) :
      (m.vars.entities.map fun id _ => x id).find? n = some (x n) :=
    find?_assigned ((List.mem_append.mp hn).elim (hleft.2 n) (hright.2 n))
  obtain ⟨a, b, v, ha, hb, hv, ht⟩ := Extended.holds_row hfl hfr hx
  refine ⟨a, b, v, ha, hb, ?_, fun t => ?_⟩
  · rw [← hv]
    refine hl.activity fun n j hj => ?_
    have hnj := h.assigned hm x hj
    have hc : m.vars.contains n = true := by
      rw [Registry.contains, ← Table.mem_keys, ← h.columnKeys, Table.mem_keys]
      exact Table.contains_of_find? hj
    rw [Problem.assigned, List.getElem?_map, hnj, Table.find?_map, find?_assigned hc]
  · rw [hl.comparison, hl.bound]
    exact ht t

theorem length_columns (h : Assembles m p) : p.columns.length = m.vars.entities.size := by
  rw [h.columns]
  exact List.length_map _

theorem size_columns (h : Assembles m p) : m.columns.size = p.columns.length := by
  rw [h.length_columns, ← Table.length_keys, ← Table.length_keys, h.columnKeys]

theorem factors (h : Assembles m p) :
    ∀ l ∈ p.lines, (l.factors.map Prod.fst).Nodup ∧ ∀ i ∈ l.factors.map Prod.fst,
      i < p.columns.length := by
  intro l hl
  obtain ⟨j, hj, rfl⟩ := List.mem_iff_getElem.mp hl
  have hfor := h.lines.get (h.lines.length_eq ▸ hj) hj
  rw [← h.size_columns]
  exact ⟨hfor.nodup h.numberedColumns, hfor.lt h.numberedColumns⟩

/-- No line speaks of a column that is not there. -/
theorem checked (h : Assembles m p) : checkLines p = .ok () := by
  rw [checkLines, forM_eq_ok]
  intro l hl
  rw [forM_eq_ok]
  intro f hf
  rw [if_pos ((h.factors l hl).2 f.1 (List.mem_map_of_mem hf))]

/-- The costs come to the objective, and each net coefficient is the cost of its column. -/
theorem objective (h : Assembles m p) (hm : m.Regular) {o : Objective Extended}
    (ho : m.objective = some o) :
    p.direction = some o.direction ∧ p.costs.length = p.columns.length ∧
      (∀ id c, o.expression.reduce.linearPart.find? id = some c →
        ∃ i, m.columns.find? id = some i ∧ p.costs[i]? = some c) ∧
      (Extended.FiniteTerms o.expression → ∀ x : String → Rat,
        o.expression.evaluate (m.assigned x) = some (objectiveAt p (p.assigned x))) := by
  have hp : Priced m.columns (some o) p := ho ▸ h.priced
  have hpriced := hp
  obtain ⟨factors, hi, hc, -, hd⟩ := hp
  refine ⟨hd, by rw [hc, length_costsOf], fun id c hid => ?_, fun hf x => ?_⟩
  · obtain ⟨i, hfind, hmem⟩ := exists_of_indexed hi (Table.find?_eq_some_iff.mp hid)
    have hnodup : (factors.map Prod.fst).Nodup :=
      indexed_nodup h.numberedColumns hi (Table.nodup_keys _)
    have hlt : i < p.columns.length := h.size_columns ▸ h.numberedColumns.lt hfind
    refine ⟨i, hfind, ?_⟩
    rw [hc, getElem?_costsOf hnodup hmem hlt, Extended.zero_add]
  · have hx (id : String) (hid : id ∈ o.expression.names) :
        (m.vars.entities.map fun id _ => x id).find? id = some (x id) :=
      find?_assigned ((hm.objective o ho).2 id hid)
    exact hpriced.evaluate hf (List.length_map _) (fun id i hi => h.assigned hm x hi) hx

theorem states (h : Assembles m p) (hm : m.Regular) : p.States m where
  identifier := h.identifier
  columns := Handles.bijective_of_numbered h.numberedColumns h.columnKeys h.length_columns
  column _ _ _ hq hi := h.column hm hq hi
  lines := Handles.bijective_of_numbered h.numberedLines h.lineKeys h.lines.length_eq.symm
  line _ _ _ hq hi := h.line hm hq hi
  factors := h.factors
  checked := h.checked
  objective _ ho := h.objective hm ho
  noObjective ho := by
    have hp : Priced m.columns none p := ho ▸ h.priced
    exact ⟨hp.2.2, hp.1, hp.2.1⟩

end Assembles
end Matrix

/-- In every life of a model, what a matrix solver gets once initialization is done states the
model. -/
theorem Run.problem_states {oracle : Oracle Extended} {start : Matrix.State Extended}
    {s : Run (matrix oracle) ω} (h : s.Reachable start)
    (hs : s.model.stage = .initialized ∨ s.model.stage = .solved) :
    ∃ p, s.model.adapter.problem = some p ∧ p.States s.model := by
  obtain ⟨p, hp, ha⟩ := h.assembles hs
  exact ⟨p, hp, ha.states (h.regular fun _ => ⟨rfl, rfl⟩)⟩

/-- A load with a limit, of which some is there already. -/
def Program.load {A : Adapter Extended Nat Nat} : Program A Unit .group :=
  .act (.createVariable "boxes" .integer (.finite 0) (.infinite false) (.default .var)) fun
    | .error e => .finish (.error e)
    | .ok x =>
      .act (.addConstraint "limit"
        ⟨x.owner, [.ofVariable (.finite 2) x, .constant (.finite 1)]⟩ .lessEqual
          ⟨x.owner, [.constant (.finite 9), .ofVariable (.finite 1) x]⟩ (.default .constraint)) fun
        | .error e => .finish (.error e)
        | .ok _ =>
          let value : Expression Extended :=
            ⟨x.owner, [.ofVariable (.finite 3) x, .constant (.finite 4)]⟩
          .act (.setObjective value .maximize) fun r => .finish r

def Run.loaded : Run (matrix fun _ _ (_ : Problem Extended) => ⟨.status .optimal, []⟩) Unit :=
  (new ⟨0⟩ "load" ({} : Matrix.State Extended) ()).after (.declare Program.load)

theorem Run.problem_states_loaded :
    let s := loaded.after .init
    s.Reachable ({} : Matrix.State Extended) ∧ s.model.stage = .initialized ∧
      ∃ p, s.model.adapter.problem = some p ∧ p.States s.model := by
  have hs : (loaded.after .init).Reachable ({} : Matrix.State Extended) :=
    ((Reachable.new _ _ _).after _).after _
  have hstage : (loaded.after .init).model.stage = .initialized := by
    refine stage_init rfl (by decide +kernel) ?_
    rw [phases_idle fun k => by cases k <;> rfl]
    decide +kernel
  exact ⟨hs, hstage, problem_states hs (.inl hstage)⟩

end Milp

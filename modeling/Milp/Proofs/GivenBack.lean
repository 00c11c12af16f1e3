import Milp.Proofs.Drawn
import Milp.Proofs.Reopened
import Milp.Proofs.RoundTrip

/-! Numbers that are given back. A model that takes over all of another has its numbers; one that was drawn from the
document of another, as that was read, has them only if the reader gave them back. -/
namespace Milp

variable {η κ η' κ' E F : Type} {A : Adapter Float η κ} {A' : Adapter Float η' κ'} {k : Kind}

theorem Registry.values_copy (r : Registry k E) (f : E → F) : (r.copy f).values = r.values.map f := by
  simp only [values, Table.values, copy, Table.map, List.map_map]
  rfl

/-- Entities that are registered under their names are told apart by them. -/
theorem Registry.Regular.eq_of_name {r : Registry k E} {name : E → String} (h : r.Regular name) {e e' : E}
    (he : e ∈ r.values) (he' : e' ∈ r.values) (hname : name e = name e') : e = e' := by
  obtain ⟨id, p, hp, rfl⟩ := mem_values.mp he
  obtain ⟨id', p', hp', rfl⟩ := mem_values.mp he'
  have hid : id = id' := (h.entities id p hp).2.1.symm.trans (hname.trans (h.entities id' p' hp').2.1)
  subst hid
  rw [hp] at hp'
  cases hp'
  rfl

theorem Stored.Lists.mem_iff {gs : List (Stored.Group F)} {ids : List String} {entities : List E} {store : E → F}
    (h : Stored.Lists gs ids (entities.map store)) {s : F} :
    s ∈ gs.flatMap (·.members) ↔ ∃ e ∈ entities, store e = s := h.once.mem_iff.trans List.mem_map

/-- What goes by the name of an entity where the stored groups were read is what was read of that entity, since the
groups list no other of this name. -/
theorem Registry.Regular.reread_store {r : Registry k E} {name : E → String} (h : r.Regular name) {store : E → F}
    {f : F → Option F} {gs gs' : List (Stored.Group F)} {ids : List String}
    (hlists : Stored.Lists gs ids (r.values.map store)) (hread : gs.mapM (Stored.Group.reread f) = some gs')
    {label : F → String} (hlabel : ∀ e s, f (store e) = some s → label s = name e) {e : E} (he : e ∈ r.values)
    {s : F} (hs : s ∈ gs'.flatMap (·.members)) (hname : label s = name e) : f (store e) = some s := by
  obtain ⟨t, ht, hts⟩ := Stored.exists_of_mem_reread hread hs
  obtain ⟨w, hw, rfl⟩ := hlists.mem_iff.mp ht
  have hsame : w = e := h.eq_of_name hw he ((hlabel w s hts).symm.trans hname)
  rwa [hsame] at hts

/-- What comes back of a stored expression are the terms that are stored. -/
theorem Expression.written_collected (owner : Token) (e : Expression Float) :
    (e.collected owner).written = e.store := by
  simp only [written, collected, store, List.isEmpty_map]
  split
  · rfl
  · simp only [List.map_map, Function.comp_def, Term.coefficient_withOwner, Term.name?_withOwner]

theorem Constraint.written_collected (owner : Token) (c : Constraint Float) :
    (c.collected owner).written = c.store := by
  simp only [written, collected, store, Expression.written_collected]

namespace Model

/-- The other model has the constants, coefficients, results and figures of this one. Like terms are
collected in what is stored, and the other model has what they come to. -/
structure GivesBack (m : Model A) (m' : Model A') : Prop where
  constants : m'.entities .constant = m.entities .constant
  constraints : (m'.entities .constraint).map Constraint.written = (m.entities .constraint).map Constraint.store
  objective : m'.objective.map (·.expression.written) = m.objective.map (·.expression.store)
  results : m'.results = m.results
  solution : m'.solution = m.solution

variable {m : Model A} {m' : Model A'}

theorem mem_results {id : String} {x : Float} :
    (id, x) ∈ m.results ↔ ∃ p, m.vars.entities.find? id = some p ∧ p.entity.result = some x := by
  simp only [results, List.mem_filterMap, Option.map_eq_some_iff, Prod.mk.injEq, Prod.exists,
    Table.find?_eq_some_iff]
  constructor
  · rintro ⟨id', p, hp, y, hy, rfl, rfl⟩
    exact ⟨p, hp, hy⟩
  · rintro ⟨p, hp, hx⟩
    exact ⟨id, p, hp, x, hx, rfl, rfl⟩

/-- A fresh model that takes over what a document has of another gives back all of its numbers. -/
theorem Regular.givesBack (h : m.Regular) (token : Token) (id : String) (adapter : A'.State) :
    m.GivesBack ((Model.new token id adapter : Model A').takeOver m.reopened) := by
  let n : Model A' := .new token id adapter
  have hvars : (n.takeOver m.reopened).vars = m.reopened.vars.copy (Variable.moveTo token) :=
    h.reopened.vars.merge_new _
  have hconstraints : (n.takeOver m.reopened).constraints = m.constraints.copy (Constraint.collected token) :=
    h.constraints.merge_new _
  have hconstants : (n.takeOver m.reopened).constants = m.constants.copy fun c => c :=
    h.constants.merge_new _
  refine ⟨?_, ?_, ?_, ?_, rfl⟩
  · change (n.takeOver m.reopened).constants.values = m.constants.values
    rw [hconstants, Registry.values_copy, List.map_id']
  · change (n.takeOver m.reopened).constraints.values.map _ = m.constraints.values.map _
    rw [hconstraints, Registry.values_copy, List.map_map]
    exact List.map_congr_left fun c _ => c.written_collected token
  · change ((m.objective.map _).or none).map _ = _
    rw [Option.or_none, Option.map_map]
    exact Option.map_congr fun o _ => o.expression.written_collected token
  · rw [results, results, hvars]
    change List.filterMap _ (List.map _ (List.map _ m.vars.entities.entries)) = _
    rw [List.filterMap_map, List.filterMap_map]
    rfl

section Read

/-! What is known of the reader, where the numbers of a model that were read are those of the other. -/

variable {r : Json.NumberReader} {d : Document Float}

theorem GivesBack.header (h : m.GivesBack m') (hm' : m'.Drawn d) (hread : m.storeHeader.reread r = some d.header) :
    m.storeHeader.Each r.GivesBack := by
  obtain ⟨-, -, -, hobjective, hsolution⟩ := Stored.Header.reread_eq_some hread
  refine ⟨fun e he => ?_, ?_⟩
  · have hmem : e ∈ m'.objective.map (·.expression.written) := h.objective ▸ he
    obtain ⟨o, ho, rfl⟩ := Option.mem_map.mp hmem
    rw [hm'.aim o ho, Option.mem_def.mp he] at hobjective
    exact Stored.Expression.reread_self.mp (optionMapM_self.mp hobjective _ rfl)
  · change m.solution.Each r.GivesBack
    rcases hm'.figures with hnone | hsome
    · rw [← h.solution, hnone]
      exact Solution.each_empty _
    · rw [← hsome, h.solution] at hsolution
      exact Solution.reread_self.mp hsolution

theorem GivesBack.givesBack_result (h : m.GivesBack m') (hm : m.Kept) (hregular : m.Regular) (hm' : m'.Drawn d)
    (hread : m.document.reread r = some d) {v : Variable Float} (hv : v ∈ m.entities .var) :
    ∀ x ∈ v.result, r.GivesBack x := by
  intro x hx
  obtain ⟨id, p, hp, rfl⟩ := Registry.mem_values.mp hv
  have hmem : (id, x) ∈ m'.results := h.results ▸ mem_results.mpr ⟨p, hp, hx⟩
  obtain ⟨q, hq, hresult⟩ := mem_results.mp hmem
  obtain ⟨s, hs, hid, hsx⟩ := hm'.results id q hq x hresult
  have hfs : p.entity.store.reread r = some s :=
    hregular.vars.reread_store (hm.lists .var Variable.store) (Document.reread_eq_some.mp hread).2.1
      (fun _ _ hs => (Stored.Variable.reread_eq_some hs).1) hv hs (hid.trans (hregular.vars.entities id p hp).2.1.symm)
  obtain ⟨-, -, -, hresult⟩ := Stored.Variable.reread_eq_some hfs
  rw [hsx] at hresult
  exact Json.NumberReader.rereadOptional_self.mp (hresult.trans (congrArg some hx.symm)) x hx

theorem GivesBack.constraint (h : m.GivesBack m') (hm : m.Kept) (hregular : m.Regular) (hm' : m'.Drawn d)
    (hread : m.document.reread r = some d) {c : Constraint Float} (hc : c ∈ m.entities .constraint) :
    c.store.Each r.GivesBack := by
  have hmem : c.store ∈ (m'.entities .constraint).map Constraint.written := h.constraints ▸ List.mem_map_of_mem hc
  obtain ⟨c', hc', hwritten⟩ := List.mem_map.mp hmem
  have hstored : c.store ∈ d.constraints := hwritten ▸ hm'.written c' hc'
  exact Stored.Constraint.reread_self.mp
    (hregular.constraints.reread_store (hm.lists .constraint Constraint.store)
      (Document.reread_eq_some.mp hread).2.2.1 (fun _ _ hs => Stored.Constraint.identifier_reread hs) hc hstored rfl)

theorem GivesBack.constant (h : m.GivesBack m') (hm : m.Kept) (hregular : m.Regular) (hm' : m'.Drawn d)
    (hread : m.document.reread r = some d) {c : Constant Float} (hc : c ∈ m.entities .constant) :
    c.store.Each r.GivesBack := by
  have hmem : c ∈ m'.entities .constant := h.constants ▸ hc
  exact Stored.Constant.reread_self.mp
    (hregular.constants.reread_store (hm.lists .constant Constant.store) (Document.reread_eq_some.mp hread).2.2.2
      (fun _ _ hs => Stored.Constant.identifier_reread hs) hc (hm'.stored c hmem) rfl)

/-- A model that was drawn from what was read of a document gives back all numbers only if the reader gave back
each of them, bounds apart. -/
theorem GivesBack.each (h : m.GivesBack m') (hm : m.Kept) (hregular : m.Regular) (hm' : m'.Drawn d)
    (hread : m.document.reread r = some d) {P : Float → Prop} (hP : ∀ x, r.GivesBack x → P x)
    (hbounds : m.document.Bounds P) : m.document.Each P := by
  have hresult {v : Variable Float} (hv : v ∈ m.entities .var) : ∀ x ∈ v.result, P x := fun x hx =>
    hP x (h.givesBack_result hm hregular hm' hread hv x hx)
  exact hm.each_document.mpr ⟨(h.header hm' (Document.reread_eq_some.mp hread).1).mono hP,
    fun v hv => ⟨hm.bounds_document.mp hbounds v hv, hresult hv⟩,
    fun c hc => (h.constraint hm hregular hm' hread hc).mono hP,
    fun c hc => hP _ (h.constant hm hregular hm' hread hc)⟩

/-- A number that is stored of a bound is finite. -/
theorem finite_of_bound (x : Float) : ∀ y ∈ if Unbounded.isFinite x then some x else none, y.isFinite = true := by
  intro y hy
  split at hy
  next hx =>
    cases hy
    exact hx
  next => cases hy

/-- And only if all numbers in the document are finite. -/
theorem GivesBack.finite_document (h : m.GivesBack m') (hm : m.Kept) (hregular : m.Regular) (hm' : m'.Drawn d)
    (hread : m.document.reread r = some d) : m.document.Finite :=
  h.each hm hregular hm' hread (fun _ => Json.NumberReader.GivesBack.isFinite)
    (hm.bounds_document.mpr fun v _ => ⟨finite_of_bound v.lower, finite_of_bound v.upper⟩)

theorem givesBack_of_getD {o o' : Option Float} {e : Float} (h : r.rereadOptional o = some o')
    (ho : ∀ x ∈ o, x.isFinite = true) (he : o'.getD e = o.getD e) : ∀ x ∈ o, r.GivesBack x := by
  rintro x ⟨⟩
  rw [Json.NumberReader.rereadOptional_finite (ho x rfl)] at h
  obtain ⟨y, hy, rfl⟩ := Option.map_eq_some_iff.mp h
  cases he
  exact hy

/-- Where a document as it was read makes the model that the document makes, its bounds were given back. -/
theorem Regular.bounds_of_restored (hregular : m.Regular) (hm : m.Kept) (hA' : A'.Usual)
    (hread : m.document.reread r = some d) {token : Token} {id : String} {adapter : A'.State}
    {journal journal' : List (Event Float)}
    (hr : Edit.restore d ((Model.new token id adapter : Model A'), journal) =
      (.ok (), (Model.new token id adapter).takeOver m.reopened, journal')) : m.document.Bounds r.GivesBack := by
  have hfresh : Edit.Reopened [] (Model.new token id adapter : Model A') := ⟨(hA' adapter).1, nofun⟩
  have hreopened := ((Edit.opens_restore d).ok hfresh hr).2
  refine hm.bounds_document.mpr fun v hv => ?_
  obtain ⟨id', p, hp, rfl⟩ := Registry.mem_values.mp hv
  obtain ⟨s, hs, hfs⟩ :=
    Stored.exists_mem_of_reread (Document.reread_eq_some.mp hread).2.1
      ((hm.lists .var Variable.store).mem_iff.mpr ⟨p.entity, hv, rfl⟩)
  obtain ⟨hname, hlower, hupper, -⟩ := Stored.Variable.reread_eq_some hfs
  obtain ⟨q, hq, hl, hu⟩ := hreopened s hs
  have hvars : ((Model.new token id adapter : Model A').takeOver m.reopened).vars =
      m.reopened.vars.copy (Variable.moveTo token) := hregular.reopened.vars.merge_new _
  have hid : s.identifier = id' := hname.trans (hregular.vars.entities id' p hp).2.1
  have hp : m.vars.entities.find? id' = some p := hp
  rw [hvars, hid, Registry.copy, Table.find?_map, Model.reopened, Registry.mapEntities, Table.find?_map, hp] at hq
  cases hq
  exact ⟨givesBack_of_getD hlower (finite_of_bound _) hl.symm, givesBack_of_getD hupper (finite_of_bound _) hu.symm⟩

end Read
end Model
end Milp

import Milp.Proofs.Coherence
import Milp.Proofs.Drafts
import Milp.Proofs.Imported
import Milp.Proofs.Infinities

/-! Models of which all numbers are finite, and what is stored of a model: where its numbers are finite, those
of the model are. -/
namespace Milp

variable {η κ β E F : Type} {A : Adapter Float η κ} {k : Kind}

namespace Registry

variable {r : Registry k E}

theorem mem_values {e : E} : e ∈ r.values ↔ ∃ id p, r.entities.find? id = some p ∧ p.entity = e := by
  simp only [values, Table.values, List.map_map, List.mem_map, Prod.exists, Table.find?_eq_some_iff]
  rfl

/-- What is registered newly or was registered before is all that is registered then. -/
theorem forall_values_insert {P : E → Prop} (h : ∀ e ∈ r.values, P e) {group id : String} {entity : E}
    (hnew : P entity) :
    ∀ e ∈ ({ r with entities := r.entities.insert id ⟨group, entity⟩ } : Registry k E).values, P e := by
  intro e he
  obtain ⟨id', p, hp, rfl⟩ := mem_values.mp he
  rw [Table.find?_insert] at hp
  split at hp
  · cases hp
    exact hnew
  · exact h _ (mem_values.mpr ⟨id', p, hp, rfl⟩)

end Registry

/-- A property of all that is stored is one of all entities. -/
theorem Stored.Lists.forall_iff {gs : List (Stored.Group F)} {ids : List String} {entities : List F}
    (h : Stored.Lists gs ids entities) (P : F → Prop) : (∀ g ∈ gs, g.All P) ↔ ∀ e ∈ entities, P e := by
  constructor
  · intro hall e he
    obtain ⟨g, hg, hmem⟩ := List.mem_flatMap.mp (h.once.mem_iff.mpr he)
    exact hall g hg e hmem
  · exact fun hall g hg e he => hall e (h.once.mem_iff.mp (List.mem_flatMap.mpr ⟨g, hg, he⟩))

/-- A sum is finite only if all numbers in it are. -/
theorem Binary64.isFinite_of_sum {cs : List Float} {s : Float} (h : (cs.foldl (· + ·) s).isFinite = true) :
    s.isFinite = true ∧ ∀ c ∈ cs, c.isFinite = true := by
  induction cs generalizing s with
  | nil => exact ⟨h, nofun⟩
  | cons c rest ih =>
    obtain ⟨hsum, hrest⟩ := ih h
    obtain ⟨hs, hc⟩ := isFinite_of_add hsum
    exact ⟨hs, List.forall_mem_cons.mpr ⟨hc, hrest⟩⟩

/-- The number of the term is finite. -/
def Term.Finite (t : Term Float) : Prop := t.coefficient.isFinite = true

instance (t : Term Float) : Decidable t.Finite := inferInstanceAs (Decidable (_ = _))

theorem Term.finite_constant {c : Float} : (Term.constant c).Finite ↔ c.isFinite = true := .rfl

theorem Term.finite_linear {c : Float} {id : String} {owner : Token} :
    (Term.linear c id owner).Finite ↔ c.isFinite = true := .rfl

theorem Term.finite_stored {t : Term Float} :
    (⟨t.coefficient, t.name?⟩ : Stored.Term Float).Finite ↔ t.Finite := .rfl

namespace Expression

/-- All numbers of the expression are finite. -/
def Finite (e : Expression Float) : Prop := ∀ t ∈ e.terms, t.Finite

instance (e : Expression Float) : Decidable e.Finite := inferInstanceAs (Decidable (∀ t ∈ e.terms, t.Finite))

theorem isFinite_zero : (Scalar.zero : Float).isFinite = true := rfl

theorem finite_of_absorb {c : Float} {id : String} {owner : Token} {ts : List (Term Float)}
    (h : ∀ t ∈ absorb c id owner ts, t.Finite) : c.isFinite = true ∧ ∀ t ∈ ts, t.Finite := by
  induction ts with
  | nil => exact ⟨Term.finite_linear.mp (h _ List.mem_cons_self), nofun⟩
  | cons t rest ih =>
    cases t with
    | constant c' =>
      obtain ⟨hfirst, hrest⟩ := List.forall_mem_cons.mp h
      obtain ⟨hc, hrest⟩ := ih hrest
      exact ⟨hc, List.forall_mem_cons.mpr ⟨hfirst, hrest⟩⟩
    | linear c' id' owner' =>
      rw [absorb] at h
      split at h
      next =>
        obtain ⟨hfirst, hrest⟩ := List.forall_mem_cons.mp h
        obtain ⟨hc', hc⟩ := Binary64.isFinite_of_add (Term.finite_linear.mp hfirst)
        exact ⟨hc, List.forall_mem_cons.mpr ⟨Term.finite_linear.mpr hc', hrest⟩⟩
      next =>
        obtain ⟨hfirst, hrest⟩ := List.forall_mem_cons.mp h
        obtain ⟨hc, hrest⟩ := ih hrest
        exact ⟨hc, List.forall_mem_cons.mpr ⟨hfirst, hrest⟩⟩

theorem finite_of_linearTerms {ts : List (Term Float)} (h : ∀ t ∈ linearTerms ts, t.Finite) {c : Float}
    {id : String} {owner : Token} (hmem : Term.linear c id owner ∈ ts) : c.isFinite = true := by
  induction ts using List.reverseRecOn with
  | nil => cases hmem
  | append_singleton ts t ih =>
    rw [linearTerms_concat] at h
    cases t with
    | constant => exact ih h (by simpa using hmem)
    | linear c' id' owner' =>
      obtain ⟨hc', hts⟩ := finite_of_absorb h
      rcases List.mem_append.mp hmem with hmem | hmem
      · exact ih hts hmem
      · cases List.mem_singleton.mp hmem
        exact hc'

variable {e : Expression Float}

/-- Where like terms come to finite numbers, each of them is finite. -/
theorem finite_of_reduce (h : e.reduce.Finite) : e.Finite := by
  let c := e.constants.foldl (· + ·) Scalar.zero
  have hreduce : ∀ t ∈ linearTerms e.terms ++ if c == Scalar.zero then [] else [.constant c], t.Finite := h
  obtain ⟨hlinear, hconstant⟩ := List.forall_mem_append.mp hreduce
  intro t ht
  cases t with
  | linear c id owner => exact Term.finite_linear.mpr (finite_of_linearTerms hlinear ht)
  | constant c' =>
    have hsum : c.isFinite = true := by
      cases hz : c == Scalar.zero with
      | true => exact Binary64.isFinite_of_beq hz isFinite_zero
      | false =>
        rw [hz] at hconstant
        exact Term.finite_constant.mp (hconstant _ List.mem_cons_self)
    have hc : c' ∈ e.constants := by
      rw [constants_eq]
      exact List.mem_filterMap.mpr ⟨_, ht, Term.constant?_constant c'⟩
    exact Term.finite_constant.mpr ((Binary64.isFinite_of_sum hsum).2 c' hc)

theorem finite_of_store (h : e.store.Finite) : e.Finite := by
  refine finite_of_reduce fun t ht => ?_
  have hmem : (⟨t.coefficient, t.name?⟩ : Stored.Term Float) ∈ e.store.terms := by
    rw [store]
    split
    next hempty =>
      rw [List.isEmpty_map, Bool.and_eq_true, List.isEmpty_iff] at hempty
      rw [hempty.1] at ht
      cases ht
    next => exact List.mem_map_of_mem ht
  exact Term.finite_stored.mp (h _ hmem)

end Expression

namespace Model

/-- All numbers of the model are finite, bounds apart. -/
structure Finite (m : Model A) : Prop where
  results : ∀ v ∈ m.entities .var, ∀ x ∈ v.result, x.isFinite = true
  sides : ∀ c ∈ m.entities .constraint, c.left.Finite ∧ c.right.Finite
  constants : ∀ c ∈ m.entities .constant, c.value.isFinite = true
  objective : ∀ o ∈ m.objective, o.expression.Finite
  solution : m.solution.Finite

instance (m : Model A) : Decidable m.Finite :=
  decidable_of_iff ((∀ v ∈ m.entities .var, ∀ x ∈ v.result, x.isFinite = true) ∧
    (∀ c ∈ m.entities .constraint, c.left.Finite ∧ c.right.Finite) ∧
    (∀ c ∈ m.entities .constant, c.value.isFinite = true) ∧ (∀ o ∈ m.objective, o.expression.Finite) ∧
    m.solution.Finite)
    ⟨fun ⟨hr, hc, hk, ho, hs⟩ => ⟨hr, hc, hk, ho, hs⟩,
      fun h => ⟨h.results, h.sides, h.constants, h.objective, h.solution⟩⟩

variable {m m' : Model A}

/-- What holds of each number in the document is what holds of those that the single parts of the model are
stored with. -/
theorem Kept.each_document (h : m.Kept) {P : Float → Prop} : m.document.Each P ↔
    m.storeHeader.Each P ∧ (∀ v ∈ m.entities .var, v.store.Each P) ∧
      (∀ c ∈ m.entities .constraint, c.store.Each P) ∧ ∀ c ∈ m.entities .constant, c.store.Each P := by
  have hvars := (h.lists .var Variable.store).forall_iff (Stored.Variable.Each P)
  have hconstraints := (h.lists .constraint Constraint.store).forall_iff (Stored.Constraint.Each P)
  have hconstants := (h.lists .constant Constant.store).forall_iff (Stored.Constant.Each P)
  simp only [List.forall_mem_map] at hvars hconstraints hconstants
  rw [← hvars, ← hconstraints, ← hconstants]
  exact ⟨fun h => ⟨h.header, h.variableGroups, h.constraintGroups, h.constantGroups⟩,
    fun h => ⟨h.1, h.2.1, h.2.2.1, h.2.2.2⟩⟩

theorem Kept.bounds_document (h : m.Kept) {P : Float → Prop} :
    m.document.Bounds P ↔ ∀ v ∈ m.entities .var, v.store.Bounds P := by
  have hvars := (h.lists .var Variable.store).forall_iff (Stored.Variable.Bounds P)
  rwa [List.forall_mem_map] at hvars

/-- No number of the model is finite in the document only: where all of these are, all of those are. -/
theorem Kept.finite_of_document (h : m.Kept) (hd : m.document.Finite) : m.Finite := by
  obtain ⟨hheader, hvars, hconstraints, hconstants⟩ := h.each_document.mp hd
  refine ⟨fun v hv => (hvars v hv).result, fun c hc => ?_, hconstants, fun o ho => ?_, hheader.solution⟩
  · obtain ⟨hleft, hright⟩ := hconstraints c hc
    exact ⟨Expression.finite_of_store hleft, Expression.finite_of_store hright⟩
  · exact Expression.finite_of_store (hheader.objective _ (Option.mem_map_of_mem _ ho))

end Model
end Milp
